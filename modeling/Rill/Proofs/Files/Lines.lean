-- SUMMARY: Lines that are written to a file are read back from it.
import Mathlib
import Rill.Proofs.Files.Streams
import Rill.Proofs.Texts.Functions

/-!
# Calls of file functions

Before a file function works on the file tree, what nothing refers to any more is reclaimed, and an open file that
is reclaimed writes out what it has collected. That changes contents of files, but not those of a file that
is open only where the roots refer to it.
-/

namespace Rill

open Files (OpenFile Tree)

-- ---------------------------------------------------------------------------
-- Files that are written out when they are reclaimed
-- ---------------------------------------------------------------------------

/-- The content that an object has open for writing. -/
def Object.writes? (o : Object) : Option Nat :=
  match o.content with
  | .file f => f.writes?
  | _ => none

/-- A file that no root refers to is open for writing the content: what it has collected may be written out at
any time. -/
def Machine.Pending (m : Machine) (k : Nat) : Prop :=
  ∃ id o, m.heap.object? id = some o ∧ o.writes? = some k ∧ .object id ∉ m.roots

theorem Object.release_edited (o : Object) (t : Tree) : t.Edited (o.release t) fun k => o.writes? = some k := by
  obtain ⟨cls, content⟩ := o
  cases content with
  | file f => exact f.flush_edited t
  | _ => exact .refl t

namespace Machine

variable {m m' : Machine} {k : Nat}

theorem Shrinks.pending (h : m.Shrinks m') (hk : m'.Pending k) : m.Pending k := by
  obtain ⟨id, o, halive, hwrites, hroot⟩ := hk
  rw [h.roots] at hroot
  rcases h.object? id with hsame | hnone
  · exact ⟨id, o, hsame ▸ halive, hwrites, hroot⟩
  · rw [hnone] at halive
    cases halive

theorem reclaimOnce_edited (m : Machine) (extra : List Value) :
    m.files.Edited (m.reclaimOnce extra).files m.Pending := by
  unfold reclaimOnce
  refine Tree.Edited.foldl (fun x hx t => ?_) m.files
  obtain ⟨o, k⟩ := x
  dsimp only
  split
  · next hdead =>
    cases o with
    | none => exact .refl t
    | some o =>
      have halive : m.heap.object? ⟨k⟩ = some o := Heap.mem_zipIdx_iff.mp hx
      have hroot : .object ⟨k⟩ ∉ m.roots := by
        intro hmem
        have hcount : (m.tally extra).objects.getD k 0 = (m.allReferences extra).count (.object ⟨k⟩) :=
          tally_objects (Heap.index_lt_of_object? halive)
        rw [of_decide_eq_true hdead] at hcount
        exact List.count_eq_zero.mp hcount.symm (by simp [allReferences, hmem])
      exact (o.release_edited t).mono fun j hj => ⟨⟨k⟩, o, halive, hj, hroot⟩
  · exact .refl t

/-- Reclaiming changes only contents for which something was waiting to be written. -/
theorem reclaim_edited (m : Machine) (extra : List Value) : m.files.Edited (m.reclaim extra).files m.Pending := by
  rw [reclaim]
  induction m.heap.population generalizing m with
  | zero => exact .refl _
  | succ fuel ih =>
    simp only [reclaimWithin]
    split
    · exact .refl _
    · exact (m.reclaimOnce_edited extra).trans ((ih _).mono fun k => (m.reclaimOnce_shrinks extra).pending)

-- ---------------------------------------------------------------------------
-- Open files that are kept
-- ---------------------------------------------------------------------------

/-- A root refers to the object, which is this open file. -/
structure HoldsFile (m : Machine) (id : ObjectId) (file : OpenFile) : Prop where
  rooted : .object id ∈ m.roots
  object : ∃ cls, m.heap.object? id = some ⟨cls, .file file⟩

/-- The machine after an operation on an open file, which leaves the file and the tree like this. -/
def refiled (m : Machine) (id : ObjectId) (file : OpenFile) (t : Tree) : Machine :=
  { m.reclaim with files := t, heap := m.reclaim.heap.setContent id (.file file) }

variable {id : ObjectId} {file file' : OpenFile} {t : Tree}

@[simp] theorem roots_refiled : (m.refiled id file t).roots = m.roots := (m.reclaim_shrinks []).roots

theorem HoldsFile.refiled (h : m.HoldsFile id file) : (m.refiled id file' t).HoldsFile id file' := by
  obtain ⟨hroot, cls, hobject⟩ := h
  have hsame : m.reclaim.heap.object? id = m.heap.object? id := object?_reclaim_of_mem_roots hroot
  refine ⟨by rwa [roots_refiled], cls, ?_⟩
  have hset := m.reclaim.heap.object?_setContent id id (.file file')
  rw [if_pos rfl, hsame, hobject] at hset
  exact hset

/-- The operation lets no other file wait. -/
theorem HoldsFile.pending_refiled (h : m.HoldsFile id file) (hk : (m.refiled id file' t).Pending k) : m.Pending k := by
  obtain ⟨j, o, halive, hwrites, hroot⟩ := hk
  rw [roots_refiled] at hroot
  have hj : id ≠ j := by
    rintro rfl
    exact hroot h.rooted
  have hset := m.reclaim.heap.object?_setContent id j (.file file')
  rw [if_neg hj] at hset
  exact (m.reclaim_shrinks []).pending ⟨j, o, hset.symm.trans halive, hwrites, by rwa [(m.reclaim_shrinks []).roots]⟩

end Machine

namespace Library

variable {m : Machine} (args : Arguments) {id : ObjectId} {file file' : OpenFile} {t : Tree}

/-- An operation on files that succeeds. -/
theorem withFiles_run {α : Type} {f : Tree → Except Failure (α × Tree)} {a : α} (hf : f m.reclaim.files = .ok (a, t)) :
    Run.withFiles f m = .ok a { m.reclaim with files := t } := by
  refine (Run.bind_of_ok (show Run.reclaim [] m = .ok () m.reclaim from rfl)).trans ?_
  refine (Run.bind_get _ _).trans ?_
  exact Run.bind_of_ok (Run.lift_of_ok hf)

/-- An operation on an open file that succeeds. -/
theorem useFile_run {α : Type} {f : OpenFile → Tree → Except Failure (α × OpenFile × Tree)} {a : α}
    (h : m.HoldsFile id file) (hargs : args.nth 0 = .object id) (hf : f file m.reclaim.files = .ok (a, file', t)) :
    useFile args f m = .ok a (m.refiled id file' t) := by
  obtain ⟨cls, hobject⟩ := h.object
  have hfile : fileOf args m = .ok (id, file) m := by
    refine (Run.bind_heap _ m).trans ?_
    have hcontent : m.heap.content? id = some (.file file) := by rw [Heap.content?, hobject]; rfl
    simp only [hargs, Heap.resolve, hcontent]
    rfl
  refine (Run.bind_of_ok hfile).trans ?_
  refine (Run.bind_of_ok (withFiles_run (a := (a, file')) (t := t) ?_)).trans rfl
  rw [hf]
  rfl

theorem readFrom_run {α : Type} {f : OpenFile → Tree → Except Failure (α × OpenFile)} {a : α}
    (h : m.HoldsFile id file) (hargs : args.nth 0 = .object id) (hf : f file m.reclaim.files = .ok (a, file')) :
    readFrom args f m = .ok a (m.refiled id file' m.reclaim.files) := by
  refine useFile_run args h hargs ?_
  rw [hf]
  rfl

end Library

end Rill

/-!
# Lines of files

A file is opened, lines are written to it in any number of calls, it is closed, and it is opened again and read.
However the calls that read are mixed, they share one place in the file: each takes what it gives off
the items that are left. What a call gives is the item as it was written, but for a carriage return at its end, which
is taken for a part of the line terminator.
-/

namespace Rill

open Files (OpenFile Tree IsLine bare framed)

-- ---------------------------------------------------------------------------
-- Calls that write and calls that read
-- ---------------------------------------------------------------------------

/-- Runs a computation for the host, which keeps its value. -/
def Run.kept (x : Run Value) : Run Value := do
  let v ← x
  modify fun m => { m with held := v :: m.held }
  return v

/-- A call that writes one line, or one that writes the items of a list. -/
inductive Writing
  | line (item : String)
  | lines (items : List String)

namespace Writing

def items : Writing → List String
  | line item => [item]
  | lines items => items

def run (file : Value) : Writing → Run Unit
  | line item => do
    let _ ← Library.file .writeLine #[file, .text item]
  | lines items => do
    let list ← Run.newList (items.map Value.text).toArray
    let _ ← Library.file .writeLines #[file, list]

end Writing

/-- A call that reads the next line, one that reads all lines that are left, and one that asks for the end. -/
inductive Reading
  | line
  | lines
  | atEnd
  deriving Repr, DecidableEq

namespace Reading

def function : Reading → FileFunction
  | line => .readLine
  | lines => .readLines
  | atEnd => .atEnd

/-- What a call gives: the items of a list, and otherwise the value alone. -/
def run (file : Value) (r : Reading) : Run (List Value) := do
  let v ← Library.file r.function #[file]
  match (← Run.heap).listOf v with
  | .ok items => return items.toList
  | .error _ => return [v]

/-- What a call has to give when these items are left. -/
def answer : Reading → List String → List Value
  | line, items => [(items.head?.map bare).elim .null .text]
  | lines, items => items.map fun item => .text (bare item)
  | atEnd, items => [.bool items.isEmpty]

/-- The items that a call leaves. -/
def left : Reading → List String → List String
  | line, items => items.tail
  | lines, _ => []
  | atEnd, items => items

/-- What calls have to give, one after the other. -/
def answers : List Reading → List String → List (List Value)
  | [], _ => []
  | r :: rest, items => r.answer items :: answers rest (r.left items)

end Reading

/-- Writes lines to a new file, closes it, reads it as a whole, and opens it again for calls that read. -/
def writeAndRead (path : String) (writes : List Writing) (reads : List Reading) : Run (Value × List (List Value)) := do
  let out ← (Library.file .openMode #[.text path, .text "w"]).kept
  writes.forM (·.run out)
  let _ ← Library.file .close #[out]
  let text ← Library.file .readFile #[.text path]
  let source ← (Library.file .openRead #[.text path]).kept
  let answers ← reads.mapM (·.run source)
  return (text, answers)

-- ---------------------------------------------------------------------------
-- States of the machine in between
-- ---------------------------------------------------------------------------

variable {m : Machine} {id : ObjectId} {path : String} {k : Nat} {text : List Char} {items : List String}

/-- The object is a file that is open for writing, and this is what has been written through it. -/
structure Machine.WritesFile (m : Machine) (id : ObjectId) (path : String) (k : Nat) (text : List Char) : Prop where
  leads : m.files.Leads path k
  calm : ¬m.Pending k
  file : ∃ file, m.HoldsFile id file ∧ file.Writes m.files k text

/-- The path leads to a content with this text, and nothing is waiting to change it. -/
structure Machine.StoresText (m : Machine) (path : String) (k : Nat) (text : List Char) : Prop where
  leads : m.files.Leads path k
  calm : ¬m.Pending k
  content : m.files.content k = String.ofList text

/-- The object is a file that is open for reading, and this is left to be read. -/
structure Machine.ReadsFile (m : Machine) (id : ObjectId) (k : Nat) (rest : List Char) : Prop where
  calm : ¬m.Pending k
  file : ∃ file, m.HoldsFile id file ∧ file.Reads m.files k rest

theorem Machine.StoresText.reclaim (h : m.StoresText path k text) : m.reclaim.StoresText path k text := by
  have hedited := m.reclaim_edited []
  refine ⟨hedited.extends.leads h.leads, fun hk => h.calm ((m.reclaim_shrinks []).pending hk), ?_⟩
  rw [hedited.content k h.calm, h.content]

namespace Library

-- ---------------------------------------------------------------------------
-- Opening
-- ---------------------------------------------------------------------------

theorem Arguments.string_run {args : Arguments} {j : Nat} {s : String} (h : args.nth j = .text s) :
    args.text j m = .ok s m := by
  refine (Run.bind_heap _ m).trans (Run.lift_of_ok ?_)
  rw [Heap.textOf, h]
  rfl

/-- A file that can be opened is opened and kept; no other file is made to wait. -/
theorem openFile_kept (args : Arguments) {mode : String} {file : OpenFile} {t : Tree}
    (hpath : args.nth 0 = .text path) (hopen : OpenFile.openPath m.reclaim.files path mode = .ok (file, t)) :
    ∃ id m', (openFile args mode).kept m = .ok (.object id) m' ∧ m'.files = t ∧ m'.HoldsFile id file ∧
      ∀ k, m'.Pending k → m.Pending k := by
  have hrun : openFile args mode m = .ok _ _ :=
    (Run.bind_of_ok (Arguments.string_run hpath)).trans ((Run.bind_of_ok (withFiles_run hopen)).trans rfl)
  refine ⟨_, _, (Run.bind_of_ok hrun).trans rfl, rfl, ⟨?_, .file, ?_⟩, ?_⟩
  · simp [Machine.roots]
  · exact (Heap.object?_allocate _ _ _ _).trans (if_pos rfl)
  · rintro k ⟨j, o, halive, hwrites, hroot⟩
    have hnew := (Heap.object?_allocate m.reclaim.heap .file (.file file) j).symm.trans halive
    split at hnew
    · next hj =>
      refine absurd ?_ hroot
      simp [Machine.roots, ← hj]
    · refine (m.reclaim_shrinks []).pending ⟨j, o, hnew, hwrites, fun hmem => hroot ?_⟩
      simp only [Machine.roots, List.mem_append, List.mem_cons] at hmem ⊢
      tauto

/-- A path that can be opened for writing is opened for writing from the start. -/
theorem openWrite_run {t : Tree} (hsound : m.files.Sound) (hopen : m.files.openForWriting path true = .ok (k, t))
    (hcalm : ¬m.Pending k) : ∃ id m',
      (file .openMode #[.text path, .text "w"]).kept m = .ok (.object id) m' ∧ m'.WritesFile id path k [] := by
  have hedited := m.reclaim_edited []
  obtain ⟨t', hopen'⟩ := hedited.openForWriting hopen
  obtain ⟨hleads, hk, hempty⟩ := Tree.opened_empty (hedited.sound hsound) hopen'
  have hpath : OpenFile.openPath m.reclaim.files path "w" = .ok (⟨path, .writing k false 0 ""⟩, t') := by
    simp only [OpenFile.openPath, hopen']
  obtain ⟨id, m', hrun, rfl, hkeeps, hpending⟩ :=
    openFile_kept #[.text path, .text "w"] rfl hpath
  refine ⟨id, m', hrun, hleads, fun hk' => hcalm (hpending k hk'), _, hkeeps, hk, "", ?_, ?_⟩
  · rw [hempty, String.length_empty]
  · rw [hempty]
    rfl

-- ---------------------------------------------------------------------------
-- Writing
-- ---------------------------------------------------------------------------

/-- Texts that are written are appended to what has been written. -/
theorem writeTexts_run (args : Arguments) (h : m.WritesFile id path k text) (hargs : args.nth 0 = .object id)
    (texts : List String) :
    ∃ m', writeTexts args texts m = .ok .null m' ∧ m'.WritesFile id path k (text ++ texts.flatMap (·.toList)) := by
  obtain ⟨hleads, hcalm, f, hkeeps, hwrites⟩ := h
  have hedited := m.reclaim_edited []
  obtain ⟨f', t', hrun, hwrites', hedited'⟩ := (hwrites.edited hedited hcalm).writeAll texts
  refine ⟨_, useFile_run args hkeeps hargs ?_, ?_, fun hk => hcalm (hkeeps.pending_refiled hk), f', hkeeps.refiled,
    hwrites'⟩
  · rw [hrun]
    rfl
  · exact hedited'.extends.leads (hedited.extends.leads hleads)

/-- A new list leaves open files as they are. -/
theorem newList_kept (items : Array Value) (m : Machine) : ∃ list m', Run.newList items m = .ok (.object list) m' ∧
    m'.heap.content? list = some (.list items) ∧ m'.files = m.files ∧
    (∀ id file, m.HoldsFile id file → m'.HoldsFile id file) ∧ ∀ k, m'.Pending k → m.Pending k := by
  have hobject (j : ObjectId) := Heap.object?_allocate m.heap .list (.list items) j
  refine ⟨_, _, rfl, ?_, rfl, fun id file h => ⟨h.rooted, ?_⟩, ?_⟩
  · exact congrArg (Option.map (·.content)) ((hobject _).trans (if_pos rfl))
  · obtain ⟨cls, halive⟩ := h.object
    have hold := Nat.ne_of_lt (Heap.index_lt_of_object? halive)
    exact ⟨cls, (hobject id).trans ((if_neg hold).trans halive)⟩
  · rintro k ⟨j, o, halive, hwrites, hroot⟩
    have hnew := (hobject j).symm.trans halive
    split at hnew
    · cases hnew
      cases hwrites
    · exact ⟨j, o, hnew, hwrites, hroot⟩

/-- The items of a list of texts. -/
theorem listOf_texts {h : Heap} {list : ObjectId} {items : List String}
    (hcontent : h.content? list = some (.list (items.map Value.text).toArray)) :
    h.listOf (.object list) = .ok (items.map Value.text).toArray := by
  have hobject : h.contentOf (.object list) = some (.list (items.map Value.text).toArray) := hcontent
  simp [Heap.listOf, hobject, Heap.resolve]

theorem text_string (h : Heap) (s : String) : h.text (.text s) = s := by
  rw [Heap.text, Heap.textWithin]
  rfl

/-- A call that writes appends its lines. -/
theorem writing_run (h : m.WritesFile id path k text) (w : Writing) :
    ∃ m', w.run (.object id) m = .ok () m' ∧ m'.WritesFile id path k (text ++ framed w.items) := by
  cases w with
  | line item =>
    obtain ⟨m', hrun, hwrites⟩ := writeTexts_run #[.object id, .text item] h rfl [item ++ "\n"]
    refine ⟨m', ?_, ?_⟩
    · have hcall : file .writeLine #[.object id, .text item] m = .ok .null m' :=
        (Run.bind_of_ok (Arguments.string_run rfl)).trans hrun
      exact (Run.bind_of_ok hcall).trans rfl
    · simpa [framed, Writing.items] using hwrites
  | lines items =>
    obtain ⟨list, m₁, hlist, hcontent, hfiles, hkeeps, hpending⟩ := newList_kept (items.map Value.text).toArray m
    have h₁ : m₁.WritesFile id path k text := by
      obtain ⟨file, hfile, hwrites⟩ := h.file
      exact ⟨hfiles ▸ h.leads, fun hk => h.calm (hpending k hk), file, hkeeps id file hfile, hfiles ▸ hwrites⟩
    have htexts : (items.map Value.text).map (fun line => m₁.heap.text line ++ "\n") = items.map (· ++ "\n") := by
      rw [List.map_map]
      refine List.map_congr_left fun item _ => ?_
      exact congrArg (· ++ "\n") (text_string m₁.heap item)
    obtain ⟨m', hrun, hwrites⟩ :=
      writeTexts_run #[.object id, .object list] h₁ rfl (items.map (· ++ "\n"))
    refine ⟨m', ?_, ?_⟩
    · have hitems : Arguments.list #[.object id, .object list] 1 m₁ = .ok (items.map Value.text).toArray m₁ :=
        (Run.bind_heap _ m₁).trans (Run.lift_of_ok (listOf_texts hcontent))
      have hcall : file .writeLines #[.object id, .object list] m₁ = .ok .null m' := by
        refine (Run.bind_heap _ m₁).trans ((Run.bind_of_ok hitems).trans ?_)
        rw [htexts]
        exact hrun
      exact (Run.bind_of_ok hlist).trans ((Run.bind_of_ok hcall).trans rfl)
    · rwa [Files.flatMap_lines] at hwrites

/-- Calls that write append their lines in order. -/
theorem writings_run (h : m.WritesFile id path k text) (ws : List Writing) : ∃ m',
    ws.forM (·.run (.object id)) m = .ok () m' ∧ m'.WritesFile id path k (text ++ framed (ws.flatMap (·.items))) := by
  induction ws generalizing m text with
  | nil => exact ⟨m, rfl, by simpa using h⟩
  | cons w ws ih =>
    obtain ⟨m₁, hrun, h₁⟩ := writing_run h w
    obtain ⟨m', hrest, h'⟩ := ih h₁
    refine ⟨m', ?_, ?_⟩
    · exact (Run.bind_of_ok hrun).trans hrest
    · rwa [List.flatMap_cons, Files.framed_append, ← List.append_assoc]

/-- After it has been closed the content has what has been written. -/
theorem close_run (h : m.WritesFile id path k text) :
    ∃ m', file .close #[.object id] m = .ok .null m' ∧ m'.StoresText path k text := by
  obtain ⟨hleads, hcalm, f, hkeeps, hwrites⟩ := h
  have hedited := m.reclaim_edited []
  obtain ⟨-, hcontent, hedited'⟩ := (hwrites.edited hedited hcalm).close
  have hrun := useFile_run (f := fun file t => .ok (Value.null, (file.close t).1, (file.close t).2)) #[.object id]
    hkeeps rfl rfl
  refine ⟨_, hrun, ?_, fun hk => hcalm (hkeeps.pending_refiled hk), hcontent⟩
  exact hedited'.extends.leads (hedited.extends.leads hleads)

-- ---------------------------------------------------------------------------
-- Reading
-- ---------------------------------------------------------------------------

/-- A file that is read as a whole gives the whole text. -/
theorem readFile_run (h : m.StoresText path k text) :
    ∃ m', file .readFile #[.text path] m = .ok (.text (String.ofList text)) m' ∧ m'.StoresText path k text := by
  have hafter := h.reclaim
  obtain ⟨place, hlookup⟩ := hafter.leads
  have hread : m.reclaim.files.read path = .ok (String.ofList text) := by
    rw [Tree.read, hlookup, ← hafter.content]
    rfl
  refine ⟨m.reclaim, ?_, hafter⟩
  have hfile : Run.readFile path m = .ok (String.ofList text) m.reclaim := by
    refine withFiles_run ?_
    rw [hread]
    rfl
  exact (Run.bind_of_ok (Arguments.string_run rfl)).trans ((Run.bind_of_ok hfile).trans rfl)

/-- A file that has been written can be opened, and is then read from its start. -/
theorem openRead_run (h : m.StoresText path k text) :
    ∃ id m', (file .openRead #[.text path]).kept m = .ok (.object id) m' ∧ m'.ReadsFile id k text := by
  have hafter := h.reclaim
  obtain ⟨place, hlookup⟩ := hafter.leads
  have hopen : OpenFile.openPath m.reclaim.files path "r" = .ok (⟨path, .reading (some k) 0 []⟩, m.reclaim.files) := by
    simp only [OpenFile.openPath, hlookup]
  obtain ⟨id, m', hrun, hfiles, hkeeps, hpending⟩ := openFile_kept #[.text path] rfl hopen
  refine ⟨id, m', hrun, fun hk => h.calm (hpending k hk), _, hkeeps, 0, [], rfl, ?_, ?_⟩
  · rw [hfiles, hafter.content]
    simp
  · rw [hfiles, hafter.content]
    simp

/-- A call that reads gives what it has to give, and leaves what it has to leave. -/
theorem reading_run (h : m.ReadsFile id k (framed items)) (hitems : ∀ item ∈ items, IsLine item) (r : Reading) : ∃ m',
    r.run (.object id) m = .ok (r.answer items) m' ∧ m'.ReadsFile id k (framed (r.left items)) := by
  obtain ⟨hcalm, f, hkeeps, hreads⟩ := h
  have hreads := hreads.congr ((m.reclaim_edited []).content k hcalm)
  have hafter {f' : OpenFile} {rest : List String} (h' : f'.Reads m.reclaim.files k (framed rest)) :
      (m.refiled id f' m.reclaim.files).ReadsFile id k (framed rest) :=
    ⟨fun hk => hcalm (hkeeps.pending_refiled hk), f', hkeeps.refiled, h'⟩
  cases r with
  | line =>
    obtain ⟨f', hread, hreads'⟩ := hreads.readLine_framed hitems
    have hcall : file .readLine #[.object id] m = .ok ((items.head?.map bare).elim .null .text) _ :=
      (Run.bind_of_ok (readFrom_run _ hkeeps rfl hread)).trans rfl
    refine ⟨_, (Run.bind_of_ok hcall).trans ?_, hafter hreads'⟩
    cases items <;> rfl
  | lines =>
    have hfuel : items.length < OpenFile.bufferBound m.reclaim.files := by
      have ⟨_, _, _, _, hlength⟩ := hreads
      have := Files.length_le_framed items
      have := Files.length_lt_bufferBound m.reclaim.files k
      omega
    obtain ⟨f', hread, hreads'⟩ := hreads.readLines_framed hitems hfuel
    have hdone : (m.refiled id f' m.reclaim.files).ReadsFile id k (framed []) := hafter hreads'
    obtain ⟨list, m', hlist, hcontent, hfiles, hkept, hpending⟩ :=
      newList_kept ((items.map bare).map Value.text).toArray (m.refiled id f' m.reclaim.files)
    have hcall : file .readLines #[.object id] m = .ok (.object list) m' :=
      (Run.bind_of_ok (readFrom_run _ hkeeps rfl hread)).trans hlist
    refine ⟨m', ?_, fun hk => hdone.calm (hpending k hk), ?_⟩
    · refine (Run.bind_of_ok hcall).trans ((Run.bind_heap _ m').trans ?_)
      rw [listOf_texts hcontent]
      simp only [Reading.answer, List.map_map]
      rfl
    · obtain ⟨f'', hfile, hrest⟩ := hdone.file
      exact ⟨f'', hkept id f'' hfile, hfiles ▸ hrest⟩
  | atEnd =>
    obtain ⟨f', hread, hreads'⟩ := hreads.atEnd_framed
    have hcall : file .atEnd #[.object id] m = .ok (.bool items.isEmpty) _ :=
      (Run.bind_of_ok (readFrom_run _ hkeeps rfl hread)).trans rfl
    exact ⟨_, (Run.bind_of_ok hcall).trans rfl, hafter hreads'⟩

/-- Calls that read share one place in the file. -/
theorem readings_run (h : m.ReadsFile id k (framed items)) (hitems : ∀ item ∈ items, IsLine item) (rs : List Reading) :
    ∃ m', rs.mapM (·.run (.object id)) m = .ok (Reading.answers rs items) m' := by
  induction rs generalizing m items with
  | nil => exact ⟨m, rfl⟩
  | cons r rs ih =>
    obtain ⟨m₁, hrun, h₁⟩ := reading_run h hitems r
    have hleft : ∀ item ∈ r.left items, IsLine item := by
      cases r with
      | line => exact fun item hitem => hitems item (List.mem_of_mem_tail hitem)
      | lines => exact List.forall_mem_nil _
      | atEnd => exact hitems
    obtain ⟨m', hrest⟩ := ih h₁ hleft
    refine ⟨m', ?_⟩
    rw [List.mapM_cons, Run.bind_of_ok hrun, Run.bind_of_ok hrest]
    rfl

end Library

-- ---------------------------------------------------------------------------
-- Answers
-- ---------------------------------------------------------------------------

/-- One line after the other gives all items, and then null. -/
theorem Reading.answers_lines (items : List String) :
    answers (List.replicate (items.length + 1) .line) items =
      items.map (fun item => [.text (bare item)]) ++ [[.null]] := by
  induction items with
  | nil => rfl
  | cons item items ih =>
    rw [List.length_cons, List.replicate_succ, answers, List.map_cons, List.cons_append, ← ih]
    rfl

/-- The file is at its end exactly when there is no next line. -/
theorem Reading.answer_atEnd (items : List String) :
    answer .atEnd items = [.bool true] ↔ answer .line items = [.null] := by
  cases items <;> simp [answer]

-- ---------------------------------------------------------------------------
-- All calls together
-- ---------------------------------------------------------------------------

/-- What is written is read: as a whole each line has its line feed, and line by line it has none. -/
theorem writeAndRead_run {writes : List Writing} {t : Tree} (hlines : ∀ w ∈ writes, ∀ item ∈ w.items, IsLine item)
    (hsound : m.files.Sound) (hopen : m.files.openForWriting path true = .ok (k, t)) (hcalm : ¬m.Pending k)
    (reads : List Reading) :
    ∃ m', writeAndRead path writes reads m = .ok (.text (String.ofList (framed (writes.flatMap (·.items)))),
      Reading.answers reads (writes.flatMap (·.items))) m' := by
  obtain ⟨out, m₁, hout, h₁⟩ := Library.openWrite_run hsound hopen hcalm
  obtain ⟨m₂, hwrites, h₂⟩ := Library.writings_run h₁ writes
  obtain ⟨m₃, hclose, h₃⟩ := Library.close_run h₂
  obtain ⟨m₄, htext, h₄⟩ := Library.readFile_run h₃
  obtain ⟨source, m₅, hsource, h₅⟩ := Library.openRead_run h₄
  have hitems : ∀ item ∈ writes.flatMap (·.items), IsLine item := by
    intro item hitem
    obtain ⟨w, hw, hitem⟩ := List.mem_flatMap.mp hitem
    exact hlines w hw item hitem
  obtain ⟨m', hreads⟩ := Library.readings_run h₅ hitems reads
  refine ⟨m', ?_⟩
  refine (Run.bind_of_ok hout).trans ((Run.bind_of_ok hwrites).trans ((Run.bind_of_ok hclose).trans ?_))
  exact (Run.bind_of_ok htext).trans ((Run.bind_of_ok hsource).trans ((Run.bind_of_ok hreads).trans rfl))

/-- Lines without line feeds that are written to a file, in one call or several, are read back from it. The file as a
whole is the lines with a line feed behind each. Calls that read, however they are mixed, give the lines one
after the other, or all that are left; line after line they are followed by null, and the end of the file is
reported exactly when the next line would be null. A line is given as it was written, without the carriage
return if it ends in one. -/
theorem written_lines_read_back {writes : List Writing} {t : Tree}
    (hlines : ∀ w ∈ writes, ∀ item ∈ w.items, IsLine item) (hsound : m.files.Sound)
    (hopen : m.files.openForWriting path true = .ok (k, t)) (hcalm : ¬m.Pending k) :
    (∀ reads, ∃ m', writeAndRead path writes reads m =
      .ok (.text (String.ofList (framed (writes.flatMap (·.items)))),
        Reading.answers reads (writes.flatMap (·.items))) m') ∧
      ∀ items, Reading.answers [.lines] items = [items.map fun item => .text (bare item)] ∧
        Reading.answers (List.replicate (items.length + 1) .line) items =
          items.map (fun item => [.text (bare item)]) ++ [[.null]] ∧
        (Reading.answer .atEnd items = [.bool true] ↔ Reading.answer .line items = [.null]) ∧
        ∀ item ∈ items, item.toList.getLast? ≠ some '\r' → bare item = item :=
  ⟨writeAndRead_run hlines hsound hopen hcalm, fun items => ⟨rfl, Reading.answers_lines items,
    Reading.answer_atEnd items, fun _ _ => Files.bare_eq⟩⟩

theorem openForWriting_new : ({} : Tree).openForWriting "t" true = .ok (0, ⟨[(["t"], .file 0)], #[""], []⟩) := by cbv

/-- A machine without files and objects. -/
theorem empty_calm (k : Nat) : ¬({ config := {} } : Machine).Pending k := by
  rintro ⟨id, o, halive, -⟩
  simp [Heap.object?] at halive

theorem empty_sound : ({} : Tree).Sound := by
  intro place k hentry
  by_cases hplace : place = [] <;> simp [hplace, Tree.entry?] at hentry

/-- Three lines, one of them empty and one with a carriage return at its end. -/
theorem written_lines_read_back_mixed :
    (∀ w ∈ [Writing.lines ["a", ""], .line "b\r"], ∀ item ∈ w.items, IsLine item) ∧ ({} : Tree).Sound ∧
      ({} : Tree).openForWriting "t" true = .ok (0, ⟨[(["t"], .file 0)], #[""], []⟩) ∧
      ¬({ config := {} } : Machine).Pending 0 ∧
      (∀ reads, ∃ m', writeAndRead "t" [.lines ["a", ""], .line "b\r"] reads { config := {} } =
        .ok (.text "a\n\nb\r\n", Reading.answers reads ["a", "", "b\r"]) m') ∧
      Reading.answers [.atEnd, .line, .lines, .line, .atEnd] ["a", "", "b\r"] =
        [[.bool false], [.text "a"], [.text "", .text "b"], [.null], [.bool true]] := by
  have hlines : ∀ w ∈ [Writing.lines ["a", ""], .line "b\r"], ∀ item ∈ w.items, IsLine item := by decide
  exact ⟨hlines, empty_sound, openForWriting_new, empty_calm 0,
    (written_lines_read_back hlines empty_sound openForWriting_new (empty_calm 0)).1, by decide⟩

/-- A line that ends in a carriage return is not read back as it was written. -/
theorem carriage_return_lost : IsLine "a\r" ∧ Value.text "a" ≠ .text "a\r" ∧
    ∃ m', writeAndRead "t" [.lines ["a\r"]] [.lines] { config := {} } = .ok (.text "a\r\n", [[.text "a"]]) m' := by
  have hlines : ∀ w ∈ [Writing.lines ["a\r"]], ∀ item ∈ w.items, IsLine item := by decide
  exact ⟨by decide, by decide, writeAndRead_run hlines empty_sound openForWriting_new (empty_calm 0) [.lines]⟩

end Rill
