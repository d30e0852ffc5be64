-- SUMMARY: What an open file has still to read or has written, and where the paths of files lead.
import Mathlib.Data.List.TakeWhile
import Rill.Files.Stream

/-!
# Open files

A file that is read has a buffer of characters taken from its content, and a file that is written one of
characters not yet put there. Seen from outside there are no buffers: a file that is read has a rest, from which
lines are taken off, and a file that is written has a text, to which others are appended.
-/

namespace Rill.Files

variable {f : OpenFile} {t t' : Tree} {k : Nat}

-- ---------------------------------------------------------------------------
-- Lines of a text
-- ---------------------------------------------------------------------------

/-- The first line of a text, with its line feed if there is one, and what follows it. -/
def firstLine : List Char → List Char × List Char
  | [] => ([], [])
  | c :: rest => if c = '\n' then (['\n'], rest) else (c :: (firstLine rest).1, (firstLine rest).2)

theorem firstLine_append {line : List Char} (h : '\n' ∉ line) (rest : List Char) :
    firstLine (line ++ rest) = (line ++ (firstLine rest).1, (firstLine rest).2) := by
  induction line with
  | nil => rfl
  | cons c line ih =>
    obtain ⟨hc, hline⟩ := List.ne_and_not_mem_of_not_mem_cons h
    simp only [List.cons_append, firstLine, if_neg (Ne.symm hc), ih hline]

/-- A line ends at its line feed. -/
theorem firstLine_terminated {line : List Char} (h : '\n' ∉ line) (rest : List Char) :
    firstLine (line ++ '\n' :: rest) = (line ++ ['\n'], rest) :=
  firstLine_append h _

theorem firstLine_eq_nil {text : List Char} : (firstLine text).1 = [] ↔ text = [] := by
  cases text with
  | nil => simp [firstLine]
  | cons c rest =>
    simp only [firstLine]
    split <;> simp

-- ---------------------------------------------------------------------------
-- Buffers
-- ---------------------------------------------------------------------------

theorem takeBytes_prefix (n : Nat) (text : List Char) : takeBytes n text <+: text := by
  induction text generalizing n with
  | nil => exact List.prefix_rfl
  | cons c rest ih =>
    simp only [takeBytes]
    split
    · exact List.cons_prefix_cons.mpr ⟨rfl, ih _⟩
    · exact List.nil_prefix

/-- A buffer has room for a character. -/
theorem takeBytes_eq_nil {text : List Char} : takeBytes bufferSize text = [] ↔ text = [] := by
  cases text with
  | nil => simp [takeBytes]
  | cons c rest =>
    have hroom : c.utf8Size ≤ bufferSize := Nat.le_trans c.utf8Size_le_four (by decide)
    simp [takeBytes, hroom]

/-- What stands before the first line feed of a buffer, and what is left from there on. -/
theorem takeWhile_line (buffer : List Char) : ∃ line after, buffer.takeWhile (· ≠ '\n') = line ∧
    buffer.drop line.length = after ∧ buffer = line ++ after ∧ '\n' ∉ line ∧
    (after = [] ∨ ∃ left, after = '\n' :: left) := by
  induction buffer with
  | nil => exact ⟨[], [], rfl, rfl, rfl, List.not_mem_nil, .inl rfl⟩
  | cons c buffer ih =>
    by_cases hc : c = '\n'
    · exact ⟨[], c :: buffer, by simp [hc], rfl, rfl, List.not_mem_nil, .inr ⟨buffer, by rw [hc]⟩⟩
    · obtain ⟨line, after, hline, hafter, hsplit, hnone, hleft⟩ := ih
      refine ⟨c :: line, after, by simp [hc, ← hline], hafter, by rw [List.cons_append, ← hsplit], ?_, hleft⟩
      exact List.not_mem_cons_of_ne_of_not_mem (Ne.symm hc) hnone

/-- A sum of lengths is not below its start, nor below the length of any of the texts above it. -/
theorem length_le_foldl (texts : List String) (n : Nat) : n ≤ texts.foldl (fun n text => n + text.length) n ∧
    ∀ text ∈ texts, n + text.length ≤ texts.foldl (fun n text => n + text.length) n := by
  induction texts generalizing n with
  | nil => simp
  | cons first texts ih =>
    obtain ⟨hle, htexts⟩ := ih (n + first.length)
    simp only [List.foldl_cons, List.mem_cons, forall_eq_or_imp]
    refine ⟨by omega, hle, fun text htext => ?_⟩
    have := htexts text htext
    omega

/-- There are more buffers than characters in a content. -/
theorem length_lt_bufferBound (t : Tree) (k : Nat) : (t.content k).length < OpenFile.bufferBound t := by
  have hbound := length_le_foldl t.contents.toList 2
  rw [Array.foldl_toList] at hbound
  obtain ⟨hle, htexts⟩ := hbound
  change _ < t.contents.foldl _ 2
  by_cases hk : k < t.contents.size
  · have hcontent : t.content k = t.contents[k] := by simp [Tree.content, Array.getD, hk]
    have := htexts t.contents[k] (Array.getElem_mem_toList hk)
    rw [hcontent]
    omega
  · have hcontent : t.content k = "" := by simp [Tree.content, Array.getD, hk]
    rw [hcontent, String.length_empty]
    omega

-- ---------------------------------------------------------------------------
-- Reading
-- ---------------------------------------------------------------------------

namespace OpenFile

/-- The file is open for reading a content, of which this is still to be read. -/
def Reads (f : OpenFile) (t : Tree) (k : Nat) (rest : List Char) : Prop :=
  ∃ place buffer, f.stream = .reading (some k) place buffer ∧
    buffer ++ (t.content k).toList.drop place = rest ∧ rest.length ≤ (t.content k).length

variable {rest : List Char}

/-- A file is read from the content only. -/
theorem Reads.congr (h : f.Reads t k rest) (hk : t'.content k = t.content k) : f.Reads t' k rest := by
  unfold Reads
  rwa [hk]

/-- The buffer is filled with the beginning of the rest, and with something unless there is no rest. What is left in
it is then what is read first. -/
theorem Reads.fill (h : f.Reads t k rest) : ∃ f' buffer later, f.fill t = .ok (f', buffer) ∧ rest = buffer ++ later ∧
    (buffer = [] ↔ rest = []) ∧ f'.Reads t k rest ∧
    ∀ left, left <:+ buffer → (f'.setBuffer left).Reads t k (left ++ later) := by
  obtain ⟨place, buffer, hstream, rfl, hlength⟩ := h
  have hleft {f' : OpenFile} {place : Nat} {buffer : List Char} (hstream : f'.stream = .reading (some k) place buffer)
      (hlength : (buffer ++ (t.content k).toList.drop place).length ≤ (t.content k).length) (left : List Char)
      (hsuffix : left <:+ buffer) :
      (f'.setBuffer left).Reads t k (left ++ (t.content k).toList.drop place) := by
    refine ⟨place, left, by rw [setBuffer, hstream], rfl, ?_⟩
    have := hsuffix.length_le
    rw [List.length_append] at hlength ⊢
    omega
  cases buffer with
  | cons c buffer =>
    have hfill : f.fill t = .ok (f, c :: buffer) := by rw [fill, hstream]
    exact ⟨f, c :: buffer, _, hfill, rfl, by simp, ⟨place, _, hstream, rfl, hlength⟩, hleft hstream hlength⟩
  | nil =>
    simp only [List.nil_append] at hlength ⊢
    obtain ⟨buffer, hbuffer, hfill⟩ : ∃ buffer, takeBytes bufferSize ((t.content k).toList.drop place) = buffer ∧
        f.fill t = .ok ({ f with stream := .reading (some k) (place + buffer.length) buffer }, buffer) :=
      ⟨_, rfl, by rw [fill, hstream]⟩
    obtain ⟨later, hlater⟩ := takeBytes_prefix bufferSize ((t.content k).toList.drop place)
    have hempty : takeBytes bufferSize ((t.content k).toList.drop place) = [] ↔ (t.content k).toList.drop place = [] :=
      takeBytes_eq_nil
    rw [hbuffer] at hlater hempty
    have hrest : buffer ++ (t.content k).toList.drop (place + buffer.length) = (t.content k).toList.drop place := by
      rw [← List.drop_drop, ← hlater, List.drop_left]
    refine ⟨_, _, _, hfill, hrest.symm, hempty, ⟨_, _, rfl, hrest, hlength⟩, hleft rfl ?_⟩
    rwa [hrest]

theorem bind_ok {α β : Type} {x : Except Failure α} {g : α → Except Failure β} {a : α} (h : x = .ok a) :
    (x >>= g) = g a := by
  rw [h]
  rfl

/-- The first line is taken off the rest. -/
theorem Reads.takeLine {fuel : Nat} (h : f.Reads t k rest) (hfuel : rest.length < fuel) :
    ∃ f', f.takeLine t fuel = .ok ((firstLine rest).1, f') ∧ f'.Reads t k (firstLine rest).2 := by
  induction fuel generalizing f rest with
  | zero => omega
  | succ fuel ih =>
    obtain ⟨f₁, buffer, later, hfill, rfl, hempty, hreads, hleft⟩ := h.fill
    obtain ⟨line, after, hline, hafter, rfl, hnone, hend⟩ := takeWhile_line buffer
    rw [OpenFile.takeLine, bind_ok hfill]
    simp only [hline, hafter]
    rcases hend with rfl | ⟨left, rfl⟩
    · simp only [List.append_nil] at hfill hempty hfuel hleft hreads ⊢
      cases line with
      | nil =>
        rw [hempty.mp rfl] at hreads ⊢
        exact ⟨f₁, rfl, hreads⟩
      | cons c line =>
        -- The line goes on behind the buffer.
        have hshort : later.length < fuel := by
          simp only [List.length_append, List.length_cons] at hfuel
          omega
        obtain ⟨f', htake, hreads'⟩ := ih (hleft [] List.nil_suffix) hshort
        rw [firstLine_append hnone]
        exact ⟨f', bind_ok htake, hreads'⟩
    · -- The line ends in the buffer.
      have hsuffix : left <:+ line ++ '\n' :: left := ⟨line ++ ['\n'], by simp⟩
      rw [List.append_assoc, List.cons_append, firstLine_terminated hnone]
      exact ⟨_, rfl, hleft left hsuffix⟩

theorem Reads.readLine (h : f.Reads t k rest) : ∃ f', f.readLine t = .ok
    (if rest = [] then none else some (String.ofList (stripTerminator (firstLine rest).1)), f') ∧
    f'.Reads t k (firstLine rest).2 := by
  have hfuel : rest.length < bufferBound t := by
    obtain ⟨_, _, _, _, hlength⟩ := h
    exact Nat.lt_of_le_of_lt hlength (length_lt_bufferBound t k)
  obtain ⟨f', htake, hreads⟩ := h.takeLine hfuel
  refine ⟨f', ?_, hreads⟩
  rw [OpenFile.readLine, bind_ok htake]
  simp only [List.isEmpty_iff, firstLine_eq_nil]
  rfl

end OpenFile

-- ---------------------------------------------------------------------------
-- Lines that have been framed
-- ---------------------------------------------------------------------------

/-- Items written as lines, each with a line feed behind it. -/
def framed (items : List String) : List Char := items.flatMap fun item => item.toList ++ ['\n']

/-- What is read of an item: a carriage return at its end is taken for a part of the line terminator. -/
def bare (item : String) : String :=
  String.ofList (if item.toList.getLast? = some '\r' then item.toList.dropLast else item.toList)

/-- The item can be a line of a text. -/
def IsLine (item : String) : Prop := '\n' ∉ item.toList

instance (item : String) : Decidable (IsLine item) := inferInstanceAs (Decidable ('\n' ∉ item.toList))

/-- An item that does not end in a carriage return is read as it is. -/
theorem bare_eq {item : String} (h : item.toList.getLast? ≠ some '\r') : bare item = item := by
  rw [bare, if_neg h, String.ofList_toList]

@[simp] theorem framed_nil : framed [] = [] := rfl

theorem framed_cons (item : String) (items : List String) :
    framed (item :: items) = item.toList ++ '\n' :: framed items := by
  simp [framed]

/-- Lines that are written one after the other are framed. -/
theorem flatMap_lines (items : List String) : (items.map (· ++ "\n")).flatMap (·.toList) = framed items := by
  simp [framed, List.flatMap_map]

theorem framed_append (first second : List String) : framed (first ++ second) = framed first ++ framed second :=
  List.flatMap_append

theorem framed_eq_nil {items : List String} : framed items = [] ↔ items = [] := by
  cases items <;> simp [framed_cons]

theorem length_le_framed (items : List String) : items.length ≤ (framed items).length := by
  induction items with
  | nil => exact Nat.le_refl _
  | cons item items ih =>
    simp only [framed_cons, List.length_append, List.length_cons]
    omega

/-- Without its terminator a framed item is what is read of it. -/
theorem stripTerminator_framed (item : String) :
    String.ofList (OpenFile.stripTerminator (item.toList ++ ['\n'])) = bare item := by
  unfold OpenFile.stripTerminator bare
  rw [List.reverse_append, List.getLast?_eq_head?_reverse]
  cases hreverse : item.toList.reverse with
  | nil => simp [List.reverse_eq_nil_iff.mp hreverse]
  | cons c before =>
    have hitem : item.toList = before.reverse ++ [c] := by
      rw [← List.reverse_reverse item.toList, hreverse, List.reverse_cons]
    by_cases hc : c = '\r'
    · simp [hc, hitem]
    · have hsome : ¬some c = some '\r' := fun h => hc (Option.some.inj h)
      simp [hc, hitem]

namespace OpenFile

variable {items : List String}

/-- The next item is read, and null once there is none. -/
theorem Reads.readLine_framed (h : f.Reads t k (framed items)) (hitems : ∀ item ∈ items, IsLine item) :
    ∃ f', f.readLine t = .ok (items.head?.map bare, f') ∧ f'.Reads t k (framed items.tail) := by
  obtain ⟨f', hread, hreads⟩ := h.readLine
  cases items with
  | nil => exact ⟨f', hread, hreads⟩
  | cons item items =>
    have hfirst := firstLine_terminated (hitems item List.mem_cons_self) (framed items)
    rw [framed_cons, hfirst] at hread hreads
    rw [stripTerminator_framed, if_neg (by simp)] at hread
    exact ⟨f', hread, hreads⟩

/-- All remaining items are read. -/
theorem Reads.readLines_framed {fuel : Nat} (h : f.Reads t k (framed items)) (hitems : ∀ item ∈ items, IsLine item)
    (hfuel : items.length < fuel) :
    ∃ f', f.readLines t fuel = .ok (items.map bare, f') ∧ f'.Reads t k [] := by
  induction fuel generalizing f items with
  | zero => omega
  | succ fuel ih =>
    obtain ⟨f₁, hread, hreads⟩ := h.readLine_framed hitems
    rw [OpenFile.readLines, bind_ok hread]
    cases items with
    | nil => exact ⟨f₁, rfl, hreads⟩
    | cons item items =>
      obtain ⟨f', hmore, hreads'⟩ := ih hreads (fun x hx => hitems x (List.mem_cons_of_mem _ hx))
        (Nat.lt_of_succ_lt_succ hfuel)
      exact ⟨f', bind_ok hmore, hreads'⟩

/-- The file has ended once all items have been read. -/
theorem Reads.atEnd_framed (h : f.Reads t k (framed items)) :
    ∃ f', f.atEnd t = .ok (items.isEmpty, f') ∧ f'.Reads t k (framed items) := by
  obtain ⟨f', buffer, later, hfill, -, hempty, hreads, -⟩ := h.fill
  have hsame : buffer.isEmpty = items.isEmpty := by
    rw [Bool.eq_iff_iff, List.isEmpty_iff, List.isEmpty_iff, hempty, framed_eq_nil]
  refine ⟨f', ?_, hreads⟩
  rw [OpenFile.atEnd, bind_ok hfill, ← hsame]
  rfl

end OpenFile

-- ---------------------------------------------------------------------------
-- Contents that change
-- ---------------------------------------------------------------------------

/-- Contents for which `touched` holds may have changed; the files are still the same ones. -/
structure Tree.Edited (t t' : Tree) (touched : Nat → Prop) : Prop where
  entries : t'.entries = t.entries
  current : t'.current = t.current
  size : t'.contents.size = t.contents.size
  content : ∀ k, ¬touched k → t'.content k = t.content k

section Edited

variable {touched touched' : Nat → Prop} {t'' : Tree}

theorem Tree.Edited.refl (t : Tree) : t.Edited t touched := ⟨rfl, rfl, rfl, fun _ _ => rfl⟩

theorem Tree.Edited.trans (h : t.Edited t' touched) (h' : t'.Edited t'' touched) : t.Edited t'' touched :=
  ⟨h'.entries.trans h.entries, h'.current.trans h.current, h'.size.trans h.size,
    fun k hk => (h'.content k hk).trans (h.content k hk)⟩

theorem Tree.Edited.mono (h : t.Edited t' touched) (hsub : ∀ k, touched k → touched' k) : t.Edited t' touched' :=
  ⟨h.entries, h.current, h.size, fun k hk => h.content k fun hk' => hk (hsub k hk')⟩

theorem Tree.Edited.foldl {β : Type} {step : Tree → β → Tree} {xs : List β}
    (h : ∀ x ∈ xs, ∀ t : Tree, t.Edited (step t x) touched) (t : Tree) : t.Edited (xs.foldl step t) touched := by
  induction xs generalizing t with
  | nil => exact .refl t
  | cons x xs ih =>
    exact (h x List.mem_cons_self t).trans (ih (fun y hy => h y (List.mem_cons_of_mem _ hy)) _)

theorem Tree.content_setContent (t : Tree) (k j : Nat) (text : String) (hk : k < t.contents.size) :
    (t.setContent k text).content j = if j = k then text else t.content j := by
  simp only [content, setContent, Array.getD_eq_getD_getElem?, Array.getElem?_setIfInBounds, hk]
  by_cases hj : k = j <;> simp [hj, eq_comm]

theorem Tree.edited_setContent (t : Tree) (k : Nat) (text : String) : t.Edited (t.setContent k text) (· = k) := by
  refine ⟨rfl, rfl, Array.size_setIfInBounds, fun j hj => ?_⟩
  simp only [content, setContent, Array.getD_eq_getD_getElem?, Array.getElem?_setIfInBounds, if_neg (Ne.symm hj)]

end Edited

-- ---------------------------------------------------------------------------
-- Writing
-- ---------------------------------------------------------------------------

namespace OpenFile

/-- The content that the file is open for writing. -/
def writes? (f : OpenFile) : Option Nat :=
  match f.stream with
  | .writing k .. => some k
  | .reading .. | .closed => none

/-- The file is open for writing a content from its start, and this is what has been written. -/
def Writes (f : OpenFile) (t : Tree) (k : Nat) (text : List Char) : Prop :=
  k < t.contents.size ∧ ∃ buffer, f.stream = .writing k false (t.content k).length buffer ∧
    (t.content k).toList ++ buffer.toList = text

variable {text : List Char}

theorem Writes.writes? (h : f.Writes t k text) : f.writes? = some k := by
  obtain ⟨-, _, hstream, -⟩ := h
  rw [OpenFile.writes?, hstream]

/-- What other files do does not show in the content. -/
theorem Writes.edited {touched : Nat → Prop} (h : f.Writes t k text) (ht : t.Edited t' touched) (hk : ¬touched k) :
    f.Writes t' k text := by
  unfold Writes
  rwa [ht.content k hk, ht.size]

/-- Text that is put at the end of a content is appended to it. -/
theorem overwrite_end (content text : List Char) : overwrite content content.length text = content ++ text := by
  simp [overwrite]

/-- Writing out the buffer changes at most the content of the file. -/
theorem flush_edited (f : OpenFile) (t : Tree) : t.Edited (f.flush t).2 fun k => f.writes? = some k := by
  unfold flush
  split
  · next k append place buffer hstream =>
    split
    · exact .refl t
    · refine (t.edited_setContent k _).mono fun j hj => ?_
      rw [OpenFile.writes?, hstream, hj]
  · exact .refl t

/-- What has been written is then in the content. -/
theorem Writes.flush (h : f.Writes t k text) :
    (f.flush t).1.Writes (f.flush t).2 k text ∧ (f.flush t).2.content k = String.ofList text := by
  obtain ⟨hk, buffer, hstream, rfl⟩ := h
  unfold OpenFile.flush
  simp only [hstream]
  split
  · next hempty =>
    subst hempty
    refine ⟨⟨hk, "", hstream, rfl⟩, ?_⟩
    simp
  · have hcontent := t.content_setContent k k
      (String.ofList (overwrite (t.content k).toList (t.content k).length buffer.toList)) hk
    rw [if_pos rfl, ← String.length_toList, overwrite_end] at hcontent
    simp only [Bool.false_eq_true, if_false, ← String.length_toList (s := t.content k), overwrite_end]
    refine ⟨⟨by simpa [Tree.setContent] using hk, "", ?_, ?_⟩, hcontent⟩
    · rw [hcontent, String.length_ofList, List.length_append, String.length_toList]
    · rw [hcontent]
      simp

/-- A text is appended to what has been written. -/
theorem Writes.write (h : f.Writes t k text) (more : String) : ∃ f' t', f.write t more = .ok (f', t') ∧
    f'.Writes t' k (text ++ more.toList) ∧ t.Edited t' (· = k) := by
  -- The buffer may be written out before the text is put into it, and after that.
  have hflush {f : OpenFile} {t : Tree} {text : List Char} (h : f.Writes t k text) (c : Prop) [Decidable c] :
      ∃ f' t', (if c then f.flush t else (f, t)) = (f', t') ∧ f'.Writes t' k text ∧ t.Edited t' (· = k) := by
    split
    · refine ⟨_, _, rfl, h.flush.1, (flush_edited f t).mono fun j hj => ?_⟩
      exact Option.some.inj (hj.symm.trans h.writes?)
    · exact ⟨_, _, rfl, h, .refl t⟩
  obtain ⟨-, buffer, hstream, -⟩ := id h
  unfold OpenFile.write
  simp only [hstream]
  obtain ⟨f₁, t₁, hfirst, ⟨hk₁, buffer₁, hstream₁, htext₁⟩, hedited₁⟩ :=
    hflush h (buffer.utf8ByteSize + more.utf8ByteSize > bufferSize)
  rw [hfirst]
  simp only [hstream₁]
  have hput : Writes { f₁ with stream := .writing k false (t₁.content k).length (buffer₁ ++ more) } t₁ k
      (text ++ more.toList) := ⟨hk₁, _, rfl, by rw [String.toList_append, ← List.append_assoc, htext₁]⟩
  obtain ⟨f₂, t₂, hsecond, hwrites₂, hedited₂⟩ := hflush hput (more.utf8ByteSize ≥ bufferSize)
  exact ⟨f₂, t₂, congrArg Except.ok hsecond, hwrites₂, hedited₁.trans hedited₂⟩

/-- Texts are appended in order. -/
theorem Writes.writeAll (h : f.Writes t k text) (texts : List String) : ∃ f' t',
    texts.foldlM (fun (f, t) more => f.write t more) (f, t) = (.ok (f', t') : Except Failure (OpenFile × Tree)) ∧
    f'.Writes t' k (text ++ texts.flatMap (·.toList)) ∧ t.Edited t' (· = k) := by
  induction texts generalizing f t text with
  | nil => exact ⟨f, t, rfl, by simpa using h, .refl t⟩
  | cons more texts ih =>
    obtain ⟨f₁, t₁, hfirst, hwrites₁, hedited₁⟩ := h.write more
    obtain ⟨f', t', hrest, hwrites, hedited⟩ := ih hwrites₁
    refine ⟨f', t', ?_, ?_, hedited₁.trans hedited⟩
    · exact (bind_ok hfirst).trans hrest
    · simpa using hwrites

/-- Closing the file leaves what has been written. -/
theorem Writes.close (h : f.Writes t k text) : (f.close t).1.stream = .closed ∧
    (f.close t).2.content k = String.ofList text ∧ t.Edited (f.close t).2 (· = k) := by
  refine ⟨rfl, h.flush.2, (flush_edited f t).mono fun j hj => ?_⟩
  exact Option.some.inj (hj.symm.trans h.writes?)

end OpenFile

end Rill.Files

/-!
# Paths to contents

A path is followed through what there is in the tree. It leads to the same place in a tree that has more in it,
so that a file can be found again after it has been created, whatever happens to contents.
-/

namespace Rill.Files.Tree

variable {t t' u : Tree} {k : Nat} {path : String} {place : Place}

/-- Every file of the tree has a content. -/
def Sound (t : Tree) : Prop := ∀ place k, t.entry? place = some (.file k) → k < t.contents.size

/-- The path leads to a file with this content. -/
def Leads (t : Tree) (path : String) (k : Nat) : Prop := ∃ place, t.lookup path = .ok (place, .file k)

/-- What is in one tree is in the other one too, at the same places. -/
structure Extends (t t' : Tree) : Prop where
  current : t'.current = t.current
  keeps : ∀ place e, t.entry? place = some e → t'.entry? place = some e

theorem Edited.entry_eq {touched : Nat → Prop} (h : t.Edited t' touched) (place : Place) :
    t'.entry? place = t.entry? place := by
  simp only [h.entries, Tree.entry?]

theorem Edited.extends {touched : Nat → Prop} (h : t.Edited t' touched) : t.Extends t' :=
  ⟨h.current, fun place _ he => (h.entry_eq place).trans he⟩

/-- The root of the tree is always there. -/
theorem ne_root_of_entry_none (hnone : t.entry? place = none) : place ≠ [] := by
  rintro rfl
  unfold Tree.entry? at hnone
  simp at hnone

theorem entry_setEntry (hplace : place ≠ []) (e : Entry) (other : Place) :
    Tree.entry? (t.setEntry place e) other = if other = place then some e else t.entry? other := by
  by_cases hother : other = place
  · subst hother
    simp [setEntry, hplace, Tree.entry?]
  · have hfind : (t.entries.filter fun x => decide (x.1 ≠ place)).find? (fun x => decide (x.1 = other)) =
        t.entries.find? fun x => decide (x.1 = other) := by
      rw [List.find?_filter]
      congr 1
      funext x
      by_cases hx : x.1 = other <;> simp [hx, hother]
    simp only [setEntry, List.find?_cons, Ne.symm hother, decide_false, hfind, if_neg hother, Tree.entry?]

/-- What is put where nothing was leaves everything else where it is. -/
theorem extends_setEntry (hnone : t.entry? place = none) (e : Entry) : t.Extends (t.setEntry place e) := by
  refine ⟨rfl, fun other e' he' => ?_⟩
  rw [entry_setEntry (ne_root_of_entry_none hnone), if_neg ?_]
  · exact he'
  · rintro rfl
    rw [hnone] at he'
    cases he'

-- ---------------------------------------------------------------------------
-- Paths in a larger tree
-- ---------------------------------------------------------------------------

theorem Extends.descend (h : t.Extends t') {names : List String} {start : Place}
    (hplace : t.descend start names = .ok place) : t'.descend start names = .ok place := by
  induction names generalizing start with
  | nil => exact hplace
  | cons name rest ih =>
    cases hstart : t.entry? start with
    | none => simp [Tree.descend, hstart] at hplace
    | some e =>
      cases e with
      | file k => simp [Tree.descend, hstart] at hplace
      | directory =>
        simp only [Tree.descend, hstart, h.keeps _ _ hstart] at hplace ⊢
        split at hplace
        · next hdot =>
          rw [if_pos hdot]
          exact ih hplace
        · next hdot =>
          rw [if_neg hdot]
          split at hplace
          · next hup =>
            rw [if_pos hup]
            exact ih hplace
          · next hup =>
            rw [if_neg hup]
            cases hnext : t.entry? (start ++ [name]) with
            | none => simp [hnext] at hplace
            | some e =>
              simp only [hnext, h.keeps _ _ hnext] at hplace ⊢
              exact ih hplace

/-- Where a path leads: to the root, to a directory that its dots lead to, or to a name in a directory. -/
theorem resolve_ok {target : Target} : t.resolve path = .ok target ↔ path ≠ "" ∧
    match (splitTarget path).1.getLast? with
    | none => ⟨[], true⟩ = target
    | some last =>
      if last = "." ∨ last = ".." then
        ∃ place, t.descend (t.origin path) (splitTarget path).1 = .ok place ∧ ⟨place, true⟩ = target
      else
        ∃ directory, t.descend (t.origin path) (splitTarget path).1.dropLast = .ok directory ∧
          t.entry? directory = some .directory ∧ ⟨directory ++ [last], (splitTarget path).2⟩ = target := by
  unfold Tree.resolve
  by_cases hpath : path = ""
  · simp [hpath, bind, Except.bind, throw, throwThe, MonadExceptOf.throw]
  · cases hlast : (splitTarget path).1.getLast? with
    | none => simp [hpath, hlast, pure, Except.pure]
    | some last =>
      by_cases hdots : last = "." ∨ last = ".."
      · cases hplace : t.descend (t.origin path) (splitTarget path).1 <;>
          simp [hpath, hlast, hdots, hplace, bind, Except.bind, pure, Except.pure]
      · cases hplace : t.descend (t.origin path) (splitTarget path).1.dropLast with
        | error why => simp [hpath, hlast, hdots, hplace, bind, Except.bind]
        | ok directory =>
          by_cases hdirectory : t.entry? directory = some .directory <;>
            simp [hpath, hlast, hdots, hplace, hdirectory, isDirectory, bind, Except.bind, pure, Except.pure, throw,
              throwThe, MonadExceptOf.throw]

theorem Extends.resolve (h : t.Extends t') {target : Target} (htarget : t.resolve path = .ok target) :
    t'.resolve path = .ok target := by
  have horigin : t'.origin path = t.origin path := by rw [origin, origin, h.current]
  rw [resolve_ok] at htarget ⊢
  refine ⟨htarget.1, ?_⟩
  have htarget := htarget.2
  cases hlast : (splitTarget path).1.getLast? with
  | none => simpa only [hlast] using htarget
  | some last =>
    simp only [hlast, horigin] at htarget ⊢
    split
    · next hdots =>
      rw [if_pos hdots] at htarget
      obtain ⟨place, hplace, rfl⟩ := htarget
      exact ⟨place, h.descend hplace, rfl⟩
    · next hdots =>
      rw [if_neg hdots] at htarget
      obtain ⟨directory, hplace, hdirectory, rfl⟩ := htarget
      exact ⟨directory, h.descend hplace, h.keeps _ _ hdirectory, rfl⟩

/-- A path leads to a file if something is there that is one, and the path does not ask for a directory. -/
theorem lookup_file : t.lookup path = .ok (place, .file k) ↔
    t.resolve path = .ok ⟨place, false⟩ ∧ t.entry? place = some (.file k) := by
  unfold Tree.lookup
  cases hresolve : t.resolve path with
  | error why => simp [bind, Except.bind]
  | ok target =>
    obtain ⟨at', only⟩ := target
    cases hentry : t.entry? at' with
    | none =>
      simp only [bind, Except.bind, hentry, throw, throwThe, MonadExceptOf.throw]
      grind
    | some e =>
      cases e <;> cases only <;>
        simp only [bind, Except.bind, hentry, throw, throwThe, MonadExceptOf.throw, pure, Except.pure]
      all_goals grind

theorem Extends.leads (h : t.Extends t') (hpath : t.Leads path k) : t'.Leads path k := by
  obtain ⟨place, hlookup⟩ := hpath
  obtain ⟨hresolve, hentry⟩ := lookup_file.mp hlookup
  exact ⟨place, lookup_file.mpr ⟨h.resolve hresolve, h.keeps _ _ hentry⟩⟩

-- ---------------------------------------------------------------------------
-- Files that are opened
-- ---------------------------------------------------------------------------

/-- A file that is opened for writing was there, or is new at the end of its path. -/
theorem openForWriting_ok {truncate : Bool} : t.openForWriting path truncate = .ok (k, t') ↔
    ∃ place, t.resolve path = .ok ⟨place, false⟩ ∧
      (t' = (if truncate then t.setContent k "" else t) ∧ t.entry? place = some (.file k) ∨
        t.entry? place = none ∧ k = t.contents.size ∧
          t' = { t.setEntry place (.file k) with contents := t.contents.push "" }) := by
  unfold Tree.openForWriting
  cases hresolve : t.resolve path with
  | error why => simp [bind, Except.bind]
  | ok target =>
    obtain ⟨at', only⟩ := target
    cases hentry : t.entry? at' with
    | none =>
      cases only <;> simp only [bind, Except.bind, hentry, throw, throwThe, MonadExceptOf.throw, pure, Except.pure]
      all_goals grind
    | some e =>
      cases e <;> cases only <;>
        simp only [bind, Except.bind, hentry, throw, throwThe, MonadExceptOf.throw, pure, Except.pure]
      all_goals grind

/-- Changed contents do not matter to which file is opened. -/
theorem Edited.openForWriting {touched : Nat → Prop} {truncate : Bool} (h : t.Edited u touched)
    (hopen : t.openForWriting path truncate = .ok (k, t')) : ∃ u', u.openForWriting path truncate = .ok (k, u') := by
  obtain ⟨place, hresolve, hthere⟩ := openForWriting_ok.mp hopen
  have hresolve := h.extends.resolve hresolve
  rcases hthere with ⟨-, hentry⟩ | ⟨hnone, hk, -⟩
  · exact ⟨_, openForWriting_ok.mpr ⟨place, hresolve, .inl ⟨rfl, (h.entry_eq place).trans hentry⟩⟩⟩
  · exact ⟨_, openForWriting_ok.mpr ⟨place, hresolve, .inr ⟨(h.entry_eq place).trans hnone, hk.trans h.size.symm, rfl⟩⟩⟩

theorem Edited.sound {touched : Nat → Prop} (h : t.Edited u touched) (ht : t.Sound) : u.Sound := by
  intro place k hentry
  rw [h.size]
  exact ht place k ((h.entry_eq place).symm.trans hentry)

/-- A file that has been opened for writing from its start is empty, and its path leads to it. -/
theorem opened_empty (ht : t.Sound) (hopen : t.openForWriting path true = .ok (k, t')) :
    t'.Leads path k ∧ k < t'.contents.size ∧ t'.content k = "" := by
  obtain ⟨place, hresolve, ⟨rfl, hentry⟩ | ⟨hnone, rfl, rfl⟩⟩ := openForWriting_ok.mp hopen
  · have hk := ht place k hentry
    have hedited := t.edited_setContent k ""
    refine ⟨hedited.extends.leads ⟨place, lookup_file.mpr ⟨hresolve, hentry⟩⟩, ?_, ?_⟩
    · simpa [hedited.size] using hk
    · simp [content_setContent _ _ _ _ hk]
  · -- The new content does not matter to where paths lead.
    have hextends : t.Extends { t.setEntry place (.file t.contents.size) with contents := t.contents.push "" } :=
      ⟨rfl, (extends_setEntry hnone _).keeps⟩
    have hentry := entry_setEntry (t := t) (ne_root_of_entry_none hnone) (.file t.contents.size) place
    rw [if_pos rfl] at hentry
    refine ⟨⟨place, lookup_file.mpr ⟨hextends.resolve hresolve, hentry⟩⟩, ?_, ?_⟩
    · simp
    · simp [content]

end Rill.Files.Tree
