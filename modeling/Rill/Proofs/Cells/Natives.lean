-- SUMMARY: Native functions make no cells and find none that they are not given.
import Rill.Proofs.Cells.Still
import Rill.Proofs.Safety.Natives

/-!
# Native functions and cells

What native functions of the library or of a host hand on, they have from their arguments or from the
heap. So they are still whenever their arguments are below the number.
-/

namespace Rill

open Bounded (below)

variable {n : Nat}

namespace Library

-- ---------------------------------------------------------------------------
-- Arguments
-- ---------------------------------------------------------------------------

section Arguments

variable {args : Arguments} (k : Nat)

@[grind .]
theorem Arguments.below_nth (h : below n args) : below n (args.nth k) := by
  rw [nth, Array.getD]
  split
  · exact h _ (Array.getElem_mem _)
  · trivial

@[grind .]
theorem Arguments.value_still (h : below n args) : Still n (args.value k) :=
  Still.heap.bind fun _ hh => .pure (hh.resolve (below_nth k h))

@[grind .]
theorem Arguments.integer_still : Still n (args.integer k) := by grind [Arguments.integer]

@[grind .]
theorem Arguments.number_still : Still n (args.number k) := by grind [Arguments.number]

@[grind .]
theorem Arguments.boolean_still : Still n (args.boolean k) := by grind [Arguments.boolean]

@[grind .]
theorem Arguments.text_still : Still n (args.text k) := by grind [Arguments.text]

@[grind .]
theorem Arguments.chars_still : Still n (args.chars k) := by grind [Arguments.chars]

@[grind .]
theorem Arguments.list_still : Still n (args.list k) := by grind [Arguments.list]

@[grind .]
theorem Arguments.table_still : Still n (args.table k) := by grind [Arguments.table]

@[grind .]
theorem Arguments.set_still : Still n (args.set k) := by grind [Arguments.set]

@[grind .]
theorem Arguments.matrix_still : Still n (args.matrix k) := by grind [Arguments.matrix]

@[grind .]
theorem Arguments.key_still : Still n (args.key k) := by grind [Arguments.key]

@[grind .]
theorem Arguments.count_still : Still n (args.count k) := by grind [Arguments.count]

end Arguments

-- ---------------------------------------------------------------------------
-- Editing
-- ---------------------------------------------------------------------------

section Editing

variable {target : Value}

@[grind .]
theorem store_still (target : Value) {v : Value} (hv : below n v) : Still n (store target v) := by
  fun_cases store target v <;> grind

@[grind .]
theorem ownObject_still (expected : String) (ht : below n target) : Still n (ownObject expected target) := by
  refine (Still.unshareSlot ht [target]).bind fun (_, own) _ => Still.heap.bind fun h hh => ?_
  split
  · split
    · next content hcontent => exact .pure ⟨trivial, hh.content? hcontent⟩
    · exact .throw _
  · exact .throw _

@[grind .]
theorem editList_still (ht : below n target) {f : Array Value → Array Value × Except Failure Value}
    (hf : ∀ items, below n items → below n (f items)) : Still n (editList target f) := by
  refine (ownObject_still "List" ht).bind fun (id, content) ⟨_, hcontent⟩ => ?_
  cases content with
  | list items =>
    have hitems : below n items := hcontent
    exact (Still.setContent id (c := .list (f items).1) (hf items hitems).1).bind fun _ _ => .lift (hf items hitems).2
  | _ => exact Still.heap.bind fun _ _ => .throw _

@[grind .]
theorem replaceItems_still (ht : below n target) {f : Array Value → Except Failure (Array Value)}
    (hf : ∀ items, below n items → below n (f items)) : Still n (replaceItems target f) := by
  refine editList_still ht fun items hitems => ?_
  cases h : f items with
  | ok changed => exact ⟨hf items hitems changed h, by simp⟩
  | error e => exact ⟨hitems, nofun⟩

@[grind .]
theorem editTable_still (ht : below n target) {f : Table → Table} (hf : ∀ t, below n t → below n (f t)) :
    Still n (editTable target f) := by
  grind [editTable]

@[grind .]
theorem editSet_still (ht : below n target) (f : KeySet → KeySet) : Still n (editSet target f) := by
  grind [editSet]

@[grind .]
theorem editArray_still (ht : below n target) (f : Matrix → Matrix) : Still n (editArray target f) := by
  grind [editArray]

end Editing

-- ---------------------------------------------------------------------------
-- Scalars
-- ---------------------------------------------------------------------------

section Scalars

variable {args : Arguments}

theorem general_still {f : GeneralFunction} (hf : below n (Native.general f)) :
    Still n (general f args) := by
  cases f with
  | constant v => exact Still.heap.bind fun _ _ => .pure hf
  | _ => grind [general]

@[grind .]
theorem randomWord_still : Still n Run.randomWord :=
  Still.get.bind fun _ _ =>
    .bind (.adjust (fun _ => rfl) (fun _ => rfl) (fun _ => rfl) (fun _ => rfl) fun _ => rfl) fun _ _ => .pure trivial

@[grind .]
theorem randomBelow_still (bound : Nat) : Still n (Run.randomBelow bound) := by grind [Run.randomBelow]

@[grind .]
theorem math_still (f : MathFunction) : Still n (math f args) := by
  cases f with
  | absInt =>
    refine Still.bind (args.integer_still 0) fun k _ => ?_
    split
    · exact .pure trivial
    · exact .fail _
  | _ => grind [math]

@[grind .]
theorem editText_still (f : List Char → Except Failure (List Char)) : Still n (editText args f) := by
  grind [editText, chars]

@[grind .]
theorem alterText_still (f : List Char → List Char) : Still n (alterText args f) := editText_still _

@[grind .]
theorem below_texts (texts : List (List Char)) : below n (texts.map chars) := by
  intro v hv
  obtain ⟨_, -, rfl⟩ := List.mem_map.mp hv
  trivial

@[grind .]
theorem text_still (f : TextFunction) : Still n (text f args) := by
  cases f <;> grind -ring -linarith [text, chars]

end Scalars

-- ---------------------------------------------------------------------------
-- Lists
-- ---------------------------------------------------------------------------

section Lists

theorem below_union {h : Heap} {items others united : List Value} (hunited : union h items others = .ok united)
    (hitems : below n items) (hothers : below n others) : below n united := by
  induction others generalizing items with
  | nil =>
    cases hunited
    exact hitems
  | cons v rest ih =>
    rw [union, List.foldlM_cons] at hunited
    obtain ⟨found, hfound⟩ : ∃ found, hasEqual h items v = .ok found := by
      cases hequal : hasEqual h items v with
      | ok found => exact ⟨found, rfl⟩
      | error e =>
        rw [hequal] at hunited
        cases hunited
    rw [hfound] at hunited
    cases found with
    | true => exact ih hunited hitems fun w hw => hothers w (List.mem_cons_of_mem v hw)
    | false =>
      refine ih hunited (fun w hw => ?_) fun w hw => hothers w (List.mem_cons_of_mem v hw)
      rcases List.mem_append.mp hw with hold | hnew
      · exact hitems w hold
      · exact List.mem_singleton.mp hnew ▸ hothers v List.mem_cons_self

theorem below_takeAt {items : Array Value} (h : below n items) (offset : Nat) : below n (takeAt items offset) := by
  unfold takeAt
  split
  · next v hv =>
    refine ⟨fun w hw => h w ?_, fun _ hok => ?_⟩
    · rw [Array.eraseIdxIfInBounds] at hw
      split at hw
      · exact Array.mem_of_mem_eraseIdx hw
      · exact hw
    · cases hok
      exact h v (Array.mem_of_getElem? hv)
  · exact ⟨h, fun _ hok => by cases hok⟩

theorem below_erased {items : Array Value} (h : below n items) (offset : Nat) :
    below n (items.eraseIdxIfInBounds offset) := by
  intro w hw
  rw [Array.eraseIdxIfInBounds] at hw
  split at hw
  · exact h w (Array.mem_of_mem_eraseIdx hw)
  · exact h w hw

theorem below_place {compare : Heap.Comparison} {v : Value} {items : List Value} (failure : Option Failure)
    (hv : below n v) (h : below n items) : below n (Heap.place compare v items failure).1 := by
  fun_induction Heap.place compare v items failure with
  | case1 failure =>
    intro w hw
    exact List.mem_singleton.mp hw ▸ hv
  | case2 w before failure _ placed failure' hplaced ih =>
    rw [hplaced] at ih
    intro u hu
    rcases List.mem_cons.mp hu with rfl | hu
    · exact h u List.mem_cons_self
    · exact ih (fun u hu => h u (List.mem_cons_of_mem w hu)) u hu
  | case3 w before failure _ =>
    intro u hu
    rcases List.mem_cons.mp hu with rfl | hu
    · exact hv
    · exact h u hu
  | case4 w before failure _ =>
    intro u hu
    rcases List.mem_cons.mp hu with rfl | hu
    · exact hv
    · exact h u hu

theorem below_sorted {compare : Heap.Comparison} {items : List Value} (h : below n items) :
    below n (Heap.sorted compare items).1 := by
  have hfold (placed : List Value) (failure : Option Failure) (hplaced : below n placed) :
      below n (items.foldl (fun found v => Heap.place compare v found.1 found.2) (placed, failure)).1 := by
    induction items generalizing placed failure with
    | nil => exact hplaced
    | cons v rest ih =>
      exact ih (fun w hw => h w (List.mem_cons_of_mem v hw)) _ _ (below_place failure (h v List.mem_cons_self) hplaced)
  intro v hv
  exact hfold [] none (by simp) v (List.mem_reverse.mp hv)

theorem below_sortItems (h : Heap) {items : Array Value} (hitems : below n items) :
    below n (sortItems h items) := by
  have hsorted : below n (Heap.sorted h.order items.toList).1 :=
    below_sorted fun v hv => hitems v (Array.mem_toList_iff.mp hv)
  unfold sortItems
  split
  · next heq =>
    rw [heq] at hsorted
    exact ⟨fun v hv => hsorted v (by simpa using hv), by simp⟩
  · next heq =>
    rw [heq] at hsorted
    exact ⟨fun v hv => hsorted v (by simpa using hv), nofun⟩

theorem below_insertItem {items : Array Value} (h : below n items) {position : Int64} {v : Value}
    (hv : below n v) : below n (insertItem items position v) := by
  rw [insertItem]
  cases hoffset : resolveIndex position (items.size + 1) with
  | error e =>
    intro _ hok
    cases hok
  | ok offset =>
    intro _ hok w hw
    cases hok
    rw [Array.insertIdxIfInBounds] at hw
    split at hw
    · rcases Array.mem_insertIdx.mp hw with rfl | hold
      · exact hv
      · exact h w hold
    · exact h w hw

theorem below_removeFound {items : Array Value} (h : below n items) (found : Except Failure (Option Nat)) :
    below n (removeFound items found) := by
  cases found with
  | error e => exact nofun
  | ok found =>
    intro _ hok
    cases found with
    | none =>
      cases hok
      exact h
    | some offset =>
      cases hok
      exact below_erased h offset

@[grind .]
theorem shuffled_still {items : Array Value} (h : below n items) : Still n (Run.shuffled items) := by
  refine Still.foldlM (fun items k hitems => (randomBelow_still _).bind fun other _ => .pure ?_) h
  intro v hv
  rw [Array.swapIfInBounds] at hv
  split at hv
  · split at hv
    · exact hitems v ((Array.swap_perm _ _).mem_iff.mp hv)
    · exact hitems v hv
  · exact hitems v hv

/-- Whatever monad the test is in, only values of the array are kept. -/
theorem below_filterM {m : Type → Type} [Monad m] [LawfulMonad m] {items : Array Value}
    {test : Value → m Bool} {Q : m (Array Value) → Prop}
    (hpure : ∀ kept : Array Value, below n kept → Q (pure kept))
    (hbind : ∀ (v : Value) (f : Bool → m (Array Value)), (∀ b, Q (f b)) → Q (test v >>= f))
    (h : below n items) : Q (items.filterM test) := by
  unfold Array.filterM
  rw [← Array.foldlM_toList]
  have hloop (rest : List Value) (kept : Array Value) (hrest : below n rest) (hkept : below n kept) :
      Q (rest.foldlM (fun acc a => do if ← test a then return acc.push a else return acc) kept) := by
    induction rest generalizing kept with
    | nil => exact hpure kept hkept
    | cons v rest ih =>
      have hrest' : below n rest := fun w hw => hrest w (List.mem_cons_of_mem v hw)
      rw [List.foldlM_cons, bind_assoc]
      refine hbind _ _ fun keep => ?_
      split
      · rw [pure_bind]
        refine ih _ hrest' fun w hw => ?_
        rcases Array.mem_push.mp hw with hold | rfl
        · exact hkept w hold
        · exact hrest _ List.mem_cons_self
      · rw [pure_bind]
        exact ih _ hrest' hkept
  simpa using hloop items.toList #[] (fun v hv => h v (Array.mem_toList_iff.mp hv)) (by simp)

@[grind .]
theorem endItem_still {item : Option Value} (h : below n item) : Still n (endItem item) := by
  cases item with
  | some v => exact .pure (h v rfl)
  | none => exact .fail _

theorem below_extract {items : Array Value} (h : below n items) (start stop : Nat) :
    below n (items.extract start stop) := by
  intro v hv
  obtain ⟨k, hk, rfl⟩ := Array.mem_extract_iff_getElem.mp hv
  exact h _ (Array.getElem_mem _)

theorem list_still (f : ListFunction) {args : Arguments} (hargs : below n args) : Still n (list f args) := by
  have htarget : below n (args.nth 0) := args.below_nth 0 hargs
  refine Still.heap.bind fun h _ => ?_
  cases f with
  | left =>
    exact (args.list_still 0).bind fun items hitems => (args.count_still 1).bind fun k _ =>
      .newList (below_extract hitems _ _)
  | right =>
    exact (args.list_still 0).bind fun items hitems => (args.count_still 1).bind fun k _ =>
      .newList (below_extract hitems _ _)
  | sample =>
    refine (args.list_still 0).bind fun items hitems => (args.count_still 1).bind fun wanted _ => ?_
    have hsample : Still n (do Run.newList ((← Run.shuffled items).take wanted)) :=
      (shuffled_still hitems).bind fun shuffled hshuffled => .newList (below_extract hshuffled _ _)
    split
    · exact (Still.fail _).bind fun _ _ => hsample
    · exact hsample
  | intersect =>
    refine (args.list_still 0).bind fun items hitems => (args.list_still 1).bind fun others _ => ?_
    refine Still.bind ?_ fun kept hkept => .newList hkept
    exact below_filterM (fun _ => .pure) (fun v f hf => (Still.lift (by simp)).bind fun b _ => hf b) hitems
  | subtract =>
    refine (args.list_still 0).bind fun items hitems => (args.list_still 1).bind fun others _ => ?_
    refine Still.bind ?_ fun kept hkept => .newList hkept
    exact below_filterM (fun _ => .pure) (fun v f hf => (Still.lift (by simp)).bind fun b _ => hf b) hitems
  | unite =>
    refine (args.list_still 0).bind fun items hitems => (args.list_still 1).bind fun others hothers => ?_
    refine (Still.lift fun united hunited => ?_).bind fun united hunited => .newList ?_
    · exact below_union hunited (fun v hv => hitems v (Array.mem_toList_iff.mp hv))
        fun v hv => hothers v (Array.mem_toList_iff.mp hv)
    · exact fun v hv => hunited v (by simpa using hv)
  | clear => exact replaceItems_still htarget fun _ _ => by simp
  | append =>
    refine (args.value_still 1 hargs).bind fun v hv => replaceItems_still htarget fun items hitems => ?_
    refine Bounded.ok fun w hw => ?_
    rcases Array.mem_push.mp hw with hold | rfl
    · exact hitems w hold
    · exact hv
  | prepend =>
    refine (args.value_still 1 hargs).bind fun v hv => replaceItems_still htarget fun items hitems => ?_
    refine Bounded.ok fun w hw => ?_
    rcases Array.mem_append.mp hw with hnew | hold
    · exact Array.mem_singleton.mp hnew ▸ hv
    · exact hitems w hold
  | insert =>
    refine (args.integer_still 1).bind fun position _ => (args.value_still 2 hargs).bind fun v hv => ?_
    exact replaceItems_still htarget fun items hitems => below_insertItem hitems hv
  | pop => exact editList_still htarget fun items hitems => below_takeAt hitems _
  | shift => exact editList_still htarget fun items hitems => below_takeAt hitems _
  | sort => exact editList_still htarget fun items hitems => below_sortItems h hitems
  | reverse =>
    refine replaceItems_still htarget fun items hitems => ?_
    exact Bounded.ok fun v hv => hitems v (Array.mem_reverse.mp hv)
  | shuffle =>
    refine (ownObject_still _ htarget).bind fun (id, content) ⟨_, hcontent⟩ => ?_
    cases content with
    | list items =>
      exact (shuffled_still hcontent).bind fun shuffled hshuffled =>
        (Still.setContent id (c := .list shuffled) hshuffled).bind fun _ _ => .pure trivial
    | _ => exact .throw _
  | remove =>
    refine (args.value_still 1 hargs).bind fun v hv => replaceItems_still htarget fun items hitems => ?_
    exact below_filterM (fun _ => Bounded.ok) (fun w f hf => Bounded.below_except_bind fun b _ => hf b) hitems
  | removeFirst =>
    exact (args.value_still 1 hargs).bind fun v hv => replaceItems_still htarget fun items hitems =>
      below_removeFound hitems _
  | removeLast =>
    exact (args.value_still 1 hargs).bind fun v hv => replaceItems_still htarget fun items hitems =>
      below_removeFound hitems _
  | removeAt =>
    refine (args.integer_still 1).bind fun position _ => editList_still htarget fun items hitems => ?_
    split
    · exact below_takeAt hitems _
    · exact ⟨hitems, nofun⟩
  | _ => grind -ring -linarith

end Lists

-- ---------------------------------------------------------------------------
-- Other containers
-- ---------------------------------------------------------------------------

section Containers

variable {args : Arguments}

@[grind .]
theorem entryOf_still : Still n (entryOf args) :=
  (args.key_still 1).bind fun key _ => (args.table_still 0).bind fun _ ht => .pure (Bounded.below_find? ht key)

theorem table_still (f : TableFunction) (hargs : below n args) : Still n (table f args) := by
  have htarget : below n (args.nth 0) := args.below_nth 0 hargs
  cases f with
  | get =>
    refine entryOf_still.bind fun found hfound => .pure ?_
    cases found with
    | none => trivial
    | some v => exact hfound v rfl
  | getOr =>
    refine entryOf_still.bind fun found hfound => (args.value_still 2 hargs).bind fun v hv => .pure ?_
    cases found with
    | none => exact hv
    | some v => exact hfound v rfl
  | keys =>
    refine (args.table_still 0).bind fun entries _ => .newList fun v hv => ?_
    obtain ⟨key, -, rfl⟩ := Array.mem_map.mp hv
    exact Bounded.below_key key ▸ trivial
  | values => exact (args.table_still 0).bind fun entries hentries => .newList (Bounded.below_values hentries)
  | clear => exact editTable_still htarget fun _ _ => Bounded.below_empty
  | remove =>
    exact (args.key_still 1).bind fun key _ => editTable_still htarget fun _ ht => Bounded.below_erase ht key
  | _ => grind [table]

theorem set_still (f : SetFunction) (hargs : below n args) : Still n (set f args) := by
  have htarget : below n (args.nth 0) := args.below_nth 0 hargs
  cases f <;> grind [set]

@[grind .]
theorem combined_still (m : Matrix) (f : Float → Float → Float) : Still n (combined m f) := by
  grind [combined]

theorem array_still (f : ArrayFunction) (hargs : below n args) : Still n (array f args) := by
  have htarget : below n (args.nth 0) := args.below_nth 0 hargs
  cases f <;> grind [array]

theorem space_still (f : ModuleFunction) : Still n (space f args) := by
  cases f with
  | create => exact (args.text_still 0).bind fun _ _ => .newObject _ (c := .space _) Bounded.below_empty
  | contains => grind [space]

end Containers

-- ---------------------------------------------------------------------------
-- Files
-- ---------------------------------------------------------------------------

section Files

variable {args : Arguments}

@[grind .]
theorem fileOf_still : Still n (fileOf args) := by grind [fileOf]

theorem useFile_still {α : Type} [Bounded α]
    {f : Files.OpenFile → Files.Tree → Except Failure (α × Files.OpenFile × Files.Tree)}
    (hf : ∀ file t, below n (f file t)) : Still n (useFile args f) := by
  refine fileOf_still.bind fun (id, file) _ => .bind (.withFiles fun t => ?_) fun (result, file) hresult =>
    (Still.setContent id (c := .file file) trivial).bind fun _ _ => .pure hresult.1
  exact Bounded.below_except_bind fun r hr => Bounded.ok ⟨⟨(hf file t r hr).1, trivial⟩, trivial⟩

@[grind .]
theorem readFrom_still {α : Type} [Bounded α] [Cellfree α]
    (f : Files.OpenFile → Files.Tree → Except Failure (α × Files.OpenFile)) : Still n (readFrom args f) :=
  useFile_still fun _ _ => Cellfree.below n _

@[grind .]
theorem writeTexts_still (texts : List String) : Still n (writeTexts args texts) :=
  useFile_still fun _ _ => Bounded.below_except_bind fun _ _ => Bounded.ok ⟨trivial, trivial, trivial⟩

@[grind .]
theorem openFile_still (mode : String) : Still n (openFile args mode) :=
  (args.text_still 0).bind fun _ _ => .bind (.withFiles fun _ => Cellfree.below n _) fun _ _ =>
    .newObject _ (c := .file _) trivial

theorem file_still (f : FileFunction) : Still n (file f args) := by
  cases f with
  | close =>
    simp only [file]
    refine useFile_still fun file t => ?_
    cases file.close t
    exact Bounded.ok ⟨trivial, trivial, trivial⟩
  | readLines =>
    refine (readFrom_still _).bind fun lines _ => .newList fun v hv => ?_
    obtain ⟨_, -, rfl⟩ := List.mem_map.mp (by simpa using hv)
    trivial
  | readLine =>
    refine (readFrom_still _).bind fun line _ => .pure ?_
    cases line <;> trivial
  | _ => grind [file]

end Files

-- ---------------------------------------------------------------------------
-- Paths
-- ---------------------------------------------------------------------------

section Paths

@[grind .]
theorem askFiles_still {α : Type} [Bounded α] [Cellfree α] (f : Files.Tree → α) : Still n (askFiles f) :=
  .withFiles fun _ => Cellfree.below n _

@[grind .]
theorem changeFiles_still (action path : String) (f : Files.Tree → Except Files.Refusal Files.Tree) :
    Still n (changeFiles action path f) := by
  refine .withFiles fun t => ?_
  split
  · exact Bounded.ok ⟨trivial, trivial⟩
  · exact nofun

@[grind .]
theorem directoryNames_still (path : String) (hidden : Bool) : Still n (directoryNames path hidden) :=
  .withFiles fun _ => Cellfree.below n _

@[grind .]
theorem newNames_still (names : List String) : Still n (newNames names) := by
  refine .newList fun v hv => ?_
  obtain ⟨_, -, rfl⟩ := List.mem_map.mp (by simpa using hv)
  trivial

@[grind .]
theorem removePath_still (path : String) : Still n (removePath path) := changeFiles_still _ _ _

@[grind .]
theorem temporaryName_still : Still n temporaryName := (randomBelow_still _).bind fun _ _ => askFiles_still _

theorem path_still (f : PathFunction) (args : Arguments) : Still n (path f args) := by
  cases f with
  | clearDirectory =>
    refine (args.text_still 0).bind fun path _ => (directoryNames_still path true).bind fun names _ => ?_
    exact .bind (.forIn (fun _ _ => (removePath_still _).bind fun _ _ => .pure trivial) _) fun _ _ => .pure trivial
  | _ => grind [path]

end Paths

end Library

-- ---------------------------------------------------------------------------
-- Documents and patterns
-- ---------------------------------------------------------------------------

mutual

theorem Run.ofDocument_still (d : Json.Document) : Still n (Run.ofDocument d) := by
  match d with
  | .null | .bool _ | .int _ | .float _ | .text _ => exact .pure trivial
  | .list items =>
    exact (Run.ofItems_still items).bind fun vs hvs => .newList fun v hv => hvs v (by simpa using hv)
  | .object fields =>
    exact (Run.ofFields_still fields).bind fun es hes =>
      .newTable (Bounded.below_ofList fun e he => (hes e he).2)

theorem Run.ofItems_still (items : List Json.Document) : Still n (Run.ofItems items) := by
  match items with
  | [] => exact .pure (by simp)
  | d :: rest =>
    exact (Run.ofDocument_still d).bind fun v hv => (Run.ofItems_still rest).bind fun vs hvs =>
      .pure (List.forall_mem_cons.mpr ⟨hv, hvs⟩)

theorem Run.ofFields_still (fields : List (String × Json.Document)) : Still n (Run.ofFields fields) := by
  match fields with
  | [] => exact .pure (by simp)
  | (_, d) :: rest =>
    exact (Run.ofDocument_still d).bind fun v hv => (Run.ofFields_still rest).bind fun es hes =>
      .pure (List.forall_mem_cons.mpr ⟨⟨trivial, hv⟩, hes⟩)

end

namespace Library

section Documents

variable {args : Arguments}

theorem json_still (f : JsonFunction) : Still n (json f args) := by
  cases f with
  | load =>
    refine (args.text_still 0).bind fun text _ => ?_
    split
    · exact Run.ofDocument_still _
    · exact .fail _
  | dump => grind [json]

@[grind .]
theorem matcherOf_still : Still n (matcherOf args) := by grind [matcherOf]

@[grind .]
theorem newPattern_still (flags : String) : Still n (newPattern args flags) :=
  (args.text_still 0).bind fun _ _ => .bind (.lift (Cellfree.below n _)) fun _ _ => .newObject _ (c := .regex _) trivial

@[grind .]
theorem findPattern_still (start : List Char → Except Failure Nat) : Still n (findPattern args start) := by
  grind [findPattern]

@[grind .]
theorem aboutGroup_still {tell : List Char → Nat → Nat → Value} (htell : ∀ cs i j, below n (tell cs i j)) :
    Still n (aboutGroup args tell) := by
  grind [aboutGroup]

theorem pattern_still (f : PatternFunction) : Still n (pattern f args) := by
  cases f <;> grind [pattern]

end Documents

-- ---------------------------------------------------------------------------
-- The core and the host
-- ---------------------------------------------------------------------------

@[grind .]
theorem readInput_still : Still n Run.readInput := by
  refine Still.get.bind fun m _ => ?_
  dsimp only
  split
  · exact .pure trivial
  · exact .bind (.adjust (fun _ => rfl) (fun _ => rfl) (fun _ => rfl) (fun _ => rfl) fun _ => rfl) fun _ _ =>
      .pure trivial

section Core

variable {args : Arguments}

theorem core_still (f : CoreFunction) : Still n (core f args) := by
  cases f <;> grind [core]

theorem hostFunction_still (f : HostFunction) (hargs : below n args) : Still n (Host.function f args) := by
  refine Still.heap.bind fun h hh => ?_
  cases f with
  | arguments =>
    refine .bind (.newList fun v hv => ?_) fun v hv => .pure hv
    obtain ⟨w, hw, rfl⟩ := Array.mem_map.mp hv
    exact hh.resolve (hargs w hw)
  | areReferences =>
    refine .bind (.newList fun v hv => ?_) fun v hv => .pure hv
    obtain ⟨w, hw, rfl⟩ := Array.mem_map.mp hv
    trivial
  | callFirst =>
    exact .pure ⟨args.below_nth 0 hargs, below_extract hargs _ _⟩
  | tryFirst =>
    exact .pure ⟨args.below_nth 0 hargs, below_extract hargs _ _⟩
  | instantiate cls =>
    refine .bind (.newObject _ (c := .table _) fun e he => ?_) fun v hv => .pure hv
    obtain ⟨k, hk, rfl⟩ := Array.mem_mapIdx.mp he
    exact hh.resolve (hargs _ (Array.getElem_mem _))
  | _ => grind

end Core

end Library

/-- Whatever a native function is given, it makes no cells and finds none beyond those it is given. -/
theorem Native.run_still {fn : Native} (hfn : below n fn) {args : Library.Arguments} (hargs : below n args) :
    Still n (fn.run args) := by
  cases fn with
  | core f => exact Library.core_still f
  | host f => exact Library.hostFunction_still f hargs
  | general f => exact (Library.general_still hfn).map fun _ hv => hv
  | math f => exact (Library.math_still f).map fun _ hv => hv
  | text f => exact (Library.text_still f).map fun _ hv => hv
  | list f => exact (Library.list_still f hargs).map fun _ hv => hv
  | table f => exact (Library.table_still f hargs).map fun _ hv => hv
  | set f => exact (Library.set_still f hargs).map fun _ hv => hv
  | array f => exact (Library.array_still f hargs).map fun _ hv => hv
  | file f => exact (Library.file_still f).map fun _ hv => hv
  | path f => exact (Library.path_still f args).map fun _ hv => hv
  | json f => exact (Library.json_still f).map fun _ hv => hv
  | pattern f => exact (Library.pattern_still f).map fun _ hv => hv
  | space f => exact (Library.space_still f).map fun _ hv => hv

theorem Native.answer_still {fn : Native} (hfn : below n fn) {args : Library.Arguments} (hargs : below n args) :
    Still n (fn.answer args) := by
  refine (fn.run_still hfn hargs).bind fun reply hreply => ?_
  cases reply with
  | value v => exact Still.heap.bind fun _ hh => .pure (hh.resolve hreply)
  | call callee args guarded => exact .pure trivial

end Rill
