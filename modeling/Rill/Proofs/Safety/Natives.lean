-- SUMMARY: Native functions leave operand stack and activations alone.
import Rill.Library
import Rill.Proofs.Safety.Objects

/-!
# Native functions

Whatever a native function of the library or of a host does, it works on the values behind its arguments,
on files and on output, and gives its answer back. So it is tame, and so is everything it is made of.
-/

namespace Rill

namespace Library

-- ---------------------------------------------------------------------------
-- Arguments and editing
-- ---------------------------------------------------------------------------

section Arguments

variable (args : Arguments) (k : Nat)

@[grind .]
theorem Arguments.value_tame : Tame (args.value k) := by grind [Arguments.value]

@[grind .]
theorem Arguments.integer_tame : Tame (args.integer k) := by grind [Arguments.integer]

@[grind .]
theorem Arguments.number_tame : Tame (args.number k) := by grind [Arguments.number]

@[grind .]
theorem Arguments.boolean_tame : Tame (args.boolean k) := by grind [Arguments.boolean]

@[grind .]
theorem Arguments.text_tame : Tame (args.text k) := by grind [Arguments.text]

@[grind .]
theorem Arguments.chars_tame : Tame (args.chars k) := by grind [Arguments.chars]

@[grind .]
theorem Arguments.list_tame : Tame (args.list k) := by grind [Arguments.list]

@[grind .]
theorem Arguments.table_tame : Tame (args.table k) := by grind [Arguments.table]

@[grind .]
theorem Arguments.set_tame : Tame (args.set k) := by grind [Arguments.set]

@[grind .]
theorem Arguments.matrix_tame : Tame (args.matrix k) := by grind [Arguments.matrix]

@[grind .]
theorem Arguments.key_tame : Tame (args.key k) := by grind [Arguments.key]

@[grind .]
theorem Arguments.count_tame : Tame (args.count k) := by grind [Arguments.count]

end Arguments

@[grind .]
theorem store_tame (target v : Value) : Tame (store target v) := by
  fun_cases store target v <;> grind

attribute [grind =] Heap.mistyped

@[grind .]
theorem ownObject_tame (expected : String) (target : Value) : Tame (ownObject expected target) := by
  grind [ownObject]

@[grind .]
theorem editList_tame (target : Value) {f : Array Value → Array Value × Except Failure Value}
    (hf : ∀ items, Harmless (f items).2) : Tame (editList target f) := by
  -- Where the many branches of a function would each be searched for algebra, that search is left out.
  grind -ring -linarith [editList]

@[grind .]
theorem replaceItems_tame (target : Value) {f : Array Value → Except Failure (Array Value)}
    (hf : ∀ items, Harmless (f items)) : Tame (replaceItems target f) := by
  refine editList_tame target fun items => ?_
  cases h : f items with
  | ok changed => exact .ok _
  | error e => exact .error (hf items e h)

@[grind .]
theorem editTable_tame (target : Value) (f : Table → Table) : Tame (editTable target f) := by
  grind -ring -linarith [editTable]

@[grind .]
theorem editSet_tame (target : Value) (f : KeySet → KeySet) : Tame (editSet target f) := by
  grind -ring -linarith [editSet]

@[grind .]
theorem editArray_tame (target : Value) (f : Matrix → Matrix) : Tame (editArray target f) := by
  grind -ring -linarith [editArray]

-- ---------------------------------------------------------------------------
-- Scalars
-- ---------------------------------------------------------------------------

@[grind .]
theorem length_harmless (h : Heap) (v : Value) : Harmless (h.length v) := by grind [Heap.length]

@[grind .]
theorem toInteger_harmless (h : Heap) (v : Value) : Harmless (h.toInteger v) := by grind [Heap.toInteger]

@[grind .]
theorem toFloat_harmless (h : Heap) (v : Value) : Harmless (h.toFloat v) := by grind [Heap.toFloat]

@[grind .]
theorem general_tame (f : GeneralFunction) (args : Arguments) : Tame (general f args) := by
  cases f <;> grind [general]

theorem setSeed_tame (seed : UInt64) : Tame (modify fun m => { m with seed := seed }) :=
  .change fun _ _ => .of_objects rfl rfl rfl rfl rfl

@[grind .]
theorem randomWord_tame : Tame Run.randomWord :=
  Tame.get.bind fun _ => (setSeed_tame _).bind fun _ => .pure _

@[grind .]
theorem randomBelow_tame (bound : Nat) : Tame (Run.randomBelow bound) := by grind [Run.randomBelow]

@[grind .]
theorem math_tame (f : MathFunction) (args : Arguments) : Tame (math f args) := by
  cases f with
  | absInt =>
    refine Tame.bind (args.integer_tame 0) fun n => ?_
    split
    · exact .pure _
    · exact .fail rfl
  | _ => grind -ring -linarith [math]

@[grind .]
theorem editText_tame (args : Arguments) {f : List Char → Except Failure (List Char)}
    (hf : ∀ cs, Harmless (f cs)) : Tame (editText args f) := by
  grind [editText]

@[grind .]
theorem alterText_tame (args : Arguments) (f : List Char → List Char) : Tame (alterText args f) := by
  grind [alterText]

section Positions

variable (text : List Char) (position : Int64)

@[grind .]
theorem place_harmless (atEnd : Bool) : Harmless (Text.place text position atEnd) := by grind [Text.place]

@[grind .]
theorem boundary_harmless (atEnd : Bool) : Harmless (Text.boundary text position atEnd) := by
  grind [Text.boundary]

@[grind .]
theorem find_harmless (needle : List Char) : Harmless (Text.find text needle position) := by grind [Text.find]

@[grind .]
theorem searchLimit_harmless (needle : List Char) : Harmless (Text.searchLimit text needle position) := by
  grind [Text.searchLimit]

@[grind .]
theorem findBack_harmless (needle : List Char) : Harmless (Text.findBack text needle position) := by
  grind [Text.findBack]

@[grind .]
theorem slice_harmless : Harmless (Text.slice text position) := by grind [Text.slice]

@[grind .]
theorem charAt_harmless : Harmless (Text.charAt text position) := by grind [Text.charAt]

@[grind .]
theorem insert_harmless (piece : List Char) : Harmless (Text.insert text position piece) := by
  grind [Text.insert]

@[grind .]
theorem splice_harmless (count : Nat) (piece : List Char) :
    Harmless (Text.splice text position count piece) := by
  grind [Text.splice]

end Positions

@[grind .]
theorem text_tame (f : TextFunction) (args : Arguments) : Tame (text f args) := by
  cases f <;> grind -ring -linarith [text]

-- ---------------------------------------------------------------------------
-- Containers
-- ---------------------------------------------------------------------------

@[grind .]
theorem firstWhere?_harmless {test : Value → Except Failure Bool} (htest : ∀ v, Harmless (test v))
    (items : List Value) : Harmless (firstWhere? test items) := by
  fun_induction firstWhere? test items <;> grind

@[grind .]
theorem lastWhere?_harmless {test : Value → Except Failure Bool} (htest : ∀ v, Harmless (test v))
    (items : List Value) : Harmless (lastWhere? test items) := by
  grind [lastWhere?]

@[grind .]
theorem hasEqual_harmless (h : Heap) (items : List Value) (v : Value) : Harmless (hasEqual h items v) := by
  grind [hasEqual]

@[grind .]
theorem findItem_harmless (h : Heap) (items : List Value) (v : Value) (start : Int64) :
    Harmless (findItem h items v start) := by
  grind [findItem]

@[grind .]
theorem findItemBack_harmless (h : Heap) (items : List Value) (v : Value) (start : Int64) :
    Harmless (findItemBack h items v start) := by
  grind [findItemBack]

@[grind .]
theorem union_harmless (h : Heap) (items others : List Value) : Harmless (union h items others) := by
  grind [union]

@[grind .]
theorem takeAt_harmless (items : Array Value) (offset : Nat) : Harmless (takeAt items offset).2 := by
  grind [takeAt]

@[grind .]
theorem insertItem_harmless (items : Array Value) (position : Int64) (v : Value) :
    Harmless (insertItem items position v) := by
  grind [insertItem]

@[grind .]
theorem removeFound_harmless (items : Array Value) {found : Except Failure (Option Nat)}
    (hfound : Harmless found) : Harmless (removeFound items found) := by
  grind [removeFound]

@[grind .]
theorem shuffled_tame (items : Array Value) : Tame (Run.shuffled items) := by
  grind [Run.shuffled]

@[grind .]
theorem endItem_tame (item : Option Value) : Tame (endItem item) := by
  cases item <;> grind [endItem]

@[grind .]
theorem sortItems_harmless (h : Heap) (items : Array Value) : Harmless (sortItems h items).2 := by
  have hsorted := Heap.sorted_harmless h.order_harmless items.toList
  unfold sortItems
  split
  · exact .ok _
  · next hfailure => exact .error (hsorted _ (by rw [hfailure]; rfl))

@[grind .]
theorem list_tame (f : ListFunction) (args : Arguments) : Tame (list f args) := by
  cases f with
  | intersect | subtract =>
    refine Tame.heap.bind fun h => (args.list_tame 0).bind fun items => (args.list_tame 1).bind fun others => ?_
    refine .bind (.filterM (fun v => .lift (.map ?_)) items) .newList
    exact firstWhere?_harmless (fun w => h.equals_harmless w v) _
  | shuffle =>
    refine Tame.heap.bind fun h => (ownObject_tame _ _).bind fun (id, content) => ?_
    cases content with
    | list items => exact (shuffled_tame _).bind fun _ => .bind (.setContent rfl) fun _ => .pure _
    | _ => exact .throw rfl
  | removeAt =>
    refine Tame.heap.bind fun h => (args.integer_tame 1).bind fun position =>
      editList_tame _ fun items => ?_
    cases hindex : resolveIndex position items.size with
    | ok offset => exact takeAt_harmless items offset
    | error e => exact .error (resolveIndex_harmless _ _ e hindex)
  | _ => grind -ring -linarith [list]

@[grind .]
theorem entryOf_tame (args : Arguments) : Tame (entryOf args) := by grind [entryOf]

@[grind .]
theorem table_tame (f : TableFunction) (args : Arguments) : Tame (table f args) := by
  cases f <;> grind [table]

@[grind .]
theorem set_tame (f : SetFunction) (args : Arguments) : Tame (set f args) := by
  cases f <;> grind [set]

@[grind .]
theorem combined_tame (m : Matrix) (f : Float → Float → Float) : Tame (combined m f) := by
  grind [combined]

@[grind .]
theorem array_tame (f : ArrayFunction) (args : Arguments) : Tame (array f args) := by
  cases f <;> grind [array]

@[grind .]
theorem space_tame (f : ModuleFunction) (args : Arguments) : Tame (space f args) := by
  cases f <;> grind [space]

end Library

-- ---------------------------------------------------------------------------
-- Files and paths
-- ---------------------------------------------------------------------------

namespace Files.OpenFile

variable (f : OpenFile) (t : Tree)

@[grind .]
theorem openPath_harmless (path mode : String) : Harmless (openPath t path mode) := by
  fun_cases openPath t path mode <;> grind -ring -linarith

@[grind .]
theorem fill_harmless : Harmless (f.fill t) := by
  fun_cases fill f t <;> grind -ring -linarith

@[grind .]
theorem atEnd_harmless : Harmless (f.atEnd t) := by grind [atEnd]

@[grind .]
theorem takeLine_harmless (fuel : Nat) : Harmless (f.takeLine t fuel) := by
  induction fuel generalizing f with
  | zero => exact .ok _
  | succ fuel ih => grind -ring -linarith [takeLine]

@[grind .]
theorem readLine_harmless : Harmless (f.readLine t) := by grind -ring -linarith [readLine]

@[grind .]
theorem readLines_harmless (fuel : Nat) : Harmless (f.readLines t fuel) := by
  induction fuel generalizing f with
  | zero => exact .ok _
  | succ fuel ih => grind -ring -linarith [readLines]

@[grind .]
theorem readAll_harmless : Harmless (f.readAll t) := by grind [readAll]

@[grind .]
theorem write_harmless (text : String) : Harmless (f.write t text) := by
  grind [write]

end Files.OpenFile

namespace Library

@[grind .]
theorem fileOf_tame (args : Arguments) : Tame (fileOf args) := by grind [fileOf]

theorem useFile_tame (args : Arguments)
    {f : Files.OpenFile → Files.Tree → Except Failure (α × Files.OpenFile × Files.Tree)}
    (hf : ∀ file t, Harmless (f file t)) : Tame (useFile args f) := by
  refine (fileOf_tame args).bind fun (id, file) => .bind (.withFiles fun t => ?_) fun _ =>
    .bind (.setContent rfl) fun _ => .pure _
  exact (hf file t).bind fun _ => .pure _

@[grind .]
theorem readFrom_tame (args : Arguments)
    {f : Files.OpenFile → Files.Tree → Except Failure (α × Files.OpenFile)}
    (hf : ∀ file t, Harmless (f file t)) : Tame (readFrom args f) :=
  useFile_tame args fun file t => (hf file t).bind fun _ => .pure _

@[grind .]
theorem writeTexts_tame (args : Arguments) (texts : List String) : Tame (writeTexts args texts) := by
  have hwrite (p : Files.OpenFile × Files.Tree) (text : String) : Harmless (p.1.write p.2 text) :=
    p.1.write_harmless p.2 text
  exact useFile_tame args fun file t => (Harmless.foldlM hwrite texts (file, t)).bind fun _ => .pure _

@[grind .]
theorem openFile_tame (args : Arguments) (mode : String) : Tame (openFile args mode) :=
  (args.text_tame 0).bind fun path =>
    .bind (.withFiles fun t => Files.OpenFile.openPath_harmless t path mode) fun _ => .newObject_plain rfl

@[grind .]
theorem file_tame (f : FileFunction) (args : Arguments) : Tame (file f args) := by
  cases f with
  | close =>
    simp only [file]
    refine useFile_tame args fun file t => ?_
    cases file.close t
    exact .ok _
  | _ => grind [file]

section Paths

variable (path : String)

@[grind .]
theorem askFiles_tame (f : Files.Tree → α) : Tame (askFiles f) := .withFiles fun _ => .ok _

@[grind .]
theorem changeFiles_tame (action : String) (f : Files.Tree → Except Files.Refusal Files.Tree) :
    Tame (changeFiles action path f) := by
  refine .withFiles fun t => ?_
  split <;> grind

@[grind .]
theorem directoryNames_tame (hidden : Bool) : Tame (directoryNames path hidden) := by
  refine .withFiles fun t => ?_
  split <;> grind

@[grind .]
theorem newNames_tame (names : List String) : Tame (newNames names) := .newList _

@[grind .]
theorem removePath_tame : Tame (removePath path) := changeFiles_tame _ _ _

@[grind .]
theorem temporaryName_tame : Tame temporaryName := (randomBelow_tame _).bind fun _ => askFiles_tame _

end Paths

@[grind .]
theorem path_tame (f : PathFunction) (args : Arguments) : Tame (path f args) := by
  cases f with
  | clearDirectory =>
    refine (args.text_tame 0).bind fun path => (directoryNames_tame path true).bind fun names => ?_
    exact .bind (.forIn (fun _ _ => (removePath_tame _).bind fun _ => .pure _) names _) fun _ => .pure _
  | _ => grind -ring -linarith [path]

end Library

-- ---------------------------------------------------------------------------
-- Documents and patterns
-- ---------------------------------------------------------------------------

namespace Heap

@[grind .]
theorem floatDocument_harmless (x : Float) : Harmless (floatDocument x) := by grind [floatDocument]

@[grind .]
theorem matrixDocument_harmless (m : Matrix) : Harmless (matrixDocument m) := by grind [matrixDocument]

theorem contentDocument_harmless (h : Heap) (cls : ClassId) {value : Value → Except Failure Json.Document}
    (hvalue : ∀ v, Harmless (value v)) (c : Content) : Harmless (h.contentDocument cls value c) := by
  cases c <;> grind -ring -linarith [contentDocument]

theorem documentWithin_harmless (h : Heap) (fuel : Nat) (around : List ObjectId) (v : Value) :
    Harmless (h.documentWithin fuel around v) := by
  induction fuel generalizing around v with
  | zero => grind -ring -linarith [documentWithin]
  | succ fuel ih =>
    have hcontent (id : ObjectId) (o : Object) :
        Harmless (h.contentDocument o.cls (h.documentWithin fuel (id :: around)) o.content) :=
      h.contentDocument_harmless o.cls (ih (id :: around)) o.content
    grind -ring -linarith [documentWithin]

@[grind .]
theorem document_harmless (h : Heap) (v : Value) : Harmless (h.document v) := documentWithin_harmless h _ [] v

end Heap

mutual

theorem Run.ofDocument_tame (d : Json.Document) : Tame (Run.ofDocument d) := by
  match d with
  | .null | .bool _ | .int _ | .float _ | .text _ => exact .pure _
  | .list items => exact (Run.ofItems_tame items).bind fun _ => .newList _
  | .object fields => exact (Run.ofFields_tame fields).bind fun _ => .newTable _

theorem Run.ofItems_tame (items : List Json.Document) : Tame (Run.ofItems items) := by
  match items with
  | [] => exact .pure _
  | d :: rest => exact (Run.ofDocument_tame d).bind fun _ => (Run.ofItems_tame rest).bind fun _ => .pure _

theorem Run.ofFields_tame (fields : List (String × Json.Document)) : Tame (Run.ofFields fields) := by
  match fields with
  | [] => exact .pure _
  | (_, d) :: rest =>
    exact (Run.ofDocument_tame d).bind fun _ => (Run.ofFields_tame rest).bind fun _ => .pure _

end

@[grind .]
theorem Pattern.modesOf_harmless (flags : String) : Harmless (Pattern.modesOf flags) := by
  refine .foldlM (fun modes name => ?_) _ _
  split <;> grind

namespace Matcher

@[grind .]
theorem ofSource_harmless (source flags : String) : Harmless (ofSource source flags) := by
  refine (Pattern.modesOf_harmless flags).bind fun modes => ?_
  split <;> grind

@[grind .]
theorem group_harmless (m : Matcher) (index : Int64) : Harmless (m.group index) := by grind [group]

end Matcher

namespace Library

@[grind .]
theorem json_tame (f : JsonFunction) (args : Arguments) : Tame (json f args) := by
  cases f with
  | load =>
    refine (args.text_tame 0).bind fun text => ?_
    split
    · exact Run.ofDocument_tame _
    · exact .fail rfl
  | dump => grind [json]

@[grind .]
theorem matcherOf_tame (args : Arguments) : Tame (matcherOf args) := by grind [matcherOf]

@[grind .]
theorem newPattern_tame (args : Arguments) (flags : String) : Tame (newPattern args flags) :=
  (args.text_tame 0).bind fun _ => .bind (.lift (Matcher.ofSource_harmless _ _)) fun _ => .newObject_plain rfl

@[grind .]
theorem findPattern_tame (args : Arguments) {start : List Char → Except Failure Nat}
    (hstart : ∀ cs, Harmless (start cs)) : Tame (findPattern args start) := by
  grind [findPattern]

@[grind .]
theorem aboutGroup_tame (args : Arguments) (tell : List Char → Nat → Nat → Value) :
    Tame (aboutGroup args tell) := by
  grind [aboutGroup]

@[grind .]
theorem pattern_tame (f : PatternFunction) (args : Arguments) : Tame (pattern f args) := by
  cases f <;> grind [pattern]

-- ---------------------------------------------------------------------------
-- The core and the host
-- ---------------------------------------------------------------------------

@[grind .]
theorem readInput_tame : Tame Run.readInput := by
  refine Tame.get.bind fun m => ?_
  dsimp only
  split
  · exact .pure _
  · exact .bind (.change fun _ _ => .of_objects rfl rfl rfl rfl rfl) fun _ => .pure _

@[grind .]
theorem core_tame (f : CoreFunction) (args : Arguments) : Tame (core f args) := by
  cases f <;> grind -ring -linarith [core]

@[grind .]
theorem hostFunction_tame (f : HostFunction) (args : Arguments) : Tame (Host.function f args) := by
  cases f <;> grind -ring -linarith [Host.function]

end Library

/-- Every native function is tame. -/
@[grind .]
theorem Native.run_tame (fn : Native) (args : Library.Arguments) : Tame (fn.run args) := by
  cases fn <;> grind -ring -linarith [Native.run]

@[grind .]
theorem Native.answer_tame (fn : Native) (args : Library.Arguments) : Tame (fn.answer args) := by
  grind -ring -linarith [Native.answer]

end Rill
