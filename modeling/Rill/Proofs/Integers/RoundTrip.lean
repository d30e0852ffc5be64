-- SUMMARY: Integers are what they were after they have been written out and read back.
import Rill.Library
import Rill.Proofs.Decimals.Texts
import Rill.Proofs.Evaluation.Script
import Rill.Proofs.Integers.Bounds
import Rill.Proofs.Json.Scalars
import Rill.Proofs.Printing.Script
import Rill.Proofs.Safety.Callbacks

/-!
# Integers in texts

There is one way to write an integer out, and there are two to read one: a script has it as a literal, which
may be broken up by underscores and have a minus sign in front, and the conversion of a text reads digits
behind a sign. Both give the integer back. Below the bounds that literals have, every integer of 64 bits has
a text; the sign of the smallest one is part of it for the grammar.

The routine of a script that returns an integer has no slots; it pushes the integer and leaves. A host that
runs the text has the integer then, if there is room for a callee and an operand and for one more call.
-/

namespace Rill

open Evaluation

-- ---------------------------------------------------------------------------
-- Compilation
-- ---------------------------------------------------------------------------

theorem Expr.eq_int_of_bare {e : Expr} {site : Site} {n : Int64} (h : e.bare = (Expr.int site n).bare) :
    ∃ site', e = .int site' n := by
  cases e with
  | int site' m =>
    obtain ⟨-, rfl⟩ := Expr.int.inj h
    exact ⟨site', rfl⟩
  | _ => exact absurd h (by simp [Expr.bare])

/-- A script that returns an integer is compiled. -/
theorem compile_int {s : Script} {n : Int64} {site : Site} (h : s.Returns (.int site n)) (file : String)
    (debug : Bool) : ∃ r, compile s file debug = .ok r := by
  obtain ⟨setting, ⟨line, stmts⟩⟩ := s
  obtain ⟨-, site', e, hstmts, he⟩ := h
  obtain ⟨site'', rfl⟩ := Expr.eq_int_of_bare he
  obtain rfl : stmts = _ := hstmts
  simp only [compile, Compile.script, Compile.statements, Compile.statement, Compile.expression,
    Compile.pushInteger]
  by_cases hsmall : -32768 ≤ n ∧ n ≤ 32767
  · simp only [if_pos hsmall]
    exact ⟨_, rfl⟩
  · simp only [if_neg hsmall]
    exact ⟨_, rfl⟩

/-- Its routine has no slots: it pushes the integer and leaves. -/
theorem compile_int_places {s : Script} {n : Int64} {site : Site} (h : s.Returns (.int site n)) {file : String}
    {debug : Bool} {r : Routine} (hproper : s.body.Proper) (hcompile : compile s file debug = .ok r) :
    r.frameSize = 0 ∧ r.Has 0 (.reserve r.frameSize) ∧ Layout.PlacesInt r n 1 ∧ r.Has 2 .result := by
  obtain ⟨setting, ⟨line, stmts⟩⟩ := s
  obtain ⟨-, site', e, hstmts, he⟩ := h
  obtain ⟨site'', rfl⟩ := Expr.eq_int_of_bare he
  obtain rfl : stmts = _ := hstmts
  obtain ⟨body, -, hplaces, htaken, hreserve, -⟩ := Layout.compile_places hproper hcompile
  simp only [Layout.PlacesAllStmts, Layout.PlacesStmt, Layout.Places] at hplaces
  obtain ⟨-, -, ⟨_, ⟨hint, rfl⟩, hresult, -⟩, -⟩ := hplaces
  exact ⟨htaken.symm, hreserve, hint, hresult⟩

-- ---------------------------------------------------------------------------
-- Runs
-- ---------------------------------------------------------------------------

/-- With room for one operand, a frame that starts such a routine leaves the integer in the place of the
callee. -/
theorem Evaluation.Stage.runs_int {S : Stage} {n : Int64} (hip : S.frame.ip = 0)
    (hcontrol : S.machine.control = .script S.frame :: S.rest)
    (hreserve : S.routine.Has 0 (.reserve S.routine.frameSize)) (hslots : S.routine.frameSize = 0)
    (hint : Layout.PlacesInt S.routine n 1) (hresult : S.routine.Has 2 .result)
    (hroom : S.machine.stack.size < S.machine.config.stackLimit) (steps : Nat) :
    ∃ m', Run.attempts S.rest.length (steps + 3) S.machine = .ok true m' ∧
      m'.stack = (S.machine.stack.shrink (S.frame.base - 1)).push (.int n) := by
  have hactive : S.Active S.machine := ⟨S.frame, hcontrol⟩
  have hbase := S.base
  have hfirst := Stage.reserve_room hip hcontrol hreserve (by omega)
  have hempty : (S.state 1 (.start S.machine) []).stack.size < S.machine.config.stackLimit := by
    change (S.stack _ []).size < _
    rw [S.stack_size, hslots, List.length_nil]
    omega
  have hsecond := Stage.pushInteger_step hint hempty
  obtain ⟨m', hthird, hlength, -, -, -, hstack⟩ := Stage.result_step (σ := .start S.machine) (v := .int n) hresult
  have hover : (m'.control.drop S.rest.length).isEmpty = true := by
    rw [List.isEmpty_iff, List.drop_eq_nil_iff]
    exact Nat.le_of_eq hlength
  refine ⟨m', ?_, by simpa [Heap.resolve] using hstack⟩
  rw [Stage.attempts_step hactive hfirst, Stage.attempts_step (S.state_active ..) hsecond,
    Stage.attempts_step (S.state_active ..) hthird, Run.attempts_over hover]

/-- A text that is compiled becomes a function whose only closure starts its routine. -/
theorem loadText_dispatches {source file : String} {r : Routine} {m : Machine}
    (h : compileText source file m.config.debug = .ok r) :
    ∃ m' callee closure key, Run.loadText file source m = .ok callee m' ∧
      m'.heap.dispatch callee #[] = .ok closure ∧ closure.callable = .script r key ∧
      m'.stack = m.stack ∧ m'.control = m.control ∧ m'.config = m.config := by
  let made : Closure := { callable := .script r { chunk := m.chunks }, signature := [] }
  let heap := (m.heap.allocate .function (.function (.ofClosure r.name made))).2
  have hcontent : heap.contentOf (.object ⟨m.heap.objects.size⟩) = some (.function (.ofClosure r.name made)) :=
    (Heap.content?_allocate _ _ _ _).trans (if_pos rfl)
  have hload : Run.loadText file source m = .ok (.object ⟨m.heap.objects.size⟩) { m with
      chunks := m.chunks + 1
      heap := heap
      registrations :=
        if heap.classes.isCollectable .function then m.registrations + 1 else m.registrations } := by
    have hlift : (liftM (compileText source file m.config.debug) : Run Routine) m = .ok r m := by rw [h]; rfl
    exact (Run.bind_of_ok hlift).trans rfl
  refine ⟨_, _, made, _, hload, ?_, rfl, rfl, rfl, rfl⟩
  simp only [Heap.dispatch, Heap.calledFunction, hcontent]
  rfl

/-- The call of a function whose only closure starts such a routine leaves the integer in the place of the
function. -/
theorem hostCall_int {m : Machine} {below : Array Value} {callee : Value} {closure : Closure} {r : Routine}
    {key : RoutineKey} {n : Int64} (hstack : m.stack = below.push callee)
    (hcallee : m.heap.dispatch callee #[] = .ok closure) (hscript : closure.callable = .script r key)
    (hreserve : r.Has 0 (.reserve r.frameSize)) (hslots : r.frameSize = 0) (hint : Layout.PlacesInt r n 1)
    (hresult : r.Has 2 .result) (hroom : m.stack.size < m.config.stackLimit)
    (hdepth : m.frames.length < m.config.callDepth) (steps : Nat) :
    ∃ m', Run.hostCall (steps + 4) 0 false false m = .ok true m' ∧ m'.stack = below.push (.int n) := by
  let entering : Machine := { m with control := .entering 0 false :: m.control }
  obtain ⟨started, f, hstep, hstarts, -, hkept, hconfig, -, -⟩ :=
    step_starts (m := entering) rfl hstack hcallee hscript hdepth
  let S : Stage := ⟨started, f, m.control, hstarts.base⟩
  obtain ⟨m', hruns, hresult⟩ := S.runs_int (n := n) hstarts.ip hstarts.control
    (by rw [Stage.routine, hstarts.routine]; exact hreserve) (by rw [Stage.routine, hstarts.routine]; exact hslots)
    (by rw [Stage.routine, hstarts.routine]; exact hint) (by rw [Stage.routine, hstarts.routine]; exact hresult)
    (by rw [hkept, hconfig]; exact hroom) steps
  have hgoing : (entering.control.drop m.control.length).isEmpty = false := by
    rw [← Bool.not_eq_true, List.isEmpty_iff, List.drop_eq_nil_iff]
    simp [entering]
  have hattempts : Run.attempts m.control.length (steps + 4) entering = .ok true m' :=
    (Run.attempts_step hgoing hstep _).trans hruns
  have hcall : Run.callPushed (steps + 4) 0 false m = .ok true m' := hattempts
  have hcount : ¬m.stack.size < 0 + 1 := by simp [hstack]
  refine ⟨m', ?_, ?_⟩
  · rw [Run.hostCall, if_neg hcount, hcall]
  · have hsize : f.base = below.size + 1 := by
      rw [← hstarts.base, hkept]
      simp [entering, hstack]
    rw [hresult, hkept, hsize]
    simp [entering, hstack]

/-- A host that runs a text which returns an integer has the integer. -/
theorem runText_returns {source : String} {script : Script} {site : Site} {n : Int64}
    (hparse : parse source = .ok script) (hreturns : script.Returns (.int site n)) (file : String) {m : Machine}
    (hroom : m.stack.size + 1 < m.config.stackLimit) (hdepth : m.frames.length < m.config.callDepth) :
    ∃ m', Run.runText file source m = .ok (.int n) m' := by
  obtain ⟨r, hcompile⟩ := compile_int hreturns file m.config.debug
  obtain ⟨hslots, hreserve, hint, hresult⟩ := compile_int_places hreturns (parse_proper hparse) hcompile
  have htext : compileText source file m.config.debug = .ok r := by
    rw [compileText, hparse]
    exact hcompile
  obtain ⟨loaded, callee, closure, key, hload, hcallee, hscript, hstack, hcontrol, hconfig⟩ :=
    loadText_dispatches htext
  have hpush := push_room (m := loaded) callee (by rw [hstack, hconfig]; omega)
  have hpushed : (loaded.pushed [callee]).stack = loaded.stack.push callee := by simp [Machine.pushed]
  obtain ⟨m', hcall, hleft⟩ := hostCall_int (n := n) hpushed hcallee hscript hreserve hslots hint hresult
    (by rw [Machine.pushed_size, Machine.pushed_config, hstack, hconfig]; exact hroom)
    (by rw [Machine.frames, Machine.pushed, hcontrol, hconfig]; exact hdepth) (Run.endlessly - 4)
  have hpop := pop_of_back (m := m') (v := .int n) (by rw [hleft, Array.back?_push])
  rw [Nat.sub_add_cancel (by decide)] at hcall
  have hdiscard : Run.call 0 (loaded.pushed [callee]) = .ok () m' := by
    simp only [Run.call, discard, Functor.discard, Functor.mapConst, Function.comp, EStateM.map, hcall]
  have hrun : Run.runFunction callee loaded = .ok (.int n) { m' with stack := m'.stack.pop } := by
    rw [Run.runFunction, Run.bind_of_ok hpush, Run.bind_of_ok hdiscard, Run.bind_of_ok hpop]
    rfl
  exact ⟨_, (Run.bind_of_ok hload).trans hrun⟩

-- ---------------------------------------------------------------------------
-- Underscores
-- ---------------------------------------------------------------------------

/-- The second text is the first one with any number of underscores behind a digit. -/
def Underscored (shown written : List Char) : Prop :=
  ∃ front d behind, d.isDigit = true ∧ shown = front ++ d :: behind.filter (· ≠ '_') ∧
    written = front ++ d :: behind

/-- Underscores do not change the value of digits. -/
theorem digitsValue_filter (cs : List Char) : digitsValue (cs.filter (· ≠ '_')) = digitsValue cs := by
  rw [digitsValue, digitsValue, List.foldl_filter]
  congr 1
  funext n c
  by_cases hc : c = '_'
  · subst hc
    rfl
  · simp [hc]

namespace Underscored

variable {shown written : List Char} {c : Char}

/-- What is no digit stays at the start. -/
theorem tail (h : Underscored (c :: shown) written) (hc : c.isDigit = false) :
    ∃ rest, written = c :: rest ∧ Underscored shown rest := by
  obtain ⟨front, d, behind, hd, hshown, rfl⟩ := h
  cases front with
  | nil =>
    obtain ⟨rfl, -⟩ := List.cons.inj hshown
    exact absurd hd (by simp [hc])
  | cons b front =>
    obtain ⟨rfl, rfl⟩ := List.cons.inj hshown
    exact ⟨_, rfl, front, d, behind, hd, rfl, rfl⟩

/-- Digits with underscores behind the first one are a literal with the value of the digits. -/
theorem literal (h : Underscored shown written) (hdigits : ∀ c ∈ shown, c.isDigit = true) :
    ∃ d whole, written = d :: whole ∧ d.isDigit = true ∧ (∀ c ∈ whole, isNumeral c = true) ∧
      digitsValue written = digitsValue shown := by
  obtain ⟨front, e, behind, he, rfl, rfl⟩ := h
  have hfront : ∀ c ∈ front, c.isDigit = true := fun c hc => hdigits c (by simp [hc])
  have hkept (cs : List Char) (hcs : ∀ c ∈ cs, c.isDigit = true) : cs.filter (· ≠ '_') = cs := by
    refine List.filter_eq_self.mpr fun c hc => decide_eq_true ?_
    rintro rfl
    exact absurd (hcs _ hc) (by decide)
  have hvalue : digitsValue (front ++ e :: behind) = digitsValue (front ++ e :: behind.filter (· ≠ '_')) := by
    rw [← digitsValue_filter (front ++ e :: behind), ← List.singleton_append, List.filter_append, List.filter_append,
      hkept front hfront, hkept [e] (by simpa using he), List.singleton_append]
  have hnumeral : ∀ c ∈ front ++ e :: behind, isNumeral c = true := by
    intro c hc
    by_cases hunderscore : c = '_'
    · simp [isNumeral, hunderscore]
    · have hshown : c ∈ front ++ e :: behind.filter (· ≠ '_') := by
        simpa [hunderscore] using hc
      simp [isNumeral, hdigits c hshown]
  cases front with
  | nil => exact ⟨e, behind, rfl, he, fun c hc => hnumeral c (by simp [hc]), hvalue⟩
  | cons b front =>
    exact ⟨b, front ++ e :: behind, rfl, hfront b List.mem_cons_self,
      fun c hc => hnumeral c (List.mem_cons_of_mem _ hc), hvalue⟩

end Underscored

-- ---------------------------------------------------------------------------
-- Literals in source texts
-- ---------------------------------------------------------------------------

/-- A literal at the end of a text. -/
theorem scanFrom_numeral {digits written : List Char} (h : Underscored digits written)
    (hdigits : ∀ c ∈ digits, c.isDigit = true) (hfits : digitsValue digits < 0x10000000000000000) (p : Position) :
    (scanFrom p written).Kinds [.int (digitsValue digits)] := by
  obtain ⟨d, whole, rfl, hd, hwhole, hvalue⟩ := h.literal hdigits
  have hmunch : munch d (whole ++ []) = ⟨whole.length, .token (.int (digitsValue digits))⟩ := by
    rw [munch_digit hd, munchNumber_whole d hwhole (by simp), hvalue, if_pos hfits]
  have hscan := scanFrom_munched hmunch p
  rw [List.append_nil] at hscan
  rw [hscan, scanFrom_nil]
  exact ⟨rfl, rfl⟩

/-- A minus sign that no equals sign makes longer. -/
theorem scanFrom_minus {cs : List Char} {ks : List TokenKind} (hcs : ∀ d ∈ cs.head?, d ≠ '=')
    (h : ∀ p, (scanFrom p cs).Kinds ks) (p : Position) : (scanFrom p ('-' :: cs)).Kinds (.mark .minus :: ks) := by
  have hmark : munchMark '-' cs = ⟨0, .token (.mark .minus)⟩ := match_equals_other hcs
  have hmunch : munch '-' ([] ++ cs) = ⟨0, .token (.mark .minus)⟩ := by
    rw [← hmark]
    rfl
  have hscan := scanFrom_munched hmunch p
  rw [List.nil_append] at hscan
  rw [hscan]
  obtain ⟨herror, hkinds⟩ := h (p.after ['-'])
  exact ⟨herror, by simp [hkinds]⟩

theorem scan_return_int {n : Int64} {written : List Char} (h : Underscored (toString n).toList written)
    (extra : Expr → Bool) (site : Site) :
    (scan ("return " ++ String.ofList written)).Kinds
      (.keyword .returnKw :: enclosed false ((Expr.int site n).tokens extra)) := by
  have hreturn : (TokenKind.keyword .returnKw).Spellable := trivial
  have htext : ("return " ++ String.ofList written).toList =
      (TokenKind.keyword .returnKw).written ++ ' ' :: written := by
    rw [String.toList_append, String.toList_ofList, String.toList_ofList]
    rfl
  have hlow := n.le_toInt
  have hhigh := n.toInt_lt
  have hdigits : ∀ c ∈ Nat.toDigits 10 n.toInt.natAbs, c.isDigit = true :=
    fun c hc => Nat.isDigit_of_mem_toDigits (by omega) (by omega) hc
  have hfits : digitsValue (Nat.toDigits 10 n.toInt.natAbs) < 0x10000000000000000 := by
    rw [digitsValue_toDigits]
    omega
  rw [scan, htext, enclosed, if_neg Bool.false_ne_true, Expr.tokens]
  refine scanFrom_token hreturn (parted_blank _) (fun p => ?_) {}
  rw [scanFrom_layout rfl]
  generalize p.after [' '] = p
  rw [Json.toString_int64] at h
  by_cases hneg : n.toInt < 0
  · rw [if_pos hneg] at h
    obtain ⟨literal, rfl, hliteral⟩ := h.tail rfl
    have hnumeral := scanFrom_numeral hliteral hdigits hfits
    rw [digitsValue_toDigits] at hnumeral
    rw [if_pos (Int64.lt_iff_toInt_lt.mpr hneg)]
    obtain ⟨d, whole, rfl, hd, -⟩ := hliteral.literal hdigits
    refine scanFrom_minus ?_ hnumeral p
    rintro _ ⟨⟩ rfl
    exact absurd hd (by decide)
  · rw [if_neg hneg] at h
    have hnumeral := scanFrom_numeral h hdigits hfits
    rw [digitsValue_toDigits] at hnumeral
    rw [if_neg fun hlt => hneg (Int64.lt_iff_toInt_lt.mp hlt)]
    exact hnumeral p

-- ---------------------------------------------------------------------------
-- Conversions
-- ---------------------------------------------------------------------------

theorem Unicode.trim_eq_self {cs : List Char} (h : ∀ c ∈ cs, isBlank c = false) : trim cs = cs := by
  have hall (ds : List Char) (hds : ∀ c ∈ ds, isBlank c = false) : ds.dropWhile isBlank = ds := by
    cases ds with
    | nil => rfl
    | cons d ds => exact List.dropWhile_cons_of_neg (by simp [hds d List.mem_cons_self])
  rw [trim, trimStart, hall cs h, trimEnd, hall cs.reverse (by simpa using h), List.reverse_reverse]

/-- There are no blanks in the text of an integer. -/
theorem trim_toString_int64 (n : Int64) : Unicode.trim (toString n).toList = (toString n).toList := by
  have hplain (c : Char) (hlo : 45 ≤ c.toNat) (hhi : c.toNat ≤ 57) : Unicode.isBlank c = false := by
    simp [Unicode.isBlank, Unicode.inRanges, Unicode.blankRanges]
    omega
  have hdigits : ∀ c ∈ Nat.toDigits 10 n.toInt.natAbs, Unicode.isBlank c = false := by
    intro c hc
    obtain ⟨hlo, hhi⟩ := Char.isDigit_iff_toNat.mp (Nat.isDigit_of_mem_toDigits (by omega) (by omega) hc)
    exact hplain c (Nat.le_trans (by decide) hlo) hhi
  refine Unicode.trim_eq_self ?_
  rw [Json.toString_int64]
  split
  · exact List.forall_mem_cons.mpr ⟨hplain '-' (by decide) (by decide), hdigits⟩
  · exact hdigits

theorem Heap.text_int (h : Heap) (n : Int64) : h.text (.int n) = toString n := by
  rw [text, textWithin]
  rfl

/-- Converting an integer to a text and this text to an integer gives the integer. -/
theorem Heap.toInteger_text (h : Heap) (n : Int64) : h.toInteger (.text (h.text (.int n))) = .ok n := by
  rw [text_int, toInteger]
  simp only [resolve, trim_toString_int64, Decimal.readInt_toString]

-- ---------------------------------------------------------------------------
-- The round trips
-- ---------------------------------------------------------------------------

/-- A machine has room for a function, for one value above it, and for one more call. -/
structure Machine.HasRoom (m : Machine) : Prop where
  stack : m.stack.size + 1 < m.config.stackLimit
  depth : m.frames.length < m.config.callDepth

/-- Integers survive being written out. A host that runs a text which returns the text of an integer, with
underscores or not, has the integer. A literal beyond the largest integer is a syntax error, unless it is
behind a minus sign and the smallest integer is meant. What `str` makes of an integer, `int` makes the
integer again. -/
theorem integers_survive :
    (∀ (n : Int64) (numeral file : String) (m : Machine), m.HasRoom →
      Underscored (m.heap.text (.int n)).toList numeral.toList →
      ∃ m', Run.runText file ("return " ++ numeral) m = .ok (.int n) m') ∧
    (∀ (source : String) (p : Position) (digits : List Char), IsIntegerAt source p digits →
      0x7fffffffffffffff < digitsValue digits →
      (∀ file debug, ∃ e, compileText source file debug = .error e ∧ e.category = .badSyntax) ∨
        digitsValue digits = 0x8000000000000000 ∧
          ∃ script, parse source = .ok script ∧ script.Negates source p) ∧
    ∀ (str int : Native), .function "str" str [.root] ∈ Library.generalEntries →
      .function "int" int [.root] ∈ Library.generalEntries → ∀ (n : Int64) (m : Machine),
      ∃ shown, str.run #[.int n] m = .ok (.value (.text shown)) m ∧
        int.run #[.text shown] m = .ok (.value (.int n)) m := by
  refine ⟨?_, ?_, ?_⟩
  · intro n numeral file m hroom hnumeral
    rw [Heap.text_int] at hnumeral
    have hprintable : (Expr.int default n).Printable := .int
    have hscan := scan_return_int hnumeral (fun _ => false) default
    rw [String.ofList_toList] at hscan
    obtain ⟨script, hparse, hreturns⟩ := parse_return hprintable false hscan
    exact runText_returns hparse hreturns file hroom.stack hroom.depth
  · intro source p digits hdigits hlarge
    refine (hdigits.rejected hlarge).imp_left fun ⟨e, he⟩ file debug => ⟨.ofParse e file, ?_, ?_⟩
    · rw [compileText, he]
    · unfold Failure.ofParse
      split <;> rfl
  · intro str int hstr hint n m
    obtain rfl : str = .general .text := by simpa [Library.generalEntries] using hstr
    obtain rfl : int = .general .integer := by simpa [Library.generalEntries] using hint
    refine ⟨m.heap.text (.int n), rfl, ?_⟩
    change EStateM.map Reply.value (EStateM.bind
      (liftM (m.heap.toInteger (.text (m.heap.text (.int n)))) : Run Int64) fun k => pure (.int k)) m = _
    rw [m.heap.toInteger_text n]
    rfl

/-- The smallest integer in groups of digits, a literal of twenty digits, and the conversions on a new
machine. -/
theorem integers_survive_smallest :
    (∃ m', Run.runText "smallest.rill" ("return " ++ "-9_223_372_036_854_775_808_") { config := {} } =
      .ok (.int Int64.minValue) m') ∧
    (∀ file debug, ∃ e, compileText "92233720368547758080" file debug = .error e ∧ e.category = .badSyntax) ∧
    ∃ shown, (Native.general .text).run #[.int Int64.minValue] { config := {} } =
        .ok (.value (.text shown)) { config := {} } ∧
      (Native.general .integer).run #[.text shown] { config := {} } =
        .ok (.value (.int Int64.minValue)) { config := {} } := by
  obtain ⟨hreturned, hrejected, hconverted⟩ := integers_survive
  refine ⟨?_, ?_, ?_⟩
  · refine hreturned Int64.minValue _ _ { config := {} } ⟨by decide, by decide⟩
      ⟨['-'], '9', "_223_372_036_854_775_808_".toList, by decide, ?_, by decide⟩
    rw [Heap.text_int]
    decide
  · have hwhole : "92233720368547758080".toList = '9' :: ("2233720368547758080".toList ++ []) := by decide
    have hliteral : IsIntegerAt "92233720368547758080" {} ('9' :: "2233720368547758080".toList) :=
      ⟨'9', _, [], rfl, hwhole ▸ .start, by decide, List.all_eq_true.mp (by decide), by simp⟩
    rcases hrejected _ _ _ hliteral (by decide) with h | ⟨hvalue, -⟩
    · exact h
    · exact absurd hvalue (by decide)
  · exact hconverted (.general .text) (.general .integer) (by simp [Library.generalEntries])
      (by simp [Library.generalEntries]) Int64.minValue { config := {} }

end Rill
