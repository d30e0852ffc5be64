-- SUMMARY: The labels of reports are ranges of characters inside the source text.
import Rill.Proofs.Syntax.Positions
import Rill.Proofs.Texts.Boundaries
import Rill.Report

/-!
# Labels

A label is found from the two byte offsets of a span, which need not be those of the text that is shown. The offsets
are counted in characters and moved into the text, so no bound is ever below another. For the spans that the text
itself has, nothing needs to be moved.
-/

namespace Rill

-- ---------------------------------------------------------------------------
-- Characters before a byte
-- ---------------------------------------------------------------------------

/-- So many characters of the text stand before the byte. -/
def IsCountBefore (text : List Char) (byte count : Nat) : Prop :=
  ∃ before after, text = before ++ after ∧ byteLength before = byte ∧ before.length = count

/-- The characters before a byte are those of a beginning of the text that ends there; a byte behind the text stands
for its end. -/
theorem charsBefore_eq_some_iff {text : List Char} {byte k : Nat} : charsBefore text byte = some k ↔
    k ≤ text.length ∧ byteLength (text.take k) = min byte (byteLength text) := by
  fun_induction charsBefore text byte generalizing k with
  | case1 text =>
    rw [Nat.zero_min, Option.some.injEq]
    constructor
    · rintro rfl
      exact ⟨Nat.zero_le _, rfl⟩
    · rintro ⟨hle, hbytes⟩
      cases htake : text.take k with
      | nil => simpa [hle, eq_comm] using congrArg List.length htake
      | cons c cs => exact absurd (htake ▸ hbytes) (Nat.pos_iff_ne_zero.mp (byteLength_cons_pos c cs))
  | case2 byte => simp [byteLength, eq_comm]
  | case3 c rest byte hlt =>
    simp only [reduceCtorEq, false_iff]
    rintro ⟨-, hbytes⟩
    cases k with
    | zero =>
      have hpos := byteLength_cons_pos c rest
      rw [List.take_zero, byteLength] at hbytes
      omega
    | succ k =>
      rw [List.take_succ_cons, byteLength, byteLength] at hbytes
      omega
  | case4 c rest byte hlt ih =>
    rw [Option.map_eq_some_iff]
    cases k with
    | zero =>
      have hpos := byteLength_cons_pos c rest
      constructor
      · rintro ⟨j, -, hj⟩
        exact absurd hj (Nat.succ_ne_zero j)
      · rintro ⟨-, hbytes⟩
        rw [List.take_zero, byteLength] at hbytes
        omega
    | succ k =>
      have hmin : c.utf8Size + byteLength (rest.take k) = min (byte + 1) (c.utf8Size + byteLength rest) ↔
          byteLength (rest.take k) = min (byte + 1 - c.utf8Size) (byteLength rest) := by omega
      simp only [Nat.add_right_cancel_iff, exists_eq_right, ih, List.take_succ_cons, byteLength, List.length_cons,
        Nat.add_le_add_iff_right, hmin]

namespace IsCountBefore

variable {text : List Char} {byte byte' k k' : Nat}

theorem take (h : IsCountBefore text byte k) : k ≤ text.length ∧ byteLength (text.take k) = byte := by
  obtain ⟨before, after, rfl, hbytes, rfl⟩ := h
  rw [List.take_left, List.length_append]
  exact ⟨Nat.le_add_right _ _, hbytes⟩

theorem charsBefore_eq (h : IsCountBefore text byte k) : charsBefore text byte = some k := by
  obtain ⟨hle, hbytes⟩ := h.take
  obtain ⟨before, after, rfl, hbefore, -⟩ := h
  rw [charsBefore_eq_some_iff, byteLength_append, hbefore, Nat.min_eq_left (Nat.le_add_right _ _)]
  exact ⟨hle, hbytes⟩

theorem lt (h : IsCountBefore text byte k) (h' : IsCountBefore text byte' k') (hlt : byte < byte') : k < k' := by
  obtain ⟨hle, hbytes⟩ := h.take
  obtain ⟨hle', hbytes'⟩ := h'.take
  exact (Boundary.byteLength_take_lt_iff hle hle').mp (hbytes ▸ hbytes' ▸ hlt)

end IsCountBefore

-- ---------------------------------------------------------------------------
-- Labels
-- ---------------------------------------------------------------------------

/-- A number moved between two bounds. Nothing is between bounds in the wrong order. -/
def clamp? (n lo hi : Nat) : Option Nat := if lo ≤ hi then some (max lo (min n hi)) else none

/-- The label of a span as it is computed, without a result where the text has no last character or a clamp has its
bounds in the wrong order. -/
def Label.ofSpan? (source : List Char) (span : Span) : Option Label := do
  let chars (byte : Nat) : Nat := (charsBefore source byte).getD 0
  let last ← if 1 ≤ source.length then some (source.length - 1) else none
  let start := min (chars span.start) last
  let stop ← clamp? (chars span.stop) (start + 1) source.length
  return ⟨start, stop⟩

/-- A range that is not empty and inside the text. -/
structure Label.Inside (label : Label) (text : List Char) : Prop where
  lt : label.start < label.stop
  le : label.stop ≤ text.length

namespace Label

variable {text : List Char} {span : Span}

theorem ofSpan_inside (htext : text ≠ []) (span : Span) : (ofSpan text span).Inside text := by
  have hlength := List.length_pos_iff.mpr htext
  constructor
  · exact Nat.le_max_left _ _
  · simp only [ofSpan]
    omega

/-- Neither the subtraction nor the clamp fails. -/
theorem ofSpan?_eq (htext : text ≠ []) (span : Span) : ofSpan? text span = some (ofSpan text span) := by
  have hlength := List.length_pos_iff.mpr htext
  have hbounds (n : Nat) : min n (text.length - 1) + 1 ≤ text.length := by omega
  simp only [ofSpan?, clamp?, if_pos (Nat.succ_le_of_lt hlength), if_pos (hbounds _), Option.bind_eq_bind,
    Option.bind_some]
  rfl

/-- A span between characters is its label. -/
theorem ofSpan_of_counts {i j : Nat} (hi : IsCountBefore text span.start i) (hj : IsCountBefore text span.stop j)
    (hlt : span.start < span.stop) : ofSpan text span = ⟨i, j⟩ := by
  have hij := hi.lt hj hlt
  have hle := hj.take.1
  simp only [ofSpan, hi.charsBefore_eq, hj.charsBefore_eq, Option.getD_some, mk.injEq]
  omega

end Label

-- ---------------------------------------------------------------------------
-- The spans of a text
-- ---------------------------------------------------------------------------

/-- A span that scanning or parsing the text gives: of a token or of what cannot be scanned, of a node of the syntax
tree or of the reason why there is none. -/
inductive Span.IsOf (source : String) : Span → Prop
  | token {t : Token} (ht : t ∈ (scan source).tokens) : IsOf source t.span
  | scanError {e : ScanError} (he : e ∈ (scan source).error) : IsOf source e.span
  | parseError {e : ParseError} (he : parse source = .error e) : IsOf source e.span
  | node {script : Script} {n : TreeNode} (hscript : parse source = .ok script) (hn : script.Has n) :
      IsOf source n.span

theorem Span.Cuts.counts {span : Span} {text piece : List Char} (h : span.Cuts text piece) :
    ∃ i j, IsCountBefore text span.start i ∧ IsCountBefore text span.stop j := by
  obtain ⟨before, after, htext, hstart, hstop⟩ := h
  refine ⟨before.length, (before ++ piece).length, ⟨before, piece ++ after, ?_, hstart, rfl⟩,
    before ++ piece, after, htext, ?_, rfl⟩
  · rw [htext, List.append_assoc]
  · rw [byteLength_append, hstart, hstop]

theorem Span.counts_of_scan {source : String} {span : Span} (h : span ∈ (scan source).spans) :
    ∃ i j, IsCountBefore source.toList span.start i ∧ IsCountBefore source.toList span.stop j := by
  obtain ⟨piece, hcut⟩ := (scan_tiles source).cut span h
  exact hcut.counts

theorem Span.counts_of_token {source : String} {t : Token} (h : t ∈ (scan source).tokens) :
    ∃ i j, IsCountBefore source.toList t.span.start i ∧ IsCountBefore source.toList t.span.stop j :=
  counts_of_scan (List.mem_append_left _ (List.mem_map_of_mem h))

theorem Span.counts_of_scanError {source : String} {e : ScanError} (h : e ∈ (scan source).error) :
    ∃ i j, IsCountBefore source.toList e.span.start i ∧ IsCountBefore source.toList e.span.stop j :=
  counts_of_scan (List.mem_append_right _ (List.mem_map_of_mem (Option.mem_toList.mpr h)))

/-- The spans of a text begin and end between its characters. -/
theorem Span.IsOf.counts {source : String} {span : Span} (h : span.IsOf source) :
    ∃ i j, IsCountBefore source.toList span.start i ∧ IsCountBefore source.toList span.stop j := by
  cases h with
  | token ht => exact Span.counts_of_token ht
  | scanError he => exact Span.counts_of_scanError he
  | @parseError e he =>
    have hexplains := parse_gathers source
    rw [he] at hexplains
    obtain ⟨t, ht, hspan, -⟩ | ⟨⟨f, hf, rfl⟩, -⟩ := hexplains
    · rw [hspan]
      exact Span.counts_of_token ht
    · exact Span.counts_of_scanError hf
  | @node script n hscript hn =>
    have hpositions := parse_positions source
    rw [hscript] at hpositions
    obtain ⟨⟨t, ht, -, hstart⟩, ⟨u, hu, -, hstop⟩, -⟩ := hpositions.1 n hn
    obtain ⟨i, -, hi, -⟩ := Span.counts_of_token ht
    obtain ⟨-, j, -, hj⟩ := Span.counts_of_token hu
    rw [hstart, hstop]
    exact ⟨i, j, hi, hj⟩

-- ---------------------------------------------------------------------------
-- Reports
-- ---------------------------------------------------------------------------

/-- The report where a label may fail to be found, and `draw` to draw it. -/
def Failure.reportBy (draw : Failure → List Char → Label → Option String) (e : Failure) (source : Option String) :
    Option String :=
  match e.category, e.span, source.map String.toList with
  | .badSyntax, some span, some (c :: rest) => do draw e (c :: rest) (← Label.ofSpan? (c :: rest) span)
  | _, _, _ => some (unlines (e.display :: e.fault.notes.map ("note: " ++ ·)))

section Reports

variable {draw : Failure → List Char → Label → Option String} {e : Failure} {source : Option String} {text : String}
  {span : Span}

theorem toList_ne_nil (htext : text ≠ "") : text.toList ≠ [] := fun hnil => htext (String.toList_eq_nil_iff.mp hnil)

/-- A syntax error is drawn with the label of its span. -/
theorem reportBy_drawn (hcategory : e.category = .badSyntax) (hspan : e.span = some span) (htext : text ≠ "") :
    e.reportBy draw (some text) = draw e text.toList (.ofSpan text.toList span) := by
  obtain ⟨c, rest, hcons⟩ := List.exists_cons_of_ne_nil (toList_ne_nil htext)
  simp only [Failure.reportBy, hcategory, hspan, Option.map_some, hcons, Label.ofSpan?_eq (List.cons_ne_nil c rest)]
  rfl

theorem report_drawn (hcategory : e.category = .badSyntax) (hspan : e.span = some span) (htext : text ≠ "") :
    e.report (some text) = e.drawing text.toList (.ofSpan text.toList span) := by
  obtain ⟨c, rest, hcons⟩ := List.exists_cons_of_ne_nil (toList_ne_nil htext)
  simp only [Failure.report, hcategory, hspan, Option.map_some, hcons]

/-- There is nothing to draw: no syntax error with a span, or no text. -/
def Failure.IsPlain (e : Failure) (source : Option String) : Prop :=
  ∀ text span, e.category = .badSyntax → e.span = some span → source = some text → text = ""

theorem Failure.IsPlain.ne_cons (h : e.IsPlain source) (hcategory : e.category = .badSyntax)
    (hspan : e.span = some span) (c : Char) (rest : List Char) : source.map String.toList ≠ some (c :: rest) := by
  intro hsource
  obtain ⟨text, rfl, htext⟩ := Option.map_eq_some_iff.mp hsource
  rw [h text span hcategory hspan rfl] at htext
  cases htext

theorem report_plain (h : e.IsPlain source) :
    e.report source = unlines (e.display :: e.fault.notes.map ("note: " ++ ·)) := by
  unfold Failure.report
  split
  · next hcategory hspan hsource => exact (h.ne_cons hcategory hspan _ _ hsource).elim
  · rfl

theorem reportBy_plain (h : e.IsPlain source) : e.reportBy draw source = some (e.report source) := by
  rw [report_plain h]
  unfold Failure.reportBy
  split
  · next hcategory hspan hsource => exact (h.ne_cons hcategory hspan _ _ hsource).elim
  · rfl

end Reports

/-- Reports point inside the source. With a drawing that accepts every range inside a text, there is a report of any
failure for any text, and with the drawings of the model it is `report`. What is drawn for a syntax error is a label
inside the text, whatever its span; for a span of the text itself that is not empty, the label tells how many
characters stand before the two bytes. -/
theorem reports_point_inside {draw : Failure → List Char → Label → Option String}
    (hdraw : ∀ e text label, label.Inside text → ∃ out, draw e text label = some out) (e : Failure) :
    (∀ source, (∃ out, e.reportBy draw source = some out) ∧
      e.reportBy (fun e text label => some (e.drawing text label)) source = some (e.report source)) ∧
    ∀ text span, text ≠ "" → e.category = .badSyntax → e.span = some span →
      ∃ label, e.reportBy draw (some text) = draw e text.toList label ∧
        e.report (some text) = e.drawing text.toList label ∧ label.Inside text.toList ∧
        (span.IsOf text → span.start < span.stop →
          IsCountBefore text.toList span.start label.start ∧ IsCountBefore text.toList span.stop label.stop) := by
  have hinside {text : String} (htext : text ≠ "") (span : Span) :
      (Label.ofSpan text.toList span).Inside text.toList := Label.ofSpan_inside (toList_ne_nil htext) span
  refine ⟨fun source => ?_, fun text span htext hcategory hspan => ?_⟩
  · by_cases hplain : e.IsPlain source
    · exact ⟨⟨_, reportBy_plain hplain⟩, reportBy_plain hplain⟩
    · simp only [Failure.IsPlain, not_forall] at hplain
      obtain ⟨text, span, hcategory, hspan, rfl, htext⟩ := hplain
      rw [reportBy_drawn hcategory hspan htext, reportBy_drawn hcategory hspan htext,
        report_drawn hcategory hspan htext]
      exact ⟨hdraw e _ _ (hinside htext span), rfl⟩
  · refine ⟨_, reportBy_drawn hcategory hspan htext, report_drawn hcategory hspan htext, hinside htext span,
      fun hof hlt => ?_⟩
    obtain ⟨i, j, hi, hj⟩ := hof.counts
    rw [Label.ofSpan_of_counts hi hj hlt]
    exact ⟨hi, hj⟩

/-- A text that ends in a string without its second quote, with a character of two bytes. -/
theorem reports_point_inside_quote :
    let draw (e : Failure) (text : List Char) (label : Label) : Option String := some (e.drawing text label)
    (∀ e text label, label.Inside text → ∃ out, draw e text label = some out) ∧
      ∃ e : ParseError, parse "x = 'é" = .error e ∧ e.span = ⟨4, 7⟩ ∧
        (Failure.ofParse e "[string]").report (some "x = 'é") =
          (Failure.ofParse e "[string]").drawing "x = 'é".toList ⟨4, 6⟩ := by
  intro draw
  have hdraw (e : Failure) (text : List Char) (label : Label) (_ : label.Inside text) :
      ∃ out, draw e text label = some out := ⟨_, rfl⟩
  let e : ParseError := ⟨.scan .unterminatedString, ⟨4, 7⟩, 1⟩
  have hrun : (match parse "x = 'é" with
      | .error err => decide (err = e)
      | .ok _ => false) = true := by
    decide +kernel
  have hparse : parse "x = 'é" = .error e := by
    cases hparse : parse "x = 'é" with
    | ok script =>
      rw [hparse] at hrun
      cases hrun
    | error err =>
      rw [hparse] at hrun
      rw [of_decide_eq_true hrun]
  have hcounts (label : Label) (hstart : IsCountBefore "x = 'é".toList 4 label.start)
      (hstop : IsCountBefore "x = 'é".toList 7 label.stop) : label = ⟨4, 6⟩ := by
    have hfour : charsBefore "x = 'é".toList 4 = some 4 := by decide +kernel
    have hseven : charsBefore "x = 'é".toList 7 = some 6 := by decide +kernel
    have hstart := Option.some.inj (hstart.charsBefore_eq.symm.trans hfour)
    have hstop := Option.some.inj (hstop.charsBefore_eq.symm.trans hseven)
    exact congrArg₂ Label.mk hstart hstop
  obtain ⟨-, hcategory⟩ := reports_point_inside hdraw (Failure.ofParse e "[string]")
  obtain ⟨label, -, hreport, -, hexact⟩ := hcategory "x = 'é" ⟨4, 7⟩ (by decide) rfl rfl
  obtain ⟨hstart, hstop⟩ := hexact (.parseError hparse) (by decide)
  rw [hcounts label hstart hstop] at hreport
  exact ⟨hdraw, e, hparse, rfl, hreport⟩

end Rill
