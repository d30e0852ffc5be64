-- SUMMARY: Where one text occurs in another: the first and the last occurrence, and the parts in between.
import Mathlib.Order.Bounds.Basic
import Rill.Proofs.Texts.Boundaries

/-!
# Occurrences

A text occurs at a position if it stands there between something before and something behind it. The searches
find the least and the greatest such position. The functions that treat every occurrence go through the text on
their own, each in the same way: what they make of it is told by the parts into which the text is split.
-/

namespace Rill.Text

-- ---------------------------------------------------------------------------
-- Positions of occurrences
-- ---------------------------------------------------------------------------

/-- The positions at which a text occurs in another, counted from one. -/
def positions (needle text : List Char) : Set Nat :=
  {q | ∃ before behind, before ++ needle ++ behind = text ∧ q = before.length + 1}

section Positions

variable {needle text : List Char} {q : Nat}

theorem pos_of_mem_positions (h : q ∈ positions needle text) : 0 < q := by
  obtain ⟨before, behind, -, rfl⟩ := h
  omega

/-- An occurrence ends within the text. -/
theorem le_of_mem_positions (h : q ∈ positions needle text) : q + needle.length ≤ text.length + 1 := by
  obtain ⟨before, behind, rfl, rfl⟩ := h
  simp only [List.length_append]
  omega

theorem mem_positions_nil : q ∈ positions needle [] ↔ q = 1 ∧ needle <+: [] := by
  constructor
  · rintro ⟨before, behind, htext, rfl⟩
    obtain ⟨rfl, rfl⟩ : before = [] ∧ needle = [] := by simp_all
    exact ⟨rfl, List.nil_prefix⟩
  · rintro ⟨rfl, behind, htext⟩
    exact ⟨[], behind, htext, rfl⟩

theorem mem_positions_cons {c : Char} : q ∈ positions needle (c :: text) ↔
    q = 1 ∧ needle <+: c :: text ∨ ∃ r ∈ positions needle text, q = r + 1 := by
  constructor
  · rintro ⟨before, behind, htext, rfl⟩
    cases before with
    | nil => exact .inl ⟨rfl, behind, htext⟩
    | cons d before =>
      cases htext
      exact .inr ⟨_, ⟨before, behind, rfl, rfl⟩, rfl⟩
  · rintro (⟨rfl, behind, htext⟩ | ⟨_, ⟨before, behind, rfl, rfl⟩, rfl⟩)
    · exact ⟨[], behind, htext, rfl⟩
    · exact ⟨c :: before, behind, rfl, rfl⟩

theorem mem_positions_take {n : Nat} :
    q ∈ positions needle (text.take n) ↔ q ∈ positions needle text ∧ q - 1 + needle.length ≤ n := by
  constructor
  · rintro ⟨before, behind, htext, rfl⟩
    refine ⟨⟨before, behind ++ text.drop n, ?_, rfl⟩, ?_⟩
    · rw [← List.append_assoc, htext, List.take_append_drop]
    · have hlength := congrArg List.length htext
      simp only [List.length_append, List.length_take] at hlength
      omega
  · rintro ⟨⟨before, behind, rfl, rfl⟩, hn⟩
    have hwhole : (before ++ needle).take n = before ++ needle := List.take_of_length_le (by simpa using hn)
    refine ⟨before, behind.take (n - (before ++ needle).length), ?_, rfl⟩
    calc before ++ needle ++ behind.take (n - (before ++ needle).length)
      _ = (before ++ needle).take n ++ behind.take (n - (before ++ needle).length) := by rw [hwhole]
      _ = (before ++ needle ++ behind).take n := List.take_append.symm

end Positions

-- ---------------------------------------------------------------------------
-- Occurrences found
-- ---------------------------------------------------------------------------

namespace Occurrence

variable {needle text : List Char}

theorem pieces (o : Occurrence needle text) : o.before ++ needle ++ o.behind = text := by
  obtain ⟨rest, hrest⟩ := o.found
  have hneedle := Boundary.pieces_unique (b := ⟨byteLength needle, needle, rest, hrest, rfl⟩) hrest rfl
  have hstop : o.stop.before = o.before ++ needle := by
    rw [stop, (Boundary.pieces_advance ..).1, hneedle.1, before]
  rw [← hstop]
  exact o.stop.pieces.1

theorem mem_positions (o : Occurrence needle text) : o.start.position ∈ positions needle text :=
  ⟨o.before, o.behind, o.pieces, rfl⟩

theorem position_first (h : needle <+: text) : (first h).start.position = 1 := by
  rw [Boundary.position, first, Boundary.before_start]
  rfl

theorem before_next (c : Char) (o : Occurrence needle text) : (o.next c).before = c :: o.before :=
  Boundary.before_next c o.start

theorem position_next (c : Char) (o : Occurrence needle text) :
    (o.next c).start.position = o.start.position + 1 :=
  congrArg (·.length + 1) (o.before_next c)

theorem before_eq (o : Occurrence needle text) : o.before = text.take (o.start.position - 1) :=
  o.start.take_length_before.symm

theorem behind_eq (o : Occurrence needle text) :
    o.behind = text.drop (o.start.position - 1 + needle.length) :=
  calc o.behind
    _ = (o.before ++ needle ++ o.behind).drop (o.before ++ needle).length := by rw [List.drop_left]
    _ = text.drop (o.start.position - 1 + needle.length) := by
      rw [o.pieces, List.length_append]
      rfl

theorem behind_next (c : Char) (o : Occurrence needle text) : (o.next c).behind = o.behind := by
  rw [behind_eq, behind_eq, position_next]
  simp only [Boundary.position, Nat.add_sub_cancel, Nat.add_right_comm _ 1, List.drop_succ_cons]

end Occurrence

section Searching

variable (needle text : List Char)

/-- A search from the left finds the occurrence at the least position. -/
theorem findFirst?_cases : (findFirst? needle text = none ∧ positions needle text = ∅) ∨
    ∃ o, findFirst? needle text = some o ∧ IsLeast (positions needle text) o.start.position := by
  -- An occurrence that the text begins with is the first one, whatever follows.
  have hstart {text : List Char} (h : needle <+: text) :
      IsLeast (positions needle text) (Occurrence.first h).start.position := by
    refine ⟨Occurrence.mem_positions _, fun q hq => ?_⟩
    rw [Occurrence.position_first]
    exact pos_of_mem_positions hq
  induction text with
  | nil =>
    rw [findFirst?]
    by_cases h : needle <+: []
    · rw [dif_pos h]
      exact .inr ⟨_, rfl, hstart h⟩
    · rw [dif_neg h]
      exact .inl ⟨rfl, Set.eq_empty_of_forall_notMem fun q hq => h (mem_positions_nil.mp hq).2⟩
  | cons c rest ih =>
    rw [findFirst?]
    by_cases h : needle <+: c :: rest
    · rw [dif_pos h]
      exact .inr ⟨_, rfl, hstart h⟩
    · rw [dif_neg h]
      have hlater {q : Nat} (hq : q ∈ positions needle (c :: rest)) : ∃ r ∈ positions needle rest, q = r + 1 :=
        (mem_positions_cons.mp hq).resolve_left fun hfirst => h hfirst.2
      rcases ih with ⟨hnone, hempty⟩ | ⟨o, hfound, hleast⟩
      · refine .inl ⟨by rw [hnone]; rfl, Set.eq_empty_of_forall_notMem fun q hq => ?_⟩
        obtain ⟨r, hr, -⟩ := hlater hq
        exact Set.notMem_empty r (hempty ▸ hr)
      · refine .inr ⟨o.next c, by rw [hfound]; rfl, Occurrence.mem_positions _, fun q hq => ?_⟩
        obtain ⟨r, hr, rfl⟩ := hlater hq
        rw [Occurrence.position_next]
        exact Nat.succ_le_succ (hleast.2 hr)

/-- A search from the right finds the occurrence at the greatest position. -/
theorem findLast?_cases : (findLast? needle text = none ∧ positions needle text = ∅) ∨
    ∃ o, findLast? needle text = some o ∧ IsGreatest (positions needle text) o.start.position := by
  induction text with
  | nil =>
    rw [findLast?]
    by_cases h : needle <+: []
    · rw [dif_pos h]
      refine .inr ⟨_, rfl, Occurrence.mem_positions _, fun q hq => ?_⟩
      rw [Occurrence.position_first]
      exact (mem_positions_nil.mp hq).1.le
    · rw [dif_neg h]
      exact .inl ⟨rfl, Set.eq_empty_of_forall_notMem fun q hq => h (mem_positions_nil.mp hq).2⟩
  | cons c rest ih =>
    rw [findLast?]
    rcases ih with ⟨hnone, hempty⟩ | ⟨o, hfound, hgreatest⟩
    · simp only [hnone]
      have honly {q : Nat} (hq : q ∈ positions needle (c :: rest)) : q = 1 ∧ needle <+: c :: rest := by
        refine (mem_positions_cons.mp hq).resolve_right fun ⟨r, hr, _⟩ => ?_
        exact Set.notMem_empty r (hempty ▸ hr)
      by_cases h : needle <+: c :: rest
      · rw [dif_pos h]
        refine .inr ⟨_, rfl, Occurrence.mem_positions _, fun q hq => ?_⟩
        rw [Occurrence.position_first]
        exact (honly hq).1.le
      · rw [dif_neg h]
        exact .inl ⟨rfl, Set.eq_empty_of_forall_notMem fun q hq => h (honly hq).2⟩
    · simp only [hfound]
      refine .inr ⟨o.next c, rfl, Occurrence.mem_positions _, fun q hq => ?_⟩
      rw [Occurrence.position_next]
      rcases mem_positions_cons.mp hq with ⟨rfl, -⟩ | ⟨r, hr, rfl⟩
      · omega
      · exact Nat.succ_le_succ (hgreatest.2 hr)

theorem contains_iff : contains text needle = true ↔ (positions needle text).Nonempty := by
  rcases findFirst?_cases needle text with ⟨hnone, hempty⟩ | ⟨o, hfound, hleast⟩
  · simp [contains, hnone, hempty]
  · simpa [contains, hfound] using ⟨_, hleast.1⟩

end Searching

-- ---------------------------------------------------------------------------
-- Parts
-- ---------------------------------------------------------------------------

section Parts

variable {delimiter : List Char}

theorem splitFrom_ne_nil (skip : Nat) (part text : List Char) : splitFrom delimiter skip part text ≠ [] := by
  fun_induction splitFrom delimiter skip part text <;> simp_all

/-- There is one part more than there are occurrences. -/
theorem length_splitFrom (skip : Nat) (part text : List Char) :
    (splitFrom delimiter skip part text).length = countFrom delimiter skip text + 1 := by
  fun_induction splitFrom delimiter skip part text with
  | case1 => simp [countFrom]
  | case2 part skip c rest ih => rw [ih, countFrom]
  | case3 part c rest h ih => rw [List.length_cons, ih, countFrom, if_pos h]
  | case4 part c rest h ih => rw [ih, countFrom, if_neg h]

/-- Putting the parts together with another text is replacing every occurrence by it. -/
theorem intercalate_splitFrom (new : List Char) (skip : Nat) (part text : List Char) :
    new.intercalate (splitFrom delimiter skip part text) =
      part.reverse ++ replaceFrom delimiter new skip text := by
  fun_induction splitFrom delimiter skip part text with
  | case1 => simp [replaceFrom]
  | case2 part skip c rest ih => rw [ih, replaceFrom]
  | case3 part c rest h ih =>
    obtain ⟨p, ps, hparts⟩ := List.exists_cons_of_ne_nil (splitFrom_ne_nil (delimiter.length - 1) [] rest)
    rw [replaceFrom, if_pos h, hparts, List.intercalate_cons_cons, ← hparts, ih]
    simp
  | case4 part c rest h ih =>
    rw [ih, replaceFrom, if_neg h]
    simp

/-- Replacing every occurrence by what occurs changes nothing. -/
theorem replaceFrom_self (hdelimiter : delimiter ≠ []) (skip : Nat) (text : List Char) :
    replaceFrom delimiter delimiter skip text = text.drop skip := by
  fun_induction replaceFrom delimiter delimiter skip text with
  | case1 => simp
  | case2 skip c rest ih => rw [ih, List.drop_succ_cons]
  | case3 c rest h ih =>
    obtain ⟨d, ds, rfl⟩ := List.exists_cons_of_ne_nil hdelimiter
    have hprefix := List.prefix_iff_eq_append.mp (List.isPrefixOf_iff_prefix.mp h)
    rw [ih, List.drop_zero, ← hprefix]
    rfl
  | case4 c rest h ih => rw [ih]; rfl

theorem splitFrom_skip (skip : Nat) (part text : List Char) :
    splitFrom delimiter skip part text = splitFrom delimiter 0 part (text.drop skip) := by
  induction text generalizing skip with
  | nil => rw [List.drop_nil, splitFrom, splitFrom]
  | cons c rest ih =>
    cases skip with
    | zero => rfl
    | succ skip => rw [splitFrom, ih, List.drop_succ_cons]

/-- The first part ends where the first occurrence begins, and the other parts are those of what is behind it. -/
theorem splitFrom_eq (hdelimiter : delimiter ≠ []) (part text : List Char) :
    splitFrom delimiter 0 part text = (findFirst? delimiter text).elim [part.reverse ++ text] fun o =>
      (part.reverse ++ o.before) :: splitFrom delimiter 0 [] o.behind := by
  induction text generalizing part with
  | nil =>
    have hprefix : ¬delimiter <+: [] := by simpa using hdelimiter
    simp [splitFrom, findFirst?, hprefix]
  | cons c rest ih =>
    rw [splitFrom, findFirst?]
    by_cases h : delimiter <+: c :: rest
    · have hbefore : (Occurrence.first h).before = [] := Boundary.before_start
      have hbehind : (Occurrence.first h).behind = rest.drop (delimiter.length - 1) := by
        obtain ⟨d, ds, rfl⟩ := List.exists_cons_of_ne_nil hdelimiter
        rw [Occurrence.behind_eq, Occurrence.position_first]
        simp
      rw [if_pos (List.isPrefixOf_iff_prefix.mpr h), dif_pos h, splitFrom_skip]
      simp [hbefore, hbehind]
    · rw [if_neg fun hprefix => h (List.isPrefixOf_iff_prefix.mp hprefix), dif_neg h, ih]
      cases findFirst? delimiter rest with
      | none => simp
      | some o => simp [Occurrence.before_next, Occurrence.behind_next]

end Parts

-- ---------------------------------------------------------------------------
-- Splitting, counting and replacing
-- ---------------------------------------------------------------------------

section Whole

variable {text delimiter : List Char}

theorem split_eq (hdelimiter : delimiter ≠ []) : split text delimiter = splitFrom delimiter 0 [] text := by
  rw [split, if_neg (by simpa using hdelimiter)]

theorem intercalate_split (hdelimiter : delimiter ≠ []) : delimiter.intercalate (split text delimiter) = text := by
  rw [split_eq hdelimiter, intercalate_splitFrom, replaceFrom_self hdelimiter]
  rfl

theorem replaceAll_eq (hdelimiter : delimiter ≠ []) (new : List Char) :
    replaceAll text delimiter new = new.intercalate (split text delimiter) := by
  rw [split_eq hdelimiter, intercalate_splitFrom, replaceAll, if_neg (by simpa using hdelimiter)]
  rfl

theorem length_split (hdelimiter : delimiter ≠ []) : (split text delimiter).length = count text delimiter + 1 := by
  rw [split_eq hdelimiter, length_splitFrom, count]

/-- A text with some characters from a position on exchanged; none if the position is zero. -/
def exchanged (text : List Char) (position count : Nat) (new : List Char) : List Char :=
  if position = 0 then text else text.take (position - 1) ++ new ++ text.drop (position - 1 + count)

/-- The position at which an occurrence was found, or zero. -/
def positionOf (found : Option (Occurrence delimiter text)) : Nat := found.elim 0 (·.start.position)

theorem replaceFound_eq (hdelimiter : delimiter ≠ []) (new : List Char) (found : Option (Occurrence delimiter text)) :
    replaceFound text delimiter new found = exchanged text (positionOf found) delimiter.length new := by
  cases found with
  | none => rfl
  | some o =>
    have hpos : positionOf (some o) ≠ 0 := Nat.succ_ne_zero _
    rw [replaceFound, if_neg (by simpa using hdelimiter), exchanged, if_neg hpos, o.before_eq, o.behind_eq]
    rfl

end Whole

end Rill.Text
