-- SUMMARY: Searches backwards and forwards, and the agreement of all functions that look for a text in another.
import Rill.Proofs.Texts.Functions
import Rill.Proofs.Texts.Occurrences

/-!
# Searching

A search forwards answers the least position at which a text occurs. A search backwards looks at as many bytes
behind its start as the text sought has, and at the rest of the character in which these end. So it can find
an occurrence that begins behind its start, if only few bytes behind it. Splitting, counting, replacing and
both searches mean the same occurrences.
-/

namespace Rill

open Library (chars)

namespace Text

variable {text needle : List Char} {p : Int64} {q last : Nat}

-- ---------------------------------------------------------------------------
-- Searching forwards
-- ---------------------------------------------------------------------------

theorem find_of_place {k : Nat} (h : place text p true = .ok k) : find text needle p =
    .ok ((findFirst? needle (text.drop k)).elim 0 fun o => k + o.start.position) := by
  have hk : k ≤ text.length := by
    have hlt := (resolveIndex_eq_ok_iff.mp h).1
    simp only [if_true] at hlt
    omega
  obtain ⟨hbefore, hafter⟩ := Boundary.pieces_ofIndex text k
  have hposition (further : Boundary (Boundary.ofIndex text k).after) :
      ((Boundary.ofIndex text k).advance further).position = k + further.position := by
    rw [Boundary.position, (Boundary.pieces_advance ..).1, List.length_append, hbefore,
      List.length_take_of_le hk, Nat.add_assoc, Boundary.position]
  rw [find, boundary_of_place h, ← hafter]
  simp only [← hposition]
  rfl

/-- A search from the first position answers where the first occurrence is. -/
theorem find_one (text needle : List Char) : find text needle 1 = .ok (positionOf (findFirst? needle text)) := by
  have hplace : place text 1 true = .ok 0 := resolveIndex_eq_ok_iff.mpr ⟨Nat.succ_pos _, .inl rfl⟩
  rw [find_of_place hplace]
  simp only [Nat.zero_add]
  rfl

-- ---------------------------------------------------------------------------
-- Searching backwards
-- ---------------------------------------------------------------------------

theorem findBack_of_limit {limit : Nat} (h : searchLimit text needle p = .ok limit) : findBack text needle p =
    .ok (positionOf (findLast? needle (Boundary.roundUp text limit).before)) := by
  have hposition (earlier : Boundary (Boundary.roundUp text limit).before) :
      ((Boundary.roundUp text limit).within earlier).position = earlier.position :=
    congrArg (·.length + 1) (Boundary.before_within ..)
  rw [findBack, h, positionOf]
  simp only [← hposition]
  rfl

theorem searchLimit_of_place (h : place text p false = .ok last) : searchLimit text needle p =
    .ok (min (byteLength (text.take last) + byteLength needle) (byteLength text)) := by
  have hempty : text.isEmpty = false := by
    cases text with
    | nil => exact absurd (resolveIndex_eq_ok_iff.mp h).1 (Nat.not_lt_zero _)
    | cons c rest => rfl
  rw [searchLimit, hempty, boundary_of_place h]
  rfl

theorem isGreatest_findLast (needle text : List Char) :
    IsGreatest ({0} ∪ positions needle text) (positionOf (findLast? needle text)) := by
  rcases findLast?_cases needle text with ⟨hnone, hempty⟩ | ⟨o, hfound, hgreatest⟩
  · rw [hnone, hempty]
    simp [positionOf]
  · rw [hfound]
    refine ⟨.inr hgreatest.1, ?_⟩
    rintro q (rfl | hq)
    · exact Nat.zero_le _
    · exact hgreatest.2 hq

/-- The characters from a place up to a position take less bytes than the last character of a text. -/
def Reaches (text needle : List Char) (last q : Nat) : Prop :=
  byteLength (text.take (q - 1)) < byteLength (text.take last) + needle.getLast?.elim 0 Char.utf8Size

/-- A search backwards sees the occurrences that its start reaches. -/
theorem mem_positions_limit (hneedle : needle ≠ []) :
    q ∈ positions needle (Boundary.roundUp text
        (min (byteLength (text.take last) + byteLength needle) (byteLength text))).before ↔
      q ∈ positions needle text ∧ Reaches text needle last q := by
  generalize hlimit : min (byteLength (text.take last) + byteLength needle) (byteLength text) = limit
  rw [← Boundary.take_length_before, mem_positions_take]
  refine and_congr_right fun hq => ?_
  obtain ⟨before, behind, htext, rfl⟩ := hq
  obtain ⟨init, c, rfl⟩ := List.eq_nil_or_concat' needle |>.resolve_left hneedle
  -- The last character of the occurrence is seen if it begins before the limit.
  have hlast : text.take (before.length + init.length) = before ++ init := by
    rw [← htext]
    simp [List.take_append]
  have hlt : before.length + init.length < text.length := by
    rw [← htext]
    simp
  have hseen := Boundary.lt_length_roundUp hlt limit
  have hinside := (Boundary.byteLength_take_lt_iff hlt.le le_rfl).mpr hlt
  have hbefore : text.take (before.length + 1 - 1) = before := by
    rw [← htext]
    simp
  rw [hlast, byteLength_append] at hseen hinside
  rw [List.take_length] at hinside
  rw [Reaches, hbefore]
  simp only [byteLength_append, byteLength, List.length_append, List.length_singleton, List.getLast?_append,
    List.getLast?_singleton, Option.some_or, Option.elim_some] at hlimit ⊢
  omega

/-- What begins at the start of a search or before it is reached. -/
theorem reaches_of_le (hneedle : needle ≠ []) (hlast : last ≤ text.length) (hq : q - 1 ≤ last) :
    Reaches text needle last q := by
  have hbytes := Boundary.byteLength_take_lt_iff hlast (hq.trans hlast)
  have hsize := (needle.getLast hneedle).utf8Size_pos
  rw [Reaches, List.getLast?_eq_getLast_of_ne_nil hneedle, Option.elim_some]
  omega

/-- Nothing else is reached if the last character of the text sought is a single byte. -/
theorem reaches_iff (hneedle : needle ≠ []) (hsize : (needle.getLast hneedle).utf8Size = 1)
    (hlast : last ≤ text.length) (hq : q ∈ positions needle text) : Reaches text needle last q ↔ q ≤ last + 1 := by
  have hpos := pos_of_mem_positions hq
  have hends := le_of_mem_positions hq
  have hbytes := Boundary.byteLength_take_lt_iff (k := q - 1) hlast (by omega)
  rw [Reaches, List.getLast?_eq_getLast_of_ne_nil hneedle, Option.elim_some, hsize]
  omega

theorem findBack_of_place (hneedle : needle ≠ []) (h : place text p false = .ok last) :
    ∃ q, findBack text needle p = .ok q ∧
      IsGreatest ({0} ∪ {r ∈ positions needle text | Reaches text needle last r}) q := by
  refine ⟨_, findBack_of_limit (searchLimit_of_place h), ?_⟩
  have hgreatest := isGreatest_findLast needle (Boundary.roundUp text
    (min (byteLength (text.take last) + byteLength needle) (byteLength text))).before
  rwa [Set.ext fun r => mem_positions_limit (q := r) hneedle] at hgreatest

/-- A search from the last position answers where the last occurrence is. -/
theorem findBack_last (text : List Char) (hneedle : needle ≠ []) : ∃ q, findBack text needle (-1) = .ok q ∧
    IsGreatest ({0} ∪ positions needle text) q := by
  cases text with
  | nil =>
    refine ⟨_, findBack_of_limit rfl, ?_⟩
    exact isGreatest_findLast needle []
  | cons c rest =>
    have hplace : place (c :: rest) (-1) false = .ok rest.length := by
      refine resolveIndex_eq_ok_iff.mpr ⟨Nat.lt_succ_self _, .inr ?_⟩
      simp
    obtain ⟨q, hfound, hgreatest⟩ := findBack_of_place hneedle hplace
    refine ⟨q, hfound, ?_⟩
    have hall : {r ∈ positions needle (c :: rest) | Reaches (c :: rest) needle rest.length r} =
        positions needle (c :: rest) := by
      refine Set.sep_eq_self_iff_mem_true.mpr fun r hr => reaches_of_le hneedle (Nat.le_succ _) ?_
      have hends := le_of_mem_positions hr
      have hpos := List.length_pos_iff.mpr hneedle
      rw [List.length_cons] at hends
      omega
    rwa [hall] at hgreatest

theorem contains_eq (hq : IsGreatest ({0} ∪ positions needle text) q) :
    contains text needle = decide (q ≠ 0) := by
  rw [Bool.eq_iff_iff, contains_iff, decide_eq_true_iff]
  constructor
  · rintro ⟨r, hr⟩ rfl
    exact Nat.not_succ_le_zero 0 ((pos_of_mem_positions hr).trans_le (hq.2 (.inr hr)))
  · intro hne
    exact ⟨q, hq.1.resolve_left hne⟩

end Text

-- ---------------------------------------------------------------------------
-- Searching backwards from a position
-- ---------------------------------------------------------------------------

/-- A search backwards answers the greatest position that its start reaches, or zero; so the greatest one that
is not behind its start, if the last character of the text sought is a single byte. Without a start it answers
where the last occurrence is, and zero exactly if there is none. -/
theorem findBack_greatest (m : Machine) (s : List Char) {w : List Char} (hw : w ≠ []) :
    (∀ p last, Text.place s p false = .ok last → ∃ q,
      Library.text .findBackFrom #[chars s, chars w, .int p] m = .ok (.ofNat q) m ∧
      IsGreatest ({0} ∪ {r ∈ Text.positions w s | Text.Reaches s w last r}) q ∧
      ((w.getLast hw).utf8Size = 1 → IsGreatest ({0} ∪ {r ∈ Text.positions w s | r ≤ last + 1}) q)) ∧
    ∃ q, Library.text .findBack #[chars s, chars w] m = .ok (.ofNat q) m ∧
      IsGreatest ({0} ∪ Text.positions w s) q ∧
      Library.text .contains #[chars s, chars w] m = .ok (.bool (decide (q ≠ 0))) m := by
  constructor
  · intro p last hp
    obtain ⟨q, hfound, hgreatest⟩ := Text.findBack_of_place hw hp
    refine ⟨q, Library.findBackFrom_run m s w hfound, hgreatest, fun hsize => ?_⟩
    have hlast : last ≤ s.length := (resolveIndex_eq_ok_iff.mp hp).1.le
    have hreached : {r ∈ Text.positions w s | Text.Reaches s w last r} = {r ∈ Text.positions w s | r ≤ last + 1} :=
      Set.ext fun r => and_congr_right fun hr => Text.reaches_iff hw hsize hlast hr
    rwa [hreached] at hgreatest
  · obtain ⟨q, hfound, hgreatest⟩ := Text.findBack_last s hw
    refine ⟨q, Library.findBack_run m s w hfound, hgreatest, ?_⟩
    rw [Library.contains_run, Text.contains_eq hgreatest]

/-- A start at the first of two characters reaches the second one, which has two bytes. -/
theorem findBack_greatest_behind :
    Library.text .findBackFrom #[chars ['a', 'é'], chars ['é'], .int 1] { config := {} } =
      .ok (.ofNat 2) { config := {} } := by
  obtain ⟨q, hfound, hgreatest, -⟩ :=
    (findBack_greatest { config := {} } ['a', 'é'] (w := ['é']) (by decide)).1 1 0 (by rfl)
  have hat : 2 ∈ Text.positions ['é'] ['a', 'é'] := ⟨['a'], [], rfl, rfl⟩
  have hreached : Text.Reaches ['a', 'é'] ['é'] 0 2 := by
    unfold Text.Reaches
    decide
  have hle : q ≤ 2 := by
    rcases hgreatest.1 with rfl | ⟨hq, -⟩
    · omega
    · exact Nat.le_of_add_le_add_right (Text.le_of_mem_positions hq)
  obtain rfl : q = 2 := le_antisymm hle (hgreatest.2 (.inr ⟨hat, hreached⟩))
  exact hfound

-- ---------------------------------------------------------------------------
-- Agreement
-- ---------------------------------------------------------------------------

namespace Text

variable {delimiter : List Char} (text : List Char)

theorem isLeast_findFirst (needle : List Char) :
    positions needle text = ∅ ∧ positionOf (findFirst? needle text) = 0 ∨
      IsLeast (positions needle text) (positionOf (findFirst? needle text)) := by
  rcases findFirst?_cases needle text with ⟨hnone, hempty⟩ | ⟨o, hfound, hleast⟩
  · rw [hnone]
    exact .inl ⟨hempty, rfl⟩
  · rw [hfound]
    exact .inr hleast

theorem contains_eq_findFirst (needle : List Char) :
    contains text needle = decide (0 < positionOf (findFirst? needle text)) := by
  rw [contains]
  cases findFirst? needle text with
  | none => rfl
  | some o => simp [positionOf, Boundary.position]

/-- There is more than one part if there is an occurrence, and the first part ends where the first one begins. -/
theorem split_first (hdelimiter : delimiter ≠ []) : ∃ part rest, split text delimiter = part :: rest ∧
    (0 < positionOf (findFirst? delimiter text) ↔ 0 < rest.length) ∧
    (0 < positionOf (findFirst? delimiter text) → positionOf (findFirst? delimiter text) = 1 + part.length) := by
  rw [split_eq hdelimiter, splitFrom_eq hdelimiter]
  cases findFirst? delimiter text with
  | none => exact ⟨_, [], rfl, by simp [positionOf]⟩
  | some o =>
    have hrest : 0 < (splitFrom delimiter 0 [] o.behind).length :=
      List.length_pos_iff.mpr (splitFrom_ne_nil 0 [] o.behind)
    exact ⟨_, _, rfl, ⟨fun _ => hrest, fun _ => Nat.succ_pos _⟩, fun _ => Nat.add_comm ..⟩

end Text

/-- All functions that look for a text in another mean the same occurrences of it. The parts of a text put
together with a separator are the text with every occurrence replaced by the separator, so the text itself if
the separator is what was sought, and there is one occurrence less than there are parts. A search answers zero
exactly if there is no occurrence, and otherwise where the first part ends. Replacing the first or the last
occurrence changes the text at the position that the search answers, and nowhere else. -/
theorem substrings_consistent (m : Machine) (s r : List Char) {d : List Char} (hd : d ≠ []) :
    ∃ v m' part rest first last,
      Library.text .split #[chars s, chars d] m = .ok v m' ∧
      m'.heap.ListsTexts v (part :: rest) ∧
      Library.list .join #[v, chars d] m' = .ok (chars s) m' ∧
      Library.general .length #[v] m' = .ok (.ofNat (rest.length + 1)) m' ∧
      Library.text .count #[chars s, chars d] m = .ok (.ofNat rest.length) m ∧
      Library.text .find #[chars s, chars d] m = .ok (.ofNat first) m ∧
      Library.text .findBack #[chars s, chars d] m = .ok (.ofNat last) m ∧
      Library.text .contains #[chars s, chars d] m = .ok (.bool (decide (0 < first))) m ∧
      (Text.positions d s = ∅ ∧ first = 0 ∨ IsLeast (Text.positions d s) first) ∧
      IsGreatest ({0} ∪ Text.positions d s) last ∧
      (0 < first ↔ 0 < rest.length) ∧ (0 < first → first = 1 + part.length) ∧
      ∀ id, m.heap.cellValue id = chars s →
        (∃ t, Library.list .join #[v, chars r] m' = .ok (chars t) m' ∧
          Library.text .replace #[.cell id, chars d, chars r] m = .ok .null (m.storing id t)) ∧
        (∃ t, Library.list .join #[v, chars []] m' = .ok (chars t) m' ∧
          Library.text .remove #[.cell id, chars d] m = .ok .null (m.storing id t)) ∧
        Library.text .replaceFirst #[.cell id, chars d, chars r] m =
          .ok .null (m.storing id (Text.exchanged s first d.length r)) ∧
        Library.text .replaceLast #[.cell id, chars d, chars r] m =
          .ok .null (m.storing id (Text.exchanged s last d.length r)) := by
  obtain ⟨v, m', hsplit, hlists⟩ := Library.split_run m s d hd
  obtain ⟨part, rest, hparts, hsome, hfirst⟩ := Text.split_first s hd
  have hjoin := Library.join_run hlists
  have hlength := Library.length_run hlists
  have hcount : Text.count s d = rest.length := by
    have hone : (Text.split s d).length = Text.count s d + 1 := Text.length_split hd
    rw [hparts, List.length_cons] at hone
    omega
  obtain ⟨last, hback, hgreatest⟩ := Text.findBack_last s hd
  obtain rfl := hgreatest.unique (Text.isGreatest_findLast d s)
  rw [hparts] at hlists hlength
  refine ⟨v, m', part, rest, Text.positionOf (Text.findFirst? d s), Text.positionOf (Text.findLast? d s),
    hsplit, hlists, ?_, hlength, ?_, ?_, Library.findBack_run m s d hback, ?_, Text.isLeast_findFirst s d,
    hgreatest, hsome, hfirst, fun id hid => ⟨⟨_, hjoin r, ?_⟩, ⟨_, hjoin [], ?_⟩, ?_, ?_⟩⟩
  · rw [hjoin, Text.intercalate_split hd]
  · rw [Library.count_run m s d hd, hcount]
  · exact Library.find_run m s d (Text.find_one s d)
  · rw [Library.contains_run, Text.contains_eq_findFirst]
  · rw [Library.replace_run d r hid hd, Text.replaceAll_eq hd]
  · rw [Library.remove_run d hid, Text.replaceAll_eq hd]
  · rw [Library.replaceFirst_run d r hid, Text.replaceFirst, Text.replaceFound_eq hd]
  · rw [Library.replaceLast_run d r hid, Text.replaceLast, Text.replaceFound_eq hd]

/-- Two occurrences that overlap, of which the first or the last one is replaced. -/
theorem substrings_consistent_overlapping :
    let m : Machine := { config := {}, heap := { cells := #[some (chars ['a', 'a', 'a'])] } }
    m.heap.cellValue ⟨0⟩ = chars ['a', 'a', 'a'] ∧
      Library.text .find #[chars ['a', 'a', 'a'], chars ['a', 'a']] m = .ok (.ofNat 1) m ∧
      Library.text .findBack #[chars ['a', 'a', 'a'], chars ['a', 'a']] m = .ok (.ofNat 2) m ∧
      Library.text .replaceFirst #[.cell ⟨0⟩, chars ['a', 'a'], chars ['é']] m =
        .ok .null (m.storing ⟨0⟩ ['é', 'a']) ∧
      Library.text .replaceLast #[.cell ⟨0⟩, chars ['a', 'a'], chars ['é']] m =
        .ok .null (m.storing ⟨0⟩ ['a', 'é']) := by
  intro m
  have hvariable : m.heap.cellValue ⟨0⟩ = chars ['a', 'a', 'a'] := rfl
  obtain ⟨v, m', part, rest, first, last, -, -, -, -, -, hfind, hback, -, hleast, hgreatest, -, -, hedits⟩ :=
    substrings_consistent m ['a', 'a', 'a'] ['é'] (d := ['a', 'a']) (by decide)
  obtain ⟨-, -, hreplaceFirst, hreplaceLast⟩ := hedits ⟨0⟩ hvariable
  have hone : 1 ∈ Text.positions ['a', 'a'] ['a', 'a', 'a'] := ⟨[], ['a'], rfl, rfl⟩
  have htwo : 2 ∈ Text.positions ['a', 'a'] ['a', 'a', 'a'] := ⟨['a'], [], rfl, rfl⟩
  obtain rfl : first = 1 := by
    rcases hleast with ⟨hempty, -⟩ | hleast
    · exact absurd hone (hempty ▸ Set.notMem_empty 1)
    · exact le_antisymm (hleast.2 hone) (Text.pos_of_mem_positions hleast.1)
  obtain rfl : last = 2 := by
    refine le_antisymm ?_ (hgreatest.2 (.inr htwo))
    rcases hgreatest.1 with rfl | hq
    · omega
    · exact Nat.le_of_add_le_add_right (Text.le_of_mem_positions hq)
  exact ⟨hvariable, hfind, hback, hreplaceFirst, hreplaceLast⟩

end Rill
