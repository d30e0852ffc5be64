-- SUMMARY: Words, integers and strings that have been written are read back.
import Rill.Json.Read

/-!
# Reading scalars

`Gives x before a after`: reading with `x` from the text `before` gives `a` and leaves `after`. There is a
rule for each move of a reader, and the rules together read back what is written for words, integers and
strings.
-/

namespace Rill.Json

-- ---------------------------------------------------------------------------
-- Moves
-- ---------------------------------------------------------------------------

/-- Reading from a text succeeds with a result and leaves the rest of the text. -/
def Gives (x : Reading α) (before : List Char) (a : α) (after : List Char) : Prop :=
  x before = .ok (a, after)

namespace Gives

variable {x : Reading α} {f : α → Reading β} {before middle after : List Char} {a : α} {b : β}

theorem bind (hx : Gives x before a middle) (hf : Gives (f a) middle b after) :
    Gives (x >>= f) before b after := by
  change (x before >>= fun r => f r.1 r.2) = _
  rw [hx]
  exact hf

theorem pure (a : α) (text : List Char) : Gives (Pure.pure a) text a text := rfl

theorem get (text : List Char) : Gives MonadState.get text text text := rfl

theorem set (text rest : List Char) : Gives (MonadStateOf.set rest) text ⟨⟩ rest := rfl

theorem peek (text : List Char) : Gives Json.peek text text.head? text := rfl

theorem skip (c : Char) (text : List Char) : Gives Json.skip (c :: text) ⟨⟩ text := rfl

/-- Nothing is passed over in front of a character that is no blank. -/
theorem peekPastBlanks {c : Char} (hc : isBlank c = false) (text : List Char) :
    Gives Json.peekPastBlanks (c :: text) (some c) (c :: text) := by
  have hdrop : (c :: text).dropWhile isBlank = c :: text := by simp [hc]
  change Except.ok (((c :: text).dropWhile isBlank).head?, (c :: text).dropWhile isBlank) = _
  rw [hdrop]
  rfl

end Gives

theorem word_gives (cs after : List Char) : Gives (word cs) (cs ++ after) ⟨⟩ after := by
  induction cs with
  | nil => exact .pure _ _
  | cons c cs ih =>
    refine .bind (.peek _) ?_
    simp only [List.cons_append, List.head?_cons, ne_eq, not_true_eq_false, if_false]
    exact .bind (.skip _ _) ih

-- ---------------------------------------------------------------------------
-- Integers
-- ---------------------------------------------------------------------------

/-- What stands behind a document: nothing, or what ends an item or a field. -/
def Closed (after : List Char) : Prop := ∀ c ∈ after.head?, c = ',' ∨ c = ']' ∨ c = '\x7d'

theorem Closed.not_isDigit {after : List Char} (h : Closed after) :
    ∀ c ∈ after.head?, c.isDigit = false := by
  intro c hc
  rcases h c hc with rfl | rfl | rfl <;> rfl

theorem isDigit_of_mem_toDigits {n : Nat} {c : Char} (h : c ∈ Nat.toDigits 10 n) : c.isDigit = true :=
  Nat.isDigit_of_mem_toDigits (by decide) (by decide) h

theorem digitChar_ne_zero : ∀ d < 10, d ≠ 0 → Nat.digitChar d ≠ '0' := by decide

/-- Only the digits of zero start with a zero. -/
theorem head_toDigits {n : Nat} (hn : n ≠ 0) : (Nat.toDigits 10 n).head? ≠ some '0' := by
  induction n using Nat.strongRecOn with
  | _ n ih =>
    by_cases hsmall : n < 10
    · rw [Nat.toDigits_of_lt_base hsmall]
      simpa using digitChar_ne_zero n hsmall hn
    · rw [Nat.toDigits_of_base_le (by decide) (by omega), List.head?_append,
        List.head?_eq_some_head Nat.toDigits_ne_nil, Option.some_or, ← List.head?_eq_some_head]
      exact ih (n / 10) (by omega) (by omega)

/-- The value of digits is not less than what they are put behind. -/
theorem le_ofDigitChars (cs : List Char) (n : Nat) : n ≤ Nat.ofDigitChars 10 cs n := by
  induction cs generalizing n with
  | nil => exact Nat.le_refl n
  | cons c cs ih =>
    rw [Nat.ofDigitChars_cons]
    exact Nat.le_trans (by omega) (ih _)

-- The equations that `rw` would make for `takeDigits` compare with the bound of a word unfolded.
theorem takeDigits_nil (n : Nat) : takeDigits n [] = (n, 0, 0, []) := by
  delta takeDigits
  exact rfl

theorem takeDigits_cons (n : Nat) (c : Char) (rest : List Char) :
    takeDigits n (c :: rest) =
      if !c.isDigit then (n, 0, 0, c :: rest)
      else match withDigit? n c with
        | some k => ((takeDigits k rest).1, (takeDigits k rest).2.1 + 1, (takeDigits k rest).2.2)
        | none => (n, 0, ((c :: rest).takeWhile Char.isDigit).length, rest.dropWhile Char.isDigit) := by
  delta takeDigits
  exact rfl

theorem withDigit_eq {n : Nat} {c : Char} (h : 10 * n + digitValue c < 0x10000000000000000) :
    withDigit? n c = some (10 * n + digitValue c) := by
  rw [withDigit?, if_pos h]

/-- All of the digits are taken if their value is a word. -/
theorem takeDigits_append {cs after : List Char} {n : Nat} (hcs : ∀ c ∈ cs, c.isDigit = true)
    (hafter : ∀ c ∈ after.head?, c.isDigit = false) (hn : Nat.ofDigitChars 10 cs n < 0x10000000000000000) :
    takeDigits n (cs ++ after) = (Nat.ofDigitChars 10 cs n, cs.length, 0, after) := by
  induction cs generalizing n with
  | nil =>
    rw [List.nil_append, Nat.ofDigitChars_nil, List.length_nil]
    cases after with
    | nil => exact takeDigits_nil n
    | cons c after => rw [takeDigits_cons, hafter c rfl, Bool.not_false, if_pos rfl]
  | cons c cs ih =>
    obtain ⟨hc, hcs⟩ := List.forall_mem_cons.mp hcs
    rw [Nat.ofDigitChars_cons] at hn ⊢
    have hdigit : withDigit? n c = some (10 * n + digitValue c) :=
      withDigit_eq (Nat.lt_of_le_of_lt (le_ofDigitChars cs _) hn)
    have hrest : takeDigits (10 * n + digitValue c) (cs ++ after) = (_, cs.length, 0, after) := ih hcs hn
    rw [List.cons_append, takeDigits_cons, hc, hdigit, Bool.not_true, if_neg Bool.false_ne_true]
    dsimp only
    rw [hrest, List.length_cons]
    rfl

/-- What is left of a number when its digits have been read. -/
theorem afterDigits_gives (negative : Bool) (n : Nat) {after : List Char} (hafter : Closed after) :
    Gives (do
      match ← Json.peek with
      | some '.' =>
        Json.skip
        fractionPart negative n 0
      | some 'e' | some 'E' => afterFraction negative n 0
      | _ => if 0 = 0 then return whole negative n else floatOf negative n 0 : Reading Document)
      after (whole negative n) after := by
  refine .bind (.peek _) ?_
  cases after with
  | nil => exact .pure _ _
  | cons c after =>
    rcases hafter c rfl with rfl | rfl | rfl
    all_goals exact .pure _ _

/-- An integer is read up to what closes it. -/
theorem number_gives {n : Nat} (hn : n < 0x10000000000000000) (negative : Bool) {after : List Char}
    (hafter : Closed after) :
    Gives (number negative) (Nat.toDigits 10 n ++ after) (whole negative n) after := by
  obtain ⟨c, cs, hdigits⟩ := List.exists_cons_of_ne_nil (Nat.toDigits_ne_nil (n := n) (b := 10))
  have hc : c.isDigit = true := isDigit_of_mem_toDigits (n := n) (by simp [hdigits])
  rw [hdigits]
  refine .bind (.peek _) ?_
  simp only [List.cons_append, List.head?_cons, hc, Bool.not_true, Bool.false_eq_true, if_false]
  by_cases hzero : n = 0
  · subst hzero
    obtain ⟨rfl, rfl⟩ : c = '0' ∧ cs = [] := by simpa using hdigits.symm
    rw [if_pos rfl]
    refine .bind (.skip _ _) (.bind (.peek _) ?_)
    have hnone : (([] : List Char) ++ after).head?.any Char.isDigit = false := by
      cases after with
      | nil => rfl
      | cons d after => exact hafter.not_isDigit d rfl
    rw [hnone, if_neg Bool.false_ne_true]
    exact afterDigits_gives negative 0 hafter
  · have hne : c ≠ '0' := by
      rintro rfl
      exact head_toDigits hzero (by simp [hdigits])
    have htaken : takeDigits 0 (c :: cs ++ after) = (n, (c :: cs).length, 0, after) := by
      have hvalue : Nat.ofDigitChars 10 (c :: cs) 0 = n := by
        rw [← hdigits, Nat.ofDigitChars_toDigits (by decide) (by decide)]
      have hall : ∀ d ∈ c :: cs, d.isDigit = true := by
        intro d hd
        rw [← hdigits] at hd
        exact isDigit_of_mem_toDigits hd
      rw [takeDigits_append hall hafter.not_isDigit (by rwa [hvalue]), hvalue]
    rw [if_neg hne]
    refine .bind (.get _) ?_
    rw [← List.cons_append, htaken]
    exact .bind (.set _ _) (afterDigits_gives negative n hafter)

/-- The text of an integer: its digits, behind a sign if it is negative. -/
theorem toString_int64 (n : Int64) :
    (toString n).toList = if n.toInt < 0 then '-' :: Nat.toDigits 10 n.toInt.natAbs
      else Nat.toDigits 10 n.toInt.natAbs := by
  change (Int.repr n.toInt).toList = _
  cases n.toInt with
  | ofNat k => simp [Int.repr]
  | negSucc k => simp [Int.repr, Int.negSucc_lt_zero]

/-- The integers of 64 bits are what their digits and sign stand for. -/
theorem whole_natAbs (n : Int64) : whole (decide (n.toInt < 0)) n.toInt.natAbs = .int n := by
  have hlow := n.le_toInt
  have hhigh := n.toInt_lt
  by_cases hneg : n.toInt < 0
  · have hrange : 0 < n.toInt.natAbs ∧ n.toInt.natAbs ≤ 0x8000000000000000 := by omega
    have habs : (-(n.toInt.natAbs : Int)) = n.toInt := by omega
    rw [whole, decide_eq_true hneg, if_pos rfl, if_pos hrange, habs, Int64.ofInt_toInt]
  · have hrange : n.toInt.natAbs < 0x8000000000000000 := by omega
    have habs : ((n.toInt.natAbs : Nat) : Int) = n.toInt := by omega
    rw [whole, decide_eq_false hneg, if_neg Bool.false_ne_true, if_pos hrange, ← Int64.ofInt_eq_ofNat, habs,
      Int64.ofInt_toInt]

/-- The digits of an integer are read back behind its sign. -/
theorem int_gives (n : Int64) {after : List Char} (hafter : Closed after) :
    Gives (number (decide (n.toInt < 0))) (Nat.toDigits 10 n.toInt.natAbs ++ after) (.int n) after := by
  have hlow := n.le_toInt
  have hhigh := n.toInt_lt
  rw [← whole_natAbs n]
  exact number_gives (by omega) _ hafter

-- ---------------------------------------------------------------------------
-- Strings
-- ---------------------------------------------------------------------------

theorem hexDigit_digitChar : ∀ d < 16, hexDigit? (Nat.digitChar d) = some d := by decide

/-- Four hexadecimal digits give the number that is written with them. -/
theorem hexWord_gives {n : Nat} (hn : n < 256) (after : List Char) :
    Gives hexWord ('0' :: '0' :: Nat.digitChar (n / 16) :: Nat.digitChar (n % 16) :: after) n after := by
  have hhigh := hexDigit_digitChar (n / 16) (by omega)
  have hlow := hexDigit_digitChar (n % 16) (by omega)
  have hzero : hexDigit? '0' = some 0 := rfl
  refine .bind (.get _) ?_
  simp only [List.take_succ_cons, List.take_zero, List.filterMap_cons, hzero, hhigh, hlow,
    List.filterMap_nil, List.length_cons, List.length_nil, if_true, List.drop_succ_cons, List.drop_zero]
  refine .bind (.set _ _) ?_
  have hvalue : [0, 0, n / 16, n % 16].foldl (fun n d => 16 * n + d) 0 = n := by
    simp only [List.foldl_cons, List.foldl_nil]
    omega
  rw [hvalue]
  exact .pure _ _

theorem controlEscape_gives {c : Char} (hc : c.toNat < 32) (after : List Char) :
    Gives escape ((controlEscape c).tail ++ after) c after := by
  refine .bind (.peek _) ?_
  simp only [controlEscape, List.tail_cons, List.cons_append, List.head?_cons]
  refine .bind (.skip _ _) (.bind (hexWord_gives (n := c.toNat) (by omega) after) ?_)
  have htrailing : isTrailing c.toNat = false := by
    simp only [isTrailing, Bool.and_eq_false_iff, decide_eq_false_iff_not]
    omega
  have hleading : isLeading c.toNat = false := by
    simp only [isLeading, Bool.and_eq_false_iff, decide_eq_false_iff_not]
    omega
  simp only [htrailing, hleading, Bool.false_eq_true, if_false, Bool.not_false, if_true, Char.ofNat_toNat]
  exact .pure _ _

/-- A character stands in a string as it is, or behind a backslash as an escape that is read back. -/
theorem writeChar_cases (c : Char) :
    (writeChar c = [c] ∧ c ≠ '"' ∧ c ≠ '\\' ∧ ¬c.toNat < 32) ∨
    ∃ cs, writeChar c = '\\' :: cs ∧ ∀ after, Gives escape (cs ++ after) c after := by
  unfold writeChar
  split
  case h_8 hquote hslash _ _ _ _ _ =>
    split
    · rename_i hcontrol
      exact .inr ⟨(controlEscape c).tail, rfl, controlEscape_gives hcontrol⟩
    · rename_i hcontrol
      exact .inl ⟨rfl, hquote, hslash, hcontrol⟩
  all_goals exact .inr ⟨_, rfl, fun _ => rfl⟩

theorem stringRest_gives {cs : List Char} {fuel : Nat} (hfuel : cs.length < fuel) (before after : List Char) :
    Gives (stringRest fuel before) (cs.flatMap writeChar ++ '"' :: after)
      (String.ofList (before.reverse ++ cs)) after := by
  induction cs generalizing fuel before with
  | nil =>
    cases fuel with
    | zero => cases hfuel
    | succ fuel =>
      rw [List.append_nil]
      exact .bind (.peek _) (.bind (.skip _ _) (.pure _ _))
  | cons c cs ih =>
    cases fuel with
    | zero => cases hfuel
    | succ fuel =>
      have hrest := ih (Nat.lt_of_succ_lt_succ hfuel) (c :: before)
      rw [List.reverse_cons, List.append_assoc, List.singleton_append] at hrest
      rw [List.flatMap_cons, List.append_assoc]
      obtain ⟨hwritten, hquote, hslash, hcontrol⟩ | ⟨es, hwritten, hescape⟩ := writeChar_cases c
      · rw [hwritten, List.singleton_append]
        refine .bind (.peek _) ?_
        simp only [List.head?_cons]
        rw [if_neg hcontrol]
        exact .bind (.skip _ _) hrest
      · rw [hwritten, List.cons_append]
        exact .bind (.peek _) (.bind (.skip _ _) (.bind (hescape _) hrest))

theorem length_le_flatMap_writeChar (cs : List Char) : cs.length ≤ (cs.flatMap writeChar).length := by
  induction cs with
  | nil => exact Nat.le_refl 0
  | cons c cs ih =>
    have hc : 0 < (writeChar c).length := by
      obtain ⟨hwritten, -⟩ | ⟨es, hwritten, -⟩ := writeChar_cases c
      all_goals simp [hwritten]
    rw [List.flatMap_cons, List.length_append, List.length_cons]
    omega

theorem string_gives (s : String) (after : List Char) : Gives string (writeString s ++ after) s after := by
  refine .bind (.skip _ _) (.bind (.get _) ?_)
  have hlength : s.toList.length < ((s.toList.flatMap writeChar ++ ['"']) ++ after).length + 1 := by
    rw [List.append_assoc, List.length_append]
    exact Nat.lt_succ_of_le (Nat.le_add_right_of_le (length_le_flatMap_writeChar _))
  have hrest := stringRest_gives hlength [] after
  rw [List.reverse_nil, List.nil_append, String.ofList_toList] at hrest
  simpa using hrest

end Rill.Json
