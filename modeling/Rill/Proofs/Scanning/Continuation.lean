-- SUMMARY: What has been scanned of a text up to a line end stays as it is when the text goes on.
import Rill.Proofs.Scanning.Tiling

/-!
# Texts that go on

No lexeme but a string literal goes across a line end. So a text that ends with one has the same tokens in
front when more is written behind it, up to the place where a string literal is not closed.
-/

namespace Rill

/-- The text is empty or ends with a line end. -/
def IsLines (cs : List Char) : Prop := ∀ c ∈ cs.getLast?, c = '\n'

theorem IsLines.drop {cs : List Char} (h : IsLines cs) (n : Nat) : IsLines (cs.drop n) := by
  intro c hc
  rw [Option.mem_def, List.getLast?_drop] at hc
  split at hc
  · exact absurd hc (by simp)
  · exact h c hc

theorem IsLines.cons {c : Char} {cs : List Char} (h : IsLines (c :: cs)) :
    IsLines cs ∧ (cs = [] ∧ c = '\n' ∨ '\n' ∈ cs) := by
  cases cs with
  | nil => exact ⟨nofun, .inl ⟨rfl, h c rfl⟩⟩
  | cons d ds =>
    have hlast : (c :: d :: ds).getLast? = (d :: ds).getLast? := List.getLast?_cons_cons
    unfold IsLines at h
    rw [hlast] at h
    refine ⟨h, .inr ?_⟩
    cases hd : (d :: ds).getLast? with
    | none => exact absurd (List.getLast?_eq_none_iff.mp hd) (List.cons_ne_nil d ds)
    | some e => exact h e hd ▸ List.mem_of_getLast? hd

-- ---------------------------------------------------------------------------
-- Lexemes
-- ---------------------------------------------------------------------------

section

variable {cs : List Char} {p : Char → Bool}

/-- A run that does not go across line ends, in a text that has one. -/
theorem takeWhile_continued (hp : p '\n' = false) (h : '\n' ∈ cs) (more : List Char) :
    (cs ++ more).takeWhile p = cs.takeWhile p := by
  rw [List.takeWhile_append, if_neg]
  intro hlength
  have hall : cs.takeWhile p = cs := (List.takeWhile_prefix p).eq_of_length hlength
  rw [← hall] at h
  exact absurd (List.mem_takeWhile_imp h) (by simp [hp])

theorem mem_drop_takeWhile (hp : p '\n' = false) (h : '\n' ∈ cs) :
    '\n' ∈ cs.drop (cs.takeWhile p).length := by
  rw [← List.takeWhile_append_dropWhile (p := p) (l := cs), List.mem_append] at h
  rw [← runLength, drop_runLength]
  exact h.resolve_left fun hmem => absurd (List.mem_takeWhile_imp hmem) (by simp [hp])

theorem drop_takeWhile_append (more : List Char) :
    (cs ++ more).drop (cs.takeWhile p).length = cs.drop (cs.takeWhile p).length ++ more :=
  List.drop_append_of_le_length (List.takeWhile_prefix p).length_le

/-- The lexeme of `c :: cs` does not reach beyond this text, and is the same with more behind it. -/
def IsSettled (munch : List Char → Munch) (cs : List Char) : Prop :=
  (munch cs).extra ≤ cs.length ∧ ∀ more, munch (cs ++ more) = munch cs

theorem munchNumber_settled (c : Char) (h : '\n' ∈ cs) : IsSettled (munchNumber c) cs := by
  have hnumeral : isNumeral '\n' = false := by decide
  have hdrop := mem_drop_takeWhile hnumeral h
  have hwhole : (cs.takeWhile isNumeral).length + (cs.drop (cs.takeWhile isNumeral).length).length = cs.length := by
    rw [List.length_drop, Nat.add_sub_cancel' (List.takeWhile_prefix isNumeral).length_le]
  unfold IsSettled munchNumber
  simp only [takeWhile_continued hnumeral h, drop_takeWhile_append]
  generalize cs.drop (cs.takeWhile isNumeral).length = rest at hdrop hwhole
  cases rest with
  | nil => exact absurd hdrop List.not_mem_nil
  | cons d ds =>
    by_cases hdot : d = '.'
    · subst hdot
      have hmem : '\n' ∈ ds := by simpa using hdrop
      have hfraction := (List.takeWhile_prefix isNumeral (l := ds)).length_le
      simp only [List.cons_append, takeWhile_continued hnumeral hmem, implies_true, and_true]
      rw [List.length_cons] at hwhole
      omega
    · refine ⟨?_, fun more => ?_⟩
      · split
        · next heq => exact absurd (List.cons.inj heq).1 hdot
        · exact (List.takeWhile_prefix isNumeral).length_le
      · rw [List.cons_append]
        split
        · next heq => exact absurd (List.cons.inj heq).1 hdot
        · symm
          split
          · next heq => exact absurd (List.cons.inj heq).1 hdot
          · rfl

theorem munchName_settled (c : Char) (h : '\n' ∈ cs) : IsSettled (munchName c) cs := by
  have hrest : isNameRest '\n' = false := by decide
  have hdollar : ('\n' == '$') = false := by decide
  have hdrop := mem_drop_takeWhile hrest h
  refine ⟨?_, fun more => ?_⟩
  · have hbody := (List.takeWhile_prefix isNameRest (l := cs)).length_le
    have hdollars := (List.takeWhile_prefix (· == '$') (l := cs.drop (cs.takeWhile isNameRest).length)).length_le
    rw [List.length_drop] at hdollars
    simp only [munchName]
    omega
  · simp only [munchName, takeWhile_continued hrest h, drop_takeWhile_append]
    rw [takeWhile_continued (p := (· == '$')) hdollar hdrop]

/-- A literal that is closed is closed there whatever is written behind it. -/
theorem cook_cut {quote : Char} {cs text : List Char} {n : Nat} (h : cook quote cs = some (text, n)) :
    n ≤ cs.length ∧ ∀ more, cook quote (cs.take n ++ more) = some (text, n) := by
  fun_induction cook quote cs generalizing text n with
  | case1 => simp at h
  | case2 cs =>
    obtain ⟨rfl, rfl⟩ := Prod.mk.inj (Option.some.inj h)
    exact ⟨Nat.succ_le_succ (Nat.zero_le _), fun more => by simp [cook.eq_def quote (quote :: _)]⟩
  | case3 => simp at h
  | case4 e rest hquote ih =>
    obtain ⟨⟨inner, k⟩, hinner, heq⟩ := Option.map_eq_some_iff.mp h
    obtain ⟨rfl, rfl⟩ := Prod.mk.inj heq
    obtain ⟨hle, hmore⟩ := ih hinner
    refine ⟨Nat.succ_le_succ (Nat.succ_le_succ hle), fun more => ?_⟩
    simp only [List.take_succ_cons, List.cons_append, cook.eq_def quote ('\\' :: _), hquote, if_false,
      if_true, hmore more, Option.map_some]
  | case5 c cs hquote hslash ih =>
    obtain ⟨⟨inner, k⟩, hinner, heq⟩ := Option.map_eq_some_iff.mp h
    obtain ⟨rfl, rfl⟩ := Prod.mk.inj heq
    obtain ⟨hle, hmore⟩ := ih hinner
    refine ⟨Nat.succ_le_succ hle, fun more => ?_⟩
    simp only [List.take_succ_cons, List.cons_append, cook.eq_def quote (c :: _), hquote, hslash, if_false,
      hmore more, Option.map_some]

theorem cook_continued {quote : Char} {text : List Char} {n : Nat} (h : cook quote cs = some (text, n)) :
    n ≤ cs.length ∧ ∀ more, cook quote (cs ++ more) = some (text, n) := by
  obtain ⟨hle, hmore⟩ := cook_cut h
  refine ⟨hle, fun more => ?_⟩
  rw [← List.take_append_drop n cs, List.append_assoc]
  exact hmore _

theorem munchString_settled {quote : Char} (hfault : ∀ why, (munchString quote cs).lexeme ≠ .fault why) :
    IsSettled (munchString quote) cs := by
  unfold munchString at hfault
  cases hcook : cook quote cs with
  | none =>
    rw [hcook] at hfault
    exact absurd rfl (hfault .unterminatedString)
  | some r =>
    obtain ⟨hle, hmore⟩ := cook_continued hcook
    refine ⟨?_, fun more => ?_⟩
    · simpa only [munchString, hcook] using hle
    · simp only [munchString, hcook, hmore more]

/-- A mark that an equals sign would make longer, but none follows. -/
theorem match_equals_other {m m' : Munch} {cs : List Char} :
    (∀ d ∈ cs.head?, d ≠ '=') → (match cs with | '=' :: _ => m | _ => m') = m' := by
  intro h
  split
  · exact absurd rfl (h '=' rfl)
  · rfl

/-- A mark that an arrow head would make longer, but none follows. -/
theorem match_arrow_other {m m' m'' : Munch} {cs : List Char} :
    (∀ d ∈ cs.head?, d ≠ '>') → (match '=' :: cs with | '=' :: '>' :: _ => m | '=' :: _ => m' | _ => m'') = m' := by
  intro h
  split
  · next heq => exact absurd rfl (h '>' (by rw [(List.cons.inj heq).2]; rfl))
  · rfl
  · next hfirst => exact absurd rfl (hfirst cs)

theorem match_arrow_none {m m' m'' : Munch} {cs : List Char} :
    (∀ d ∈ cs.head?, d ≠ '=') → (match cs with | '=' :: '>' :: _ => m | '=' :: _ => m' | _ => m'') = m'' := by
  intro h
  split
  · exact absurd rfl (h '=' rfl)
  · exact absurd rfl (h '=' rfl)
  · rfl

/-- A mark that an equals sign makes longer. -/
theorem equals_settled (h : '\n' ∈ cs) (m : Munch) (hm : m.extra = 1) (m' : Munch) (hm' : m'.extra = 0) :
    IsSettled (fun cs => match cs with | '=' :: _ => m | _ => m') cs := by
  cases cs with
  | nil => exact absurd h List.not_mem_nil
  | cons d ds =>
    by_cases hd : d = '='
    · subst hd
      exact ⟨hm ▸ Nat.succ_le_succ (Nat.zero_le _), fun _ => rfl⟩
    · have hother (tail : List Char) : (match d :: tail with | '=' :: _ => m | _ => m') = m' :=
        match_equals_other fun e he => Option.some.inj he ▸ hd
      refine ⟨?_, fun more => (hother (ds ++ more)).trans (hother ds).symm⟩
      simp only [hother, hm', Nat.zero_le]

/-- A mark that an equals sign makes longer, and an arrow head behind it once more. -/
theorem arrow_settled (h : '\n' ∈ cs) (m : Munch) (hm : m.extra = 2) (m' : Munch) (hm' : m'.extra = 1)
    (m'' : Munch) (hm'' : m''.extra = 0) :
    IsSettled (fun cs => match cs with | '=' :: '>' :: _ => m | '=' :: _ => m' | _ => m'') cs := by
  cases cs with
  | nil => exact absurd h List.not_mem_nil
  | cons d ds =>
    by_cases hd : d = '='
    · subst hd
      cases ds with
      | nil => simp at h
      | cons e es =>
        by_cases he : e = '>'
        · subst he
          exact ⟨hm ▸ Nat.succ_le_succ (Nat.succ_le_succ (Nat.zero_le _)), fun _ => rfl⟩
        · have hequals (tail : List Char) :
              (match '=' :: e :: tail with | '=' :: '>' :: _ => m | '=' :: _ => m' | _ => m'') = m' :=
            match_arrow_other fun f hf => Option.some.inj hf ▸ he
          refine ⟨?_, fun more => (hequals (es ++ more)).trans (hequals es).symm⟩
          simp only [hequals, hm', List.length_cons]
          exact Nat.succ_le_succ (Nat.zero_le _)
    · have hother (tail : List Char) :
          (match d :: tail with | '=' :: '>' :: _ => m | '=' :: _ => m' | _ => m'') = m'' :=
        match_arrow_none fun e he => Option.some.inj he ▸ hd
      refine ⟨?_, fun more => (hother (ds ++ more)).trans (hother ds).symm⟩
      simp only [hother, hm'', Nat.zero_le]

theorem munchMark_settled (c : Char) (h : '\n' ∈ cs) : IsSettled (munchMark c) cs := by
  have hone (m : Munch) (hm : m.extra = 0) : IsSettled (fun _ => m) cs := ⟨hm ▸ Nat.zero_le _, fun _ => rfl⟩
  unfold munchMark
  dsimp only
  split
  case h_10 => exact arrow_settled h _ rfl _ rfl _ rfl
  all_goals first
    | exact hone _ rfl
    | exact equals_settled h _ rfl _ rfl

/-- In a text of whole lines every lexeme is settled, except for a fault. -/
theorem munch_settled {c : Char} (hlines : IsLines (c :: cs)) (hfault : ∀ why, (munch c cs).lexeme ≠ .fault why) :
    IsSettled (munch c) cs := by
  obtain ⟨-, ⟨rfl, rfl⟩ | h⟩ := hlines.cons
  · refine ⟨Nat.le_refl 0, fun more => ?_⟩
    rfl
  have hrun {p : Char → Bool} (hp : p '\n' = false) (lexeme : Lexeme) :
      IsSettled (fun cs => ⟨runLength p cs, lexeme⟩) cs := by
    refine ⟨(List.takeWhile_prefix p).length_le, fun more => ?_⟩
    simp only [runLength, takeWhile_continued hp h]
  unfold munch at hfault ⊢
  split
  · exact hrun rfl _
  split
  · exact hrun rfl _
  split
  · exact ⟨Nat.zero_le _, fun _ => rfl⟩
  split
  · exact munchNumber_settled c h
  split
  · next hlayout hcomment heol hdigit hquote =>
    rw [if_neg hlayout, if_neg hcomment, if_neg heol, if_neg hdigit, if_pos hquote] at hfault
    exact munchString_settled hfault
  split
  · exact munchName_settled c h
  · exact munchMark_settled c h

end

-- ---------------------------------------------------------------------------
-- Whole texts
-- ---------------------------------------------------------------------------

/-- The tokens of a text before its end. -/
def Scan.solid (s : Scan) : List Token := s.tokens.filter (·.kind ≠ .eof)

theorem solid_cons {kind : TokenKind} (hkind : kind ≠ .eof) (span : Span) (line : Nat) (s : Scan) :
    Scan.solid { s with tokens := ⟨kind, span, line⟩ :: s.tokens } = ⟨kind, span, line⟩ :: s.solid :=
  List.filter_cons_of_pos (decide_eq_true hkind)

/-- What the scanner finds, without positions: tokens up to the end of the text. -/
def Scan.Kinds (s : Scan) (ks : List TokenKind) : Prop :=
  s.error = none ∧ s.tokens.map Token.kind = ks ++ [.eof]

theorem scanFrom_continued (p : Position) (cs : List Char) (hlines : IsLines cs) (more : List Char) :
    (scanFrom p cs).solid <+: (scanFrom p (cs ++ more)).tokens := by
  fun_induction scanFrom p cs with
  | case1 p => exact List.nil_prefix
  | case2 p c cs m next span why hlexeme => exact List.nil_prefix
  | case3 p c cs m next hlexeme ih =>
    obtain ⟨hextra, hmore⟩ := munch_settled hlines fun why => by simp [m, hlexeme]
    have hrest := ih (hlines.cons.1.drop _)
    rw [← List.drop_append_of_le_length hextra] at hrest
    rw [List.cons_append, scanFrom]
    simp only [hmore more, List.take_append_of_le_length hextra]
    rw [show (munch c cs).lexeme = .blank from hlexeme]
    exact hrest
  | case4 p c cs m next span kind hlexeme rest ih =>
    obtain ⟨hextra, hmore⟩ := munch_settled hlines fun why => by simp [m, hlexeme]
    have hrest := ih (hlines.cons.1.drop _)
    rw [← List.drop_append_of_le_length hextra] at hrest
    rw [List.cons_append, scanFrom]
    simp only [hmore more, List.take_append_of_le_length hextra]
    rw [show (munch c cs).lexeme = .token kind from hlexeme]
    rw [solid_cons (munch_ne_eof hlexeme)]
    exact List.cons_prefix_cons.mpr ⟨rfl, hrest⟩

/-- A text of whole lines keeps its tokens when more lines follow. -/
theorem scan_continued {text : String} (hlines : IsLines text.toList) (more : String) :
    (scan text).solid <+: (scan (text ++ more)).tokens := by
  unfold scan
  rw [String.toList_append]
  exact scanFrom_continued {} text.toList hlines more.toList

namespace Scan.Tiles

variable {s : Scan} {text : List Char} {last : Span}

/-- Behind the tokens of a text is either its end or an error. -/
theorem solid_append (h : s.Tiles text last) :
    ∃ tail, s.tokens = s.solid ++ tail ∧ (tail = [] → s.error ≠ none) ∧ ∀ t ∈ tail, t.kind = .eof := by
  have hended := h.ended
  cases herror : s.error with
  | some e =>
    rw [herror] at hended
    refine ⟨[], ?_, fun _ => by simp, nofun⟩
    rw [List.append_nil, solid, List.filter_eq_self.mpr fun t ht => decide_eq_true (hended.1 t ht)]
  | none =>
    rw [herror] at hended
    obtain ⟨tokens, line, hsolid, htokens⟩ := hended
    refine ⟨[⟨.eof, ⟨byteLength text, byteLength text⟩, line⟩], ?_, by simp, by simp⟩
    rw [solid, htokens, List.filter_append, List.filter_eq_self.mpr fun t ht => decide_eq_true (hsolid t ht)]
    simp

end Scan.Tiles

end Rill
