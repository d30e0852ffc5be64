-- SUMMARY: A lexeme depends on nothing behind it but the character that ends it.
import Rill.Proofs.Scanning.Continuation

/-!
# Where lexemes end

A lexeme that is not a string literal goes on as far as it can, and the first character that it cannot take
ends it. Blanks and the sign of a comment end all of them. So a token stays as it is when something else
is written behind it, if this begins with the same character as before, or with a blank or a comment.
-/

namespace Rill

/-- A lexeme that ended where `next` followed, or the text ended, also ends in front of `after`. -/
def EndsAlike (next : Option Char) (after : List Char) : Prop :=
  ∀ c ∈ after.head?, c ∈ next ∨ c ∈ [' ', '\t', '\r', '\x0b', '\x0c', '#']

namespace EndsAlike

theorem refl (after : List Char) : EndsAlike after.head? after := fun _ => .inl

/-- A run of characters that ended there ends there again. -/
theorem stops {p : Char → Bool} {next : Option Char} {after : List Char} (h : EndsAlike next after)
    (hnext : ∀ c ∈ next, p c = false)
    (hblank : [' ', '\t', '\r', '\x0b', '\x0c', '#'].all (!p ·) = true) :
    ∀ c ∈ after.head?, p c = false :=
  fun c hc => (h c hc).elim (hnext c) fun hc => by simpa using List.all_eq_true.mp hblank c hc

end EndsAlike

-- ---------------------------------------------------------------------------
-- Runs of characters
-- ---------------------------------------------------------------------------

section

variable {p : Char → Bool} {cs run rest : List Char}

/-- Every text begins with a run of the characters that satisfy `p`. -/
theorem exists_run (p : Char → Bool) (cs : List Char) :
    ∃ run rest, cs = run ++ rest ∧ (∀ c ∈ run, p c = true) ∧ ∀ c ∈ rest.head?, p c = false := by
  refine ⟨cs.takeWhile p, cs.dropWhile p, List.takeWhile_append_dropWhile.symm,
    fun _ => List.mem_takeWhile_imp, fun c hc => ?_⟩
  have hstop := List.head?_dropWhile_not p cs
  rw [Option.mem_def.mp hc] at hstop
  simpa using hstop

theorem takeWhile_run (hrun : ∀ c ∈ run, p c = true) (hrest : ∀ c ∈ rest.head?, p c = false) :
    (run ++ rest).takeWhile p = run := by
  rw [List.takeWhile_append_of_pos hrun]
  cases rest with
  | nil => rw [List.takeWhile_nil, List.append_nil]
  | cons c rest =>
    have hc : p c = false := hrest c rfl
    rw [List.takeWhile_cons_of_neg (by simp [hc]), List.append_nil]

end

-- ---------------------------------------------------------------------------
-- Kinds of lexemes
-- ---------------------------------------------------------------------------

theorem isDigit_plain {c : Char} (h : c.isDigit = true) :
    isLayout c = false ∧ c ≠ '#' ∧ c ≠ '\n' := by
  refine ⟨?_, ?_, ?_⟩
  · simp only [isLayout, Bool.or_eq_false_iff, beq_eq_false_iff_ne, ne_eq]
    refine ⟨⟨⟨⟨?_, ?_⟩, ?_⟩, ?_⟩, ?_⟩ <;> (rintro rfl; exact absurd h (by decide))
  · rintro rfl
    exact absurd h (by decide)
  · rintro rfl
    exact absurd h (by decide)

theorem munch_digit {c : Char} (h : c.isDigit = true) (cs : List Char) : munch c cs = munchNumber c cs := by
  obtain ⟨hlayout, hhash, hline⟩ := isDigit_plain h
  simp only [munch, hlayout, hhash, hline, h, Bool.false_eq_true, if_false, if_true]

/-- An integer: no point follows its digits. -/
theorem munchNumber_whole (c : Char) {whole rest : List Char} (hwhole : ∀ d ∈ whole, isNumeral d = true)
    (hrest : ∀ d ∈ rest.head?, isNumeral d = false ∧ d ≠ '.') :
    munchNumber c (whole ++ rest) = ⟨whole.length,
      if digitsValue (c :: whole) < 0x10000000000000000 then .token (.int (digitsValue (c :: whole)))
      else .fault .integerOverflow⟩ := by
  simp only [munchNumber, takeWhile_run hwhole fun d hd => (hrest d hd).1, List.drop_left]
  cases rest with
  | nil => rfl
  | cons d rest =>
    split
    · next heq => exact absurd (List.cons.inj heq).1 (hrest d rfl).2
    · rfl

/-- A float: a point follows the digits in front, and perhaps further digits. -/
theorem munchNumber_point (c : Char) {whole fraction rest : List Char}
    (hwhole : ∀ d ∈ whole, isNumeral d = true) (hfraction : ∀ d ∈ fraction, isNumeral d = true)
    (hrest : ∀ d ∈ rest.head?, isNumeral d = false) :
    munchNumber c (whole ++ '.' :: fraction ++ rest) = ⟨whole.length + 1 + fraction.length,
      .token (.float (Decimal.floatOfDecimal (digitsValue (c :: whole ++ fraction))
        (-((fraction.filter Char.isDigit).length : Int))))⟩ := by
  have hpoint : ∀ d ∈ ('.' :: (fraction ++ rest)).head?, isNumeral d = false := by
    rintro d ⟨⟩
    decide
  simp only [munchNumber, List.append_assoc, List.cons_append, takeWhile_run hwhole hpoint, List.drop_left,
    takeWhile_run hfraction hrest]

/-- A name, which the dollar signs at its end belong to. -/
theorem munchName_run (c : Char) {body dollars rest : List Char} (hbody : ∀ d ∈ body, isNameRest d = true)
    (hdollars : ∀ d ∈ dollars, (d == '$') = true)
    (hend : ∀ d ∈ (dollars ++ rest).head?, isNameRest d = false) (hrest : ∀ d ∈ rest.head?, (d == '$') = false) :
    munchName c (body ++ dollars ++ rest) = ⟨body.length + dollars.length,
      .token ((Keyword.ofSpelling? (String.ofList (c :: (body ++ dollars)))).elim
        (.ident (String.ofList (c :: (body ++ dollars)))) .keyword)⟩ := by
  simp only [munchName, List.append_assoc, takeWhile_run hbody hend, List.drop_left,
    takeWhile_run hdollars hrest, List.cons_append]
  cases Keyword.ofSpelling? (String.ofList (c :: (body ++ dollars))) <;> rfl

-- ---------------------------------------------------------------------------
-- What follows a lexeme
-- ---------------------------------------------------------------------------

/-- The lexeme of `c :: cs` does not reach beyond this text, and is the same in front of whatever ends
lexemes alike. -/
def IsCut (munch : List Char → Munch) (cs : List Char) : Prop :=
  (munch cs).extra ≤ cs.length ∧ ∀ after, EndsAlike (cs.drop (munch cs).extra).head? after →
    munch (cs.take (munch cs).extra ++ after) = munch cs

theorem IsCut.of_parts {munch : List Char → Munch} {m : Munch} (body : List Char) {rest : List Char}
    (h : ∀ after, EndsAlike rest.head? after → munch (body ++ after) = m) (hextra : m.extra = body.length) :
    IsCut munch (body ++ rest) := by
  have hm : munch (body ++ rest) = m := h rest (.refl rest)
  refine ⟨?_, fun after hafter => ?_⟩
  · rw [hm, hextra, List.length_append]
    exact Nat.le_add_right _ _
  · rw [hm, hextra, List.drop_left] at hafter
    rw [hm, hextra, List.take_left]
    exact h after hafter

theorem munchNumber_cut (c : Char) (cs : List Char) : IsCut (munchNumber c) cs := by
  obtain ⟨whole, rest, rfl, hwhole, hrest⟩ := exists_run isNumeral cs
  by_cases hpoint : ∃ behind, rest = '.' :: behind
  · obtain ⟨behind, rfl⟩ := hpoint
    obtain ⟨fraction, rest, rfl, hfraction, hrest⟩ := exists_run isNumeral behind
    rw [show whole ++ '.' :: (fraction ++ rest) = (whole ++ '.' :: fraction) ++ rest by simp]
    refine .of_parts _ (fun after hafter =>
      munchNumber_point c hwhole hfraction (hafter.stops hrest (by decide))) ?_
    rw [List.length_append, List.length_cons, Nat.add_assoc, Nat.add_comm 1]
  · have hother : ∀ d ∈ rest.head?, (d == '.') = false := by
      intro d hd
      rw [beq_eq_false_iff_ne]
      rintro rfl
      exact hpoint ⟨rest.tail, (List.cons_head?_tail hd).symm⟩
    refine .of_parts _ (fun after hafter => munchNumber_whole c hwhole fun d hd => ⟨?_, ?_⟩) rfl
    · exact hafter.stops hrest (by decide) d hd
    · simpa using hafter.stops hother (by decide) d hd

theorem munchName_cut (c : Char) (cs : List Char) : IsCut (munchName c) cs := by
  obtain ⟨body, behind, rfl, hbody, hend⟩ := exists_run isNameRest cs
  obtain ⟨dollars, rest, rfl, hdollars, hrest⟩ := exists_run (· == '$') behind
  rw [← List.append_assoc]
  refine .of_parts _ (fun after hafter =>
    munchName_run c hbody hdollars ?_ (hafter.stops hrest (by decide))) List.length_append.symm
  cases dollars with
  | nil => exact hafter.stops hend (by decide)
  | cons d dollars => exact hend

/-- A literal is closed where it was closed, whatever is written behind it. -/
theorem munchString_cut {quote : Char} {cs : List Char} {kind : TokenKind}
    (h : (munchString quote cs).lexeme = .token kind) : IsCut (munchString quote) cs := by
  unfold munchString at h
  cases hcook : cook quote cs with
  | none =>
    rw [hcook] at h
    cases h
  | some r =>
    obtain ⟨text, n⟩ := r
    obtain ⟨hle, hmore⟩ := cook_cut hcook
    refine ⟨?_, fun after _ => ?_⟩
    · simpa only [munchString, hcook] using hle
    · simp only [munchString, hcook, hmore after]

/-- A text begins with a given character or not. -/
theorem head_cases (d : Char) (cs : List Char) :
    (∃ rest, cs = d :: rest) ∨ ∀ c ∈ cs.head?, (c == d) = false := by
  cases cs with
  | nil => exact .inr nofun
  | cons e es =>
    by_cases he : e = d
    · exact .inl ⟨es, by rw [he]⟩
    · refine .inr ?_
      rintro c ⟨⟩
      exact beq_eq_false_iff_ne.mpr he

theorem equals_cut {m m' : Munch} (hm : m.extra = 1) (hm' : m'.extra = 0) (cs : List Char) :
    IsCut (fun cs => match cs with | '=' :: _ => m | _ => m') cs := by
  obtain ⟨rest, rfl⟩ | hother := head_cases '=' cs
  · exact .of_parts ['='] (fun after _ => rfl) hm
  · refine .of_parts [] (fun after hafter => match_equals_other fun d hd => ?_) hm'
    simpa using hafter.stops hother (by decide) d hd

theorem arrow_cut {m m' m'' : Munch} (hm : m.extra = 2) (hm' : m'.extra = 1) (hm'' : m''.extra = 0)
    (cs : List Char) :
    IsCut (fun cs => match cs with | '=' :: '>' :: _ => m | '=' :: _ => m' | _ => m'') cs := by
  obtain ⟨behind, rfl⟩ | hother := head_cases '=' cs
  · obtain ⟨rest, rfl⟩ | hother := head_cases '>' behind
    · exact .of_parts ['=', '>'] (fun after _ => rfl) hm
    · refine .of_parts ['='] (fun after hafter => match_arrow_other fun d hd => ?_) hm'
      simpa using hafter.stops hother (by decide) d hd
  · refine .of_parts [] (fun after hafter => match_arrow_none fun d hd => ?_) hm''
    simpa using hafter.stops hother (by decide) d hd

theorem munchMark_cut (c : Char) (cs : List Char) : IsCut (munchMark c) cs := by
  have hone {m : Munch} (hm : m.extra = 0) : IsCut (fun _ => m) cs :=
    .of_parts [] (fun after _ => rfl) hm
  unfold munchMark
  dsimp only
  split
  case h_10 => exact arrow_cut rfl rfl rfl cs
  all_goals first
    | exact hone rfl
    | exact equals_cut rfl rfl cs

/-- A token is the same in front of whatever ends lexemes alike. -/
theorem munch_cut {c : Char} {cs : List Char} {kind : TokenKind} (h : (munch c cs).lexeme = .token kind) :
    IsCut (munch c) cs := by
  unfold munch at h ⊢
  split
  · next hlayout =>
    rw [if_pos hlayout] at h
    cases h
  split
  · next hlayout hcomment =>
    rw [if_neg hlayout, if_pos hcomment] at h
    cases h
  split
  · exact .of_parts [] (fun after _ => rfl) rfl
  split
  · exact munchNumber_cut c cs
  split
  · next hlayout hcomment heol hdigit hquote =>
    rw [if_neg hlayout, if_neg hcomment, if_neg heol, if_neg hdigit, if_pos hquote] at h
    exact munchString_cut h
  split
  · exact munchName_cut c cs
  · exact munchMark_cut c cs

-- ---------------------------------------------------------------------------
-- Whole texts
-- ---------------------------------------------------------------------------

/-- What is scanned where a token stands. -/
theorem scanFrom_munched {c : Char} {cs rest : List Char} {kind : TokenKind}
    (h : munch c (cs ++ rest) = ⟨cs.length, .token kind⟩) (p : Position) :
    scanFrom p (c :: (cs ++ rest)) = { scanFrom (p.after (c :: cs)) rest with
      tokens := ⟨kind, ⟨p.offset, (p.after (c :: cs)).offset⟩, p.line⟩ ::
        (scanFrom (p.after (c :: cs)) rest).tokens } := by
  rw [scanFrom]
  simp only [h, List.take_left, List.drop_left]

/-- Blanks are read one by one. -/
theorem scanFrom_layout {c : Char} (hc : isLayout c = true) (p : Position) (cs : List Char) :
    scanFrom p (c :: cs) = scanFrom (p.after [c]) cs := by
  have hrun (p : Position) (c : Char) (hc : isLayout c = true) (cs : List Char) :
      scanFrom p (c :: cs) = scanFrom (p.after (c :: cs.takeWhile isLayout)) (cs.dropWhile isLayout) := by
    rw [scanFrom]
    simp only [munch, if_pos hc, take_runLength, drop_runLength]
  rw [hrun p c hc]
  cases cs with
  | nil => rfl
  | cons d ds =>
    cases hd : isLayout d with
    | false => rw [List.takeWhile_cons_of_neg (by simp [hd]), List.dropWhile_cons_of_neg (by simp [hd])]
    | true =>
      rw [hrun (p.after [c]) d hd, after_append, List.takeWhile_cons_of_pos hd,
        List.dropWhile_cons_of_pos hd, List.singleton_append]

end Rill
