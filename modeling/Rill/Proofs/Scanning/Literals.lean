-- SUMMARY: String literals: every text has one, and a literal without a closing quote is an error.
import Mathlib.Data.List.DropRight
import Rill.Proofs.Scanning.Lexemes

/-!
# String literals

A literal spells a text when a backslash stands before each backslash and each of its quotes; control
characters may be spelled by their escapes. `cook` finds the text again, up to the first quote that an even
number of backslashes stands before. If there is no such quote the literal goes on to the end of the source.
-/

namespace Rill

/-- The letters that escape control characters. -/
def controlEscapes : List (Char × Char) :=
  [('n', '\n'), ('t', '\t'), ('r', '\r'), ('v', '\x0b'), ('a', '\x07'), ('b', '\x08'), ('f', '\x0c')]

/-- A text with a backslash before each backslash and each quote. -/
def backslashed (quote : Char) (text : List Char) : List Char :=
  text.flatMap fun c => if c = quote ∨ c = '\\' then ['\\', c] else [c]

/-- What is between the quotes of a literal spells a text. -/
inductive Spells (quote : Char) : List Char → List Char → Prop
  | nil : Spells quote [] []
  | plain {c : Char} {body text : List Char} : c ≠ quote → c ≠ '\\' → Spells quote body text →
      Spells quote (c :: body) (c :: text)
  | backslash {c : Char} {body text : List Char} : c = quote ∨ c = '\\' → Spells quote body text →
      Spells quote ('\\' :: c :: body) (c :: text)
  | control {e c : Char} {body text : List Char} : (e, c) ∈ controlEscapes → Spells quote body text →
      Spells quote ('\\' :: e :: body) (c :: text)

/-- The number of backslashes at the end of a text. -/
def trailingBackslashes (cs : List Char) : Nat := (cs.rtakeWhile (· == '\\')).length

/-- A quote that is not escaped, and so closes a literal. -/
def Closes (quote : Char) (cs : List Char) : Prop :=
  ∃ before after, cs = before ++ quote :: after ∧ trailingBackslashes before % 2 = 0

/-- Scanning a text comes to a place where a lexeme starts and `rest` is left. -/
inductive Leaves (text : List Char) : Position → List Char → Prop
  | start : Leaves text {} text
  | next {p : Position} {c : Char} {cs : List Char} : Leaves text p (c :: cs) →
      (∀ why, (munch c cs).lexeme ≠ .fault why) →
      Leaves text (p.after (c :: cs.take (munch c cs).extra)) (cs.drop (munch c cs).extra)

-- ---------------------------------------------------------------------------
-- Spelling a text
-- ---------------------------------------------------------------------------

section

variable {quote : Char} {cs body text : List Char}

theorem spells_backslashed (quote : Char) (text : List Char) : Spells quote (backslashed quote text) text := by
  induction text with
  | nil => exact .nil
  | cons c text ih =>
    by_cases hc : c = quote ∨ c = '\\'
    · have hbody : backslashed quote (c :: text) = '\\' :: c :: backslashed quote text := by
        simp [backslashed, hc]
      rw [hbody]
      exact .backslash hc ih
    · have hbody : backslashed quote (c :: text) = c :: backslashed quote text := by
        simp [backslashed, hc]
      obtain ⟨hquote, hslash⟩ := not_or.mp hc
      rw [hbody]
      exact .plain hquote hslash ih

theorem quote_ne_backslash (hquote : quote = '"' ∨ quote = '\'') : quote ≠ '\\' := by
  obtain rfl | rfl := hquote <;> decide

theorem escape_control {e c : Char} (h : (e, c) ∈ controlEscapes) : escape e = [c] := by
  have hall : ∀ pair ∈ controlEscapes, escape pair.1 = [pair.2] := by decide
  exact hall (e, c) h

theorem escape_backslash {c : Char} (hquote : quote = '"' ∨ quote = '\'') (h : c = quote ∨ c = '\\') :
    escape c = [c] := by
  obtain rfl | rfl := h
  · obtain rfl | rfl := hquote <;> rfl
  · rfl

theorem cook_escape (hquote : quote ≠ '\\') (e : Char) (cs : List Char) :
    cook quote ('\\' :: e :: cs) = (cook quote cs).map fun (text, n) => (escape e ++ text, n + 2) := by
  rw [cook.eq_def]
  simp only [if_neg hquote.symm, if_pos]

theorem cook_plain {c : Char} (hquote : c ≠ quote) (hslash : c ≠ '\\') (cs : List Char) :
    cook quote (c :: cs) = (cook quote cs).map fun (text, n) => (c :: text, n + 1) := by
  rw [cook.eq_def]
  simp only [if_neg hquote, if_neg hslash]

/-- The text of a literal is what it spells. -/
theorem cook_spelled (hquote : quote = '"' ∨ quote = '\'') (h : Spells quote body text) (rest : List Char) :
    cook quote (body ++ quote :: rest) = some (text, body.length + 1) := by
  have hslash := quote_ne_backslash hquote
  induction h with
  | nil => simp [cook.eq_def]
  | plain hc hc' _ ih => rw [List.cons_append, cook_plain hc hc', ih, List.length_cons]; rfl
  | backslash hc _ ih =>
    rw [List.cons_append, List.cons_append, cook_escape hslash, ih, escape_backslash hquote hc]; rfl
  | control hc _ ih =>
    rw [List.cons_append, List.cons_append, cook_escape hslash, ih, escape_control hc]; rfl

-- ---------------------------------------------------------------------------
-- Closing quotes
-- ---------------------------------------------------------------------------

theorem trailingBackslashes_concat (c : Char) (cs : List Char) :
    trailingBackslashes (cs ++ [c]) = if c = '\\' then trailingBackslashes cs + 1 else 0 := by
  rw [trailingBackslashes, List.rtakeWhile_concat]
  by_cases hc : c = '\\' <;> simp [hc, trailingBackslashes]

theorem trailingBackslashes_cons {c : Char} (hc : c ≠ '\\') (cs : List Char) :
    trailingBackslashes (c :: cs) = trailingBackslashes cs := by
  induction cs using List.reverseRecOn with
  | nil => exact (trailingBackslashes_concat c []).trans (if_neg hc)
  | append_singleton cs d ih =>
    rw [← List.cons_append, trailingBackslashes_concat, trailingBackslashes_concat, ih]

/-- A backslash and the character that it escapes do not escape what follows them. -/
theorem trailingBackslashes_pair (e : Char) (cs : List Char) :
    trailingBackslashes ('\\' :: e :: cs) % 2 = trailingBackslashes cs % 2 := by
  induction cs using List.reverseRecOn with
  | nil =>
    have hpair : trailingBackslashes ['\\', e] = if e = '\\' then 2 else 0 :=
      trailingBackslashes_concat e ['\\']
    rw [hpair]
    split <;> rfl
  | append_singleton cs d ih =>
    rw [← List.cons_append, ← List.cons_append, trailingBackslashes_concat, trailingBackslashes_concat]
    split
    · rw [Nat.add_mod, ih, ← Nat.add_mod]
    · rfl

theorem closes_plain {c : Char} (hquote : c ≠ quote) (hslash : c ≠ '\\') :
    Closes quote (c :: cs) ↔ Closes quote cs := by
  constructor
  · rintro ⟨_ | ⟨d, before⟩, after, hcs, heven⟩
    · exact absurd (List.cons.inj hcs).1 hquote
    · obtain ⟨rfl, rfl⟩ := List.cons.inj hcs
      rw [trailingBackslashes_cons hslash] at heven
      exact ⟨before, after, rfl, heven⟩
  · rintro ⟨before, after, rfl, heven⟩
    refine ⟨c :: before, after, rfl, ?_⟩
    rwa [trailingBackslashes_cons hslash]

theorem closes_escape (hquote : quote ≠ '\\') (e : Char) :
    Closes quote ('\\' :: e :: cs) ↔ Closes quote cs := by
  constructor
  · rintro ⟨_ | ⟨d, _ | ⟨d', before⟩⟩, after, hcs, heven⟩
    · exact absurd (List.cons.inj hcs).1.symm hquote
    · obtain ⟨rfl, -⟩ := List.cons.inj hcs
      exact absurd heven (by decide)
    · obtain ⟨rfl, hbehind⟩ := List.cons.inj hcs
      obtain ⟨rfl, rfl⟩ := List.cons.inj hbehind
      rw [trailingBackslashes_pair] at heven
      exact ⟨before, after, rfl, heven⟩
  · rintro ⟨before, after, rfl, heven⟩
    refine ⟨'\\' :: e :: before, after, rfl, ?_⟩
    rwa [trailingBackslashes_pair]

/-- A literal has a text if there is a quote that closes it. -/
theorem cook_isSome_iff (hquote : quote ≠ '\\') : (cook quote cs).isSome ↔ Closes quote cs := by
  fun_induction cook quote cs with
  | case1 =>
    refine ⟨by simp, ?_⟩
    rintro ⟨before, after, hcs, -⟩
    simp at hcs
  | case2 cs => exact ⟨fun _ => ⟨[], cs, rfl, rfl⟩, fun _ => rfl⟩
  | case3 =>
    refine ⟨by simp, ?_⟩
    rintro ⟨_ | ⟨d, before⟩, after, hcs, -⟩
    · exact absurd (List.cons.inj hcs).1.symm hquote
    · simp at hcs
  | case4 e rest _ ih => rw [Option.isSome_map, ih, closes_escape hquote]
  | case5 c cs hc hslash ih => rw [Option.isSome_map, ih, closes_plain hc hslash]

end

-- ---------------------------------------------------------------------------
-- Scanning
-- ---------------------------------------------------------------------------

section

variable {quote : Char} {cs body rest : List Char} {p : Position}

theorem munch_quote (hquote : quote = '"' ∨ quote = '\'') (cs : List Char) :
    munch quote cs = munchString quote cs := by
  obtain rfl | rfl := hquote <;> rfl

/-- A literal is one token, and what follows it is scanned behind it. -/
theorem scanFrom_spelled (hquote : quote = '"' ∨ quote = '\'') {text : String}
    (h : Spells quote body text.toList) (p : Position) (rest : List Char) :
    scanFrom p (quote :: (body ++ [quote] ++ rest)) =
      { scanFrom (p.after (quote :: (body ++ [quote]))) rest with
        tokens := ⟨.str text, ⟨p.offset, p.offset + byteLength (quote :: (body ++ [quote]))⟩, p.line⟩ ::
          (scanFrom (p.after (quote :: (body ++ [quote]))) rest).tokens } := by
  refine scanFrom_munched ?_ p
  rw [munch_quote hquote, munchString, List.append_assoc, List.singleton_append, cook_spelled hquote h]
  simp

/-- A literal that nothing closes is an error up to the end of the text. -/
theorem scanFrom_unclosed (hquote : quote = '"' ∨ quote = '\'') (h : ¬ Closes quote cs) (p : Position) :
    scanFrom p (quote :: cs) =
      ⟨[], some ⟨.unterminatedString, ⟨p.offset, (p.after (quote :: cs)).offset⟩, p.line⟩⟩ := by
  have hcook : cook quote cs = none := by
    rwa [← cook_isSome_iff (quote_ne_backslash hquote), Option.not_isSome_iff_eq_none] at h
  have hmunch : munch quote cs = ⟨cs.length, .fault .unterminatedString⟩ := by
    rw [munch_quote hquote, munchString, hcook]
  rw [scanFrom]
  simp only [hmunch, List.take_length]

/-- What is scanned of a text, up to a place and behind it. -/
theorem Leaves.scanned {text : List Char} (h : Leaves text p rest) :
    (∃ before gap last, Reached text before gap rest last p) ∧
      ∃ tokens, scanFrom {} text = ⟨tokens ++ (scanFrom p rest).tokens, (scanFrom p rest).error⟩ := by
  induction h with
  | start => exact ⟨⟨[], [], ⟨0, 0⟩, .start text⟩, [], rfl⟩
  | @next p c cs _ hfault ih =>
    obtain ⟨⟨before, gap, last, hreached⟩, tokens, hscan⟩ := ih
    rw [scanFrom] at hscan
    cases hlexeme : (munch c cs).lexeme with
    | blank =>
      simp only [hlexeme] at hscan
      exact ⟨⟨_, _, _, hreached.blank hlexeme⟩, tokens, hscan⟩
    | token kind =>
      simp only [hlexeme] at hscan
      rw [List.append_cons] at hscan
      exact ⟨⟨_, _, _, hreached.piece _⟩, _, hscan⟩
    | fault why => exact absurd hlexeme (hfault why)

/-- An opening quote is an error exactly if nothing closes it. -/
theorem Leaves.error_iff {text : List Char} (hquote : quote = '"' ∨ quote = '\'')
    (h : Leaves text p (quote :: cs)) :
    (scanFrom {} text).error = some ⟨.unterminatedString, ⟨p.offset, byteLength text⟩, p.line⟩ ↔
      ¬ Closes quote cs := by
  obtain ⟨⟨before, gap, last, hreached⟩, tokens, hscan⟩ := h.scanned
  rw [hscan]
  constructor
  · intro herror hcloses
    obtain ⟨⟨inner, n⟩, hcook⟩ :=
      Option.isSome_iff_exists.mp ((cook_isSome_iff (quote_ne_backslash hquote)).mpr hcloses)
    have hmunch : munch quote cs = ⟨n, .token (.str (String.ofList inner))⟩ := by
      rw [munch_quote hquote, munchString, hcook]
    have htiles := scanFrom_tiles (hreached.piece n)
    rw [scanFrom] at herror
    simp only [hmunch] at herror
    -- the error stands behind the literal, so it is not the literal
    have hbehind := (List.pairwise_cons.mp htiles.ordered).1 ⟨p.offset, byteLength text⟩
      (by simp [Scan.spans, herror])
    have hpos := byteLength_cons_pos quote (cs.take n)
    simp only [Position.after] at hbehind
    omega
  · intro hcloses
    have hstop : (p.after (quote :: cs)).offset = byteLength text := by
      rw [Position.after, hreached.offset_eq, hreached.parts, byteLength_append, byteLength_append]
    rw [scanFrom_unclosed hquote hcloses, hstop]

end

/-- Every text has literals. A literal is scanned as one token, with the text that it spells and its span, and
what follows it is scanned behind it. An opening quote that scanning comes to is an error, up to the end of
the source, exactly if no quote closes it. -/
theorem scan_literal {quote : Char} (hquote : quote = '"' ∨ quote = '\'') :
    (∀ text, Spells quote (backslashed quote text) text) ∧
    (∀ (text : String) (body : List Char), Spells quote body text.toList → ∀ (p : Position) (rest : List Char),
      scanFrom p (quote :: (body ++ [quote] ++ rest)) =
        { scanFrom (p.after (quote :: (body ++ [quote]))) rest with
          tokens := ⟨.str text, ⟨p.offset, p.offset + byteLength (quote :: (body ++ [quote]))⟩, p.line⟩ ::
            (scanFrom (p.after (quote :: (body ++ [quote]))) rest).tokens }) ∧
    ∀ (source : String) (p : Position) (cs : List Char), Leaves source.toList p (quote :: cs) →
      ((scan source).error =
          some ⟨.unterminatedString, ⟨p.offset, byteLength source.toList⟩, p.line⟩ ↔ ¬ Closes quote cs) := by
  refine ⟨spells_backslashed quote, fun text body hbody p rest => ?_, fun source p cs hplace => ?_⟩
  · exact scanFrom_spelled hquote hbody p rest
  · exact hplace.error_iff hquote

theorem scan_literal_escaped :
    ¬ Closes '\'' ['d', 'o', 'n', '\\', '\''] ∧
      (scan "'don\\'").error = some ⟨.unterminatedString, ⟨0, 6⟩, 1⟩ := by
  have hclosed : ¬ Closes '\'' ['d', 'o', 'n', '\\', '\''] := by
    rw [← cook_isSome_iff (by decide)]
    decide
  exact ⟨hclosed, ((scan_literal (.inr rfl)).2.2 "'don\\'" {} _ .start).mpr hclosed⟩

end Rill
