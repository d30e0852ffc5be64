-- SUMMARY: Parsers that read given tokens and stop before the next.
import Rill.Proofs.Printing.Layers
import Rill.Grammar.Statement

/-!
# Reading given tokens

`Passes p ks F R`: where the tokens `ks` stand before a token with `F`, `p` reads them and what is left of
`p` has `R`. `Reads` is the case where a result is left. There is a rule for each move of the grammar; a
move that only looks at the next token asks what it meets there.
-/

namespace Rill

-- ---------------------------------------------------------------------------
-- Cursors before tokens
-- ---------------------------------------------------------------------------

/-- The cursor stands before these tokens, and no scanning error lies behind them. -/
def Cursor.Before (c : Cursor) (ks : List TokenKind) : Prop :=
  c.failure = none ∧ c.token.kind :: c.rest.map Token.kind = ks

theorem Cursor.Before.kind {c : Cursor} {k : TokenKind} {ks : List TokenKind} (h : c.Before (k :: ks)) :
    c.token.kind = k := by
  injection h.2

theorem Cursor.Before.advance {c : Cursor} {k k' : TokenKind} {ks : List TokenKind}
    (h : c.Before (k :: k' :: ks)) : ∃ c', c.advance = .ok c' ∧ c'.Before (k' :: ks) := by
  obtain ⟨token, rest, failure, prevEnd⟩ := c
  obtain ⟨hfailure, hahead⟩ := h
  simp only [List.cons.injEq] at hahead
  cases rest with
  | nil => simp at hahead
  | cons t rest => exact ⟨_, rfl, hfailure, hahead.2⟩

-- ---------------------------------------------------------------------------
-- Passing tokens
-- ---------------------------------------------------------------------------

/-- Where `ks` stand before a token with `F`, `p` reads them and goes on as a parser with `R`. -/
def Passes (p : Parser α) (ks : List TokenKind) (F : TokenKind → Prop) (R : Parser α → Prop) : Prop :=
  ∀ c next more, c.Before (ks ++ next :: more) → F next →
    ∃ q c', p c = q c' ∧ c'.Before (next :: more) ∧ R q

/-- What is left of a parser that has a result with `Q`. -/
def Done (Q : α → Prop) (q : Parser α) : Prop := ∃ a, q = pure a ∧ Q a

/-- Where `ks` stand before a token with `F`, `p` reads them and has a result with `Q`. -/
abbrev Reads (p : Parser α) (ks : List TokenKind) (F : TokenKind → Prop) (Q : α → Prop) : Prop :=
  Passes p ks F (Done Q)

/-- The first of the tokens has `G`; if there is none, every token with `F` has. -/
def Meets (ks : List TokenKind) (F G : TokenKind → Prop) : Prop :=
  match ks with
  | [] => ∀ k, F k → G k
  | k :: _ => G k

theorem Meets.first {ks : List TokenKind} {F G : TokenKind → Prop} {next : TokenKind}
    (h : Meets ks F G) (hnext : F next) (more : List TokenKind) :
    ∃ k rest, ks ++ next :: more = k :: rest ∧ G k := by
  cases ks with
  | nil => exact ⟨next, more, rfl, h next hnext⟩
  | cons k ks => exact ⟨k, ks ++ next :: more, rfl, h⟩

/-- There is a first token, and it has `G`. -/
def Opens (ks : List TokenKind) (G : TokenKind → Prop) : Prop := ∃ k rest, ks = k :: rest ∧ G k

theorem Opens.cons {k : TokenKind} {ks : List TokenKind} {G : TokenKind → Prop} (h : G k) :
    Opens (k :: ks) G :=
  ⟨k, ks, rfl, h⟩

theorem Opens.mono {ks : List TokenKind} {G G' : TokenKind → Prop} (h : Opens ks G)
    (hG : ∀ k, G k → G' k) : Opens ks G' := by
  obtain ⟨k, rest, rfl, hk⟩ := h
  exact .cons (hG k hk)

theorem Opens.append {ks ls : List TokenKind} {G : TokenKind → Prop} (h : Opens ks G) :
    Opens (ks ++ ls) G := by
  obtain ⟨k, rest, rfl, hk⟩ := h
  exact .cons hk

theorem Opens.meets {ks : List TokenKind} {F G : TokenKind → Prop} (h : Opens ks G) : Meets ks F G := by
  obtain ⟨k, rest, rfl, hk⟩ := h
  exact hk

theorem Opens.length_pos {ks : List TokenKind} {G : TokenKind → Prop} (h : Opens ks G) :
    0 < ks.length := by
  obtain ⟨k, rest, rfl, -⟩ := h
  simp

namespace Passes

variable {p q : Parser α} {ks ls : List TokenKind} {F G : TokenKind → Prop} {R S : Parser α → Prop}

theorem refl (h : R p) : Passes p [] F R := by
  intro c next more hc hnext
  exact ⟨p, c, rfl, hc, h⟩

theorem mono (h : Passes p ks G R) (hF : ∀ k, F k → G k) (hR : ∀ q, R q → S q) : Passes p ks F S := by
  intro c next more hc hnext
  obtain ⟨q, c', hp, hc', hq⟩ := h c next more hc (hF next hnext)
  exact ⟨q, c', hp, hc', hR q hq⟩

theorem trans (h : Passes p ks G R) (hmeets : Meets ls F G) (hrest : ∀ q, R q → Passes q ls F S) :
    Passes p (ks ++ ls) F S := by
  intro c next more hc hnext
  rw [List.append_assoc] at hc
  obtain ⟨k, rest, hls, hk⟩ := hmeets.first hnext more
  obtain ⟨q, c₁, hp, hc₁, hq⟩ := h c k rest (hls ▸ hc) hk
  obtain ⟨q', c', hq', hc', hR⟩ := hrest q hq c₁ next more (hls ▸ hc₁) hnext
  exact ⟨q', c', hp.trans hq', hc', hR⟩

/-- What is left after the last token. -/
theorem finish (h : Passes p ks F R) (hrest : ∀ q, R q → Passes q [] F S) : Passes p ks F S := by
  have hmeets : Meets [] F F := fun _ hk => hk
  have hall := h.trans hmeets hrest
  rwa [List.append_nil] at hall

/-- After the tokens of `p`, its continuation is left. -/
theorem step {p : Parser β} {f : β → Parser α} {P : β → Prop} (h : Reads p ks F P) :
    Passes (p >>= f) ks F fun q => ∃ a, q = f a ∧ P a := by
  intro c next more hc hnext
  obtain ⟨q, c', hp, hc', a, rfl, ha⟩ := h c next more hc hnext
  exact ⟨f a, c', by simp only [Bind.bind, StateT.bind, hp]; rfl, hc', a, rfl, ha⟩

theorem bind {p : Parser β} {f : β → Parser α} {P : β → Prop} (h : Reads p ks G P)
    (hmeets : Meets ls F G) (hrest : ∀ a, P a → Passes (f a) ls F R) :
    Passes (p >>= f) (ks ++ ls) F R := by
  refine h.step.trans hmeets ?_
  rintro q ⟨a, rfl, ha⟩
  exact hrest a ha

/-- All tokens are read by the first parser. -/
theorem last {p : Parser β} {f : β → Parser α} {P : β → Prop} (h : Reads p ks F P)
    (hrest : ∀ a, P a → Passes (f a) [] F R) : Passes (p >>= f) ks F R := by
  refine h.step.finish ?_
  rintro q ⟨a, rfl, ha⟩
  exact hrest a ha

theorem result {a : α} {Q : α → Prop} (h : Q a) : Reads (pure a) [] F Q := refl ⟨a, rfl, h⟩

-- ---------------------------------------------------------------------------
-- Moves of the grammar
-- ---------------------------------------------------------------------------

open Parser

theorem atHere {f : Nat × Nat → Parser α} (h : ∀ start, Passes (f start) ks F R) :
    Passes (here >>= f) ks F R :=
  fun c => h (c.token.line, c.token.span.start) c

theorem atSite {start : Nat × Nat} {f : Site → Parser α} (h : ∀ site, Passes (f site) ks F R) :
    Passes (siteFrom start >>= f) ks F R :=
  fun c => h ⟨start.1, ⟨start.2, max c.prevEnd start.2⟩⟩ c

theorem kindIs {f : TokenKind → Parser α} {k : TokenKind} (h : Passes (f k) (k :: ks) F R) :
    Passes (kind >>= f) (k :: ks) F R := by
  intro c next more hc hnext
  have hkind : (kind >>= f) c = f k c := by
    rw [← Cursor.Before.kind hc]
    rfl
  rw [hkind]
  exact h c next more hc hnext

theorem kindOf {f : TokenKind → Parser α} (hmeets : Meets ks F G) (h : ∀ k, G k → Passes (f k) ks F R) :
    Passes (kind >>= f) ks F R := by
  intro c next more hc hnext
  obtain ⟨k, rest, hks, hk⟩ := hmeets.first hnext more
  have hfirst : c.Before (k :: rest) := hks ▸ hc
  have hkind : (kind >>= f) c = f k c := by
    rw [← hfirst.kind]
    rfl
  rw [hkind]
  exact h k hk c next more hc hnext

/-- All tokens have been read. -/
theorem kindNext {f : TokenKind → Parser α} (h : ∀ k, F k → Passes (f k) [] F R) :
    Passes (kind >>= f) [] F R :=
  kindOf (fun _ hk => hk) h

theorem advance {f : Unit → Parser α} {k : TokenKind} (h : Passes (f ()) ks F R) :
    Passes (Parser.advance >>= f) (k :: ks) F R := by
  intro c next more hc hnext
  obtain ⟨k', rest, hks⟩ : ∃ k' rest, ks ++ next :: more = k' :: rest :=
    List.exists_cons_of_ne_nil (by simp)
  rw [List.cons_append, hks] at hc
  obtain ⟨c₁, hadvance, hc₁⟩ := hc.advance
  have hstep : (Parser.advance >>= f) c = f () c₁ := by
    simp only [Bind.bind, StateT.bind, Parser.advance, hadvance, Except.map, Except.bind]
  rw [hstep]
  exact h c₁ next more (hks ▸ hc₁) hnext

theorem acceptBind {f : Bool → Parser α} {k : TokenKind} (h : Passes (f true) ks F R) :
    Passes (accept k >>= f) (k :: ks) F R := by
  simp only [accept, bind_assoc]
  refine kindIs ?_
  simp only [if_true, bind_assoc]
  exact advance (by simpa only [pure_bind] using h)

theorem refuseBind {f : Bool → Parser α} {k : TokenKind} (hmeets : Meets ks F (· ≠ k))
    (h : Passes (f false) ks F R) : Passes (accept k >>= f) ks F R := by
  simp only [accept, bind_assoc]
  refine kindOf hmeets fun k' hk' => ?_
  simpa only [if_neg hk', pure_bind] using h

/-- The wanted token is there, and it is read. -/
theorem accepted {k : TokenKind} (h : Passes p ks F R) :
    Passes (accept k >>= fun b => if b = true then p else q) (k :: ks) F R :=
  acceptBind (by simpa only [if_true] using h)

/-- Another token is there. -/
theorem refused {k : TokenKind} (hmeets : Meets ks F (· ≠ k)) (h : Passes q ks F R) :
    Passes (accept k >>= fun b => if b = true then p else q) ks F R :=
  refuseBind hmeets (by simpa only [Bool.false_eq_true, if_false] using h)

theorem expect {f : Unit → Parser α} {k : TokenKind} {context : Context} (h : Passes (f ()) ks F R) :
    Passes (Parser.expect k context >>= f) (k :: ks) F R := by
  simp only [Parser.expect, bind_assoc]
  exact acceptBind (by simpa only [Bool.not_true, Bool.false_eq_true, if_false, pure_bind] using h)

theorem ident {f : String → Parser α} {name : String} {context : Context}
    (h : Passes (f name) ks F R) : Passes (Parser.ident context >>= f) (.ident name :: ks) F R := by
  simp only [Parser.ident, bind_assoc]
  refine kindIs ?_
  simp only [bind_assoc]
  exact advance (by simpa only [pure_bind] using h)

theorem skipWhile_none {skipped : Token → Bool} {c : Cursor} (h : skipped c.token = false) (limit : Nat)
    (f : Unit → Parser α) : ((fun c => skipWhile skipped (limit + 1) c) >>= f) c = f () c := by
  simp only [Bind.bind, StateT.bind, skipWhile, h, Bool.false_eq_true, if_false, Except.bind]

/-- No line ends are there to be skipped. -/
theorem skipNewlines {f : Unit → Parser α} (hmeets : Meets ks F (· ≠ .eol)) (h : Passes (f ()) ks F R) :
    Passes (Parser.skipNewlines >>= f) ks F R := by
  intro c next more hc hnext
  obtain ⟨k, rest, hks, hk⟩ := hmeets.first hnext more
  have hfirst : c.Before (k :: rest) := hks ▸ hc
  have hno : decide (c.token.kind = .eol) = false := by
    rw [hfirst.kind]
    exact decide_eq_false hk
  have hstep : (Parser.skipNewlines >>= f) c = f () c := skipWhile_none hno _ f
  rw [hstep]
  exact h c next more hc hnext

/-- No separators are there to be skipped. -/
theorem skipSeparators {f : Unit → Parser α}
    (hmeets : Meets ks F fun k => k ≠ .eol ∧ k ≠ .mark .semicolon) (h : Passes (f ()) ks F R) :
    Passes (Parser.skipSeparators >>= f) ks F R := by
  intro c next more hc hnext
  obtain ⟨k, rest, hks, hline, hsemicolon⟩ := hmeets.first hnext more
  have hfirst : c.Before (k :: rest) := hks ▸ hc
  have hno : c.token.isSeparator = false := by
    rw [Token.isSeparator, hfirst.kind]
    split
    · exact absurd rfl hline
    · exact absurd rfl hsemicolon
    · rfl
  have hstep : (Parser.skipSeparators >>= f) c = f () c := skipWhile_none hno _ f
  rw [hstep]
  exact h c next more hc hnext

end Passes

end Rill
