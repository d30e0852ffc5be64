-- SUMMARY: What a parser makes of a sequence of tokens whose names can all be spelled.
import Rill.Grammar.Statement
import Rill.Proofs.Syntax.Proper

/-!
# What parsers yield

`Yields p Q` is a partial correctness triple with a fixed invariant: started on a cursor that has only
names a text can spell, `p` leaves such a cursor and a result with `Q`, if it succeeds. The rules follow
the monad; the scanner establishes the invariant.
-/

namespace Rill

-- ---------------------------------------------------------------------------
-- Named cursors
-- ---------------------------------------------------------------------------

/-- A name in this kind of token can be spelled. -/
def TokenKind.Named (k : TokenKind) : Prop := ∀ name, k = .ident name → IsName name

/-- The names at a cursor and after it can be spelled. -/
def Cursor.Named (c : Cursor) : Prop := c.token.kind.Named ∧ ∀ t ∈ c.rest, t.kind.Named

theorem Cursor.Named.advance {c c' : Cursor} (hc : c.Named) (h : c.advance = .ok c') : c'.Named := by
  obtain ⟨token, rest, failure, prevEnd⟩ := c
  obtain ⟨htoken, hrest⟩ := hc
  cases rest with
  | cons t rest =>
    simp only [Cursor.advance, Except.ok.injEq] at h
    subst h
    exact ⟨hrest t List.mem_cons_self, fun u hu => hrest u (List.mem_cons_of_mem _ hu)⟩
  | nil =>
    cases failure with
    | none =>
      simp only [Cursor.advance, Except.ok.injEq] at h
      subst h
      exact ⟨htoken, hrest⟩
    | some e => simp only [Cursor.advance, reduceCtorEq] at h

-- ---------------------------------------------------------------------------
-- The monad
-- ---------------------------------------------------------------------------

/-- What `p` leaves of a cursor with proper names: a result with `Q`, and again such a cursor. -/
def Yields (p : Parser α) (Q : α → Prop) : Prop :=
  ∀ c a c', c.Named → p c = .ok (a, c') → Q a ∧ c'.Named

namespace Parser

theorem bind_ok {p : Parser α} {f : α → Parser β} {c c' : Cursor} {b : β}
    (h : (p >>= f) c = .ok (b, c')) : ∃ a c₁, p c = .ok (a, c₁) ∧ f a c₁ = .ok (b, c') := by
  simp only [bind, StateT.bind, Except.bind] at h
  split at h
  · exact absurd h (by simp)
  · next r hr => exact ⟨r.1, r.2, hr, h⟩

theorem pure_ok {a b : α} {c c' : Cursor} (h : (pure a : Parser α) c = .ok (b, c')) :
    a = b ∧ c = c' := by
  have h : (Except.ok (a, c) : Except ParseError (α × Cursor)) = .ok (b, c') := h
  simpa using h

theorem refuse_ok {cond : Prop} [Decidable cond] {fault : ParseFault} {q : Parser α} {c c' : Cursor}
    {a : α} (h : (if cond then (fail fault : Parser PUnit) >>= fun _ => q else q) c = .ok (a, c')) :
    ¬cond ∧ q c = .ok (a, c') := by
  split at h
  · obtain ⟨_, _, hfail, _⟩ := bind_ok h
    simp only [fail, reduceCtorEq] at hfail
  · next hcond => exact ⟨hcond, h⟩

theorem accept_ok {k : TokenKind} {c c' : Cursor} (h : accept k c = .ok (true, c')) :
    c.token.kind = k := by
  obtain ⟨kind', c₁, hkind, h⟩ := bind_ok h
  simp only [kind, Except.ok.injEq, Prod.mk.injEq] at hkind
  obtain ⟨rfl, rfl⟩ := hkind
  split at h
  · next hk => exact hk
  · exact absurd (pure_ok h).1 (by simp)

theorem expect_ok {k : TokenKind} {context : Context} {u : Unit} {c c' : Cursor}
    (h : expect k context c = .ok (u, c')) : c.token.kind = k := by
  obtain ⟨found, c₁, hfound, h⟩ := bind_ok h
  cases found with
  | true => exact accept_ok hfound
  | false => exact absurd h (by simp [expected])

end Parser

namespace Yields

variable {p : Parser α} {f : α → Parser β} {P : α → Prop} {Q : β → Prop}

protected theorem pure {b : β} (h : Q b) : Yields (pure b : Parser β) Q := by
  intro c a c' hc hp
  obtain ⟨rfl, rfl⟩ := Parser.pure_ok hp
  exact ⟨h, hc⟩

protected theorem bind (hp : Yields p P) (hf : ∀ a, P a → Yields (f a) Q) : Yields (p >>= f) Q := by
  intro c b c' hc h
  obtain ⟨a, c₁, ha, hb⟩ := Parser.bind_ok h
  obtain ⟨hPa, hc₁⟩ := hp c a c₁ hc ha
  exact hf a hPa c₁ b c' hc₁ hb

/-- A step whose result does not matter. -/
theorem step (hp : Yields p P) (hf : ∀ a, Yields (f a) Q) : Yields (p >>= f) Q :=
  hp.bind fun a _ => hf a

protected theorem map {g : α → β} (hp : Yields p P) (h : ∀ a, P a → Q (g a)) : Yields (g <$> p) Q := by
  rw [map_eq_pure_bind]
  exact hp.bind fun a ha => .pure (h a ha)

protected theorem ite {cond : Prop} [Decidable cond] {q q' : Parser β} (hq : cond → Yields q Q)
    (hq' : ¬cond → Yields q' Q) : Yields (if cond then q else q') Q := by
  split
  · next h => exact hq h
  · next h => exact hq' h

/-- Two ways to one result, after which `f` goes on. -/
theorem join {cond : Prop} [Decidable cond] {q : Parser α} (hp : cond → Yields p P)
    (hq : ¬cond → Yields q P) (hf : ∀ a, P a → Yields (f a) Q) :
    Yields (if cond then p >>= f else q >>= f) Q :=
  .ite (fun h => (hp h).bind hf) (fun h => (hq h).bind hf)

end Yields

-- ---------------------------------------------------------------------------
-- Basic moves
-- ---------------------------------------------------------------------------

namespace Parser

variable {Q : α → Prop}

theorem fail_yields (fault : ParseFault) : Yields (fail fault : Parser α) Q := by
  intro c a c' _ h
  simp only [fail, reduceCtorEq] at h

theorem fail_bind_yields {fault : ParseFault} {f : β → Parser α} : Yields (fail fault >>= f) Q :=
  Yields.bind (P := fun _ => False) (fail_yields _) fun _ => False.elim

theorem expected_yields (what : Expectation) (context : Context) :
    Yields (expected what context : Parser α) Q := by
  intro c a c' _ h
  simp only [expected, reduceCtorEq] at h

theorem refuse_yields {cond : Prop} [Decidable cond] {fault : ParseFault} {q : Parser α}
    (hq : ¬cond → Yields q Q) :
    Yields (if cond then (fail fault : Parser PUnit) >>= fun _ => q else q) Q :=
  .ite (fun _ => fail_bind_yields) hq

theorem advance_yields : Yields advance fun _ => True := by
  intro c a c' hc h
  cases hadv : c.advance with
  | error e => simp only [advance, hadv, Except.map, reduceCtorEq] at h
  | ok c₁ =>
    simp only [advance, hadv, Except.map, Except.ok.injEq, Prod.mk.injEq, true_and] at h
    exact ⟨trivial, h ▸ hc.advance hadv⟩

theorem kind_yields : Yields kind TokenKind.Named := by
  intro c a c' hc h
  simp only [kind, Except.ok.injEq, Prod.mk.injEq] at h
  obtain ⟨rfl, rfl⟩ := h
  exact ⟨hc.1, hc⟩

theorem here_yields : Yields here fun _ => True := by
  intro c a c' hc h
  simp only [here, Except.ok.injEq, Prod.mk.injEq] at h
  exact ⟨trivial, h.2 ▸ hc⟩

theorem siteFrom_yields (start : Nat × Nat) : Yields (siteFrom start) fun _ => True := by
  intro c a c' hc h
  simp only [siteFrom, Except.ok.injEq, Prod.mk.injEq] at h
  exact ⟨trivial, h.2 ▸ hc⟩

theorem accept_yields (k : TokenKind) : Yields (accept k) fun _ => True :=
  kind_yields.step fun _ =>
    .ite (fun _ => advance_yields.step fun _ => .pure trivial) (fun _ => .pure trivial)

theorem acceptKw_yields (w : Keyword) : Yields (acceptKw w) fun _ => True := accept_yields _

theorem acceptMark_yields (m : Mark) : Yields (acceptMark m) fun _ => True := accept_yields _

theorem expect_yields (k : TokenKind) (context : Context) : Yields (expect k context) fun _ => True :=
  (accept_yields k).step fun _ => .ite (fun _ => expected_yields _ _) (fun _ => .pure trivial)

theorem expectKw_yields (w : Keyword) (context : Context) : Yields (expectKw w context) fun _ => True :=
  expect_yields _ _

theorem expectMark_yields (m : Mark) (context : Context) :
    Yields (expectMark m context) fun _ => True :=
  expect_yields _ _

theorem ident_yields (context : Context) : Yields (ident context) IsName := by
  refine kind_yields.bind fun k hk => ?_
  cases k with
  | ident name => exact advance_yields.step fun _ => .pure (hk name rfl)
  | _ => exact expected_yields _ _

theorem skipWhile_yields (p : Token → Bool) (limit : Nat) : Yields (skipWhile p limit) fun _ => True := by
  induction limit with
  | zero => exact fail_yields _
  | succ limit ih =>
    intro c a c' hc h
    simp only [skipWhile] at h
    split at h
    · cases hadv : c.advance with
      | error e => simp only [hadv, reduceCtorEq] at h
      | ok c₁ =>
        simp only [hadv] at h
        exact ih c₁ a c' (hc.advance hadv) h
    · simp only [Except.ok.injEq, Prod.mk.injEq, true_and] at h
      exact ⟨trivial, h ▸ hc⟩

theorem skipSeparators_yields : Yields skipSeparators fun _ => True :=
  fun c => skipWhile_yields Token.isSeparator _ c

theorem skipNewlines_yields : Yields skipNewlines fun _ => True :=
  fun c => skipWhile_yields (·.kind = .eol) _ c

end Parser

-- ---------------------------------------------------------------------------
-- Scanned texts
-- ---------------------------------------------------------------------------

theorem isNameStart_dollar : isNameStart '$' = false := by
  decide

theorem munchNumber_named {c : Char} {cs : List Char} {k : TokenKind}
    (h : (munchNumber c cs).lexeme = .token k) : k.Named := by
  simp only [munchNumber] at h
  intro name hk
  subst hk
  split at h <;> try split at h
  all_goals simp at h

/-- The first character of a name is no dollar sign. -/
theorem munchName_named {c : Char} {cs : List Char} {k : TokenKind} (hc : isNameStart c = true)
    (h : (munchName c cs).lexeme = .token k) : k.Named := by
  have hdollar : c ≠ '$' := by
    rintro rfl
    rw [isNameStart_dollar] at hc
    exact absurd hc (by decide)
  intro name hk
  subst hk
  simp only [munchName, Lexeme.token.injEq] at h
  split at h
  · exact absurd h (by simp)
  · simp only [TokenKind.ident.injEq] at h
    simpa only [← h, IsName, String.toList_ofList, List.cons_append, List.head?_cons, ne_eq,
      Option.some.injEq] using hdollar

theorem munchString_named {quote : Char} {cs : List Char} {k : TokenKind}
    (h : (munchString quote cs).lexeme = .token k) : k.Named := by
  intro name hk
  subst hk
  simp only [munchString] at h
  split at h <;> simp at h

theorem munchMark_named {c : Char} {cs : List Char} {k : TokenKind}
    (h : (munchMark c cs).lexeme = .token k) : k.Named := by
  intro name hk
  subst hk
  simp only [munchMark] at h
  repeat' split at h
  all_goals simp at h

theorem munch_named {c : Char} {cs : List Char} {k : TokenKind} (h : (munch c cs).lexeme = .token k) :
    k.Named := by
  simp only [munch] at h
  split at h
  · exact absurd h (by simp)
  split at h
  · exact absurd h (by simp)
  split at h
  · simp only [Lexeme.token.injEq] at h
    exact fun name hk => absurd (h.trans hk) (by simp)
  split at h
  · exact munchNumber_named h
  split at h
  · exact munchString_named h
  split at h
  · next hc => exact munchName_named hc h
  · exact munchMark_named h

theorem scanFrom_named (p : Position) (cs : List Char) : ∀ t ∈ (scanFrom p cs).tokens, t.kind.Named := by
  fun_induction scanFrom p cs with
  | case1 p => simp [TokenKind.Named]
  | case2 => simp
  | case3 p c cs m next hblank ih => exact ih
  | case4 p c cs m next span kind htoken rest ih =>
    intro t ht
    rcases List.mem_cons.mp ht with rfl | ht
    · exact munch_named htoken
    · exact ih t ht

theorem Cursor.start_named {source : String} {c : Cursor} (h : Cursor.start (scan source) = .ok c) :
    c.Named := by
  have hscan : ∀ t ∈ (scan source).tokens, t.kind.Named := scanFrom_named _ _
  simp only [Cursor.start] at h
  split at h
  · next t rest htokens =>
    simp only [Except.ok.injEq] at h
    subst h
    rw [htokens] at hscan
    exact ⟨hscan t List.mem_cons_self, fun u hu => hscan u (List.mem_cons_of_mem _ hu)⟩
  · simp only [reduceCtorEq] at h
  · simp only [Except.ok.injEq] at h
    subst h
    exact ⟨fun name hk => absurd hk (by simp), by simp⟩

end Rill
