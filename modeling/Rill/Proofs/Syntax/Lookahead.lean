-- SUMMARY: Parsers put together from the moves of the cursor know nothing of the tokens they have not come to.
import Rill.Grammar.Statement

/-!
# One token of lookahead

`Alike p q` says that both parsers are put together from the same moves of the cursor, except that `q` may
have larger limits. A move looks at the current token only. So when a run of `p` neither runs out of a
limit nor gets to the end of its tokens, then `q` does the same whatever tokens follow: `Alike.agree`
compares the two runs on a sequence of tokens with a fence behind it, which no run passes unnoticed, and
on the same tokens with more in place of the fence.
-/

namespace Rill

open Parser

-- ---------------------------------------------------------------------------
-- Parsers of one shape
-- ---------------------------------------------------------------------------

/-- The parsers make the same moves, the second one perhaps with larger limits. -/
inductive Alike : {α : Type} → Parser α → Parser α → Prop
  | pure {α : Type} (a : α) : Alike (pure a) (pure a)
  | bind {α β : Type} {p q : Parser α} {f g : α → Parser β} :
    Alike p q → (∀ a, Alike (f a) (g a)) → Alike (p >>= f) (q >>= g)
  | advance : Alike advance advance
  | kind : Alike kind kind
  | here : Alike here here
  | siteFrom (start : Nat × Nat) : Alike (siteFrom start) (siteFrom start)
  | atStatementEnd : Alike Grammar.atStatementEnd Grammar.atStatementEnd
  | skip (p : Token → Bool) :
    Alike (fun c => skipWhile p (c.rest.length + 2) c) (fun c => skipWhile p (c.rest.length + 2) c)
  | fail {α : Type} (fault : ParseFault) : Alike (fail fault : Parser α) (fail fault)
  | expected {α : Type} (what : Expectation) (context : Context) :
    Alike (expected what context : Parser α) (expected what context)
  | exhausted {α : Type} {q : Parser α} : Alike q q → Alike (fail .nestedTooDeeply) q

namespace Alike

variable {α β : Type} {p q : Parser α}

theorem right (h : Alike p q) : Alike q q := by
  induction h with
  | bind _ _ ihp ihf => exact .bind ihp ihf
  | exhausted hq => exact hq
  | _ => constructor

theorem ite {cond : Prop} [Decidable cond] {p' q' : Parser α} (h : Alike p q) (h' : Alike p' q') :
    Alike (if cond then p else p') (if cond then q else q') := by
  split
  · exact h
  · exact h'

/-- A check that fails at the current token. -/
theorem refuse {cond : Prop} [Decidable cond] {fault : ParseFault} (h : Alike p q) :
    Alike (if cond then (Parser.fail fault : Parser PUnit) >>= fun _ => p else p)
      (if cond then (Parser.fail fault : Parser PUnit) >>= fun _ => q else q) :=
  .ite (.bind (.fail _) fun _ => h) h

theorem map {f : α → β} (h : Alike p q) : Alike (f <$> p) (f <$> q) := by
  rw [map_eq_pure_bind, map_eq_pure_bind]
  exact .bind h fun _ => .pure _

/-- A loop or a recursion with a limit: with nothing left it fails, and each round is like a round with
another limit. `R` compares the parsers that the rounds use. -/
theorem rounds {σ ι : Type} {R : σ → σ → Prop} {F : σ → Nat → ι → Parser α} (hR : ∀ x y, R x y → R y y)
    (hzero : ∀ x i, F x 0 i = Parser.fail .nestedTooDeeply)
    (hround : ∀ x y n m, R x y → n ≤ m → (∀ i, Alike (F x n i) (F y m i)) →
      ∀ i, Alike (F x (n + 1) i) (F y (m + 1) i))
    {x y : σ} (hxy : R x y) {n m : Nat} (hle : n ≤ m) (i : ι) : Alike (F x n i) (F y m i) := by
  have hself (m : Nat) : ∀ i, Alike (F y m i) (F y m i) := by
    induction m with
    | zero =>
      intro i
      rw [hzero]
      exact .fail _
    | succ m ih => exact hround y y m m (hR x y hxy) (Nat.le_refl m) ih
  induction n generalizing m i with
  | zero =>
    rw [hzero]
    exact .exhausted (hself m i)
  | succ n ih =>
    cases m with
    | zero => exact absurd hle (Nat.not_succ_le_zero n)
    | succ m =>
      have hle := Nat.le_of_succ_le_succ hle
      exact hround x y n m hxy hle (ih hle) i

end Alike

-- ---------------------------------------------------------------------------
-- Runs among the tokens behind
-- ---------------------------------------------------------------------------

/-- The cursor is on one of the last tokens, behind which is `failure`. -/
def Cursor.Among (more : List Token) (failure : Option ScanError) (c : Cursor) : Prop :=
  c.token :: c.rest <:+ more ∧ c.failure = failure

/-- A run that comes to its end among the last tokens: it stops on one of them, or fails there or behind
them. -/
def Beyond (more : List Token) (failure : Option ScanError) : Except ParseError (α × Cursor) → Prop
  | .ok (_, c) => c.Among more failure
  | .error e => (∃ t ∈ more, e.span = t.span) ∨ ∃ f ∈ failure, e = .ofScan f

section

variable {more : List Token} {failure : Option ScanError} {c : Cursor}

namespace Cursor.Among

theorem mem (h : c.Among more failure) : c.token ∈ more := h.1.subset List.mem_cons_self

theorem advance (h : c.Among more failure) :
    match c.advance with
    | .ok c' => c'.Among more failure
    | .error e => ∃ f ∈ failure, e = .ofScan f := by
  obtain ⟨hsuffix, hfailure⟩ := h
  cases hrest : c.rest with
  | cons t rest =>
    rw [hrest] at hsuffix
    simp only [Cursor.advance, hrest]
    exact ⟨(List.suffix_cons _ _).trans hsuffix, hfailure⟩
  | nil =>
    rw [hrest] at hsuffix
    cases hf : c.failure with
    | none =>
      simp only [Cursor.advance, hrest, hf]
      exact ⟨hsuffix, hf.symm.trans hfailure⟩
    | some f =>
      simp only [Cursor.advance, hrest, hf]
      exact ⟨f, by rw [← hfailure, hf]; rfl, rfl⟩

theorem fails {fault : ParseFault} (h : c.Among more failure) :
    Beyond more failure (fail fault c : Except ParseError (α × Cursor)) :=
  .inl ⟨c.token, h.mem, rfl⟩

theorem skipWhile (h : c.Among more failure) (p : Token → Bool) (limit : Nat) :
    Beyond more failure (skipWhile p limit c) := by
  induction limit generalizing c with
  | zero => exact h.fails
  | succ limit ih =>
    unfold Parser.skipWhile
    split
    · have hadvance := h.advance
      cases hc : c.advance with
      | ok c' =>
        rw [hc] at hadvance
        exact ih hadvance
      | error e =>
        rw [hc] at hadvance
        exact .inr hadvance
    · exact h

end Cursor.Among

theorem Beyond.bind {α β : Type} {p : Parser α} {f : α → Parser β} (hp : Beyond more failure (p c))
    (hf : ∀ a c', c'.Among more failure → Beyond more failure (f a c')) :
    Beyond more failure ((p >>= f) c) := by
  simp only [Bind.bind, StateT.bind, Except.bind]
  cases hr : p c with
  | ok r =>
    rw [hr] at hp
    exact hf _ _ hp
  | error e =>
    rw [hr] at hp
    exact hp

/-- A run among the last tokens stays there. -/
theorem Alike.stays {α : Type} {p q : Parser α} (h : Alike p q) (hc : c.Among more failure) :
    Beyond more failure (p c) := by
  induction h generalizing c with
  | pure | kind | here | siteFrom | atStatementEnd => exact hc
  | bind _ _ ihp ihf => exact .bind (ihp hc) fun a c' hc' => ihf a hc'
  | advance =>
    have hadvance := hc.advance
    unfold Parser.advance
    cases hc' : c.advance with
    | ok c' =>
      rw [hc'] at hadvance
      exact hadvance
    | error e =>
      rw [hc'] at hadvance
      exact .inr hadvance
  | skip p => exact hc.skipWhile p _
  | fail | expected => exact .inl ⟨c.token, hc.mem, rfl⟩
  | exhausted => exact .inl ⟨c.token, hc.mem, rfl⟩

-- ---------------------------------------------------------------------------
-- Runs on the same tokens
-- ---------------------------------------------------------------------------

/-- The cursor with more tokens in place of what is behind its last one. -/
def Cursor.extend (c : Cursor) (more : List Token) (failure : Option ScanError) : Cursor :=
  { c with rest := c.rest ++ more, failure := failure }

/-- How a run up to a fence compares with a run that has `more` tokens instead, and `failure` behind them:
they come to the same end, unless the first one stops at the fence or runs out of a limit. -/
inductive Agree {α : Type} (fence : ScanError) (more : List Token) (failure : Option ScanError) :
    Except ParseError (α × Cursor) → Except ParseError (α × Cursor) → Prop
  | done {a : α} {c : Cursor} : c.failure = some fence →
    Agree fence more failure (.ok (a, c)) (.ok (a, c.extend more failure))
  | failed {e : ParseError} : Agree fence more failure (.error e) (.error e)
  | stopped {r : Except ParseError (α × Cursor)} :
    ((more = [] → failure ≠ none) → Beyond more failure r) →
    Agree fence more failure (.error (.ofScan fence)) r
  | exhausted {e : ParseError} {r : Except ParseError (α × Cursor)} : e.fault = .nestedTooDeeply →
    Agree fence more failure (.error e) r

/-- Passing the last token before the fence: the other run comes to the tokens behind, or ends there. -/
theorem Cursor.extend_advance (hrest : c.rest = []) (hmore : more = [] → failure ≠ none) :
    match (c.extend more failure).advance with
    | .ok c' => c'.Among more failure
    | .error e => ∃ f ∈ failure, e = .ofScan f := by
  have hextend : (c.extend more failure).rest = more := by simp [Cursor.extend, hrest]
  cases more with
  | cons t more =>
    simp only [Cursor.advance, hextend]
    exact ⟨List.suffix_refl _, rfl⟩
  | nil =>
    cases failure with
    | none => exact absurd rfl (hmore rfl)
    | some f =>
      simp only [Cursor.advance, hextend]
      exact ⟨f, rfl, rfl⟩

namespace Agree

variable {fence : ScanError}

theorem bind {α β : Type} {p q : Parser α} {f g : α → Parser β} {c d : Cursor}
    (hp : Agree fence more failure (p c) (q d))
    (hf : ∀ a c', c'.failure = some fence → Agree fence more failure (f a c') (g a (c'.extend more failure)))
    (hg : ∀ a c', c'.Among more failure → Beyond more failure (g a c')) :
    Agree fence more failure ((p >>= f) c) ((q >>= g) d) := by
  have hbeyond (hr : Beyond more failure (q d)) : Beyond more failure ((q >>= g) d) := hr.bind hg
  simp only [Bind.bind, StateT.bind, Except.bind] at hbeyond ⊢
  generalize p c = r, q d = r' at hp hbeyond
  cases hp with
  | done hfence => exact hf _ _ hfence
  | failed => exact .failed
  | stopped hr => exact .stopped fun hmore => hbeyond (hr hmore)
  | exhausted he => exact .exhausted he

theorem skipWhile (hc : c.failure = some fence) (p : Token → Bool) {n m : Nat} (hle : n ≤ m) :
    Agree fence more failure (skipWhile p n c) (skipWhile p m (c.extend more failure)) := by
  induction n generalizing c m with
  | zero => exact .exhausted rfl
  | succ n ih =>
    cases m with
    | zero => exact absurd hle (Nat.not_succ_le_zero n)
    | succ m =>
      unfold Parser.skipWhile
      change Agree fence more failure _ (if p c.token = true then _ else _)
      split
      · cases hrest : c.rest with
        | cons t rest =>
          simp only [Cursor.advance, Cursor.extend, hrest, List.cons_append]
          refine ih ?_ (Nat.le_of_succ_le_succ hle)
          exact hc
        | nil =>
          simp only [show c.advance = .error (.ofScan fence) by simp only [Cursor.advance, hrest, hc]]
          refine .stopped fun hmore => ?_
          have hadvance := Cursor.extend_advance hrest hmore
          split
          · next c' hc' =>
            rw [hc'] at hadvance
            exact hadvance.skipWhile p m
          · next e he =>
            rw [he] at hadvance
            exact .inr hadvance
      · exact .done hc

end Agree

/-- What a run does on tokens with a fence behind them, a run of a like parser does on the same tokens with
more behind them: it comes to the same result or the same error. -/
theorem Alike.agree {α : Type} {p q : Parser α} (h : Alike p q) {fence : ScanError} (hc : c.failure = some fence)
    (more : List Token) (failure : Option ScanError) :
    Agree fence more failure (p c) (q (c.extend more failure)) := by
  induction h generalizing c with
  | pure | kind | here | siteFrom | atStatementEnd => exact .done hc
  | bind _ hf ihp ihf => exact .bind (ihp hc) (fun a c' hc' => ihf a hc') fun a c' hc' => (hf a).right.stays hc'
  | advance =>
    unfold Parser.advance
    cases hrest : c.rest with
    | cons t rest =>
      simp only [Cursor.advance, Cursor.extend, hrest, List.cons_append]
      exact .done hc
    | nil =>
      simp only [show c.advance = .error (.ofScan fence) by simp only [Cursor.advance, hrest, hc]]
      refine .stopped fun hmore => ?_
      have hadvance := Cursor.extend_advance hrest hmore
      cases hc' : (c.extend more failure).advance with
      | ok c' =>
        rw [hc'] at hadvance
        exact hadvance
      | error e =>
        rw [hc'] at hadvance
        exact .inr hadvance
  | skip p =>
    refine .skipWhile hc p ?_
    simp only [Cursor.extend, List.length_append]
    exact Nat.add_le_add_right (Nat.le_add_right _ _) 2
  | fail | expected => exact .failed
  | exhausted => exact .exhausted rfl

end

end Rill
