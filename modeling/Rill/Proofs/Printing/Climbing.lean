-- SUMMARY: What one layer of the grammar reads, the looser layers read too.
import Rill.Proofs.Printing.Brackets

/-!
# From layer to layer

The parser of a layer is the parser of the next tighter one and then a look at the next token. So it reads
what the tighter one reads, unless the next token joins on or the first token is a sign of its own.

Operators that associate to the left are read in a loop. A written operand leaves the parser of such a
layer in the middle of that loop, with some of its limit used; `Turns` says how much.
-/

namespace Rill

open Rill.Parser Rill.Grammar

-- ---------------------------------------------------------------------------
-- The parsers of the layers
-- ---------------------------------------------------------------------------

/-- What the grammar of expressions is given at one level of nesting. -/
structure Level where
  limit : Nat
  nested : Parser Expr
  body : Context → Parser Block

namespace Level

def accesses (l : Level) : Parser Expr := postfixExpr l.limit l.nested l.body

def powers (l : Level) : Parser Expr := power l.limit l.accesses

def products (l : Level) : Parser Expr := product l.limit (signed l.powers)

def sums (l : Level) : Parser Expr := sum l.limit l.products

def negations (l : Level) : Parser Expr := negation (comparison l.sums) l.limit

def conjunctions (l : Level) : Parser Expr := chainRight .andKw .conj l.negations l.limit

/-- The parser of a layer, for an expression that starts at `start`; `n` bounds its own loop. -/
def run (l : Level) (start : Nat × Nat) (n : Nat) : Layer → Parser Expr
  | .primary => primary l.limit l.nested
  | .access => do
    let head ← operandHead l.limit l.nested l.body
    postfixSteps l.nested start n head
  | .power => do
    let left ← l.accesses
    chainLeft powerOp? l.accesses start n left
  | .signed => signed l.powers
  | .product => do
    let left ← signed l.powers
    chainLeft productOp? (signed l.powers) start n left
  | .sum => do
    let left ← l.products
    if ← acceptMark .amp then
      let parts ← concatParts l.products n
      return .concat (← siteFrom start) (left :: parts)
    else
      chainLeft sumOp? l.products start n left
  | .concatenation => l.sums
  | .comparison => comparison l.sums
  | .negation => negation (comparison l.sums) n
  | .conjunction => chainRight .andKw .conj l.negations n
  | .disjunction => chainRight .orKw .disj l.conjunctions n
  | .conditional => conditional l.nested (chainRight .orKw .disj l.conjunctions l.limit)

/-- The loop of a layer after a left operand. The layers without a loop are done. -/
def loop (l : Level) (start : Nat × Nat) (n : Nat) (left : Expr) : Layer → Parser Expr
  | .access => postfixSteps l.nested start n left
  | .power => chainLeft powerOp? l.accesses start n left
  | .product => chainLeft productOp? (signed l.powers) start n left
  | .sum => chainLeft sumOp? l.products start n left
  | _ => pure left

/-- The parser of a layer. -/
def parser (l : Level) (n : Nat) : Layer → Parser Expr
  | .access => here >>= fun start => l.run start n .access
  | .power => here >>= fun start => l.run start n .power
  | .product => here >>= fun start => l.run start n .product
  | .sum => here >>= fun start => l.run start n .sum
  | place => l.run (0, 0) n place

theorem parser_conditional (l : Level) :
    l.parser l.limit .conditional = expressionWith l.limit l.nested l.body :=
  rfl

end Level

-- ---------------------------------------------------------------------------
-- Tokens between layers
-- ---------------------------------------------------------------------------

/-- An operand in the middle of a loop of this layer ends at the token. -/
def Layer.Pauses : Layer → TokenKind → Prop
  | .access, _ => True
  | .power, k => Layer.access.Ends k
  | .product, k => Layer.signed.Ends k
  | .sum, k => Layer.product.Ends k ∧ k ≠ .mark .amp
  | place, k => place.Ends k

theorem Layer.Ends.pauses {place : Layer} {k : TokenKind} (h : place.Ends k) : place.Pauses k := by
  cases place with
  | access => trivial
  | power => exact h.mono (by decide)
  | product => exact h.mono (by decide)
  | sum => exact ⟨h.mono (by decide), h.ne rfl (by decide)⟩
  | _ => exact h

theorem Layer.ends_primary (k : TokenKind) : Layer.primary.Ends k := by
  intro joined hjoined
  unfold TokenKind.joins at hjoined
  split at hjoined <;> simp only [Option.some.injEq, reduceCtorEq] at hjoined <;> subst hjoined <;> decide

theorem Layer.Pauses.tighter {place : Layer} {k : TokenKind} (h : place.Pauses k) :
    place.tighter.Ends k := by
  cases place with
  | access => exact Layer.ends_primary k
  | power => exact h
  | product => exact h
  | sum => exact h.1
  | _ => exact Layer.Ends.mono h (by decide)

/-- No sign of a looser layer. -/
structure Layer.Plain (place : Layer) (k : TokenKind) : Prop where
  negation : Layer.negation.rank < place.rank → k ≠ .keyword .notKw
  minus : Layer.signed.rank < place.rank → k ≠ .mark .minus
  ref : Layer.access.rank < place.rank → k ≠ .keyword .refKw
  function : Layer.access.rank < place.rank → k ≠ .keyword .functionKw

theorem Layer.Plain.mono {place place' : Layer} {k : TokenKind} (h : place.Plain k)
    (hrank : place'.rank ≤ place.rank) : place'.Plain k where
  negation hlt := h.negation (Nat.lt_of_lt_of_le hlt hrank)
  minus hlt := h.minus (Nat.lt_of_lt_of_le hlt hrank)
  ref hlt := h.ref (Nat.lt_of_lt_of_le hlt hrank)
  function hlt := h.function (Nat.lt_of_lt_of_le hlt hrank)

theorem TokenKind.Starts.plain {place : Layer} {k : TokenKind} (h : k.Starts place.rank) :
    place.Plain k where
  negation hlt := by
    rintro rfl
    exact Nat.not_lt.mpr h hlt
  minus hlt := by
    rintro rfl
    exact Nat.not_lt.mpr h hlt
  ref hlt := by
    rintro rfl
    exact absurd (Nat.lt_of_lt_of_le hlt h) (by decide)
  function _ := by
    rintro rfl
    exact h

-- ---------------------------------------------------------------------------
-- Leaving a loop
-- ---------------------------------------------------------------------------

variable {l : Level} {place : Layer} {ks : List TokenKind} {F : TokenKind → Prop} {e : Expr}

/-- The parser of the layer reads the tokens as `e` and is left in its loop, with a limit that has
dropped by less than the number of tokens. -/
def Level.Turns (l : Level) (place : Layer) (ks : List TokenKind) (F : TokenKind → Prop) (e : Expr) :
    Prop :=
  ∀ start n, ks.length ≤ n → Passes (l.run start n place) ks F fun q =>
    ∃ m e', q = l.loop start m e' place ∧ e'.bare = e.bare ∧ n < m + ks.length

theorem chainLeft_ends {op? : TokenKind → Option BinaryOp} {operand : Parser Expr} {start : Nat × Nat}
    {m : Nat} {Q : Expr → Prop} (hF : ∀ k, F k → op? k = none) (hm : 0 < m) (he : Q e) :
    Reads (chainLeft op? operand start m e) [] F Q := by
  obtain _ | m := m
  · exact absurd hm (Nat.lt_irrefl 0)
  rw [chainLeft]
  refine Passes.kindNext fun k hk => ?_
  rw [hF k hk]
  exact Passes.result he

theorem powerOp_ends {k : TokenKind} (h : Layer.power.Ends k) : powerOp? k = none := by
  unfold powerOp?
  split
  · exact absurd rfl (h.ne rfl (by decide))
  · rfl

theorem productOp_ends {k : TokenKind} (h : Layer.product.Ends k) : productOp? k = none := by
  unfold productOp?
  split
  iterate 3 · exact absurd rfl (h.ne rfl (by decide))
  · rfl

theorem sumOp_ends {k : TokenKind} (h : Layer.sum.Ends k) : sumOp? k = none := by
  unfold sumOp?
  split
  iterate 2 · exact absurd rfl (h.ne rfl (by decide))
  · rfl

theorem comparisonOp_ends {k : TokenKind} (h : Layer.comparison.Ends k) : comparisonOp? k = none := by
  unfold comparisonOp?
  split
  iterate 7 · exact absurd rfl (h.ne rfl (by decide))
  · rfl

/-- A loop ends where its layer ends. -/
theorem Level.loop_ends {start : Nat × Nat} {m : Nat} {Q : Expr → Prop} (hF : ∀ k, F k → place.Ends k)
    (hm : 0 < m) (he : Q e) : Reads (l.loop start m e place) [] F Q := by
  cases place with
  | access =>
    obtain _ | m := m
    · exact absurd hm (Nat.lt_irrefl 0)
    rw [Level.loop, postfixSteps]
    refine Passes.refused (fun k hk => (hF k hk).ne rfl (by decide)) ?_
    refine Passes.refused (fun k hk => (hF k hk).ne rfl (by decide)) ?_
    refine Passes.refused (fun k hk => (hF k hk).ne rfl (by decide)) ?_
    exact Passes.result he
  | power => exact chainLeft_ends (fun k hk => powerOp_ends (hF k hk)) hm he
  | product => exact chainLeft_ends (fun k hk => productOp_ends (hF k hk)) hm he
  | sum => exact chainLeft_ends (fun k hk => sumOp_ends (hF k hk)) hm he
  | _ => exact Passes.result he

theorem Level.Turns.run {n : Nat} (h : l.Turns place ks F e) (hF : ∀ k, F k → place.Ends k)
    (hn : ks.length ≤ n) (start : Nat × Nat) :
    Reads (l.run start n place) ks F fun e' => e'.bare = e.bare := by
  refine (h start n hn).finish ?_
  rintro q ⟨m, e', rfl, he', hm⟩
  exact Level.loop_ends hF (by omega) he'

/-- Where the layer ends, its loop is left. -/
theorem Level.Turns.reads {n : Nat} (h : l.Turns place ks F e) (hF : ∀ k, F k → place.Ends k)
    (hn : ks.length ≤ n) : Reads (l.parser n place) ks F fun e' => e'.bare = e.bare := by
  cases place with
  | access | power | product | sum => exact Passes.atHere fun start => h.run hF hn start
  | _ => exact h.run hF hn (0, 0)

/-- The loop goes on at the operators of its layer, and is left behind them. -/
theorem Level.Turns.ended {n : Nat} (h : l.Turns place ks place.Pauses e) (hn : ks.length ≤ n) :
    Reads (l.parser n place) ks place.Ends fun e' => e'.bare = e.bare := by
  have hends : l.Turns place ks place.Ends e := by
    intro start n hn
    exact (h start n hn).mono (fun _ hk => hk.pauses) fun _ hq => hq
  exact hends.reads (fun _ hk => hk) hn

-- ---------------------------------------------------------------------------
-- Entering a looser layer
-- ---------------------------------------------------------------------------

/-- A layer without a loop has nothing left. -/
theorem Level.turns_of_reads (hks : 0 < ks.length)
    (hloop : ∀ start n e', l.loop start n e' place = pure e')
    (h : ∀ start n, ks.length ≤ n → Reads (l.run start n place) ks F fun e' => e'.bare = e.bare) :
    l.Turns place ks F e := by
  intro start n hn
  refine (h start n hn).mono (fun _ hk => hk) ?_
  rintro q ⟨e', rfl, he'⟩
  exact ⟨n, e', (hloop start n e').symm, he', by omega⟩

/-- An operand is all that has been read. -/
theorem Level.turned {start : Nat × Nat} {n : Nat} {e' : Expr} {q : Parser Expr}
    (hq : q = l.loop start n e' place) (hks : 0 < ks.length) (he' : e'.bare = e.bare) :
    Passes q [] F fun q => ∃ m e', q = l.loop start m e' place ∧ e'.bare = e.bare ∧ n < m + ks.length :=
  Passes.refl ⟨n, e', hq, he', by omega⟩

/-- What the next tighter layer reads is an expression of a layer, up to its loop. -/
theorem Level.turns_of_tighter (hplace : place ≠ .primary)
    (h : Reads (l.parser l.limit place.tighter) ks F fun e' => e'.bare = e.bare)
    (hopens : Opens ks place.tighter.Plain) (hF : ∀ k, F k → place.Pauses k) :
    l.Turns place ks F e := by
  have hks := hopens.length_pos
  cases place with
  | primary => exact absurd rfl hplace
  | access =>
    intro start n hn
    have hhead : Reads (operandHead l.limit l.nested l.body) ks F fun e' => e'.bare = e.bare := by
      refine Passes.atHere fun _ => ?_
      refine Passes.refused (hopens.mono fun k hk => hk.ref (by decide)).meets ?_
      refine Passes.refused (hopens.mono fun k hk => hk.function (by decide)).meets ?_
      exact h
    exact Passes.last hhead fun e' he' => Level.turned rfl hks he'
  | power =>
    intro start n hn
    exact Passes.last h fun e' he' => Level.turned rfl hks he'
  | signed =>
    refine Level.turns_of_reads hks (fun _ _ _ => rfl) fun start n hn => ?_
    refine Passes.atHere fun _ => ?_
    refine Passes.refused (hopens.mono fun k hk => hk.minus (by decide)).meets ?_
    exact h
  | product =>
    intro start n hn
    exact Passes.last h fun e' he' => Level.turned rfl hks he'
  | sum =>
    intro start n hn
    refine Passes.last h fun e' he' => ?_
    refine Passes.refused (fun k hk => (hF k hk).2) ?_
    exact Level.turned rfl hks he'
  | concatenation =>
    exact Level.turns_of_reads hks (fun _ _ _ => rfl) fun start n hn => h
  | comparison =>
    refine Level.turns_of_reads hks (fun _ _ _ => rfl) fun start n hn => ?_
    refine Passes.atHere fun _ => ?_
    refine Passes.last h fun e' he' => ?_
    refine Passes.kindNext fun k hk => ?_
    rw [comparisonOp_ends (hF k hk)]
    exact Passes.result he'
  | negation =>
    refine Level.turns_of_reads hks (fun _ _ _ => rfl) fun start n hn => ?_
    obtain _ | n := n
    · omega
    rw [Level.run, negation]
    refine Passes.atHere fun _ => ?_
    refine Passes.refused (hopens.mono fun k hk => hk.negation (by decide)).meets ?_
    exact h
  | conjunction =>
    refine Level.turns_of_reads hks (fun _ _ _ => rfl) fun start n hn => ?_
    obtain _ | n := n
    · omega
    rw [Level.run, chainRight]
    refine Passes.atHere fun _ => ?_
    refine Passes.last h fun e' he' => ?_
    refine Passes.refused (fun k hk => (hF k hk).ne rfl (by decide)) ?_
    exact Passes.result he'
  | disjunction =>
    refine Level.turns_of_reads hks (fun _ _ _ => rfl) fun start n hn => ?_
    obtain _ | n := n
    · omega
    rw [Level.run, chainRight]
    refine Passes.atHere fun _ => ?_
    refine Passes.last h fun e' he' => ?_
    refine Passes.refused (fun k hk => (hF k hk).ne rfl (by decide)) ?_
    exact Passes.result he'
  | conditional =>
    refine Level.turns_of_reads hks (fun _ _ _ => rfl) fun start n hn => ?_
    refine Passes.atHere fun _ => ?_
    refine Passes.last h fun e' he' => ?_
    refine Passes.refused (fun k hk => (hF k hk).ne rfl (by decide)) ?_
    exact Passes.result he'

theorem Layer.rank_injective {place place' : Layer} (h : place.rank = place'.rank) : place = place' := by
  cases place <;> cases place' <;> first | rfl | exact absurd h (by decide)

theorem Layer.ne_primary_of_rank_lt {place M : Layer} (h : place.rank < M.rank) : place ≠ .primary := by
  rintro rfl
  cases M <;> exact absurd h (by decide)

/-- A layer reads what a tighter one reads. -/
theorem Level.reads_of_tighter {M : Layer}
    (h : Reads (l.parser l.limit M) ks F fun e' => e'.bare = e.bare) (hopens : Opens ks M.Plain)
    (hlimit : ks.length ≤ l.limit) (hrank : place.rank ≤ M.rank) (hF : ∀ k, F k → place.Ends k) :
    Reads (l.parser l.limit place) ks F fun e' => e'.bare = e.bare := by
  obtain ⟨steps, hsteps⟩ := Nat.exists_eq_add_of_le hrank
  induction steps generalizing place with
  | zero =>
    obtain rfl : M = place := Layer.rank_injective hsteps
    exact h
  | succ steps ih =>
    have hplace : place ≠ .primary := Layer.ne_primary_of_rank_lt (M := M) (by omega)
    have htighter := Layer.rank_tighter hplace
    have hreads : Reads (l.parser l.limit place.tighter) ks F fun e' => e'.bare = e.bare :=
      ih (by omega) (fun k hk => (hF k hk).mono (by omega)) (by omega)
    have hplain : Opens ks place.tighter.Plain := hopens.mono fun k hk => hk.mono (by omega)
    have hturns := Level.turns_of_tighter hplace hreads hplain fun k hk => (hF k hk).pauses
    exact hturns.reads hF hlimit

/-- A layer reads what a really tighter one reads, up to its loop. -/
theorem Level.turns_of_reads_tighter {M : Layer}
    (h : Reads (l.parser l.limit M) ks place.Pauses fun e' => e'.bare = e.bare)
    (hopens : Opens ks M.Plain) (hlimit : ks.length ≤ l.limit) (hrank : place.rank < M.rank) :
    l.Turns place ks place.Pauses e := by
  have hplace : place ≠ .primary := Layer.ne_primary_of_rank_lt hrank
  have htighter := Layer.rank_tighter hplace
  have hreads : Reads (l.parser l.limit place.tighter) ks place.Pauses fun e' => e'.bare = e.bare :=
    Level.reads_of_tighter h hopens hlimit (by omega) fun k hk => hk.tighter
  have hplain : Opens ks place.tighter.Plain := hopens.mono fun k hk => hk.mono (by omega)
  exact Level.turns_of_tighter hplace hreads hplain fun _ hk => hk

end Rill
