-- SUMMARY: Every layer of the grammar reads the expressions of its layer back.
import Rill.Proofs.Printing.Brackets
import Rill.Proofs.Printing.Climbing

/-!
# Written expressions, layer by layer

One lemma for each kind of expression: given that its operands are read back in their places and that
whole expressions are read back between brackets, it is read back by the parser of its own layer. From
there it is read in every place where it is written without parentheses, and with parentheses anywhere.
-/

namespace Rill

open Rill.Parser Rill.Grammar

variable {extra : Expr → Bool} {l : Level} {site : Site} {place : Layer} {F : TokenKind → Prop}

-- ---------------------------------------------------------------------------
-- Expressions in their places
-- ---------------------------------------------------------------------------

/-- Whole expressions of fewer tokens than the limit are read back one level deeper. -/
def Level.ReadsNested (l : Level) (extra : Expr → Bool) : Prop :=
  ∀ e : Expr, e.Printable → ∀ wanted, (enclosed wanted (e.tokens extra)).length < l.limit →
    e.ReadBy l.nested .conditional (enclosed wanted (e.tokens extra))

/-- An expression is read back in every place. -/
def Level.Parses (l : Level) (extra : Expr → Bool) (e : Expr) : Prop :=
  ∀ place wanted, Layer.Fits place wanted e → (enclosed wanted (e.tokens extra)).length ≤ l.limit →
    l.Turns place (enclosed wanted (e.tokens extra)) place.Pauses e

/-- Parentheses leave no trace. -/
theorem primary_reads_enclosed {e : Expr} {ks : List TokenKind}
    (h : e.ReadBy l.nested .conditional ks) (hopens : Opens ks (TokenKind.Starts 0)) :
    Reads (l.parser l.limit .primary) (enclosed true ks) F fun e' => e'.bare = e.bare := by
  refine Passes.atHere fun start => ?_
  refine Passes.kindIs ?_
  refine Passes.advance ?_
  refine Passes.skipNewlines (hopens.mono fun _ hk => hk.ne_eol).append.meets ?_
  refine Passes.bind h (Layer.ends_of_joins rfl) fun e' he' => ?_
  refine Passes.skipNewlines (by simp [Meets]) ?_
  refine Passes.expect ?_
  exact Passes.result he'

theorem Layer.plain_lParen (place : Layer) : place.Plain (.mark .lParen) where
  negation _ := by simp
  minus _ := by simp
  ref _ := by simp
  function _ := by simp

/-- What is read back in its own layer is read back in every place. -/
theorem Level.parses_of_own {e : Expr} (hnested : l.ReadsNested extra) (he : e.Printable)
    (hown : (e.tokens extra).length ≤ l.limit →
      l.Turns e.layer (e.tokens extra) e.layer.Pauses e) : l.Parses extra e := by
  intro place wanted hfits hlength
  have hopens : Opens (e.tokens extra) (TokenKind.Starts e.layer.rank) := he.opens
  cases wanted with
  | true =>
    have hinner : e.ReadBy l.nested .conditional (e.tokens extra) := by
      refine hnested e he false ?_
      simp only [enclosed, if_true, List.length_cons, List.length_append] at hlength
      exact Nat.lt_of_lt_of_le (Nat.lt_succ_of_le (Nat.le_add_right _ _)) hlength
    have hparen : Reads (l.parser l.limit .primary) (enclosed true (e.tokens extra)) place.Pauses
        fun e' => e'.bare = e.bare :=
      primary_reads_enclosed hinner (hopens.mono fun _ hk => hk.mono (Nat.zero_le _))
    by_cases hplace : place.rank < Layer.primary.rank
    · exact Level.turns_of_reads_tighter hparen (.cons (Layer.plain_lParen _)) hlength hplace
    · obtain rfl : place = .primary := by
        cases place <;> first | rfl | exact absurd (by decide) hplace
      exact Level.turns_of_reads (by simp [enclosed]) (fun _ _ _ => rfl) fun _ _ _ => hparen
  | false =>
    have hturns := hown hlength
    rcases Nat.lt_or_eq_of_le (hfits rfl) with hlt | heq
    · have hreads : Reads (l.parser l.limit e.layer) (e.tokens extra) place.Pauses
          fun e' => e'.bare = e.bare := by
        have htighter := Layer.rank_tighter (Layer.ne_primary_of_rank_lt hlt)
        exact (hturns.ended hlength).mono (fun _ hk => hk.tighter.mono (by omega)) fun _ hq => hq
      exact Level.turns_of_reads_tighter hreads (hopens.mono fun _ hk => hk.plain) hlength hlt
    · obtain rfl : place = e.layer := Layer.rank_injective heq
      exact hturns

/-- A place that leaves its own parentheses to the rules. -/
theorem Level.Parses.turns {e : Expr} (h : l.Parses extra e) (place : Layer)
    (hlength : (e.tokensAt extra place).length ≤ l.limit) :
    l.Turns place (e.tokensAt extra place) place.Pauses e :=
  h place _ (place.fits_isEnclosed e) hlength

theorem Level.Parses.reads {e : Expr} (h : l.Parses extra e) (place : Layer) {n : Nat}
    (hlength : (e.tokensAt extra place).length ≤ l.limit) (hn : (e.tokensAt extra place).length ≤ n) :
    Reads (l.parser n place) (e.tokensAt extra place) place.Ends fun e' => e'.bare = e.bare :=
  (h.turns place hlength).ended hn

-- ---------------------------------------------------------------------------
-- Operators in front
-- ---------------------------------------------------------------------------

theorem turns_not {e : Expr} (he : l.Parses extra e)
    (hlength : (e.tokensAt extra .negation).length < l.limit) :
    l.Turns .negation (.keyword .notKw :: e.tokensAt extra .negation) Layer.negation.Pauses
      (.unary site .not e) := by
  refine Level.turns_of_reads (by simp) (fun _ _ _ => rfl) fun start n hn => ?_
  obtain _ | n := n
  · simp at hn
  rw [Level.run, negation]
  refine Passes.atHere fun _ => ?_
  refine Passes.accepted ?_
  refine Passes.last (he.reads .negation (Nat.le_of_lt hlength) (Nat.le_of_succ_le_succ hn))
    fun e' he' => ?_
  refine Passes.atSite fun _ => Passes.result ?_
  simp only [Expr.bare, he']

/-- A minus sign is folded into a number only. -/
theorem negated_bare {e e' : Expr} (hbare : e'.bare = e.bare) (hint : ∀ s n, e ≠ .int s n)
    (hfloat : ∀ s x, e ≠ .float s x) : (negated site e').bare = (Expr.unary site .neg e).bare := by
  unfold negated
  split
  · cases e <;> simp_all [Expr.bare]
  · cases e <;> simp_all [Expr.bare]
  · simp only [Expr.bare, hbare]

theorem turns_minus {e : Expr} (he : l.Parses extra e) (hprintable : e.Printable)
    (hint : ∀ s n, e ≠ .int s n) (hlength : (e.tokensAt extra .power).length < l.limit) :
    l.Turns .signed (.mark .minus :: e.tokensAt extra .power) Layer.signed.Pauses
      (.unary site .neg e) := by
  have hopens : Opens (e.tokensAt extra .power) (· ≠ .int 0x8000000000000000) := by
    have hstarts : Opens (e.tokens extra) (TokenKind.Starts e.layer.rank) := hprintable.opens
    refine (hstarts.placed (Layer.power.fits_isEnclosed e)).mono fun k hk => ?_
    rintro rfl
    exact absurd hk (Nat.lt_irrefl _)
  have hfloat : ∀ s x, e ≠ .float s x := by
    rintro s x rfl
    cases hprintable
  have hoperand := he.reads .power (Nat.le_of_lt hlength) (Nat.le_of_lt hlength)
  refine Level.turns_of_reads (by simp) (fun _ _ _ => rfl) fun start n hn => ?_
  rw [Level.run, signed]
  refine Passes.atHere fun _ => ?_
  refine Passes.accepted ?_
  refine Passes.kindOf hopens.meets fun k hk => ?_
  rw [if_neg hk]
  refine Passes.last (hoperand.mono (fun k hk => Layer.Ends.mono hk (by decide)) fun _ hq => hq)
    fun e' he' => ?_
  exact Passes.atSite fun _ => Passes.result (negated_bare he' hint hfloat)

-- ---------------------------------------------------------------------------
-- Literals and names
-- ---------------------------------------------------------------------------

/-- A primary has no loop. -/
theorem turns_primary {e : Expr} {ks : List TokenKind} (hks : 0 < ks.length)
    (h : Reads (l.parser l.limit .primary) ks F fun e' => e'.bare = e.bare) :
    l.Turns .primary ks F e :=
  Level.turns_of_reads hks (fun _ _ _ => rfl) fun _ _ _ => h

theorem primary_reads_null :
    Reads (l.parser l.limit .primary) [.keyword .nullKw] F fun e => e.bare = (Expr.null site).bare := by
  refine Passes.atHere fun _ => Passes.kindIs (Passes.advance ?_)
  exact Passes.atSite fun _ => Passes.result rfl

theorem primary_reads_bool (b : Bool) :
    Reads (l.parser l.limit .primary) [.keyword (if b then .trueKw else .falseKw)] F
      fun e => e.bare = (Expr.bool site b).bare := by
  cases b with
  | true =>
    refine Passes.atHere fun _ => Passes.kindIs (Passes.advance ?_)
    exact Passes.atSite fun _ => Passes.result rfl
  | false =>
    refine Passes.atHere fun _ => Passes.kindIs (Passes.advance ?_)
    exact Passes.atSite fun _ => Passes.result rfl

theorem primary_reads_str (text : String) :
    Reads (l.parser l.limit .primary) [.str text] F fun e => e.bare = (Expr.str site text).bare := by
  refine Passes.atHere fun _ => Passes.kindIs (Passes.advance ?_)
  exact Passes.atSite fun _ => Passes.result rfl

theorem primary_reads_ident (name : String) :
    Reads (l.parser l.limit .primary) [.ident name] F fun e => e.bare = (Expr.ident site name).bare := by
  refine Passes.atHere fun _ => Passes.kindIs (Passes.advance ?_)
  exact Passes.atSite fun _ => Passes.result rfl

theorem primary_reads_int {n : Nat} (hn : n < 0x8000000000000000) :
    Reads (l.parser l.limit .primary) [.int n] F
      fun e => e.bare = (Expr.int site (Int64.ofNat n)).bare := by
  refine Passes.atHere fun _ => Passes.kindIs ?_
  simp only [if_pos hn]
  refine Passes.advance ?_
  exact Passes.atSite fun _ => Passes.result rfl

theorem ofNat_natAbs_toInt {n : Int64} (hn : 0 ≤ n.toInt) : Int64.ofNat n.toInt.natAbs = n := by
  rw [← Int64.ofInt_eq_ofNat, Int.natAbs_of_nonneg hn, n.ofInt_toInt]

/-- The number that a minus sign makes of a literal. -/
theorem neg_ofNat_natAbs_toInt {n : Int64} (hn : n.toInt < 0) : -Int64.ofNat n.toInt.natAbs = n := by
  calc
    -Int64.ofNat n.toInt.natAbs = Int64.ofInt (-(n.toInt.natAbs : Int)) := by
      rw [Int64.ofInt_neg, Int64.ofInt_eq_ofNat]
    _ = Int64.ofInt n.toInt := by rw [Int.ofNat_natAbs_of_nonpos (Int.le_of_lt hn), Int.neg_neg]
    _ = n := n.ofInt_toInt

/-- A negative number, the smallest one included. -/
theorem turns_negative {n : Int64} (hn : n.toInt < 0) (hlimit : 0 < l.limit) :
    l.Turns .signed [.mark .minus, .int n.toInt.natAbs] Layer.signed.Pauses (.int site n) := by
  refine Level.turns_of_reads (by simp) (fun _ _ _ => rfl) fun start m hm => ?_
  have hnumber := neg_ofNat_natAbs_toInt hn
  have hlow := n.le_toInt
  rw [Level.run, signed]
  refine Passes.atHere fun _ => ?_
  refine Passes.accepted ?_
  refine Passes.kindIs ?_
  by_cases hmin : n.toInt.natAbs = 0x8000000000000000
  · rw [if_pos (congrArg _ hmin)]
    refine Passes.advance ?_
    refine Passes.kindNext fun k hk => ?_
    rw [if_neg (Layer.Ends.ne hk rfl (by decide))]
    refine Passes.atSite fun _ => Passes.result ?_
    rw [hmin] at hnumber
    simp only [Expr.bare, ← hnumber]
    rfl
  · rw [if_neg (by simpa using hmin)]
    have hsmall : n.toInt.natAbs < 0x8000000000000000 := by omega
    have hplain : Opens [.int n.toInt.natAbs] Layer.primary.Plain :=
      .cons (TokenKind.Starts.plain hsmall)
    have hoperand : Reads (l.parser l.limit .power) [.int n.toInt.natAbs] Layer.signed.Pauses
        fun e => e.bare = (Expr.int site (Int64.ofNat n.toInt.natAbs)).bare :=
      Level.reads_of_tighter (primary_reads_int hsmall) hplain hlimit (by decide)
        fun k hk => Layer.Ends.mono hk (by decide)
    refine Passes.last hoperand fun e he => ?_
    refine Passes.atSite fun _ => Passes.result ?_
    have hnegated : ∀ s, (negated s e).bare = .int default (-Int64.ofNat n.toInt.natAbs) := by
      intro s
      cases e <;> simp_all [Expr.bare, negated]
    rw [hnegated, hnumber, Expr.bare]

-- ---------------------------------------------------------------------------
-- Operators in between
-- ---------------------------------------------------------------------------

/-- One round of a loop after a left operand. -/
theorem Level.Turns.round {left e : Expr} {ks ls : List TokenKind} {G : TokenKind → Prop}
    (h : l.Turns place ks G left) (hls : 0 < ls.length) (hmeets : Meets ls F G)
    (hround : ∀ start m left', left'.bare = left.bare → ls.length ≤ m →
      Passes (l.loop start (m + 1) left' place) ls F fun q =>
        ∃ e', q = l.loop start m e' place ∧ e'.bare = e.bare) :
    l.Turns place (ks ++ ls) F e := by
  intro start n hn
  rw [List.length_append] at hn
  refine (h start n (by omega)).trans hmeets ?_
  rintro q ⟨m, left', rfl, hleft, hm⟩
  obtain _ | m := m
  · omega
  refine (hround start m left' hleft (by omega)).mono (fun _ hk => hk) ?_
  rintro q ⟨e', rfl, he'⟩
  exact ⟨m, e', rfl, he', by rw [List.length_append]; omega⟩

theorem chainLeft_round {op? : TokenKind → Option BinaryOp} {operand : Parser Expr} {op : BinaryOp}
    {left left' right : Expr} {ks : List TokenKind} (hop : op? (.mark op.mark) = some op)
    (hright : Reads operand ks F fun e' => e'.bare = right.bare) (hleft : left'.bare = left.bare)
    (start : Nat × Nat) (m : Nat) :
    Passes (chainLeft op? operand start (m + 1) left') (.mark op.mark :: ks) F fun q =>
      ∃ e', q = chainLeft op? operand start m e' ∧ e'.bare = (Expr.binary site op left right).bare := by
  rw [chainLeft]
  refine Passes.kindIs ?_
  rw [hop]
  refine Passes.advance ?_
  refine Passes.last hright fun right' hright' => ?_
  refine Passes.atSite fun _ => Passes.refl ⟨_, rfl, ?_⟩
  simp only [Expr.bare, hleft, hright']

theorem BinaryOp.pauses_mark {op : BinaryOp} (h : op.layer ≠ .comparison) :
    op.layer.Pauses (.mark op.mark) := by
  cases op with
  | add | sub => exact ⟨Layer.ends_of_rank_lt rfl (by decide), by decide⟩
  | mul | div | mod | pow => exact Layer.ends_of_rank_lt rfl (by decide)
  | eq | notEq | lt | ltEq | gt | gtEq | compare => exact absurd rfl h

/-- Operators that associate to the left. -/
theorem turns_binary {op : BinaryOp} {left right : Expr} (hop : op.layer ≠ .comparison)
    (hl : l.Parses extra left) (hr : l.Parses extra right)
    (hlength : (left.tokensAt extra op.layer).length +
      (right.tokensAt extra op.layer.tighter).length < l.limit) :
    l.Turns op.layer
      (left.tokensAt extra op.layer ++ .mark op.mark :: right.tokensAt extra op.layer.tighter)
      op.layer.Pauses (.binary site op left right) := by
  have hleft := hl.turns op.layer (by omega)
  have hright : Reads (l.parser l.limit op.layer.tighter) (right.tokensAt extra op.layer.tighter)
      op.layer.Pauses fun e' => e'.bare = right.bare :=
    (hr.reads op.layer.tighter (by omega) (by omega)).mono (fun _ hk => hk.tighter) fun _ hq => hq
  refine hleft.round (by simp) (BinaryOp.pauses_mark hop) fun start m left' hleft' _ => ?_
  cases op with
  | add | sub | mul | div | mod | pow => exact chainLeft_round rfl hright hleft' start m
  | eq | notEq | lt | ltEq | gt | gtEq | compare => exact absurd rfl hop

/-- Comparisons do not associate. -/
theorem turns_comparison {op : BinaryOp} {left right : Expr} (hop : op.layer = .comparison)
    (hl : l.Parses extra left) (hr : l.Parses extra right)
    (hlength : (left.tokensAt extra .concatenation).length +
      (right.tokensAt extra .concatenation).length < l.limit) :
    l.Turns .comparison
      (left.tokensAt extra .concatenation ++ .mark op.mark :: right.tokensAt extra .concatenation)
      Layer.comparison.Pauses (.binary site op left right) := by
  have hleft := hl.reads .concatenation (n := l.limit) (by omega) (by omega)
  have hright := hr.reads .concatenation (n := l.limit) (by omega) (by omega)
  have hmark : comparisonOp? (.mark op.mark) = some op ∧ Layer.concatenation.Ends (.mark op.mark) := by
    refine ⟨by cases op <;> first | rfl | exact absurd hop (by decide), ?_⟩
    exact Layer.ends_of_rank_lt op.joins_mark (hop ▸ by decide)
  refine Level.turns_of_reads (by rw [List.length_append, List.length_cons]; omega) (fun _ _ _ => rfl)
    fun start n hn => ?_
  rw [Level.run, comparison]
  refine Passes.atHere fun _ => ?_
  refine Passes.bind hleft hmark.2 fun left' hleft' => ?_
  refine Passes.kindIs ?_
  rw [hmark.1]
  refine Passes.advance ?_
  refine Passes.last (hright.mono (fun _ hk => Layer.Pauses.tighter hk) fun _ hq => hq)
    fun right' hright' => ?_
  refine Passes.kindNext fun k hk => ?_
  rw [comparisonOp_ends hk]
  refine Passes.atSite fun _ => Passes.result ?_
  simp only [Expr.bare, hleft', hright']

theorem chainRight_reads {word : Keyword} {op : LogicalOp} {operand : Parser Expr} {n : Nat}
    {left right : Expr} {ks ls : List TokenKind} {G : TokenKind → Prop}
    (hl : Reads operand ks G fun e' => e'.bare = left.bare) (hword : G (.keyword word))
    (hopens : Opens ls (TokenKind.Starts 0))
    (hr : Reads (chainRight word op operand n) ls F fun e' => e'.bare = right.bare) :
    Reads (chainRight word op operand (n + 1)) (ks ++ .keyword word :: ls) F
      fun e' => e'.bare = (Expr.logical site op left right).bare := by
  rw [chainRight]
  refine Passes.atHere fun _ => ?_
  refine Passes.bind hl hword fun left' hleft' => ?_
  refine Passes.accepted ?_
  refine Passes.skipNewlines (hopens.mono fun _ hk => hk.ne_eol).meets ?_
  refine Passes.last hr fun right' hright' => ?_
  refine Passes.atSite fun _ => Passes.result ?_
  simp only [Expr.bare, hleft', hright']

/-- Operators that associate to the right. -/
theorem turns_logical {op : LogicalOp} {left right : Expr} (hl : l.Parses extra left)
    (hr : l.Parses extra right) (hprintable : right.Printable)
    (hlength : (left.tokensAt extra op.layer.tighter).length +
      (right.tokensAt extra op.layer).length < l.limit) :
    l.Turns op.layer
      (left.tokensAt extra op.layer.tighter ++ .keyword op.word :: right.tokensAt extra op.layer)
      op.layer.Pauses (.logical site op left right) := by
  have hleft := hl.reads op.layer.tighter (n := l.limit) (by omega) (by omega)
  have hopens : Opens (right.tokensAt extra op.layer) (TokenKind.Starts 0) :=
    hprintable.opensAt op.layer
  have hpos : 0 < (left.tokensAt extra op.layer.tighter ++
      .keyword op.word :: right.tokensAt extra op.layer).length := by
    rw [List.length_append, List.length_cons]
    omega
  cases op with
  | conj =>
    refine Level.turns_of_reads hpos (fun _ _ _ => rfl) fun start n hn => ?_
    rw [List.length_append, List.length_cons] at hn
    obtain _ | n := n
    · omega
    have hright := hr.reads LogicalOp.conj.layer (n := n) (by omega) (by omega)
    exact chainRight_reads hleft (Layer.ends_of_rank_lt rfl (by decide)) hopens hright
  | disj =>
    refine Level.turns_of_reads hpos (fun _ _ _ => rfl) fun start n hn => ?_
    rw [List.length_append, List.length_cons] at hn
    obtain _ | n := n
    · omega
    have hright := hr.reads LogicalOp.disj.layer (n := n) (by omega) (by omega)
    exact chainRight_reads hleft (Layer.ends_of_rank_lt rfl (by decide)) hopens hright

/-- The parts of a concatenation after an ampersand. -/
theorem concatParts_reads {operand : Parser Expr} {e : Expr} {rest : List Expr} {limit : Nat}
    (hparts : ∀ x ∈ e :: rest, x.ReadBy operand .product (x.tokensAt extra .product) ∧
      Opens (x.tokensAt extra .product) (TokenKind.Starts 0))
    (hlimit : rest.length < limit) (hF : ∀ k, F k → Layer.concatenation.Ends k) :
    Reads (concatParts operand limit)
      (e.tokensAt extra .product ++ tokensAfter extra (.mark .amp) .product rest) F
      fun parts => bareAll parts = bareAll (e :: rest) := by
  induction rest generalizing e limit with
  | nil =>
    obtain _ | limit := limit
    · exact absurd hlimit (Nat.not_lt_zero _)
    obtain ⟨hreads, hopens⟩ := hparts e List.mem_cons_self
    rw [tokensAfter, List.append_nil, concatParts]
    refine Passes.skipNewlines (hopens.mono fun _ hk => hk.ne_eol).meets ?_
    refine Passes.last (hreads.mono (fun k hk => (hF k hk).mono (by decide)) fun _ hq => hq)
      fun part hpart => ?_
    refine Passes.refused (fun k hk => (hF k hk).ne rfl (by decide)) ?_
    exact Passes.result (by simp only [bareAll, hpart])
  | cons e' rest ih =>
    obtain _ | limit := limit
    · exact absurd hlimit (Nat.not_lt_zero _)
    obtain ⟨⟨hreads, hopens⟩, hrest⟩ := List.forall_mem_cons.mp hparts
    rw [tokensAfter_cons, concatParts]
    refine Passes.skipNewlines (hopens.mono fun _ hk => hk.ne_eol).append.meets ?_
    refine Passes.bind hreads (Layer.ends_of_rank_lt rfl (by decide)) fun part hpart => ?_
    refine Passes.accepted ?_
    refine Passes.last (ih hrest (Nat.lt_of_succ_lt_succ hlimit)) fun parts hloop => ?_
    exact Passes.result (by simp only [bareAll, hpart, hloop])

/-- The tokens of an item are fewer than those of the list. -/
theorem length_tokensAt_lt (extra : Expr → Bool) (separator : TokenKind) (place : Layer)
    {items : List Expr} {e : Expr} (he : e ∈ items) :
    (e.tokensAt extra place).length < (tokensAfter extra separator place items).length := by
  induction items with
  | nil => simp at he
  | cons x rest ih =>
    rw [tokensAfter_cons, List.length_cons, List.length_append]
    rcases List.mem_cons.mp he with rfl | he
    · omega
    · have := ih he
      omega

theorem length_le_tokensAfter (extra : Expr → Bool) (separator : TokenKind) (place : Layer)
    (items : List Expr) :
    items.length ≤ (tokensAfter extra separator place items).length := by
  induction items with
  | nil => simp
  | cons x rest ih =>
    rw [tokensAfter_cons, List.length_cons, List.length_cons, List.length_append]
    omega

theorem length_tokensAt_lt_entries (extra : Expr → Bool) {entries : List (Expr × Expr)}
    {entry : Expr × Expr} (h : entry ∈ entries) :
    (entry.1.tokensAt extra .conditional).length + (entry.2.tokensAt extra .conditional).length + 1 <
      (entriesAfter extra entries).length := by
  induction entries with
  | nil => simp at h
  | cons x rest ih =>
    obtain ⟨key, value⟩ := x
    rw [entriesAfter_cons]
    simp only [List.length_cons, List.length_append]
    rcases List.mem_cons.mp h with rfl | h
    · simp only
      omega
    · have := ih h
      omega

theorem length_le_entriesAfter (extra : Expr → Bool) (entries : List (Expr × Expr)) :
    entries.length ≤ (entriesAfter extra entries).length := by
  induction entries with
  | nil => simp
  | cons x rest ih =>
    obtain ⟨key, value⟩ := x
    rw [entriesAfter_cons]
    simp only [List.length_cons, List.length_append]
    omega

/-- A chain of ampersands. -/
theorem turns_concat {parts : List Expr} (hparts : ∀ x ∈ parts, l.Parses extra x)
    (hprintable : ∀ x ∈ parts, x.Printable) (htwo : 2 ≤ parts.length)
    (hlength : ((tokensAfter extra (.mark .amp) .product parts).drop 1).length ≤ l.limit) :
    l.Turns .concatenation ((tokensAfter extra (.mark .amp) .product parts).drop 1)
      Layer.concatenation.Pauses (.concat site parts) := by
  have hlimit := length_le_tokensAfter extra (.mark .amp) .product parts
  rw [List.length_drop] at hlength
  have hread : ∀ x ∈ parts, x.ReadBy l.products .product (x.tokensAt extra .product) ∧
      Opens (x.tokensAt extra .product) (TokenKind.Starts 0) := by
    intro x hx
    have hshort := length_tokensAt_lt extra (.mark .amp) .product hx
    exact ⟨(hparts x hx).reads .product (by omega) (by omega), (hprintable x hx).opensAt .product⟩
  match parts, htwo with
  | e :: e' :: rest, _ =>
    obtain ⟨⟨he, hopens⟩, hrest⟩ := List.forall_mem_cons.mp hread
    rw [tokensAfter_cons, List.drop_succ_cons, List.drop_zero, tokensAfter_cons]
    refine Level.turns_of_reads hopens.append.length_pos (fun _ _ _ => rfl) fun start n hn => ?_
    refine Passes.atHere fun _ => ?_
    refine Passes.bind he (Layer.ends_of_rank_lt rfl (by decide)) fun part hpart => ?_
    refine Passes.accepted ?_
    simp only [List.length_cons] at hlimit
    refine Passes.last (concatParts_reads hrest (by omega) fun _ hk => hk) fun parts hbare => ?_
    refine Passes.atSite fun _ => Passes.result ?_
    simp only [Expr.bare, bareAll, hpart] at hbare ⊢
    simp only [hbare]

-- ---------------------------------------------------------------------------
-- Whole expressions inside
-- ---------------------------------------------------------------------------

theorem Level.ReadsNested.reads {e : Expr} (h : l.ReadsNested extra) (he : e.Printable)
    (hlength : (e.tokensAt extra .conditional).length < l.limit) :
    e.ReadBy l.nested .conditional (e.tokensAt extra .conditional) :=
  h e he _ hlength

theorem Level.ReadsNested.item {e : Expr} (h : l.ReadsNested extra) (he : e.Printable)
    (hlength : (e.tokensAt extra .conditional).length < l.limit) : e.Item extra l.nested :=
  ⟨h.reads he hlength, he.opensAt .conditional⟩

/-- The items of a list between brackets. -/
theorem Level.ReadsNested.items {items : List Expr} (h : l.ReadsNested extra)
    (hitems : ∀ x ∈ items, x.Printable)
    (hlength : (tokensAfter extra (.mark .comma) .conditional items).length ≤ l.limit) :
    ∀ x ∈ items, x.Item extra l.nested :=
  fun x hx =>
    have hshort := length_tokensAt_lt extra (.mark .comma) .conditional hx
    h.item (hitems x hx) (Nat.lt_of_lt_of_le hshort hlength)

theorem Level.ReadsNested.commaList {items : List Expr} {close : Mark} {context : Context}
    (h : l.ReadsNested extra) (hclose : close.Closes) (hitems : ∀ x ∈ items, x.Printable)
    (hlength : (tokensAfter extra (.mark .comma) .conditional items).length ≤ l.limit) {limit : Nat}
    (hlimit : (tokensAfter extra (.mark .comma) .conditional items).length ≤ limit) :
    Reads (Grammar.commaList limit l.nested close context)
      ((tokensAfter extra (.mark .comma) .conditional items).drop 1 ++ [TokenKind.mark close]) F
      fun items' => bareAll items' = bareAll items :=
  commaList_reads hclose (h.items hitems hlength)
    (Nat.le_trans (length_le_tokensAfter extra (.mark .comma) .conditional items) hlimit)

/-- `a if condition else b`. -/
theorem turns_conditional {cond whenTrue whenFalse : Expr} (hnested : l.ReadsNested extra)
    (ht : l.Parses extra whenTrue) (hc : cond.Printable) (hf : whenFalse.Printable)
    (hlength : (whenTrue.tokensAt extra .disjunction).length + (cond.tokensAt extra .conditional).length +
      (whenFalse.tokensAt extra .conditional).length < l.limit) :
    l.Turns .conditional
      (whenTrue.tokensAt extra .disjunction ++ .keyword .ifKw :: (cond.tokensAt extra .conditional ++
        .keyword .elseKw :: whenFalse.tokensAt extra .conditional))
      Layer.conditional.Pauses (.conditional site cond whenTrue whenFalse) := by
  have hwhenTrue := ht.reads .disjunction (n := l.limit) (by omega) (by omega)
  refine Level.turns_of_reads (by simp only [List.length_append, List.length_cons]; omega)
    (fun _ _ _ => rfl) fun start n hn => ?_
  rw [Level.run, conditional]
  refine Passes.atHere fun _ => ?_
  refine Passes.bind hwhenTrue (Layer.ends_of_rank_lt rfl (by decide)) fun whenTrue' htrue => ?_
  refine Passes.accepted ?_
  refine Passes.bind (hnested.reads hc (by omega)) (Layer.ends_of_joins rfl) fun cond' hcond => ?_
  refine Passes.expect ?_
  refine Passes.last (hnested.reads hf (by omega)) fun whenFalse' hfalse => ?_
  refine Passes.atSite fun _ => Passes.result ?_
  simp only [Expr.bare, htrue, hcond, hfalse]

/-- `ref` reads a whole expression, so it is no operand of anything. -/
theorem turns_ref {target : Expr} (hnested : l.ReadsNested extra) (ht : target.Printable)
    (hlength : (target.tokensAt extra .conditional).length < l.limit) :
    l.Turns .conditional (.keyword .refKw :: target.tokensAt extra .conditional)
      Layer.conditional.Pauses (.ref site target) := by
  have haccess : l.Turns .access (.keyword .refKw :: target.tokensAt extra .conditional)
      Layer.conditional.Pauses (.ref site target) := by
    intro start n hn
    have hhead : Reads (operandHead l.limit l.nested l.body)
        (.keyword .refKw :: target.tokensAt extra .conditional) Layer.conditional.Pauses
        fun e => e.bare = (Expr.ref site target).bare := by
      refine Passes.atHere fun _ => ?_
      refine Passes.accepted ?_
      refine Passes.last (hnested.reads ht hlength) fun target' htarget => ?_
      refine Passes.atSite fun _ => Passes.result ?_
      simp only [Expr.bare, htarget]
    exact Passes.last hhead fun e he => Level.turned rfl (by simp) he
  have hreads : Reads (l.parser l.limit .access) _ Layer.conditional.Pauses _ :=
    haccess.reads (fun k hk => Layer.Ends.mono hk (by decide)) hlength
  refine Level.turns_of_reads_tighter hreads (.cons ?_) hlength (by decide)
  exact ⟨fun _ => by simp, fun _ => by simp, fun h => absurd h (by decide), fun _ => by simp⟩

-- ---------------------------------------------------------------------------
-- Access
-- ---------------------------------------------------------------------------

theorem turns_field {object : Expr} {name : String} (ho : l.Parses extra object)
    (hlength : (object.tokensAt extra .access).length ≤ l.limit) :
    l.Turns .access (object.tokensAt extra .access ++ [TokenKind.mark .dot, .ident name]) Layer.access.Pauses
      (.field site object name) := by
  refine (ho.turns .access hlength).round (by simp) trivial fun start m object' hobject _ => ?_
  rw [Level.loop, postfixSteps]
  refine Passes.accepted ?_
  refine Passes.ident ?_
  refine Passes.atSite fun _ => Passes.refl ⟨_, rfl, ?_⟩
  simp only [Expr.bare, hobject]

theorem bareAll_isEmpty {items items' : List Expr} (h : bareAll items' = bareAll items) :
    items'.isEmpty = items.isEmpty := by
  cases items <;> cases items' <;> first | rfl | simp [bareAll] at h

theorem turns_index {object : Expr} {indices : List Expr} (hnested : l.ReadsNested extra)
    (ho : l.Parses extra object) (hne : indices ≠ []) (hindices : ∀ x ∈ indices, x.Printable)
    (hlength : (object.tokensAt extra .access).length +
      (tokensAfter extra (.mark .comma) .conditional indices).length ≤ l.limit) :
    l.Turns .access
      (object.tokensAt extra .access ++ .mark .lBracket ::
        ((tokensAfter extra (.mark .comma) .conditional indices).drop 1 ++ [TokenKind.mark .rBracket]))
      Layer.access.Pauses (.index site object indices) := by
  refine (ho.turns .access (by omega)).round (by simp) trivial fun start m object' hobject hm => ?_
  simp only [List.length_cons, List.length_append, List.length_drop, List.length_nil] at hm
  rw [Level.loop, postfixSteps]
  refine Passes.refused (by simp [Meets]) ?_
  refine Passes.accepted ?_
  refine Passes.last (hnested.commaList .bracket hindices (by omega) (by omega)) fun indices' hbare => ?_
  rw [if_neg (by simpa [bareAll_isEmpty hbare] using hne)]
  refine Passes.atSite fun _ => Passes.refl ⟨_, rfl, ?_⟩
  simp only [Expr.bare, hobject, hbare]

theorem turns_call {callee : Expr} {args : List Expr} (hnested : l.ReadsNested extra)
    (hc : l.Parses extra callee) (hargs : ∀ x ∈ args, x.Printable)
    (hlength : (callee.tokensAt extra .access).length +
      (tokensAfter extra (.mark .comma) .conditional args).length ≤ l.limit) :
    l.Turns .access
      (callee.tokensAt extra .access ++ .mark .lParen ::
        ((tokensAfter extra (.mark .comma) .conditional args).drop 1 ++ [TokenKind.mark .rParen]))
      Layer.access.Pauses (.call site callee args) := by
  refine (hc.turns .access (by omega)).round (by simp) trivial fun start m callee' hcallee hm => ?_
  simp only [List.length_cons, List.length_append, List.length_drop, List.length_nil] at hm
  rw [Level.loop, postfixSteps]
  refine Passes.refused (by simp [Meets]) ?_
  refine Passes.refused (by simp [Meets]) ?_
  refine Passes.accepted ?_
  refine Passes.last (hnested.commaList .parenthesis hargs (by omega) (by omega)) fun args' hbare => ?_
  refine Passes.atSite fun _ => Passes.refl ⟨_, rfl, ?_⟩
  simp only [Expr.bare, hcallee, hbare]

-- ---------------------------------------------------------------------------
-- Collections
-- ---------------------------------------------------------------------------

theorem primary_reads_list {items : List Expr} (hnested : l.ReadsNested extra)
    (hitems : ∀ x ∈ items, x.Printable)
    (hlength : (tokensAfter extra (.mark .comma) .conditional items).length ≤ l.limit) :
    Reads (l.parser l.limit .primary)
      (.mark .lBracket :: ((tokensAfter extra (.mark .comma) .conditional items).drop 1 ++
        [TokenKind.mark .rBracket]))
      F fun e => e.bare = (Expr.list site items).bare := by
  refine Passes.atHere fun _ => Passes.kindIs (Passes.advance ?_)
  refine Passes.last (hnested.commaList .bracket hitems hlength hlength) fun items' hbare => ?_
  refine Passes.atSite fun _ => Passes.result ?_
  simp only [Expr.bare, hbare]

theorem primary_reads_set {items : List Expr} (hnested : l.ReadsNested extra) (hne : items ≠ [])
    (hitems : ∀ x ∈ items, x.Printable)
    (hlength : (tokensAfter extra (.mark .comma) .conditional items).length ≤ l.limit) :
    Reads (l.parser l.limit .primary)
      (.mark .lBrace :: ((tokensAfter extra (.mark .comma) .conditional items).drop 1 ++
        [TokenKind.mark .rBrace]))
      F fun e => e.bare = (Expr.set site items).bare := by
  obtain ⟨e, rest, rfl⟩ := List.exists_cons_of_ne_nil hne
  have hlimit := length_le_tokensAfter extra (.mark .comma) .conditional (e :: rest)
  rw [List.length_cons] at hlimit
  have hread := hnested.items hitems hlength
  rw [tokensAfter_cons, List.drop_succ_cons, List.drop_zero, List.append_assoc]
  refine Passes.atHere fun _ => Passes.kindIs (Passes.advance ?_)
  exact braceLiteral_reads_set hread (by omega) site

theorem primary_reads_table {entries : List (Expr × Expr)} (hnested : l.ReadsNested extra)
    (hkeys : ∀ p ∈ entries, p.1.Printable) (hvalues : ∀ p ∈ entries, p.2.Printable)
    (hlength : (entriesAfter extra entries).length ≤ l.limit) :
    Reads (l.parser l.limit .primary)
      (.mark .lBrace :: ((entriesAfter extra entries).drop 1 ++ [TokenKind.mark .rBrace])) F
      fun e => e.bare = (Expr.table site entries).bare := by
  refine Passes.atHere fun _ => Passes.kindIs (Passes.advance ?_)
  refine braceLiteral_reads_table (fun x hx => ?_) (fun x hx => ?_)
    (Nat.le_trans (length_le_entriesAfter extra entries) hlength) site
  · have hshort := length_tokensAt_lt_entries extra hx
    exact hnested.item (hkeys x hx) (by omega)
  · have hshort := length_tokensAt_lt_entries extra hx
    exact hnested.item (hvalues x hx) (by omega)

-- ---------------------------------------------------------------------------
-- Every expression
-- ---------------------------------------------------------------------------

/-- At one level of nesting, every written expression is read back in every place. -/
theorem Level.ReadsNested.parses {e : Expr} (hnested : l.ReadsNested extra) (he : e.Printable) :
    l.Parses extra e := by
  induction he with
  | null =>
    refine Level.parses_of_own hnested .null fun _ => ?_
    rw [Expr.tokens]
    exact turns_primary (by simp) primary_reads_null
  | @bool site b =>
    refine Level.parses_of_own hnested .bool fun _ => ?_
    rw [Expr.tokens]
    exact turns_primary (by simp) (primary_reads_bool b)
  | @int site n =>
    refine Level.parses_of_own hnested .int fun hlength => ?_
    by_cases hn : n < 0
    · rw [Expr.tokens, if_pos hn] at hlength ⊢
      rw [Expr.layer, if_pos hn]
      exact turns_negative (Int64.lt_iff_toInt_lt.mp hn) (Nat.lt_of_lt_of_le (by simp) hlength)
    · have hpos : 0 ≤ n.toInt := Int.not_lt.mp fun h => hn (Int64.lt_iff_toInt_lt.mpr h)
      have hmax := n.toInt_lt
      have hread : Reads (l.parser l.limit .primary) [.int n.toInt.natAbs] Layer.primary.Pauses
          fun e => e.bare = (Expr.int site (Int64.ofNat n.toInt.natAbs)).bare :=
        primary_reads_int (by omega)
      rw [ofNat_natAbs_toInt hpos] at hread
      rw [Expr.tokens, if_neg hn, Expr.layer, if_neg hn]
      exact turns_primary (by simp) hread
  | @str site text =>
    refine Level.parses_of_own hnested .str fun _ => ?_
    rw [Expr.tokens]
    exact turns_primary (by simp) (primary_reads_str text)
  | @ident site name hname =>
    refine Level.parses_of_own hnested (.ident hname) fun _ => ?_
    rw [Expr.tokens]
    exact turns_primary (by simp) (primary_reads_ident name)
  | not hx ih =>
    refine Level.parses_of_own hnested hx.not fun hlength => ?_
    rw [Expr.tokens] at hlength ⊢
    exact turns_not ih hlength
  | minus hx hnumber ih =>
    refine Level.parses_of_own hnested (hx.minus hnumber) fun hlength => ?_
    rw [Expr.tokens] at hlength ⊢
    exact turns_minus ih hx hnumber hlength
  | @binary site op left right hl hr ihl ihr =>
    refine Level.parses_of_own hnested (hl.binary hr) fun hlength => ?_
    rw [Expr.tokens, List.length_append, List.length_cons] at hlength
    rw [Expr.tokens]
    by_cases hop : op.layer = .comparison
    · have hplaces : op.leftLayer = .concatenation ∧ op.layer.tighter = .concatenation := by
        rw [BinaryOp.leftLayer, if_pos hop, hop]
        exact ⟨rfl, rfl⟩
      rw [hplaces.1, hplaces.2] at hlength ⊢
      rw [Expr.layer, hop]
      exact turns_comparison hop ihl ihr (Nat.lt_of_succ_le hlength)
    · have hplace : op.leftLayer = op.layer := by rw [BinaryOp.leftLayer, if_neg hop]
      rw [hplace] at hlength ⊢
      exact turns_binary hop ihl ihr (Nat.lt_of_succ_le hlength)
  | @logical site op left right hl hr ihl ihr =>
    refine Level.parses_of_own hnested (hl.logical hr) fun hlength => ?_
    rw [Expr.tokens, List.length_append, List.length_cons] at hlength
    rw [Expr.tokens]
    exact turns_logical ihl ihr hr (Nat.lt_of_succ_le hlength)
  | concat htwo hparts ih =>
    refine Level.parses_of_own hnested (.concat htwo hparts) fun hlength => ?_
    rw [Expr.tokens] at hlength ⊢
    exact turns_concat ih hparts htwo hlength
  | conditional hc ht hf ihc iht ihf =>
    refine Level.parses_of_own hnested (hc.conditional ht hf) fun hlength => ?_
    rw [Expr.tokens] at hlength ⊢
    simp only [List.length_append, List.length_cons] at hlength
    exact turns_conditional hnested iht hc hf (by simp only [Expr.tokensAt]; omega)
  | field ho hname ih =>
    refine Level.parses_of_own hnested (ho.field hname) fun hlength => ?_
    rw [Expr.tokens] at hlength ⊢
    rw [List.length_append] at hlength
    exact turns_field ih (Nat.le_trans (Nat.le_add_right _ _) hlength)
  | index ho hne hindices iho ihs =>
    refine Level.parses_of_own hnested (ho.index hne hindices) fun hlength => ?_
    rw [Expr.tokens] at hlength ⊢
    simp only [List.length_append, List.length_cons, List.length_drop, List.length_nil] at hlength
    exact turns_index hnested iho hne hindices (by simp only [Expr.tokensAt]; omega)
  | call hc hargs ihc ihs =>
    refine Level.parses_of_own hnested (hc.call hargs) fun hlength => ?_
    rw [Expr.tokens] at hlength ⊢
    simp only [List.length_append, List.length_cons, List.length_drop, List.length_nil] at hlength
    exact turns_call hnested ihc hargs (by simp only [Expr.tokensAt]; omega)
  | ref ht ih =>
    refine Level.parses_of_own hnested ht.ref fun hlength => ?_
    rw [Expr.tokens] at hlength ⊢
    exact turns_ref hnested ht hlength
  | list hitems ih =>
    refine Level.parses_of_own hnested (.list hitems) fun hlength => ?_
    rw [Expr.tokens] at hlength ⊢
    simp only [List.length_append, List.length_cons, List.length_drop, List.length_nil] at hlength
    exact turns_primary (by simp) (primary_reads_list hnested hitems (by omega))
  | table hkeys hvalues ihk ihv =>
    refine Level.parses_of_own hnested (.table hkeys hvalues) fun hlength => ?_
    rw [Expr.tokens] at hlength ⊢
    simp only [List.length_append, List.length_cons, List.length_drop, List.length_nil] at hlength
    exact turns_primary (by simp) (primary_reads_table hnested hkeys hvalues (by omega))
  | set hne hitems ih =>
    refine Level.parses_of_own hnested (.set hne hitems) fun hlength => ?_
    rw [Expr.tokens] at hlength ⊢
    simp only [List.length_append, List.length_cons, List.length_drop, List.length_nil] at hlength
    exact turns_primary (by simp) (primary_reads_set hnested hne hitems (by omega))

end Rill
