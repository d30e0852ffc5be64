-- SUMMARY: What stands at the edges of a written expression, and lists of expressions between brackets.
import Rill.Proofs.Printing.Reading

/-!
# Edges and brackets

The grammar looks one token ahead. Two facts about that token carry every layer: a token behind an
expression must not be an operator of its layer or of a tighter one, and the first token of an expression
must not be a sign of a looser one.

What stands between brackets is read by the parser of whole expressions, item by item. The limit of a
loop is enough when it exceeds the number of items.
-/

namespace Rill

open Rill.Grammar

variable {extra : Expr → Bool}

-- ---------------------------------------------------------------------------
-- Behind an expression
-- ---------------------------------------------------------------------------

/-- The layer whose expressions go on at this token. -/
def TokenKind.joins : TokenKind → Option Layer
  | .mark .dot | .mark .lBracket | .mark .lParen => some .access
  | .mark .caret => some .power
  | .mark .star | .mark .slash | .mark .percent => some .product
  | .mark .plus | .mark .minus | .mark .amp => some .sum
  | .mark .eqEq | .mark .notEq | .mark .lt | .mark .ltEq | .mark .gt | .mark .gtEq | .mark .spaceship =>
    some .comparison
  | .keyword .andKw => some .conjunction
  | .keyword .orKw => some .disjunction
  | .keyword .ifKw => some .conditional
  | _ => none

/-- An expression of this layer does not go on at this token. -/
def Layer.Ends (place : Layer) (k : TokenKind) : Prop :=
  ∀ joined, k.joins = some joined → joined.rank < place.rank

theorem Layer.Ends.mono {place place' : Layer} {k : TokenKind} (h : place.Ends k)
    (hrank : place.rank ≤ place'.rank) : place'.Ends k :=
  fun joined hjoined => Nat.lt_of_lt_of_le (h joined hjoined) hrank

/-- Tokens that join nothing end everything. -/
theorem Layer.ends_of_joins {place : Layer} {k : TokenKind} (h : k.joins = none) : place.Ends k := by
  intro joined hjoined
  simp [h] at hjoined

theorem Layer.Ends.ne {place : Layer} {k k' : TokenKind} {joined : Layer} (h : place.Ends k)
    (hjoins : k'.joins = some joined) (hrank : place.rank ≤ joined.rank) : k ≠ k' := by
  rintro rfl
  have := h joined hjoins
  omega

theorem BinaryOp.joins_mark (op : BinaryOp) : (TokenKind.mark op.mark).joins = some op.layer := by
  cases op <;> rfl

/-- An operator ends the operands of tighter layers. -/
theorem Layer.ends_of_rank_lt {place joined : Layer} {k : TokenKind} (h : k.joins = some joined)
    (hrank : joined.rank < place.rank) : place.Ends k := by
  intro joined' hjoined
  rw [h, Option.some.injEq] at hjoined
  exact hjoined ▸ hrank

theorem Layer.rank_tighter {place : Layer} (h : place ≠ .primary) :
    place.tighter.rank = place.rank + 1 := by
  cases place <;> first | rfl | exact absurd rfl h

-- ---------------------------------------------------------------------------
-- In front of an expression
-- ---------------------------------------------------------------------------

/-- The token can be the first of an expression of a layer with this rank. -/
def TokenKind.Starts (rank : Nat) : TokenKind → Prop
  | .int n => n < 0x8000000000000000
  | .str _ | .ident _ | .keyword .nullKw | .keyword .trueKw | .keyword .falseKw | .mark .lParen
  | .mark .lBracket | .mark .lBrace => True
  | .mark .minus => rank ≤ Layer.signed.rank
  | .keyword .notKw => rank ≤ Layer.negation.rank
  | .keyword .refKw => rank ≤ Layer.conditional.rank
  | _ => False

theorem TokenKind.Starts.mono {rank rank' : Nat} {k : TokenKind} (h : k.Starts rank)
    (hrank : rank' ≤ rank) : k.Starts rank' := by
  unfold TokenKind.Starts at h ⊢
  split at h <;> first | trivial | exact h | exact Nat.le_trans hrank h

/-- Parentheses are left out only at places that are no tighter than the expression. -/
def Layer.Fits (place : Layer) (wanted : Bool) (e : Expr) : Prop :=
  wanted = false → place.rank ≤ e.layer.rank

theorem Layer.fits_isEnclosed (place : Layer) (e : Expr) : place.Fits (e.isEnclosed extra place) e := by
  intro h
  simp only [Expr.isEnclosed, Bool.or_eq_false_iff, decide_eq_false_iff_not] at h
  omega

theorem Opens.enclosed {ks : List TokenKind} {rank : Nat} {wanted : Bool}
    (h : wanted = false → Opens ks (TokenKind.Starts rank)) :
    Opens (enclosed wanted ks) (TokenKind.Starts rank) := by
  cases wanted with
  | false => exact h rfl
  | true => exact .cons trivial

/-- The first token of an expression in its place, from its first token in its own layer. -/
theorem Opens.placed {e : Expr} {place : Layer} {wanted : Bool}
    (h : Opens (e.tokens extra) (TokenKind.Starts e.layer.rank)) (hfits : place.Fits wanted e) :
    Opens (Rill.enclosed wanted (e.tokens extra)) (TokenKind.Starts place.rank) :=
  .enclosed fun hwanted => h.mono fun _ hk => hk.mono (hfits hwanted)

/-- The first token of a left operand is the first of the whole. -/
theorem Opens.leading {left : Expr} {place : Layer} {rank : Nat} {ls : List TokenKind}
    (h : Opens (left.tokens extra) (TokenKind.Starts left.layer.rank)) (hrank : rank ≤ place.rank) :
    Opens (left.tokensAt extra place ++ ls) (TokenKind.Starts rank) :=
  ((h.placed (place.fits_isEnclosed left)).mono fun _ hk => hk.mono hrank).append

theorem BinaryOp.rank_leftLayer (op : BinaryOp) : op.layer.rank ≤ op.leftLayer.rank := by
  cases op <;> decide

theorem Layer.rank_le_tighter (place : Layer) : place.rank ≤ place.tighter.rank := by
  cases place <;> decide

/-- An expression starts with a token of its layer. -/
theorem Expr.Printable.opens {e : Expr} (h : e.Printable) :
    Opens (e.tokens extra) (TokenKind.Starts e.layer.rank) := by
  induction h with
  | null | str | ident | list | table | set =>
    rw [Expr.tokens]
    exact .cons trivial
  | @bool site b =>
    rw [Expr.tokens]
    cases b <;> exact .cons trivial
  | @int site n =>
    rw [Expr.tokens, Expr.layer]
    split
    · exact .cons (Nat.le_refl _)
    · next hn =>
      have hmax := n.toInt_lt
      have hpos : 0 ≤ n.toInt := by
        rw [← Int64.toInt_zero, ← Int64.le_iff_toInt_le]
        exact Int64.not_lt.mp hn
      refine .cons ?_
      show n.toInt.natAbs < 0x8000000000000000
      omega
  | not | minus | ref =>
    rw [Expr.tokens]
    exact .cons (Nat.le_refl _)
  | @binary site op left right hl hr ihl ihr =>
    rw [Expr.tokens]
    exact ihl.leading op.rank_leftLayer
  | @logical site op left right hl hr ihl ihr =>
    rw [Expr.tokens]
    exact ihl.leading op.layer.rank_le_tighter
  | @concat site parts hlength hparts ih =>
    rw [Expr.tokens]
    cases parts with
    | nil => simp at hlength
    | cons part rest =>
      rw [tokensAfter, List.drop_succ_cons, List.drop_zero]
      exact (ih part List.mem_cons_self).leading (Nat.le_add_right 5 2)
  | @conditional site cond whenTrue whenFalse hc ht hf ihc iht ihf =>
    rw [Expr.tokens]
    exact iht.leading (Nat.zero_le _)
  | field ho hname iho =>
    rw [Expr.tokens]
    exact iho.leading (Nat.le_refl _)
  | index ho hne hindices iho ihs =>
    rw [Expr.tokens]
    exact iho.leading (Nat.le_refl _)
  | call hc hargs ihc ihs =>
    rw [Expr.tokens]
    exact ihc.leading (Nat.le_refl _)

/-- In every place, the first token is one that an expression can start with. -/
theorem Expr.Printable.opensAt {e : Expr} (h : e.Printable) (place : Layer) :
    Opens (e.tokensAt extra place) (TokenKind.Starts 0) := by
  have hstarts : Opens (e.tokens extra) (TokenKind.Starts e.layer.rank) := h.opens
  exact (hstarts.placed (place.fits_isEnclosed e)).mono fun _ hk => hk.mono (Nat.zero_le _)

-- ---------------------------------------------------------------------------
-- Items
-- ---------------------------------------------------------------------------

/-- `p` reads these tokens as the expression, up to sites, where a place of this layer ends. -/
def Expr.ReadBy (e : Expr) (p : Parser Expr) (place : Layer) (ks : List TokenKind) : Prop :=
  Reads p ks place.Ends fun e' => e'.bare = e.bare

/-- `nested` reads the item as it stands in a list. -/
structure Expr.Item (extra : Expr → Bool) (nested : Parser Expr) (e : Expr) : Prop where
  reads : e.ReadBy nested .conditional (e.tokensAt extra .conditional)
  opens : Opens (e.tokensAt extra .conditional) (TokenKind.Starts 0)

inductive Mark.Closes : Mark → Prop
  | parenthesis : Closes .rParen
  | bracket : Closes .rBracket
  | brace : Closes .rBrace

theorem TokenKind.Starts.ne_eol {rank : Nat} {k : TokenKind} (h : k.Starts rank) : k ≠ .eol := by
  rintro rfl
  exact h

theorem TokenKind.Starts.ne_close {rank : Nat} {k : TokenKind} {close : Mark} (h : k.Starts rank)
    (hclose : close.Closes) : k ≠ .mark close := by
  rintro rfl
  cases hclose <;> exact h

theorem Mark.Closes.joins {close : Mark} (h : close.Closes) : (TokenKind.mark close).joins = none := by
  cases h <;> rfl

theorem Mark.Closes.ne_comma {close : Mark} (h : close.Closes) :
    TokenKind.mark close ≠ .mark .comma := by
  cases h <;> decide

variable {nested : Parser Expr} {close : Mark} {context : Context}
  {F : TokenKind → Prop}

theorem Expr.Item.ne_eol {e : Expr} (h : e.Item extra nested) {ls : List TokenKind} :
    Meets (e.tokensAt extra .conditional ++ ls) F (· ≠ .eol) :=
  (h.opens.mono fun _ hk => hk.ne_eol).append.meets

theorem Expr.Item.ne_close {e : Expr} (h : e.Item extra nested) (hclose : close.Closes)
    {ls : List TokenKind} : Meets (e.tokensAt extra .conditional ++ ls) F (· ≠ .mark close) :=
  (h.opens.mono fun _ hk => hk.ne_close hclose).append.meets

/-- Items with commas between them, and a closing mark. -/
theorem itemsUntil_reads (hclose : close.Closes) {e : Expr} {rest : List Expr} {limit : Nat}
    (hitems : ∀ x ∈ e :: rest, x.Item extra nested) (hlimit : rest.length < limit) :
    Reads (itemsUntil nested close context limit)
      (e.tokensAt extra .conditional ++
        (tokensAfter extra (.mark .comma) .conditional rest ++ [TokenKind.mark close]))
      F fun items => bareAll items = bareAll (e :: rest) := by
  induction rest generalizing e limit with
  | nil =>
    obtain _ | limit := limit
    · exact absurd hlimit (Nat.not_lt_zero _)
    have he := hitems e List.mem_cons_self
    rw [itemsUntil, tokensAfter, List.nil_append]
    refine Passes.bind he.reads (Layer.ends_of_joins hclose.joins) fun item hitem => ?_
    refine Passes.skipNewlines (by simp [Meets]) ?_
    refine Passes.refused hclose.ne_comma ?_
    refine Passes.expect ?_
    exact Passes.result (by simp only [bareAll, hitem])
  | cons e' rest ih =>
    obtain _ | limit := limit
    · exact absurd hlimit (Nat.not_lt_zero _)
    obtain ⟨he, hrest⟩ := List.forall_mem_cons.mp hitems
    have he' := hrest e' List.mem_cons_self
    rw [itemsUntil, tokensAfter_cons, List.cons_append, List.append_assoc]
    refine Passes.bind he.reads (Layer.ends_of_joins rfl) fun item hitem => ?_
    refine Passes.skipNewlines (by simp [Meets]) ?_
    refine Passes.accepted ?_
    refine Passes.skipNewlines he'.ne_eol ?_
    refine Passes.kindOf (he'.ne_close hclose) fun k hk => ?_
    rw [if_neg hk]
    refine Passes.last (ih hrest (Nat.lt_of_succ_lt_succ hlimit)) fun items hloop => ?_
    exact Passes.result (by simp only [bareAll, hitem, hloop])

/-- A list of items between brackets, after the opening one. -/
theorem commaList_reads (hclose : close.Closes) {items : List Expr} {limit : Nat}
    (hitems : ∀ x ∈ items, x.Item extra nested) (hlimit : items.length ≤ limit) :
    Reads (commaList limit nested close context)
      ((tokensAfter extra (.mark .comma) .conditional items).drop 1 ++ [TokenKind.mark close]) F
      fun items' => bareAll items' = bareAll items := by
  cases items with
  | nil =>
    rw [tokensAfter, List.drop_nil, List.nil_append, commaList]
    refine Passes.skipNewlines (by simp [Meets]) ?_
    refine Passes.accepted ?_
    exact Passes.result rfl
  | cons e rest =>
    have he := hitems e List.mem_cons_self
    rw [tokensAfter_cons, List.drop_succ_cons, List.drop_zero, List.append_assoc, commaList]
    refine Passes.skipNewlines he.ne_eol ?_
    refine Passes.refused (he.ne_close hclose) ?_
    exact itemsUntil_reads hclose hitems hlimit

/-- Further entries of a table, and its closing brace. -/
theorem tableEntries_reads {entries : List (Expr × Expr)} {limit : Nat}
    (hkeys : ∀ x ∈ entries, x.1.Item extra nested) (hvalues : ∀ x ∈ entries, x.2.Item extra nested)
    (hlimit : entries.length < limit) :
    Reads (tableEntries nested limit) (entriesAfter extra entries ++ [TokenKind.mark .rBrace]) F
      fun entries' => bareEntries entries' = bareEntries entries := by
  induction entries generalizing limit with
  | nil =>
    obtain _ | limit := limit
    · exact absurd hlimit (Nat.not_lt_zero _)
    rw [entriesAfter, List.nil_append, tableEntries]
    refine Passes.skipNewlines (by simp [Meets]) ?_
    refine Passes.refused (by simp [Meets]) ?_
    refine Passes.expect ?_
    exact Passes.result rfl
  | cons entry rest ih =>
    obtain _ | limit := limit
    · exact absurd hlimit (Nat.not_lt_zero _)
    obtain ⟨key, value⟩ := entry
    obtain ⟨hkey, hkeys⟩ := List.forall_mem_cons.mp hkeys
    obtain ⟨hvalue, hvalues⟩ := List.forall_mem_cons.mp hvalues
    have hrest := ih hkeys hvalues (Nat.lt_of_succ_lt_succ hlimit)
    rw [entriesAfter_cons, tableEntries]
    simp only [List.cons_append, List.append_assoc]
    refine Passes.skipNewlines (by simp [Meets]) ?_
    refine Passes.accepted ?_
    refine Passes.skipNewlines hkey.ne_eol ?_
    refine Passes.kindOf (hkey.ne_close .brace) fun k hk => ?_
    rw [if_neg hk]
    refine Passes.bind hkey.reads (Layer.ends_of_joins rfl) fun key' hkey' => ?_
    refine Passes.expect ?_
    refine Passes.bind hvalue.reads ?_ fun value' hvalue' => ?_
    · cases rest <;> exact Layer.ends_of_joins rfl
    refine Passes.last hrest fun entries' hentries' => ?_
    exact Passes.result (by simp only [bareEntries, hkey', hvalue', hentries'])

-- ---------------------------------------------------------------------------
-- Braces
-- ---------------------------------------------------------------------------

/-- What follows the entries of a table is no part of their values. -/
theorem entriesAfter_meets (entries : List (Expr × Expr)) :
    Meets (entriesAfter extra entries ++ [TokenKind.mark .rBrace]) F Layer.conditional.Ends := by
  cases entries <;> exact Layer.ends_of_joins rfl

/-- Entries make a table, and so does nothing. -/
theorem braceLiteral_reads_table {entries : List (Expr × Expr)} {limit : Nat} {start : Nat × Nat}
    (hkeys : ∀ x ∈ entries, x.1.Item extra nested) (hvalues : ∀ x ∈ entries, x.2.Item extra nested)
    (hlimit : entries.length ≤ limit) (site : Site) :
    Reads (braceLiteral limit nested start) ((entriesAfter extra entries).drop 1 ++ [TokenKind.mark .rBrace]) F
      fun e => e.bare = (Expr.table site entries).bare := by
  cases entries with
  | nil =>
    rw [entriesAfter, List.drop_nil, List.nil_append, braceLiteral]
    refine Passes.skipNewlines (by simp [Meets]) ?_
    refine Passes.accepted ?_
    exact Passes.atSite fun _ => Passes.result rfl
  | cons entry rest =>
    obtain ⟨key, value⟩ := entry
    obtain ⟨hkey, hkeys⟩ := List.forall_mem_cons.mp hkeys
    obtain ⟨hvalue, hvalues⟩ := List.forall_mem_cons.mp hvalues
    rw [entriesAfter_cons, List.drop_succ_cons, List.drop_zero, braceLiteral]
    simp only [List.cons_append, List.append_assoc]
    refine Passes.skipNewlines hkey.ne_eol ?_
    refine Passes.refused (hkey.ne_close .brace) ?_
    refine Passes.bind hkey.reads (Layer.ends_of_joins rfl) fun key' hkey' => ?_
    refine Passes.accepted ?_
    refine Passes.bind hvalue.reads (entriesAfter_meets rest) fun value' hvalue' => ?_
    refine Passes.last (tableEntries_reads hkeys hvalues hlimit) fun entries' hentries' => ?_
    refine Passes.atSite fun _ => Passes.result ?_
    simp only [Expr.bare, bareEntries, hkey', hvalue', hentries']

/-- Plain items make a set. -/
theorem braceLiteral_reads_set {e : Expr} {rest : List Expr} {limit : Nat} {start : Nat × Nat}
    (hitems : ∀ x ∈ e :: rest, x.Item extra nested) (hlimit : rest.length ≤ limit) (site : Site) :
    Reads (braceLiteral limit nested start)
      (e.tokensAt extra .conditional ++
        (tokensAfter extra (.mark .comma) .conditional rest ++ [TokenKind.mark .rBrace]))
      F fun e' => e'.bare = (Expr.set site (e :: rest)).bare := by
  obtain ⟨he, hrest⟩ := List.forall_mem_cons.mp hitems
  rw [braceLiteral]
  refine Passes.skipNewlines he.ne_eol ?_
  refine Passes.refused (he.ne_close .brace) ?_
  cases rest with
  | nil =>
    rw [tokensAfter, List.nil_append]
    refine Passes.bind he.reads (Layer.ends_of_joins rfl) fun first hfirst => ?_
    refine Passes.refused (by simp [Meets]) ?_
    refine Passes.skipNewlines (by simp [Meets]) ?_
    refine Passes.refused (by simp [Meets]) ?_
    refine Passes.expect ?_
    refine Passes.atSite fun _ => Passes.result ?_
    simp only [Expr.bare, bareAll, hfirst]
  | cons e' rest =>
    have he' := hrest e' List.mem_cons_self
    have hlist : Reads (commaList limit nested .rBrace .setLiteral) _ F _ :=
      commaList_reads .brace hrest hlimit
    rw [tokensAfter_cons, List.drop_succ_cons, List.drop_zero, List.append_assoc] at hlist
    rw [tokensAfter_cons, List.cons_append, List.append_assoc]
    refine Passes.bind he.reads (Layer.ends_of_joins rfl) fun first hfirst => ?_
    refine Passes.refused (by simp [Meets]) ?_
    refine Passes.skipNewlines (by simp [Meets]) ?_
    refine Passes.accepted ?_
    refine Passes.last hlist fun items hitems => ?_
    refine Passes.atSite fun _ => Passes.result ?_
    simp only [Expr.bare, bareAll, hfirst, hitems]

end Rill
