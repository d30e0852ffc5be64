-- SUMMARY: Expressions written as source text, with parentheses where their layers ask for them.
import Rill.Token.Scan
import Rill.Tree

/-!
# Written expressions

The grammar has one layer for each precedence. An expression has a layer, and each place for a
subexpression asks for one: a subexpression of a looser layer is put in parentheses there. More
parentheses may be put anywhere. The tokens are written with one blank between them.
-/

namespace Rill

-- ---------------------------------------------------------------------------
-- Layers
-- ---------------------------------------------------------------------------

/-- The layers of the grammar of expressions, loosest first. -/
inductive Layer
  | conditional | disjunction | conjunction | negation | comparison | concatenation | sum | product
  | signed | power | access | primary
  deriving DecidableEq

/-- The number of looser layers. -/
def Layer.rank : Layer → Nat
  | .conditional => 0
  | .disjunction => 1
  | .conjunction => 2
  | .negation => 3
  | .comparison => 4
  | .concatenation => 5
  | .sum => 6
  | .product => 7
  | .signed => 8
  | .power => 9
  | .access => 10
  | .primary => 11

/-- The next tighter layer. -/
def Layer.tighter : Layer → Layer
  | .conditional => .disjunction
  | .disjunction => .conjunction
  | .conjunction => .negation
  | .negation => .comparison
  | .comparison => .concatenation
  | .concatenation => .sum
  | .sum => .product
  | .product => .signed
  | .signed => .power
  | .power => .access
  | .access | .primary => .primary

def BinaryOp.layer : BinaryOp → Layer
  | .add | .sub => .sum
  | .mul | .div | .mod => .product
  | .pow => .power
  | .eq | .notEq | .lt | .ltEq | .gt | .gtEq | .compare => .comparison

/-- The layer of a left operand. Comparisons do not associate, the other operators do to the left. -/
def BinaryOp.leftLayer (op : BinaryOp) : Layer :=
  if op.layer = .comparison then .concatenation else op.layer

def LogicalOp.layer : LogicalOp → Layer
  | .conj => .conjunction
  | .disj => .disjunction

/-- The layer of an expression. A reference reads as far as it can, so it stands where a whole expression
may stand; a negative number is written with a minus sign. -/
def Expr.layer : Expr → Layer
  | .conditional .. | .ref .. => .conditional
  | .logical _ op _ _ => op.layer
  | .unary _ .not _ => .negation
  | .binary _ op _ _ => op.layer
  | .concat .. => .concatenation
  | .unary _ .neg _ => .signed
  | .int _ n => if n < 0 then .signed else .primary
  | .field .. | .index .. | .call .. => .access
  | .null _ | .nan _ | .bool .. | .float .. | .str .. | .ident .. | .list .. | .array .. | .table ..
  | .set .. | .function .. => .primary

-- ---------------------------------------------------------------------------
-- Tokens
-- ---------------------------------------------------------------------------

def BinaryOp.mark : BinaryOp → Mark
  | .add => .plus
  | .sub => .minus
  | .mul => .star
  | .div => .slash
  | .mod => .percent
  | .pow => .caret
  | .eq => .eqEq
  | .notEq => .notEq
  | .lt => .lt
  | .ltEq => .ltEq
  | .gt => .gt
  | .gtEq => .gtEq
  | .compare => .spaceship

def LogicalOp.word : LogicalOp → Keyword
  | .conj => .andKw
  | .disj => .orKw

/-- Tokens in parentheses, if these are wanted. -/
def enclosed (wanted : Bool) (ks : List TokenKind) : List TokenKind :=
  if wanted then .mark .lParen :: (ks ++ [.mark .rParen]) else ks

/-- An expression is put in parentheses where its layer is too loose, and where `extra` wants them. -/
def Expr.isEnclosed (extra : Expr → Bool) (place : Layer) (e : Expr) : Bool :=
  extra e || decide (e.layer.rank < place.rank)

mutual

/-- The tokens of an expression, without parentheses around it. Floats, arrays and function literals are
not written. -/
def Expr.tokens (extra : Expr → Bool) : Expr → List TokenKind
  | .null _ => [.keyword .nullKw]
  | .bool _ b => [.keyword (if b then .trueKw else .falseKw)]
  | .int _ n => (if n < 0 then [.mark .minus] else []) ++ [.int n.toInt.natAbs]
  | .str _ text => [.str text]
  | .ident _ name => [.ident name]
  | .unary _ .not e => .keyword .notKw :: enclosed (e.isEnclosed extra .negation) (e.tokens extra)
  | .unary _ .neg e => .mark .minus :: enclosed (e.isEnclosed extra .power) (e.tokens extra)
  | .binary _ op left right =>
    enclosed (left.isEnclosed extra op.leftLayer) (left.tokens extra) ++
      .mark op.mark :: enclosed (right.isEnclosed extra op.layer.tighter) (right.tokens extra)
  | .logical _ op left right =>
    enclosed (left.isEnclosed extra op.layer.tighter) (left.tokens extra) ++
      .keyword op.word :: enclosed (right.isEnclosed extra op.layer) (right.tokens extra)
  | .concat _ parts => (tokensAfter extra (.mark .amp) .product parts).drop 1
  | .conditional _ cond whenTrue whenFalse =>
    enclosed (whenTrue.isEnclosed extra .disjunction) (whenTrue.tokens extra) ++
      .keyword .ifKw :: (enclosed (cond.isEnclosed extra .conditional) (cond.tokens extra) ++
        .keyword .elseKw :: enclosed (whenFalse.isEnclosed extra .conditional) (whenFalse.tokens extra))
  | .field _ object name =>
    enclosed (object.isEnclosed extra .access) (object.tokens extra) ++ [.mark .dot, .ident name]
  | .index _ object indices =>
    enclosed (object.isEnclosed extra .access) (object.tokens extra) ++
      .mark .lBracket :: ((tokensAfter extra (.mark .comma) .conditional indices).drop 1 ++
        [.mark .rBracket])
  | .call _ callee args =>
    enclosed (callee.isEnclosed extra .access) (callee.tokens extra) ++
      .mark .lParen :: ((tokensAfter extra (.mark .comma) .conditional args).drop 1 ++ [.mark .rParen])
  | .ref _ target =>
    .keyword .refKw :: enclosed (target.isEnclosed extra .conditional) (target.tokens extra)
  | .list _ items =>
    .mark .lBracket :: ((tokensAfter extra (.mark .comma) .conditional items).drop 1 ++
      [.mark .rBracket])
  | .table _ entries => .mark .lBrace :: ((entriesAfter extra entries).drop 1 ++ [.mark .rBrace])
  | .set _ items =>
    .mark .lBrace :: ((tokensAfter extra (.mark .comma) .conditional items).drop 1 ++ [.mark .rBrace])
  | .nan _ | .float .. | .array .. | .function .. => []

/-- The tokens of several expressions, each after a separator. -/
def tokensAfter (extra : Expr → Bool) (separator : TokenKind) (place : Layer) :
    List Expr → List TokenKind
  | [] => []
  | e :: rest =>
    separator :: (enclosed (e.isEnclosed extra place) (e.tokens extra) ++
      tokensAfter extra separator place rest)

/-- The tokens of the entries of a table, each after a comma. -/
def entriesAfter (extra : Expr → Bool) : List (Expr × Expr) → List TokenKind
  | [] => []
  | (key, value) :: rest =>
    .mark .comma :: (enclosed (key.isEnclosed extra .conditional) (key.tokens extra) ++
      .mark .colon :: (enclosed (value.isEnclosed extra .conditional) (value.tokens extra) ++
        entriesAfter extra rest))

end

/-- The tokens of an expression at a place. -/
def Expr.tokensAt (extra : Expr → Bool) (place : Layer) (e : Expr) : List TokenKind :=
  enclosed (e.isEnclosed extra place) (e.tokens extra)

theorem tokensAfter_cons (extra : Expr → Bool) (separator : TokenKind) (place : Layer) (e : Expr)
    (rest : List Expr) : tokensAfter extra separator place (e :: rest) =
      separator :: (e.tokensAt extra place ++ tokensAfter extra separator place rest) :=
  rfl

theorem entriesAfter_cons (extra : Expr → Bool) (key value : Expr) (rest : List (Expr × Expr)) :
    entriesAfter extra ((key, value) :: rest) =
      .mark .comma :: (key.tokensAt extra .conditional ++
        .mark .colon :: (value.tokensAt extra .conditional ++ entriesAfter extra rest)) :=
  rfl

-- ---------------------------------------------------------------------------
-- Texts
-- ---------------------------------------------------------------------------

/-- A text with a backslash before every quote and every backslash. -/
def escaped (cs : List Char) : List Char :=
  cs.flatMap fun c => if c = '"' ∨ c = '\\' then ['\\', c] else [c]

/-- The characters of a token. Floats and line ends are not written. -/
def TokenKind.written : TokenKind → List Char
  | .int n => Nat.toDigits 10 n
  | .str text => '"' :: (escaped text.toList ++ ['"'])
  | .ident name => name.toList
  | .keyword w => w.spelling.toList
  | .mark m => m.spelling.toList
  | .float _ | .eol | .eof => []

/-- An expression as source text. -/
def Expr.text (extra : Expr → Bool) (e : Expr) : String :=
  String.ofList ([' '].intercalate ((e.tokensAt extra .conditional).map TokenKind.written))

-- ---------------------------------------------------------------------------
-- Trees that can be written
-- ---------------------------------------------------------------------------

/-- A letter or an underscore, then letters, digits and underscores, then dollar signs; no keyword. -/
def IsIdentifier (name : String) : Prop :=
  ∃ c body dollars, name = String.ofList (c :: (body ++ dollars)) ∧ isNameStart c = true ∧
    (∀ d ∈ body, isNameRest d = true) ∧ (∀ d ∈ dollars, d = '$') ∧ Keyword.ofSpelling? name = none

/-- The trees that can be written. A minus sign in front of a number belongs to the number. -/
inductive Expr.Printable : Expr → Prop
  | null {site : Site} : Printable (.null site)
  | bool {site : Site} {b : Bool} : Printable (.bool site b)
  | int {site : Site} {n : Int64} : Printable (.int site n)
  | str {site : Site} {text : String} : Printable (.str site text)
  | ident {site : Site} {name : String} (hname : IsIdentifier name) : Printable (.ident site name)
  | not {site : Site} {e : Expr} (he : Printable e) : Printable (.unary site .not e)
  | minus {site : Site} {e : Expr} (he : Printable e) (hnumber : ∀ s n, e ≠ .int s n) :
      Printable (.unary site .neg e)
  | binary {site : Site} {op : BinaryOp} {left right : Expr} (hl : Printable left)
      (hr : Printable right) : Printable (.binary site op left right)
  | logical {site : Site} {op : LogicalOp} {left right : Expr} (hl : Printable left)
      (hr : Printable right) : Printable (.logical site op left right)
  | concat {site : Site} {parts : List Expr} (hlength : 2 ≤ parts.length)
      (hparts : ∀ e ∈ parts, Printable e) : Printable (.concat site parts)
  | conditional {site : Site} {cond whenTrue whenFalse : Expr} (hc : Printable cond)
      (ht : Printable whenTrue) (hf : Printable whenFalse) :
      Printable (.conditional site cond whenTrue whenFalse)
  | field {site : Site} {object : Expr} {name : String} (ho : Printable object)
      (hname : IsIdentifier name) : Printable (.field site object name)
  | index {site : Site} {object : Expr} {indices : List Expr} (ho : Printable object)
      (hne : indices ≠ []) (hindices : ∀ e ∈ indices, Printable e) :
      Printable (.index site object indices)
  | call {site : Site} {callee : Expr} {args : List Expr} (hc : Printable callee)
      (hargs : ∀ e ∈ args, Printable e) : Printable (.call site callee args)
  | ref {site : Site} {target : Expr} (ht : Printable target) : Printable (.ref site target)
  | list {site : Site} {items : List Expr} (hitems : ∀ e ∈ items, Printable e) :
      Printable (.list site items)
  | table {site : Site} {entries : List (Expr × Expr)} (hkeys : ∀ p ∈ entries, Printable p.1)
      (hvalues : ∀ p ∈ entries, Printable p.2) : Printable (.table site entries)
  | set {site : Site} {items : List Expr} (hne : items ≠ []) (hitems : ∀ e ∈ items, Printable e) :
      Printable (.set site items)

-- ---------------------------------------------------------------------------
-- Trees without sites
-- ---------------------------------------------------------------------------

mutual

/-- The tree without lines and spans; the bodies of function literals keep theirs. -/
def Expr.bare : Expr → Expr
  | .null _ => .null default
  | .nan _ => .nan default
  | .bool _ b => .bool default b
  | .int _ n => .int default n
  | .float _ x => .float default x
  | .str _ text => .str default text
  | .ident _ name => .ident default name
  | .unary _ op e => .unary default op e.bare
  | .binary _ op left right => .binary default op left.bare right.bare
  | .logical _ op left right => .logical default op left.bare right.bare
  | .concat _ parts => .concat default (bareAll parts)
  | .conditional _ cond whenTrue whenFalse =>
    .conditional default cond.bare whenTrue.bare whenFalse.bare
  | .field _ object name => .field default object.bare name
  | .index _ object indices => .index default object.bare (bareAll indices)
  | .call _ callee args => .call default callee.bare (bareAll args)
  | .ref _ target => .ref default target.bare
  | .list _ items => .list default (bareAll items)
  | .array _ rows cols items => .array default rows cols (bareAll items)
  | .table _ entries => .table default (bareEntries entries)
  | .set _ items => .set default (bareAll items)
  | .function _ fn => .function default fn

def bareAll : List Expr → List Expr
  | [] => []
  | e :: rest => e.bare :: bareAll rest

def bareEntries : List (Expr × Expr) → List (Expr × Expr)
  | [] => []
  | (key, value) :: rest => (key.bare, value.bare) :: bareEntries rest

end

end Rill
