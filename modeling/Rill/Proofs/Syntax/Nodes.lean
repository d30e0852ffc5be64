-- SUMMARY: The nodes of a syntax tree, and what it means that they stand on the tokens of a text and hold them.
import Rill.Proofs.Scanning.Tiling
import Rill.Tree

/-!
# Nodes

Expressions and statements are the nodes of a syntax tree. The children of a node are the expressions and
statements directly below it, in the order in which the text has them. `TreeNode.Stands` says that the
spans of a node and of everything below it start and end with tokens of a text, and that children are
inside their parent and apart from each other; `Row` says the same of nodes that follow one another.

A literal beyond the largest integer is no value, except for the first: behind a minus sign it is the smallest
integer. `LiteralsFit` says of tokens and the nodes read from them that they have no other literals of that
kind. The node of the smallest integer may be larger than the sign and the literal, for a sign in front of
brackets becomes part of it as well.
-/

namespace Rill

-- ---------------------------------------------------------------------------
-- Children
-- ---------------------------------------------------------------------------

/-- A node of a syntax tree. -/
inductive TreeNode
  | expr (e : Expr)
  | stmt (s : Stmt)

def Expr.nodes (e : Expr) : List TreeNode := [.expr e]

def Stmt.nodes (s : Stmt) : List TreeNode := [.stmt s]

/-- Expressions as nodes. -/
def exprNodes (es : List Expr) : List TreeNode := es.map .expr

/-- The statements of a block as nodes. -/
def Block.nodes (b : Block) : List TreeNode := b.stmts.map .stmt

/-- The class of a parameter. -/
def Param.nodes (p : Param) : List TreeNode := exprNodes p.type.toList

def Lambda.nodes (f : Lambda) : List TreeNode := f.params.flatMap Param.nodes ++ f.body.nodes

/-- A key and a value. -/
def entryNodes (entry : Expr × Expr) : List TreeNode := [.expr entry.1, .expr entry.2]

/-- A branch of an `if` statement. -/
def branchNodes (branch : Expr × Block) : List TreeNode := .expr branch.1 :: branch.2.nodes

def Expr.children : Expr → List TreeNode
  | .null _ | .nan _ | .bool _ _ | .int _ _ | .float _ _ | .str _ _ | .ident _ _ => []
  | .unary _ _ e | .field _ e _ | .ref _ e => [.expr e]
  | .binary _ _ left right | .logical _ _ left right => [.expr left, .expr right]
  | .concat _ es | .list _ es | .array _ _ _ es | .set _ es => exprNodes es
  | .conditional _ cond whenTrue whenFalse => [.expr whenTrue, .expr cond, .expr whenFalse]
  | .index _ e es | .call _ e es => .expr e :: exprNodes es
  | .table _ entries => entries.flatMap entryNodes
  | .function _ fn => fn.nodes

def Stmt.children : Stmt → List TreeNode
  | .expr _ e | .throw _ e => [.expr e]
  | .assign _ _ target value => [.expr target, .expr value]
  | .declare _ _ es | .print _ _ es => exprNodes es
  | .function _ _ _ fn => fn.nodes
  | .branch _ branches otherwise => branches.flatMap branchNodes ++ otherwise.toList.flatMap Block.nodes
  | .whileLoop _ cond body => .expr cond :: body.nodes
  | .repeatLoop _ body cond => body.nodes ++ [.expr cond]
  | .forLoop _ _ _ first last step body => .expr first :: .expr last :: exprNodes step.toList ++ body.nodes
  | .foreachLoop _ _ _ _ collection body => .expr collection :: body.nodes
  | .result _ value => exprNodes value.toList
  | .leave _ | .next _ | .pass _ => []
  | .assert _ cond message => .expr cond :: exprNodes message.toList
  | .debug _ body | .block _ body => body.nodes

namespace TreeNode

def site : TreeNode → Site
  | expr e => e.site
  | stmt s => s.site

def span (n : TreeNode) : Span := n.site.span

def children : TreeNode → List TreeNode
  | expr e => e.children
  | stmt s => s.children

end TreeNode

/-- The node is a statement of the script or below one. -/
inductive Script.Has (script : Script) : TreeNode → Prop
  | top {n : TreeNode} : n ∈ script.body.nodes → Has script n
  | inside {n child : TreeNode} : Has script n → child ∈ n.children → Has script child

-- ---------------------------------------------------------------------------
-- Nodes on tokens
-- ---------------------------------------------------------------------------

/-- The site starts with one of the tokens, whose line it has, and ends with one of them that is not the
end of the text. -/
structure Site.Covers (site : Site) (tokens : List Token) : Prop where
  first : ∃ t ∈ tokens, site.span.start = t.span.start ∧ site.line = t.line
  last : ∃ t ∈ tokens, t.kind ≠ .eof ∧ site.span.stop = t.span.stop
  nonempty : site.span.start < site.span.stop

/-- The spans are in order and apart. -/
def Apart (nodes : List TreeNode) : Prop := nodes.Pairwise (·.span.stop ≤ ·.span.start)

/-- The node and everything below it cover tokens, children inside their parents and apart. -/
inductive TreeNode.Stands (tokens : List Token) : TreeNode → Prop
  | intro {n : TreeNode} : n.site.Covers tokens →
      (∀ child ∈ n.children, n.span.start ≤ child.span.start ∧ child.span.stop ≤ n.span.stop) →
      Apart n.children → (∀ child ∈ n.children, child.Stands tokens) → n.Stands tokens

/-- Nodes that stand on the tokens one behind the other, between two offsets. -/
structure Row (tokens : List Token) (lo hi : Nat) (nodes : List TreeNode) : Prop where
  stands : ∀ n ∈ nodes, n.Stands tokens
  inside : ∀ n ∈ nodes, lo ≤ n.span.start ∧ n.span.stop ≤ hi
  apart : Apart nodes

namespace Row

variable {tokens : List Token} {lo hi lo' hi' : Nat} {nodes more : List TreeNode}

theorem nil : Row tokens lo hi [] := ⟨nofun, nofun, .nil⟩

theorem widen (h : Row tokens lo hi nodes) (hlo : lo' ≤ lo) (hhi : hi ≤ hi') : Row tokens lo' hi' nodes where
  stands := h.stands
  inside n hn := ⟨hlo.trans (h.inside n hn).1, (h.inside n hn).2.trans hhi⟩
  apart := h.apart

/-- A row behind another one. -/
theorem append {mid mid' : Nat} (h : Row tokens lo mid nodes) (hmore : Row tokens mid' hi more)
    (hlo : lo ≤ mid') (hmid : mid ≤ mid') (hhi : mid ≤ hi) : Row tokens lo hi (nodes ++ more) where
  stands := List.forall_mem_append.mpr ⟨h.stands, hmore.stands⟩
  inside := List.forall_mem_append.mpr
    ⟨(h.widen le_rfl hhi).inside, (hmore.widen hlo le_rfl).inside⟩
  apart := List.pairwise_append.mpr ⟨h.apart, hmore.apart, fun n hn m hm =>
    ((h.inside n hn).2.trans hmid).trans (hmore.inside m hm).1⟩

/-- The node that covers a row is a row of its own. -/
theorem node (h : Row tokens lo hi nodes) {n : TreeNode} (hcovers : n.site.Covers tokens)
    (hlo : n.span.start = lo) (hhi : n.span.stop = hi) (hchildren : n.children = nodes) :
    Row tokens lo hi [n] where
  stands := by
    refine List.forall_mem_singleton.mpr (.intro hcovers ?_ ?_ ?_)
    · rw [hchildren, hlo, hhi]
      exact h.inside
    · rw [hchildren]
      exact h.apart
    · rw [hchildren]
      exact h.stands
  inside := List.forall_mem_singleton.mpr ⟨hlo.ge, hhi.le⟩
  apart := List.pairwise_singleton _ _

/-- The children of a node are a row where the node is. -/
theorem children {n : TreeNode} (h : Row tokens lo hi [n]) : Row tokens lo hi n.children := by
  obtain ⟨hcovers, hinside, hapart, hstands⟩ := h.stands n (List.mem_singleton_self n)
  obtain ⟨hlo, hhi⟩ := h.inside n (List.mem_singleton_self n)
  exact widen ⟨hstands, hinside, hapart⟩ hlo hhi

end Row

-- ---------------------------------------------------------------------------
-- Plain tokens
-- ---------------------------------------------------------------------------

/-- A token that can be read wherever it fits: not the end of the text, and no literal beyond the largest
integer. -/
def TokenKind.Plain : TokenKind → Prop
  | .eof => False
  | .int n => n < 0x8000000000000000
  | _ => True

namespace TokenKind.Plain

variable {k : TokenKind}

theorem ne_eof (h : k.Plain) : k ≠ .eof := by
  rintro rfl
  exact h

/-- The sign of an operator. -/
theorem of_some {op? : TokenKind → Option β} {op : β} (heof : op? .eof = none) (hint : ∀ n, op? (.int n) = none)
    (h : op? k = some op) : k.Plain := by
  cases k with
  | eof => simp [heof] at h
  | int n => simp [hint] at h
  | _ => trivial

end TokenKind.Plain

-- ---------------------------------------------------------------------------
-- Nodes below others
-- ---------------------------------------------------------------------------

/-- The node is one of these or below one of them. -/
inductive Under (nodes : List TreeNode) : TreeNode → Prop
  | top {n : TreeNode} : n ∈ nodes → Under nodes n
  | inside {n child : TreeNode} : Under nodes n → child ∈ n.children → Under nodes child

namespace Under

variable {nodes more : List TreeNode} {n m : TreeNode}

theorem mono (h : Under nodes m) (hsub : nodes ⊆ more) : Under more m := by
  induction h with
  | top hn => exact .top (hsub hn)
  | inside _ hchild ih => exact .inside ih hchild

theorem of_children (h : Under n.children m) : Under [n] m := by
  induction h with
  | top hm => exact .inside (.top (List.mem_singleton_self n)) hm
  | inside _ hchild ih => exact .inside ih hchild

theorem singleton (h : Under [n] m) : m = n ∨ Under n.children m := by
  induction h with
  | top hm => exact .inl (List.mem_singleton.mp hm)
  | inside _ hchild ih =>
    rcases ih with rfl | hbelow
    · exact .inr (.top hchild)
    · exact .inr (.inside hbelow hchild)

theorem not_nil (h : Under [] m) : False := by
  induction h with
  | top hm => exact List.not_mem_nil hm
  | inside _ _ ih => exact ih

end Under

-- ---------------------------------------------------------------------------
-- The smallest integer
-- ---------------------------------------------------------------------------

/-- A sign and the literal behind it are in a node that is the smallest integer. -/
def SmallestAt (nodes : List TreeNode) (sign literal : Token) : Prop :=
  ∃ site, Under nodes (.expr (.int site Int64.minValue)) ∧
    site.span.start ≤ sign.span.start ∧ literal.span.stop ≤ site.span.stop

/-- A literal beyond the largest integer is the first of these, and has a sign that belongs to it. -/
def LiteralsFit (tokens : List Token) (nodes : List TreeNode) : Prop :=
  ∀ t ∈ tokens, ∀ n, t.kind = .int n → 0x8000000000000000 ≤ n →
    n = 0x8000000000000000 ∧
      ∃ sign, [sign, t] <:+: tokens ∧ sign.kind = .mark .minus ∧ SmallestAt nodes sign t

namespace SmallestAt

variable {nodes more : List TreeNode} {n : TreeNode} {sign literal : Token}

theorem mono (h : SmallestAt nodes sign literal) (hsub : nodes ⊆ more) : SmallestAt more sign literal := by
  obtain ⟨site, hunder, hspan⟩ := h
  exact ⟨site, hunder.mono hsub, hspan⟩

theorem of_children (h : SmallestAt n.children sign literal) : SmallestAt [n] sign literal := by
  obtain ⟨site, hunder, hspan⟩ := h
  exact ⟨site, hunder.of_children, hspan⟩

/-- If a node is no integer itself then it is below it. -/
theorem children (h : SmallestAt [n] sign literal) (hn : ∀ site value, n ≠ .expr (.int site value)) :
    SmallestAt n.children sign literal := by
  obtain ⟨site, hunder, hspan⟩ := h
  exact ⟨site, hunder.singleton.resolve_left fun heq => hn _ _ heq.symm, hspan⟩

theorem not_nil (h : SmallestAt [] sign literal) : False := by
  obtain ⟨site, hunder, -⟩ := h
  exact hunder.not_nil

/-- The smallest integer is its own negative. -/
theorem neg {site site' : Site} {value : Int64} (h : SmallestAt [.expr (.int site value)] sign literal)
    (hstart : site'.span.start ≤ site.span.start) (hstop : site.span.stop ≤ site'.span.stop) :
    SmallestAt [.expr (.int site' (-value))] sign literal := by
  obtain ⟨found, hunder, hsign, hliteral⟩ := h
  rcases hunder.singleton with heq | hbelow
  · obtain ⟨rfl, rfl⟩ := Expr.int.inj (TreeNode.expr.inj heq)
    exact ⟨site', .top (List.mem_singleton_self _), hstart.trans hsign, hliteral.trans hstop⟩
  · exact hbelow.not_nil.elim

end SmallestAt

namespace LiteralsFit

variable {tokens others : List Token} {nodes more : List TreeNode}

theorem nil : LiteralsFit [] nodes := nofun

theorem single {t : Token} (h : ∀ n, t.kind = .int n → n < 0x8000000000000000) : LiteralsFit [t] nodes := by
  intro u hu n hn hlarge
  obtain rfl := List.mem_singleton.mp hu
  exact absurd (h n hn) (Nat.not_lt.mpr hlarge)

theorem plain {t : Token} (h : t.kind.Plain) : LiteralsFit [t] nodes :=
  single fun _ hn => (hn ▸ h : TokenKind.Plain (.int _))

theorem mono (h : LiteralsFit tokens nodes)
    (hmore : ∀ sign literal, SmallestAt nodes sign literal → SmallestAt more sign literal) :
    LiteralsFit tokens more := by
  intro t ht n hn hlarge
  obtain ⟨heq, sign, hinfix, hminus, hat⟩ := h t ht n hn hlarge
  exact ⟨heq, sign, hinfix, hminus, hmore sign t hat⟩

theorem append (h : LiteralsFit tokens nodes) (h' : LiteralsFit others more) :
    LiteralsFit (tokens ++ others) (nodes ++ more) := by
  intro t ht n hn hlarge
  rcases List.mem_append.mp ht with ht | ht
  · obtain ⟨heq, sign, hinfix, hminus, hat⟩ := h t ht n hn hlarge
    exact ⟨heq, sign, hinfix.trans (List.prefix_append _ _).isInfix, hminus,
      hat.mono (List.subset_append_left _ _)⟩
  · obtain ⟨heq, sign, hinfix, hminus, hat⟩ := h' t ht n hn hlarge
    exact ⟨heq, sign, hinfix.trans (List.suffix_append _ _).isInfix, hminus,
      hat.mono (List.subset_append_right _ _)⟩

/-- The literal of the smallest integer behind its sign. -/
theorem smallest {sign literal : Token} {site : Site} (hsign : sign.kind = .mark .minus)
    (hliteral : literal.kind = .int 0x8000000000000000) (hstart : site.span.start ≤ sign.span.start)
    (hstop : literal.span.stop ≤ site.span.stop) :
    LiteralsFit [sign, literal] [.expr (.int site Int64.minValue)] := by
  intro t ht n hn _
  rcases List.mem_cons.mp ht with rfl | ht
  · rw [hsign] at hn
    cases hn
  · obtain rfl := List.mem_singleton.mp ht
    rw [hliteral] at hn
    obtain rfl := TokenKind.int.inj hn
    exact ⟨rfl, sign, List.infix_rfl, hsign, site, .top (List.mem_singleton_self _), hstart, hstop⟩

end LiteralsFit

end Rill
