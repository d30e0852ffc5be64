-- SUMMARY: Compiled scripts are well formed.
import Rill.Proofs.Depth.Nodes
import Rill.Proofs.Layout.Compile
import Rill.Proofs.Syntax.Grammar

/-!
# Compiled scripts

What the compiler makes of a parsed text is well formed, with all functions in it: operands are in range,
and every instruction finds the operands it needs, whichever way control came to it.
-/

namespace Rill

open Layout

/-- A routine that is code for a proper script is sound. -/
theorem Layout.PlacesScript.sound {debug : Bool} {r : Routine} {stmts : List Stmt}
    (hp : ProperStmts stmts) (h : PlacesScript anywhere debug r stmts) :
    Sound r ∧ PlacesScript StartsLevel debug r stmts := by
  obtain ⟨body, hcaptures, hstmts, htaken, hreserve, hnull, hresult, hsize, huses⟩ := h
  have hbody := placesAllStmts_stretch (Hides.empty 1) (Nat.le_of_eq htaken) hp (List.Subset.refl []) hstmts
  obtain ⟨hsound, hstmts⟩ := Stretch.routine hreserve
    (hbody.mono fun n v hv => absurd hv (by simp [jumps])) hnull hresult hsize huses
  exact ⟨hsound, body, hcaptures, hstmts, htaken, hreserve, hnull, hresult, hsize, huses⟩

/-- The routine of a text and all routines in it are well formed, and every statement of the text starts
with no operands and no call that waits for its arguments. -/
theorem compile_wellFormed {text file : String} {debug : Bool} {s : Script} {r : Routine}
    (hparse : parse text = .ok s) (hcompile : compile s file debug = .ok r) :
    (∀ q, Nested r q → WellFormed q) ∧
      PlacesScript StartsLevel (s.debug.getD debug) r s.body.stmts := by
  have hproper := parse_proper hparse
  exact (compile_places hproper hcompile).sound hproper.stmts

/-- A loop over a list with a function in it. -/
theorem compile_wellFormed_loop :
    ∃ s r, parse "foreach x in [1, y] do\n f = function(a) return a & x end\n print f(ref x)\nend" = .ok s ∧
      compile s "loop.rill" false = .ok r ∧ (∀ q, Nested r q → WellFormed q) ∧
      PlacesScript StartsLevel (s.debug.getD false) r s.body.stmts := by
  have hrun : ((parse "foreach x in [1, y] do\n f = function(a) return a & x end\n print f(ref x)\nend").toOption.bind
      fun s => (compile s "loop.rill" false).toOption).isSome = true := by
    decide +kernel
  cases hparse :
      parse "foreach x in [1, y] do\n f = function(a) return a & x end\n print f(ref x)\nend" with
  | error e => simp [hparse, Except.toOption] at hrun
  | ok s =>
    cases hcompile : compile s "loop.rill" false with
    | error e => simp [hparse, hcompile, Except.toOption] at hrun
    | ok r => exact ⟨s, r, rfl, hcompile, compile_wellFormed hparse hcompile⟩

end Rill
