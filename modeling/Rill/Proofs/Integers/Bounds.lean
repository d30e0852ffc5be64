-- SUMMARY: No integer literal beyond the largest integer is accepted, but for the first behind a minus sign.
import Rill.Proofs.Scanning.Literals
import Rill.Proofs.Syntax.Positions
import Rill.Proofs.Syntax.Yields

/-!
# Bounds of integers

A parse reads all tokens of a text, up to its end, so all literals fit the nodes of the script. A literal
that is too large for a token is an error of the scanner, and then there is no script either.
-/

namespace Rill

-- ---------------------------------------------------------------------------
-- Whole scripts
-- ---------------------------------------------------------------------------

/-- The statements of a script go on to the end of the text. -/
theorem Grammar.topLevel_ends {statement : Parser Stmt} {limit : Nat} {c c' : Cursor} {stmts : List Stmt}
    (h : Grammar.topLevel statement limit c = .ok (stmts, c')) : c'.token.kind = .eof := by
  induction limit generalizing c stmts with
  | zero => cases h
  | succ limit ih =>
    rw [Grammar.topLevel] at h
    obtain ⟨kind, c₁, hkind, h⟩ := Parser.bind_ok h
    obtain ⟨rfl, rfl⟩ : c.token.kind = kind ∧ c = c₁ := by simpa [Parser.kind] using hkind
    split at h
    · next heof =>
      obtain ⟨-, rfl⟩ := Parser.pure_ok h
      exact heof
    obtain ⟨s, c₁, -, h⟩ := Parser.bind_ok h
    obtain ⟨_, c₂, -, h⟩ := Parser.bind_ok h
    obtain ⟨k, c₃, -, h⟩ := Parser.bind_ok h
    split at h
    · obtain ⟨_, _, hexpected, -⟩ := Parser.bind_ok h
      cases hexpected
    · obtain ⟨others, c₄, hothers, h⟩ := Parser.bind_ok h
      obtain ⟨-, rfl⟩ := Parser.pure_ok h
      exact ih hothers

theorem Grammar.script_ends {limit : Nat} {c c' : Cursor} {script : Script}
    (h : Grammar.script limit c = .ok (script, c')) : c'.token.kind = .eof := by
  rw [Grammar.script] at h
  obtain ⟨start, c₁, -, h⟩ := Parser.bind_ok h
  obtain ⟨_, c₂, -, h⟩ := Parser.bind_ok h
  obtain ⟨debug, c₃, -, h⟩ := Parser.bind_ok h
  obtain ⟨stmts, c₄, htop, h⟩ := Parser.bind_ok h
  obtain ⟨-, rfl⟩ := Parser.pure_ok h
  exact Grammar.topLevel_ends htop

/-- A text that is parsed is scanned without an error, and all its literals fit the nodes of the script. -/
theorem parse_fits {source : String} {script : Script} (h : parse source = .ok script) :
    (scan source).error = none ∧ LiteralsFit (scan source).tokens script.body.nodes := by
  have htiles : (scan source).Tiles source.toList ⟨0, 0⟩ := scanFrom_tiles (.start _)
  cases htokens : (scan source).tokens with
  | nil =>
    obtain ⟨f, -, herror⟩ := parse_of_nil htokens
    rw [herror] at h
    cases h
  | cons t rest =>
    have hstart := Cursor.start_isOn htiles.isProper htokens
    have hscript := Grammar.script_mayGather (rest.length + 3) _ hstart (by simp)
    rw [parse_of_tokens htokens] at h
    unfold Arrives at hscript
    cases hrun : Grammar.script (rest.length + 3) ⟨t, rest, (scan source).error, 0⟩ with
    | error e =>
      rw [hrun] at h
      cases h
    | ok r =>
      obtain ⟨script', c⟩ := r
      rw [hrun] at h hscript
      obtain rfl : script' = script := Except.ok.inj h
      obtain ⟨passed, hpassed, hfit⟩ := hscript.passed
      have heof := Grammar.script_ends hrun
      have hall : (scan source).tokens = passed ++ c.token :: c.rest := htokens.trans hpassed
      have hended := htiles.ended
      cases herror : (scan source).error with
      | some e =>
        rw [herror] at hended
        exact absurd heof (hended.1 c.token (hall ▸ by simp))
      | none =>
        rw [herror] at hended
        obtain ⟨solid, line, hsolid, hlast⟩ := hended
        have hrest : c.rest = [] := by
          have hfront : solid = passed ++ (c.token :: c.rest).dropLast := by
            rw [← List.dropLast_append_of_ne_nil (List.cons_ne_nil _ _), ← hall, hlast, List.dropLast_concat]
          cases hbehind : c.rest with
          | nil => rfl
          | cons u us =>
            refine absurd heof (hsolid c.token ?_)
            rw [hfront, hbehind, List.dropLast_cons_cons]
            exact List.mem_append_right _ List.mem_cons_self
        have hlastFit : LiteralsFit [c.token] [] := .single fun n hn => nomatch heof.symm.trans hn
        have hwhole := hfit.append hlastFit
        rw [hrest] at hpassed
        rw [List.append_nil, ← hpassed] at hwhole
        exact ⟨rfl, hwhole⟩

-- ---------------------------------------------------------------------------
-- Literals in a text
-- ---------------------------------------------------------------------------

/-- Scanning comes to an integer literal: a digit, and all digits and underscores behind it, without a point
there. -/
def IsIntegerAt (source : String) (p : Position) (digits : List Char) : Prop :=
  ∃ d whole rest, digits = d :: whole ∧ Leaves source.toList p (d :: (whole ++ rest)) ∧
    d.isDigit = true ∧ (∀ c ∈ whole, isNumeral c = true) ∧
    ∀ c ∈ rest.head?, isNumeral c = false ∧ c ≠ '.'

/-- A literal is the operand of a minus sign in a script: its token is behind the sign, and a node of the
script with the smallest integer has both. -/
def Script.Negates (script : Script) (source : String) (p : Position) : Prop :=
  ∃ sign literal site, [sign, literal] <:+: (scan source).tokens ∧ sign.kind = .mark .minus ∧
    literal.kind = .int 0x8000000000000000 ∧ literal.span.start = p.offset ∧
    script.Has (.expr (.int site Int64.minValue)) ∧
    site.span.start ≤ sign.span.start ∧ literal.span.stop ≤ site.span.stop

theorem Script.has_of_under {script : Script} {n : TreeNode} (h : Under script.body.nodes n) : script.Has n := by
  induction h with
  | top hn => exact .top hn
  | inside _ hchild ih => exact .inside ih hchild

/-- A literal is a token with its value, or else the text has an error. -/
theorem IsIntegerAt.token {source : String} {p : Position} {digits : List Char}
    (h : IsIntegerAt source p digits) (hscan : (scan source).error = none) :
    ∃ t ∈ (scan source).tokens, t.kind = .int (digitsValue digits) ∧ t.span.start = p.offset := by
  obtain ⟨d, whole, rest, rfl, hplace, hd, hwhole, hrest⟩ := h
  obtain ⟨-, tokens, hscanned⟩ := hplace.scanned
  have hmunch : munch d (whole ++ rest) = _ := (munch_digit hd _).trans (munchNumber_whole d hwhole hrest)
  by_cases hfits : digitsValue (d :: whole) < 0x10000000000000000
  · rw [if_pos hfits] at hmunch
    rw [scanFrom_munched hmunch] at hscanned
    rw [scan, hscanned]
    exact ⟨_, List.mem_append_right _ List.mem_cons_self, rfl, rfl⟩
  · rw [if_neg hfits] at hmunch
    rw [scanFrom] at hscanned
    simp only [hmunch] at hscanned
    rw [scan, hscanned] at hscan
    cases hscan

/-- An integer literal above the largest integer is rejected with a syntax error, unless it is the one
directly behind the largest integer and has a minus sign in front of it. -/
theorem IsIntegerAt.rejected {source : String} {p : Position} {digits : List Char}
    (h : IsIntegerAt source p digits) (hlarge : 0x7fffffffffffffff < digitsValue digits) :
    (∃ e, parse source = .error e) ∨
      digitsValue digits = 0x8000000000000000 ∧
        ∃ script, parse source = .ok script ∧ script.Negates source p := by
  cases hparse : parse source with
  | error e => exact .inl ⟨e, rfl⟩
  | ok script =>
    obtain ⟨hscan, hfit⟩ := parse_fits hparse
    obtain ⟨t, ht, hkind, hstart⟩ := h.token hscan
    obtain ⟨hvalue, sign, hinfix, hsign, site, hunder, hspan⟩ := hfit t ht _ hkind hlarge
    rw [hvalue] at hkind
    exact .inr ⟨hvalue, script, rfl, sign, t, site, hinfix, hsign, hkind, hstart,
      Script.has_of_under hunder, hspan⟩

end Rill
