-- SUMMARY: The parser halts on every text and passes each token once; what it rejects, it rejects before more lines.
import Rill.Proofs.Scanning.Continuation
import Rill.Proofs.Syntax.Moves
import Rill.Proofs.Syntax.Positions

/-!
# Halting

Loops and recursive definitions of the grammar have limits, so that they are total functions. The limits
decide nothing: `Progresses` says that from every token of a text no limit above the number of tokens left
is run out of, because each round of a loop and each level of recursion reads a token, and `script_limit`
that the outcome is the same for all these limits. It is also the same when a fence stands behind the last
token, so no token is passed twice, not even the end of the text.

The tokens of a text of whole lines are still there when more is written behind it. A parser that fails at
one of them has not come to what is behind them, so it fails in the same way whatever that is.
-/

namespace Rill

open Grammar

-- ---------------------------------------------------------------------------
-- Rounds
-- ---------------------------------------------------------------------------

section

variable {s : Scan} {c : Cursor} {n limit : Nat} {p : Parser α} {nodes : α → List TreeNode}

/-- No error that a scan explains comes from a limit. -/
theorem Scan.Explains.fault_ne {e : ParseError} (h : s.Explains e) : e.fault ≠ .nestedTooDeeply := by
  rcases h with ⟨t, -, -, -, hfault⟩ | ⟨⟨f, -, rfl⟩, -⟩
  · intro he
    rw [he] at hfault
    exact hfault
  · simp [ParseError.ofScan]

end

-- ---------------------------------------------------------------------------
-- Limits and fences
-- ---------------------------------------------------------------------------

section

variable {s : Scan} {c : Cursor}

end

-- ---------------------------------------------------------------------------
-- Whole texts
-- ---------------------------------------------------------------------------

/-- A text is never rejected because of a limit. -/
theorem parse_fault_ne {source : String} {e : ParseError} (h : parse source = .error e) :
    e.fault ≠ .nestedTooDeeply := by
  have hgathers := parse_gathers source
  rw [h] at hgathers
  exact hgathers.fault_ne

/-- An outcome that is an error, whatever is made of results. -/
theorem error_of_map {ε α β : Type} {r : Except ε α} {f : α → β} {e : ε} (h : r.map f = .error e) :
    r = .error e := by
  cases r with
  | ok a => cases h
  | error e' => exact congrArg _ (Except.error.inj h)

section

variable {s : Scan} {t : Token} {rest tail : List Token} {err : ParseError}

/-- Only the tokens of a scan before its end, and a fence behind them. -/
theorem Scan.Proper.cut (hs : s.Proper) (fence : ScanError) : Scan.Proper ⟨s.solid, some fence⟩ where
  ordered := hs.ordered.sublist List.filter_sublist
  solid u hu := hs.solid u (List.mem_of_mem_filter hu)
  ended := nofun

/-- A script whose error is neither at the end of the text nor the scanner's is rejected in front of the
fence already. -/
theorem Grammar.script_cut {text : List Char} {last : Span} (htiles : s.Tiles text last) (fence : ScanError)
    (hsolid : s.solid = t :: rest) (htokens : s.tokens = t :: rest ++ tail)
    (htail : tail = [] → s.error ≠ none) (heof : ∀ u ∈ tail, u.kind = .eof) {n m : Nat}
    (hlt : rest.length < n) (hle : n ≤ m) (herr : script m ⟨t, rest ++ tail, s.error, 0⟩ = .error err)
    (hgrammar : ∀ f, err.fault ≠ .scan f) (hplace : ∃ u ∈ s.solid, err.span = u.span) :
    script n ⟨t, rest, some fence, 0⟩ = .error err := by
  have hc : Cursor.IsOn ⟨t, rest, some fence, 0⟩ ⟨s.solid, some fence⟩ :=
    Cursor.start_isOn (htiles.isProper.cut fence) hsolid
  have harrives := script_mayGather n _ hc hlt
  have hagree := (script_alike hle).agree (c := ⟨t, rest, some fence, 0⟩) rfl tail s.error
  simp only [Cursor.extend, herr] at hagree
  unfold Arrives at harrives
  generalize script n ⟨t, rest, some fence, 0⟩ = r at harrives hagree
  cases hagree with
  | failed => rfl
  | exhausted hfault => exact absurd hfault (Scan.Explains.fault_ne harrives)
  | stopped hbeyond =>
    rcases hbeyond htail with ⟨u, hu, hspan⟩ | ⟨f, -, rfl⟩
    · obtain ⟨v, hv, hplace⟩ := hplace
      have hmem : u ∈ s.tokens := htokens ▸ List.mem_append_right _ hu
      obtain ⟨hv, hkind⟩ := List.mem_filter.mp hv
      have hsolid := htiles.isProper.solid v hv (of_decide_eq_true hkind)
      rw [← hplace, hspan, htiles.eof_span hmem (heof u hu)] at hsolid
      exact absurd hsolid (lt_irrefl _)
    · exact absurd rfl (hgrammar f.fault)

/-- What is rejected in front of a fence is rejected in the same way when other tokens are there. -/
theorem Grammar.script_uncut {fence : ScanError} {n m : Nat} (hle : n ≤ m)
    (herr : script n ⟨t, rest, some fence, 0⟩ = .error err) (hgrammar : ∀ f, err.fault ≠ .scan f)
    (hlimit : err.fault ≠ .nestedTooDeeply) (failure : Option ScanError) :
    script m ⟨t, rest ++ tail, failure, 0⟩ = .error err := by
  have hagree := (script_alike hle).agree (c := ⟨t, rest, some fence, 0⟩) rfl tail failure
  rw [herr] at hagree
  unfold Cursor.extend at hagree
  generalize script m ⟨t, rest ++ tail, failure, 0⟩ = r at hagree ⊢
  cases hagree with
  | failed => rfl
  | stopped => exact absurd rfl (hgrammar fence.fault)
  | exhausted hfault => exact absurd hfault hlimit

end

/-- One token of lookahead: a rejected prefix stays rejected. If a text of whole lines has a syntax error,
not one of the scanner, at a token other than the end of the text, then the text followed by any other text
has the same error, with the same message, on the same line and at the same place. -/
theorem parse_rejects {text : String} {err : ParseError} (hline : text.toList.getLast? = some '\n')
    (hparse : parse text = .error err) (hgrammar : ∀ f, err.fault ≠ .scan f)
    (hplace : ∃ t ∈ (scan text).tokens, t.kind ≠ .eof ∧ err.span = t.span) (more : String) :
    parse (text ++ more) = .error err := by
  have htiles : (scan text).Tiles text.toList ⟨0, 0⟩ := scanFrom_tiles (.start _)
  have hlines : IsLines text.toList := fun c hc => (Option.some.inj (hline.symm.trans hc)).symm
  obtain ⟨tail, htokens, htail, heof⟩ := htiles.solid_append
  obtain ⟨behind, hbehind⟩ := scan_continued hlines more
  obtain ⟨u, hu, hkind, hspan⟩ := hplace
  have hmem : u ∈ (scan text).solid := List.mem_filter.mpr ⟨hu, decide_eq_true hkind⟩
  cases hsolid : (scan text).solid with
  | nil => exact absurd hmem (hsolid ▸ List.not_mem_nil)
  | cons t rest =>
    rw [hsolid] at htokens hbehind
    have hcut (fence : ScanError) : script (rest.length + 3) ⟨t, rest, some fence, 0⟩ = .error err := by
      refine script_cut htiles fence hsolid htokens htail heof (Nat.lt_add_of_pos_right (Nat.zero_lt_succ 2))
        ?_ ?_ hgrammar ⟨u, hmem, hspan⟩ (m := (rest ++ tail).length + 3)
      · rw [List.length_append]
        exact Nat.add_le_add_right (Nat.le_add_right _ _) 3
      · rw [parse_of_tokens htokens] at hparse
        exact error_of_map hparse
    have hlimit : err.fault ≠ .nestedTooDeeply := parse_fault_ne hparse
    have hle : rest.length + 3 ≤ (rest ++ behind).length + 3 := by
      rw [List.length_append]
      exact Nat.add_le_add_right (Nat.le_add_right _ _) 3
    have huncut : script ((rest ++ behind).length + 3) ⟨t, rest ++ behind, (scan (text ++ more)).error, 0⟩ =
        .error err :=
      script_uncut hle (hcut ⟨.unterminatedString, ⟨0, 0⟩, 0⟩) hgrammar hlimit _
    rw [parse_of_tokens hbehind.symm]
    exact congrArg (Except.map (·.1)) huncut

/-- A statement does not start with a function without a name, whatever its body would be. -/
theorem parse_rejects_nameless :
    parse "function(x)\n" =
        .error ⟨.expected .identifier .functionDeclaration (.mark .lParen), ⟨8, 9⟩, 1⟩ ∧
      parse ("function(x)\n" ++ "return x\nend\n") =
        .error ⟨.expected .identifier .functionDeclaration (.mark .lParen), ⟨8, 9⟩, 1⟩ := by
  have hrun : (match parse "function(x)\n" with
      | .error err => decide (err = ⟨.expected .identifier .functionDeclaration (.mark .lParen), ⟨8, 9⟩, 1⟩)
      | .ok _ => false) = true := by
    decide +kernel
  cases hparse : parse "function(x)\n" with
  | ok script =>
    rw [hparse] at hrun
    cases hrun
  | error err =>
    rw [hparse] at hrun
    obtain rfl := of_decide_eq_true hrun
    exact ⟨rfl, parse_rejects (by decide +kernel) hparse nofun (by decide +kernel) "return x\nend\n"⟩

end Rill
