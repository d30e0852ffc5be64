-- SUMMARY: The positions of a syntax tree, and of a syntax error, are those of its source text.
import Rill.Proofs.Syntax.Gathering

/-!
# Positions

A text is scanned properly, so its parse gathers nodes that stand on its tokens. From there it is a matter
of reading: `parse_positions` says in terms of the text what that means for every node of a script.
-/

namespace Rill

-- ---------------------------------------------------------------------------
-- The tokens of a text
-- ---------------------------------------------------------------------------

namespace Scan.Tiles

variable {s : Scan} {text : List Char} {last : Span}

theorem isProper (h : s.Tiles text last) : s.Proper where
  ordered := by
    have hordered := (List.pairwise_cons.mp h.ordered).2
    rw [spans, List.pairwise_append] at hordered
    exact List.pairwise_map.mp hordered.1
  solid := h.proper
  ended hnone t ht := by
    have hended := h.ended
    rw [hnone] at hended
    obtain ⟨tokens, line, -, htokens⟩ := hended
    rw [htokens, List.getLast?_concat] at ht
    rw [← Option.some.inj ht]

/-- The end of the text is an empty token there. -/
theorem eof_span (h : s.Tiles text last) {t : Token} (ht : t ∈ s.tokens) (hkind : t.kind = .eof) :
    t.span = ⟨byteLength text, byteLength text⟩ := by
  have hended := h.ended
  cases herror : s.error with
  | some e =>
    rw [herror] at hended
    exact absurd hkind (hended.1 t ht)
  | none =>
    rw [herror] at hended
    obtain ⟨tokens, line, hsolid, htokens⟩ := hended
    rw [htokens, List.mem_append, List.mem_singleton] at ht
    rcases ht with ht | rfl
    · exact absurd hkind (hsolid t ht)
    · rfl

theorem stop_le (h : s.Tiles text last) {t : Token} (ht : t ∈ s.tokens) : t.span.stop ≤ byteLength text := by
  obtain ⟨piece, before, after, htext, hstart, hstop⟩ :=
    h.cut t.span (List.mem_append_left _ (List.mem_map_of_mem ht))
  rw [htext, byteLength_append, byteLength_append, hstart, hstop]
  exact Nat.le_add_right _ _

end Scan.Tiles

/-- The cursor at the start of a text is on its first token. -/
theorem Cursor.start_isOn {s : Scan} (hs : s.Proper) {t : Token} {rest : List Token}
    (htokens : s.tokens = t :: rest) : Cursor.IsOn ⟨t, rest, s.error, 0⟩ s where
  proper := hs
  suffix := htokens ▸ List.suffix_refl _
  failure := rfl
  behind := Nat.zero_le _
  prevEnd := .inl rfl

/-- The parse of a text is a run from its first token. -/
theorem parse_of_tokens {source : String} {t : Token} {rest : List Token}
    (htokens : (scan source).tokens = t :: rest) :
    parse source = (Grammar.script (rest.length + 3) ⟨t, rest, (scan source).error, 0⟩).map (·.1) := by
  simp only [parse, Cursor.start, htokens, bind, Except.bind, List.length_cons]
  split
  · next hscript => rw [hscript]; rfl
  · next hscript => rw [hscript]; rfl

/-- A text without a first token has an error in front of everything. -/
theorem parse_of_nil {source : String} (htokens : (scan source).tokens = []) :
    ∃ f ∈ (scan source).error, parse source = .error (.ofScan f) := by
  cases herror : (scan source).error with
  | some f =>
    refine ⟨f, rfl, ?_⟩
    simp only [parse, Cursor.start, htokens, herror, bind, Except.bind]
  | none =>
    have htiles : (scan source).Tiles source.toList ⟨0, 0⟩ := scanFrom_tiles (.start _)
    have hended := htiles.ended
    rw [herror, htokens] at hended
    obtain ⟨tokens, line, -, hnil⟩ := hended
    exact absurd hnil.symm (List.append_ne_nil_of_right_ne_nil _ (List.cons_ne_nil _ _))

/-- The parse of a text gathers the nodes of the script, or fails where the scan explains it. -/
theorem parse_gathers (source : String) :
    match parse source with
    | .ok script => ∃ lo hi, Row (scan source).tokens lo hi script.body.nodes
    | .error e => (scan source).Explains e := by
  cases htokens : (scan source).tokens with
  | cons t rest =>
    have htiles : (scan source).Tiles source.toList ⟨0, 0⟩ := scanFrom_tiles (.start _)
    have hc := Cursor.start_isOn htiles.isProper htokens
    have hscript := Grammar.script_mayGather (rest.length + 3) _ hc (by simp)
    unfold Arrives at hscript
    rw [parse_of_tokens htokens, ← htokens]
    split at hscript
    · next script c hrun =>
      rw [hrun]
      exact ⟨_, _, hscript.row⟩
    · next e hrun =>
      rw [hrun]
      exact hscript
  | nil =>
    obtain ⟨f, hf, hparse⟩ := parse_of_nil htokens
    rw [hparse]
    refine .inr ⟨⟨f, hf, rfl⟩, fun t ht => ?_⟩
    rw [htokens] at ht
    cases ht

-- ---------------------------------------------------------------------------
-- The nodes of a script
-- ---------------------------------------------------------------------------

/-- The node has the position that the text gives it: a piece from the start of one token to the end of
another, on the line where it starts, with its children inside it and apart from each other. -/
structure TreeNode.PlacedIn (n : TreeNode) (source : String) : Prop where
  first : ∃ t ∈ (scan source).tokens, t.kind ≠ .eof ∧ n.span.start = t.span.start
  last : ∃ t ∈ (scan source).tokens, t.kind ≠ .eof ∧ n.span.stop = t.span.stop
  nonempty : n.span.start < n.span.stop
  within : n.span.stop ≤ byteLength source.toList
  line : IsLineAt source.toList n.span.start n.site.line
  inside : ∀ child ∈ n.children, n.span.start ≤ child.span.start ∧ child.span.stop ≤ n.span.stop
  apart : n.children.Pairwise (·.span.stop ≤ ·.span.start)

namespace TreeNode.Stands

theorem placedIn {source : String} {n : TreeNode} (h : n.Stands (scan source).tokens) : n.PlacedIn source := by
  have htiles : (scan source).Tiles source.toList ⟨0, 0⟩ := scanFrom_tiles (.start _)
  obtain ⟨⟨⟨t, ht, hstart, hline⟩, ⟨u, hu, hkind, hstop⟩, hlt⟩, hinside, hapart, -⟩ := h
  have hwithin : n.span.stop ≤ byteLength source.toList := hstop.trans_le (htiles.stop_le hu)
  refine ⟨⟨t, ht, fun heof => ?_, hstart⟩, ⟨u, hu, hkind, hstop⟩, hlt, hwithin, ?_, hinside, hapart⟩
  · have hend : n.span.start = byteLength source.toList := by
      rw [show n.span.start = t.span.start from hstart, htiles.eof_span ht heof]
    exact absurd (hlt.trans_le hwithin) (Nat.not_lt.mpr hend.ge)
  · rw [show n.span.start = t.span.start from hstart, hline]
    exact htiles.lines t ht

end TreeNode.Stands

theorem Script.Has.stands {script : Script} {n : TreeNode} (h : script.Has n) {tokens : List Token}
    {lo hi : Nat} (hrow : Row tokens lo hi script.body.nodes) : n.Stands tokens := by
  induction h with
  | top hn => exact hrow.stands _ hn
  | inside _ hchild ih =>
    obtain ⟨-, -, -, hchildren⟩ := ih
    exact hchildren _ hchild

/-- Syntax trees have consistent positions. Every expression and statement of a text that is parsed spans a
piece of it from the start of a token to the end of a token, on the line that it says; its children are
inside that piece and do not overlap, nor do the statements of the script. A text that is rejected is
rejected on the line of the reported span. -/
theorem parse_positions (source : String) :
    match parse source with
    | .ok script =>
      (∀ n, script.Has n → n.PlacedIn source) ∧
        script.body.nodes.Pairwise (·.span.stop ≤ ·.span.start)
    | .error e => IsLineAt source.toList e.span.start e.line := by
  have hgathers := parse_gathers source
  have htiles : (scan source).Tiles source.toList ⟨0, 0⟩ := scanFrom_tiles (.start _)
  cases hparse : parse source with
  | ok script =>
    rw [hparse] at hgathers
    obtain ⟨lo, hi, hrow⟩ := hgathers
    exact ⟨fun n hn => (hn.stands hrow).placedIn, hrow.apart⟩
  | error e =>
    rw [hparse] at hgathers
    rcases hgathers with ⟨t, ht, hspan, hline, -⟩ | ⟨⟨f, hf, rfl⟩, -⟩
    · simp only
      rw [hspan, hline]
      exact htiles.lines t ht
    · exact htiles.errorLine f hf

end Rill
