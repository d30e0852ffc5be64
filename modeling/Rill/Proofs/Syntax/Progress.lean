-- SUMMARY: Runs of parsers on the tokens of a scan: how far they go, what they gather, and where they fail.
import Rill.Grammar.Statement
import Rill.Proofs.Syntax.Nodes

/-!
# Progress

`Arrives s p c Q` follows one run of a parser, from a cursor on a token of the scan: it comes to a result
with `Q`, or it fails with an error that the scan explains. The errors a scan explains stand at its tokens
or are its own, so running out of a limit is none of them. `Gathered` is what there is to say about two
cursors of a run and the nodes read between them: tokens never become more, the nodes are a row, and the
literals among the tokens that were passed fit the nodes.
-/

namespace Rill

-- ---------------------------------------------------------------------------
-- Scans
-- ---------------------------------------------------------------------------

/-- A fault that the grammar finds at a token. -/
def ParseFault.OfGrammar : ParseFault → Prop
  | .scan _ | .unreadable _ _ | .nestedTooDeeply => False
  | _ => True

namespace Scan

/-- The tokens follow one another and only the end of the text is empty, which ends them unless there is
an error. -/
structure Proper (s : Scan) : Prop where
  ordered : s.tokens.Pairwise (·.span.stop ≤ ·.span.start)
  solid : ∀ t ∈ s.tokens, t.kind ≠ .eof → t.span.start < t.span.stop
  ended : s.error = none → ∀ t ∈ s.tokens.getLast?, t.kind = .eof

/-- A parser of the scan may fail with this error: at one of its tokens, or behind the last one with the
error of the scan. Nothing is behind the end of the text. -/
def Explains (s : Scan) (e : ParseError) : Prop :=
  (∃ t ∈ s.tokens, e.span = t.span ∧ e.line = t.line ∧ e.fault.OfGrammar) ∨
  (∃ f ∈ s.error, e = .ofScan f) ∧ ∀ t ∈ s.tokens.getLast?, t.kind ≠ .eof

end Scan

-- ---------------------------------------------------------------------------
-- Cursors
-- ---------------------------------------------------------------------------

/-- The cursor is on a token of the scan. -/
structure Cursor.IsOn (c : Cursor) (s : Scan) : Prop where
  proper : s.Proper
  suffix : c.token :: c.rest <:+ s.tokens
  failure : c.failure = s.error
  behind : c.prevEnd ≤ c.token.span.start
  prevEnd : c.prevEnd = 0 ∨ ∃ t ∈ s.tokens, t.kind ≠ .eof ∧ c.prevEnd = t.span.stop

/-- A cursor has moved on from another one, by at least one token if there are fewer left. -/
structure Moved (s : Scan) (c₀ c : Cursor) : Prop where
  first : c₀.IsOn s
  last : c.IsOn s
  fewer : c.rest.length ≤ c₀.rest.length
  start : c₀.token.span.start ≤ c.token.span.start
  prevEnd : c₀.prevEnd ≤ c.prevEnd
  covered : c.rest.length < c₀.rest.length → c₀.token.span.start < c.prevEnd

/-- What is read from one cursor to another. -/
structure Gathered (s : Scan) (c₀ : Cursor) (nodes : List TreeNode) (c : Cursor) : Prop extends
    Moved s c₀ c where
  row : Row s.tokens c₀.token.span.start c.prevEnd nodes
  passed : ∃ tokens, c₀.token :: c₀.rest = tokens ++ c.token :: c.rest ∧ LiteralsFit tokens nodes

/-- The line and the first byte of the token under the cursor. -/
def Cursor.mark (c : Cursor) : Nat × Nat := (c.token.line, c.token.span.start)

/-- The site of a node from the token under `c₀` to the last token read before `c`. -/
def Cursor.siteTo (c₀ c : Cursor) : Site :=
  ⟨c₀.token.line, ⟨c₀.token.span.start, max c.prevEnd c₀.token.span.start⟩⟩

section

variable {s : Scan} {c c₀ c' : Cursor} {nodes more : List TreeNode}

namespace Cursor.IsOn

theorem mem (h : c.IsOn s) : c.token ∈ s.tokens := h.suffix.subset List.mem_cons_self

theorem refl (h : c.IsOn s) : Gathered s c [] c :=
  ⟨⟨h, h, le_rfl, le_rfl, le_rfl, fun hlt => absurd hlt (lt_irrefl _)⟩, .nil, [], rfl, .nil⟩

/-- The last token of a scan is under the cursor when nothing is left. -/
theorem getLast? (h : c.IsOn s) (hrest : c.rest = []) : s.tokens.getLast? = some c.token := by
  obtain ⟨before, hbefore⟩ := h.suffix
  rw [← hbefore, hrest, List.getLast?_concat]

/-- A token that is not the end of the text has one behind it, unless an error is there. -/
theorem moves (h : c.IsOn s) (hkind : c.token.kind ≠ .eof) :
    match c.advance with
    | .ok c' => Moved s c c' ∧ c.rest = c'.token :: c'.rest ∧ c'.prevEnd = c.token.span.stop
    | .error e => s.Explains e := by
  have hsolid := h.proper.solid c.token h.mem hkind
  cases hrest : c.rest with
  | cons t rest =>
    have hsuffix := h.suffix
    have hpairwise := h.proper.ordered.sublist h.suffix.sublist
    rw [hrest] at hsuffix hpairwise
    have hordered : c.token.span.stop ≤ t.span.start :=
      (List.pairwise_cons.mp hpairwise).1 t List.mem_cons_self
    have hnext : Cursor.IsOn { c with token := t, rest := rest, prevEnd := c.token.span.stop } s :=
      ⟨h.proper, (List.suffix_cons _ _).trans hsuffix, h.failure, hordered,
        .inr ⟨c.token, h.mem, hkind, rfl⟩⟩
    have hlength : rest.length ≤ c.rest.length := by
      rw [hrest]
      exact Nat.le_succ _
    simp only [Cursor.advance, hrest]
    exact ⟨⟨h, hnext, hlength, hsolid.le.trans hordered, h.behind.trans hsolid.le, fun _ => hsolid⟩,
      trivial, trivial⟩
  | nil =>
    have hlast := h.getLast? hrest
    cases hfailure : c.failure with
    | none =>
      refine absurd (h.proper.ended ?_ c.token hlast) hkind
      rw [← h.failure, hfailure]
    | some f =>
      simp only [Cursor.advance, hrest, hfailure]
      refine .inr ⟨⟨f, by rw [← h.failure, hfailure]; rfl, rfl⟩, ?_⟩
      rw [hlast]
      rintro t ⟨⟩
      exact hkind

/-- A plain token can be passed, unless an error is behind it. -/
theorem advance (h : c.IsOn s) (hkind : c.token.kind.Plain) :
    match c.advance with
    | .ok c' => Gathered s c [] c' ∧ c'.rest.length < c.rest.length
    | .error e => s.Explains e := by
  have hmoves := h.moves hkind.ne_eof
  cases hc : c.advance with
  | error e =>
    rw [hc] at hmoves
    exact hmoves
  | ok c' =>
    rw [hc] at hmoves
    obtain ⟨hmoved, hrest, -⟩ := hmoves
    refine ⟨⟨hmoved, .nil, [c.token], ?_, .plain hkind⟩, ?_⟩
    · rw [hrest, List.singleton_append]
    · rw [hrest]
      exact Nat.lt_succ_self _

end Cursor.IsOn

namespace Moved

theorem trans (h : Moved s c₀ c) (h' : Moved s c c') : Moved s c₀ c' where
  first := h.first
  last := h'.last
  fewer := h'.fewer.trans h.fewer
  start := h.start.trans h'.start
  prevEnd := h.prevEnd.trans h'.prevEnd
  covered hlt := by
    rcases Nat.lt_or_ge c.rest.length c₀.rest.length with hbefore | hbefore
    · exact (h.covered hbefore).trans_le h'.prevEnd
    · exact h.start.trans_lt (h'.covered (hlt.trans_le hbefore))

theorem siteTo_stop (h : Moved s c₀ c) (hlt : c.rest.length < c₀.rest.length) :
    (c₀.siteTo c).span.stop = c.prevEnd := max_eq_left (h.covered hlt).le

theorem covers (h : Moved s c₀ c) (hlt : c.rest.length < c₀.rest.length) :
    (c₀.siteTo c).Covers s.tokens := by
  have hcovered := h.covered hlt
  refine ⟨⟨c₀.token, h.first.mem, rfl, rfl⟩, ?_, ?_⟩
  · rw [h.siteTo_stop hlt]
    exact h.last.prevEnd.resolve_left (Nat.ne_of_gt (Nat.zero_lt_of_lt hcovered))
  · rw [h.siteTo_stop hlt]
    exact hcovered

/-- A node over all that has been read, with a row of nodes below it. -/
theorem row_node (h : Moved s c₀ c) (hlt : c.rest.length < c₀.rest.length)
    (hrow : Row s.tokens c₀.token.span.start c.prevEnd nodes) {n : TreeNode}
    (hsite : n.site = c₀.siteTo c) (hchildren : n.children = nodes) :
    Row s.tokens c₀.token.span.start c.prevEnd [n] := by
  refine hrow.node ?_ ?_ ?_ hchildren
  · rw [hsite]
    exact h.covers hlt
  · simp only [TreeNode.span, hsite, Cursor.siteTo]
  · simp only [TreeNode.span, hsite, h.siteTo_stop hlt]

end Moved

namespace Gathered

theorem trans (h : Gathered s c₀ nodes c) (h' : Gathered s c more c') :
    Gathered s c₀ (nodes ++ more) c' where
  toMoved := h.toMoved.trans h'.toMoved
  row := h.row.append h'.row h.start h.last.behind h'.prevEnd
  passed := by
    obtain ⟨tokens, htokens, hfit⟩ := h.passed
    obtain ⟨others, hothers, hfit'⟩ := h'.passed
    refine ⟨tokens ++ others, ?_, hfit.append hfit'⟩
    rw [htokens, hothers, List.append_assoc]

/-- Going on without reading nodes. -/
theorem skip (h : Gathered s c₀ nodes c) (h' : Gathered s c [] c') : Gathered s c₀ nodes c' := by
  simpa using h.trans h'

/-- What has been read, with another row of nodes in its place. -/
theorem replace (h : Gathered s c₀ nodes c) (hrow : Row s.tokens c₀.token.span.start c.prevEnd more)
    (hmore : ∀ sign literal, SmallestAt nodes sign literal → SmallestAt more sign literal) :
    Gathered s c₀ more c := by
  obtain ⟨tokens, htokens, hfit⟩ := h.passed
  exact ⟨h.toMoved, hrow, tokens, htokens, hfit.mono hmore⟩

/-- The nodes read become the children of a node. -/
theorem node (h : Gathered s c₀ nodes c) (hlt : c.rest.length < c₀.rest.length) {n : TreeNode}
    (hsite : n.site = c₀.siteTo c) (hchildren : n.children = nodes) : Gathered s c₀ [n] c := by
  refine h.replace (h.row_node hlt h.row hsite hchildren) fun sign literal hat => ?_
  rw [← hchildren] at hat
  exact hat.of_children

/-- The minus sign under the first cursor and the literal of the smallest integer behind it. -/
theorem smallest (h : Gathered s c₀ [] c) (hadvance : c₀.advance = .ok c) (hsign : c₀.token.kind = .mark .minus)
    (hliteral : c.token.kind = .int 0x8000000000000000) (hnext : c.advance = .ok c') :
    Gathered s c₀ [.expr (.int (c₀.siteTo c') Int64.minValue)] c' ∧ c'.rest.length < c.rest.length := by
  have hfirst := h.first.moves (by simp [hsign])
  have hsecond := h.last.moves (by simp [hliteral])
  rw [hadvance] at hfirst
  rw [hnext] at hsecond
  obtain ⟨-, hrest, -⟩ := hfirst
  obtain ⟨hmoved, hrest', hstop⟩ := hsecond
  have hlt : c'.rest.length < c.rest.length := by
    rw [hrest']
    exact Nat.lt_succ_self _
  have hall := h.toMoved.trans hmoved
  have hread := hlt.trans_le h.fewer
  refine ⟨⟨hall, hall.row_node hread .nil rfl rfl, [c₀.token, c.token], ?_, ?_⟩, hlt⟩
  · rw [hrest, hrest']
    rfl
  · refine .smallest hsign hliteral le_rfl ?_
    rw [hall.siteTo_stop hread, hstop]

end Gathered

end

-- ---------------------------------------------------------------------------
-- Runs
-- ---------------------------------------------------------------------------

/-- A run of `p` from `c` comes to a result and a cursor with `Q`, or to an error that the scan explains. -/
def Arrives (s : Scan) (p : Parser α) (c : Cursor) (Q : α → Cursor → Prop) : Prop :=
  match p c with
  | .ok (a, c') => Q a c'
  | .error e => s.Explains e

section

variable {s : Scan} {c c₀ : Cursor} {p : Parser α} {f : α → Parser β} {Q : β → Cursor → Prop}
  {nodes : List TreeNode}

namespace Arrives

theorem pure {b : β} (h : Q b c) : Arrives s (pure b) c Q := h

theorem bind (h : Arrives s p c fun a c' => Arrives s (f a) c' Q) : Arrives s (p >>= f) c Q := by
  simp only [Arrives, Bind.bind, StateT.bind, Except.bind] at h ⊢
  cases hp : p c with
  | error e => simpa only [hp] using h
  | ok r => simpa only [hp] using h

theorem mono {q : Parser β} {Q' : β → Cursor → Prop} (h : Arrives s q c Q) (hQ : ∀ b c', Q b c' → Q' b c') :
    Arrives s q c Q' := by
  unfold Arrives at h ⊢
  cases hq : q c with
  | error e => simpa only [hq] using h
  | ok r =>
    rw [hq] at h
    exact hQ _ _ h

theorem ite {cond : Prop} [Decidable cond] {q q' : Parser β} (hq : cond → Arrives s q c Q)
    (hq' : ¬cond → Arrives s q' c Q) : Arrives s (if cond then q else q') c Q := by
  split
  · next h => exact hq h
  · next h => exact hq' h

theorem fail {fault : ParseFault} (h : c.IsOn s) (hfault : fault.OfGrammar) :
    Arrives s (Parser.fail fault : Parser β) c Q :=
  .inl ⟨c.token, h.mem, rfl, rfl, hfault⟩

theorem expected {what : Expectation} {context : Context} (h : c.IsOn s) :
    Arrives s (Parser.expected what context : Parser β) c Q :=
  .inl ⟨c.token, h.mem, rfl, rfl, trivial⟩

/-- A check that fails at the current token. -/
theorem refuse {cond : Prop} [Decidable cond] {fault : ParseFault} {q : Parser β} (h : c.IsOn s)
    (hfault : fault.OfGrammar) (hq : ¬cond → Arrives s q c Q) :
    Arrives s (if cond then (Parser.fail fault : Parser PUnit) >>= fun _ => q else q) c Q :=
  .ite (fun _ => .bind (.fail h hfault)) hq

/-- Two ways to one result, after which `f` goes on. -/
theorem join {cond : Prop} [Decidable cond] {q : Parser α}
    (h : Arrives s (if cond then p else q) c fun a c' => Arrives s (f a) c' Q) :
    Arrives s (if cond then p >>= f else q >>= f) c Q := by
  split
  · next hcond =>
    rw [if_pos hcond] at h
    exact h.bind
  · next hcond =>
    rw [if_neg hcond] at h
    exact h.bind

end Arrives

-- ---------------------------------------------------------------------------
-- Parsers of nodes
-- ---------------------------------------------------------------------------

/-- From every cursor with fewer than `n` tokens behind it, the parser reads the nodes of its result and
at least one token. -/
def Gathers (s : Scan) (n : Nat) (p : Parser α) (nodes : α → List TreeNode) : Prop :=
  ∀ c, c.IsOn s → c.rest.length < n →
    Arrives s p c fun a c' => Gathered s c (nodes a) c' ∧ c'.rest.length < c.rest.length

/-- The parser reads the nodes of its result, if anything. -/
def MayGather (s : Scan) (n : Nat) (p : Parser α) (nodes : α → List TreeNode) : Prop :=
  ∀ c, c.IsOn s → c.rest.length < n → Arrives s p c fun a c' => Gathered s c (nodes a) c'

variable {n : Nat} {parts : α → List TreeNode}

namespace Gathers

theorem mono {m : Nat} (h : Gathers s n p parts) (hle : m ≤ n) : Gathers s m p parts :=
  fun c hc hlt => h c hc (hlt.trans_le hle)

/-- The parser runs behind nodes that have been read. -/
theorem step (hp : Gathers s n p parts) (h : Gathered s c₀ nodes c) (hlt : c.rest.length < n)
    (hf : ∀ a c', Gathered s c₀ (nodes ++ parts a) c' → c'.rest.length < c.rest.length →
      Arrives s (f a) c' Q) : Arrives s (p >>= f) c Q :=
  .bind ((hp c h.last hlt).mono fun a c' ⟨hr, hfewer⟩ => hf a c' (h.trans hr) hfewer)

end Gathers

namespace MayGather

theorem step (hp : MayGather s n p parts) (h : Gathered s c₀ nodes c) (hlt : c.rest.length < n)
    (hf : ∀ a c', Gathered s c₀ (nodes ++ parts a) c' → c'.rest.length ≤ c.rest.length →
      Arrives s (f a) c' Q) : Arrives s (p >>= f) c Q :=
  .bind ((hp c h.last hlt).mono fun a c' hr => hf a c' (h.trans hr) hr.fewer)

end MayGather

-- ---------------------------------------------------------------------------
-- Basic moves
-- ---------------------------------------------------------------------------

namespace Parser

theorem here_step {f : Nat × Nat → Parser β} (hf : Arrives s (f c.mark) c Q) : Arrives s (here >>= f) c Q :=
  hf

theorem kind_step {f : TokenKind → Parser β} (hf : Arrives s (f c.token.kind) c Q) :
    Arrives s (kind >>= f) c Q :=
  hf

theorem siteFrom_step {f : Site → Parser β} (hf : Arrives s (f (c₀.siteTo c)) c Q) :
    Arrives s (siteFrom c₀.mark >>= f) c Q :=
  hf

theorem atStatementEnd_step {f : Bool → Parser β} (hf : ∀ b, Arrives s (f b) c Q) :
    Arrives s (Grammar.atStatementEnd >>= f) c Q :=
  hf _

/-- The next cursor, or the error that is there instead of a token. -/
theorem moves_step (hc : c.IsOn s) {f : Unit → Parser β} (hkind : c.token.kind ≠ .eof)
    (hf : ∀ c', c.advance = .ok c' → Arrives s (f ()) c' Q) : Arrives s (advance >>= f) c Q := by
  refine .bind ?_
  have hmoves := hc.moves hkind
  unfold Arrives advance
  cases hc' : c.advance with
  | error e =>
    rw [hc'] at hmoves
    exact hmoves
  | ok c' => exact hf c' hc'

variable (h : Gathered s c₀ nodes c)
include h

theorem advance_step {f : Unit → Parser β} (hkind : c.token.kind.Plain)
    (hf : ∀ c', Gathered s c₀ nodes c' → c'.rest.length < c.rest.length → Arrives s (f ()) c' Q) :
    Arrives s (advance >>= f) c Q := by
  refine moves_step h.last hkind.ne_eof fun c' hc => ?_
  have hadvance := h.last.advance hkind
  rw [hc] at hadvance
  exact hf c' (h.skip hadvance.1) hadvance.2

theorem accept_read {k : TokenKind} {f : Bool → Parser β} (hk : k.Plain)
    (hyes : ∀ c', c.token.kind = k → c.advance = .ok c' → Gathered s c₀ nodes c' →
      c'.rest.length < c.rest.length → Arrives s (f true) c' Q)
    (hno : Arrives s (f false) c Q) : Arrives s (accept k >>= f) c Q := by
  refine .bind (kind_step (.ite (fun hkind => ?_) (fun _ => hno)))
  have hplain : c.token.kind.Plain := hkind ▸ hk
  refine moves_step h.last hplain.ne_eof fun c' hc => ?_
  have hadvance := h.last.advance hplain
  rw [hc] at hadvance
  exact hyes c' hkind hc (h.skip hadvance.1) hadvance.2

theorem accept_step {k : TokenKind} {f : Bool → Parser β} (hk : k.Plain)
    (hyes : ∀ c', Gathered s c₀ nodes c' → c'.rest.length < c.rest.length → Arrives s (f true) c' Q)
    (hno : Arrives s (f false) c Q) : Arrives s (accept k >>= f) c Q :=
  accept_read h hk (fun c' _ _ => hyes c') hno

theorem acceptKw_step {w : Keyword} {f : Bool → Parser β}
    (hyes : ∀ c', Gathered s c₀ nodes c' → c'.rest.length < c.rest.length → Arrives s (f true) c' Q)
    (hno : Arrives s (f false) c Q) : Arrives s (acceptKw w >>= f) c Q :=
  accept_step h trivial hyes hno

theorem acceptMark_step {m : Mark} {f : Bool → Parser β}
    (hyes : ∀ c', Gathered s c₀ nodes c' → c'.rest.length < c.rest.length → Arrives s (f true) c' Q)
    (hno : Arrives s (f false) c Q) : Arrives s (acceptMark m >>= f) c Q :=
  accept_step h trivial hyes hno

theorem acceptMark_read {m : Mark} {f : Bool → Parser β}
    (hyes : ∀ c', c.token.kind = .mark m → c.advance = .ok c' → Gathered s c₀ nodes c' →
      c'.rest.length < c.rest.length → Arrives s (f true) c' Q)
    (hno : Arrives s (f false) c Q) : Arrives s (acceptMark m >>= f) c Q :=
  accept_read h trivial hyes hno

/-- Whether the keyword is there matters only for the result. -/
theorem acceptKw_either {w : Keyword} {f : Bool → Parser β}
    (hf : ∀ b c', Gathered s c₀ nodes c' → c'.rest.length ≤ c.rest.length → Arrives s (f b) c' Q) :
    Arrives s (acceptKw w >>= f) c Q :=
  acceptKw_step h (fun c' h' hlt => hf true c' h' hlt.le) (hf false c h le_rfl)

/-- Whether the mark is there matters only for the result. -/
theorem acceptMark_either {m : Mark} {f : Bool → Parser β}
    (hf : ∀ b c', Gathered s c₀ nodes c' → c'.rest.length ≤ c.rest.length → Arrives s (f b) c' Q) :
    Arrives s (acceptMark m >>= f) c Q :=
  acceptMark_step h (fun c' h' hlt => hf true c' h' hlt.le) (hf false c h le_rfl)

theorem expect_step {k : TokenKind} {context : Context} {f : Unit → Parser β} (hk : k.Plain)
    (hf : ∀ c', Gathered s c₀ nodes c' → c'.rest.length < c.rest.length → Arrives s (f ()) c' Q) :
    Arrives s (expect k context >>= f) c Q := by
  refine .bind (accept_step h hk (fun c' h' hlt => ?_) (.expected h.last))
  exact .pure (hf c' h' hlt)

theorem expectKw_step {w : Keyword} {context : Context} {f : Unit → Parser β}
    (hf : ∀ c', Gathered s c₀ nodes c' → c'.rest.length < c.rest.length → Arrives s (f ()) c' Q) :
    Arrives s (expectKw w context >>= f) c Q :=
  expect_step h trivial hf

theorem expectMark_step {m : Mark} {context : Context} {f : Unit → Parser β}
    (hf : ∀ c', Gathered s c₀ nodes c' → c'.rest.length < c.rest.length → Arrives s (f ()) c' Q) :
    Arrives s (expectMark m context >>= f) c Q :=
  expect_step h trivial hf

theorem ident_step {context : Context} {f : String → Parser β}
    (hf : ∀ name c', Gathered s c₀ nodes c' → c'.rest.length < c.rest.length → Arrives s (f name) c' Q) :
    Arrives s (ident context >>= f) c Q := by
  refine .bind (kind_step ?_)
  split
  · next name hkind =>
    refine advance_step h (hkind ▸ trivial) fun c' h' hlt => ?_
    exact .pure (hf name c' h' hlt)
  · exact .expected h.last

omit h in
/-- Passing tokens never ends for want of a limit that is larger than the number of tokens left. -/
theorem skipWhile_arrives {p : Token → Bool} (hp : ∀ t, p t = true → t.kind.Plain) {limit : Nat}
    (hc : c.IsOn s) (hlimit : c.rest.length < limit) :
    Arrives s (skipWhile p limit) c fun _ c' => Gathered s c [] c' := by
  induction limit generalizing c with
  | zero => exact absurd hlimit (Nat.not_lt_zero _)
  | succ limit ih =>
    unfold Arrives skipWhile
    cases htoken : p c.token with
    | false => simpa using hc.refl
    | true =>
      have hadvance := hc.advance (hp _ htoken)
      simp only [if_true]
      cases hc' : c.advance with
      | error e => simpa only [hc'] using hadvance
      | ok c' =>
        rw [hc'] at hadvance
        exact (ih hadvance.1.last (hadvance.2.trans_le (Nat.le_of_lt_succ hlimit))).mono fun _ _ h' =>
          hadvance.1.skip h'

omit h in
theorem skipSeparators_arrives (hc : c.IsOn s) :
    Arrives s skipSeparators c fun _ c' => Gathered s c [] c' := by
  refine skipWhile_arrives (fun t ht => ?_) hc (Nat.lt_add_of_pos_right Nat.two_pos)
  unfold Token.isSeparator at ht
  split at ht
  · next hkind => exact hkind ▸ trivial
  · next hkind => exact hkind ▸ trivial
  · cases ht

theorem skipSeparators_step {f : Unit → Parser β}
    (hf : ∀ c', Gathered s c₀ nodes c' → c'.rest.length ≤ c.rest.length → Arrives s (f ()) c' Q) :
    Arrives s (skipSeparators >>= f) c Q :=
  .bind ((skipSeparators_arrives h.last).mono fun _ c' h' => hf c' (h.skip h') h'.fewer)

omit h in
theorem skipNewlines_arrives (hc : c.IsOn s) :
    Arrives s skipNewlines c fun _ c' => Gathered s c [] c' := by
  refine skipWhile_arrives (fun t ht => ?_) hc (Nat.lt_add_of_pos_right Nat.two_pos)
  rw [of_decide_eq_true ht]
  trivial

theorem skipNewlines_step {f : Unit → Parser β}
    (hf : ∀ c', Gathered s c₀ nodes c' → c'.rest.length ≤ c.rest.length → Arrives s (f ()) c' Q) :
    Arrives s (skipNewlines >>= f) c Q :=
  .bind ((skipNewlines_arrives h.last).mono fun _ c' h' => hf c' (h.skip h') h'.fewer)

end Parser

end

end Rill
