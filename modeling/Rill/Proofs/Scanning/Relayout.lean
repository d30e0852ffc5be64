-- SUMMARY: The tokens of a text stay the same when the blanks and comments between them change.
import Mathlib.Data.List.Forall2
import Rill.Proofs.Scanning.Lexemes

/-!
# Layout

The spans of a scan cut its text into pieces, one for each token. Written one behind the other with other
blanks and comments between them, the pieces are scanned to the same tokens. Two pieces may even stand side
by side, as long as each is followed by the character that followed it in the text.
-/

namespace Rill

-- ---------------------------------------------------------------------------
-- Pieces
-- ---------------------------------------------------------------------------

/-- A piece of a text: its characters, and the one behind them if the text goes on. -/
structure Piece where
  chars : List Char
  next : Option Char
  deriving Repr, DecidableEq

namespace Span

/-- The characters that start within a span, the first of `cs` standing at `offset`. -/
def sliceFrom (s : Span) (offset : Nat) : List Char → List Char
  | [] => []
  | c :: cs =>
    if s.start ≤ offset ∧ offset < s.stop then c :: s.sliceFrom (offset + c.utf8Size) cs
    else s.sliceFrom (offset + c.utf8Size) cs

/-- The characters of a text that start within a span. -/
def slice (s : Span) (text : List Char) : List Char := s.sliceFrom 0 text

/-- What a span cuts out of a text. -/
def piece (s : Span) (text : List Char) : Piece :=
  ⟨s.slice text, (slice ⟨s.stop, byteLength text⟩ text).head?⟩

variable {s : Span} {text before chars after : List Char}

theorem sliceFrom_append (offset : Nat) (xs ys : List Char) :
    s.sliceFrom offset (xs ++ ys) = s.sliceFrom offset xs ++ s.sliceFrom (offset + byteLength xs) ys := by
  induction xs generalizing offset with
  | nil => rfl
  | cons c xs ih =>
    have hoffset : offset + byteLength (c :: xs) = offset + c.utf8Size + byteLength xs :=
      (Nat.add_assoc _ _ _).symm
    rw [List.cons_append, sliceFrom, sliceFrom, ih, hoffset]
    split <;> rfl

theorem sliceFrom_outside {offset : Nat} {cs : List Char}
    (h : offset + byteLength cs ≤ s.start ∨ s.stop ≤ offset) : s.sliceFrom offset cs = [] := by
  induction cs generalizing offset with
  | nil => rfl
  | cons c cs ih =>
    have hlength : byteLength (c :: cs) = c.utf8Size + byteLength cs := rfl
    have hpos := c.utf8Size_pos
    rw [sliceFrom, if_neg (by omega), ih (by omega)]

theorem sliceFrom_inside {offset : Nat} {cs : List Char} (hstart : s.start ≤ offset)
    (hstop : offset + byteLength cs ≤ s.stop) : s.sliceFrom offset cs = cs := by
  induction cs generalizing offset with
  | nil => rfl
  | cons c cs ih =>
    have hlength : byteLength (c :: cs) = c.utf8Size + byteLength cs := rfl
    have hpos := c.utf8Size_pos
    rw [sliceFrom, if_pos (by omega), ih (by omega) (by omega)]

theorem slice_eq (htext : text = before ++ chars ++ after) (hstart : byteLength before = s.start)
    (hstop : byteLength (before ++ chars) = s.stop) : s.slice text = chars := by
  rw [byteLength_append] at hstop
  rw [slice, htext, sliceFrom_append, sliceFrom_append, sliceFrom_outside (.inl (by omega)),
    sliceFrom_inside (by omega) (by omega), sliceFrom_outside (.inr _)]
  · simp
  · rw [byteLength_append]
    omega

theorem piece_eq (htext : text = before ++ chars ++ after) (hstart : byteLength before = s.start)
    (hstop : byteLength (before ++ chars) = s.stop) : s.piece text = ⟨chars, after.head?⟩ := by
  have hend : byteLength (before ++ chars ++ after) = byteLength text := by rw [htext]
  have hafter : slice ⟨s.stop, byteLength text⟩ text = after :=
    slice_eq (htext.trans (List.append_nil _).symm) hstop hend
  rw [piece, slice_eq htext hstart hstop, hafter]

end Span

/-- What the tokens of a text cut out of it, its end excepted. -/
def Scan.pieces (s : Scan) (text : List Char) : List Piece := s.solid.map (·.span.piece text)

/-- A piece is a token of this kind wherever it is ended alike. -/
def Piece.Makes (piece : Piece) (kind : TokenKind) : Prop :=
  ∃ c cs, piece.chars = c :: cs ∧
    ∀ after, EndsAlike piece.next after → munch c (cs ++ after) = ⟨cs.length, .token kind⟩

/-- The pieces of a text and the layout between them. Where a piece has nothing in front of it that separates
tokens, it begins with the character that the one before it was followed by. -/
inductive LaidOut : List Piece → List Char → Prop
  | nil {gap : List Char} : IsTrivia gap [] → LaidOut [] gap
  | cons {gap rest : List Char} {piece : Piece} {pieces : List Piece} :
      IsTrivia gap (piece.chars ++ rest) → EndsAlike piece.next rest → LaidOut pieces rest →
      LaidOut (piece :: pieces) (gap ++ (piece.chars ++ rest))

/-- The pieces one behind the other, with spaces and tabs between them. -/
inductive Respaced : List (List Char) → List Char → Prop
  | nil : Respaced [] []
  | single (chars : List Char) : Respaced [chars] chars
  | cons {chars gap next rest : List Char} {others : List (List Char)} :
      gap ≠ [] → (∀ c ∈ gap, c = ' ' ∨ c = '\t') → Respaced (next :: others) rest →
      Respaced (chars :: next :: others) (chars ++ (gap ++ rest))

-- ---------------------------------------------------------------------------
-- Layout
-- ---------------------------------------------------------------------------

theorem isLayout_of_mem {c : Char} (h : c ∈ [' ', '\t', '\r', '\x0b', '\x0c']) : isLayout c = true := by
  simpa [isLayout, or_assoc] using h

theorem scanFrom_blanks {blanks : List Char} (hblanks : ∀ c ∈ blanks, c ∈ [' ', '\t', '\r', '\x0b', '\x0c'])
    (p : Position) (rest : List Char) : scanFrom p (blanks ++ rest) = scanFrom (p.after blanks) rest := by
  induction blanks generalizing p with
  | nil => rfl
  | cons c cs ih =>
    obtain ⟨hc, hcs⟩ := List.forall_mem_cons.mp hblanks
    rw [List.cons_append, scanFrom_layout (isLayout_of_mem hc), ih hcs, after_append, List.singleton_append]

theorem scanFrom_comment {body rest : List Char} (hbody : '\n' ∉ body) (hrest : ∀ c ∈ rest.head?, c = '\n')
    (p : Position) : scanFrom p ('#' :: body ++ rest) = scanFrom (p.after ('#' :: body)) rest := by
  have hrun : runLength (· != '\n') (body ++ rest) = body.length := by
    rw [runLength, takeWhile_run]
    · rintro c hc
      simpa using fun heq : c = '\n' => hbody (heq ▸ hc)
    · intro c hc
      simpa using hrest c hc
  have hmunch : munch '#' (body ++ rest) = ⟨body.length, .blank⟩ := by
    rw [← hrun]
    rfl
  rw [List.cons_append, scanFrom]
  simp only [hmunch, List.take_left, List.drop_left]

/-- What separates tokens makes none. -/
theorem scanFrom_trivia {gap rest : List Char} (h : IsTrivia gap rest) (p : Position) :
    scanFrom p (gap ++ rest) = scanFrom (p.after gap) rest := by
  obtain ⟨blanks, comment, rfl, hblanks, rfl | ⟨body, rfl, hbody, hend⟩⟩ := h
  · rw [List.append_nil]
    exact scanFrom_blanks hblanks p rest
  · rw [List.append_assoc, scanFrom_blanks hblanks, scanFrom_comment hbody hend, after_append]

theorem IsTrivia.prepend {blanks gap rest : List Char}
    (hblanks : ∀ c ∈ blanks, c ∈ [' ', '\t', '\r', '\x0b', '\x0c']) (h : IsTrivia gap rest) :
    IsTrivia (blanks ++ gap) rest := by
  obtain ⟨more, comment, rfl, hmore, hcomment⟩ := h
  refine ⟨blanks ++ more, comment, (List.append_assoc _ _ _).symm, fun c hc => ?_, hcomment⟩
  exact (List.mem_append.mp hc).elim (hblanks c) (hmore c)

namespace LaidOut

theorem prepend {pieces : List Piece} {blanks cs : List Char}
    (hblanks : ∀ c ∈ blanks, c ∈ [' ', '\t', '\r', '\x0b', '\x0c']) (h : LaidOut pieces cs) :
    LaidOut pieces (blanks ++ cs) := by
  cases h with
  | nil hgap => exact .nil (hgap.prepend hblanks)
  | cons hgap hends hrest =>
    rw [← List.append_assoc]
    exact .cons (hgap.prepend hblanks) hends hrest

/-- Spaces and tabs are layout. -/
theorem of_respaced {pieces : List Piece} {cs : List Char} (h : Respaced (pieces.map (·.chars)) cs) :
    LaidOut pieces cs := by
  generalize hchars : pieces.map (·.chars) = all at h
  induction h generalizing pieces with
  | nil =>
    obtain rfl := List.map_eq_nil_iff.mp hchars
    exact .nil (.nil [])
  | single chars =>
    obtain ⟨piece, rest, rfl, rfl, hrest⟩ := List.map_eq_cons_iff.mp hchars
    obtain rfl := List.map_eq_nil_iff.mp hrest
    have hlaid : LaidOut [piece] ([] ++ (piece.chars ++ [])) := .cons (.nil _) nofun (.nil (.nil []))
    simpa using hlaid
  | @cons chars gap next rest others hne hgap _ ih =>
    obtain ⟨piece, pieces, rfl, rfl, hpieces⟩ := List.map_eq_cons_iff.mp hchars
    have hblanks : ∀ c ∈ gap, c ∈ [' ', '\t', '\r', '\x0b', '\x0c'] := by
      intro c hc
      rcases hgap c hc with rfl | rfl <;> simp
    have hends : EndsAlike piece.next (gap ++ rest) := by
      intro c hc
      rw [List.head?_append_of_ne_nil gap hne] at hc
      exact .inr (List.mem_append_left ['#'] (hblanks c (List.mem_of_mem_head? hc)))
    exact .cons (.nil _) hends ((ih hpieces).prepend hblanks)

end LaidOut

-- ---------------------------------------------------------------------------
-- Scanning
-- ---------------------------------------------------------------------------

section

variable {text before gap rest : List Char} {last : Span} {p : Position} {c : Char} {cs : List Char}

/-- The piece that a lexeme is. -/
theorem Reached.piece_eq (h : Reached text before gap (c :: cs) last p) (extra : Nat) :
    Span.piece ⟨p.offset, (p.after (c :: cs.take extra)).offset⟩ text =
      ⟨c :: cs.take extra, (cs.drop extra).head?⟩ := by
  have hnext := h.piece extra
  refine Span.piece_eq ?_ ?_ hnext.stop
  · rw [← List.append_nil (before ++ gap ++ _)]
    exact hnext.parts
  · rw [byteLength_append, h.offset_eq]

/-- Every token of a scan is made of its piece. -/
theorem scanFrom_makes (h : Reached text before gap rest last p) :
    ∀ t ∈ (scanFrom p rest).solid, (t.span.piece text).Makes t.kind := by
  fun_induction scanFrom p rest generalizing before gap last with
  | case1 p => simp [Scan.solid]
  | case2 => simp [Scan.solid]
  | @case3 p c cs m next hlexeme ih => exact ih (h.blank hlexeme)
  | @case4 p c cs m next span kind hlexeme rest ih =>
    rw [solid_cons (munch_ne_eof hlexeme)]
    refine List.forall_mem_cons.mpr ⟨?_, ih (h.piece m.extra)⟩
    obtain ⟨hextra, hcut⟩ := munch_cut hlexeme
    have hmunch : munch c cs = ⟨(cs.take m.extra).length, .token kind⟩ := by
      rw [List.length_take, Nat.min_eq_left hextra, ← hlexeme]
    rw [h.piece_eq m.extra]
    exact ⟨c, cs.take m.extra, rfl, fun after hafter => (hcut after hafter).trans hmunch⟩

/-- A text is laid out itself. -/
theorem scanFrom_laidOut (h : Reached text before gap rest last p) (hscan : (scanFrom p rest).error = none) :
    LaidOut ((scanFrom p rest).pieces text) (gap ++ rest) := by
  fun_induction scanFrom p rest generalizing before gap last with
  | case1 p =>
    rw [List.append_nil]
    exact .nil h.trivia
  | case2 => cases hscan
  | @case3 p c cs m next hlexeme ih =>
    have hlaid := ih (h.blank hlexeme) hscan
    rwa [List.append_assoc, List.cons_append, List.take_append_drop] at hlaid
  | @case4 p c cs m next span kind hlexeme rest ih =>
    have hlaid := ih (h.piece m.extra) hscan
    have hparts : c :: cs = c :: cs.take m.extra ++ cs.drop m.extra := by simp
    rw [Scan.pieces, solid_cons (munch_ne_eof hlexeme), List.map_cons, h.piece_eq m.extra, hparts]
    exact .cons (hparts ▸ h.trivia) (.refl _) hlaid

/-- Pieces that make tokens are scanned to these tokens, however they are laid out. -/
theorem LaidOut.scanned {pieces : List Piece} {ks : List TokenKind} (hlaid : LaidOut pieces rest)
    (hmakes : List.Forall₂ Piece.Makes pieces ks) (h : Reached text before [] rest last p) :
    (scanFrom p rest).Kinds ks ∧
      (scanFrom p rest).solid.map (·.span.slice text) = pieces.map (·.chars) := by
  induction hlaid generalizing ks before last p with
  | @nil gap hgap =>
    cases hmakes
    have hscan : scanFrom p gap = scanFrom (p.after gap) [] := by
      rw [← scanFrom_trivia hgap, List.append_nil]
    rw [hscan, scanFrom_nil]
    exact ⟨⟨rfl, rfl⟩, rfl⟩
  | @cons gap rest piece pieces hgap hends hrest ih =>
    obtain _ | @⟨_, kind, _, ks, ⟨c, cs, hchars, hmunch⟩, hmakes⟩ := hmakes
    rw [scanFrom_trivia hgap]
    rw [hchars, List.cons_append] at h hgap ⊢
    have hreached : Reached text before gap (c :: (cs ++ rest)) last (p.after gap) := by
      refine ⟨?_, h.stop, ?_, hgap⟩
      · rw [h.parts, List.append_nil, List.append_assoc]
      · rw [h.position, after_append, List.append_nil]
    have hafter := hreached.piece cs.length
    have hpiece := hreached.piece_eq cs.length
    rw [List.take_left, List.drop_left] at hafter hpiece
    obtain ⟨⟨herror, hkinds⟩, hslices⟩ := ih hmakes hafter
    rw [scanFrom_munched (hmunch rest hends)]
    refine ⟨⟨herror, ?_⟩, ?_⟩
    · rw [List.map_cons, hkinds, List.cons_append]
    · have hslice := congrArg Piece.chars hpiece
      rw [solid_cons (munch_ne_eof (congrArg Munch.lexeme (hmunch rest hends))), List.map_cons, hslices,
        List.map_cons, hchars]
      exact congrArg (· :: _) hslice

end

/-- The tokens of a text do not depend on how it is laid out: its pieces, joined by spaces and tabs, are the
same tokens again, and so they are with any blanks and comments between them. -/
theorem scan_relaid {source : String} (hscan : (scan source).error = none) :
    (∀ text : String, Respaced (((scan source).pieces source.toList).map (·.chars)) text.toList →
      (scan text).error = none ∧ (scan text).tokens.map (·.kind) = (scan source).tokens.map (·.kind)) ∧
    LaidOut ((scan source).pieces source.toList) source.toList ∧
    ∀ text : String, LaidOut ((scan source).pieces source.toList) text.toList →
      (scan text).error = none ∧ (scan text).tokens.map (·.kind) = (scan source).tokens.map (·.kind) ∧
        ((scan text).pieces text.toList).map (·.chars) =
          ((scan source).pieces source.toList).map (·.chars) := by
  have hmakes : List.Forall₂ Piece.Makes ((scan source).pieces source.toList)
      ((scan source).solid.map (·.kind)) := by
    rw [Scan.pieces, List.forall₂_map_left_iff, List.forall₂_map_right_iff, List.forall₂_same]
    exact scanFrom_makes (.start _)
  have hself := scanFrom_laidOut (.start source.toList) hscan
  have hkinds := (LaidOut.scanned hself hmakes (.start _)).1.2
  have hlaid (text : String) (h : LaidOut ((scan source).pieces source.toList) text.toList) :
      (scan text).error = none ∧ (scan text).tokens.map (·.kind) = (scan source).tokens.map (·.kind) ∧
        ((scan text).pieces text.toList).map (·.chars) =
          ((scan source).pieces source.toList).map (·.chars) := by
    obtain ⟨⟨herror, htokens⟩, hslices⟩ := h.scanned hmakes (.start text.toList)
    refine ⟨herror, htokens.trans hkinds.symm, ?_⟩
    rw [Scan.pieces, List.map_map]
    exact hslices
  refine ⟨fun text h => ?_, hself, hlaid⟩
  obtain ⟨herror, htokens, -⟩ := hlaid text (.of_respaced h)
  exact ⟨herror, htokens⟩

theorem scan_relaid_spaced :
    (scan "n$<=-1.5#end").error = none ∧
      (scan "n$ <=\t-  1.5").tokens.map (·.kind) = (scan "n$<=-1.5#end").tokens.map (·.kind) := by
  have hscan : (scan "n$<=-1.5#end").error = none := by decide +kernel
  have hpieces : ((scan "n$<=-1.5#end").pieces "n$<=-1.5#end".toList).map (·.chars) =
      [['n', '$'], ['<', '='], ['-'], ['1', '.', '5']] := by decide +kernel
  have hspaced : Respaced [['n', '$'], ['<', '='], ['-'], ['1', '.', '5']]
      (['n', '$'] ++ ([' '] ++ (['<', '='] ++ (['\t'] ++ (['-'] ++ ([' ', ' '] ++ ['1', '.', '5'])))))) :=
    .cons (by simp) (by simp) (.cons (by simp) (by simp) (.cons (by simp) (by simp) (.single _)))
  exact ⟨hscan, ((scan_relaid hscan).1 "n$ <=\t-  1.5" (hpieces ▸ hspaced)).2⟩

end Rill
