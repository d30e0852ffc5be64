-- SUMMARY: The tokens of a text stand one behind the other, with nothing but blanks and comments between them.
import Mathlib.Data.List.Chain
import Mathlib.Data.List.TakeWhile
import Rill.Token.Scan

/-!
# Tiling

A scan gives the spans of its tokens, and of its error if there is one. Together with the gaps between
them they cover the text from its first byte on: every span cuts a piece out of the text, and every gap
is made of blanks and at most one comment, which goes on to the end of its line. `Scan.Tiles` says so of
what is scanned behind a span, and `scan_tiles` that every text is scanned like that from its start on.
-/

namespace Rill

-- ---------------------------------------------------------------------------
-- Pieces of a text
-- ---------------------------------------------------------------------------

/-- The span is that of a piece of the text. -/
def Span.Cuts (s : Span) (text piece : List Char) : Prop :=
  ∃ before after, text = before ++ piece ++ after ∧ byteLength before = s.start ∧
    s.start + byteLength piece = s.stop

/-- The line of the character at an offset: one more than there are line feeds before it. -/
def IsLineAt (text : List Char) (offset line : Nat) : Prop :=
  ∃ before after, text = before ++ after ∧ byteLength before = offset ∧ line = 1 + lineFeeds before

/-- A piece of a text, behind which `after` follows, that separates tokens: blanks, and then perhaps a
comment up to the end of its line. -/
def IsTrivia (piece after : List Char) : Prop :=
  ∃ blanks comment, piece = blanks ++ comment ∧
    (∀ c ∈ blanks, c ∈ [' ', '\t', '\r', '\x0b', '\x0c']) ∧
    (comment = [] ∨ ∃ body, comment = '#' :: body ∧ '\n' ∉ body ∧ ∀ c ∈ after.head?, c = '\n')

/-- What is between two spans of a text separates tokens. -/
def IsGap (text : List Char) (a b : Span) : Prop :=
  ∃ before gap after, text = before ++ gap ++ after ∧ byteLength before = a.stop ∧
    a.stop + byteLength gap = b.start ∧ IsTrivia gap after

namespace Scan

/-- The spans of the tokens and of the error. -/
def spans (s : Scan) : List Span := s.tokens.map (·.span) ++ s.error.toList.map (·.span)

/-- The spans of a scan of what is behind a span are in order and tile the text from there on. The last
token is the only one that cuts nothing out of it, `eof` at its end, unless there is an error, which then
is the last thing in the scan. -/
structure Tiles (s : Scan) (text : List Char) (last : Span) : Prop where
  cut : ∀ span ∈ s.spans, ∃ piece, span.Cuts text piece
  proper : ∀ t ∈ s.tokens, t.kind ≠ .eof → t.span.start < t.span.stop
  ordered : (last :: s.spans).Pairwise (·.stop ≤ ·.start)
  gaps : (last :: s.spans).IsChain (IsGap text)
  ended : match s.error with
    | none => ∃ tokens line, (∀ t ∈ tokens, t.kind ≠ .eof) ∧
        s.tokens = tokens ++ [⟨.eof, ⟨byteLength text, byteLength text⟩, line⟩]
    | some e => (∀ t ∈ s.tokens, t.kind ≠ .eof) ∧ e.span.start < e.span.stop
  lines : ∀ t ∈ s.tokens, IsLineAt text t.span.start t.line
  errorLine : ∀ e ∈ s.error, IsLineAt text e.span.start e.line

end Scan

-- ---------------------------------------------------------------------------
-- Positions
-- ---------------------------------------------------------------------------

theorem lineFeeds_append (xs ys : List Char) : lineFeeds (xs ++ ys) = lineFeeds xs + lineFeeds ys :=
  List.count_append

theorem byteLength_cons_pos (c : Char) (cs : List Char) : 0 < byteLength (c :: cs) :=
  Nat.add_pos_left c.utf8Size_pos _

theorem after_append (p : Position) (xs ys : List Char) : (p.after xs).after ys = p.after (xs ++ ys) := by
  simp [Position.after, byteLength_append, lineFeeds_append, Nat.add_assoc]

-- ---------------------------------------------------------------------------
-- Separators
-- ---------------------------------------------------------------------------

namespace IsTrivia

theorem nil (after : List Char) : IsTrivia [] after := ⟨[], [], rfl, nofun, .inl rfl⟩

/-- A comment is behind everything else, so what goes on behind it is no separator. -/
theorem blanks {piece : List Char} {c : Char} {after : List Char} (h : IsTrivia piece (c :: after))
    (hc : c ≠ '\n') : ∀ d ∈ piece, d ∈ [' ', '\t', '\r', '\x0b', '\x0c'] := by
  obtain ⟨blanks, comment, rfl, hblanks, rfl | ⟨body, rfl, -, hend⟩⟩ := h
  · simpa using hblanks
  · exact absurd (hend c rfl) hc

end IsTrivia

/-- The lexeme is a piece of the program: a token, which is not the end of the text, or a fault. -/
def Lexeme.IsSolid : Lexeme → Prop
  | .blank => False
  | .token kind => kind ≠ .eof
  | .fault _ => True

theorem munchNumber_isSolid (c : Char) (cs : List Char) : (munchNumber c cs).lexeme.IsSolid := by
  unfold munchNumber
  dsimp only
  split
  · exact nofun
  · dsimp only
    split
    · exact nofun
    · trivial

theorem munchName_isSolid (c : Char) (cs : List Char) : (munchName c cs).lexeme.IsSolid := by
  unfold munchName
  dsimp only
  split <;> exact nofun

theorem munchString_isSolid (quote : Char) (cs : List Char) : (munchString quote cs).lexeme.IsSolid := by
  unfold munchString
  split
  · exact nofun
  · trivial

theorem munchMark_isSolid (c : Char) (cs : List Char) : (munchMark c cs).lexeme.IsSolid := by
  have token (m : Mark) : (Lexeme.token (.mark m)).IsSolid := nofun
  unfold munchMark
  dsimp only
  split
  case h_23 => trivial
  all_goals first
    | exact token _
    | (split <;> first | exact token _ | trivial)

/-- A lexeme is a run of blanks, a comment up to the end of its line, or a piece of the program. -/
theorem munch_cases (c : Char) (cs : List Char) :
    (isLayout c = true ∧ munch c cs = ⟨runLength isLayout cs, .blank⟩) ∨
    (c = '#' ∧ munch c cs = ⟨runLength (· != '\n') cs, .blank⟩) ∨
    (munch c cs).lexeme.IsSolid := by
  unfold munch
  split
  · rename_i hlayout
    exact .inl ⟨hlayout, rfl⟩
  split
  · rename_i hcomment
    exact .inr (.inl ⟨hcomment, rfl⟩)
  refine .inr (.inr ?_)
  split
  · exact nofun
  split
  · exact munchNumber_isSolid c cs
  split
  · exact munchString_isSolid c cs
  split
  · exact munchName_isSolid c cs
  · exact munchMark_isSolid c cs

/-- The characters that a run takes, and those that it leaves. -/
theorem take_runLength (p : Char → Bool) (cs : List Char) : cs.take (runLength p cs) = cs.takeWhile p :=
  (List.prefix_iff_eq_take.mp (List.takeWhile_prefix p)).symm

theorem drop_runLength (p : Char → Bool) (cs : List Char) : cs.drop (runLength p cs) = cs.dropWhile p := by
  induction cs with
  | nil => rfl
  | cons c cs ih =>
    cases h : p c with
    | true => simpa [runLength, h] using ih
    | false => simp [runLength, h]

theorem mem_of_isLayout {c : Char} (h : isLayout c = true) : c ∈ [' ', '\t', '\r', '\x0b', '\x0c'] := by
  simpa [isLayout, or_assoc] using h

/-- A lexeme that gives no token makes a separator longer. -/
theorem IsTrivia.extend {piece : List Char} {c : Char} {cs : List Char} (h : IsTrivia piece (c :: cs))
    (hblank : (munch c cs).lexeme = .blank) :
    IsTrivia (piece ++ c :: cs.take (munch c cs).extra) (cs.drop (munch c cs).extra) := by
  obtain ⟨hlayout, hmunch⟩ | ⟨rfl, hmunch⟩ | hsolid := munch_cases c cs
  · rw [hmunch, take_runLength, drop_runLength]
    have hc : c ≠ '\n' := by
      rintro rfl
      cases hlayout
    refine ⟨piece ++ c :: cs.takeWhile isLayout, [], by simp, ?_, .inl rfl⟩
    intro d hd
    rcases List.mem_append.mp hd with hd | hd
    · exact h.blanks hc d hd
    · rcases List.mem_cons.mp hd with rfl | hd
      · exact mem_of_isLayout hlayout
      · exact mem_of_isLayout (List.mem_takeWhile_imp hd)
  · rw [hmunch, take_runLength, drop_runLength]
    refine ⟨piece, '#' :: cs.takeWhile (· != '\n'), rfl, h.blanks (by decide), .inr ⟨_, rfl, ?_, ?_⟩⟩
    · intro hmem
      simpa using List.mem_takeWhile_imp hmem
    · intro d hd
      have hstop := List.head?_dropWhile_not (· != '\n') cs
      rw [Option.mem_def.mp hd] at hstop
      simpa using hstop
  · rw [hblank] at hsolid
    exact hsolid.elim

theorem munch_ne_eof {c : Char} {cs : List Char} {kind : TokenKind}
    (h : (munch c cs).lexeme = .token kind) : kind ≠ .eof := by
  obtain ⟨-, hmunch⟩ | ⟨-, hmunch⟩ | hsolid := munch_cases c cs
  · rw [hmunch] at h
    cases h
  · rw [hmunch] at h
    cases h
  · rw [h] at hsolid
    exact hsolid

-- ---------------------------------------------------------------------------
-- What is left of a text
-- ---------------------------------------------------------------------------

/-- Scanning has come to a place: the last span ended behind `before`, and `gap` has been read since. -/
structure Reached (text before gap rest : List Char) (last : Span) (p : Position) : Prop where
  parts : text = before ++ gap ++ rest
  stop : byteLength before = last.stop
  position : p = ({} : Position).after (before ++ gap)
  trivia : IsTrivia gap rest

namespace Reached

variable {text before gap rest : List Char} {last : Span} {p : Position} {c : Char} {cs : List Char}

theorem offset_eq (h : Reached text before gap rest last p) :
    p.offset = byteLength before + byteLength gap := by
  rw [h.position]
  simp [Position.after, byteLength_append]

theorem isLineAt (h : Reached text before gap rest last p) : IsLineAt text p.offset p.line := by
  refine ⟨before ++ gap, rest, h.parts, ?_, ?_⟩
  · rw [h.offset_eq, byteLength_append]
  · rw [h.position]
    rfl

/-- The gap that ends where a span starts. -/
theorem isGap (h : Reached text before gap rest last p) {span : Span} (hstart : span.start = p.offset) :
    IsGap text last span := by
  refine ⟨before, gap, rest, h.parts, h.stop, ?_, h.trivia⟩
  rw [hstart, h.offset_eq, h.stop]

theorem stop_le (h : Reached text before gap rest last p) : last.stop ≤ p.offset := by
  rw [h.offset_eq, h.stop]
  exact Nat.le_add_right _ _

variable (h : Reached text before gap (c :: cs) last p)
include h

/-- The span of the lexeme at this place. -/
theorem cuts (extra : Nat) :
    Span.Cuts ⟨p.offset, (p.after (c :: cs.take extra)).offset⟩ text (c :: cs.take extra) := by
  refine ⟨before ++ gap, cs.drop extra, ?_, ?_, rfl⟩
  · simpa using h.parts
  · rw [h.offset_eq, byteLength_append]

theorem blank (hblank : (munch c cs).lexeme = .blank) :
    Reached text before (gap ++ c :: cs.take (munch c cs).extra) (cs.drop (munch c cs).extra) last
      (p.after (c :: cs.take (munch c cs).extra)) where
  parts := by simpa using h.parts
  stop := h.stop
  position := by rw [h.position, after_append, List.append_assoc]
  trivia := h.trivia.extend hblank

theorem piece (extra : Nat) :
    Reached text (before ++ gap ++ c :: cs.take extra) [] (cs.drop extra)
      ⟨p.offset, (p.after (c :: cs.take extra)).offset⟩ (p.after (c :: cs.take extra)) where
  parts := by simpa using h.parts
  stop := by simp [Position.after, h.offset_eq, byteLength_append, Nat.add_assoc]
  position := by rw [h.position, after_append, List.append_nil]
  trivia := .nil _

end Reached

namespace Scan.Tiles

variable {text before gap rest : List Char} {last : Span} {p : Position} {c : Char} {cs : List Char}

/-- At the end of a text. -/
theorem eof (h : Reached text before gap [] last p) :
    Tiles ⟨[⟨.eof, ⟨p.offset, p.offset⟩, p.line⟩], none⟩ text last := by
  have hend : p.offset = byteLength text := by
    rw [h.offset_eq, h.parts, List.append_nil, byteLength_append]
  constructor
  case cut =>
    simp only [spans, List.map_cons, List.map_nil, Option.toList_none, List.append_nil,
      List.mem_singleton, forall_eq]
    exact ⟨[], text, [], by simp, hend.symm, rfl⟩
  case proper => simp
  case ordered => simpa [spans] using h.stop_le
  case gaps => simpa [spans] using h.isGap rfl
  case ended => exact ⟨[], p.line, nofun, by rw [hend]; rfl⟩
  case lines => simpa using h.isLineAt
  case errorLine => nofun

/-- At a lexeme that is a fault. -/
theorem fault (h : Reached text before gap (c :: cs) last p) (why : ScanFault) (extra : Nat) :
    Tiles ⟨[], some ⟨why, ⟨p.offset, (p.after (c :: cs.take extra)).offset⟩, p.line⟩⟩ text last := by
  constructor
  case cut => simpa [spans] using ⟨_, h.cuts extra⟩
  case proper => nofun
  case ordered => simpa [spans] using h.stop_le
  case gaps => simpa [spans] using h.isGap rfl
  case ended => exact ⟨nofun, Nat.lt_add_of_pos_right (byteLength_cons_pos _ _)⟩
  case lines => nofun
  case errorLine => simpa using h.isLineAt

/-- At a lexeme that is a token, what is behind it being scanned already. -/
theorem cons (h : Reached text before gap (c :: cs) last p) {kind : TokenKind} {extra : Nat} {s : Scan}
    (hkind : kind ≠ .eof) (hs : s.Tiles text ⟨p.offset, (p.after (c :: cs.take extra)).offset⟩) :
    Tiles { s with tokens := ⟨kind, ⟨p.offset, (p.after (c :: cs.take extra)).offset⟩, p.line⟩ :: s.tokens }
      text last := by
  have hpos : p.offset < (p.after (c :: cs.take extra)).offset :=
    Nat.lt_add_of_pos_right (byteLength_cons_pos _ _)
  constructor
  case cut =>
    intro span hspan
    rcases List.mem_cons.mp hspan with rfl | hspan
    · exact ⟨_, h.cuts extra⟩
    · exact hs.cut span hspan
  case proper =>
    intro t ht hne
    rcases List.mem_cons.mp ht with rfl | ht
    · exact hpos
    · exact hs.proper t ht hne
  case ordered =>
    refine List.pairwise_cons.mpr ⟨?_, hs.ordered⟩
    intro span hspan
    rcases List.mem_cons.mp hspan with rfl | hspan
    · exact h.stop_le
    · calc last.stop
          ≤ p.offset := h.stop_le
        _ ≤ (p.after (c :: cs.take extra)).offset := hpos.le
        _ ≤ span.start := (List.pairwise_cons.mp hs.ordered).1 span hspan
  case gaps => exact List.isChain_cons_cons.mpr ⟨h.isGap rfl, hs.gaps⟩
  case ended =>
    have hended := hs.ended
    cases herror : s.error with
    | none =>
      rw [herror] at hended
      obtain ⟨tokens, line, hne, htokens⟩ := hended
      refine ⟨⟨kind, _, p.line⟩ :: tokens, line, ?_, by rw [htokens]; rfl⟩
      exact List.forall_mem_cons.mpr ⟨hkind, hne⟩
    | some e =>
      rw [herror] at hended
      exact ⟨List.forall_mem_cons.mpr ⟨hkind, hended.1⟩, hended.2⟩
  case lines => exact List.forall_mem_cons.mpr ⟨h.isLineAt, hs.lines⟩
  case errorLine => exact hs.errorLine

end Scan.Tiles

-- ---------------------------------------------------------------------------
-- Whole texts
-- ---------------------------------------------------------------------------

theorem scanFrom_tiles {text before gap rest : List Char} {last : Span} {p : Position}
    (h : Reached text before gap rest last p) : (scanFrom p rest).Tiles text last := by
  fun_induction scanFrom p rest generalizing before gap last with
  | case1 p => exact .eof h
  | @case2 p c cs m next span why hlexeme => exact .fault h why m.extra
  | @case3 p c cs m next hlexeme ih => exact ih (h.blank hlexeme)
  | @case4 p c cs m next span kind hlexeme rest ih => exact .cons h (munch_ne_eof hlexeme) (ih (h.piece m.extra))

/-- A scan starts with all of the text. -/
theorem Reached.start (text : List Char) : Reached text [] [] text ⟨0, 0⟩ {} := ⟨rfl, rfl, rfl, .nil _⟩

/-- The tokens of a text, and the error that ends them if there is one, tile it. -/
theorem scan_tiles (source : String) : (scan source).Tiles source.toList ⟨0, 0⟩ :=
  have hstart : Reached source.toList [] [] source.toList ⟨0, 0⟩ {} := ⟨rfl, rfl, rfl, .nil _⟩
  scanFrom_tiles hstart

end Rill
