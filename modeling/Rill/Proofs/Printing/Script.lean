-- SUMMARY: Written tokens are scanned back, and parsing a written expression gives it back.
import Rill.Proofs.Printing.Layered
import Rill.Proofs.Printing.Layers
import Rill.Proofs.Scanning.Literals
import Rill.Proofs.Syntax.Yields

/-!
# Parsing undoes printing

A written token ends where a blank or the text ends, so the scanner takes it whole and makes the same
token of it. Tokens with blanks between them are scanned one by one.

The number of tokens bounds the depth of nesting, so the induction is on the depth: an expression between
brackets has fewer tokens than the whole. What the scanner and the grammar make of the text of an
expression is the expression, up to lines and spans, with as many parentheses as one likes.
-/

namespace Rill

-- ---------------------------------------------------------------------------
-- Runs of characters
-- ---------------------------------------------------------------------------

/-- What stands behind a written token: a blank or nothing. -/
def Parted (rest : List Char) : Prop := ∀ c ∈ rest.head?, c = ' '

theorem parted_blank (cs : List Char) : Parted (' ' :: cs) := by
  intro c hc
  simpa using hc.symm

theorem parted_nil : Parted [] := by
  intro c hc
  simp at hc

/-- A run of characters ends at a blank. -/
theorem Parted.stops {p : Char → Bool} {rest : List Char} (h : Parted rest) (hblank : p ' ' = false) :
    ∀ c ∈ rest.head?, p c = false :=
  fun c hc => h c hc ▸ hblank

-- ---------------------------------------------------------------------------
-- One token
-- ---------------------------------------------------------------------------

/-- The tokens that can be written. -/
def TokenKind.Spellable : TokenKind → Prop
  | .int n => n < 0x10000000000000000
  | .ident name => IsIdentifier name
  | .str _ | .keyword _ | .mark _ => True
  | .float _ | .eol | .eof => False

/-- The scanner takes the characters of a written token and makes the token of them. -/
def TokenKind.Munched (k : TokenKind) : Prop :=
  ∃ c cs, k.written = c :: cs ∧ isLayout c = false ∧
    ∀ rest, Parted rest → munch c (cs ++ rest) = ⟨cs.length, .token k⟩

/-- The digits of a number have its value. -/
theorem digitsValue_toDigits (n : Nat) : digitsValue (Nat.toDigits 10 n) = n := by
  have hfold : ∀ (cs : List Char) (m : Nat), (∀ c ∈ cs, c.isDigit = true) →
      cs.foldl (fun n c => if c.isDigit then 10 * n + (c.toNat - 48) else n) m =
        Nat.ofDigitChars 10 cs m := by
    intro cs
    induction cs with
    | nil => intro m _; rfl
    | cons c cs ih =>
      intro m hcs
      obtain ⟨hc, hcs⟩ := List.forall_mem_cons.mp hcs
      rw [List.foldl_cons, if_pos hc, ih _ hcs]
      rfl
  have hdigits : ∀ c ∈ Nat.toDigits 10 n, c.isDigit = true :=
    fun c hc => Nat.isDigit_of_mem_toDigits (by omega) (by omega) hc
  rw [digitsValue, hfold _ _ hdigits, Nat.ofDigitChars_toDigits (by omega) (by omega)]

theorem int_munched {n : Nat} (hn : n < 0x10000000000000000) : (TokenKind.int n).Munched := by
  obtain ⟨c, cs, hwritten⟩ := List.exists_cons_of_ne_nil (Nat.toDigits_ne_nil (n := n) (b := 10))
  have hdigits : ∀ d ∈ c :: cs, d.isDigit = true := by
    intro d hd
    rw [← hwritten] at hd
    exact Nat.isDigit_of_mem_toDigits (by omega) (by omega) hd
  obtain ⟨hc, hcs⟩ := List.forall_mem_cons.mp hdigits
  refine ⟨c, cs, hwritten, (isDigit_plain hc).1, ?_⟩
  intro rest hrest
  have hvalue : digitsValue (c :: cs) = n := by
    rw [← hwritten]
    exact digitsValue_toDigits n
  rw [munch_digit hc, munchNumber_whole c (fun d hd => by simp [isNumeral, hcs d hd]), hvalue, if_pos hn]
  exact fun d hd => hrest d hd ▸ by decide

theorem str_munched (text : String) : (TokenKind.str text).Munched := by
  refine ⟨'"', escaped text.toList ++ ['"'], rfl, by decide, ?_⟩
  intro rest _
  have hcook : cook '"' (escaped text.toList ++ '"' :: rest) =
      some (text.toList, (escaped text.toList).length + 1) :=
    cook_spelled (.inl rfl) (spells_backslashed '"' text.toList) rest
  simp [munch_quote, munchString, hcook]

theorem isNameStart_plain {c : Char} (h : isNameStart c = true) :
    isLayout c = false ∧ c ≠ '#' ∧ c ≠ '\n' ∧ c.isDigit = false ∧ c ≠ '"' ∧ c ≠ '\'' := by
  have hne : ∀ d, isNameStart d = false → c ≠ d := by
    rintro d hd rfl
    exact absurd h (by simp [hd])
  refine ⟨?_, hne _ (by decide), hne _ (by decide), ?_, hne _ (by decide), hne _ (by decide)⟩
  · simp only [isLayout, Bool.or_eq_false_iff, beq_eq_false_iff_ne, ne_eq]
    exact ⟨⟨⟨⟨hne _ (by decide), hne _ (by decide)⟩, hne _ (by decide)⟩, hne _ (by decide)⟩, hne _ (by decide)⟩
  · rw [Bool.eq_false_iff]
    intro hdigit
    obtain ⟨hlo, hhi⟩ := Char.isDigit_iff_toNat.mp hdigit
    have hascii : c.val < 128 := by
      have : c.val.toNat ≤ 57 := hhi
      rw [UInt32.lt_iff_toNat_lt]
      exact Nat.lt_of_le_of_lt this (by decide)
    rcases Bool.or_eq_true_iff.mp h with hletter | hunderscore
    · rw [Unicode.isLetter, if_pos hascii] at hletter
      have hle : c.val ≤ 57 := hhi
      rcases Bool.or_eq_true_iff.mp hletter with hupper | hlower
      · have hlo' : 65 ≤ c.val ∧ c.val ≤ 90 := of_decide_eq_true hupper
        exact absurd (UInt32.le_trans hlo'.1 hle) (by decide)
      · obtain ⟨hlo', -⟩ := Bool.and_eq_true_iff.mp hlower
        exact absurd (UInt32.le_trans (of_decide_eq_true hlo') hle) (by decide)
    · rw [beq_iff_eq.mp hunderscore] at hdigit
      exact absurd hdigit (by decide)

/-- A name is read whole, with the dollar signs at its end. -/
theorem munch_name {c : Char} {body dollars rest : List Char} (hc : isNameStart c = true)
    (hbody : ∀ d ∈ body, isNameRest d = true) (hdollars : ∀ d ∈ dollars, d = '$')
    (hrest : Parted rest) :
    munch c (body ++ dollars ++ rest) = ⟨(body ++ dollars).length,
      .token ((Keyword.ofSpelling? (String.ofList (c :: (body ++ dollars)))).elim
        (.ident (String.ofList (c :: (body ++ dollars)))) .keyword)⟩ := by
  obtain ⟨hlayout, hhash, hline, hdigit, hquote, hsingle⟩ := isNameStart_plain hc
  have hends : ∀ d ∈ (dollars ++ rest).head?, isNameRest d = false := by
    cases dollars with
    | nil => exact hrest.stops (by decide)
    | cons d dollars =>
      rintro e ⟨⟩
      rw [hdollars d List.mem_cons_self]
      decide
  have hname := munchName_run c hbody (fun d hd => beq_iff_eq.mpr (hdollars d hd)) hends
    (hrest.stops (by decide))
  rw [← List.length_append] at hname
  simp only [munch, hlayout, hhash, hline, hdigit, hquote, hsingle, hc, hname, decide_false, Bool.or_self,
    Bool.false_eq_true, if_false, if_true]

theorem Keyword.ofSpelling_spelling (w : Keyword) : Keyword.ofSpelling? w.spelling = some w := by
  cases w <;> rfl

/-- A reserved word is a name but for its meaning. -/
theorem Keyword.spelling_name (w : Keyword) :
    ∃ c body, w.spelling.toList = c :: body ∧ isNameStart c = true ∧ ∀ d ∈ body, isNameRest d = true := by
  have hletters : w.spelling.toList.all isNameStart = true ∧ w.spelling.toList ≠ [] := by
    cases w <;> decide
  obtain ⟨c, body, hspelling⟩ := List.exists_cons_of_ne_nil hletters.2
  rw [hspelling, List.all_eq_true, List.forall_mem_cons] at hletters
  refine ⟨c, body, hspelling, hletters.1.1, ?_⟩
  intro d hd
  rcases Bool.or_eq_true_iff.mp (hletters.1.2 d hd) with h | h <;> simp [isNameRest, h]

theorem keyword_munched (w : Keyword) : (TokenKind.keyword w).Munched := by
  obtain ⟨c, body, hspelling, hc, hbody⟩ := w.spelling_name
  refine ⟨c, body, hspelling, (isNameStart_plain hc).1, ?_⟩
  intro rest hrest
  have hname : String.ofList (c :: (body ++ [])) = w.spelling := by
    rw [List.append_nil, ← hspelling, String.ofList_toList]
  have hmunch := munch_name hc hbody (List.forall_mem_nil _) hrest
  rwa [hname, w.ofSpelling_spelling, List.append_nil, Option.elim_some] at hmunch

theorem ident_munched {name : String} (h : IsIdentifier name) : (TokenKind.ident name).Munched := by
  obtain ⟨c, body, dollars, hname, hc, hbody, hdollars, hkeyword⟩ := h
  refine ⟨c, body ++ dollars, by simp [TokenKind.written, hname], (isNameStart_plain hc).1, ?_⟩
  intro rest hrest
  rw [munch_name hc hbody hdollars hrest, ← hname, hkeyword, Option.elim_none]

theorem mark_munched (m : Mark) : (TokenKind.mark m).Munched := by
  cases m
  all_goals
    refine ⟨_, _, rfl, by decide, ?_⟩
    intro rest hrest
    cases rest with
    | nil => decide
    | cons c rest =>
      obtain rfl : c = ' ' := hrest c (by simp)
      rfl

theorem TokenKind.Spellable.munched {k : TokenKind} (h : k.Spellable) : k.Munched := by
  cases k with
  | int n => exact int_munched h
  | str text => exact str_munched text
  | ident name => exact ident_munched h
  | keyword w => exact keyword_munched w
  | mark m => exact mark_munched m
  | float x => exact h.elim
  | eol => exact h.elim
  | eof => exact h.elim

-- ---------------------------------------------------------------------------
-- Whole texts
-- ---------------------------------------------------------------------------

theorem scanFrom_token {k : TokenKind} (hk : k.Spellable) {rest : List Char} (hrest : Parted rest)
    {ks : List TokenKind} (h : ∀ p, (scanFrom p rest).Kinds ks) (p : Position) :
    (scanFrom p (k.written ++ rest)).Kinds (k :: ks) := by
  obtain ⟨c, cs, hwritten, -, hmunch⟩ := hk.munched
  rw [hwritten, List.cons_append, scanFrom_munched (hmunch rest hrest)]
  obtain ⟨herror, hkinds⟩ := h (p.after (c :: cs))
  exact ⟨herror, by simp [hkinds]⟩

/-- Tokens written with a blank before each are scanned one by one. -/
theorem scanFrom_written {ks : List TokenKind} (hks : ∀ k ∈ ks, k.Spellable) (p : Position) :
    (scanFrom p (ks.flatMap fun k => ' ' :: k.written)).Kinds ks := by
  induction ks generalizing p with
  | nil =>
    rw [List.flatMap_nil, scanFrom_nil]
    exact ⟨rfl, rfl⟩
  | cons k ks ih =>
    obtain ⟨hk, hks⟩ := List.forall_mem_cons.mp hks
    rw [List.flatMap_cons, List.cons_append, scanFrom_layout rfl]
    refine scanFrom_token hk ?_ (ih hks) _
    cases ks with
    | nil => exact parted_nil
    | cons k' ks => exact parted_blank _

open Rill.Parser Rill.Grammar

variable {extra : Expr → Bool}

-- ---------------------------------------------------------------------------
-- Whole expressions
-- ---------------------------------------------------------------------------

theorem expressionUpTo_reads (depth : Nat) {e : Expr} (he : e.Printable) (wanted : Bool)
    (hlength : (enclosed wanted (e.tokens extra)).length ≤ depth) :
    e.ReadBy (expressionUpTo depth) .conditional (enclosed wanted (e.tokens extra)) := by
  induction depth generalizing e wanted with
  | zero =>
    have hopens : Opens (e.tokens extra) (TokenKind.Starts e.layer.rank) := he.opens
    have hfirst : Opens (enclosed wanted (e.tokens extra)) _ := .enclosed fun _ => hopens
    exact absurd hfirst.length_pos (Nat.not_lt.mpr hlength)
  | succ depth ih =>
    let l : Level := ⟨depth + 1, expressionUpTo depth, block (depth + 1) (statementUpTo depth)⟩
    have hnested : l.ReadsNested extra := fun x hx wanted hshort => ih hx wanted (Nat.lt_succ_iff.mp hshort)
    have hturns := hnested.parses he .conditional wanted (fun _ => Nat.zero_le _) hlength
    have hreads := hturns.ended hlength
    rw [l.parser_conditional] at hreads
    exact hreads

-- ---------------------------------------------------------------------------
-- Statements
-- ---------------------------------------------------------------------------

/-- An expression follows, so the statement goes on. -/
theorem Passes.notAtEnd {f : Bool → Parser α} {ks : List TokenKind} {F : TokenKind → Prop}
    {R : Parser α → Prop} (hopens : Opens ks (TokenKind.Starts 0)) (h : Passes (f false) ks F R) :
    Passes (atStatementEnd >>= f) ks F R := by
  obtain ⟨k, ks, rfl, hk⟩ := hopens
  intro c next more hc hnext
  have hno : (c.token.isSeparator || closesBlock c.token.kind) = false := by
    rw [Token.isSeparator, hc.kind]
    unfold TokenKind.Starts at hk
    split at hk <;> first | rfl | exact hk.elim
  have hstep : (atStatementEnd >>= f) c = f false c := by
    simp only [Bind.bind, StateT.bind, atStatementEnd, hno, Except.bind]
  rw [hstep]
  exact h c next more hc hnext

/-- A statement that returns a written expression. -/
theorem statementUpTo_reads_return {depth : Nat} {e : Expr} (he : e.Printable) (wanted : Bool)
    (hlength : (enclosed wanted (e.tokens extra)).length < depth) :
    Reads (statementUpTo depth) (.keyword .returnKw :: enclosed wanted (e.tokens extra)) (· = .eof)
      fun s => ∃ site e', s = .result site (some e') ∧ e'.bare = e.bare := by
  obtain _ | depth := depth
  · exact absurd hlength (Nat.not_lt_zero _)
  have hexpr := expressionUpTo_reads (depth + 1) he wanted (Nat.le_of_lt hlength)
  have hopens : Opens (e.tokens extra) (TokenKind.Starts e.layer.rank) := he.opens
  have hfirst : Opens (enclosed wanted (e.tokens extra)) (TokenKind.Starts 0) :=
    .enclosed fun _ => hopens.mono fun _ hk => hk.mono (Nat.zero_le _)
  have heof : ∀ k, k = TokenKind.eof → Layer.conditional.Ends k := by
    rintro k rfl
    exact Layer.ends_of_joins rfl
  refine Passes.atHere fun _ => ?_
  refine Passes.kindIs ?_
  refine Passes.advance ?_
  refine Passes.notAtEnd hfirst ?_
  refine Passes.last (hexpr.mono heof fun _ hq => hq) fun e' he' => ?_
  exact Passes.atSite fun site => Passes.result ⟨site, e', rfl, he'⟩

/-- Nothing follows the last statement. -/
theorem statementEnd_reads : Reads statementEnd [] (· = .eof) fun _ => True := by
  refine Passes.kindNext fun k hk => ?_
  subst hk
  exact Passes.result trivial

theorem topLevel_reads_end (statement : Parser Stmt) (limit : Nat) :
    Reads (topLevel statement (limit + 1)) [] (· = .eof) fun stmts => stmts = [] := by
  rw [topLevel]
  refine Passes.kindNext fun k hk => ?_
  rw [if_pos hk]
  exact Passes.result rfl

/-- One statement at top level. -/
theorem topLevel_reads {statement : Parser Stmt} {k : TokenKind} {ks : List TokenKind}
    {P : Stmt → Prop} (hk : k ≠ .eof) (h : Reads statement (k :: ks) (· = .eof) P) (limit : Nat) :
    Reads (topLevel statement (limit + 2)) (k :: ks) (· = .eof)
      fun stmts => ∃ s, stmts = [s] ∧ P s := by
  rw [topLevel]
  refine Passes.kindIs ?_
  rw [if_neg hk]
  refine Passes.last h fun s hs => ?_
  refine Passes.last statementEnd_reads fun _ _ => ?_
  refine Passes.kindNext fun k' hk' => ?_
  subst hk'
  refine Passes.last (topLevel_reads_end statement limit) fun stmts hstmts => ?_
  subst hstmts
  exact Passes.result ⟨s, rfl, hs⟩

theorem debugOption_reads (limit : Nat) (setting : Option Bool) :
    Reads (debugOption (limit + 1) setting) [] (· ≠ .keyword .optionKw) fun debug => debug = setting := by
  rw [debugOption]
  exact Passes.refused (fun _ hk => hk) (Passes.result rfl)

/-- What a script returns, if that is all it does: an expression like `e`. -/
def Script.Returns (s : Script) (e : Expr) : Prop :=
  s.debug = none ∧ ∃ site e', s.body.stmts = [.result site (some e')] ∧ e'.bare = e.bare

theorem script_reads_return {limit : Nat} {e : Expr} (he : e.Printable) (wanted : Bool)
    (hlength : (enclosed wanted (e.tokens extra)).length < limit + 2) :
    Reads (script (limit + 2)) (.keyword .returnKw :: enclosed wanted (e.tokens extra)) (· = .eof)
      fun s => s.Returns e := by
  have htop := topLevel_reads (by simp) (statementUpTo_reads_return he wanted hlength) limit
  rw [script]
  refine Passes.atHere fun start => ?_
  refine Passes.skipSeparators (by simp [Meets]) ?_
  refine Passes.bind (debugOption_reads (limit + 1) none) (by simp [Meets]) fun debug hdebug => ?_
  refine Passes.last htop fun stmts hstmts => ?_
  obtain ⟨s, hs, site, e', hresult, he'⟩ := hstmts
  exact Passes.result ⟨hdebug, site, e', by rw [hs, hresult], he'⟩

-- ---------------------------------------------------------------------------
-- Texts
-- ---------------------------------------------------------------------------

theorem spellable_enclosed {ks : List TokenKind} {wanted : Bool} (h : ∀ k ∈ ks, k.Spellable) :
    ∀ k ∈ enclosed wanted ks, k.Spellable := by
  cases wanted with
  | false => exact h
  | true =>
    intro k hk
    simp only [enclosed, if_true, List.mem_cons, List.mem_append, List.not_mem_nil, or_false] at hk
    rcases hk with rfl | hk | rfl
    · trivial
    · exact h k hk
    · trivial

theorem spellable_tokensAfter {separator : TokenKind} {place : Layer} {items : List Expr}
    (hseparator : separator.Spellable) (h : ∀ x ∈ items, ∀ k ∈ x.tokens extra, k.Spellable) :
    ∀ k ∈ tokensAfter extra separator place items, k.Spellable := by
  induction items with
  | nil => simp [tokensAfter]
  | cons x rest ih =>
    obtain ⟨hx, hrest⟩ := List.forall_mem_cons.mp h
    rw [tokensAfter_cons]
    intro k hk
    simp only [List.mem_cons, List.mem_append] at hk
    rcases hk with rfl | hk | hk
    · exact hseparator
    · exact spellable_enclosed hx k hk
    · exact ih hrest k hk

theorem spellable_entriesAfter {entries : List (Expr × Expr)}
    (hkeys : ∀ x ∈ entries, ∀ k ∈ x.1.tokens extra, k.Spellable)
    (hvalues : ∀ x ∈ entries, ∀ k ∈ x.2.tokens extra, k.Spellable) :
    ∀ k ∈ entriesAfter extra entries, k.Spellable := by
  induction entries with
  | nil => simp [entriesAfter]
  | cons x rest ih =>
    obtain ⟨key, value⟩ := x
    obtain ⟨hkey, hkeys⟩ := List.forall_mem_cons.mp hkeys
    obtain ⟨hvalue, hvalues⟩ := List.forall_mem_cons.mp hvalues
    rw [entriesAfter_cons]
    intro k hk
    simp only [List.mem_cons, List.mem_append] at hk
    rcases hk with rfl | hk | rfl | hk | hk
    · trivial
    · exact spellable_enclosed hkey k hk
    · trivial
    · exact spellable_enclosed hvalue k hk
    · exact ih hkeys hvalues k hk

/-- The tokens of an expression can be written. -/
theorem Expr.Printable.spellable {e : Expr} (h : e.Printable) : ∀ k ∈ e.tokens extra, k.Spellable := by
  have hcomma : (TokenKind.mark .comma).Spellable := trivial
  have hamp : (TokenKind.mark .amp).Spellable := trivial
  induction h with
  | null | bool | str =>
    rw [Expr.tokens]
    simp [TokenKind.Spellable]
  | @int site n =>
    have hlow := n.le_toInt
    have hhigh := n.toInt_lt
    have hsmall : n.toInt.natAbs < 0x10000000000000000 := by omega
    rw [Expr.tokens]
    split <;> simp [TokenKind.Spellable, hsmall]
  | ident hname =>
    rw [Expr.tokens]
    simpa [TokenKind.Spellable] using hname
  | not hx ih | minus hx hnumber ih | ref hx ih =>
    rw [Expr.tokens]
    exact List.forall_mem_cons.mpr ⟨trivial, spellable_enclosed ih⟩
  | binary hl hr ihl ihr | logical hl hr ihl ihr =>
    rw [Expr.tokens]
    exact List.forall_mem_append.mpr ⟨spellable_enclosed ihl,
      List.forall_mem_cons.mpr ⟨trivial, spellable_enclosed ihr⟩⟩
  | concat htwo hparts ih =>
    rw [Expr.tokens]
    exact fun k hk => spellable_tokensAfter hamp ih k (List.mem_of_mem_drop hk)
  | conditional hc ht hf ihc iht ihf =>
    rw [Expr.tokens]
    exact List.forall_mem_append.mpr ⟨spellable_enclosed iht, List.forall_mem_cons.mpr ⟨trivial,
      List.forall_mem_append.mpr ⟨spellable_enclosed ihc,
        List.forall_mem_cons.mpr ⟨trivial, spellable_enclosed ihf⟩⟩⟩⟩
  | field ho hname ih =>
    rw [Expr.tokens]
    refine List.forall_mem_append.mpr ⟨spellable_enclosed ih, ?_⟩
    simpa [TokenKind.Spellable] using hname
  | index ho hne hindices iho ihs | call ho hargs iho ihs =>
    rw [Expr.tokens]
    refine List.forall_mem_append.mpr ⟨spellable_enclosed iho, List.forall_mem_cons.mpr ⟨trivial, ?_⟩⟩
    refine List.forall_mem_append.mpr ⟨?_, by simp [TokenKind.Spellable]⟩
    exact fun k hk => spellable_tokensAfter hcomma ihs k (List.mem_of_mem_drop hk)
  | list hitems ih | set hne hitems ih =>
    rw [Expr.tokens]
    refine List.forall_mem_cons.mpr ⟨trivial, ?_⟩
    refine List.forall_mem_append.mpr ⟨?_, by simp [TokenKind.Spellable]⟩
    exact fun k hk => spellable_tokensAfter hcomma ih k (List.mem_of_mem_drop hk)
  | table hkeys hvalues ihk ihv =>
    rw [Expr.tokens]
    refine List.forall_mem_cons.mpr ⟨trivial, ?_⟩
    refine List.forall_mem_append.mpr ⟨?_, by simp [TokenKind.Spellable]⟩
    exact fun k hk => spellable_entriesAfter ihk ihv k (List.mem_of_mem_drop hk)

/-- Tokens with blanks between them, after a first one. -/
theorem blank_intercalate {css : List (List Char)} (h : css ≠ []) :
    ' ' :: [' '].intercalate css = css.flatMap fun cs => ' ' :: cs := by
  induction css with
  | nil => exact absurd rfl h
  | cons cs rest ih =>
    cases rest with
    | nil => simp
    | cons cs' rest =>
      rw [List.intercalate_cons_cons, List.flatMap_cons, ← ih (by simp)]
      simp

theorem scan_return {e : Expr} (he : e.Printable) :
    (scan ("return " ++ e.text extra)).Kinds (.keyword .returnKw :: e.tokensAt extra .conditional) := by
  have hopens : Opens (e.tokensAt extra .conditional) _ := he.opensAt .conditional
  have hspellable : ∀ k ∈ e.tokensAt extra .conditional, k.Spellable := spellable_enclosed he.spellable
  have hne : (e.tokensAt extra .conditional).map TokenKind.written ≠ [] := by
    simpa using List.ne_nil_of_length_pos hopens.length_pos
  have htext : ("return " ++ e.text extra).toList = (TokenKind.keyword .returnKw).written ++
      (e.tokensAt extra .conditional).flatMap fun k => ' ' :: k.written := by
    have hblank := blank_intercalate hne
    rw [List.flatMap_map] at hblank
    rw [← hblank, String.toList_append, Expr.text, String.toList_ofList, String.toList_ofList]
    rfl
  have hreturn : (TokenKind.keyword .returnKw).Spellable := trivial
  rw [scan, htext]
  refine scanFrom_token hreturn ?_ (scanFrom_written hspellable) {}
  obtain ⟨k, rest, hks, -⟩ := hopens
  rw [hks, List.flatMap_cons]
  exact parted_blank _

/-- Parsing `return` and the tokens of an expression gives the expression, however they are written. -/
theorem parse_return {source : String} {e : Expr} (he : e.Printable) (wanted : Bool)
    (hscan : (scan source).Kinds (.keyword .returnKw :: enclosed wanted (e.tokens extra))) :
    ∃ s, parse source = .ok s ∧ s.Returns e := by
  generalize hs : scan source = s at hscan
  obtain ⟨tokens, error⟩ := s
  obtain ⟨rfl, hkinds⟩ : error = none ∧ _ := hscan
  have hlength := congrArg List.length hkinds
  simp only [List.length_map, List.length_append, List.length_cons, List.length_nil] at hlength
  cases tokens with
  | nil => simp at hlength
  | cons t rest =>
    have hbefore : Cursor.Before ⟨t, rest, none, 0⟩
        ((.keyword .returnKw :: enclosed wanted (e.tokens extra)) ++ .eof :: []) := ⟨rfl, hkinds⟩
    have hreads : Reads (script ((t :: rest).length + 2))
        (.keyword .returnKw :: enclosed wanted (e.tokens extra)) (· = .eof) fun s => s.Returns e :=
      script_reads_return he wanted (by omega)
    obtain ⟨q, c', hrun, hc', script, rfl, hreturns⟩ := hreads _ _ _ hbefore rfl
    refine ⟨script, ?_, hreturns⟩
    simp only [parse, hs, Cursor.start, Bind.bind, Except.bind, hrun]
    rfl

/-- Parsing `return` and the text of an expression gives the expression back, up to lines and spans. The
text has parentheses where layers ask for them, and as many more as `extra` wants: around every
subexpression, around none, or around some. -/
theorem parse_return_text (extra : Expr → Bool) {e : Expr} (he : e.Printable) :
    ∃ s, parse ("return " ++ e.text extra) = .ok s ∧ s.Returns e :=
  parse_return he (e.isEnclosed extra .conditional) (scan_return he)

/-- Parentheses around a negated base and a reference, and none around the parts of a chain. -/
theorem parse_return_text_mixed :
    ∃ e s, Expr.Printable e ∧
      e.text (fun _ => false) = "( - a ) ^ ( ref b [ 1 ] ) & \"x\" if not c else [ - 2 , f ( ) ]" ∧
      parse "return ( - a ) ^ ( ref b [ 1 ] ) & \"x\" if not c else [ - 2 , f ( ) ]" = .ok s ∧
      s.Returns e := by
  have hname : ∀ name, name ∈ ["a", "b", "c", "f"] → IsIdentifier name := by
    intro name hname
    simp only [List.mem_cons, List.not_mem_nil, or_false] at hname
    rcases hname with rfl | rfl | rfl | rfl
    all_goals exact ⟨_, [], [], rfl, by decide, by simp, by simp, by decide⟩
  let base : Expr := .unary default .neg (.ident default "a")
  let element : Expr := .ref default (.index default (.ident default "b") [.int default 1])
  let chain : Expr := .concat default [.binary default .pow base element, .str default "x"]
  let items : Expr := .list default [.int default (-2), .call default (.ident default "f") []]
  let e : Expr := .conditional default (.unary default .not (.ident default "c")) chain items
  have hbase : base.Printable := .minus (.ident (hname "a" (by simp))) (by simp)
  have helement : element.Printable :=
    .ref (.index (.ident (hname "b" (by simp))) (by simp) (by simp [Expr.Printable.int]))
  have hchain : chain.Printable :=
    .concat (by simp) (by simp [Expr.Printable.binary hbase helement, Expr.Printable.str])
  have hcall : (Expr.call default (.ident default "f") []).Printable :=
    .call (.ident (hname "f" (by simp))) (by simp)
  have hitems : items.Printable := .list (by simp [Expr.Printable.int, hcall])
  have he : e.Printable := .conditional (.not (.ident (hname "c" (by simp)))) hchain hitems
  have htext : e.text (fun _ => false) =
      "( - a ) ^ ( ref b [ 1 ] ) & \"x\" if not c else [ - 2 , f ( ) ]" := by
    decide +kernel
  obtain ⟨s, hparse, hreturns⟩ := parse_return_text (fun _ => false) he
  rw [htext] at hparse
  exact ⟨e, s, he, htext, hparse, hreturns⟩

end Rill
