-- SUMMARY: The code placed for a node of the syntax tree fits together.
import Rill.Proofs.Depth.Slots
import Rill.Proofs.Depth.Steps

/-!
# Nodes

An expression leaves one operand more than it finds, and a statement none. This holds wherever they are
placed, so by induction on the syntax tree every placed script is sound, with statements that start between
statements.
-/

namespace Rill.Layout

open Compile (containerUse unaryInstruction logicalTest compoundInstruction)

variable {debug : Bool} {r : Routine} {out : Outer} {Γ : Env} {exits : Exits} {s : Shape} {i j : Nat}

-- ---------------------------------------------------------------------------
-- Names and shapes
-- ---------------------------------------------------------------------------

/-- The names visible at a place go with the shape there: no name of the text denotes a slot with an
iterator. -/
structure Suits (r : Routine) (Γ : Env) (s : Shape) : Prop where
  hides : Hides Γ s.iterators
  frame : Γ.taken ≤ r.frameSize
  floor : s.floor ≤ s.operands

theorem Suits.grow (h : Suits r Γ s) (n : Nat) : Suits r Γ (s.grow n) :=
  ⟨h.hides, h.frame, Nat.le_trans h.floor (Nat.le_add_right _ _)⟩

theorem Suits.wait (h : Suits r Γ s) : Suits r Γ s.wait :=
  ⟨h.hides, h.frame, Nat.le_refl _⟩

/-- What a name of the text denotes exists, and holds no iterator. -/
theorem Denotes.inRange {name : String} {slot : Slot} (hs : Suits r Γ s) (hname : IsName name)
    (h : Denotes r out Γ name slot) : slot.InRange r ∧ ∀ k, slot = .frame k → k ∉ s.iterators := by
  cases slot with
  | frame k =>
    obtain ⟨hlt, hfree⟩ := hs.hides.find hname h
    refine ⟨Nat.lt_of_lt_of_le hlt hs.frame, fun k' heq => ?_⟩
    obtain rfl := Slot.frame.inj heq
    exact hfree
  | captured k =>
    refine ⟨?_, nofun⟩
    obtain ⟨-, hcaptured⟩ := h
    cases hcaptured with
    | near entry _ => exact (Array.getElem?_eq_some_iff.mp entry).1
    | far entry _ _ => exact (Array.getElem?_eq_some_iff.mp entry).1
  | global k => exact ⟨(Array.getElem?_eq_some_iff.mp h.2.2).1, nofun⟩

theorem value_takesArgument (s : Shape) (p : Nat) (h : Use.value = .argument p) : s.TakesArgument p :=
  absurd h (by simp)

theorem unique_takesArgument (s : Shape) (p : Nat) (h : Use.unique = .argument p) : s.TakesArgument p :=
  absurd h (by simp)

theorem containerUse_takesArgument (use : Use) (s : Shape) (p : Nat) (h : containerUse use = .argument p) :
    s.TakesArgument p := by
  cases use <;> simp [containerUse] at h

-- ---------------------------------------------------------------------------
-- Pieces without subterms
-- ---------------------------------------------------------------------------

theorem IsText.lt {k : Nat} {text : String} (h : IsText r k text) : k < r.strings.size :=
  (Array.getElem?_eq_some_iff.mp h).1

/-- A constant is pushed. -/
theorem push_stretch {o : Instruction} (hs : Suits r Γ s) (has : r.Has i o) (hrange : o.InRange r)
    (hplain : o.isPlain = true) (hpops : o.pops = 0) (hpushes : o.pushes = 1)
    (harg : o.argument? = none) : Stretch r i s (i + 1) (s.grow 1) exits True := by
  have h : Stretch r i _ _ _ exits True := .plain hs.floor has hrange hplain (by simp [harg])
  rw [hpops, hpushes] at h
  exact h.weaken s.le_grow_zero (Shape.le_refl _)

theorem int_stretch {n : Int64} (hs : Suits r Γ s) (h : PlacesInt r n i) :
    Stretch r i s (i + 1) (s.grow 1) exits True := by
  unfold PlacesInt at h
  split at h
  · exact push_stretch hs h trivial rfl rfl rfl rfl
  · obtain ⟨k, has, hk⟩ := h
    exact push_stretch hs has (Array.getElem?_eq_some_iff.mp hk).1 rfl rfl rfl rfl

/-- The values on the stack are stored into slots without iterators. -/
theorem defines_stretch {slots : List Nat} (hs : Suits r Γ s)
    (hslots : ∀ k ∈ slots, k < r.frameSize ∧ k ∉ s.iterators) (h : PlacesDefines r slots i j) :
    Stretch r i (s.grow slots.length) j (s.grow 0) exits True := by
  induction slots generalizing i with
  | nil =>
    obtain rfl : j = i := h
    exact .nil (Shape.le_refl _)
  | cons slot rest ih =>
    obtain ⟨has, hrest⟩ := h
    obtain ⟨hlt, hfree⟩ := hslots slot List.mem_cons_self
    have hdefine : Stretch r i ((s.grow rest.length).grow 1) (i + 1) ((s.grow rest.length).grow 0) exits
        True :=
      .define (hs.grow _).floor has hlt hfree
    rw [Shape.grow_grow, Shape.grow_grow] at hdefine
    exact (hdefine.seq (ih (fun k hk => hslots k (List.mem_cons_of_mem _ hk)) hrest)).imp fun _ => trivial

theorem nulls_stretch {slots : List Nat} (hs : Suits r Γ s)
    (hslots : ∀ k ∈ slots, k < r.frameSize ∧ k ∉ s.iterators) (h : PlacesNulls r slots i j) :
    Stretch r i (s.grow 0) j (s.grow 0) exits True := by
  induction slots generalizing i with
  | nil =>
    obtain rfl : j = i := h
    exact .nil (Shape.le_refl _)
  | cons slot rest ih =>
    obtain ⟨hnull, hdefine, hrest⟩ := h
    obtain ⟨hlt, hfree⟩ := hslots slot List.mem_cons_self
    have hnull : Stretch r i (s.grow 0) (i + 1) (s.grow 1) exits True :=
      (push_stretch (hs.grow 0) hnull trivial rfl rfl rfl rfl).weaken (Shape.le_refl _) (Shape.le_refl _)
    have hdefine : Stretch r (i + 1) (s.grow 1) (i + 2) (s.grow 0) exits True :=
      .define hs.floor hdefine hlt hfree
    have hrest := ih (fun k hk => hslots k (List.mem_cons_of_mem _ hk)) hrest
    exact ((hnull.seq hdefine).seq hrest).imp fun _ => trivial

/-- A slot without an iterator is pushed. -/
theorem readSlot_stretch {k : Nat} (hs : Suits r Γ s) (has : r.Has i (.read (.frame k) .value))
    (hslot : k < r.frameSize ∧ k ∉ s.iterators) : Stretch r i s (i + 1) (s.grow 1) exits True :=
  .read hs.floor has hslot.1 (fun _ heq => Slot.frame.inj heq ▸ hslot.2) nofun

theorem placesStep_stretch {slot : Nat} {stepSlot : Option Nat} {descending : Bool}
    (hs : Suits r Γ s) (hslot : slot < r.frameSize ∧ slot ∉ s.iterators)
    (hstep : ∀ k ∈ stepSlot, k < r.frameSize ∧ k ∉ s.iterators)
    (h : PlacesStep r slot stepSlot descending i j) :
    Stretch r i (s.grow 0) j (s.grow 0) exits True := by
  cases stepSlot with
  | none =>
    obtain ⟨has, rfl⟩ := h
    exact .count hs.floor has hslot.1 hslot.2
  | some k =>
    obtain ⟨hread, hreadStep, hop, hwrite, rfl⟩ := h
    have hread : Stretch r i (s.grow 0) (i + 1) (s.grow 1) exits True :=
      (readSlot_stretch (hs.grow 0) hread hslot).weaken (Shape.le_refl _) (Shape.le_refl _)
    have hreadStep : Stretch r (i + 1) (s.grow 1) (i + 2) (s.grow 2) exits True :=
      readSlot_stretch (hs.grow 1) hreadStep (hstep k rfl)
    have hop : Stretch r (i + 2) (s.grow 2) (i + 3) (s.grow 1) exits True :=
      .plain hs.floor hop trivial rfl nofun
    have hwrite : Stretch r (i + 3) (s.grow 1) (i + 4) (s.grow 0) exits True :=
      .write hs.floor (.inl hwrite) hslot.1 fun _ heq => Slot.frame.inj heq ▸ hslot.2
    exact (((hread.seq hreadStep).seq hop).seq hwrite).imp fun _ => trivial

/-- The key of a loop is taken from its iterator, if it is wanted. -/
theorem key_stretch {key : Option String} {iterator slot : Nat} (hs : Suits r Γ s)
    (hiterator : iterator < r.frameSize ∧ iterator ∈ s.iterators)
    (hslot : key.isSome = true → slot < r.frameSize ∧ slot ∉ s.iterators)
    (h : PlacesKey r iterator slot key i j) : Stretch r i (s.grow 0) j (s.grow 0) exits True := by
  cases key with
  | none =>
    obtain rfl : j = i := h
    exact .nil (Shape.le_refl _)
  | some name =>
    obtain ⟨hread, hkey, hdefine, rfl⟩ := h
    obtain ⟨hlt, hfree⟩ := hslot rfl
    have hread : Stretch r i (s.grow 0) (i + 1) s.growIterator exits True :=
      .readIterator (s := s.grow 0) hs.floor hread hiterator.1 hiterator.2
    have hkey : Stretch r (i + 1) s.growIterator (i + 2) (s.grow 1) exits True := .advance hs.floor hkey rfl
    have hdefine : Stretch r (i + 2) (s.grow 1) (i + 3) (s.grow 0) exits True :=
      .define hs.floor hdefine hlt hfree
    exact ((hread.seq hkey).seq hdefine).imp fun _ => trivial

-- ---------------------------------------------------------------------------
-- Expressions
-- ---------------------------------------------------------------------------

/-- An operator after its operands. -/
theorem operator_stretch {o : Instruction} {n k : Nat} {P : Prop} (hs : Suits r Γ s)
    (h : Stretch r i s k (s.grow n) exits P) (has : r.Has k o) (hrange : o.InRange r)
    (hplain : o.isPlain = true) (hpops : o.pops = n) (hpushes : o.pushes = 1)
    (harg : ∀ p ∈ o.argument?, s.TakesArgument p) : Stretch r i s (k + 1) (s.grow 1) exits P := by
  have hop : Stretch r k _ _ _ exits True := .plain hs.floor has hrange hplain harg
  rw [hpops, hpushes] at hop
  exact (h.seq hop).imp And.left

/-- The ends of a loop, where control arrives between statements. -/
def jumps (loop : Loop) (iterators : List Nat) : Exits := fun n t =>
  ∃ ends, loop = some ends ∧ (n = ends.1 ∨ n = ends.2) ∧ t = .level iterators

/-- Where the jumps of a loop body go, inside the loop statement. -/
theorem jumps_inside {leave next k : Nat} {t : Shape} {inside : Exits} {L : List Nat}
    (hleave : inside leave (.level L)) (hnext : (next = k ∧ .level L ≤ t) ∨ inside next (.level L)) :
    ∀ n v, jumps (some (leave, next)) L n v → (n = k ∧ v ≤ t) ∨ ∃ w, inside n w ∧ v ≤ w := by
  rintro n v ⟨ends, hends, hn, rfl⟩
  obtain rfl := Option.some.inj hends
  rcases hn with rfl | rfl
  · exact .inr ⟨_, hleave, Shape.le_refl _⟩
  · exact hnext.imp id fun h => ⟨_, h, Shape.le_refl _⟩

mutual

theorem places_stretch {r : Routine} {out : Outer} {Γ : Env} {use : Use} {e : Expr} (exits : Exits)
    {s : Shape} {i j : Nat} (hs : Suits r Γ s) (hp : e.Proper)
    (huse : ∀ p, use = .argument p → s.TakesArgument p) (h : Places anywhere debug r out Γ use e i j) :
    Stretch r i s j (s.grow 1) exits (Places StartsLevel debug r out Γ use e i j) := by
  match e with
  | .null _ =>
    obtain ⟨has, rfl⟩ := h
    exact (push_stretch hs has trivial rfl rfl rfl rfl).imp fun _ => ⟨has, rfl⟩
  | .nan _ =>
    obtain ⟨has, rfl⟩ := h
    exact (push_stretch hs has trivial rfl rfl rfl rfl).imp fun _ => ⟨has, rfl⟩
  | .bool _ b =>
    obtain ⟨has, rfl⟩ := h
    exact (push_stretch hs has trivial rfl rfl rfl rfl).imp fun _ => ⟨has, rfl⟩
  | .int _ n =>
    obtain ⟨hint, rfl⟩ := h
    exact (int_stretch hs hint).imp fun _ => ⟨hint, rfl⟩
  | .float _ x =>
    obtain ⟨⟨k, has, hk⟩, rfl⟩ := h
    exact (push_stretch hs has (Array.getElem?_eq_some_iff.mp hk).1 rfl rfl rfl rfl).imp
      fun _ => ⟨⟨k, has, hk⟩, rfl⟩
  | .str _ text =>
    obtain ⟨⟨k, has, hk⟩, rfl⟩ := h
    exact (push_stretch hs has hk.lt rfl rfl rfl rfl).imp fun _ => ⟨⟨k, has, hk⟩, rfl⟩
  | .ident _ name =>
    obtain ⟨⟨slot, has, hslot⟩, rfl⟩ := h
    obtain ⟨hrange, hfree⟩ := hslot.inRange hs hp
    exact (Stretch.read hs.floor has hrange hfree huse).imp fun _ => ⟨⟨slot, has, hslot⟩, rfl⟩
  | .unary _ op operand =>
    obtain ⟨k, hoperand, has, rfl⟩ := h
    have hoperand := places_stretch (e := operand) exits hs hp (value_takesArgument s) hoperand
    cases op
    all_goals
      exact (operator_stretch hs hoperand has trivial rfl rfl rfl nofun).imp fun hP => ⟨k, hP, has, rfl⟩
  | .binary _ op left right =>
    obtain ⟨k, l, hleft, hright, has, rfl⟩ := h
    have hleft := places_stretch exits hs hp.1 (value_takesArgument s) hleft
    have hright := places_stretch exits (hs.grow 1) hp.2 (value_takesArgument _) hright
    exact (operator_stretch hs (hleft.seq hright) has trivial rfl rfl rfl nofun).imp
      fun hP => ⟨k, l, hP.1, hP.2, has, rfl⟩
  | .logical _ op left right =>
    obtain ⟨k, hleft, has, hright⟩ := h
    let exits' : Exits := fun n v => n = j ∧ v = s.grow 1
    have hleft := places_stretch exits' hs hp.1 (value_takesArgument s) hleft
    have hjump : Stretch r k (s.grow 1) (k + 1) (s.grow 0) exits' True :=
      .keep hs.floor has ⟨rfl, rfl⟩ (Shape.le_refl _)
    have hright := places_stretch exits' (hs.grow 0) hp.2 (value_takesArgument _) hright
    refine (((hleft.seq hjump).seq hright).mono fun n v hv => .inl ⟨hv.1, ?_⟩).imp
      fun hP => ⟨k, hP.1.1, has, hP.2⟩
    exact hv.2 ▸ Shape.le_refl _
  | .concat _ parts =>
    obtain ⟨k, hparts, has, rfl⟩ := h
    have hp : ProperAll parts := hp
    have hparts := placesAll_stretch exits hs hp hparts
    exact (operator_stretch hs hparts has trivial rfl rfl rfl nofun).imp fun hP => ⟨k, hP, has, rfl⟩
  | .conditional _ cond whenTrue whenFalse =>
    obtain ⟨k, l, hcond, htest, htrue, hjump, hfalse⟩ := h
    -- The test leaves for the second branch, and the first branch for the end.
    let exits' : Exits := fun n v => (n = l + 1 ∧ v = s.grow 0) ∨ (n = j ∧ v = s.grow 1)
    have hcond := places_stretch exits' hs hp.1 (value_takesArgument s) hcond
    have htest' : Stretch r k (s.grow 1) (k + 1) (s.grow 0) exits' True :=
      .test hs.floor htest (.inl rfl) (.inl ⟨rfl, rfl⟩) (Shape.le_refl _)
    have htrue := places_stretch exits' (hs.grow 0) hp.2.1 (value_takesArgument _) htrue
    have hjump' : Stretch r l ((s.grow 0).grow 1) (l + 1) (s.grow 0) exits' True :=
      .jump ((hs.grow 0).grow 1).floor hjump (.inr ⟨rfl, rfl⟩) (by simp [Shape.le_refl])
    have hfalse := places_stretch (fun n v => n = j ∧ v = s.grow 1) (hs.grow 0) hp.2.2
      (value_takesArgument _) hfalse
    have hfirst := (((hcond.seq htest').seq htrue).seq hjump').mono
      (E := fun n v => n = j ∧ v = s.grow 1) fun n v hv => ?_
    · refine ((hfirst.seq hfalse).mono fun n v hv => .inl ⟨hv.1, ?_⟩).imp
        fun hP => ⟨k, l, hP.1.1.1.1, htest, hP.1.1.2, hjump, hP.2⟩
      exact hv.2 ▸ Shape.le_refl _
    · rcases hv with ⟨hn, rfl⟩ | hv
      · exact .inl ⟨hn, Shape.le_refl _⟩
      · exact .inr ⟨v, hv, Shape.le_refl _⟩
  | .field _ object name =>
    obtain ⟨k, n, hobject, has, hname, rfl⟩ := h
    have hobject := places_stretch (e := object) exits hs hp (containerUse_takesArgument use s) hobject
    refine (operator_stretch hs hobject has hname.lt rfl rfl rfl fun p hp => ?_).imp
      fun hP => ⟨k, n, hP, has, hname, rfl⟩
    exact huse p (by cases use <;> simp_all [Instruction.argument?])
  | .index _ object indices =>
    obtain ⟨k, l, hobject, hindices, has, rfl⟩ := h
    have hobject := places_stretch exits hs hp.1 (containerUse_takesArgument use s) hobject
    have hindices := placesAll_stretch exits (hs.grow 1) hp.2 hindices
    rw [Shape.grow_grow, Nat.add_comm] at hindices
    refine (operator_stretch hs (hobject.seq hindices) has trivial rfl rfl rfl fun p hp => ?_).imp
      fun hP => ⟨k, l, hP.1, hP.2, has, rfl⟩
    exact huse p (by cases use <;> simp_all [Instruction.argument?])
  | .call _ callee args =>
    obtain ⟨k, l, hcallee, hpre, hargs, has, rfl⟩ := h
    have hcallee := places_stretch exits hs hp.1 (value_takesArgument s) hcallee
    have hargs := placesArguments_stretch exits hs.wait hp.2 s.wait_takesArgument hargs
    exact (((hcallee.seq (.precall hs.floor hpre)).seq hargs).seq (.call has)).imp
      fun hP => ⟨k, l, hP.1.1.1, hpre, hP.1.2, has, rfl⟩
  | .ref _ target => exact placesReference_stretch (e := target) exits hs hp h
  | .list _ items =>
    obtain ⟨k, hitems, has, rfl⟩ := h
    have hp : ProperAll items := hp
    have hitems := placesAll_stretch exits hs hp hitems
    exact (operator_stretch hs hitems has trivial rfl rfl rfl nofun).imp fun hP => ⟨k, hP, has, rfl⟩
  | .array _ rows cols items =>
    obtain ⟨k, hitems, has, rfl⟩ := h
    have hitems := placesAll_stretch exits hs hp.2 hitems
    exact (operator_stretch hs hitems has trivial rfl hp.1 rfl nofun).imp fun hP => ⟨k, hP, has, rfl⟩
  | .table _ entries =>
    obtain ⟨k, hentries, has, rfl⟩ := h
    have hp : ProperPairs entries := hp
    have hentries := placesPairs_stretch exits hs hp hentries
    exact (operator_stretch hs hentries has trivial rfl rfl rfl nofun).imp fun hP => ⟨k, hP, has, rfl⟩
  | .set _ items =>
    obtain ⟨k, hitems, has, rfl⟩ := h
    have hp : ProperAll items := hp
    have hitems := placesAll_stretch exits hs hp hitems
    exact (operator_stretch hs hitems has trivial rfl rfl rfl nofun).imp fun hP => ⟨k, hP, has, rfl⟩
  | .function _ fn => exact placesClosure_stretch exits hs hp h

theorem placesReference_stretch {r : Routine} {out : Outer} {Γ : Env} {e : Expr} (exits : Exits) {s : Shape}
    {i j : Nat} (hs : Suits r Γ s) (hp : e.Proper) (h : PlacesReference anywhere debug r out Γ e i j) :
    Stretch r i s j (s.grow 1) exits (PlacesReference StartsLevel debug r out Γ e i j) := by
  match e with
  | .ident _ name =>
    obtain ⟨⟨slot, has, hslot⟩, rfl⟩ := h
    obtain ⟨hrange, hfree⟩ := hslot.inRange hs hp
    exact (Stretch.read hs.floor has hrange hfree nofun).imp fun _ => ⟨⟨slot, has, hslot⟩, rfl⟩
  | .field _ object name =>
    obtain ⟨k, n, hobject, has, hname, rfl⟩ := h
    have hobject := places_stretch (e := object) exits hs hp (unique_takesArgument s) hobject
    exact (operator_stretch hs hobject has hname.lt rfl rfl rfl nofun).imp
      fun hP => ⟨k, n, hP, has, hname, rfl⟩
  | .index _ object indices =>
    obtain ⟨k, l, hobject, hindices, has, rfl⟩ := h
    have hobject := places_stretch exits hs hp.1 (unique_takesArgument s) hobject
    have hindices := placesAll_stretch exits (hs.grow 1) hp.2 hindices
    rw [Shape.grow_grow, Nat.add_comm] at hindices
    exact (operator_stretch hs (hobject.seq hindices) has trivial rfl rfl rfl nofun).imp
      fun hP => ⟨k, l, hP.1, hP.2, has, rfl⟩
  | .call _ callee args =>
    obtain ⟨k, l, hcallee, hpre, hargs, has, rfl⟩ := h
    have hcallee := places_stretch exits hs hp.1 (value_takesArgument s) hcallee
    have hargs := placesArguments_stretch exits hs.wait hp.2 s.wait_takesArgument hargs
    exact (((hcallee.seq (.precall hs.floor hpre)).seq hargs).seq (.call has)).imp
      fun hP => ⟨k, l, hP.1.1.1, hpre, hP.1.2, has, rfl⟩
  | .null _ | .nan _ | .bool .. | .int .. | .float .. | .str .. | .unary .. | .binary .. | .logical ..
  | .concat .. | .conditional .. | .ref .. | .list .. | .array .. | .table .. | .set .. | .function .. =>
    exact h.elim

theorem placesAll_stretch {r : Routine} {out : Outer} {Γ : Env} {es : List Expr} (exits : Exits) {s : Shape}
    {i j : Nat} (hs : Suits r Γ s) (hp : ProperAll es) (h : PlacesAll anywhere debug r out Γ es i j) :
    Stretch r i s j (s.grow es.length) exits (PlacesAll StartsLevel debug r out Γ es i j) := by
  match es with
  | [] =>
    obtain rfl : j = i := h
    exact (Stretch.nil s.le_grow_zero).imp fun _ => rfl
  | e :: rest =>
    obtain ⟨k, he, hrest⟩ := h
    have he := places_stretch exits hs hp.1 (value_takesArgument s) he
    have hrest := placesAll_stretch exits (hs.grow 1) hp.2 hrest
    rw [Shape.grow_grow, Nat.add_comm] at hrest
    exact (he.seq hrest).imp fun hP => ⟨k, hP⟩

theorem placesArguments_stretch {r : Routine} {out : Outer} {Γ : Env} {es : List Expr} {position : Nat}
    (exits : Exits) {s : Shape} {i j : Nat} (hs : Suits r Γ s) (hp : ProperAll es)
    (hposition : s.TakesArgument position) (h : PlacesArguments anywhere debug r out Γ position es i j) :
    Stretch r i s j (s.grow es.length) exits
      (PlacesArguments StartsLevel debug r out Γ position es i j) := by
  match es with
  | [] =>
    obtain rfl : j = i := h
    exact (Stretch.nil s.le_grow_zero).imp fun _ => rfl
  | e :: rest =>
    obtain ⟨k, he, hrest⟩ := h
    have he := places_stretch exits hs hp.1
      (fun p heq => (Use.argument.inj heq) ▸ hposition) he
    have hrest := placesArguments_stretch exits (hs.grow 1) hp.2 hposition.grow hrest
    rw [Shape.grow_grow, Nat.add_comm] at hrest
    exact (he.seq hrest).imp fun hP => ⟨k, hP⟩

theorem placesPairs_stretch {r : Routine} {out : Outer} {Γ : Env} {es : List (Expr × Expr)} (exits : Exits)
    {s : Shape} {i j : Nat} (hs : Suits r Γ s) (hp : ProperPairs es)
    (h : PlacesPairs anywhere debug r out Γ es i j) :
    Stretch r i s j (s.grow (2 * es.length)) exits (PlacesPairs StartsLevel debug r out Γ es i j) := by
  match es with
  | [] =>
    obtain rfl : j = i := h
    exact (Stretch.nil s.le_grow_zero).imp fun _ => rfl
  | (key, value) :: rest =>
    obtain ⟨k, l, hkey, hvalue, hrest⟩ := h
    have hkey := places_stretch exits hs hp.1 (value_takesArgument s) hkey
    have hvalue := places_stretch exits (hs.grow 1) hp.2.1 (value_takesArgument _) hvalue
    have hrest := placesPairs_stretch exits ((hs.grow 1).grow 1) hp.2.2 hrest
    rw [Shape.grow_grow, Shape.grow_grow, Nat.add_comm (1 + 1), ← Nat.mul_succ] at hrest
    exact ((hkey.seq hvalue).seq hrest).imp fun hP => ⟨k, l, hP.1.1, hP.1.2, hP.2⟩

theorem placesClosure_stretch {r : Routine} {out : Outer} {Γ : Env} {fn : Lambda} {name : String}
    (exits : Exits) {s : Shape} {i j : Nat} (hs : Suits r Γ s) (hp : fn.Proper)
    (h : PlacesClosure anywhere debug r out Γ name fn i j) :
    Stretch r i s j (s.grow 1) exits (PlacesClosure StartsLevel debug r out Γ name fn i j) := by
  match fn with
  | ⟨_, params, ⟨_, stmts⟩⟩ =>
    obtain ⟨index, child, k, body, hentry, hname, hcount, hflags, hmax, hcaptures, hbody, htaken, hreserve,
      hnull, hresult, hsize, huses, hclasses, has, rfl⟩ := h
    have hparams := Env.Extends.declareAll { depth := Γ.depth + 1 } (params.map (·.name))
    have hafter := envAfterAll_extends debug
      (({ depth := Γ.depth + 1 } : Env).declareAll (params.map (·.name))) stmts
    have hbody := placesAllStmts_stretch ((Hides.empty _).mono hparams) (Nat.le_of_eq htaken)
      hp.2 (List.nil_subset _) hbody
    obtain ⟨hsound, hbody⟩ := Stretch.routine hreserve
      (hbody.mono fun n v hv => absurd hv (by simp [jumps]))
      hnull hresult hsize huses
    have hcount' : params.length ≤ child.frameSize := by
      have := hafter.taken
      rw [htaken, Env.declareAll_taken, List.length_map] at this
      omega
    have hfound (c : Capture) (hc : c ∈ child.captures) :
        c.InRange r ∧ (c.fromFrame = true → c.index ∉ s.iterators) := by
      have hc := hcaptures c hc
      unfold Capture.InRange
      split at hc
      · next hframe =>
        obtain ⟨name, hname, hfind⟩ := hc
        obtain ⟨hlt, hfree⟩ := hs.hides.find hname hfind
        rw [if_pos hframe]
        exact ⟨Nat.lt_of_lt_of_le hlt hs.frame, fun _ => hfree⟩
      · next hframe =>
        rw [if_neg hframe]
        exact ⟨hc, fun h => absurd h hframe⟩
    have hclasses := placesClasses_stretch exits hs hp.1 hclasses
    refine (hclasses.seq (.closure hs.floor has hentry hcount' hsound hfound)).imp fun hP => ?_
    exact ⟨index, child, k, body, hentry, hname, hcount, hflags, hmax, hcaptures, hbody, htaken, hreserve,
      hnull, hresult, hsize, huses, hP.1, has, rfl⟩

theorem placesClasses_stretch {r : Routine} {out : Outer} {Γ : Env} {params : List Param} (exits : Exits)
    {s : Shape} {i j : Nat} (hs : Suits r Γ s) (hp : ProperParams params)
    (h : PlacesClasses anywhere debug r out Γ params i j) :
    Stretch r i s j (s.grow params.length) exits (PlacesClasses StartsLevel debug r out Γ params i j) := by
  match params with
  | [] =>
    obtain rfl : j = i := h
    exact (Stretch.nil s.le_grow_zero).imp fun _ => rfl
  | ⟨_, _, _, some e⟩ :: rest =>
    obtain ⟨k, he, hrest⟩ := h
    have he := places_stretch exits hs hp.1 (value_takesArgument s) he
    have hrest := placesClasses_stretch exits (hs.grow 1) hp.2 hrest
    rw [Shape.grow_grow, Nat.add_comm] at hrest
    exact (he.seq hrest).imp fun hP => ⟨k, hP⟩
  | ⟨_, _, _, none⟩ :: rest =>
    obtain ⟨has, hrest⟩ := h
    have hrest := placesClasses_stretch exits (hs.grow 1) (show ProperParams rest from hp) hrest
    rw [Shape.grow_grow, Nat.add_comm 1] at hrest
    exact ((push_stretch hs has trivial rfl rfl rfl rfl).seq hrest).imp fun hP => ⟨has, hP.2⟩

theorem placesStore_stretch {r : Routine} {out : Outer} {Γ : Env} {e : Expr} (exits : Exits) {s : Shape}
    {i j : Nat} (hs : Suits r Γ s) (hp : e.Proper) (h : PlacesStore anywhere debug r out Γ e i j) :
    Stretch r i (s.grow 1) j (s.grow 0) exits (PlacesStore StartsLevel debug r out Γ e i j) := by
  match e with
  | .ident _ name =>
    obtain ⟨⟨slot, has, hslot⟩, rfl⟩ := h
    obtain ⟨hrange, hfree⟩ := hslot.inRange hs hp
    exact (Stretch.write hs.floor (.inl has) hrange hfree).imp fun _ => ⟨⟨slot, has, hslot⟩, rfl⟩
  | .index _ object indices =>
    obtain ⟨k, l, hobject, hindices, has, rfl⟩ := h
    have hobject := places_stretch exits (hs.grow 1) hp.1 (unique_takesArgument _) hobject
    have hindices := placesAll_stretch exits ((hs.grow 1).grow 1) hp.2 hindices
    have hset : Stretch r l (s.grow (indices.length + 2)) (l + 1) (s.grow 0) exits True :=
      .plain hs.floor has trivial rfl nofun
    rw [Shape.grow_grow, Shape.grow_grow, Nat.add_comm (1 + 1)] at hindices
    rw [Shape.grow_grow] at hobject
    exact ((hobject.seq hindices).seq hset).imp fun hP => ⟨k, l, hP.1.1, hP.1.2, has, rfl⟩
  | .field _ object name =>
    obtain ⟨k, n, hobject, has, hname, rfl⟩ := h
    have hobject := places_stretch (e := object) exits (hs.grow 1) hp (unique_takesArgument _) hobject
    have hset : Stretch r k (s.grow 2) (k + 1) (s.grow 0) exits True :=
      .plain hs.floor has hname.lt rfl nofun
    rw [Shape.grow_grow] at hobject
    exact (hobject.seq hset).imp fun hP => ⟨k, n, hP.1, has, hname, rfl⟩
  | .null _ | .nan _ | .bool .. | .int .. | .float .. | .str .. | .unary .. | .binary .. | .logical ..
  | .concat .. | .conditional .. | .call .. | .ref .. | .list .. | .array .. | .table .. | .set ..
  | .function .. => exact h.elim

theorem placesStmt_stretch {r : Routine} {out : Outer} {Γ : Env} {s : Stmt} {loop : Loop}
    {L ends : List Nat} {i j : Nat} (hΓ : Hides Γ L) (hframe : (envAfter debug Γ s).taken ≤ r.frameSize)
    (hp : s.Proper) (hends : ends ⊆ L) (h : PlacesStmt anywhere debug r out Γ loop s i j) :
    Stretch r i (.level L) j (.level L) (jumps loop ends)
      (PlacesStmt StartsLevel debug r out Γ loop s i j) := by
  have hframe' : Γ.taken ≤ r.frameSize := Nat.le_trans (envAfter_extends debug Γ s).taken hframe
  have hs : Suits r Γ (.level L) := ⟨hΓ, hframe', Nat.le_refl 0⟩
  match s with
  | .expr _ value =>
    obtain ⟨k, hvalue, has, rfl⟩ := h
    have hvalue := places_stretch (e := value) (jumps loop ends) hs hp (value_takesArgument _) hvalue
    have hpop : Stretch r k (Shape.grow (.level L) 1) (k + 1) (.level L) (jumps loop ends) True :=
      .plain hs.floor has trivial rfl nofun
    exact (hvalue.seq hpop).imp fun hP => ⟨k, hP.1, has, rfl⟩
  | .assign _ none target value =>
    obtain ⟨k, hvalue, hstore⟩ := h
    have hvalue := places_stretch (jumps loop ends) hs hp.2 (value_takesArgument _) hvalue
    have hstore := placesStore_stretch (jumps loop ends) hs hp.1 hstore
    exact (hvalue.seq hstore).imp fun hP => ⟨k, hP⟩
  | .assign _ (some op) target value =>
    obtain ⟨k, l, htarget, hvalue, has, hstore⟩ := h
    have htarget := places_stretch (jumps loop ends) hs hp.1 (value_takesArgument _) htarget
    have hvalue := places_stretch (jumps loop ends) (hs.grow 1) hp.2 (value_takesArgument _) hvalue
    have hop : Stretch r l (Shape.grow (.level L) 2) (l + 1) (Shape.grow (.level L) 1) (jumps loop ends)
        True := by
      cases op <;> exact .plain hs.floor has trivial rfl nofun
    have hstore := placesStore_stretch (jumps loop ends) hs hp.1 hstore
    exact (((htarget.seq hvalue).seq hop).seq hstore).imp
      fun hP => ⟨k, l, hP.1.1.1, hP.1.1.2, has, hP.2⟩
  | .declare _ names values =>
    have hslots (k : Nat) (hk : k ∈ List.range' Γ.taken names.length) : k < r.frameSize ∧ k ∉ L := by
      rw [List.mem_range'_1] at hk
      simp only [envAfter, Env.declareAll_taken] at hframe
      refine ⟨by omega, fun hmem => ?_⟩
      have := hΓ.bound k hmem
      omega
    simp only [PlacesStmt] at h ⊢
    split at h
    · next hempty =>
      rw [if_pos hempty]
      exact (nulls_stretch hs hslots h).imp fun _ => h
    · next hsome =>
      obtain ⟨hlength, k, hvalues, hdefines⟩ := h
      rw [if_neg hsome]
      have hvalues := placesAll_stretch (jumps loop ends) hs hp hvalues
      have hdefines' : Stretch r k _ _ _ (jumps loop ends) True := defines_stretch hs
        (fun k hk => hslots k (List.mem_reverse.mp hk)) hdefines
      rw [List.length_reverse, List.length_range', ← hlength] at hdefines'
      exact (hvalues.seq hdefines').imp fun hP => ⟨hlength, k, hP.1, hdefines⟩
  | .function _ isLocal name fn =>
    simp only [PlacesStmt, envAfter] at h hframe ⊢
    split at h
    · next hlocal =>
      simp only [if_pos hlocal] at hframe ⊢
      cases hfind : Γ.inScope? name with
      | some slot =>
        simp only [hfind] at h ⊢
        obtain ⟨k, hclosure, has, rfl⟩ := h
        obtain ⟨hlt, hfree⟩ := hΓ.inScope hp.1 hfind
        have hclosure := placesClosure_stretch (jumps loop ends) hs hp.2 hclosure
        have hdeclare : Stretch r k (Shape.grow (.level L) 1) (k + 1) (.level L) (jumps loop ends) True :=
          .write hs.floor (.inr has) (Nat.lt_of_lt_of_le hlt hframe') fun _ heq =>
            Slot.frame.inj heq ▸ hfree
        exact (hclosure.seq hdeclare).imp fun hP => ⟨k, hP.1, has, rfl⟩
      | none =>
        simp only [hfind, Option.isSome_none, Bool.false_eq_true, if_false, Env.declare_taken] at h hframe ⊢
        obtain ⟨hnull, hdefine, k, hclosure, has, rfl⟩ := h
        have hfree : Γ.taken ∉ L := fun hmem => Nat.lt_irrefl _ (hΓ.bound _ hmem)
        have hs' : Suits r (Γ.declare name) (.level L) := ⟨hΓ.mono (.declare Γ name), hframe, hs.floor⟩
        have hpush : Stretch r _ _ _ _ (jumps loop ends) True :=
          push_stretch hs hnull trivial rfl rfl rfl rfl
        have hdefine' : Stretch r (i + 1) (Shape.grow (.level L) 1) (i + 2) (.level L) (jumps loop ends)
            True :=
          .define hs.floor hdefine hframe hfree
        have hclosure := placesClosure_stretch (jumps loop ends) hs' hp.2 hclosure
        have hdeclare : Stretch r k (Shape.grow (.level L) 1) (k + 1) (.level L) (jumps loop ends) True :=
          .write hs.floor (.inr has) hframe fun _ heq => Slot.frame.inj heq ▸ hfree
        exact (((hpush.seq hdefine').seq hclosure).seq hdeclare).imp
          fun hP => ⟨hnull, hdefine, k, hP.1.2, has, rfl⟩
    · next hglobal =>
      rw [if_neg hglobal]
      obtain ⟨k, n, hclosure, has, hname, rfl⟩ := h
      have hclosure := placesClosure_stretch (jumps loop ends) hs hp.2 hclosure
      have hdeclare : Stretch r k (Shape.grow (.level L) 1) (k + 1) (.level L) (jumps loop ends) True :=
        .write hs.floor (.inr has) hname.lt nofun
      exact (hclosure.seq hdeclare).imp fun hP => ⟨k, n, hP.1, has, hname, rfl⟩
  | .print _ newline args =>
    obtain ⟨k, hargs, has, rfl⟩ := h
    have hp : ProperAll args := hp
    have hargs := placesAll_stretch (jumps loop ends) hs hp hargs
    have hprint : Stretch r k (Shape.grow (.level L) args.length) (k + 1) (.level L) (jumps loop ends)
        True :=
      .plain hs.floor has trivial rfl nofun
    exact (hargs.seq hprint).imp fun hP => ⟨k, hP.1, has, rfl⟩
  | .branch _ arms otherwise =>
    obtain ⟨k, harms, hotherwise⟩ := h
    have hafter := envAfterOption_extends debug (envAfterArms debug Γ arms) otherwise
    have harms := placesArms_stretch hΓ (Nat.le_trans hafter.taken hframe) hp.1 hends harms
    have hotherwise := placesOption_stretch (hΓ.mono (envAfterArms_extends debug Γ arms)) hframe hp.2 hends
      hotherwise
    have hall := harms.seq (hotherwise.mono (E := fun n v => (n = j ∧ v = .level L) ∨ jumps loop ends n v)
      fun n v hv => .inr ⟨v, .inr hv, Shape.le_refl _⟩)
    refine (hall.mono fun n v hv => ?_).imp fun hP => ⟨k, hP⟩
    rcases hv with ⟨hn, rfl⟩ | hv
    · exact .inl ⟨hn, Shape.le_refl _⟩
    · exact .inr ⟨v, hv, Shape.le_refl _⟩
  | .whileLoop _ cond body =>
    obtain ⟨k, l, hcond, htest, hbody, hback, rfl⟩ := h
    let inside : Exits := fun n v => (n = i ∧ v = .level L) ∨ (n = l + 1 ∧ v = .level L)
    have hcond := places_stretch inside hs hp.1 (value_takesArgument _) hcond
    have htest' : Stretch r k (Shape.grow (.level L) 1) (k + 1) (.level L) inside True :=
      .test hs.floor htest (.inl rfl) (.inr ⟨rfl, rfl⟩) (Shape.le_refl _)
    have hbody := (placesBlock_stretch hΓ hframe hp.2 (List.Subset.refl L) hbody).mono (E := inside)
      (jumps_inside (.inr ⟨rfl, rfl⟩) (.inr (.inl ⟨rfl, rfl⟩)))
    have hback' : Stretch r l (.level L) (l + 1) (.level L) inside True :=
      .jump hs.floor hback (.inl ⟨rfl, rfl⟩) (Shape.le_refl _)
    have hround := ((hcond.seq htest').seq hbody).seq hback'
    have hloop := hround.loop (Nat.lt_succ_of_le (Nat.le_trans hcond.ordered
      (Nat.le_trans htest'.ordered hbody.ordered)))
    exact (hloop.mono fun n v hv => .inl ⟨hv.1, hv.2 ▸ Shape.le_refl _⟩).imp
      fun hP => ⟨k, l, hP.1.1.1, htest, hP.1.2, hback, rfl⟩
  | .repeatLoop _ ⟨_, stmts⟩ cond =>
    obtain ⟨k, l, hbody, hcond, htest, rfl⟩ := h
    let inside : Exits := fun n v => (n = i ∧ v = .level L) ∨ (n = l + 1 ∧ v = .level L)
    have henter := hΓ.mono (.enter Γ)
    have hbody := (placesAllStmts_stretch henter hframe hp.1 (List.Subset.refl L) hbody).mono
      (E := inside) (jumps_inside (.inr ⟨rfl, rfl⟩) (.inl ⟨rfl, Shape.le_refl _⟩))
    have hs' : Suits r (envAfterAll debug Γ.enter stmts) (.level L) :=
      ⟨henter.mono (envAfterAll_extends debug _ stmts), hframe, hs.floor⟩
    have hcond := places_stretch inside hs' hp.2 (value_takesArgument _) hcond
    have htest' : Stretch r l (Shape.grow (.level L) 1) (l + 1) (.level L) inside True :=
      .test hs.floor htest (.inl rfl) (.inl ⟨rfl, rfl⟩) (Shape.le_refl _)
    have hround := (hbody.seq hcond).seq htest'
    have hloop := hround.loop (Nat.lt_succ_of_le (Nat.le_trans hbody.ordered hcond.ordered))
    exact (hloop.mono fun n v hv => .inl ⟨hv.1, hv.2 ▸ Shape.le_refl _⟩).imp
      fun hP => ⟨k, l, hP.1.1, hP.1.2, htest, rfl⟩
  | .forLoop _ counter descending first last step body =>
    obtain ⟨k, l, m, n, o, hfirst, hdefine, hlast, hdefineEnd, hstep, hread, hreadEnd, hcompare, htest,
      hbody, hnext, hback, rfl⟩ := h
    have hΓ₁ := hΓ.mono (.enter Γ)
    have hΓ₂ := hΓ₁.mono (.declare _ counter)
    have hΓ₃ := hΓ₂.mono (.declare _ "$end")
    have hΓ₄ := hΓ₁.mono (.declareAll _ (counterNames counter step))
    have hbodyExtends := envAfterBlock_extends debug (Γ.enter.declareAll (counterNames counter step)) body
    have htaken : Γ.taken + 2 + (if step.isSome then 1 else 0) ≤ r.frameSize := by
      have := Nat.le_trans hbodyExtends.taken hframe
      rw [Env.declareAll_taken] at this
      cases step <;> simpa [counterNames, Nat.add_assoc] using this
    have hfree (k : Nat) (hk : Γ.taken ≤ k) : k ∉ L := fun hmem => by
      have := hΓ.bound k hmem
      omega
    have hcounter : Γ.taken < r.frameSize ∧ Γ.taken ∉ L := ⟨by omega, hfree _ (Nat.le_refl _)⟩
    have hend : Γ.taken + 1 < r.frameSize ∧ Γ.taken + 1 ∉ L := ⟨by omega, hfree _ (by omega)⟩
    have hs₂ : Suits r (Γ.enter.declare counter) (.level L) :=
      ⟨hΓ₂, by simp only [Env.declare_taken, Env.enter_taken]; omega, hs.floor⟩
    -- The variables of the loop are set once.
    let outside : Exits := jumps loop ends
    have hfirst := places_stretch outside (s := .level L) ⟨hΓ₁, hframe', hs.floor⟩ hp.1
      (value_takesArgument _) hfirst
    have hdefine' : Stretch r k (Shape.grow (.level L) 1) (k + 1) (.level L) outside True :=
      .define hs.floor hdefine hcounter.1 hcounter.2
    have hlast := places_stretch outside hs₂ hp.2.1 (value_takesArgument _) hlast
    have hdefineEnd' : Stretch r l (Shape.grow (.level L) 1) (l + 1) (.level L) outside True :=
      .define hs.floor hdefineEnd hend.1 hend.2
    have hstep := placesOptionExpr_stretch outside (s := .level L)
      ⟨hΓ₃, by simp only [Env.declare_taken, Env.enter_taken]; omega, hs.floor⟩ hp.2.2.1
      (fun hsome => ⟨by simp only [hsome, if_true] at htaken; omega, hfree _ (by omega)⟩) hstep
    -- Then control goes round between `m` and the end.
    let inside : Exits := fun n v => (n = m ∧ v = .level L) ∨ (n = o + 1 ∧ v = .level L)
    have hread' : Stretch r m (.level L) (m + 1) (Shape.grow (.level L) 1) inside True :=
      readSlot_stretch hs hread hcounter
    have hreadEnd' : Stretch r (m + 1) (Shape.grow (.level L) 1) (m + 2) (Shape.grow (.level L) 2)
        inside True :=
      readSlot_stretch (hs.grow 1) hreadEnd hend
    have hcompare' : Stretch r (m + 2) (Shape.grow (.level L) 2) (m + 3) (Shape.grow (.level L) 1)
        inside True :=
      .plain hs.floor hcompare trivial rfl nofun
    have htest' : Stretch r (m + 3) (Shape.grow (.level L) 1) (m + 4) (.level L) inside True :=
      .test hs.floor htest (.inr rfl) (.inr ⟨rfl, rfl⟩) (Shape.le_refl _)
    have hbody := (placesBlock_stretch hΓ₄ hframe hp.2.2.2 (List.Subset.refl L) hbody).mono (E := inside)
      (jumps_inside (.inr ⟨rfl, rfl⟩) (.inl ⟨rfl, Shape.le_refl _⟩))
    have hnext' : Stretch r n (.level L) o (.level L) inside True :=
      placesStep_stretch hs hcounter (fun k hk => by
        cases step with
        | none => simp at hk
        | some e =>
          obtain rfl : Γ.taken + 2 = k := by simpa using hk
          exact ⟨Nat.lt_of_succ_le (by simpa using htaken), hfree _ (by omega)⟩) hnext
    have hback' : Stretch r o (.level L) (o + 1) (.level L) inside True :=
      .jump hs.floor hback (.inl ⟨rfl, rfl⟩) (Shape.le_refl _)
    have hround := ((((((hread'.seq hreadEnd').seq hcompare').seq htest').seq hbody).seq hnext').seq hback')
    have hloop := hround.loop (Nat.lt_of_lt_of_le (Nat.lt_add_of_pos_right (Nat.succ_pos 3))
      (Nat.le_trans hbody.ordered (Nat.le_trans hnext'.ordered (Nat.le_succ o))))
    have hrounds := hloop.mono (E := outside) fun n v hv => .inl ⟨hv.1, hv.2 ▸ Shape.le_refl _⟩
    exact (((((hfirst.seq hdefine').seq hlast).seq hdefineEnd').seq hstep).seq hrounds).imp fun hP =>
      ⟨k, l, m, n, o, hP.1.1.1.1.1, hdefine, hP.1.1.1.2, hdefineEnd, hP.1.2, hread, hreadEnd, hcompare,
        htest, hP.2.1.1.2, hnext, hback, rfl⟩
  | .foreachLoop _ key value byRef collection ⟨_, stmts⟩ =>
    obtain ⟨k, l, m, hcollection, hiterate, hdefine, hread, hhasNext, htest, hkey, hread', hnext, hdefine',
      hbody, hback, rfl⟩ := h
    have hΓ₁ := hΓ.mono (.enter Γ)
    have hΓ₂ : Hides (Γ.enter.declare "$iter") (Γ.taken :: L) := hΓ₁.declare not_isName_iter
    have hΓ₃ := (hΓ₂.mono (.enter _)).mono (.declareAll _ (key.toList ++ [value]))
    have hbodyExtends := envAfterAll_extends debug
      ((Γ.enter.declare "$iter").enter.declareAll (key.toList ++ [value])) stmts
    have htaken : Γ.taken + 2 + key.toList.length ≤ r.frameSize := by
      have := Nat.le_trans hbodyExtends.taken hframe
      simp only [Env.declareAll_taken, Env.enter_taken, Env.declare_taken, List.length_append,
        List.length_singleton] at this
      omega
    have hkeySlot (hsome : key.isSome = true) : Γ.taken + 1 < r.frameSize := by omega
    have hfree (k : Nat) (hk : Γ.taken < k) : k ∉ Γ.taken :: L := fun hmem => by
      rcases List.mem_cons.mp hmem with rfl | hmem
      · omega
      · have := hΓ.bound k hmem
        omega
    have huse (p : Nat) (heq : (if byRef && collection.isPlace then Use.unique else .value) = .argument p) :
        Shape.TakesArgument (.level L) p := by
      split at heq <;> simp at heq
    -- The iterator is made once.
    let outside : Exits := jumps loop ends
    have hcollection := places_stretch outside (s := .level L) ⟨hΓ₁, hframe', hs.floor⟩ hp.1
      huse hcollection
    have hiterate' : Stretch r k (Shape.grow (.level L) 1) (k + 1) (Shape.growIterator (.level L))
        outside True :=
      .iterate hs.floor hiterate
    have hbind : Stretch r (k + 1) (Shape.growIterator (.level L)) (k + 2) (.level (Γ.taken :: L))
        outside True :=
      .defineIterator hs.floor hdefine (by omega)
    -- Then control goes round from `k + 2`, with the iterator in its slot.
    have hs' : Suits r (Γ.enter.declare "$iter") (.level (Γ.taken :: L)) :=
      ⟨hΓ₂, by simp only [Env.declare_taken, Env.enter_taken]; omega, Nat.le_refl 0⟩
    have hiter : Γ.taken ∈ Γ.taken :: L := List.mem_cons_self
    have hrange : Γ.taken < r.frameSize := by omega
    let inside : Exits := fun n v => (n = k + 2 ∧ v = .level (Γ.taken :: L)) ∨
      (n = m + 1 ∧ v = .level (Γ.taken :: L))
    have hfetch : Stretch r (k + 2) (.level (Γ.taken :: L)) (k + 3)
        (Shape.growIterator (.level (Γ.taken :: L))) inside True :=
      .readIterator hs'.floor hread hrange hiter
    have hhas : Stretch r (k + 3) (Shape.growIterator (.level (Γ.taken :: L))) (k + 4)
        (Shape.grow (.level (Γ.taken :: L)) 1) inside True :=
      .advance hs'.floor hhasNext rfl
    have htest' : Stretch r (k + 4) (Shape.grow (.level (Γ.taken :: L)) 1) (k + 5) (.level (Γ.taken :: L))
        inside True :=
      .test hs'.floor htest (.inl rfl) (.inr ⟨rfl, rfl⟩) (Shape.le_refl _)
    have hkey' : Stretch r (k + 5) (.level (Γ.taken :: L)) l (.level (Γ.taken :: L)) inside True :=
      key_stretch hs' ⟨hrange, hiter⟩ (fun hsome => ⟨hkeySlot hsome, hfree _ (Nat.lt_succ_self _)⟩) hkey
    have hfetch' : Stretch r l (.level (Γ.taken :: L)) (l + 1)
        (Shape.growIterator (.level (Γ.taken :: L))) inside True :=
      .readIterator hs'.floor hread' hrange hiter
    have hnext' : Stretch r (l + 1) (Shape.growIterator (.level (Γ.taken :: L))) (l + 2)
        (Shape.grow (.level (Γ.taken :: L)) 1) inside True :=
      .advance hs'.floor hnext rfl
    have hbind' : Stretch r (l + 2) (Shape.grow (.level (Γ.taken :: L)) 1) (l + 3)
        (.level (Γ.taken :: L)) inside True :=
      .define hs'.floor hdefine' (by omega) (hfree _ (by omega))
    have hbody := (placesAllStmts_stretch hΓ₃ hframe hp.2 (List.Subset.refl _) hbody).mono (E := inside)
      (jumps_inside (.inr ⟨rfl, rfl⟩) (.inr (.inl ⟨rfl, rfl⟩)))
    have hback' : Stretch r m (.level (Γ.taken :: L)) (m + 1) (.level (Γ.taken :: L)) inside True :=
      .jump hs'.floor hback (.inl ⟨rfl, rfl⟩) (Shape.le_refl _)
    have hround := (((((((hfetch.seq hhas).seq htest').seq hkey').seq hfetch').seq hnext').seq hbind').seq
      hbody).seq hback'
    have hloop := hround.loop (by
      have := hkey'.ordered
      have := hbody.ordered
      omega)
    have hrounds := (hloop.mono (E := outside) fun n v hv => .inl ⟨hv.1, hv.2 ▸ Shape.le_refl _⟩).weaken
      (Shape.le_refl _) (Shape.level_mono (List.subset_cons_self Γ.taken L))
    exact (((hcollection.seq hiterate').seq hbind).seq hrounds).imp fun hP =>
      ⟨k, l, m, hP.1.1.1, hiterate, hdefine, hread, hhasNext, htest, hkey, hread', hnext, hdefine',
        hP.2.1.2, hback, rfl⟩
  | .result _ (some e) =>
    obtain ⟨k, he, has, rfl⟩ := h
    have he := places_stretch (e := e) (jumps loop ends) hs hp (value_takesArgument _) he
    exact (he.seq (.result has rfl rfl)).imp fun hP => ⟨k, hP.1, has, rfl⟩
  | .result _ none =>
    obtain ⟨hnull, has, rfl⟩ := h
    have hpush : Stretch r _ _ _ _ (jumps loop ends) True := push_stretch hs hnull trivial rfl rfl rfl rfl
    exact (hpush.seq (.result has rfl rfl)).imp fun _ => ⟨hnull, has, rfl⟩
  | .leave _ =>
    obtain ⟨⟨targets, rfl, has⟩, rfl⟩ := h
    exact (Stretch.jump hs.floor has ⟨targets, rfl, .inl rfl, rfl⟩ (Shape.level_mono hends)).imp
      fun _ => ⟨⟨targets, rfl, has⟩, rfl⟩
  | .next _ =>
    obtain ⟨⟨targets, rfl, has⟩, rfl⟩ := h
    exact (Stretch.jump hs.floor has ⟨targets, rfl, .inr rfl, rfl⟩ (Shape.level_mono hends)).imp
      fun _ => ⟨⟨targets, rfl, has⟩, rfl⟩
  | .pass _ =>
    obtain rfl : j = i := h
    exact (Stretch.nil (Shape.le_refl _)).imp fun _ => rfl
  | .assert _ cond (some message) =>
    obtain ⟨k, l, hcond, hmessage, has, rfl⟩ := h
    have hcond := places_stretch (jumps loop ends) hs hp.1 (value_takesArgument _) hcond
    have hmessage := places_stretch (e := message) (jumps loop ends) (hs.grow 1) hp.2
      (value_takesArgument _) hmessage
    have hassert : Stretch r l (Shape.grow (.level L) 2) (l + 1) (.level L) (jumps loop ends) True :=
      .plain hs.floor has trivial rfl nofun
    exact ((hcond.seq hmessage).seq hassert).imp fun hP => ⟨k, l, hP.1.1, hP.1.2, has, rfl⟩
  | .assert _ cond none =>
    obtain ⟨k, hcond, has, rfl⟩ := h
    have hcond := places_stretch (jumps loop ends) hs hp.1 (value_takesArgument _) hcond
    have hassert : Stretch r k (Shape.grow (.level L) 1) (k + 1) (.level L) (jumps loop ends) True :=
      .plain hs.floor has trivial rfl nofun
    exact (hcond.seq hassert).imp fun hP => ⟨k, hP.1, has, rfl⟩
  | .throw _ value =>
    obtain ⟨k, hvalue, has, rfl⟩ := h
    have hvalue := places_stretch (e := value) (jumps loop ends) hs hp (value_takesArgument _) hvalue
    exact (hvalue.seq (.throw hs.floor has)).imp fun hP => ⟨k, hP.1, has, rfl⟩
  | .debug _ body =>
    simp only [PlacesStmt, envAfter] at h hframe ⊢
    split at h
    · next hdebug =>
      rw [if_pos hdebug] at hframe ⊢
      exact placesBlock_stretch hΓ hframe hp hends h
    · next hdebug =>
      rw [if_neg hdebug]
      exact h ▸ (Stretch.nil (Shape.le_refl _)).imp fun _ => rfl
  | .block _ body => exact placesBlock_stretch hΓ hframe hp hends h

theorem placesBlock_stretch {r : Routine} {out : Outer} {Γ : Env} {body : Block} {loop : Loop}
    {L ends : List Nat} {i j : Nat} (hΓ : Hides Γ L)
    (hframe : (envAfterBlock debug Γ body).taken ≤ r.frameSize) (hp : body.Proper) (hends : ends ⊆ L)
    (h : PlacesBlock anywhere debug r out Γ loop body i j) :
    Stretch r i (.level L) j (.level L) (jumps loop ends)
      (PlacesBlock StartsLevel debug r out Γ loop body i j) := by
  match body with
  | ⟨_, stmts⟩ => exact placesAllStmts_stretch (hΓ.mono (.enter Γ)) hframe hp hends h

theorem placesArms_stretch {r : Routine} {out : Outer} {Γ : Env} {arms : List (Expr × Block)} {loop : Loop}
    {exit : Nat} {L ends : List Nat} {i j : Nat} (hΓ : Hides Γ L)
    (hframe : (envAfterArms debug Γ arms).taken ≤ r.frameSize) (hp : ProperArms arms) (hends : ends ⊆ L)
    (h : PlacesArms anywhere debug r out Γ loop exit arms i j) :
    Stretch r i (.level L) j (.level L) (fun n v => (n = exit ∧ v = .level L) ∨ jumps loop ends n v)
      (PlacesArms StartsLevel debug r out Γ loop exit arms i j) := by
  match arms with
  | [] =>
    obtain rfl : j = i := h
    exact (Stretch.nil (Shape.le_refl _)).imp fun _ => rfl
  | (cond, body) :: rest =>
    obtain ⟨k, l, hcond, htest, hbody, hjump, hrest⟩ := h
    have hbodyExtends := envAfterBlock_extends debug Γ body
    have hrestExtends := envAfterArms_extends debug (envAfterBlock debug Γ body) rest
    have hframe' := Nat.le_trans hrestExtends.taken hframe
    have hs : Suits r Γ (.level L) := ⟨hΓ, Nat.le_trans hbodyExtends.taken hframe', Nat.le_refl 0⟩
    let outside : Exits := fun n v => (n = exit ∧ v = .level L) ∨ jumps loop ends n v
    let inside : Exits := fun n v => (n = l + 1 ∧ v = .level L) ∨ outside n v
    have hcond := places_stretch inside hs hp.1 (value_takesArgument _) hcond
    have htest' : Stretch r k (Shape.grow (.level L) 1) (k + 1) (.level L) inside True :=
      .test hs.floor htest (.inl rfl) (.inl ⟨rfl, rfl⟩) (Shape.le_refl _)
    have hbody := (placesBlock_stretch hΓ hframe' hp.2.1 hends hbody).mono (E := inside)
      fun n v hv => .inr ⟨v, .inr (.inr hv), Shape.le_refl _⟩
    have hjump' : Stretch r l (.level L) (l + 1) (.level L) inside True :=
      .jump hs.floor hjump (.inr (.inl ⟨rfl, rfl⟩)) (Shape.le_refl _)
    have harm := (((hcond.seq htest').seq hbody).seq hjump').mono (E := outside) fun n v hv => by
      rcases hv with ⟨hn, rfl⟩ | hv
      · exact .inl ⟨hn, Shape.le_refl _⟩
      · exact .inr ⟨v, hv, Shape.le_refl _⟩
    have hrest := placesArms_stretch (hΓ.mono hbodyExtends) hframe hp.2.2 hends hrest
    exact (harm.seq hrest).imp fun hP => ⟨k, l, hP.1.1.1.1, htest, hP.1.1.2, hjump, hP.2⟩

theorem placesOption_stretch {r : Routine} {out : Outer} {Γ : Env} {body : Option Block} {loop : Loop}
    {L ends : List Nat} {i j : Nat} (hΓ : Hides Γ L)
    (hframe : (envAfterOption debug Γ body).taken ≤ r.frameSize) (hp : ProperOption body) (hends : ends ⊆ L)
    (h : PlacesOption anywhere debug r out Γ loop body i j) :
    Stretch r i (.level L) j (.level L) (jumps loop ends)
      (PlacesOption StartsLevel debug r out Γ loop body i j) := by
  match body with
  | none =>
    obtain rfl : j = i := h
    exact (Stretch.nil (Shape.le_refl _)).imp fun _ => rfl
  | some body =>
    have hp : body.Proper := hp
    exact placesBlock_stretch hΓ hframe hp hends h

theorem placesOptionExpr_stretch {r : Routine} {out : Outer} {Γ : Env} {e : Option Expr} {slot : Nat}
    (exits : Exits) {s : Shape} {i j : Nat} (hs : Suits r Γ s) (hp : ProperOptionExpr e)
    (hslot : e.isSome = true → slot < r.frameSize ∧ slot ∉ s.iterators)
    (h : PlacesOptionExpr anywhere debug r out Γ slot e i j) :
    Stretch r i (s.grow 0) j (s.grow 0) exits (PlacesOptionExpr StartsLevel debug r out Γ slot e i j) := by
  match e with
  | none =>
    obtain rfl : j = i := h
    exact (Stretch.nil (Shape.le_refl _)).imp fun _ => rfl
  | some e =>
    obtain ⟨k, he, has, rfl⟩ := h
    obtain ⟨hlt, hfree⟩ := hslot rfl
    have he := places_stretch (e := e) exits (hs.grow 0) hp (value_takesArgument _) he
    exact (he.seq (.define hs.floor has hlt hfree)).imp fun hP => ⟨k, hP.1, has, rfl⟩

theorem placesAllStmts_stretch {r : Routine} {out : Outer} {Γ : Env} {stmts : List Stmt} {loop : Loop}
    {L ends : List Nat} {i j : Nat} (hΓ : Hides Γ L)
    (hframe : (envAfterAll debug Γ stmts).taken ≤ r.frameSize) (hp : ProperStmts stmts) (hends : ends ⊆ L)
    (h : PlacesAllStmts anywhere debug r out Γ loop stmts i j) :
    Stretch r i (.level L) j (.level L) (jumps loop ends)
      (PlacesAllStmts StartsLevel debug r out Γ loop stmts i j) := by
  match stmts with
  | [] =>
    obtain rfl : j = i := h
    exact (Stretch.nil (Shape.le_refl _)).imp fun _ => rfl
  | s :: rest =>
    obtain ⟨-, k, hs, hrest⟩ := h
    have hextends := envAfter_extends debug Γ s
    have hframe' := (envAfterAll_extends debug (envAfter debug Γ s) rest).taken
    have hs := placesStmt_stretch hΓ (Nat.le_trans hframe' hframe) hp.1 hends hs
    have hrest := placesAllStmts_stretch (hΓ.mono hextends) hframe hp.2 hends hrest
    exact ((hs.seq hrest).startsLevel (Shape.level_isLevel L)).imp fun hP => ⟨hP.1, k, hP.2⟩

end

end Rill.Layout
