-- SUMMARY: Steps of the compiler as regions: constants, names and their captured variables, locals.
import Rill.Proofs.Comparison.Floats
import Rill.Proofs.Layout.Region

/-!
# Constants and names

What a run of each small step of the compiler leaves: the constant is in its pool, the slot is what the name
denotes, the locals have the next slots.
-/

namespace Rill.Compile

open Layout

-- ---------------------------------------------------------------------------
-- Runs of compiler steps
-- ---------------------------------------------------------------------------

section Runs

variable {α β : Type} {d d' : Draft}

theorem bind_ok {x : Compiler α} {f : α → Compiler β} {b : β} :
    (x >>= f) d = .ok (b, d') ↔ ∃ a d₁, x d = .ok (a, d₁) ∧ f a d₁ = .ok (b, d') := by
  change (x d >>= fun p => f p.1 p.2) = .ok (b, d') ↔ _
  cases x d with
  | error e => simp [bind, Except.bind]
  | ok p =>
    constructor
    · intro h
      exact ⟨p.1, p.2, rfl, h⟩
    · rintro ⟨a, d₁, heq, h⟩
      obtain rfl := Except.ok.inj heq
      exact h

theorem pure_ok {a b : α} : (pure a : Compiler α) d = .ok (b, d') ↔ a = b ∧ d = d' := by
  change Except.ok (a, d) = .ok (b, d') ↔ _
  rw [Except.ok.injEq, Prod.mk.injEq]

theorem map_ok {f : α → β} {x : Compiler α} {b : β} (h : (f <$> x) d = .ok (b, d')) :
    ∃ a, f a = b ∧ x d = .ok (a, d') := by
  change (x >>= fun a => pure (f a)) d = .ok (b, d') at h
  simp only [bind_ok, pure_ok] at h
  obtain ⟨a, _, hx, hb, rfl⟩ := h
  exact ⟨a, hb, hx⟩

theorem get_ok {d₁ : Draft} : (get : Compiler Draft) d = .ok (d₁, d') ↔ d = d₁ ∧ d = d' := by
  change Except.ok (d, d) = .ok (d₁, d') ↔ _
  rw [Except.ok.injEq, Prod.mk.injEq]

theorem set_ok {d₁ : Draft} {u : PUnit} : (set d₁ : Compiler PUnit) d = .ok (u, d') ↔ d₁ = d' := by
  change Except.ok (PUnit.unit, d₁) = .ok (u, d') ↔ _
  simp

theorem modify_ok {f : Draft → Draft} {u : PUnit} :
    (modify f : Compiler PUnit) d = .ok (u, d') ↔ f d = d' := by
  change Except.ok (PUnit.unit, f d) = .ok (u, d') ↔ _
  simp

theorem modifyBuilder_ok {f : Builder → Builder} {u : Unit} :
    modifyBuilder f d = .ok (u, d') ↔ { d with builder := f d.builder } = d' := by
  change Except.ok ((), _) = .ok (u, d') ↔ _
  simp

theorem fail_ok {fault : Fault} {a : α} : (fail fault : Compiler α) d = .ok (a, d') ↔ False := by
  simp [fail]

theorem emit_ok {op : Instruction} {k : Nat} :
    emit op d = .ok (k, d') ↔ d.size = k ∧ d.emitted op = d' := by
  change Except.ok (d.size, d.emitted op) = .ok (k, d') ↔ _
  rw [Except.ok.injEq, Prod.mk.injEq]

theorem emit'_ok {op : Instruction} {u : Unit} : emit' op d = .ok (u, d') ↔ d.emitted op = d' := by
  change Except.ok ((), d.emitted op) = .ok (u, d') ↔ _
  simp

theorem here_ok {k : Nat} : here d = .ok (k, d') ↔ d.size = k ∧ d = d' := by
  change Except.ok (d.size, d) = .ok (k, d') ↔ _
  rw [Except.ok.injEq, Prod.mk.injEq]

theorem patchHere_ok {jump : Nat} {u : Unit} :
    patchHere jump d = .ok (u, d') ↔ d.pointed jump d.size = d' :=
  modifyBuilder_ok

theorem setLine_ok {line : Nat} {u : Unit} : setLine line d = .ok (u, d') ↔ d.onLine line = d' := by
  change Except.ok ((), d.onLine line) = .ok (u, d') ↔ _
  simp

theorem openScope_ok {u : Unit} : openScope d = .ok (u, d') ↔ d.opened = d' := by
  change Except.ok ((), d.opened) = .ok (u, d') ↔ _
  simp

theorem closeScope_ok {u : Unit} : closeScope d = .ok (u, d') ↔ d.closed = d' := by
  change Except.ok ((), d.closed) = .ok (u, d') ↔ _
  simp

theorem enterLoop_ok {u : Unit} : enterLoop d = .ok (u, d') ↔ d.entered = d' := modifyBuilder_ok

/-- The size of the code does not change while its jumps are pointed to the end. -/
theorem foldl_patchJump_size (code : Code) (jumps : List Nat) :
    jumps.foldl (fun code jump => code.patchJump jump code.size) code
      = patchJumps code jumps code.ops.size := by
  induction jumps generalizing code with
  | nil => rfl
  | cons jump rest ih =>
    have hsize : (code.patchJump jump code.size).ops.size = code.ops.size := Array.size_modify ..
    rw [List.foldl_cons, ih, hsize]
    rfl

theorem exitLoop_ok {next : Nat} {u : Unit} : exitLoop next d = .ok (u, d') ↔ d.exited next = d' := by
  refine modifyBuilder_ok.trans ?_
  cases h : d.builder.loops with
  | nil => simp only [Draft.exited, h]
  | cons jumps rest =>
    rw [Draft.exited_eq h]
    simp only [foldl_patchJump_size]
    rw [show jumps.nexts.foldl (fun code jump => code.patchJump jump next) d.builder.code
      = patchJumps d.builder.code jumps.nexts next from rfl, size_patchJumps]
    rfl

theorem inScope_ok {body : Compiler Unit} {u : Unit} :
    inScope body d = .ok (u, d') ↔ ∃ d₁, body d.opened = .ok ((), d₁) ∧ d₁.closed = d' := by
  unfold inScope
  simp only [bind_ok, openScope_ok, closeScope_ok]
  constructor
  · rintro ⟨_, _, rfl, _, d₁, hbody, hd⟩
    exact ⟨d₁, hbody, hd⟩
  · rintro ⟨d₁, hbody, hd⟩
    exact ⟨(), _, rfl, (), d₁, hbody, hd⟩

theorem atLine_ok {line : Nat} {body : Compiler Unit} {u : Unit} (h : atLine line body d = .ok (u, d')) :
    ∃ d₁, body (d.onLine line) = .ok ((), d₁) ∧ d' = d₁.onLine d.line := by
  unfold atLine at h
  simp only [bind_ok, get_ok, modify_ok] at h
  obtain ⟨_, _, ⟨rfl, rfl⟩, _, _, rfl, _, d₁, hbody, rfl⟩ := h
  exact ⟨d₁, hbody, rfl⟩

end Runs

-- ---------------------------------------------------------------------------
-- Constants
-- ---------------------------------------------------------------------------

/-- Constants are only added to a pool. -/
theorem poolIndex_prefix {α : Type} (same : α → α → Bool) (pool : Array α) (value : α) :
    pool.toList <+: (poolIndex same pool value).2.toList := by
  unfold poolIndex
  split
  · exact List.prefix_rfl
  · rw [Array.toList_push]
    exact List.prefix_append ..

/-- The index given for a constant is its index in the pool. -/
theorem poolIndex_entry {α : Type} {same : α → α → Bool} (hsame : ∀ a b, same a b = true → b = a)
    (pool : Array α) (value : α) :
    (poolIndex same pool value).2[(poolIndex same pool value).1]? = some value := by
  unfold poolIndex
  split
  · next k hk =>
    obtain ⟨hlt, hentry, -⟩ := Array.findIdx?_eq_some_iff_getElem.mp hk
    rw [Array.getElem?_eq_getElem hlt, hsame value _ hentry]
  · exact Array.getElem?_push_size

section Constants

variable {debug : Bool} {d d' : Draft} {Γ : Env} {k : Nat}

theorem prefix_getElem? {α : Type} {xs ys : Array α} (h : xs.toList <+: ys.toList) {i : Nat} {x : α}
    (hx : xs[i]? = some x) : ys[i]? = some x := by
  obtain ⟨rest, hrest⟩ := h
  obtain ⟨hlt, -⟩ := Array.getElem?_eq_some_iff.mp hx
  rw [← Array.getElem?_toList, ← hrest, List.getElem?_append_left (by simpa using hlt),
    Array.getElem?_toList, hx]

theorem integerConstant_region {n : Int64} (h : Good debug d Γ) (hk : integerConstant n d = .ok (k, d')) :
    d'.size = d.size ∧ Region debug d d' Γ [] fun r _ _ => r.integers[k]? = some n := by
  unfold integerConstant at hk
  simp only [bind_ok, get_ok, modifyBuilder_ok, pure_ok] at hk
  obtain ⟨_, _, ⟨rfl, rfl⟩, _, _, rfl, rfl, rfl⟩ := hk
  have hkept : d.builder.Kept { d.builder with integers := (poolIndex (· == ·) d.builder.integers n).2 } :=
    { Builder.Kept.refl d.builder with integers := poolIndex_prefix .. }
  refine ⟨rfl, (Region.builder h hkept rfl rfl rfl rfl rfl).imp fun r _ _ hr => ?_⟩
  exact prefix_getElem? hr.integers (poolIndex_entry (by simp) ..)

theorem floatConstant_region {x : Float} (h : Good debug d Γ) (hk : floatConstant x d = .ok (k, d')) :
    d'.size = d.size ∧ Region debug d d' Γ [] fun r _ _ => r.floats[k]? = some x := by
  unfold floatConstant at hk
  simp only [bind_ok, get_ok, modifyBuilder_ok, pure_ok] at hk
  obtain ⟨_, _, ⟨rfl, rfl⟩, _, _, rfl, rfl, rfl⟩ := hk
  have hkept : d.builder.Kept { d.builder with floats :=
      (poolIndex (fun a b => a.toBits == b.toBits) d.builder.floats x).2 } :=
    { Builder.Kept.refl d.builder with floats := poolIndex_prefix .. }
  refine ⟨rfl, (Region.builder h hkept rfl rfl rfl rfl rfl).imp fun r _ _ hr => ?_⟩
  have hsame : ∀ a b : Float, (a.toBits == b.toBits) = true → b = a := fun a b hab =>
    (toBits_inj (by simpa using hab)).symm
  exact prefix_getElem? hr.floats (poolIndex_entry hsame ..)

theorem stringConstant_region {s : String} (h : Good debug d Γ) (hk : stringConstant s d = .ok (k, d')) :
    d'.size = d.size ∧ Region debug d d' Γ [] fun r _ _ => IsText r k s := by
  unfold stringConstant at hk
  simp only [bind_ok, get_ok, modifyBuilder_ok, pure_ok] at hk
  obtain ⟨_, _, ⟨rfl, rfl⟩, _, _, rfl, rfl, rfl⟩ := hk
  have hkept : d.builder.Kept { d.builder with strings := (poolIndex (· == ·) d.builder.strings s).2 } :=
    { Builder.Kept.refl d.builder with strings := poolIndex_prefix .. }
  refine ⟨rfl, (Region.builder h hkept rfl rfl rfl rfl rfl).imp fun r _ _ hr => ?_⟩
  exact prefix_getElem? hr.strings (poolIndex_entry (by simp) ..)

end Constants

-- ---------------------------------------------------------------------------
-- Captured variables
-- ---------------------------------------------------------------------------

/-- Entering a captured variable leaves the others where they are. -/
theorem capture_spec {b b' : Builder} {c : Capture} {k : Nat} (h : b.capture c = (k, b')) :
    b.Shares b' ∧ b'.captures[k]? = some c ∧ ∀ x ∈ b'.captures, x ∈ b.captures ∨ x = c := by
  unfold Builder.capture at h
  split at h
  · next j hj =>
    obtain ⟨rfl, rfl⟩ := Prod.mk.inj h
    obtain ⟨hlt, hentry, -⟩ := Array.findIdx?_eq_some_iff_getElem.mp hj
    refine ⟨.refl b, ?_, fun x hx => .inl hx⟩
    rw [Array.getElem?_eq_getElem hlt, eq_of_beq hentry]
  · obtain ⟨rfl, rfl⟩ := Prod.mk.inj h
    refine ⟨⟨rfl, ?_⟩, Array.getElem?_push_size, fun x hx => Array.mem_push.mp hx⟩
    simp only [Array.toList_push]
    exact List.prefix_append ..

theorem FoundIn.of_shares {c : Capture} {b b' : Builder} (h : FoundIn c b) (hb : b.Shares b') :
    FoundIn c b' := by
  unfold FoundIn at h ⊢
  cases hc : c.fromFrame with
  | true =>
    have hlocals : b'.locals = b.locals := by rw [hb.1]
    simpa only [hc, if_true, Builder.findLocal, hlocals] using h
  | false =>
    have hle := hb.2.length_le
    simp only [Array.length_toList] at hle
    simp only [hc, Bool.false_eq_true, if_false] at h ⊢
    omega

theorem Builder.Shares.visible_eq {b b' : Builder} (h : b.Shares b') : b'.visible = b.visible := by
  rw [h.1]
  rfl

/-- A name found around a routine becomes a captured variable of the routine and of those in between. -/
theorem captureThrough_spec {name : String} {b b' : Builder} {bs bs' : List Builder} {k : Nat}
    (hname : IsName name) (h : captureThrough name b bs = some (k, b', bs')) :
    k < b'.captures.size ∧ b.Shares b' ∧ SharesAll bs bs' ∧
      (CapturesFound b.captures bs → CapturesFound b'.captures bs') ∧
      ∀ captures out, b'.captures.toList <+: captures.toList → FitsOuter bs' out →
        Captured name captures out k := by
  induction bs generalizing b b' bs' k with
  | nil => simp [captureThrough] at h
  | cons parent rest ih =>
    simp only [captureThrough] at h
    cases hfind : parent.findLocal name with
    | some slot =>
      cases hcap : b.capture ⟨slot, true⟩ with
      | mk j b₁ =>
      simp only [hfind, hcap, Option.some.injEq, Prod.mk.injEq] at h
      obtain ⟨rfl, rfl, rfl⟩ := h
      obtain ⟨hshares, hentry, hmem⟩ := capture_spec hcap
      have hlt := (Array.getElem?_eq_some_iff.mp hentry).1
      refine ⟨hlt, hshares, .refl _, fun hfound => ⟨fun c hc => ?_, hfound.2⟩,
        fun captures out hpre hout => ?_⟩
      · rcases hmem c hc with hc | rfl
        · exact hfound.1 c hc
        · exact ⟨name, hname, hfind⟩
      · cases hout with
        | cons hp _ =>
          refine .near (prefix_getElem? hpre hentry) ?_
          rw [← Builder.findLocal_eq hp.1, hfind]
    | none =>
      cases hrec : captureThrough name parent rest with
      | none => simp [hfind, hrec] at h
      | some found =>
        obtain ⟨j, parent', rest'⟩ := found
        cases hcap : b.capture ⟨j, false⟩ with
        | mk i b₁ =>
        simp only [hfind, hrec, hcap, Option.some.injEq, Prod.mk.injEq] at h
        obtain ⟨rfl, rfl, rfl⟩ := h
        obtain ⟨hshares, hentry, hmem⟩ := capture_spec hcap
        obtain ⟨hj, hparent, hrest, hfoundRest, hcaptured⟩ := ih hrec
        have hlt := (Array.getElem?_eq_some_iff.mp hentry).1
        refine ⟨hlt, hshares, .cons hparent hrest, fun hfound => ⟨fun c hc => ?_, hfoundRest hfound.2⟩,
          fun captures out hpre hout => ?_⟩
        · rcases hmem c hc with hc | rfl
          · exact (hfound.1 c hc).of_shares hparent
          · simpa [FoundIn] using hj
        · cases hout with
          | cons hp hrestOut =>
            refine .far (prefix_getElem? hpre hentry) ?_ (hcaptured _ _ hp.2.captures hrestOut)
            rw [← Builder.findLocal_eq (hparent.visible_eq ▸ hp.1), hfind]

/-- A name that is found nowhere around a routine is no local of any routine there. -/
theorem captureThrough_none {name : String} {b : Builder} {bs : List Builder}
    (h : captureThrough name b bs = none) {out : Outer} (hout : FitsOuter bs out) :
    ∀ p ∈ out, p.2.find? name = none := by
  induction hout generalizing b with
  | nil => simp
  | cons hp _ ih =>
    simp only [captureThrough] at h
    split at h
    · cases h
    · next hfind =>
      split at h
      · cases h
      · next hrec =>
        intro p hmem
        rcases List.mem_cons.mp hmem with rfl | hmem
        · rw [← Builder.findLocal_eq hp.1, hfind]
        · exact ih hrec p hmem

/-- The slot that a name is resolved to is what the name denotes. -/
theorem resolve_region {debug : Bool} {d d' : Draft} {Γ : Env} {name : String} {slot : Slot}
    (h : Good debug d Γ) (hname : IsName name) (hs : resolve name d = .ok (slot, d')) :
    d'.size = d.size ∧ Region debug d d' Γ [] fun r out _ => Denotes r out Γ name slot := by
  unfold resolve at hs
  simp only [bind_ok, get_ok] at hs
  obtain ⟨_, _, ⟨rfl, rfl⟩, hs⟩ := hs
  have hlocal := Builder.findLocal_eq h.names name
  cases hfind : d.builder.findLocal name with
  | some i =>
    simp only [hfind, pure_ok] at hs
    obtain ⟨rfl, rfl⟩ := hs
    refine ⟨rfl, (Region.refl h).imp fun _ _ _ _ => ?_⟩
    rw [Denotes, ← hlocal, hfind]
  | none =>
    cases hcap : captureThrough name d.builder d.enclosing with
    | some found =>
      obtain ⟨k, b, bs⟩ := found
      simp only [hfind, hcap, bind_ok, set_ok, pure_ok] at hs
      obtain ⟨_, _, rfl, rfl, rfl⟩ := hs
      obtain ⟨-, hshares, hrest, hfound, hcaptured⟩ := captureThrough_spec hname hcap
      refine ⟨congrArg (·.code.ops.size) hshares.1, ?_⟩
      refine (Region.tables h hshares.kept ?_ ?_ ?_ ?_ hrest (hfound h.captures)).imp fun r out _ hr => ?_
      · rw [hshares.1]
      · rw [hshares.1]
      · rw [hshares.1]
      · rw [hshares.1]
      · rw [Denotes, ← hlocal, hfind]
        exact ⟨rfl, hcaptured _ _ hr.1.captures hr.2⟩
    | none =>
      simp only [hfind, hcap, bind_ok, pure_ok] at hs
      obtain ⟨k, d₁, hk, rfl, rfl⟩ := hs
      obtain ⟨hsize, hr⟩ := stringConstant_region h hk
      refine ⟨hsize, ⟨hr.good, hr.grows, hr.covers, hr.free, fun r out loop hf => ?_⟩⟩
      have hout := hf.outer.of_shares hr.grows.enclosing
      rw [Denotes, ← hlocal, hfind]
      exact ⟨rfl, captureThrough_none hcap hout, hr.places r out loop hf⟩

-- ---------------------------------------------------------------------------
-- Locals
-- ---------------------------------------------------------------------------

section Locals

variable {debug : Bool} {d d' : Draft} {Γ : Env}

theorem addLocal_ok {name : String} {slot : Nat} (h : addLocal name d = .ok (slot, d')) :
    slot = d.builder.locals.size ∧ d' = d.declared name := by
  unfold addLocal at h
  simp only [bind_ok, get_ok] at h
  obtain ⟨_, _, ⟨rfl, rfl⟩, h⟩ := h
  split at h
  · simp only [bind_ok, fail_ok, false_and, exists_false] at h
  · simp only [bind_ok, modifyBuilder_ok, pure_ok] at h
    obtain ⟨_, _, rfl, rfl, rfl⟩ := h
    exact ⟨rfl, rfl⟩

/-- A new local gets the next slot. -/
theorem defineLocal_region {name : String} {slot : Nat} (h : Good debug d Γ)
    (hd : defineLocal name d = .ok (slot, d')) :
    slot = Γ.taken ∧ d'.size = d.size + 1 ∧
      Region debug d d' (Γ.declare name) [] fun r _ _ => r.Has d.size (.define Γ.taken) := by
  unfold defineLocal at hd
  simp only [bind_ok, emit'_ok, pure_ok] at hd
  obtain ⟨_, d₁, hadd, _, _, rfl, rfl, rfl⟩ := hd
  obtain ⟨rfl, rfl⟩ := addLocal_ok hadd
  have hr := Region.declared h name
  rw [h.taken]
  exact ⟨rfl, Draft.size_emitted .., (hr.seq (.emitted hr.good _)).imp fun _ _ _ h => h.2⟩

theorem declareNull_region {names : List String} (h : Good debug d Γ)
    (hd : declareNull names d = .ok ((), d')) :
    Region debug d d' (Γ.declareAll names) []
      fun r _ _ => PlacesNulls r (List.range' Γ.taken names.length) d.size d'.size := by
  induction names generalizing d Γ with
  | nil =>
    obtain ⟨-, rfl⟩ := pure_ok.mp hd
    exact (Region.refl h).imp fun _ _ _ _ => rfl
  | cons name rest ih =>
    simp only [declareNull, bind_ok, emit'_ok] at hd
    obtain ⟨_, _, rfl, slot, d₂, hlocal, hrest⟩ := hd
    have hnull := Region.emitted h .pushNull
    obtain ⟨-, hsize, hdefine⟩ := defineLocal_region hnull.good hlocal
    have hrest := ih hdefine.good hrest
    rw [Draft.size_emitted] at hsize hdefine
    refine ((hnull.seq hdefine).seq hrest).imp fun r _ _ hr => ?_
    rw [hsize] at hr
    exact ⟨hr.1.1, hr.1.2, hr.2⟩

theorem addLocals_region {names : List String} {slots : List Nat} (h : Good debug d Γ)
    (hd : addLocals names d = .ok (slots, d')) :
    slots = List.range' Γ.taken names.length ∧ d'.size = d.size ∧
      Region debug d d' (Γ.declareAll names) [] fun _ _ _ => True := by
  unfold addLocals at hd
  induction names generalizing d Γ slots with
  | nil =>
    obtain ⟨rfl, rfl⟩ := pure_ok.mp hd
    exact ⟨rfl, rfl, Region.refl h⟩
  | cons name rest ih =>
    rw [List.mapM_cons] at hd
    simp only [bind_ok, pure_ok] at hd
    obtain ⟨slot, d₁, hadd, slots, d₂, hrest, rfl, rfl⟩ := hd
    obtain ⟨rfl, rfl⟩ := addLocal_ok hadd
    have hone := Region.declared h name
    obtain ⟨rfl, hsize, hr⟩ := ih hone.good hrest
    refine ⟨?_, hsize, (hone.seq hr).imp fun _ _ _ _ => trivial⟩
    rw [h.taken, List.length_cons, List.range'_succ, Env.declare_taken]

theorem defineSlots_region {slots : List Nat} (h : Good debug d Γ)
    (hd : defineSlots slots d = .ok ((), d')) :
    Region debug d d' Γ [] fun r _ _ => PlacesDefines r slots.reverse d.size d'.size := by
  unfold defineSlots at hd
  generalize slots.reverse = rest at hd
  induction rest generalizing d with
  | nil =>
    obtain ⟨-, rfl⟩ := pure_ok.mp hd
    exact (Region.refl h).imp fun _ _ _ _ => rfl
  | cons slot rest ih =>
    simp only [List.forM, bind_ok, emit'_ok] at hd
    obtain ⟨_, _, rfl, hrest⟩ := hd
    have hone := Region.emitted h (.define slot)
    have hrest := ih hone.good hrest
    rw [Draft.size_emitted] at hrest
    exact hone.seq hrest

/-- The slot of a local function is one that its name has in the scope, or a new one. -/
theorem functionSlot_region {name : String} {slot : Nat} (h : Good debug d Γ)
    (hd : functionSlot name d = .ok (slot, d')) :
    (∃ i, Γ.inScope? name = some i ∧ slot = i ∧ d' = d) ∨
      (Γ.inScope? name = none ∧ slot = Γ.taken ∧ d'.size = d.size + 2 ∧
        Region debug d d' (Γ.declare name) [] fun r _ _ =>
          r.Has d.size .pushNull ∧ r.Has (d.size + 1) (.define Γ.taken)) := by
  unfold functionSlot at hd
  simp only [bind_ok, get_ok] at hd
  obtain ⟨_, _, ⟨rfl, rfl⟩, hd⟩ := hd
  rw [h.localInScope_eq] at hd
  cases hin : Γ.inScope? name with
  | some i =>
    simp only [hin, pure_ok] at hd
    exact .inl ⟨i, rfl, hd.1.symm, hd.2.symm⟩
  | none =>
    simp only [hin, bind_ok, emit'_ok] at hd
    obtain ⟨_, _, rfl, hlocal⟩ := hd
    have hnull := Region.emitted h .pushNull
    obtain ⟨hslot, hsize, hdefine⟩ := defineLocal_region hnull.good hlocal
    rw [Draft.size_emitted] at hsize hdefine
    exact .inr ⟨rfl, hslot, hsize, Region.seq hnull hdefine⟩

end Locals

end Rill.Compile
