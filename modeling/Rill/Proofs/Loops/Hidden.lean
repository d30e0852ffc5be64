-- SUMMARY: The code of a text does not name slots that no name of the text denotes.
import Rill.Proofs.Depth.Slots
import Rill.Proofs.Layout.Placement
import Rill.Proofs.Loops.Control

/-!
# Hidden slots

A loop keeps its limit and its step in slots whose names no text can spell. Wherever code for the body is
placed, none of its instructions names such a slot, neither as a variable nor as one that a function captures.
-/

namespace Rill.Layout

open Compile (unaryInstruction compoundInstruction)

-- ---------------------------------------------------------------------------
-- Code that avoids slots
-- ---------------------------------------------------------------------------

/-- No instruction from `i` up to `j` names a hidden slot. -/
def Avoids (r : Routine) (hidden : List Nat) (i j : Nat) : Prop :=
  ∀ n, i ≤ n → n < j → ∀ op, r.Has n op → ∀ k ∈ hidden, ¬op.Names r k

namespace Avoids

variable {r : Routine} {hidden : List Nat} {i j k : Nat}

theorem nil : Avoids r hidden i i := fun n hlo hhi => by omega

theorem seq (h : Avoids r hidden i k) (h' : Avoids r hidden k j) : Avoids r hidden i j := by
  intro n hlo hhi
  rcases Nat.lt_or_ge n k with hn | hn
  · exact h n hlo hn
  · exact h' n hn hhi

theorem op {o : Instruction} (has : r.Has i o) (ho : ∀ k ∈ hidden, ¬o.Names r k) : Avoids r hidden i (i + 1) := by
  intro n hlo hhi op hop
  obtain rfl : n = i := by omega
  obtain rfl : op = o := Option.some.inj (hop.symm.trans has)
  exact ho

/-- An instruction without a variable. -/
theorem plain {o : Instruction} (has : r.Has i o) (ho : ∀ k, ¬o.Names r k) : Avoids r hidden i (i + 1) :=
  op has fun k _ => ho k

/-- A variable that is read, assigned or declared. -/
theorem named {o : Instruction} {slot : Slot} (has : r.Has i o) (ho : ∀ k, o.Names r k → slot = .frame k)
    (hslot : ∀ k, slot = .frame k → k ∉ hidden) : Avoids r hidden i (i + 1) :=
  op has fun k hk hnames => hslot k (ho k hnames) hk

/-- A slot of the frame that is read, set or counted. -/
theorem slot {o : Instruction} {s : Nat} (has : r.Has i o) (ho : ∀ k, o.Names r k → s = k) (hs : s ∉ hidden) :
    Avoids r hidden i (i + 1) :=
  op has fun k hk hnames => hs (ho k hnames ▸ hk)

end Avoids

-- ---------------------------------------------------------------------------
-- Pieces without subterms
-- ---------------------------------------------------------------------------

section Pieces

variable {r : Routine} {out : Outer} {Γ : Env} {hidden : List Nat} {i j : Nat}

/-- What a name of the text denotes is no hidden slot. -/
theorem Denotes.notHidden {name : String} {slot : Slot} (hΓ : Hides Γ hidden) (hname : IsName name)
    (h : Denotes r out Γ name slot) (k : Nat) (hk : slot = .frame k) : k ∉ hidden := by
  subst hk
  exact (hΓ.find hname h).2

/-- Slots that are not taken yet are not hidden. -/
theorem Hides.fresh (hΓ : Hides Γ hidden) {k : Nat} (hk : Γ.taken ≤ k) : k ∉ hidden := fun hmem => by
  have := hΓ.bound k hmem
  omega

theorem int_avoids {n : Int64} (h : PlacesInt r n i) : Avoids r hidden i (i + 1) := by
  unfold PlacesInt at h
  split at h
  · exact .plain h fun _ => id
  · obtain ⟨k, has, -⟩ := h
    exact .plain has fun _ => id

theorem defines_avoids {slots : List Nat} (hslots : ∀ k ∈ slots, k ∉ hidden) (h : PlacesDefines r slots i j) :
    Avoids r hidden i j := by
  induction slots generalizing i with
  | nil =>
    obtain rfl : j = i := h
    exact .nil
  | cons slot rest ih =>
    obtain ⟨has, hrest⟩ := h
    have hdefine : Avoids r hidden i (i + 1) := .slot has (fun _ => id) (hslots slot List.mem_cons_self)
    exact hdefine.seq (ih (fun k hk => hslots k (List.mem_cons_of_mem _ hk)) hrest)

theorem nulls_avoids {slots : List Nat} (hslots : ∀ k ∈ slots, k ∉ hidden) (h : PlacesNulls r slots i j) :
    Avoids r hidden i j := by
  induction slots generalizing i with
  | nil =>
    obtain rfl : j = i := h
    exact .nil
  | cons slot rest ih =>
    obtain ⟨hnull, hdefine, hrest⟩ := h
    have hnull : Avoids r hidden i (i + 1) := .plain hnull fun _ => id
    have hdefine : Avoids r hidden (i + 1) (i + 2) := .slot hdefine (fun _ => id) (hslots slot List.mem_cons_self)
    exact (hnull.seq hdefine).seq (ih (fun k hk => hslots k (List.mem_cons_of_mem _ hk)) hrest)

/-- A slot that is not hidden is pushed. -/
theorem readSlot_avoids {k : Nat} {use : Use} (has : r.Has i (.read (.frame k) use)) (hk : k ∉ hidden) :
    Avoids r hidden i (i + 1) :=
  .slot has (fun _ => Slot.frame.inj) hk

theorem placesStep_avoids {slot : Nat} {stepSlot : Option Nat} {descending : Bool} (hslot : slot ∉ hidden)
    (hstep : ∀ k ∈ stepSlot, k ∉ hidden) (h : PlacesStep r slot stepSlot descending i j) : Avoids r hidden i j := by
  cases stepSlot with
  | none =>
    obtain ⟨has, rfl⟩ := h
    exact .slot has (fun _ => id) hslot
  | some k =>
    obtain ⟨hread, hreadStep, hop, hwrite, rfl⟩ := h
    have hop : Avoids r hidden (i + 2) (i + 3) := .plain hop fun _ => id
    have hwrite : Avoids r hidden (i + 3) (i + 4) := .slot hwrite (fun _ => Slot.frame.inj) hslot
    exact (((readSlot_avoids hread hslot).seq (readSlot_avoids hreadStep (hstep k rfl))).seq hop).seq hwrite

theorem key_avoids {key : Option String} {iterator slot : Nat} (hiterator : iterator ∉ hidden)
    (hslot : slot ∉ hidden) (h : PlacesKey r iterator slot key i j) : Avoids r hidden i j := by
  cases key with
  | none =>
    obtain rfl : j = i := h
    exact .nil
  | some name =>
    obtain ⟨hread, hkey, hdefine, rfl⟩ := h
    have hkey : Avoids r hidden (i + 1) (i + 2) := .plain hkey fun _ => id
    have hdefine : Avoids r hidden (i + 2) (i + 3) := .slot hdefine (fun _ => id) hslot
    exact ((readSlot_avoids hread hiterator).seq hkey).seq hdefine

end Pieces

-- ---------------------------------------------------------------------------
-- Nodes
-- ---------------------------------------------------------------------------

variable {mark : Routine → Nat → Prop} {debug : Bool}

mutual

theorem places_avoids {r : Routine} {out : Outer} {Γ : Env} {use : Use} {e : Expr} {hidden : List Nat} {i j : Nat}
    (hΓ : Hides Γ hidden) (hp : e.Proper) (h : Places mark debug r out Γ use e i j) : Avoids r hidden i j := by
  match e with
  | .null _ | .nan _ | .bool .. =>
    obtain ⟨has, rfl⟩ := h
    exact .plain has fun _ => id
  | .int _ n =>
    obtain ⟨hint, rfl⟩ := h
    exact int_avoids hint
  | .float .. | .str .. =>
    obtain ⟨⟨k, has, -⟩, rfl⟩ := h
    exact .plain has fun _ => id
  | .ident _ name =>
    obtain ⟨⟨slot, has, hslot⟩, rfl⟩ := h
    exact .named has (fun _ => id) (hslot.notHidden hΓ hp)
  | .unary _ op operand =>
    obtain ⟨k, hoperand, has, rfl⟩ := h
    have hoperand := places_avoids (e := operand) hΓ hp hoperand
    cases op <;> exact hoperand.seq (.plain has fun _ => id)
  | .binary _ op left right =>
    obtain ⟨k, l, hleft, hright, has, rfl⟩ := h
    exact ((places_avoids hΓ hp.1 hleft).seq (places_avoids hΓ hp.2 hright)).seq (.plain has fun _ => id)
  | .logical _ op left right =>
    obtain ⟨k, hleft, has, hright⟩ := h
    have hjump : Avoids r hidden k (k + 1) := .plain has fun _ => id
    exact ((places_avoids hΓ hp.1 hleft).seq hjump).seq (places_avoids hΓ hp.2 hright)
  | .concat _ parts =>
    obtain ⟨k, hparts, has, rfl⟩ := h
    exact (placesAll_avoids hΓ (show ProperAll parts from hp) hparts).seq (.plain has fun _ => id)
  | .conditional _ cond whenTrue whenFalse =>
    obtain ⟨k, l, hcond, htest, htrue, hjump, hfalse⟩ := h
    have htest : Avoids r hidden k (k + 1) := .plain htest fun _ => id
    have hjump : Avoids r hidden l (l + 1) := .plain hjump fun _ => id
    have hfirst := ((places_avoids hΓ hp.1 hcond).seq htest).seq (places_avoids hΓ hp.2.1 htrue)
    exact (hfirst.seq hjump).seq (places_avoids hΓ hp.2.2 hfalse)
  | .field _ object name =>
    obtain ⟨k, n, hobject, has, -, rfl⟩ := h
    exact (places_avoids (e := object) hΓ hp hobject).seq (.plain has fun _ => id)
  | .index _ object indices =>
    obtain ⟨k, l, hobject, hindices, has, rfl⟩ := h
    exact ((places_avoids hΓ hp.1 hobject).seq (placesAll_avoids hΓ hp.2 hindices)).seq (.plain has fun _ => id)
  | .call _ callee args =>
    obtain ⟨k, l, hcallee, hpre, hargs, has, rfl⟩ := h
    have hpre : Avoids r hidden k (k + 1) := .plain hpre fun _ => id
    exact (((places_avoids hΓ hp.1 hcallee).seq hpre).seq (placesArguments_avoids hΓ hp.2 hargs)).seq
      (.plain has fun _ => id)
  | .ref _ target => exact placesReference_avoids (e := target) hΓ hp h
  | .list _ items | .set _ items =>
    obtain ⟨k, hitems, has, rfl⟩ := h
    exact (placesAll_avoids hΓ (show ProperAll items from hp) hitems).seq (.plain has fun _ => id)
  | .array _ rows cols items =>
    obtain ⟨k, hitems, has, rfl⟩ := h
    exact (placesAll_avoids hΓ hp.2 hitems).seq (.plain has fun _ => id)
  | .table _ entries =>
    obtain ⟨k, hentries, has, rfl⟩ := h
    exact (placesPairs_avoids hΓ (show ProperPairs entries from hp) hentries).seq (.plain has fun _ => id)
  | .function _ fn => exact placesClosure_avoids hΓ hp h

theorem placesReference_avoids {r : Routine} {out : Outer} {Γ : Env} {e : Expr} {hidden : List Nat} {i j : Nat}
    (hΓ : Hides Γ hidden) (hp : e.Proper) (h : PlacesReference mark debug r out Γ e i j) : Avoids r hidden i j := by
  match e with
  | .ident _ name =>
    obtain ⟨⟨slot, has, hslot⟩, rfl⟩ := h
    exact .named has (fun _ => id) (hslot.notHidden hΓ hp)
  | .field _ object name =>
    obtain ⟨k, n, hobject, has, -, rfl⟩ := h
    exact (places_avoids (e := object) hΓ hp hobject).seq (.plain has fun _ => id)
  | .index _ object indices =>
    obtain ⟨k, l, hobject, hindices, has, rfl⟩ := h
    exact ((places_avoids hΓ hp.1 hobject).seq (placesAll_avoids hΓ hp.2 hindices)).seq (.plain has fun _ => id)
  | .call _ callee args =>
    obtain ⟨k, l, hcallee, hpre, hargs, has, rfl⟩ := h
    have hpre : Avoids r hidden k (k + 1) := .plain hpre fun _ => id
    exact (((places_avoids hΓ hp.1 hcallee).seq hpre).seq (placesArguments_avoids hΓ hp.2 hargs)).seq
      (.plain has fun _ => id)
  | .null _ | .nan _ | .bool .. | .int .. | .float .. | .str .. | .unary .. | .binary .. | .logical ..
  | .concat .. | .conditional .. | .ref .. | .list .. | .array .. | .table .. | .set .. | .function .. =>
    exact h.elim

theorem placesAll_avoids {r : Routine} {out : Outer} {Γ : Env} {es : List Expr} {hidden : List Nat} {i j : Nat}
    (hΓ : Hides Γ hidden) (hp : ProperAll es) (h : PlacesAll mark debug r out Γ es i j) : Avoids r hidden i j := by
  match es with
  | [] =>
    obtain rfl : j = i := h
    exact .nil
  | e :: rest =>
    obtain ⟨k, he, hrest⟩ := h
    exact (places_avoids hΓ hp.1 he).seq (placesAll_avoids hΓ hp.2 hrest)

theorem placesArguments_avoids {r : Routine} {out : Outer} {Γ : Env} {es : List Expr} {position : Nat}
    {hidden : List Nat} {i j : Nat} (hΓ : Hides Γ hidden) (hp : ProperAll es)
    (h : PlacesArguments mark debug r out Γ position es i j) : Avoids r hidden i j := by
  match es with
  | [] =>
    obtain rfl : j = i := h
    exact .nil
  | e :: rest =>
    obtain ⟨k, he, hrest⟩ := h
    exact (places_avoids hΓ hp.1 he).seq (placesArguments_avoids hΓ hp.2 hrest)

theorem placesPairs_avoids {r : Routine} {out : Outer} {Γ : Env} {es : List (Expr × Expr)} {hidden : List Nat}
    {i j : Nat} (hΓ : Hides Γ hidden) (hp : ProperPairs es) (h : PlacesPairs mark debug r out Γ es i j) :
    Avoids r hidden i j := by
  match es with
  | [] =>
    obtain rfl : j = i := h
    exact .nil
  | (key, value) :: rest =>
    obtain ⟨k, l, hkey, hvalue, hrest⟩ := h
    exact ((places_avoids hΓ hp.1 hkey).seq (places_avoids hΓ hp.2.1 hvalue)).seq (placesPairs_avoids hΓ hp.2.2 hrest)

/-- A function captures only variables that have a name in the text. -/
theorem placesClosure_avoids {r : Routine} {out : Outer} {Γ : Env} {fn : Lambda} {name : String}
    {hidden : List Nat} {i j : Nat} (hΓ : Hides Γ hidden) (hp : fn.Proper)
    (h : PlacesClosure mark debug r out Γ name fn i j) : Avoids r hidden i j := by
  match fn with
  | ⟨_, params, ⟨_, stmts⟩⟩ =>
    obtain ⟨index, child, k, body, hentry, -, -, -, -, hcaptures, -, -, -, -, -, -, -, hclasses, has, rfl⟩ := h
    refine (placesClasses_avoids hΓ hp.1 hclasses).seq (.op has fun slot hslot hnames => ?_)
    obtain ⟨routine, hroutine, hmem⟩ := hnames
    obtain rfl : child = routine := Option.some.inj (hentry.symm.trans hroutine)
    obtain ⟨name, hname, hfind⟩ := hcaptures _ hmem
    exact (hΓ.find hname hfind).2 hslot

theorem placesClasses_avoids {r : Routine} {out : Outer} {Γ : Env} {params : List Param} {hidden : List Nat}
    {i j : Nat} (hΓ : Hides Γ hidden) (hp : ProperParams params) (h : PlacesClasses mark debug r out Γ params i j) :
    Avoids r hidden i j := by
  match params with
  | [] =>
    obtain rfl : j = i := h
    exact .nil
  | ⟨_, _, _, some e⟩ :: rest =>
    obtain ⟨k, he, hrest⟩ := h
    exact (places_avoids hΓ hp.1 he).seq (placesClasses_avoids hΓ hp.2 hrest)
  | ⟨_, _, _, none⟩ :: rest =>
    obtain ⟨has, hrest⟩ := h
    have hnull : Avoids r hidden i (i + 1) := .plain has fun _ => id
    exact hnull.seq (placesClasses_avoids hΓ (show ProperParams rest from hp) hrest)

theorem placesStore_avoids {r : Routine} {out : Outer} {Γ : Env} {e : Expr} {hidden : List Nat} {i j : Nat}
    (hΓ : Hides Γ hidden) (hp : e.Proper) (h : PlacesStore mark debug r out Γ e i j) : Avoids r hidden i j := by
  match e with
  | .ident _ name =>
    obtain ⟨⟨slot, has, hslot⟩, rfl⟩ := h
    exact .named has (fun _ => id) (hslot.notHidden hΓ hp)
  | .index _ object indices =>
    obtain ⟨k, l, hobject, hindices, has, rfl⟩ := h
    exact ((places_avoids hΓ hp.1 hobject).seq (placesAll_avoids hΓ hp.2 hindices)).seq (.plain has fun _ => id)
  | .field _ object name =>
    obtain ⟨k, n, hobject, has, -, rfl⟩ := h
    exact (places_avoids (e := object) hΓ hp hobject).seq (.plain has fun _ => id)
  | .null _ | .nan _ | .bool .. | .int .. | .float .. | .str .. | .unary .. | .binary .. | .logical ..
  | .concat .. | .conditional .. | .call .. | .ref .. | .list .. | .array .. | .table .. | .set ..
  | .function .. => exact h.elim

theorem placesStmt_avoids {r : Routine} {out : Outer} {Γ : Env} {s : Stmt} {loop : Loop} {hidden : List Nat}
    {i j : Nat} (hΓ : Hides Γ hidden) (hp : s.Proper) (h : PlacesStmt mark debug r out Γ loop s i j) :
    Avoids r hidden i j := by
  match s with
  | .expr _ value =>
    obtain ⟨k, hvalue, has, rfl⟩ := h
    exact (places_avoids (e := value) hΓ hp hvalue).seq (.plain has fun _ => id)
  | .assign _ none target value =>
    obtain ⟨k, hvalue, hstore⟩ := h
    exact (places_avoids hΓ hp.2 hvalue).seq (placesStore_avoids hΓ hp.1 hstore)
  | .assign _ (some op) target value =>
    obtain ⟨k, l, htarget, hvalue, has, hstore⟩ := h
    have hop : Avoids r hidden l (l + 1) := by cases op <;> exact .plain has fun _ => id
    exact (((places_avoids hΓ hp.1 htarget).seq (places_avoids hΓ hp.2 hvalue)).seq hop).seq
      (placesStore_avoids hΓ hp.1 hstore)
  | .declare _ names values =>
    have hslots (k : Nat) (hk : k ∈ List.range' Γ.taken names.length) : k ∉ hidden :=
      hΓ.fresh (List.mem_range'_1.mp hk).1
    simp only [PlacesStmt] at h
    split at h
    · exact nulls_avoids hslots h
    · obtain ⟨-, k, hvalues, hdefines⟩ := h
      exact (placesAll_avoids hΓ hp hvalues).seq
        (defines_avoids (fun k hk => hslots k (List.mem_reverse.mp hk)) hdefines)
  | .function _ isLocal name fn =>
    simp only [PlacesStmt] at h
    split at h
    · cases hfind : Γ.inScope? name with
      | some slot =>
        simp only [hfind] at h
        obtain ⟨k, hclosure, has, rfl⟩ := h
        exact (placesClosure_avoids hΓ hp.2 hclosure).seq
          (.slot has (fun _ => Slot.frame.inj) (hΓ.inScope hp.1 hfind).2)
      | none =>
        simp only [hfind] at h
        obtain ⟨hnull, hdefine, k, hclosure, has, rfl⟩ := h
        have hfree := hΓ.fresh (Nat.le_refl Γ.taken)
        have hnull : Avoids r hidden i (i + 1) := .plain hnull fun _ => id
        have hdefine : Avoids r hidden (i + 1) (i + 2) := .slot hdefine (fun _ => id) hfree
        have hclosure := placesClosure_avoids (hΓ.mono (.declare Γ name)) hp.2 hclosure
        exact ((hnull.seq hdefine).seq hclosure).seq (.slot has (fun _ => Slot.frame.inj) hfree)
    · obtain ⟨k, n, hclosure, has, -, rfl⟩ := h
      exact (placesClosure_avoids hΓ hp.2 hclosure).seq (.plain has fun _ => nofun)
  | .print _ newline args =>
    obtain ⟨k, hargs, has, rfl⟩ := h
    exact (placesAll_avoids hΓ (show ProperAll args from hp) hargs).seq (.plain has fun _ => id)
  | .branch _ arms otherwise =>
    obtain ⟨k, harms, hotherwise⟩ := h
    exact (placesArms_avoids hΓ hp.1 harms).seq
      (placesOption_avoids (hΓ.mono (envAfterArms_extends debug Γ arms)) hp.2 hotherwise)
  | .whileLoop _ cond body =>
    obtain ⟨k, l, hcond, htest, hbody, hback, rfl⟩ := h
    have htest : Avoids r hidden k (k + 1) := .plain htest fun _ => id
    exact (((places_avoids hΓ hp.1 hcond).seq htest).seq (placesBlock_avoids hΓ hp.2 hbody)).seq
      (.plain hback fun _ => id)
  | .repeatLoop _ ⟨_, stmts⟩ cond =>
    obtain ⟨k, l, hbody, hcond, htest, rfl⟩ := h
    have henter := hΓ.mono (.enter Γ)
    have hcond := places_avoids (henter.mono (envAfterAll_extends debug _ stmts)) hp.2 hcond
    exact ((placesAllStmts_avoids henter hp.1 hbody).seq hcond).seq (.plain htest fun _ => id)
  | .forLoop _ counter descending first last step body =>
    obtain ⟨k, l, m, n, o, hfirst, hdefine, hlast, hdefineEnd, hstep, hread, hreadEnd, hcompare, htest,
      hbody, hnext, hback, rfl⟩ := h
    have hΓ₁ := hΓ.mono (.enter Γ)
    have hΓ₂ := hΓ₁.mono (.declare _ counter)
    have hfree (k : Nat) (hk : Γ.taken ≤ k) : k ∉ hidden := hΓ.fresh hk
    have hdefine : Avoids r hidden k (k + 1) := .slot hdefine (fun _ => id) (hfree _ (Nat.le_refl _))
    have hdefineEnd : Avoids r hidden l (l + 1) := .slot hdefineEnd (fun _ => id) (hfree _ (by omega))
    have hstep := placesOptionExpr_avoids (hΓ₂.mono (.declare _ "$end")) hp.2.2.1 (hfree _ (by omega)) hstep
    have hcompare : Avoids r hidden (m + 2) (m + 3) := .plain hcompare fun _ => id
    have htest : Avoids r hidden (m + 3) (m + 4) := .plain htest fun _ => id
    have hbody := placesBlock_avoids (hΓ₁.mono (.declareAll _ (counterNames counter step))) hp.2.2.2 hbody
    have hnext := placesStep_avoids (hfree _ (Nat.le_refl _)) (fun k hk => by
      obtain ⟨-, -, rfl⟩ := Option.mem_map.mp hk
      exact hfree _ (by omega)) hnext
    have hvariables := ((((places_avoids hΓ₁ hp.1 hfirst).seq hdefine).seq (places_avoids hΓ₂ hp.2.1 hlast)).seq
      hdefineEnd).seq hstep
    have hheader := (((readSlot_avoids hread (hfree _ (Nat.le_refl _))).seq
      (readSlot_avoids hreadEnd (hfree _ (by omega)))).seq hcompare).seq htest
    exact (((hvariables.seq hheader).seq hbody).seq hnext).seq (.plain hback fun _ => id)
  | .foreachLoop _ key value byRef collection ⟨_, stmts⟩ =>
    obtain ⟨k, l, m, hcollection, hiterate, hdefine, hread, hhasNext, htest, hkey, hread', hnext, hdefine',
      hbody, hback, rfl⟩ := h
    have hΓ₁ := hΓ.mono (.enter Γ)
    have hΓ₂ := (hΓ₁.mono (.declare _ "$iter")).mono (.enter _)
    have hfree (k : Nat) (hk : Γ.taken ≤ k) : k ∉ hidden := hΓ.fresh hk
    have hiterator := hfree _ (Nat.le_refl _)
    have hiterate : Avoids r hidden k (k + 1) := .plain hiterate fun _ => id
    have hdefine : Avoids r hidden (k + 1) (k + 2) := .slot hdefine (fun _ => id) hiterator
    have hhasNext : Avoids r hidden (k + 3) (k + 4) := .plain hhasNext fun _ => id
    have htest : Avoids r hidden (k + 4) (k + 5) := .plain htest fun _ => id
    have hkey := key_avoids hiterator (hfree _ (Nat.le_succ _)) hkey
    have hnext : Avoids r hidden (l + 1) (l + 2) := .plain hnext fun _ => id
    have hdefine' : Avoids r hidden (l + 2) (l + 3) := .slot hdefine' (fun _ => id) (hfree _ (by omega))
    have hbody := placesAllStmts_avoids (hΓ₂.mono (.declareAll _ (key.toList ++ [value]))) hp.2 hbody
    have hiterator' := ((places_avoids hΓ₁ hp.1 hcollection).seq hiterate).seq hdefine
    have hheader := ((readSlot_avoids hread hiterator).seq hhasNext).seq htest
    have helement := ((hkey.seq (readSlot_avoids hread' hiterator)).seq hnext).seq hdefine'
    exact (((hiterator'.seq hheader).seq helement).seq hbody).seq (.plain hback fun _ => id)
  | .result _ (some e) =>
    obtain ⟨k, he, has, rfl⟩ := h
    exact (places_avoids (e := e) hΓ hp he).seq (.plain has fun _ => id)
  | .result _ none =>
    obtain ⟨hnull, has, rfl⟩ := h
    have hnull : Avoids r hidden i (i + 1) := .plain hnull fun _ => id
    exact hnull.seq (.plain has fun _ => id)
  | .leave _ | .next _ =>
    obtain ⟨⟨targets, -, has⟩, rfl⟩ := h
    exact .plain has fun _ => id
  | .pass _ =>
    obtain rfl : j = i := h
    exact .nil
  | .assert _ cond (some message) =>
    obtain ⟨k, l, hcond, hmessage, has, rfl⟩ := h
    exact ((places_avoids hΓ hp.1 hcond).seq (places_avoids (e := message) hΓ hp.2 hmessage)).seq
      (.plain has fun _ => id)
  | .assert _ cond none =>
    obtain ⟨k, hcond, has, rfl⟩ := h
    exact (places_avoids hΓ hp.1 hcond).seq (.plain has fun _ => id)
  | .throw _ value =>
    obtain ⟨k, hvalue, has, rfl⟩ := h
    exact (places_avoids (e := value) hΓ hp hvalue).seq (.plain has fun _ => id)
  | .debug _ body =>
    simp only [PlacesStmt] at h
    split at h
    · exact placesBlock_avoids hΓ hp h
    · exact h ▸ .nil
  | .block _ body => exact placesBlock_avoids hΓ (show body.Proper from hp) h

theorem placesBlock_avoids {r : Routine} {out : Outer} {Γ : Env} {body : Block} {loop : Loop} {hidden : List Nat}
    {i j : Nat} (hΓ : Hides Γ hidden) (hp : body.Proper) (h : PlacesBlock mark debug r out Γ loop body i j) :
    Avoids r hidden i j := by
  match body with
  | ⟨_, stmts⟩ => exact placesAllStmts_avoids (hΓ.mono (.enter Γ)) hp h

theorem placesArms_avoids {r : Routine} {out : Outer} {Γ : Env} {arms : List (Expr × Block)} {loop : Loop}
    {exit : Nat} {hidden : List Nat} {i j : Nat} (hΓ : Hides Γ hidden) (hp : ProperArms arms)
    (h : PlacesArms mark debug r out Γ loop exit arms i j) : Avoids r hidden i j := by
  match arms with
  | [] =>
    obtain rfl : j = i := h
    exact .nil
  | (cond, body) :: rest =>
    obtain ⟨k, l, hcond, htest, hbody, hjump, hrest⟩ := h
    have htest : Avoids r hidden k (k + 1) := .plain htest fun _ => id
    have hjump : Avoids r hidden l (l + 1) := .plain hjump fun _ => id
    have harm := ((places_avoids hΓ hp.1 hcond).seq htest).seq (placesBlock_avoids hΓ hp.2.1 hbody)
    exact (harm.seq hjump).seq
      (placesArms_avoids (hΓ.mono (envAfterBlock_extends debug Γ body)) hp.2.2 hrest)

theorem placesOption_avoids {r : Routine} {out : Outer} {Γ : Env} {body : Option Block} {loop : Loop}
    {hidden : List Nat} {i j : Nat} (hΓ : Hides Γ hidden) (hp : ProperOption body)
    (h : PlacesOption mark debug r out Γ loop body i j) : Avoids r hidden i j := by
  match body with
  | none =>
    obtain rfl : j = i := h
    exact .nil
  | some body => exact placesBlock_avoids hΓ (show body.Proper from hp) h

theorem placesOptionExpr_avoids {r : Routine} {out : Outer} {Γ : Env} {e : Option Expr} {slot : Nat}
    {hidden : List Nat} {i j : Nat} (hΓ : Hides Γ hidden) (hp : ProperOptionExpr e) (hslot : slot ∉ hidden)
    (h : PlacesOptionExpr mark debug r out Γ slot e i j) : Avoids r hidden i j := by
  match e with
  | none =>
    obtain rfl : j = i := h
    exact .nil
  | some e =>
    obtain ⟨k, he, has, rfl⟩ := h
    exact (places_avoids (e := e) hΓ hp he).seq (.slot has (fun _ => id) hslot)

theorem placesAllStmts_avoids {r : Routine} {out : Outer} {Γ : Env} {stmts : List Stmt} {loop : Loop}
    {hidden : List Nat} {i j : Nat} (hΓ : Hides Γ hidden) (hp : ProperStmts stmts)
    (h : PlacesAllStmts mark debug r out Γ loop stmts i j) : Avoids r hidden i j := by
  match stmts with
  | [] =>
    obtain rfl : j = i := h
    exact .nil
  | s :: rest =>
    obtain ⟨-, k, hs, hrest⟩ := h
    exact (placesStmt_avoids hΓ hp.1 hs).seq
      (placesAllStmts_avoids (hΓ.mono (envAfter_extends debug Γ s)) hp.2 hrest)

end

end Rill.Layout
