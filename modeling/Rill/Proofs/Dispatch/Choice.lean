-- SUMMARY: The overload that a call takes: the cheapest one that fits, whatever the order of declaration.
import Mathlib.Data.List.Induction
import Rill.Function
import Rill.Proofs.Dispatch.Inheritance

/-!
# The choice among overloads

`Fits` says without the scan which signatures take a list of arguments, and at which cost. A function
made by adding closures holds exactly these closures, sorted by arity, so that the scan meets every
closure that fits. It answers the cheapest one if there is only one; that no longer depends on the order
in which the closures were added.
-/

namespace Rill

-- ---------------------------------------------------------------------------
-- Signatures that fit
-- ---------------------------------------------------------------------------

/-- A signature takes arguments of the given classes, at a cost: every argument descends from the class of
its parameter and costs the steps up to it. Null, which has no class here, costs nothing. -/
inductive Fits (t : ClassTree) : List ClassId → List (Option ClassId) → Nat → Prop
  | nil : Fits t [] [] 0
  | null {p : ClassId} {ps : List ClassId} {as : List (Option ClassId)} {n : Nat}
      (rest : Fits t ps as n) : Fits t (p :: ps) (none :: as) n
  | value {p a : ClassId} {ps : List ClassId} {as : List (Option ClassId)} {d n : Nat}
      (up : t.Ascends d a p) (rest : Fits t ps as n) : Fits t (p :: ps) (some a :: as) (d + n)

theorem Fits.length_eq {t : ClassTree} {ps : List ClassId} {as : List (Option ClassId)} {n : Nat}
    (h : Fits t ps as n) : ps.length = as.length := by
  induction h with
  | nil => rfl
  | null _ ih => exact congrArg (· + 1) ih
  | value _ _ ih => exact congrArg (· + 1) ih

/-- Costs that are summed up from the left, starting anywhere. -/
theorem foldlM_cost_eq_some_iff {t : ClassTree} (ht : t.Lineal) {ps : List ClassId}
    {as : List (Option ClassId)} (hlength : ps.length = as.length) {start total : Nat} :
    (ps.zip as).foldlM (fun total (parameter, arg) =>
        match arg with
        | none => some total
        | some arg => (t.distance? arg parameter).map (total + ·)) start = some total ↔
      ∃ n, Fits t ps as n ∧ total = start + n := by
  induction ps generalizing as start with
  | nil =>
    obtain rfl := List.length_eq_zero_iff.mp hlength.symm
    constructor
    · intro h
      exact ⟨0, .nil, (Option.some.inj h).symm⟩
    · rintro ⟨n, hfits, rfl⟩
      cases hfits
      rfl
  | cons p ps ih =>
    cases as with
    | nil => simp at hlength
    | cons a as =>
      have hrest : ps.length = as.length := by simpa using hlength
      rw [List.zip_cons_cons, List.foldlM_cons]
      cases a with
      | none =>
        refine (ih hrest).trans (exists_congr fun n => and_congr_left fun _ => ?_)
        constructor
        · exact .null
        · intro hfits
          cases hfits with
          | null rest => exact rest
      | some a =>
        constructor
        · intro h
          obtain ⟨mid, hmid, h⟩ := Option.bind_eq_some_iff.mp h
          obtain ⟨d, hd, rfl⟩ := Option.map_eq_some_iff.mp hmid
          obtain ⟨n, hfits, rfl⟩ := (ih hrest).mp h
          exact ⟨d + n, .value (ht.distance?_eq_some_iff.mp hd) hfits, by omega⟩
        · rintro ⟨n, hfits, rfl⟩
          cases hfits with
          | @value _ _ _ _ d n up rest =>
            refine Option.bind_eq_some_iff.mpr ⟨start + d, ?_, (ih hrest).mpr ⟨n, rest, by omega⟩⟩
            exact Option.map_eq_some_iff.mpr ⟨d, ht.distance?_eq_some_iff.mpr up, rfl⟩

theorem Closure.cost_eq_some_iff {t : ClassTree} (ht : t.Lineal) {c : Closure}
    {args : List (Option ClassId)} (harity : c.arity = args.length) {n : Nat} :
    c.cost t args = some n ↔ Fits t c.signature args n := by
  refine (foldlM_cost_eq_some_iff ht harity).trans ?_
  simp

-- ---------------------------------------------------------------------------
-- Functions and the closures added to them
-- ---------------------------------------------------------------------------

/-- Two closures pass the same ones of their common positions by reference. -/
def Closure.Agrees (c d : Closure) : Prop :=
  ∀ p < min c.arity d.arity, c.refFlags.isRef p = d.refFlags.isRef p

instance (c d : Closure) : Decidable (c.Agrees d) :=
  inferInstanceAs (Decidable (∀ p < min c.arity d.arity, c.refFlags.isRef p = d.refFlags.isRef p))

theorem Closure.Agrees.symm {c d : Closure} (h : c.Agrees d) : d.Agrees c := by
  intro p hp
  rw [Nat.min_comm] at hp
  exact (h p hp).symm

namespace Function

/-- A function holds the given closures, sorted by arity, and has the reference flags of one of them. -/
structure Holds (f : Function) (closures : List Closure) : Prop where
  perm : f.closures.Perm closures
  sorted : f.closures.Pairwise (·.arity ≤ ·.arity)
  flags : closures = [] ∨ ∃ c ∈ closures, f.refFlags = c.refFlags ∧ f.maxArity = c.arity

theorem Holds.new (name : String) : Holds { name := name } [] := ⟨.nil, .nil, .inl rfl⟩

/-- A closure that agrees with those of a function has no conflict with it. -/
theorem Holds.conflict?_eq_none {f : Function} {closures : List Closure} {c : Closure}
    (h : f.Holds closures) (hflags : ∀ d ∈ closures, c.Agrees d) : f.conflict? c = none := by
  unfold conflict?
  split
  · rfl
  · next hsome =>
    rcases h.flags with rfl | ⟨d, hd, hrefs, harity⟩
    · rw [h.perm.eq_nil] at hsome
      exact absurd rfl hsome
    · rw [List.find?_eq_none]
      intro p hp
      rw [List.mem_range, harity] at hp
      simp [hflags d hd p hp, hrefs]

/-- The place of a new closure is behind those with as many parameters or fewer. -/
theorem sorted_insert {closures : List Closure} (h : closures.Pairwise (·.arity ≤ ·.arity)) (c : Closure) :
    (closures.takeWhile (fun d => decide (d.arity ≤ c.arity)) ++
      c :: closures.dropWhile fun d => decide (d.arity ≤ c.arity)).Pairwise (·.arity ≤ ·.arity) := by
  induction closures with
  | nil => simp
  | cons d rest ih =>
    obtain ⟨hd, hrest⟩ := List.pairwise_cons.mp h
    by_cases hle : d.arity ≤ c.arity
    · rw [List.takeWhile_cons_of_pos (by simpa), List.dropWhile_cons_of_pos (by simpa), List.cons_append]
      refine List.pairwise_cons.mpr ⟨fun e he => ?_, ih hrest⟩
      rw [List.mem_append, List.mem_cons] at he
      rcases he with he | rfl | he
      · exact hd e (List.takeWhile_subset _ he)
      · exact hle
      · exact hd e (List.dropWhile_subset _ he)
    · rw [List.takeWhile_cons_of_neg (by simpa using hle), List.dropWhile_cons_of_neg (by simpa using hle),
        List.nil_append]
      refine List.pairwise_cons.mpr ⟨fun e he => ?_, h⟩
      rcases List.mem_cons.mp he with rfl | he
      · omega
      · have := hd e he
        omega

/-- A closure with a new signature that agrees with those of a function can be added to it. -/
theorem Holds.add {f : Function} {closures : List Closure} {c : Closure} (h : f.Holds closures)
    (hsignature : ∀ d ∈ closures, c.signature ≠ d.signature) (hflags : ∀ d ∈ closures, c.Agrees d) :
    ∃ f', f.add c = .ok f' ∧ f'.Holds (c :: closures) := by
  have hnew : f.closures.findIdx? (fun d => decide (d.signature = c.signature)) = none := by
    rw [List.findIdx?_eq_none_iff]
    intro d hd
    simpa using (hsignature d (h.perm.subset hd)).symm
  refine ⟨_, by simp only [Function.add, h.conflict?_eq_none hflags, hnew]; rfl, ?_, ?_, ?_⟩
  · -- The closures are the old ones around the new one.
    have hsplit := List.takeWhile_append_dropWhile (p := fun d => decide (Closure.arity d ≤ c.arity))
      (l := f.closures)
    split <;> exact List.perm_middle.trans ((List.Perm.of_eq hsplit).trans h.perm |>.cons c)
  · split <;> exact sorted_insert h.sorted c
  · refine .inr ?_
    split
    · exact ⟨c, List.mem_cons_self, rfl, rfl⟩
    · next hold =>
      rcases h.flags with rfl | ⟨d, hd, hd'⟩
      · rw [h.perm.eq_nil] at hold
        exact absurd (.inl rfl) hold
      · exact ⟨d, List.mem_cons_of_mem _ hd, hd'⟩

/-- Closures with different signatures that agree with each other can be added in any order. -/
theorem Holds.addAll {f : Function} {held closures : List Closure} (h : f.Holds held)
    (hsignatures : (closures ++ held).Pairwise (·.signature ≠ ·.signature))
    (hflags : (closures ++ held).Pairwise Closure.Agrees) :
    ∃ f', f.addAll closures = .ok f' ∧ f'.Holds (closures.reverse ++ held) := by
  induction closures generalizing f held with
  | nil => exact ⟨f, rfl, h⟩
  | cons c rest ih =>
    rw [List.cons_append, List.pairwise_cons] at hsignatures hflags
    obtain ⟨f₁, hadd, h₁⟩ := h.add
      (fun d hd => hsignatures.1 d (List.mem_append_right _ hd))
      (fun d hd => hflags.1 d (List.mem_append_right _ hd))
    have hmove : (c :: (rest ++ held)).Perm (rest ++ c :: held) := List.perm_middle.symm
    obtain ⟨f', hall, h'⟩ := ih h₁
      ((hmove.pairwise_iff Ne.symm).mp (List.pairwise_cons.mpr hsignatures))
      ((hmove.pairwise_iff Closure.Agrees.symm).mp (List.pairwise_cons.mpr hflags))
    refine ⟨f', ?_, by simpa using h'⟩
    rw [Function.addAll, List.foldlM_cons, hadd]
    exact hall

/-- The closures of a sorted function that fit are those that the search meets. -/
theorem Holds.mem_applicable {t : ClassTree} (ht : t.Lineal) {f : Function} {closures : List Closure}
    (h : f.Holds closures) {args : List (Option ClassId)} {n : Nat} {c : Closure} :
    (n, c) ∈ f.applicable t args ↔ c ∈ closures ∧ Fits t c.signature args n := by
  have hfound : c.arity = args.length →
      (c ∈ f.closures.takeWhile (fun d => decide (d.arity ≤ args.length)) ↔ c ∈ f.closures) := by
    intro harity
    refine ⟨fun hc => List.takeWhile_subset _ hc, fun hc => ?_⟩
    have hsorted := h.sorted
    revert hc hsorted
    generalize f.closures = cs
    intro hc hsorted
    induction cs with
    | nil => cases hc
    | cons d rest ih =>
      obtain ⟨hd, hrest⟩ := List.pairwise_cons.mp hsorted
      have hle : d.arity ≤ args.length := by
        rcases List.mem_cons.mp hc with rfl | hc
        · exact Nat.le_of_eq harity
        · exact harity ▸ hd c hc
      rw [List.takeWhile_cons_of_pos (by simpa)]
      rcases List.mem_cons.mp hc with rfl | hc
      · exact List.mem_cons_self
      · exact List.mem_cons_of_mem _ (ih hc hrest)
  unfold applicable
  rw [List.mem_filterMap]
  constructor
  · rintro ⟨d, hd, hcost⟩
    split at hcost
    · next harity =>
      obtain ⟨k, hk, heq⟩ := Option.map_eq_some_iff.mp hcost
      obtain ⟨rfl, rfl⟩ := Prod.mk.inj heq
      exact ⟨h.perm.subset ((hfound harity).mp hd), (Closure.cost_eq_some_iff ht harity).mp hk⟩
    · cases hcost
  · rintro ⟨hc, hfits⟩
    have harity : c.arity = args.length := hfits.length_eq
    refine ⟨c, (hfound harity).mpr (h.perm.symm.subset hc), ?_⟩
    rw [if_pos harity, (Closure.cost_eq_some_iff ht harity).mpr hfits]
    rfl

theorem Holds.applicable_pairwise {f : Function} {closures : List Closure} (h : f.Holds closures)
    (hsignatures : closures.Pairwise (·.signature ≠ ·.signature)) (t : ClassTree)
    (args : List (Option ClassId)) : (f.applicable t args).Pairwise (·.2 ≠ ·.2) := by
  have hheld := (h.perm.pairwise_iff Ne.symm).mpr hsignatures
  refine List.Pairwise.filterMap _ ?_ (hheld.sublist (List.takeWhile_sublist _))
  rintro c d hne ⟨m, c'⟩ hc ⟨n, d'⟩ hd rfl
  have hsame {x y : Closure} {k : Nat} (hx : (if x.arity = args.length then
      (x.cost t args).map fun cost => (cost, x) else none) = some (k, y)) : x = y := by
    split at hx
    · obtain ⟨_, _, heq⟩ := Option.map_eq_some_iff.mp hx
      exact (Prod.mk.inj heq).2
    · cases hx
  exact hne (congrArg Closure.signature ((hsame hc).trans (hsame hd).symm))

-- ---------------------------------------------------------------------------
-- The scan
-- ---------------------------------------------------------------------------

/-- What the scan has found after some candidates: none if there are none; otherwise one of the cheapest,
which is tied if another one costs as much. -/
def IsBest (seen : List (Nat × Closure)) : Option Candidate → Prop
  | none => seen = []
  | some b => (b.cost, b.closure) ∈ seen ∧ (∀ x ∈ seen, b.cost ≤ x.1) ∧
      (b.tied = true ↔ ∃ x ∈ seen, x.1 = b.cost ∧ x.2 ≠ b.closure)

/-- One step of the scan. -/
theorem IsBest.consider {seen : List (Nat × Closure)} {best : Option Candidate} {cost : Nat} {c : Closure}
    (h : IsBest seen best) (hnew : ∀ x ∈ seen, x.2 ≠ c) :
    IsBest (seen ++ [(cost, c)]) (consider best cost c) := by
  cases best with
  | none =>
    obtain rfl : seen = [] := h
    exact ⟨by simp, by simp, by simp⟩
  | some b =>
    obtain ⟨hmem, hmin, htied⟩ := h
    rcases Nat.lt_trichotomy cost b.cost with hlt | heq | hgt
    · -- A cheaper candidate: whatever was found before costs more.
      simp only [Function.consider, if_neg (Nat.not_lt.mpr (Nat.le_of_lt hlt)), if_neg (Nat.ne_of_lt hlt)]
      refine ⟨by simp, fun x hx => ?_, ?_⟩
      · rcases List.mem_append.mp hx with hx | hx
        · exact Nat.le_trans (Nat.le_of_lt hlt) (hmin x hx)
        · exact Nat.le_of_eq (congrArg Prod.fst (List.mem_singleton.mp hx)).symm
      · simp only [Bool.false_eq_true, false_iff]
        rintro ⟨x, hx, hcost, hne⟩
        rcases List.mem_append.mp hx with hx | hx
        · have := hmin x hx
          omega
        · rw [List.mem_singleton.mp hx] at hne
          exact hne rfl
    · simp only [Function.consider, if_neg (Nat.not_lt.mpr (Nat.le_of_eq heq)), if_pos heq]
      refine ⟨List.mem_append_left _ hmem, fun x hx => ?_, ?_⟩
      · rcases List.mem_append.mp hx with hx | hx
        · exact hmin x hx
        · rw [List.mem_singleton.mp hx]
          exact Nat.le_of_eq heq.symm
      · simp only [true_iff]
        exact ⟨(cost, c), by simp, heq, (hnew _ hmem).symm⟩
    · simp only [Function.consider, if_pos hgt]
      refine ⟨List.mem_append_left _ hmem, fun x hx => ?_, htied.trans ?_⟩
      · rcases List.mem_append.mp hx with hx | hx
        · exact hmin x hx
        · rw [List.mem_singleton.mp hx]
          exact Nat.le_of_lt hgt
      · constructor
        · rintro ⟨x, hx, hx'⟩
          exact ⟨x, List.mem_append_left _ hx, hx'⟩
        · rintro ⟨x, hx, hcost, hne⟩
          rcases List.mem_append.mp hx with hx | hx
          · exact ⟨x, hx, hcost, hne⟩
          · rw [List.mem_singleton.mp hx] at hcost
            exact absurd hcost (Nat.ne_of_gt hgt)

/-- The cheapest of some candidates. -/
def scan (xs : List (Nat × Closure)) : Option Candidate :=
  xs.foldl (fun best (cost, c) => Function.consider best cost c) none

/-- The whole scan. -/
theorem isBest_scan {xs : List (Nat × Closure)} (h : xs.Pairwise (·.2 ≠ ·.2)) : IsBest xs (scan xs) := by
  induction xs using List.reverseRecOn with
  | nil => rfl
  | append_singleton xs x ih =>
    obtain ⟨hxs, -, hx⟩ := List.pairwise_append.mp h
    rw [scan, List.foldl_append]
    exact (ih hxs).consider fun y hy => hx y hy x (List.mem_singleton.mpr rfl)

-- ---------------------------------------------------------------------------
-- The choice
-- ---------------------------------------------------------------------------

/-- What a call of a function comes to: a closure, or the category of the failure. -/
def outcome (f : Function) (t : ClassTree) (args : List (Option ClassId)) (shown : List String) :
    Except Category Closure :=
  match f.choose t args shown with
  | .ok c => .ok c
  | .error e => .error e.fault.category

theorem outcome_eq_scan (f : Function) (t : ClassTree) (args : List (Option ClassId))
    (shown : List String) : f.outcome t args shown =
      match scan (f.applicable t args) with
      | none => .error .type
      | some best => if best.tied then .error .runtime else .ok best.closure := by
  unfold outcome choose
  change (match (match scan (f.applicable t args) with | none => _ | some best => _ : Except Failure Closure)
    with | .ok c => _ | .error e => _) = _
  cases scan (f.applicable t args) with
  | none => rfl
  | some best => cases htied : best.tied <;> simp [htied, Fault.failure, Fault.category]

/-- A closure fits the arguments at a smaller cost than every other one. -/
def IsCheapest (t : ClassTree) (closures : List Closure) (args : List (Option ClassId)) (c : Closure) :
    Prop :=
  c ∈ closures ∧ ∃ n, Fits t c.signature args n ∧
    ∀ d ∈ closures, d ≠ c → ∀ k, Fits t d.signature args k → n < k

/-- Two closures fit the arguments at the same cost, and none at a smaller one. -/
def IsAmbiguous (t : ClassTree) (closures : List Closure) (args : List (Option ClassId)) : Prop :=
  ∃ c ∈ closures, ∃ d ∈ closures, c ≠ d ∧ ∃ n, Fits t c.signature args n ∧ Fits t d.signature args n ∧
    ∀ e ∈ closures, ∀ k, Fits t e.signature args k → n ≤ k

/-- No closure fits the arguments. -/
def NoneFits (t : ClassTree) (closures : List Closure) (args : List (Option ClassId)) : Prop :=
  ∀ c ∈ closures, ∀ n, ¬Fits t c.signature args n

section Choice

variable {t : ClassTree} {closures : List Closure} {args : List (Option ClassId)} {c d : Closure}

/-- A closure that is cheaper than all others is the only such one, and there is no ambiguity. -/
theorem IsCheapest.eq (h : IsCheapest t closures args c) (h' : IsCheapest t closures args d) : c = d := by
  obtain ⟨hc, m, hm, hcheaper⟩ := h
  obtain ⟨hd, n, hn, hcheaper'⟩ := h'
  by_contra hne
  have hmn := hcheaper d hd (Ne.symm hne) n hn
  have hnm := hcheaper' c hc hne m hm
  omega

theorem IsCheapest.not_isAmbiguous (h : IsCheapest t closures args c) : ¬IsAmbiguous t closures args := by
  rintro ⟨a, ha, b, hb, hab, m, hfa, hfb, hmin⟩
  obtain ⟨hc, n, hn, hcheaper⟩ := h
  have hle := hmin c hc n hn
  -- One of the two is another closure than the cheapest one.
  by_cases hac : a = c
  · have := hcheaper b hb (fun hbc => hab (hac.trans hbc.symm)) m hfb
    omega
  · have := hcheaper a ha hac m hfa
    omega

/-- A call comes to the cheapest closure, to an ambiguity, or to nothing that fits. -/
theorem Holds.outcome_cases (ht : t.Lineal) {f : Function} (h : f.Holds closures)
    (hsignatures : closures.Pairwise (·.signature ≠ ·.signature)) (args : List (Option ClassId))
    (shown : List String) :
    (∃ c, f.outcome t args shown = .ok c ∧ IsCheapest t closures args c) ∨
      (f.outcome t args shown = .error .runtime ∧ IsAmbiguous t closures args) ∨
      (f.outcome t args shown = .error .type ∧ NoneFits t closures args) := by
  have hbest := isBest_scan (h.applicable_pairwise hsignatures t args)
  rw [outcome_eq_scan]
  cases hscan : scan (f.applicable t args) with
  | none =>
    rw [hscan] at hbest
    refine .inr (.inr ⟨rfl, fun c hc n hfits => ?_⟩)
    have hmem := (h.mem_applicable ht).mpr ⟨hc, hfits⟩
    rw [show f.applicable t args = [] from hbest] at hmem
    cases hmem
  | some b =>
    rw [hscan] at hbest
    obtain ⟨hmem, hmin, htied⟩ := hbest
    obtain ⟨hb, hfits⟩ := (h.mem_applicable ht).mp hmem
    cases hflag : b.tied with
    | true =>
      refine .inr (.inl ⟨by simp [hflag], ?_⟩)
      obtain ⟨⟨n, d⟩, hx, hcost, hne⟩ := htied.mp hflag
      obtain ⟨hd, hfits'⟩ := (h.mem_applicable ht).mp hx
      obtain rfl : n = b.cost := hcost
      refine ⟨b.closure, hb, d, hd, Ne.symm hne, b.cost, hfits, hfits', fun e he k hk => ?_⟩
      exact hmin (k, e) ((h.mem_applicable ht).mpr ⟨he, hk⟩)
    | false =>
      refine .inl ⟨b.closure, by simp [hflag], hb, b.cost, hfits, fun d hd hne k hk => ?_⟩
      have hx := (h.mem_applicable ht).mpr ⟨hd, hk⟩
      refine Nat.lt_of_le_of_ne (hmin (k, d) hx) fun heq => ?_
      rw [htied.mpr ⟨(k, d), hx, heq.symm, hne⟩] at hflag
      cases hflag

end Choice

/-- What a call comes to is said by the closures alone. -/
structure Chooses (f : Function) (t : ClassTree) (closures : List Closure) (args : List (Option ClassId))
    (shown : List String) : Prop where
  ok : ∀ c, f.outcome t args shown = .ok c ↔ IsCheapest t closures args c
  ambiguous : f.outcome t args shown = .error .runtime ↔ IsAmbiguous t closures args
  unfit : f.outcome t args shown = .error .type ↔ NoneFits t closures args

theorem Holds.chooses {t : ClassTree} (ht : t.Lineal) {f : Function} {closures : List Closure}
    (h : f.Holds closures) (hsignatures : closures.Pairwise (·.signature ≠ ·.signature))
    (args : List (Option ClassId)) (shown : List String) : f.Chooses t closures args shown := by
  rcases h.outcome_cases ht hsignatures args shown with ⟨c, hout, hc⟩ | ⟨hout, hambiguous⟩ | ⟨hout, hnone⟩
  · have hfits : ¬NoneFits t closures args := fun hnone =>
      hnone c hc.1 hc.2.choose hc.2.choose_spec.1
    refine ⟨fun d => ?_, ?_, ?_⟩
    · rw [hout, Except.ok.injEq]
      exact ⟨fun heq => heq ▸ hc, fun hd => hc.eq hd⟩
    · simp [hout, hc.not_isAmbiguous]
    · simp [hout, hfits]
  · have hfits : ¬NoneFits t closures args := by
      obtain ⟨c, hc, _, _, _, n, hfits, _⟩ := hambiguous
      exact fun hnone => hnone c hc n hfits
    refine ⟨fun d => ?_, ?_, ?_⟩
    · simp only [hout, reduceCtorEq, false_iff]
      exact fun hd => hd.not_isAmbiguous hambiguous
    · simp [hout, hambiguous]
    · simp [hout, hfits]
  · refine ⟨fun d => ?_, ?_, ?_⟩
    · simp only [hout, reduceCtorEq, false_iff]
      exact fun hd => hnone d hd.1 hd.2.choose hd.2.choose_spec.1
    · simp only [hout, Except.error.injEq, reduceCtorEq, false_iff]
      rintro ⟨c, hc, _, _, _, n, hfits, _⟩
      exact hnone c hc n hfits
    · simp [hout, hnone]

/-- Functions whose calls are said by the same closures come to the same. -/
theorem Chooses.outcome_eq {f g : Function} {t : ClassTree} {closures : List Closure}
    {args : List (Option ClassId)} {shown : List String}
    (hf : f.Chooses t closures args shown) (hg : g.Chooses t closures args shown)
    (hcases : (∃ c, IsCheapest t closures args c) ∨ IsAmbiguous t closures args ∨
      NoneFits t closures args) : f.outcome t args shown = g.outcome t args shown := by
  rcases hcases with ⟨c, hc⟩ | hambiguous | hnone
  · rw [(hf.ok c).mpr hc, (hg.ok c).mpr hc]
  · rw [hf.ambiguous.mpr hambiguous, hg.ambiguous.mpr hambiguous]
  · rw [hf.unfit.mpr hnone, hg.unfit.mpr hnone]

/-- Closures with different signatures and consistent reference flags can be added in any order. A call
of the function then takes the closure that is cheaper than all others that fit; it is ambiguous exactly
when several share the smallest cost, and fails for lack of a closure exactly when none fits. Two orders
of the same closures come to the same for all arguments. -/
theorem choose_cheapest {t : ClassTree} (ht : t.Grown) (name : String) {closures : List Closure}
    (hsignatures : closures.Pairwise (·.signature ≠ ·.signature))
    (hflags : closures.Pairwise Closure.Agrees) :
    (∀ order : List Closure, order.Perm closures →
      ∃ f, Function.addAll { name := name } order = .ok f ∧
        ∀ args shown, f.Chooses t closures args shown) ∧
    ∀ order order' : List Closure, order.Perm closures → order'.Perm closures → ∀ f g,
      Function.addAll { name := name } order = .ok f → Function.addAll { name := name } order' = .ok g →
        ∀ args shown, f.outcome t args shown = g.outcome t args shown := by
  have hadd (order : List Closure) (hperm : order.Perm closures) :
      ∃ f, Function.addAll { name := name } order = .ok f ∧ f.Holds closures := by
    have hdistinct : (order ++ []).Pairwise fun c d : Closure => c.signature ≠ d.signature := by
      simpa using (hperm.pairwise_iff Ne.symm).mpr hsignatures
    have hagree : (order ++ []).Pairwise Closure.Agrees := by
      simpa using (hperm.pairwise_iff Closure.Agrees.symm).mpr hflags
    obtain ⟨f, hf, hholds⟩ := (Holds.new name).addAll hdistinct hagree
    have hheld : (order.reverse ++ []).Perm closures := by
      rw [List.append_nil]
      exact (List.reverse_perm order).trans hperm
    refine ⟨f, hf, hholds.perm.trans hheld, hholds.sorted, ?_⟩
    rcases hholds.flags with hnil | ⟨c, hc, hc'⟩
    · rw [hnil] at hheld
      exact .inl hheld.symm.eq_nil
    · exact .inr ⟨c, hheld.subset hc, hc'⟩
  refine ⟨fun order hperm => ?_, fun order order' hperm hperm' f g hf hg args shown => ?_⟩
  · obtain ⟨f, hf, hholds⟩ := hadd order hperm
    exact ⟨f, hf, fun args shown => hholds.chooses ht.lineal hsignatures args shown⟩
  · obtain ⟨f', hf', hholds⟩ := hadd order hperm
    obtain ⟨g', hg', hholds'⟩ := hadd order' hperm'
    obtain rfl : f' = f := Except.ok.inj (hf'.symm.trans hf)
    obtain rfl : g' = g := Except.ok.inj (hg'.symm.trans hg)
    refine (hholds.chooses ht.lineal hsignatures args shown).outcome_eq
      (hholds'.chooses ht.lineal hsignatures args shown) ?_
    rcases hholds.outcome_cases ht.lineal hsignatures args shown with ⟨c, -, hc⟩ | ⟨-, h⟩ | ⟨-, h⟩
    · exact .inl ⟨c, hc⟩
    · exact .inr (.inl h)
    · exact .inr (.inr h)

/-- Two overloads that pull in different directions, over a tree of three classes: numbers and integers
below the root. -/
theorem choose_cheapest_numbers :
    ∃ t : ClassTree, t.Grown ∧ t.size = 3 ∧
      ∃ c d : Closure, c.signature = [⟨2⟩, ⟨1⟩] ∧ d.signature = [⟨1⟩, ⟨2⟩] ∧
        ∃ f, Function.addAll { name := "f" } [d, c] = .ok f ∧
          ∀ args shown, f.Chooses t [c, d] args shown := by
  have hroot := ClassTree.Grown.empty.create "Object" none false ⟨0⟩ (by simp)
  have hnumber := hroot.create "Number" (some ⟨0⟩) false ⟨1⟩ (by simp [ClassTree.create])
  have hinteger := hnumber.create "Integer" (some ⟨1⟩) false ⟨2⟩ (by simp [ClassTree.create])
  let c : Closure := { callable := .native (.core .collect) 1, signature := [⟨2⟩, ⟨1⟩] }
  let d : Closure := { callable := .native (.core .quit) 1, signature := [⟨1⟩, ⟨2⟩] }
  have hdistinct : [c, d].Pairwise fun c d : Closure => c.signature ≠ d.signature := by simp [c, d]
  have hchosen := (choose_cheapest hinteger "f" hdistinct (by decide)).1 [d, c] (List.Perm.swap c d [])
  exact ⟨_, hinteger, rfl, c, d, rfl, rfl, hchosen⟩

end Function

end Rill
