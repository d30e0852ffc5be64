-- SUMMARY: Making a document ends on every heap, and fails for a cycle exactly if the walk comes to one first.
import Rill.Proofs.Json.Tables
import Mathlib.Data.List.Lex

/-!
# Cycles

A document is made by a walk through a value, from left to right, with the objects around the place it has come to
on a stack. `Heap.walk` is this walk. Its depth is bounded only by the objects on the stack, which are different: the
measure is the number of objects that are not on it.

A place in a value is the list of positions that lead to it, from the outside in, so that the walk comes to places in
their lexicographic order. At some of them it has to stop, and its failure is that of the first one. What is reached
at two places without being inside itself has the same document at both.
-/

namespace Rill

open Json

-- ---------------------------------------------------------------------------
-- Lists of results
-- ---------------------------------------------------------------------------

section Results

variable {ε α β : Type} {f g : α → Except ε β} {as : List α} {e : ε}

theorem mapM_congr (hfg : ∀ a ∈ as, f a = g a) : as.mapM f = as.mapM g := by
  induction as with
  | nil => rfl
  | cons a as ih =>
    obtain ⟨ha, has⟩ := List.forall_mem_cons.mp hfg
    rw [List.mapM_cons, List.mapM_cons, ha, ih has]

/-- A list is gone through up to the first item that has no result. -/
theorem mapM_error_iff : as.mapM f = .error e ↔
    ∃ (k : Nat) (a : α), as[k]? = some a ∧ f a = .error e ∧ ∀ j < k, ∀ b, as[j]? = some b → ∃ d, f b = .ok d := by
  induction as with
  | nil => exact ⟨nofun, fun ⟨_, _, ha, _⟩ => nomatch ha⟩
  | cons a as ih =>
    rw [List.mapM_cons]
    cases hfa : f a with
    | error e' =>
      constructor
      · intro h
        cases h
        exact ⟨0, a, rfl, hfa, nofun⟩
      · rintro ⟨k, b, hb, hfb, hbefore⟩
        cases k with
        | zero =>
          cases hb
          rw [hfa] at hfb
          cases hfb
          rfl
        | succ k =>
          obtain ⟨d, hd⟩ := hbefore 0 k.succ_pos a rfl
          cases hfa.symm.trans hd
    | ok d =>
      have hrest : (do let d' ← .ok d; let ds ← as.mapM f; pure (d' :: ds) : Except ε (List β)) = .error e ↔
          as.mapM f = .error e := by
        cases as.mapM f with
        | error e' => exact ⟨fun h => h, fun h => h⟩
        | ok ds => exact ⟨nofun, nofun⟩
      rw [hrest, ih]
      constructor
      · rintro ⟨k, b, hb, hfb, hbefore⟩
        refine ⟨k + 1, b, hb, hfb, fun j hj c hc => ?_⟩
        cases j with
        | zero =>
          cases hc
          exact ⟨d, hfa⟩
        | succ j => exact hbefore j (Nat.lt_of_succ_lt_succ hj) c hc
      · rintro ⟨k, b, hb, hfb, hbefore⟩
        cases k with
        | zero =>
          cases hb
          cases hfa.symm.trans hfb
        | succ k => exact ⟨k, b, hb, hfb, fun j hj c hc => hbefore (j + 1) (Nat.succ_lt_succ hj) c hc⟩

end Results

namespace Heap

-- ---------------------------------------------------------------------------
-- The walk
-- ---------------------------------------------------------------------------

/-- What `walk` makes of values from left to right, up to the first that has no document. -/
def walkAll (walk : Value → StateT (List ObjectId) Option (Except Failure Document)) :
    List Value → StateT (List ObjectId) Option (Except Failure (List Document))
  | [] => return .ok []
  | v :: vs => do
    match ← walk v with
    | .error e => return .error e
    | .ok d => return (← walkAll walk vs).map (d :: ·)

/-- The document of a value, or the failure to make it, by a walk with the objects around the value on a stack. An
object is on the stack while the walk is in it, and is taken off whatever comes of that. A walk that goes deeper than
`depth` has no result. -/
def walk (h : Heap) : Nat → Value → StateT (List ObjectId) Option (Except Failure Document)
  | 0, _ => failure
  | depth + 1, v => do
    match h.resolve v with
    | .null | .cell _ => return .ok .null
    | .bool b => return .ok (.bool b)
    | .int n => return .ok (.int n)
    | .float x => return floatDocument x
    | .text s => return .ok (.text s)
    | .object i =>
      if (← get).contains i then return .error Fault.cyclicJson
      match h.object? i with
      | none => return .error (Fault.notJson (h.typeName v))
      | some o =>
        modify (i :: ·)
        let ds ← walkAll (h.walk depth) o.content.held
        modify List.tail
        return ds >>= h.assembled o.cls o.content

/-- The objects around a place are different ones of the heap, and there is fuel for all others. -/
structure Fueled (h : Heap) (n : Nat) (around : List ObjectId) : Prop where
  nodup : around.Nodup
  valid : ∀ i ∈ around, ∃ o, h.object? i = some o
  enough : h.objects.size < n + around.length

section Walk

variable {h : Heap} {v w u : Value} {i : ObjectId} {o : Object} {n k : Nat} {around around' : List ObjectId}

theorem Fueled.outermost (hn : h.objects.size < n) : h.Fueled n [] := ⟨List.nodup_nil, nofun, hn⟩

theorem Fueled.start (h : Heap) : h.Fueled (h.objects.size + 1) [] := .outermost (Nat.lt_succ_self _)

theorem Fueled.pos (hf : h.Fueled n around) : 0 < n := by
  have hlength : around.length ≤ h.objects.size := length_le_objects hf.nodup hf.valid
  have henough := hf.enough
  omega

/-- One more object leaves fuel for the others. -/
theorem Fueled.inside (hf : h.Fueled n around) (hi : i ∉ around) (ho : h.object? i = some o) :
    ∃ k, n = k + 1 ∧ h.Fueled k (i :: around) := by
  have hnodup : (i :: around).Nodup := List.nodup_cons.mpr ⟨hi, hf.nodup⟩
  have hvalid : ∀ j ∈ i :: around, ∃ o, h.object? j = some o := List.forall_mem_cons.mpr ⟨⟨o, ho⟩, hf.valid⟩
  have hlength : around.length + 1 ≤ h.objects.size := length_le_objects hnodup hvalid
  have henough := hf.enough
  refine ⟨n - 1, by omega, hnodup, hvalid, ?_⟩
  rw [List.length_cons]
  omega

theorem documentWithin_again (hv : h.resolve v = .object i) (hi : i ∈ around) :
    h.documentWithin n around v = .error Fault.cyclicJson := by
  rw [documentWithin.eq_def]
  simp only [hv, List.contains_iff_mem, if_pos hi]

theorem documentWithin_missing (hv : h.resolve v = .object i) (hi : i ∉ around) (ho : h.object? i = none) :
    h.documentWithin n around v = .error (Fault.notJson (h.typeName v)) := by
  rw [documentWithin.eq_def]
  cases n <;> simp only [hv, List.contains_iff_mem, if_neg hi, ho]

theorem documentWithin_inside (hv : h.resolve v = .object i) (hi : i ∉ around) (ho : h.object? i = some o) :
    h.documentWithin (n + 1) around v =
      o.content.held.mapM (h.documentWithin n (i :: around)) >>= h.assembled o.cls o.content := by
  rw [documentWithin.eq_def]
  simp only [hv, List.contains_iff_mem, if_neg hi, ho]
  exact contentDocument_eq ..

/-- Values are walked through one after the other if each walk leaves the stack as it was. -/
theorem walkAll_run {walk : Value → StateT (List ObjectId) Option (Except Failure Document)}
    {f : Value → Except Failure Document} {vs : List Value}
    (hvs : ∀ w ∈ vs, (walk w).run around = some (f w, around)) :
    (walkAll walk vs).run around = some (vs.mapM f, around) := by
  induction vs with
  | nil => rfl
  | cons w vs ih =>
    obtain ⟨hw, hvs⟩ := List.forall_mem_cons.mp hvs
    rw [walkAll, List.mapM_cons, StateT.run_bind, hw]
    cases hf : f w with
    | error e => rfl
    | ok d =>
      change ((walkAll walk vs).run around >>= fun r => pure (r.1.map (d :: ·), r.2)) = _
      rw [ih hvs]
      cases vs.mapM f <;> rfl

/-- The walk ends, with the document that fuel for all objects gives, and leaves the stack as it was. -/
theorem walk_run (hf : h.Fueled n around) (hk : h.Fueled k around) :
    (h.walk n v).run around = some (h.documentWithin k around v, around) := by
  induction n generalizing k v around with
  | zero => exact absurd hf.pos (Nat.lt_irrefl 0)
  | succ n ih =>
    by_cases hv : ∃ i, h.resolve v = .object i
    · obtain ⟨i, hv⟩ := hv
      rw [walk]
      simp only [hv]
      by_cases hi : i ∈ around
      · rw [documentWithin_again hv hi]
        simp [hi]
      · cases ho : h.object? i with
        | none =>
          rw [documentWithin_missing hv hi ho]
          simp [hi]
        | some o =>
          obtain ⟨m, hm, hinside⟩ := hf.inside hi ho
          obtain ⟨k, rfl, hinside'⟩ := hk.inside hi ho
          cases hm
          have hwalk (w : Value) (_ : w ∈ o.content.held) := ih hinside hinside' (v := w)
          have hheld := walkAll_run hwalk
          rw [documentWithin_inside hv hi ho]
          simp [hi, hheld]
    · rw [walk, documentWithin.eq_def]
      cases hr : h.resolve v with
      | object i => exact absurd ⟨i, hr⟩ hv
      | _ =>
        simp only [hr]
        rfl

end Walk

-- ---------------------------------------------------------------------------
-- Places
-- ---------------------------------------------------------------------------

/-- From a value inside the objects `around` a place leads to `w`, inside the objects `path`. At each of its positions
one of the values is taken that an object holds. -/
inductive Leads (h : Heap) : List ObjectId → Value → List Nat → List ObjectId → Value → Prop
  | here {around : List ObjectId} {v : Value} : Leads h around v [] around v
  | inside {around path : List ObjectId} {v u w : Value} {i : ObjectId} {content : Content} {k : Nat}
      {place : List Nat} (hv : h.resolve v = .object i) (hcontent : h.content? i = some content)
      (hu : content.held[k]? = some u) (hrest : Leads h (i :: around) u place path w) :
      Leads h around v (k :: place) path w

/-- The value at the place is an object that is on the path to it. -/
def RecursAt (h : Heap) (around : List ObjectId) (v : Value) (place : List Nat) : Prop :=
  ∃ path w i, h.Leads around v place path w ∧ h.resolve w = .object i ∧ i ∈ path

/-- The value has no document wherever it is, for this reason: it is nan or infinite, an array with such a number, or
an object that is no list, table, set or array. -/
inductive Refuses (h : Heap) (v : Value) : Failure → Prop
  | float {x : Float} (hv : h.resolve v = .float x) (hx : (x.isNaN || x.isInf) = true) :
      Refuses h v (Fault.floatNotJson x)
  | array {i : ObjectId} {m : Matrix} {k : Nat} {x : Float} (hv : h.resolve v = .object i)
      (hcontent : h.content? i = some (.array m)) (hk : m.data[k]? = some x) (hx : (x.isNaN || x.isInf) = true)
      (hbefore : ∀ j < k, ∀ y, m.data[j]? = some y → (y.isNaN || y.isInf) = false) :
      Refuses h v (Fault.floatNotJson x)
  | kind {i : ObjectId} {o : Object} (hv : h.resolve v = .object i) (ho : h.object? i = some o)
      (hkind : o.content.isContainer = false) : Refuses h v (Fault.notJson (h.classes.name o.cls))
  | missing {i : ObjectId} (hv : h.resolve v = .object i) (ho : h.object? i = none) :
      Refuses h v (Fault.notJson (h.typeName v))

/-- The value at the place has no document wherever it is. -/
def RefusesAt (h : Heap) (v : Value) (place : List Nat) : Prop :=
  ∃ path w e, h.Leads [] v place path w ∧ h.Refuses w e

section Places

variable {h : Heap} {v w u : Value} {i : ObjectId} {o : Object} {content : Content} {n n' k : Nat}
  {around around' path path' : List ObjectId} {place place' : List Nat} {e : Failure}

theorem leads_nil_iff : h.Leads around v [] path w ↔ path = around ∧ w = v := by
  constructor
  · rintro ⟨⟩
    exact ⟨rfl, rfl⟩
  · rintro ⟨rfl, rfl⟩
    exact .here

theorem leads_cons_iff (hv : h.resolve v = .object i) (hcontent : h.content? i = some content) :
    h.Leads around v (k :: place) path w ↔
      ∃ u, content.held[k]? = some u ∧ h.Leads (i :: around) u place path w := by
  constructor
  · rintro (_ | ⟨hv', hcontent', hu, hrest⟩)
    cases hv.symm.trans hv'
    cases hcontent.symm.trans hcontent'
    exact ⟨_, hu, hrest⟩
  · rintro ⟨u, hu, hrest⟩
    exact .inside hv hcontent hu hrest

/-- A place leads to one value on one path. -/
theorem Leads.unique (h₁ : h.Leads around v place path w) (h₂ : h.Leads around v place path' u) :
    path = path' ∧ w = u := by
  induction h₁ with
  | here =>
    obtain ⟨rfl, rfl⟩ := leads_nil_iff.mp h₂
    exact ⟨rfl, rfl⟩
  | inside hv hcontent hu _ ih =>
    obtain ⟨_, hu', hrest⟩ := (leads_cons_iff hv hcontent).mp h₂
    cases hu.symm.trans hu'
    exact ih hrest

theorem Leads.append (h₁ : h.Leads around v place path w) (h₂ : h.Leads path w place' path' u) :
    h.Leads around v (place ++ place') path' u := by
  induction h₁ with
  | here => exact h₂
  | inside hv hcontent hu _ ih => exact .inside hv hcontent hu (ih h₂)

/-- With more objects around a value there are more on every path into it. -/
theorem Leads.under (hleads : h.Leads around v place path w) (more : List ObjectId) :
    h.Leads (around ++ more) v place (path ++ more) w := by
  induction hleads with
  | here => exact .here
  | inside hv hcontent hu _ ih => exact .inside hv hcontent hu ih

theorem RecursAt.inside (hleads : h.Leads [] v place path w) (hrecurs : h.RecursAt [] w place') :
    h.RecursAt [] v (place ++ place') := by
  obtain ⟨path', u, i, hleads', hu, hi⟩ := hrecurs
  exact ⟨path' ++ path, u, i, hleads.append (hleads'.under path), hu, List.mem_append_left _ hi⟩

-- ---------------------------------------------------------------------------
-- Values without documents
-- ---------------------------------------------------------------------------

theorem floatDocument_error_iff {x : Float} :
    floatDocument x = .error e ↔ (x.isNaN || x.isInf) = true ∧ e = (Fault.floatNotJson x).failure := by
  unfold floatDocument
  split
  · next hx => exact ⟨fun he => ⟨hx, (Except.error.inj he).symm⟩, fun ⟨_, he⟩ => he ▸ rfl⟩
  · next hx => exact ⟨nofun, fun ⟨hx', _⟩ => absurd hx' hx⟩

theorem floatDocument_ok_iff {x : Float} : (∃ d, floatDocument x = .ok d) ↔ (x.isNaN || x.isInf) = false := by
  unfold floatDocument
  split
  · next hx => exact ⟨nofun, fun hx' => nomatch hx.symm.trans hx'⟩
  · next hx => exact ⟨fun _ => Bool.eq_false_of_not_eq_true hx, fun _ => ⟨_, rfl⟩⟩

/-- An array fails with its first number that has no document. -/
theorem matrixDocument_error_iff {m : Matrix} :
    matrixDocument m = .error e ↔ m.data.toList.mapM floatDocument = .error e := by
  unfold matrixDocument
  cases m.data.toList.mapM floatDocument with
  | error e' =>
    constructor
    · intro he
      exact congrArg Except.error (Except.error.inj he)
    · intro he
      exact congrArg Except.error (Except.error.inj he)
  | ok numbers =>
    refine ⟨fun he => ?_, nofun⟩
    by_cases hrows : m.rows = 1
    · simp [hrows, bind, Except.bind, pure, Except.pure] at he
    · simp [hrows, bind, Except.bind, pure, Except.pure] at he

/-- Documents are not assembled exactly for an object that has none wherever it is. -/
theorem assembled_error_iff (hv : h.resolve v = .object i) (ho : h.object? i = some o) (ds : List Document) :
    h.assembled o.cls o.content ds = .error e ↔ h.Refuses v e := by
  have hcontent : h.content? i = some o.content := by rw [content?, ho]; rfl
  constructor
  · intro he
    obtain ⟨cls, content⟩ := o
    cases content with
    | list _ => cases he
    | set _ => cases he
    | table _ => cases he
    | array m =>
      obtain ⟨k, x, hk, hrefused, hbefore⟩ := mapM_error_iff.mp (matrixDocument_error_iff.mp he)
      obtain ⟨hx, rfl⟩ := floatDocument_error_iff.mp hrefused
      rw [Array.getElem?_toList] at hk
      refine .array hv hcontent hk hx fun j hj y hy => floatDocument_ok_iff.mp (hbefore j hj y ?_)
      rwa [Array.getElem?_toList]
    | _ =>
      cases he
      exact .kind hv ho rfl
  · intro he
    cases he with
    | float hv' => cases hv.symm.trans hv'
    | @array _ m k x hv' hcontent' hk hx hbefore =>
      cases hv.symm.trans hv'
      have hmatrix : o.content = .array m := Option.some.inj (hcontent.symm.trans hcontent')
      rw [hmatrix]
      refine matrixDocument_error_iff.mpr (mapM_error_iff.mpr ⟨k, x, ?_, floatDocument_error_iff.mpr ⟨hx, rfl⟩, ?_⟩)
      · rwa [Array.getElem?_toList]
      · intro j hj y hy
        rw [Array.getElem?_toList] at hy
        exact floatDocument_ok_iff.mpr (hbefore j hj y hy)
    | kind hv' ho' hkind =>
      cases hv.symm.trans hv'
      cases ho.symm.trans ho'
      obtain ⟨cls, content⟩ := o
      cases content <;> first | rfl | cases hkind
    | missing hv' ho' =>
      cases hv.symm.trans hv'
      cases ho.symm.trans ho'

/-- An object that has no document wherever it is holds nothing. -/
theorem Refuses.held_eq_nil (he : h.Refuses v e) (hv : h.resolve v = .object i)
    (hcontent : h.content? i = some content) : content.held = [] := by
  cases he with
  | float hv' => cases hv.symm.trans hv'
  | array hv' hcontent' =>
    cases hv.symm.trans hv'
    cases hcontent.symm.trans hcontent'
    rfl
  | kind hv' ho' hkind =>
    cases hv.symm.trans hv'
    rw [content?, ho'] at hcontent
    cases hcontent
    rename_i o
    obtain ⟨cls, content⟩ := o
    cases content <;> first | rfl | cases hkind
  | missing hv' ho' =>
    cases hv.symm.trans hv'
    rw [content?, ho'] at hcontent
    cases hcontent

theorem Refuses.ne_cyclic (he : h.Refuses v e) : e ≠ Fault.cyclicJson.failure := by
  cases he <;> exact nofun

/-- A value that is no object has no document exactly if it has none wherever it is. -/
theorem documentWithin_scalar_error_iff (hv : ∀ i, h.resolve v ≠ .object i) :
    h.documentWithin n around v = .error e ↔ h.Refuses v e := by
  rw [documentWithin.eq_def]
  cases hr : h.resolve v with
  | object i => exact absurd hr (hv i)
  | float x =>
    simp only [hr, floatDocument_error_iff]
    constructor
    · rintro ⟨hx, rfl⟩
      exact .float hr hx
    · intro he
      cases he with
      | float hv' hx =>
        cases hr.symm.trans hv'
        exact ⟨hx, rfl⟩
      | array hv' => cases hr.symm.trans hv'
      | kind hv' => cases hr.symm.trans hv'
      | missing hv' => cases hr.symm.trans hv'
  | _ =>
    simp only [hr]
    refine ⟨nofun, fun he => ?_⟩
    cases he with
    | float hv' => cases hr.symm.trans hv'
    | array hv' => cases hr.symm.trans hv'
    | kind hv' => cases hr.symm.trans hv'
    | missing hv' => cases hr.symm.trans hv'

end Places

-- ---------------------------------------------------------------------------
-- Where a walk stops
-- ---------------------------------------------------------------------------

/-- What a walk fails with at a value that it has come to inside the objects `path`. It looks for the value on its path
before it looks into it. -/
inductive Stops (h : Heap) (path : List ObjectId) (w : Value) : Failure → Prop
  | cycle {i : ObjectId} (hw : h.resolve w = .object i) (hi : i ∈ path) : Stops h path w Fault.cyclicJson
  | refused {e : Failure} (hpath : ∀ i ∈ path, h.resolve w ≠ .object i) (he : h.Refuses w e) : Stops h path w e

/-- A walk that comes to the place stops there. -/
def StopsAt (h : Heap) (around : List ObjectId) (v : Value) (place : List Nat) (e : Failure) : Prop :=
  ∃ path w, h.Leads around v place path w ∧ h.Stops path w e

/-- What the result of a walk says: there is no place to stop at, or the walk has stopped at the first one. -/
def Tells (h : Heap) (around : List ObjectId) (v : Value) : Except Failure Document → Prop
  | .ok _ => ∀ place e, ¬h.StopsAt around v place e
  | .error e => ∃ place, h.StopsAt around v place e ∧ ∀ earlier < place, ∀ e', ¬h.StopsAt around v earlier e'

section Stopping

variable {h : Heap} {v w u : Value} {i : ObjectId} {o : Object} {content : Content} {n k : Nat}
  {around path : List ObjectId} {place : List Nat} {e : Failure} {d : Document}

theorem stopsAt_nil_iff : h.StopsAt around v [] e ↔ h.Stops around v e := by
  constructor
  · rintro ⟨path, w, hleads, hstops⟩
    obtain ⟨rfl, rfl⟩ := leads_nil_iff.mp hleads
    exact hstops
  · exact fun hstops => ⟨around, v, .here, hstops⟩

theorem stopsAt_cons_iff (hv : h.resolve v = .object i) (hcontent : h.content? i = some content) :
    h.StopsAt around v (k :: place) e ↔
      ∃ u, content.held[k]? = some u ∧ h.StopsAt (i :: around) u place e := by
  simp only [StopsAt, leads_cons_iff hv hcontent]
  constructor
  · rintro ⟨path, w, ⟨u, hu, hleads⟩, hstops⟩
    exact ⟨u, hu, path, w, hleads, hstops⟩
  · rintro ⟨u, hu, path, w, hleads, hstops⟩
    exact ⟨path, w, ⟨u, hu, hleads⟩, hstops⟩

/-- There is no place inside a value that is no object of the heap. -/
theorem not_stopsAt_cons (hv : ∀ i content, h.resolve v = .object i → h.content? i ≠ some content) :
    ¬h.StopsAt around v (k :: place) e := by
  rintro ⟨path, w, ⟨⟩ | ⟨hobject, hcontent, -, -⟩, -⟩
  exact hv _ _ hobject hcontent

/-- A walk stops at its start, and there is nothing before that. -/
theorem tells_stops (hstops : h.Stops around v e) : h.Tells around v (.error e) :=
  ⟨[], stopsAt_nil_iff.mpr hstops, fun earlier hearlier => absurd hearlier (List.not_lt_nil earlier)⟩

/-- A walk through a value that is no object of the heap. -/
theorem tells_scalar (hv : ∀ i, h.resolve v ≠ .object i) : h.Tells around v (h.documentWithin n around v) := by
  cases hd : h.documentWithin n around v with
  | error e => exact tells_stops (.refused (fun i _ => hv i) ((documentWithin_scalar_error_iff hv).mp hd))
  | ok d =>
    rintro (_ | ⟨k, place⟩) e hstops
    · cases stopsAt_nil_iff.mp hstops with
      | cycle hi => exact hv _ hi
      | refused _ he => cases hd.symm.trans ((documentWithin_scalar_error_iff hv).mpr he)
    · exact not_stopsAt_cons (fun i _ hi => absurd hi (hv i)) hstops

/-- A walk through an object that is not on its path, given what the walks through the values in it tell. -/
theorem tells_inside (hv : h.resolve v = .object i) (hi : i ∉ around) (ho : h.object? i = some o)
    {f : Value → Except Failure Document} (hf : ∀ u, h.Tells (i :: around) u (f u)) :
    h.Tells around v (o.content.held.mapM f >>= h.assembled o.cls o.content) := by
  have hcontent : h.content? i = some o.content := by rw [content?, ho]; rfl
  have hpath : ∀ j ∈ around, h.resolve v ≠ .object j := fun j hj hvj => by
    cases hv.symm.trans hvj
    exact hi hj
  -- A walk through a value with a document has no place to stop at.
  have hpassed : ∀ u d, f u = .ok d → ∀ place e, ¬h.StopsAt (i :: around) u place e := fun u d hd => by
    have htells := hf u
    rwa [hd] at htells
  cases hheld : o.content.held.mapM f with
  | error e =>
    obtain ⟨k, u, hu, hfu, hbefore⟩ := mapM_error_iff.mp hheld
    have htells := hf u
    rw [hfu] at htells
    obtain ⟨place, hstops, hfirst⟩ := htells
    refine ⟨k :: place, (stopsAt_cons_iff hv hcontent).mpr ⟨u, hu, hstops⟩, ?_⟩
    rintro (_ | ⟨j, earlier⟩) hearlier e' hstops'
    · cases stopsAt_nil_iff.mp hstops' with
      | cycle hvj hj => exact hpath _ hj hvj
      | refused _ he =>
        rw [he.held_eq_nil hv hcontent] at hu
        cases hu
    · obtain ⟨u', hu', hstops'⟩ := (stopsAt_cons_iff hv hcontent).mp hstops'
      rcases List.cons_lt_cons_iff.mp hearlier with hj | ⟨rfl, hlt⟩
      · obtain ⟨d, hd⟩ := hbefore j hj u' hu'
        exact hpassed u' d hd earlier e' hstops'
      · cases hu.symm.trans hu'
        exact hfirst earlier hlt e' hstops'
  | ok ds =>
    change h.Tells around v (h.assembled o.cls o.content ds)
    cases hassembled : h.assembled o.cls o.content ds with
    | error e => exact tells_stops (.refused hpath ((assembled_error_iff hv ho ds).mp hassembled))
    | ok d =>
      rintro (_ | ⟨k, place⟩) e hstops
      · cases stopsAt_nil_iff.mp hstops with
        | cycle hvj hj => exact hpath _ hj hvj
        | refused _ he => cases hassembled.symm.trans ((assembled_error_iff hv ho ds).mpr he)
      · obtain ⟨u, hu, hstops⟩ := (stopsAt_cons_iff hv hcontent).mp hstops
        obtain ⟨d, hd⟩ := exists_mapM_iff.mp ⟨ds, hheld⟩ u (List.mem_of_getElem? hu)
        exact hpassed u d hd place e hstops

/-- A walk goes on to the first place to stop at. -/
theorem documentWithin_tells (hf : h.Fueled n around) : h.Tells around v (h.documentWithin n around v) := by
  induction n using Nat.strongRecOn generalizing v around with
  | ind n ih =>
    by_cases hv : ∃ i, h.resolve v = .object i
    · obtain ⟨i, hv⟩ := hv
      by_cases hi : i ∈ around
      · rw [documentWithin_again hv hi]
        exact tells_stops (.cycle hv hi)
      · cases ho : h.object? i with
        | none =>
          rw [documentWithin_missing hv hi ho]
          refine tells_stops (.refused (fun j hj hvj => ?_) (.missing hv ho))
          cases hv.symm.trans hvj
          exact hi hj
        | some o =>
          obtain ⟨n, rfl, hinside⟩ := hf.inside hi ho
          rw [documentWithin_inside hv hi ho]
          exact tells_inside hv hi ho fun u => ih n n.lt_succ_self hinside
    · exact tells_scalar (not_exists.mp hv)

/-- The walk stops at a place where it comes to an object on its path, or else to a value without a document. -/
theorem stopsAt_iff : h.StopsAt [] v place e ↔
    h.RecursAt [] v place ∧ e = Fault.cyclicJson.failure ∨
      ¬h.RecursAt [] v place ∧ ∃ path w, h.Leads [] v place path w ∧ h.Refuses w e := by
  constructor
  · rintro ⟨path, w, hleads, ⟨hw, hi⟩ | ⟨hpath, he⟩⟩
    · exact .inl ⟨⟨path, w, _, hleads, hw, hi⟩, rfl⟩
    · refine .inr ⟨?_, path, w, hleads, he⟩
      rintro ⟨path', w', i, hleads', hw', hi⟩
      obtain ⟨rfl, rfl⟩ := hleads.unique hleads'
      exact hpath i hi hw'
  · rintro (⟨⟨path, w, i, hleads, hw, hi⟩, rfl⟩ | ⟨hrecurs, path, w, hleads, he⟩)
    · exact ⟨path, w, hleads, .cycle hw hi⟩
    · exact ⟨path, w, hleads, .refused (fun i hi hw => hrecurs ⟨path, w, i, hleads, hw, hi⟩) he⟩

theorem exists_stopsAt_iff : (∃ e, h.StopsAt [] v place e) ↔ h.RecursAt [] v place ∨ h.RefusesAt v place := by
  constructor
  · rintro ⟨e, hstops⟩
    rcases stopsAt_iff.mp hstops with ⟨hrecurs, -⟩ | ⟨-, path, w, hleads, he⟩
    · exact .inl hrecurs
    · exact .inr ⟨path, w, e, hleads, he⟩
  · intro hplace
    by_cases hrecurs : h.RecursAt [] v place
    · exact ⟨_, stopsAt_iff.mpr (.inl ⟨hrecurs, rfl⟩)⟩
    · obtain ⟨path, w, e, hleads, he⟩ := hplace.resolve_left hrecurs
      exact ⟨e, stopsAt_iff.mpr (.inr ⟨hrecurs, path, w, hleads, he⟩)⟩

theorem document_tells (h : Heap) (v : Value) : h.Tells [] v (h.document v) := documentWithin_tells (.start h)

/-- A value has a document exactly if no object in it contains itself and everything in it has a document. -/
theorem document_ok_iff : (∃ d, h.document v = .ok d) ↔ ∀ place, ¬h.RecursAt [] v place ∧ ¬h.RefusesAt v place := by
  have htells := document_tells h v
  simp only [← not_or, ← exists_stopsAt_iff, not_exists]
  cases hd : h.document v with
  | ok d =>
    rw [hd] at htells
    exact ⟨fun _ => htells, fun _ => ⟨d, rfl⟩⟩
  | error e =>
    rw [hd] at htells
    obtain ⟨place, hstops, -⟩ := htells
    exact ⟨nofun, fun hnone => absurd hstops (hnone place e)⟩

/-- A walk fails for a cycle exactly if it comes to an object on its path, and to no value without a document before. -/
theorem document_cyclic_iff : h.document v = .error Fault.cyclicJson ↔
    ∃ place, h.RecursAt [] v place ∧ ∀ earlier < place, ¬h.RefusesAt v earlier := by
  constructor
  · intro hd
    have htells := document_tells h v
    rw [hd] at htells
    obtain ⟨place, hstops, hfirst⟩ := htells
    refine ⟨place, ?_, fun earlier hearlier hrefuses => ?_⟩
    · rcases stopsAt_iff.mp hstops with ⟨hrecurs, -⟩ | ⟨-, path, w, -, he⟩
      · exact hrecurs
      · exact absurd rfl he.ne_cyclic
    · obtain ⟨e, hstops'⟩ := exists_stopsAt_iff.mpr (.inr hrefuses)
      exact hfirst earlier hearlier e hstops'
  · rintro ⟨place, hrecurs, hbefore⟩
    have hstops : h.StopsAt [] v place Fault.cyclicJson.failure := stopsAt_iff.mpr (.inl ⟨hrecurs, rfl⟩)
    have htells := document_tells h v
    cases hd : h.document v with
    | ok d =>
      rw [hd] at htells
      exact absurd hstops (htells place _)
    | error e =>
      rw [hd] at htells
      obtain ⟨first, hstops', hfirst⟩ := htells
      rcases stopsAt_iff.mp hstops' with ⟨-, rfl⟩ | ⟨hnot, hrefuses⟩
      · rfl
      · obtain ⟨path, w, hleads, he⟩ := hrefuses
        rcases lt_trichotomy first place with hlt | rfl | hlt
        · exact absurd ⟨path, w, e, hleads, he⟩ (hbefore first hlt)
        · exact absurd hrecurs hnot
        · exact absurd hstops (hfirst place hlt _)

-- ---------------------------------------------------------------------------
-- Sharing
-- ---------------------------------------------------------------------------

/-- A walk that never comes to an object on its path does not depend on the objects around its start. -/
theorem documentWithin_outside {n' : Nat} {around' : List ObjectId} (hf : h.Fueled n around)
    (hf' : h.Fueled n' around') (hsub : around' ⊆ around) (hnone : ∀ place, ¬h.RecursAt around v place) :
    h.documentWithin n around v = h.documentWithin n' around' v := by
  induction n using Nat.strongRecOn generalizing v around n' around' with
  | ind n ih =>
    by_cases hv : ∃ i, h.resolve v = .object i
    · obtain ⟨i, hv⟩ := hv
      have hi : i ∉ around := fun hi => hnone [] ⟨around, v, i, .here, hv, hi⟩
      have hi' : i ∉ around' := fun hi' => hi (hsub hi')
      cases ho : h.object? i with
      | none => rw [documentWithin_missing hv hi ho, documentWithin_missing hv hi' ho]
      | some o =>
        have hcontent : h.content? i = some o.content := by rw [content?, ho]; rfl
        obtain ⟨n, rfl, hinside⟩ := hf.inside hi ho
        obtain ⟨n', rfl, hinside'⟩ := hf'.inside hi' ho
        rw [documentWithin_inside hv hi ho, documentWithin_inside hv hi' ho]
        refine congrArg (· >>= _) (mapM_congr fun u hu => ?_)
        obtain ⟨k, hk⟩ := List.mem_iff_getElem?.mp hu
        refine ih n n.lt_succ_self hinside hinside' (List.cons_subset_cons i hsub) ?_
        rintro place ⟨path, w, j, hleads, hw, hj⟩
        exact hnone (k :: place) ⟨path, w, j, .inside hv hcontent hk hleads, hw, hj⟩
    · exact documentWithin_scalar (not_exists.mp hv) ..

/-- The document of an object that nothing in it contains is assembled from the documents that the values in it have. -/
theorem document_object_eq (hv : h.resolve v = .object i) (ho : h.object? i = some o)
    (hnone : ∀ place, ¬h.RecursAt [] v place) :
    h.document v = o.content.held.mapM h.document >>= h.assembled o.cls o.content := by
  have hcontent : h.content? i = some o.content := by rw [content?, ho]; rfl
  obtain ⟨n, hn, hinside⟩ := (Fueled.start h).inside List.not_mem_nil ho
  rw [document, hn, documentWithin_inside hv List.not_mem_nil ho]
  refine congrArg (· >>= _) (mapM_congr fun u hu => ?_)
  obtain ⟨k, hk⟩ := List.mem_iff_getElem?.mp hu
  refine documentWithin_outside hinside (.start h) (List.nil_subset _) ?_
  rintro place ⟨path, w, j, hleads, hw, hj⟩
  exact hnone (k :: place) ⟨path, w, j, .inside hv hcontent hk hleads, hw, hj⟩

end Stopping

end Heap

/-- Making a document ends on every heap, with nothing on the stack, since no walk has to be deeper than there are
objects, and one value more. It succeeds exactly if no object in the value contains itself and nothing in it is without
a document, and fails for a cycle exactly if the walk from left to right comes to an object on its path before it comes
to a value without a document. Without a cycle an object has the same document, made of the documents of what it holds,
at each place where it is reached. -/
theorem documents_end (h : Heap) (v : Value) :
    (∀ depth, h.objects.size < depth → (h.walk depth v).run [] = some (h.document v, [])) ∧
    ((∃ d, h.document v = .ok d) ↔ ∀ place, ¬h.RecursAt [] v place ∧ ¬h.RefusesAt v place) ∧
    (h.document v = .error Fault.cyclicJson ↔
      ∃ place, h.RecursAt [] v place ∧ ∀ earlier < place, ¬h.RefusesAt v earlier) ∧
    ((∀ place, ¬h.RecursAt [] v place) → ∀ place path w i o, h.Leads [] v place path w → h.resolve w = .object i →
      h.object? i = some o →
        h.document w = o.content.held.mapM h.document >>= h.assembled o.cls o.content) := by
  refine ⟨fun depth hdepth => Heap.walk_run (.outermost hdepth) (.start h), Heap.document_ok_iff, Heap.document_cyclic_iff, ?_⟩
  intro hnone place path w i o hleads hw ho
  exact Heap.document_object_eq hw ho fun place' hrecurs => hnone (place ++ place') (.inside hleads hrecurs)

/-- A list that is there twice is written twice. -/
example :
    let h : Heap := { objects := #[some ⟨.list, .list #[.object ⟨1⟩, .object ⟨1⟩]⟩, some ⟨.list, .list #[.int 1]⟩] }
    h.document (.object ⟨0⟩) = .ok (.list [.list [.int 1], .list [.int 1]]) := rfl

/-- A list that holds a function in front of itself, through a cell, is refused for the function. -/
example :
    let h : Heap := {
      objects := #[some ⟨.list, .list #[.object ⟨1⟩, .cell ⟨0⟩]⟩, some ⟨.function, .function { name := "f" }⟩]
      cells := #[some (.object ⟨0⟩)] }
    h.document (.object ⟨0⟩) = .error (Fault.notJson (h.classes.name .function)) := rfl

end Rill
