-- SUMMARY: Fields that classes compute: native functions that answer alike on machines alike.
import Rill.Proofs.Dispatch.Inheritance
import Rill.Proofs.Ownership.Twins

/-!
# Answers

Objects with contents alike can be put on two machines alike, which are alike afterwards. So native functions answer
related values alike, if they only read and make a list of what they have read. All functions behind the fields of the
library do no more, nor do those of the host, so classes compute fields faithfully whatever has been registered.
-/

namespace Rill

-- ---------------------------------------------------------------------------
-- New objects
-- ---------------------------------------------------------------------------

section Allocation

variable {R S : Value → Value → Prop} {h h' h₁ : Heap} {c d : Content} {i : ObjectId} {o : Object} {cls : ClassId}
  {m m' : Machine}

theorem Content.Alike.mono (hRS : ∀ {x y}, R x y → S x y) (hclasses : h₁.classes = h.classes) (hcd : c.Alike R h d) :
    c.Alike S h₁ d := by
  cases hcd with
  | list items => exact .list (items.imp fun _ _ => hRS)
  | table entries => exact .table (entries.imp fun _ _ hxy => ⟨hxy.1, hRS hxy.2⟩)
  | space members => exact .space (members.imp fun _ _ hxy => ⟨hxy.1, hRS hxy.2⟩)
  | same children => exact .same fun v hv => hRS (children v (by rwa [children_of_classes hclasses] at hv))

theorem Heap.object?_allocate_old (ho : h.object? i = some o) (cls : ClassId) (c : Content) :
    (h.allocate cls c).2.object? i = some o := by
  rw [object?_allocate, if_neg (Nat.ne_of_lt (index_lt_of_object? ho)), ho]

theorem Heap.object?_allocate_new (h : Heap) (cls : ClassId) (c : Content) :
    (h.allocate cls c).2.object? (h.allocate cls c).1 = some ⟨cls, c⟩ :=
  (object?_allocate h cls c _).trans (if_pos rfl)

/-- What was related, and two new objects. -/
def Joined (R : Value → Value → Prop) (i j : ObjectId) (x y : Value) : Prop := R x y ∨ x = .object i ∧ y = .object j

/-- Objects with contents alike are put on the heaps. -/
theorem Heap.Simulates.allocate (hS : h.Simulates R h') (hcd : c.Alike R h d) (cls : ClassId) :
    (h.allocate cls c).2.Simulates (Joined R (h.allocate cls c).1 (h'.allocate cls d).1) (h'.allocate cls d).2 where
  classes := hS.classes
  scalar hv := .inl (hS.scalar hv)
  cell hx := hS.cell (hx.resolve_right fun hnew => by cases hnew.2)
  resolve := by
    rintro x y (hxy | ⟨rfl, rfl⟩)
    · exact .inl (hS.resolve hxy)
    · exact .inr ⟨rfl, rfl⟩
  agree := by
    rintro x y (hxy | ⟨rfl, rfl⟩)
    · have hagree := hS.agree hxy
      change Agree _ _ _ (h.resolve x) (h'.resolve y)
      generalize h.resolve x = x at hagree
      generalize h'.resolve y = y at hagree
      cases hagree with
      | scalar plain => exact .scalar plain
      | object left right hcls content =>
        exact .object (object?_allocate_old left cls c) (object?_allocate_old right cls d) hcls
          (content.mono (h := h) .inl rfl)
    · exact .object (object?_allocate_new h cls c) (object?_allocate_new h' cls d) rfl (hcd.mono (h := h) .inl rfl)

/-- New objects with contents alike are made in both machines. -/
theorem Machine.Alike.newObject (hm : m.Alike R m') (hcd : c.Alike R m.heap d) (cls : ClassId) :
    m.Concurs m' (Run.newObject cls c m) (Run.newObject cls d m') := by
  refine ⟨⟨rfl, rfl, rfl, fun ho => Heap.object?_allocate_old ho cls c⟩, rfl, _,
    ⟨hm.config, hm.precall, hm.references, hm.held, hm.stack.imp fun _ _ => .inl,
      hm.globals.imp fun _ _ hxy => ⟨hxy.1, .inl hxy.2⟩, hm.simulates.allocate hcd cls, fun c' info hinfo => ?_,
      fun hx => .inl (hm.fixed hx)⟩, .inr ⟨rfl, rfl⟩⟩
  obtain ⟨cls', hobject⟩ := hm.classes c' info hinfo
  exact ⟨cls', Heap.object?_allocate_old hobject cls c⟩

end Allocation

-- ---------------------------------------------------------------------------
-- Computed fields
-- ---------------------------------------------------------------------------

section Computed

variable {R : Value → Value → Prop} {h h' : Heap} {c d : Content} {m m' : Machine} {v w : Value} {fn : Native}

theorem Heap.Simulates.length (hS : h.Simulates R h') (hvw : R v w) : h'.length w = h.length v := by
  have htype := hS.typeName (hS.resolve hvw)
  have hcontent := hS.contentOf (hS.resolve hvw)
  unfold Heap.length
  rcases hS.cases hvw with ⟨u, hu, hv, hw⟩ | ⟨i, j, o, p, hv, hw, ho, hp, -, halike⟩
  · rw [hv, hw] at htype ⊢
    cases u with
    | object _ | cell _ => cases hu
    | text s => rfl
    | _ =>
      dsimp only
      rw [htype]
      rfl
  · rw [hv, hw] at htype hcontent ⊢
    dsimp only
    have hsize : (h'.contentOf (.object j)).bind Content.size? = (h.contentOf (.object i)).bind Content.size? := by
      generalize h.contentOf (.object i) = c at hcontent
      generalize h'.contentOf (.object j) = d at hcontent
      cases hcontent with
      | none => rfl
      | some halike =>
        cases halike with
        | list items => exact congrArg some (by simpa using items.length_eq.symm)
        | table entries => exact congrArg some (by simpa [OrderedMap.size] using entries.length_eq.symm)
        | space members => rfl
        | same => rfl
    rw [hsize, htype]

theorem Heap.Simulates.matrixOf (hS : h.Simulates R h') (hvw : R v w) : h'.matrixOf w = h.matrixOf v := by
  have hcontent := hS.contentOf hvw
  unfold Heap.matrixOf
  rw [hS.mistyped "Array" hvw]
  generalize h.contentOf v = c at hcontent
  generalize h'.contentOf w = d at hcontent
  cases hcontent with
  | none => rfl
  | some halike => cases halike <;> rfl

theorem OrderedMap.Alike.map {κ : Type} {S : Value → Value → Prop} {f g : Value → Value} {xs ys : OrderedMap κ Value}
    (halike : xs.Alike R ys) (hfg : ∀ {x y}, R x y → S (f x) (g y)) : (xs.map f).Alike S (ys.map g) := by
  simp only [OrderedMap.Alike, OrderedMap.map, Array.toList_map, List.forall₂_map_left_iff, List.forall₂_map_right_iff]
  exact halike.imp fun _ _ hxy => ⟨hxy.1, hfg hxy.2⟩

theorem Heap.Simulates.tableOf (hS : h.Simulates R h') (hvw : R v w) :
    Matching (OrderedMap.Alike R) (h.tableOf v) (h'.tableOf w) := by
  have hcontent := hS.contentOf hvw
  have hmistyped := hS.mistyped "Table" hvw
  unfold Heap.tableOf
  rw [hmistyped]
  generalize h.contentOf v = c at hcontent
  generalize h'.contentOf w = d at hcontent
  cases hcontent with
  | none => exact rfl
  | @some c d halike =>
    cases c with
    | table entries =>
      obtain ⟨entries', rfl, hentries⟩ := halike.of_table
      exact hentries.map fun hxy => hS.resolve hxy
    | list items =>
      obtain ⟨items', rfl, -⟩ := halike.of_list
      exact rfl
    | space s =>
      obtain ⟨members, rfl, -⟩ := halike.of_space
      exact rfl
    | _ =>
      cases halike with
      | same => exact rfl

end Computed

namespace ClassTree

variable {history : List Change} {t : ClassTree} {c : ClassId} {name : String} {accessor : Accessor}

/-- A field that a class computes has been registered for it or for an ancestor. -/
theorem Built.registered (h : Built history t) (haccessor : t.accessor? c name = some accessor) :
    ∃ d, .accessor d name accessor ∈ history := by
  obtain ⟨ancestor, -, hown⟩ := List.exists_of_findSome?_eq_some haccessor
  rw [h.own_eq (accessor_step name)] at hown
  obtain ⟨change, hmem, hchange⟩ := List.exists_of_findSome?_eq_some hown
  cases change with
  | accessor d name' field =>
    obtain ⟨⟨-, rfl⟩, hfield⟩ := Option.ite_none_right_eq_some.mp hchange
    cases hfield
    exact ⟨d, hmem⟩
  | _ => cases hchange

end ClassTree

end Rill
