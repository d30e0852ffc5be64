-- SUMMARY: Private copies, overloads, registered functions and loaded texts leave the machine's stacks alone.
import Rill.Proofs.Depth.Script
import Rill.Proofs.Layout.Tables
import Rill.Proofs.Safety.Tame

/-!
# Objects that are made on the way

A shared container is copied, functions get overloads, classes and functions are registered, and texts
become functions. All of that is tame: a function made of others has their closures, and the code of a
text is sound.
-/

namespace Rill

-- ---------------------------------------------------------------------------
-- Sharing and registration
-- ---------------------------------------------------------------------------

namespace Tame

theorem closures_copyContent {c : Content} (h : c.isContainer = true) (resolve : Value → Value) :
    (Run.copyContent resolve c).closures = [] := by
  cases c <;> simp_all [Run.copyContent, Content.closures, Content.isContainer, Content.size?]

attribute [grind .] closures_copyContent

@[grind .]
theorem unshare (v : Value) (extra : List Value) : Tame (Run.unshare v extra) := by
  fun_cases Run.unshare v extra <;> grind

@[grind .]
theorem unshareSlot (v : Value) (extra : List Value) : Tame (Run.unshareSlot v extra) := by
  fun_cases Run.unshareSlot v extra <;> grind

end Tame

/-- The closures of a function with another overload are among the old ones and the new one. -/
theorem Function.mem_closures_add {f g : Function} {c d : Closure} (h : f.add c = .ok g)
    (hd : d ∈ g.closures) : d ∈ f.closures ∨ d = c := by
  unfold add at h
  split at h
  · cases h
  · split at h
    · cases h
      exact (List.mem_or_eq_of_mem_set hd)
    · cases h
      simp only [List.mem_append, List.mem_cons] at hd
      have hclosures : (if f.closures.isEmpty ∨ c.arity > f.maxArity then
          { f with refFlags := c.refFlags, maxArity := c.arity } else f).closures = f.closures := by
        split <;> rfl
      simp only [hclosures] at hd
      rcases hd with hd | rfl | hd
      · exact .inl ((List.takeWhile_prefix _).subset hd)
      · exact .inr rfl
      · exact .inl ((List.dropWhile_suffix _).subset hd)

theorem Function.mem_closures_addAll {cs : List Closure} {f g : Function} {d : Closure}
    (h : f.addAll cs = .ok g) (hd : d ∈ g.closures) : d ∈ f.closures ∨ d ∈ cs := by
  induction cs generalizing f with
  | nil =>
    cases h
    exact .inl hd
  | cons c rest ih =>
    rw [addAll, List.foldlM_cons] at h
    cases hadd : f.add c with
    | error e => simp [hadd, bind, Except.bind] at h
    | ok f' =>
      simp only [hadd, bind, Except.bind] at h
      rcases ih h with hmem | hmem
      · rcases mem_closures_add hadd hmem with hmem | rfl
        · exact .inl hmem
        · exact .inr List.mem_cons_self
      · exact .inr (List.mem_cons_of_mem _ hmem)

namespace Tame

@[grind .]
theorem merge (existing : Value) (function : ObjectId) : Tame (Run.merge existing function) := by
  refine heap_bind fun h hs => ?_
  split
  · next old new hold hnew =>
    split
    · exact pure _
    · refine lift_bind (old.addAll_harmless _) fun f hf => allocate fun c hc => ?_
      rcases Function.mem_closures_addAll hf hc with hmem | hmem
      · exact hs.function hold c hmem
      · exact hs _ _ hnew c hmem
  · exact pure _

@[grind .]
theorem newNative (name : String) (fn : Native) (signature : List ClassId) (refs : RefFlags) :
    Tame (Run.newNative name fn signature refs) := by
  refine allocate fun c hc => ?_
  obtain rfl : c = Run.nativeClosure fn signature refs := List.mem_singleton.mp hc
  trivial

@[grind .]
theorem addGlobalFunction (name : String) (fn : Native) (signature : List ClassId) (refs : RefFlags) :
    Tame (Run.addGlobalFunction name fn signature refs) := by
  grind [Run.addGlobalFunction]

@[grind .]
theorem addMethod (cls : ClassId) (name : String) (fn : Native) (signature : List ClassId)
    (refs : RefFlags) : Tame (Run.addMethod cls name fn signature refs) := by
  grind [Run.addMethod]

@[grind .]
theorem addInitializer (cls : ClassId) (fn : Native) (signature : List ClassId) (refs : RefFlags) :
    Tame (Run.addInitializer cls fn signature refs) := by
  grind [Run.addInitializer]

@[grind .]
theorem addAccessor (cls : ClassId) (name : String) (getter : Native) (setter : Option Native) :
    Tame (Run.addAccessor cls name getter setter) := by
  grind [Run.addAccessor]

@[grind .]
theorem createClass (name : String) (parent : Option ClassId) (collectable : Bool) :
    Tame (Run.createClass name parent collectable) := by
  grind [Run.createClass, allocate, Content.isSound_of_closures]

end Tame

-- ---------------------------------------------------------------------------
-- Loading
-- ---------------------------------------------------------------------------

@[grind .]
theorem compileText_harmless (source file : String) (debug : Bool) :
    Harmless (compileText source file debug) := by
  unfold compileText
  split
  · exact compile_harmless _ _ _
  · unfold Failure.ofParse
    split <;> exact .error rfl

/-- A text that is accepted becomes a sound routine that captures nothing. -/
theorem compileText_sound {source file : String} {debug : Bool} {r : Routine}
    (h : compileText source file debug = .ok r) : Sound r ∧ r.captures = #[] := by
  unfold compileText at h
  split at h
  · next script hparse =>
    have hproper := parse_proper hparse
    obtain ⟨hsound, body, hcaptures, -⟩ := (Layout.compile_places hproper h).sound hproper.stmts
    exact ⟨hsound, hcaptures⟩
  · cases h

namespace Tame

@[grind .]
theorem loadText (file source : String) : Tame (Run.loadText file source) := by
  refine config.bind fun config => lift_bind (compileText_harmless _ _ _) fun r hr => ?_
  obtain ⟨hsound, hcaptures⟩ := compileText_sound hr
  refine get.bind fun m => bind (change fun _ _ => .of_objects rfl rfl rfl rfl rfl) fun _ => ?_
  refine newFunction fun c hc => ?_
  simp only [Function.ofClosure, List.mem_singleton] at hc
  subst hc
  exact ⟨hsound, by rw [hcaptures]; rfl, Nat.zero_le _⟩

theorem withFiles {f : Files.Tree → Except Failure (α × Files.Tree)} (hf : ∀ t, Harmless (f t)) :
    Tame (Run.withFiles f) :=
  (reclaim []).bind fun _ => get.bind fun _ => (lift (hf _)).bind fun _ =>
    bind (change fun _ _ => .of_objects rfl rfl rfl rfl rfl) fun _ => pure _

@[grind .]
theorem readFile (path : String) : Tame (Run.readFile path) := by
  refine withFiles fun t => ?_
  grind

@[grind .]
theorem loadFile (path : String) : Tame (Run.loadFile path) := by grind [Run.loadFile]

end Tame

end Rill
