-- SUMMARY: Captured variables and constants are entered once each, and an index keeps its meaning.
import Mathlib.Data.List.Nodup
import Rill.Proofs.Depth.Steps
import Rill.Proofs.Layout.Upkeep

/-!
# Captured variables are distinct

A variable that a routine captures is entered into its table once, however often it is named. The table
of a routine can grow while a function inside it is compiled, so the statement is about the routine being
built and all routines around it, with the finished functions in them.
-/

namespace Rill

/-- No two entries of a routine's table of captured variables are equal, nor of those inside it. -/
def Routine.Distinct (r : Routine) : Prop := ∀ q, Nested r q → q.captures.toList.Nodup

theorem Routine.Distinct.of_children {r : Routine} (h : r.captures.toList.Nodup)
    (hchildren : ∀ child ∈ r.children, child.Distinct) : r.Distinct :=
  Nested.forall_of_children (P := fun q => q.captures.toList.Nodup) h hchildren

namespace Compile

/-- A routine under construction has captured no variable twice, and its finished functions are distinct. -/
structure Builder.Distinct (b : Builder) : Prop where
  captures : b.captures.toList.Nodup
  children : ∀ child ∈ b.children, child.Distinct

theorem Builder.Distinct.finish {b : Builder} (h : b.Distinct) (file : String) : (b.finish file).Distinct :=
  .of_children h.captures h.children

/-- A captured variable is entered only where no equal one is. -/
theorem Builder.Distinct.capture {b b' : Builder} {c : Capture} {k : Nat} (h : b.Distinct)
    (hc : b.capture c = (k, b')) : b'.Distinct := by
  unfold Builder.capture at hc
  split at hc
  · obtain ⟨rfl, rfl⟩ := Prod.mk.inj hc
    exact h
  · next hnone =>
    obtain ⟨rfl, rfl⟩ := Prod.mk.inj hc
    refine ⟨?_, h.children⟩
    have hnew : c ∉ b.captures.toList := by
      intro hmem
      have := Array.findIdx?_eq_none_iff.mp hnone c (Array.mem_toList_iff.mp hmem)
      simp at this
    simp only [Array.toList_push]
    exact List.Nodup.append h.captures (List.nodup_singleton c) (by simpa using hnew)

instance : Lasting Builder.Distinct where
  fresh _ := ⟨List.nodup_nil, by simp⟩
  same h _ captures children := ⟨captures ▸ h.captures, children ▸ h.children⟩
  emit h _ _ := ⟨h.captures, h.children⟩
  patchJump h _ _ := ⟨h.captures, h.children⟩
  capture := Builder.Distinct.capture
  child h hinner file := ⟨h.captures, Array.forall_mem_push.mpr ⟨hinner.finish file, h.children⟩⟩

end Compile

/-- In the routine of a script and in all routines in it, no variable is captured twice. -/
theorem compile_distinct {s : Script} {file : String} {debug : Bool} {r : Routine}
    (h : compile s file debug = .ok r) : r.Distinct := by
  obtain ⟨b, hb, rfl⟩ := compile_lasting Compile.Builder.Distinct h
  exact hb.finish file

end Rill

/-!
# Constant pools

A constant has one index in its routine, however often it occurs. `poolIndex` searches the pool for it. A compiler
that is asked for many constants keeps a hash table next to the pool instead, from what tells the constants apart
to their indices; the two must not drift apart. `HashedPool` is such a pool with its table: entering a value
gives the index that the search gives and leaves the table the inverse of the pool. Every pool of a compiled
routine is what is left when values are entered in this way, one after the other.
-/

namespace Rill.Compile

-- ---------------------------------------------------------------------------
-- Pools with a table of indices
-- ---------------------------------------------------------------------------

/-- A pool of constants and a table from the keys that tell them apart to their indices. -/
structure HashedPool (κ α : Type) [BEq κ] [Hashable κ] where
  entries : Array α := #[]
  index : Std.HashMap κ Nat := {}

namespace HashedPool

section Pool

variable {κ α : Type} [BEq κ] [Hashable κ] {key : α → κ} {p : HashedPool κ α}

/-- The index that the table has for a value; a value that is not there is appended and entered. -/
def enter (key : α → κ) (p : HashedPool κ α) (value : α) : Nat × HashedPool κ α :=
  match p.index[key value]? with
  | some k => (k, p)
  | none => (p.entries.size, ⟨p.entries.push value, p.index.insert (key value) p.entries.size⟩)

/-- The pool after values have been entered, one after the other. -/
def enterAll (key : α → κ) (values : List α) : HashedPool κ α :=
  values.foldl (fun p value => (p.enter key value).2) {}

theorem enterAll_snoc (values : List α) (value : α) :
    enterAll key (values ++ [value]) = ((enterAll key values).enter key value).2 := by
  simp [enterAll]

/-- The table is the inverse of the pool: it has an index for a key exactly if the entry there has that key. -/
def Mirrors (key : α → κ) (p : HashedPool κ α) : Prop :=
  ∀ x k, p.index[x]? = some k ↔ p.entries[k]?.map key = some x

/-- Two entries with the same key have the same index. -/
theorem Mirrors.unique (h : p.Mirrors key) {j k : Nat} {a b : α} (ha : p.entries[j]? = some a)
    (hb : p.entries[k]? = some b) (hkey : key a = key b) : j = k := by
  have hj : p.index[key a]? = some j := (h _ _).mpr (by rw [ha]; rfl)
  have hk : p.index[key a]? = some k := (h _ _).mpr (by rw [hb, hkey]; rfl)
  exact Option.some.inj (hj.symm.trans hk)

theorem Mirrors.nodup (h : p.Mirrors key) : (p.entries.toList.map key).Nodup := by
  rw [List.Nodup, List.pairwise_map, List.pairwise_iff_getElem]
  intro i j hi hj hlt heq
  have hentry {n : Nat} (hn : n < p.entries.toList.length) : p.entries[n]? = some p.entries.toList[n] := by
    rw [← Array.getElem?_toList, List.getElem?_eq_getElem hn]
  have hsame : i = j := h.unique (hentry hi) (hentry hj) heq
  omega

variable [LawfulBEq κ]

theorem mirrors_empty : Mirrors key ({} : HashedPool κ α) := by
  intro x k
  simp

/-- The table finds what a search of the pool finds. -/
theorem Mirrors.index_eq (h : p.Mirrors key) (value : α) :
    p.index[key value]? = p.entries.findIdx? fun entry => key value == key entry := by
  cases hfind : p.entries.findIdx? fun entry => key value == key entry with
  | some j =>
    obtain ⟨hlt, hkey, -⟩ := Array.findIdx?_eq_some_iff_getElem.mp hfind
    rw [h, Array.getElem?_eq_getElem hlt, Option.map_some, ← eq_of_beq hkey]
  | none =>
    have hnone := Array.findIdx?_eq_none_iff.mp hfind
    rw [Option.eq_none_iff_forall_ne_some]
    intro k hk
    obtain ⟨entry, hentry, hkey⟩ := Option.map_eq_some_iff.mp ((h _ _).mp hk)
    have := hnone entry (Array.mem_of_getElem? hentry)
    simp [hkey] at this

/-- Entering a value gives the index and the pool that a search of the pool gives. -/
theorem Mirrors.enter_eq (h : p.Mirrors key) (value : α) :
    ((p.enter key value).1, (p.enter key value).2.entries) =
      poolIndex (fun a b => key a == key b) p.entries value := by
  unfold enter poolIndex
  rw [h.index_eq value]
  cases p.entries.findIdx? fun entry => key value == key entry <;> rfl

/-- After a value has been entered the table is the inverse of the pool again. -/
theorem Mirrors.enter (h : p.Mirrors key) (value : α) : (p.enter key value).2.Mirrors key := by
  unfold HashedPool.enter
  cases hindex : p.index[key value]? with
  | some k => exact h
  | none =>
    intro x k
    simp only [Std.HashMap.getElem?_insert, Array.getElem?_push]
    by_cases hx : key value = x
    · -- The only index for the new key is that of the new entry.
      subst hx
      have habsent : p.entries[k]?.map key ≠ some (key value) := fun hk => by
        rw [(h _ _).mpr hk] at hindex
        cases hindex
      by_cases hk : k = p.entries.size
      · simp [hk]
      · simp [hk, habsent, Ne.symm hk]
    · by_cases hk : k = p.entries.size
      · have hfree : p.index[x]? ≠ some p.entries.size := fun hfound => by
          have := (h _ _).mp hfound
          simp at this
        simp [hx, hk, hfree]
      · simpa [hx, hk] using h x k

/-- However many values have been entered, the table is the inverse of the pool. -/
theorem enterAll_mirrors (values : List α) : (enterAll key values).Mirrors key := by
  induction values using List.reverseRecOn with
  | nil => exact mirrors_empty
  | append_singleton values value ih =>
    rw [enterAll_snoc]
    exact ih.enter value

end Pool

end HashedPool

/-- A pool is what is left when values are entered one after the other, with a table that is its inverse. -/
def Hashed {κ α : Type} [BEq κ] [Hashable κ] (key : α → κ) (pool : Array α) : Prop :=
  ∃ values, (HashedPool.enterAll key values).entries = pool ∧ (HashedPool.enterAll key values).Mirrors key

section Hashed

variable {κ α : Type} [BEq κ] [Hashable κ] {key : α → κ} {pool : Array α}

theorem Hashed.nodup (h : Hashed key pool) : (pool.toList.map key).Nodup := by
  obtain ⟨values, rfl, hmirrors⟩ := h
  exact hmirrors.nodup

variable [LawfulBEq κ]

theorem Hashed.empty : Hashed key (#[] : Array α) := ⟨[], rfl, HashedPool.enterAll_mirrors []⟩

theorem Hashed.poolIndex (h : Hashed key pool) (value : α) :
    Hashed key (poolIndex (fun a b => key a == key b) pool value).2 := by
  obtain ⟨values, rfl, hmirrors⟩ := h
  refine ⟨values ++ [value], ?_, HashedPool.enterAll_mirrors _⟩
  rw [HashedPool.enterAll_snoc, ← hmirrors.enter_eq value]

end Hashed

end Rill.Compile

namespace Rill

open Compile (Hashed)

-- ---------------------------------------------------------------------------
-- The constants of a routine
-- ---------------------------------------------------------------------------

/-- The constants of a routine, of the three kinds. Names are kept among the texts. -/
structure Pools where
  integers : Array Int64
  floats : Array Float
  strings : Array String

def Routine.pools (r : Routine) : Pools := ⟨r.integers, r.floats, r.strings⟩

def Compile.Builder.pools (b : Builder) : Pools := ⟨b.integers, b.floats, b.strings⟩

/-- No constant has two indices, and no integer is one that instructions hold themselves. Floats are told apart by
their bits. -/
structure Pools.Distinct (p : Pools) : Prop where
  integers : p.integers.toList.Nodup
  wide : ∀ n ∈ p.integers, ¬(-32768 ≤ n ∧ n ≤ 32767)
  floats : (p.floats.toList.map Float.toBits).Nodup
  strings : p.strings.toList.Nodup

/-- The pools have been filled through hash tables, which are their inverses, and with wide integers only. -/
structure Pools.Mirrored (p : Pools) : Prop where
  integers : Hashed (id : Int64 → Int64) p.integers
  wide : ∀ n ∈ p.integers, ¬(-32768 ≤ n ∧ n ≤ 32767)
  floats : Hashed Float.toBits p.floats
  strings : Hashed (id : String → String) p.strings

theorem Pools.Mirrored.distinct {p : Pools} (h : p.Mirrored) : p.Distinct where
  integers := by simpa using h.integers.nodup
  wide := h.wide
  floats := h.floats.nodup
  strings := by simpa using h.strings.nodup

/-- The pools of a routine and of those inside it have been filled through hash tables. -/
def Routine.Pooled (r : Routine) : Prop := ∀ q, Nested r q → q.pools.Mirrored

theorem Routine.Pooled.of_children {r : Routine} (h : r.pools.Mirrored)
    (hchildren : ∀ child ∈ r.children, child.Pooled) : r.Pooled :=
  Nested.forall_of_children (P := fun q => q.pools.Mirrored) h hchildren

namespace Compile

/-- The pools of a routine under construction have been filled through hash tables, and so have those of its
finished functions. -/
structure Builder.Pooled (b : Builder) : Prop where
  pools : b.pools.Mirrored
  children : ∀ child ∈ b.children, child.Pooled

theorem Builder.Pooled.finish {b : Builder} (h : b.Pooled) (file : String) : (b.finish file).Pooled :=
  .of_children h.pools h.children

theorem mem_poolIndex {α : Type} {same : α → α → Bool} {pool : Array α} {value x : α}
    (h : x ∈ (poolIndex same pool value).2) : x ∈ pool ∨ x = value := by
  unfold poolIndex at h
  split at h
  · exact .inl h
  · exact Array.mem_push.mp h

instance : Upheld Builder.Pooled where
  fresh _ := ⟨⟨.empty, by simp [Builder.pools], .empty, .empty⟩, by simp⟩
  same h tables := by
    rw [tables]
    exact ⟨h.pools, h.children⟩
  integer h n wide := by
    refine ⟨⟨h.pools.integers.poolIndex n, fun m hm => ?_, h.pools.floats, h.pools.strings⟩, h.children⟩
    rcases mem_poolIndex hm with hm | rfl
    · exact h.pools.wide m hm
    · exact wide
  float h x := ⟨{ h.pools with floats := h.pools.floats.poolIndex x }, h.children⟩
  string h s := ⟨{ h.pools with strings := h.pools.strings.poolIndex s }, h.children⟩
  emit h _ _ := ⟨h.pools, h.children⟩
  patchJump h _ _ := ⟨h.pools, h.children⟩
  capture {b b' c k} h hc := by
    unfold Builder.capture at hc
    split at hc <;> obtain ⟨rfl, rfl⟩ := Prod.mk.inj hc
    · exact h
    · exact ⟨h.pools, h.children⟩
  child h hinner file := ⟨h.pools, Array.forall_mem_push.mpr ⟨hinner.finish file, h.children⟩⟩

end Compile

/-- The pools of the routine of a script and of all routines in it have been filled through hash tables. -/
theorem compile_pooled {s : Script} {file : String} {debug : Bool} {r : Routine}
    (h : compile s file debug = .ok r) : r.Pooled := by
  obtain ⟨b, hb, rfl⟩ := compile_lasting Compile.Builder.Pooled h
  exact hb.finish file

end Rill

/-!
# What indices mean

An index is given for a constant in the middle of a compilation, and more constants follow, in the same routine
and in the functions inside it. While such a function is compiled, the routine around it waits with its
pools; afterwards it goes on with the same ones. An index stands for its constant all that time.
-/

namespace Rill.Layout

-- ---------------------------------------------------------------------------
-- What instructions refer to
-- ---------------------------------------------------------------------------

/-- What code is emitted for where it takes something from the tables of its routine. -/
inductive Mention where
  | integer (n : Int64)
  | float (x : Float)
  | text (s : String)
  | global (name : String)
  | field (name : String)
  | function (body : List Mention)

/-- An index of a pool, or of a child, with what it is used for. -/
inductive Reference where
  | integer (constant : Nat)
  | float (constant : Nat)
  | text (constant : Nat)
  | global (constant : Nat)
  | field (constant : Nat)
  | function (child : Nat)
  deriving Repr, DecidableEq

end Rill.Layout

namespace Rill

open Layout (Mention Reference)

def Slot.reference? : Slot → Option Reference
  | .global k => some (.global k)
  | .frame _ | .captured _ => none

/-- The index of a pool, or of a child, that an instruction holds. -/
def Instruction.reference? : Instruction → Option Reference
  | .pushInt k => some (.integer k)
  | .pushFloat k => some (.float k)
  | .pushStr k => some (.text k)
  | .read slot _ | .write slot | .declare slot => slot.reference?
  | .member k _ | .setMember k => some (.field k)
  | .closure k _ => some (.function k)
  | _ => none

/-- What an index stands for in the pools of a routine. -/
def Pools.mention? (p : Pools) : Reference → Option Mention
  | .integer k => p.integers[k]?.map .integer
  | .float k => p.floats[k]?.map .float
  | .text k => p.strings[k]?.map .text
  | .global k => p.strings[k]?.map .global
  | .field k => p.strings[k]?.map .field
  | .function _ => none

end Rill

namespace Rill.Compile

open Layout (Mention Reference)

variable {d d' : Draft} {k : Nat}

/-- What an index stood for in the routine being built it stands for still, and the routines around it have the
constants that they had. -/
structure Draft.Remembers (d d' : Draft) : Prop where
  builder : ∀ ref m, d.builder.pools.mention? ref = some m → d'.builder.pools.mention? ref = some m
  enclosing : List.Forall₂ (fun b b' : Builder => b'.pools = b.pools) d.enclosing d'.enclosing

theorem Builder.Kept.mention? {b b' : Builder} (h : b.Kept b') {ref : Reference} {m : Mention}
    (hm : b.pools.mention? ref = some m) : b'.pools.mention? ref = some m := by
  -- Whatever the kind of the constant, its pool is only extended.
  have hpool {α : Type} {xs ys : Array α} (hxs : xs.toList <+: ys.toList) {i : Nat} {f : α → Mention}
      (hentry : xs[i]?.map f = some m) : ys[i]?.map f = some m := by
    obtain ⟨x, hx, hf⟩ := Option.map_eq_some_iff.mp hentry
    rw [prefix_getElem? hxs hx, Option.map_some, hf]
  cases ref with
  | integer k => exact hpool h.integers hm
  | float k => exact hpool h.floats hm
  | text k | global k | field k => exact hpool h.strings hm
  | function k => cases hm

/-- A draft that grows remembers its constants. -/
theorem Grows.remembers (h : Grows d d') : d.Remembers d' :=
  ⟨fun _ _ => h.kept.mention?, h.enclosing.imp fun _ _ hb => by rw [hb.1]; rfl⟩

/-- A constant is entered into a pool of the current routine; nothing else changes. -/
theorem remembers_of_kept {b : Builder} (h : d.builder.Kept b) : d.Remembers { d with builder := b } :=
  ⟨fun _ _ => h.mention?, List.forall₂_same.mpr fun _ _ => rfl⟩

-- ---------------------------------------------------------------------------
-- Giving an index
-- ---------------------------------------------------------------------------

theorem integerConstant_remembers {n : Int64} (hd : integerConstant n d = .ok (k, d')) :
    d'.builder.pools.mention? (.integer k) = some (.integer n) ∧ d.Remembers d' := by
  unfold integerConstant at hd
  simp only [bind_ok, get_ok, modifyBuilder_ok, pure_ok] at hd
  obtain ⟨_, _, ⟨rfl, rfl⟩, _, _, rfl, rfl, rfl⟩ := hd
  have hsame : ∀ a b : Int64, (a == b) = true → b = a := by simp
  have hentry := poolIndex_entry hsame d.builder.integers n
  exact ⟨by simp only [Pools.mention?, Builder.pools, hentry, Option.map_some],
    remembers_of_kept { Builder.Kept.refl d.builder with integers := poolIndex_prefix .. }⟩

theorem floatConstant_remembers {x : Float} (hd : floatConstant x d = .ok (k, d')) :
    d'.builder.pools.mention? (.float k) = some (.float x) ∧ d.Remembers d' := by
  unfold floatConstant at hd
  simp only [bind_ok, get_ok, modifyBuilder_ok, pure_ok] at hd
  obtain ⟨_, _, ⟨rfl, rfl⟩, _, _, rfl, rfl, rfl⟩ := hd
  have hsame : ∀ a b : Float, (a.toBits == b.toBits) = true → b = a := fun a b hab =>
    (toBits_inj (by simpa using hab)).symm
  have hentry := poolIndex_entry hsame d.builder.floats x
  exact ⟨by simp only [Pools.mention?, Builder.pools, hentry, Option.map_some],
    remembers_of_kept { Builder.Kept.refl d.builder with floats := poolIndex_prefix .. }⟩

theorem stringConstant_remembers {s : String} (hd : stringConstant s d = .ok (k, d')) :
    d'.builder.pools.strings[k]? = some s ∧ d.Remembers d' := by
  unfold stringConstant at hd
  simp only [bind_ok, get_ok, modifyBuilder_ok, pure_ok] at hd
  obtain ⟨_, _, ⟨rfl, rfl⟩, _, _, rfl, rfl, rfl⟩ := hd
  have hsame : ∀ a b : String, (a == b) = true → b = a := by simp
  exact ⟨poolIndex_entry hsame d.builder.strings s,
    remembers_of_kept { Builder.Kept.refl d.builder with strings := poolIndex_prefix .. }⟩

end Rill.Compile
