-- SUMMARY: Equality and order of values, and stable sorting.
import Rill.Heap

/-!
# Comparison

Numbers, texts and containers are equal by what they hold, other objects only to themselves. Numbers,
texts, booleans and lists are ordered. A comparison of containers that contain themselves need not end;
it is cut off once more pairs of objects are open than there are, because then one of them recurs.
-/

namespace Rill.Heap

-- ---------------------------------------------------------------------------
-- Equality
-- ---------------------------------------------------------------------------

/-- Equality of values of which at most one is an object. -/
def scalarEquals : Value → Value → Bool
  | .null, .null => true
  | .bool a, .bool b => a == b
  | .int a, .int b => a == b
  | .float a, .float b => a == b
  | .int a, .float b | .float b, .int a => widen a == b
  | .text a, .text b => a == b
  | _, _ => false

/-- A test holds of everything in a list; the first element that decides ends the test. -/
def allDecided (test : α → Option Bool) : List α → Option Bool
  | [] => some true
  | a :: rest =>
    match test a with
    | some true => allDecided test rest
    | decided => decided

/-- Equality of contents, given equality of the values in them. -/
def contentEquals (equal : Value → Value → Option Bool) : Content → Content → Option Bool
  | .list x, .list y =>
    if x.size = y.size then allDecided (fun (a, b) => equal a b) (x.zip y).toList else some false
  | .table x, .table y =>
    if x.size = y.size then
      allDecided (fun (key, v) => (y.find? key).elim (some false) (equal v)) x.entries.toList
    else some false
  | .set x, .set y => some (x.size = y.size && x.all y.contains)
  | .array x, .array y => some (x.equals y)
  | _, _ => some false

/-- Equality with at most `fuel` pairs of objects open; undecided beyond that. -/
def equalsWithin (h : Heap) : Nat → Value → Value → Option Bool
  | fuel, a, b =>
    match h.resolve a, h.resolve b with
    | .object i, .object j =>
      if i = j then some true
      else
        match fuel with
        | 0 => none
        | fuel + 1 =>
          match h.content? i, h.content? j with
          | some x, some y => contentEquals (equalsWithin h fuel) x y
          | _, _ => some false
    | a, b => some (scalarEquals a b)

/-- More pairs than there are pairs of different objects. -/
def pairBound (h : Heap) : Nat := h.objects.size * h.objects.size + 1

/-- Two values are equal. -/
def equals (h : Heap) (a b : Value) : Except Failure Bool :=
  match h.equalsWithin h.pairBound a b with
  | some decided => .ok decided
  | none => .error Fault.endless

-- ---------------------------------------------------------------------------
-- Order
-- ---------------------------------------------------------------------------

/-- The order of two floats, if neither is nan. -/
def floatOrder (a b : Float) : Option Ordering :=
  if a < b then some .lt else if a > b then some .gt else if a == b then some .eq else none

/-- The first pair that differs orders two lists; without one the shorter list comes first. -/
def listOrder (order : Value → Value → Except Failure (Option Ordering)) :
    List Value → List Value → Except Failure (Option Ordering)
  | [], [] => .ok (some .eq)
  | [], _ :: _ => .ok (some .lt)
  | _ :: _, [] => .ok (some .gt)
  | a :: x, b :: y => do
    match ← order a b with
    | some .eq => listOrder order x y
    | decided => return decided

/-- The order with at most `fuel` pairs of lists open. No order is given to nan. -/
def orderWithin (h : Heap) : Nat → Value → Value → Except Failure (Option Ordering)
  | fuel, a, b =>
    let incomparable : Failure := Fault.invalidOperands "<=>" (h.typeName a) (h.typeName b)
    match h.resolve a, h.resolve b with
    | .int a, .int b => .ok (some (compare a b))
    | .float a, .float b => .ok (floatOrder a b)
    | .int a, .float b => .ok (floatOrder (widen a) b)
    | .float a, .int b => .ok (floatOrder a (widen b))
    | .text a, .text b => .ok (some (compare a b))
    | .bool a, .bool b => .ok (some (compare a b))
    | .object i, .object j =>
      match h.content? i, h.content? j with
      | some (.list x), some (.list y) =>
        match fuel with
        | 0 => .error Fault.endless
        | fuel + 1 => listOrder (orderWithin h fuel) x.toList y.toList
      | _, _ => .error incomparable
    | _, _ => .error incomparable

section Objects

variable {h : Heap} {n : Nat} {a b : Value} {i j : ObjectId}

theorem resolve_object : h.resolve (.object i) = .object i := rfl

theorem typeName_object (ha : h.resolve a = .object i) : h.typeName a = h.typeName (.object i) := by
  simp only [typeName, classOf, ha, resolve_object]

/-- Values that refer to objects are compared as these objects. -/
theorem equalsWithin_objects (ha : h.resolve a = .object i) (hb : h.resolve b = .object j) :
    h.equalsWithin n a b = h.equalsWithin n (.object i) (.object j) := by
  cases n <;> simp only [equalsWithin, ha, hb, resolve_object]

theorem orderWithin_objects (ha : h.resolve a = .object i) (hb : h.resolve b = .object j) :
    h.orderWithin n a b = h.orderWithin n (.object i) (.object j) := by
  cases n <;> simp only [orderWithin, ha, hb, resolve_object, typeName_object ha, typeName_object hb]

end Objects

/-- The order of two values. -/
def order (h : Heap) (a b : Value) : Except Failure (Option Ordering) :=
  h.orderWithin h.pairBound a b

-- ---------------------------------------------------------------------------
-- Sorting
-- ---------------------------------------------------------------------------

-- Values are sorted by insertion: each is moved to the left past those that it comes before, so that equal
-- values keep their order. Two values without an order stay where they are; if comparing two values fails,
-- so does the sort, after it has gone through all values.

/-- How two values are compared. -/
abbrev Comparison := Value → Value → Except Failure (Option Ordering)

/-- Puts a value behind the last one that it does not come before. The values put so far and the result
are backwards; the first failure is kept. -/
def place (compare : Comparison) (v : Value) : List Value → Option Failure → List Value × Option Failure
  | [], failure => ([v], failure)
  | w :: before, failure =>
    match compare v w with
    | .ok (some .lt) =>
      let (placed, failure) := place compare v before failure
      (w :: placed, failure)
    | .ok _ => (v :: w :: before, failure)
    | .error e => (v :: w :: before, failure <|> some e)

/-- The values in order, and the first failure of a comparison. -/
def sorted (compare : Comparison) (items : List Value) : List Value × Option Failure :=
  let (backwards, failure) :=
    items.foldl (fun (placed, failure) v => place compare v placed failure) ([], none)
  (backwards.reverse, failure)

/-- No value comes before the one to its left. -/
def isSorted (compare : Comparison) : List Value → Except Failure Bool
  | a :: b :: rest => do
    if (← compare a b) = some .gt then return false
    isSorted compare (b :: rest)
  | _ => .ok true

end Rill.Heap
