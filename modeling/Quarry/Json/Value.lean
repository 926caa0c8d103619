import Quarry.Json.Number

/-!
# JSON values

Objects are lists of members in the order written. Equality of values, `Value.same`, ignores that
order and follows `Number.same` on numbers. Two orders are kept apart: `Value.compare?` is partial
and only compares values of one scalar kind, as range filters do; `Value.sortCompare` is total, as
sorting needs it.
-/

namespace Quarry.Json

inductive Value where
  | null
  | bool (b : Bool)
  | number (n : Number)
  | string (s : String)
  | array (items : List Value)
  | object (members : List (String × Value))
  deriving Inhabited

namespace Value

/-! ## Identity -/

mutual

/-- Identity of values, order of members included. -/
def beq : Value → Value → Bool
  | null, null => true
  | bool a, bool b => a == b
  | number a, number b => decide (a = b)
  | string a, string b => a == b
  | array a, array b => beqItems a b
  | object a, object b => beqMembers a b
  | _, _ => false

def beqItems : List Value → List Value → Bool
  | [], [] => true
  | a :: as, b :: bs => a.beq b && beqItems as bs
  | _, _ => false

def beqMembers : List (String × Value) → List (String × Value) → Bool
  | [], [] => true
  | (k, a) :: as, (l, b) :: bs => k == l && a.beq b && beqMembers as bs
  | _, _ => false

end

mutual

theorem beq_iff : ∀ a b : Value, a.beq b = true ↔ a = b
  | null, b => by cases b <;> simp [beq]
  | bool a, b => by cases b <;> simp [beq]
  | number a, b => by cases b <;> simp [beq]
  | string a, b => by cases b <;> simp [beq]
  | array as, b => by cases b <;> simp [beq, beqItems_iff as]
  | object as, b => by cases b <;> simp [beq, beqMembers_iff as]

theorem beqItems_iff : ∀ as bs : List Value, beqItems as bs = true ↔ as = bs
  | [], bs => by cases bs <;> simp [beqItems]
  | a :: as, bs => by cases bs <;> simp [beqItems, beq_iff a, beqItems_iff as]

theorem beqMembers_iff : ∀ as bs : List (String × Value), beqMembers as bs = true ↔ as = bs
  | [], bs => by cases bs <;> simp [beqMembers]
  | (k, a) :: as, bs => by
    cases bs with
    | nil => simp [beqMembers]
    | cons b bs => cases b; simp [beqMembers, beq_iff a, beqMembers_iff as, and_assoc]

end

instance : DecidableEq Value := fun a b => decidable_of_iff _ (beq_iff a b)

/-! ## Equality -/

mutual

/-- Equality of JSON values: members may stand in any order, numbers follow `Number.same`. -/
def same : Value → Value → Bool
  | null, null => true
  | bool a, bool b => a == b
  | number a, number b => a.same b
  | string a, string b => a == b
  | array a, array b => sameItems a b
  | object a, object b => a.length == b.length && sameMembers a b
  | _, _ => false

def sameItems : List Value → List Value → Bool
  | [], [] => true
  | a :: as, b :: bs => a.same b && sameItems as bs
  | _, _ => false

/-- Every member of the first has an equal member of its name in the second. -/
def sameMembers : List (String × Value) → List (String × Value) → Bool
  | [], _ => true
  | (name, a) :: as, bs =>
    (match bs.lookup name with
      | some b => a.same b
      | none => false) && sameMembers as bs

end

/-! ## Order -/

def isNull : Value → Bool
  | null => true
  | _ => false

/-- Order within one scalar kind: numbers, strings by code point, and `false` before `true`. Values
of different kinds, and all others, do not compare. -/
def compare? : Value → Value → Option Ordering
  | number a, number b => some (a.compareExact b)
  | string a, string b => some (compare a b)
  | bool a, bool b => some (compare a b)
  | _, _ => none

/-- The place of a value's kind in the sort order. -/
def rank : Value → Nat
  | null => 0
  | bool _ => 1
  | number _ => 2
  | string _ => 3
  | array _ => 4
  | object _ => 5

/-- The sort order: null, booleans, numbers, strings, arrays, objects. Numbers compare as doubles;
two arrays, and two objects, are level. -/
def sortCompare : Value → Value → Ordering
  | bool a, bool b => compare a b
  | number a, number b => a.compareRounded b
  | string a, string b => compare a b
  | a, b => compare a.rank b.rank

/-! ## Construction and access -/

def ofNat (n : Nat) : Value := number (Number.ofNat n)

def ofOption {α : Type} (f : α → Value) : Option α → Value
  | none => null
  | some a => f a

/-- The value of the member of this name. -/
def member? : Value → String → Option Value
  | object members, name => members.lookup name
  | _, _ => none

end Value

end Quarry.Json
