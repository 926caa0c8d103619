import Quarry.Comparison
import Quarry.Criteria.Error

/-!
# Criteria

A clause is a tree of tests on fields under conjunctions and disjunctions. Criteria add a sort
order, a limit, a number of entities to skip, and a selection of fields. The limit holds for each
store query that the criteria become.
-/

namespace Quarry

open Json

/-- What a clause asks of one field. Only comparisons and `oneOf` can be put to a store. -/
inductive Test where
  | compare (op : Comparison) (value : Value)
  | oneOf (values : List Value)
  | noneOf (values : List Value)
  | like (value : Value)
  | contains (value : Value)
  | startsWith (value : Value)
  | endsWith (value : Value)
  deriving DecidableEq

namespace Test

/-- The operator's name in criteria and errors. -/
def operator : Test → String
  | compare op _ => op.symbol
  | oneOf _ => "in"
  | noneOf _ => "nin"
  | like _ => "like"
  | contains _ => "contains"
  | startsWith _ => "startsWith"
  | endsWith _ => "endsWith"

def isSupported : Test → Bool
  | compare .. => true
  | oneOf _ => true
  | _ => false

/-- The operand, a list of values standing as an array. -/
def operand : Test → Value
  | compare _ v => v
  | oneOf vs => .array vs
  | noneOf vs => .array vs
  | like v => v
  | contains v => v
  | startsWith v => v
  | endsWith v => v

end Test

/-- A tree of tests. A conjunction of nothing matches everything. -/
inductive Clause where
  | all (children : List Clause)
  | any (children : List Clause)
  | test (field : String) (test : Test)
  deriving Inhabited

namespace Clause

/-- The clause that matches everything. -/
def everything : Clause := all []

def equals (field : String) (value : Value) : Clause := test field (.compare .eq value)

/-- The clause is the conjunction of nothing. -/
def isEverything : Clause → Bool
  | all [] => true
  | _ => false

end Clause

inductive Direction where
  | ascending
  | descending
  deriving DecidableEq

namespace Direction

def lowerAscii (c : Char) : Char := if 'A' ≤ c && c ≤ 'Z' then Char.ofNat (c.toNat + 32) else c

/-- `asc`, with ASCII letters of either case, is ascending. Any other text is descending. -/
def ofText (s : String) : Direction :=
  if s.toList.map lowerAscii = ['a', 's', 'c'] then ascending else descending

def text : Direction → String
  | ascending => "ASC"
  | descending => "DESC"

end Direction

/-- One sort clause. -/
structure Sorting where
  field : String
  direction : Direction
  deriving DecidableEq

/-- The fields to return. -/
inductive Selection where
  | everything
  | fields (names : List String)
  deriving DecidableEq

structure Criteria where
  clause : Clause
  sort : List Sorting
  limit : Option Nat
  skip : Option Nat
  select : Selection

/-- Criteria that match everything, unsorted and without bounds. -/
def Criteria.everything : Criteria := ⟨.everything, [], none, none, .everything⟩

end Quarry
