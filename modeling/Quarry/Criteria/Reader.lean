import Quarry.Criteria.Clause
import Quarry.Text.Blank

/-!
# Criteria in JSON

Members of a where object are joined by conjunction. A member `and` or `or` holds an array of
branches; any other names a field, and a scalar asks for equality, an array for one of its items,
and an object applies each of its operators. A conjunction of one is that one. Faults are found in
document order and the first one is reported.
-/

namespace Quarry

open Json

namespace Clause

/-- A conjunction, or its only child. -/
def conjunction : List Clause → Clause
  | [c] => c
  | cs => all cs

/-- The items under an operator that takes a list. -/
def readList (field operator : String) : Value → Except CriteriaError (List Value)
  | .array [] => .error (.badField field (.noValues operator))
  | .array items => .ok items
  | _ => .error (.badField field (.listExpected operator))

/-- What one operator asks of a field. -/
def readOperator (field operator : String) (operand : Value) : Except CriteriaError Test :=
  match operator with
  | "=" | "eq" => .ok (.compare .eq operand)
  | "!=" | "ne" | "not" => .ok (.compare .ne operand)
  | "<" | "lt" => .ok (.compare .lt operand)
  | "<=" | "lte" => .ok (.compare .le operand)
  | ">" | "gt" => .ok (.compare .gt operand)
  | ">=" | "gte" => .ok (.compare .ge operand)
  | "in" => (readList field operator operand).map .oneOf
  | "nin" => (readList field operator operand).map .noneOf
  | "like" => .ok (.like operand)
  | "contains" => .ok (.contains operand)
  | "startsWith" => .ok (.startsWith operand)
  | "endsWith" => .ok (.endsWith operand)
  | _ => .error (.unsupported field operator)

/-- What a member asks of the field it names. -/
def readField (field : String) : Value → Except CriteriaError Clause
  | .array items => (readList field "in" (.array items)).map fun vs => test field (.oneOf vs)
  | .object [] => .error (.badField field .noOperators)
  | .object operators => do
    let tests ← operators.mapM fun o => readOperator field o.1 o.2
    return conjunction (tests.map (test field))
  | scalar => .ok (equals field scalar)

mutual

/-- The clause of a where value. Null matches everything. -/
def read : Value → Except CriteriaError Clause
  | .null => .ok everything
  | .object members => (readMembers members).map conjunction
  | _ => .error (.malformed .whereNotAnObject)

def readMembers : List (String × Value) → Except CriteriaError (List Clause)
  | [] => .ok []
  | (name, v) :: rest => do
    let first ← readMember name v
    let more ← readMembers rest
    return first :: more

def readMember (name : String) (v : Value) : Except CriteriaError Clause :=
  if name = "and" then
    match v with
    | .array items => (readBranches items).map all
    | _ => .error (.malformed (.branchesNotAnArray .and))
  else if name = "or" then
    match v with
    | .array [] => .error (.malformed .noBranches)
    | .array items => (readBranches items).map any
    | _ => .error (.malformed (.branchesNotAnArray .or))
  else readField name v

def readBranches : List Value → Except CriteriaError (List Clause)
  | [] => .ok []
  | v :: rest => do
    let first ← read v
    let more ← readBranches rest
    return first :: more

end

end Clause

namespace Sorting

/-- One clause of a sort text: a field and perhaps a direction, ascending if there is none. The
clause is not blank. -/
def ofClause (clause : List Char) : Except CriteriaError Sorting :=
  match Text.words clause with
  | [field] => .ok ⟨String.ofList field, .ascending⟩
  | [field, direction] => .ok ⟨String.ofList field, .ofText (String.ofList direction)⟩
  | _ => .error (.malformed (.sortClause (String.ofList clause)))

/-- A sort text: clauses between commas, blank ones left out. -/
def ofText (s : String) : Except CriteriaError (List Sorting) :=
  (((Text.splitWhere (· = ',') s.toList).map Text.trim).filter fun c => !c.isEmpty).mapM ofClause

/-- A direction is a text, or a number, of which the integer one is ascending. -/
def readDirection (field : String) : Value → Except CriteriaError Direction
  | .string s => .ok (.ofText s)
  | .number n => .ok (if n.toInt64? = some 1 then .ascending else .descending)
  | _ => .error (.badField field .sortDirection)

def ofMembers (members : List (String × Value)) : Except CriteriaError (List Sorting) :=
  members.mapM fun m => (readDirection m.1 m.2).map fun d => ⟨m.1, d⟩

def readEntry : Value → Except CriteriaError (List Sorting)
  | .string s => ofText s
  | .object members => ofMembers members
  | _ => .error (.malformed .sortEntry)

/-- A sort order: a text, an object of directions, or an array of these. -/
def read : Value → Except CriteriaError (List Sorting)
  | .null => .ok []
  | .string s => ofText s
  | .object members => ofMembers members
  | .array items => (items.mapM readEntry).map List.flatten
  | _ => .error (.malformed .sortShape)

end Sorting

/-- A limit or a number to skip. -/
def readCount (name : String) : Value → Except CriteriaError (Option Nat)
  | .null => .ok none
  | .number n =>
    match n.toNat? with
    | some count => .ok (some count)
    | none => .error (.malformed (.count name))
  | _ => .error (.malformed (.count name))

namespace Selection

/-- No name, and the name `*` among others, select everything. -/
def ofNames (names : List String) : Selection :=
  if names.isEmpty || names.contains "*" then everything else fields names

def readName : Value → Except CriteriaError String
  | .string s => .ok s
  | _ => .error (.malformed .selectEntry)

def read : Value → Except CriteriaError Selection
  | .null => .ok everything
  | .string s => .ok (ofNames [s])
  | .array items => (items.mapM readName).map ofNames
  | _ => .error (.malformed .selectShape)

end Selection

namespace Criteria

/-- Takes in one member of a criteria object. -/
def readMember (c : Criteria) (name : String) (v : Value) : Except CriteriaError Criteria :=
  match name with
  | "where" => (Clause.read v).map fun clause => { c with clause }
  | "sort" => (Sorting.read v).map fun sort => { c with sort }
  | "limit" => (readCount "limit" v).map fun limit => { c with limit }
  | "skip" => (readCount "skip" v).map fun skip => { c with skip }
  | "select" => (Selection.read v).map fun select => { c with select }
  | _ => .error (.malformed (.unknownKey name))

/-- The criteria that a JSON object writes. -/
def read : Value → Except CriteriaError Criteria
  | .object members => members.foldlM (fun c m => c.readMember m.1 m.2) everything
  | _ => .error (.malformed .notAnObject)

end Criteria

end Quarry
