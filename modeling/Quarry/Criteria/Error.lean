import Quarry.Json.Printer

/-!
# Rejected criteria

Criteria are rejected for their form, for a field, or for an operator that no store query can
express. The first two share a code.
-/

namespace Quarry

open Json

/-- How branches are combined. -/
inductive Combinator where
  | and
  | or
  deriving DecidableEq

def Combinator.name : Combinator → String
  | .and => "and"
  | .or => "or"

/-- A defect of the criteria as a whole. -/
inductive Defect where
  | notAnObject
  | unknownKey (key : String)
  | whereNotAnObject
  | branchesNotAnArray (combinator : Combinator)
  | noBranches
  | sortShape
  | sortEntry
  | sortClause (clause : String)
  | count (name : String)
  | selectShape
  | selectEntry
  | stated (reason : String)
  deriving DecidableEq

def Defect.message : Defect → String
  | notAnObject => "criteria must be a JSON object"
  | unknownKey key => "unknown criteria key '" ++ key ++ "'"
  | whereNotAnObject => "where must be an object"
  | branchesNotAnArray combinator => combinator.name ++ " must be an array"
  | noBranches => "or requires at least one branch"
  | sortShape => "sort must be a string, object or array"
  | sortEntry => "sort entries must be strings or objects"
  | sortClause clause => "malformed sort clause '" ++ clause ++ "'"
  | count name => name ++ " must be a non-negative integer"
  | selectShape => "select must be an array of field names"
  | selectEntry => "select entries must be strings"
  | stated reason => reason

/-- A defect in what is said of one field. -/
inductive FieldDefect where
  | noOperators
  | listExpected (operator : String)
  | noValues (operator : String)
  | sortDirection
  | notAnId (value : Value)
  | keyIsFixed (name : String)
  | stated (reason : String)
  deriving DecidableEq

def FieldDefect.message : FieldDefect → String
  | noOperators => "empty operator object"
  | listExpected operator => "'" ++ operator ++ "' requires an array"
  | noValues operator => "'" ++ operator ++ "' requires at least one value"
  | sortDirection => "sort direction must be a string or number"
  | notAnId value => "primary key value " ++ value.text ++ " is not an id or name"
  | keyIsFixed name => "primary key '" ++ name ++ "' cannot be updated"
  | stated reason => reason

/-- Why criteria are rejected. -/
inductive CriteriaError where
  | unsupported (field operator : String)
  | malformed (defect : Defect)
  | badField (field : String) (defect : FieldDefect)
  deriving DecidableEq

namespace CriteriaError

def code : CriteriaError → String
  | unsupported .. => "E_UNSUPPORTED_OPERATOR"
  | malformed _ => "E_QUERY_INVALID"
  | badField .. => "E_QUERY_INVALID"

def message : CriteriaError → String
  | unsupported field operator =>
    "Operator '" ++ operator ++ "' on field '" ++ field ++ "' is not supported"
  | malformed defect => defect.message
  | badField field defect => "Field '" ++ field ++ "': " ++ defect.message

def field? : CriteriaError → Option String
  | unsupported field _ => some field
  | malformed _ => none
  | badField field _ => some field

def operator? : CriteriaError → Option String
  | unsupported _ operator => some operator
  | malformed _ => none
  | badField .. => none

/-- The message behind the code. -/
def text (e : CriteriaError) : String := e.code ++ ": " ++ e.message

end CriteriaError

end Quarry
