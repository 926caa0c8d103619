/-!
# Store failures

What a store answers instead of a result, in its own words.
-/

namespace Quarry

inductive StoreError where
  | queryFailed (reason : String)
  | writeFailed (reason : String)
  | deleteFailed (reason : String)
  | notFound (key : String)
  | invalidCursor (reason : String)
  | unavailable (reason : String)
  deriving DecidableEq

namespace StoreError

def code : StoreError → String
  | queryFailed _ => "E_STORE_QUERY"
  | writeFailed _ => "E_STORE_WRITE"
  | deleteFailed _ => "E_STORE_DELETE"
  | notFound _ => "E_STORE_NOT_FOUND"
  | invalidCursor _ => "E_STORE_CURSOR"
  | unavailable _ => "E_STORE_UNAVAILABLE"

def message : StoreError → String
  | queryFailed reason => "Query failed: " ++ reason
  | writeFailed reason => "Write failed: " ++ reason
  | deleteFailed reason => "Delete failed: " ++ reason
  | notFound key => "Entity not found: " ++ key
  | invalidCursor reason => "Invalid cursor: " ++ reason
  | unavailable reason => "Store unavailable: " ++ reason

end StoreError

end Quarry
