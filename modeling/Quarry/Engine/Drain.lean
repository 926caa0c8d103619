import Quarry.Store.Interface

/-!
# Draining a query

A store may cut a page short of the query's limit. The query is then asked again from the end of the
page, for what is still wanted, until the store reports an end, the limit is met, or a page comes
back empty.
-/

namespace Quarry

/-- What a query has yielded so far. -/
structure Drain where
  /-- the query as it was first asked -/
  query : Query
  /-- slots still wanted, if the query has a limit -/
  remaining : Option Nat
  slots : List (Option Entity)
  batches : Nat
  deriving DecidableEq

namespace Drain

/-- Nothing yielded yet. -/
def start (q : Query) : Drain := ⟨q, q.limit, [], 0⟩

/-- Takes in a page. -/
def add (d : Drain) (p : Page) : Drain :=
  { d with
    remaining := d.remaining.map (· - p.slots.length)
    slots := d.slots ++ p.slots
    batches := d.batches + 1 }

/-- The cursor that leads on from a page just taken in. -/
def next? (d : Drain) (p : Page) : Option Cursor :=
  if p.more = .notFinished ∧ ¬ p.slots.isEmpty ∧ d.remaining ≠ some 0 then p.cursor else none

/-- The query to ask from a cursor on. The cursor is already behind what was skipped. -/
def queryFrom (d : Drain) (c : Cursor) : Query :=
  { d.query with offset := none, limit := d.remaining, start := some c }

end Drain

end Quarry
