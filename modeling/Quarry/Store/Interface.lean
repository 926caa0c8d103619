import Quarry.Store.Error
import Quarry.Store.Query

/-!
# What a store offers

A query is put to a store in two halves. Asking it yields a ticket, and redeeming the ticket yields
the page. Whatever happens to the store in between, happens before the query is run. Writes are done
in one go.
-/

namespace Quarry

/-- A query that has been asked: still to be run, or answered at once. -/
inductive Ticket where
  | running (query : Query)
  | answered (answer : Except StoreError Page)

/-- A store with states `σ`. -/
structure Store (σ : Type) where
  /-- the namespace of all keys and queries -/
  space : σ → Option String
  /-- asks a query -/
  ask : Query → σ → Ticket × σ
  /-- redeems a ticket -/
  redeem : Ticket → σ → Except StoreError Page × σ
  /-- stores entities, giving ids to keys that lack one, and answers with the final keys -/
  save : List Entity → σ → Except StoreError (List Key) × σ
  /-- overwrites entities, all of which have to be there -/
  update : List Entity → σ → Except StoreError Unit × σ
  /-- deletes the entities of these keys, as far as there are any -/
  delete : List Key → σ → Except StoreError Unit × σ
  /-- a number of pages that no caller following cursors has to exceed to reach the end -/
  patience : σ → Nat

namespace Store

/-- The failure of a store whose cursors come to no end. -/
def endless : StoreError := .unavailable "cursors come to no end"

end Store

end Quarry
