import Quarry.Store.Bisect
import Quarry.Store.Cursor
import Quarry.Store.Filter
import Quarry.Store.Interface
import Quarry.Store.Order
import Quarry.Store.Table

/-!
# A store in memory

Results come in pages of a bounded size. Results in key order go on behind the last key of a page,
so that entities deleted between pages shift nothing; sorted results go on at an index. An equality
filter on the key is answered by looking the key up. Keys without an id get the next number. The
queries that were run are logged, and failures can be ordered in advance.
-/

namespace Quarry

/-- Failures that are due: of the next queries, writes and deletions. -/
structure Faults where
  queries : Nat
  writes : Nat
  deletes : Nat
  deriving DecidableEq

def Faults.none : Faults := ⟨0, 0, 0⟩

structure Memory where
  space : Option String
  /-- the most entities in one page -/
  cap : Nat
  cap_pos : 0 < cap
  table : Table
  /-- the next number to give away -/
  nextId : Int64
  faults : Faults
  log : List Query
  deriving DecidableEq

namespace Memory

def defaultCap : Nat := 1000

/-- An empty store. A cap of nothing counts as one. -/
def empty (space : Option String) (cap : Nat) : Memory :=
  ⟨space, max cap 1, by omega, .empty, 1, .none, []⟩

/-! ## Direct access -/

def get? (m : Memory) (k : Key) : Option Entity := m.table.get? k

/-- The number of entities of a kind in the store's namespace. -/
def count (m : Memory) (kind : String) : Nat :=
  m.table.entities.countP fun e => e.key.space == m.space && e.key.kind == kind

/-- The key under which an entity is stored. The next number goes to a key that lacks an id. -/
def completeKey (k : Key) (m : Memory) : Except StoreError Key × Memory :=
  if k.path.isEmpty then (.error (.writeFailed "key has an empty path"), m)
  else if k.isComplete then (.ok k, m)
  else (.ok (k.completeWith (.number m.nextId)), { m with nextId := m.nextId + 1 })

/-- Stores one entity. -/
def insert (e : Entity) (m : Memory) : Except StoreError Key × Memory :=
  match completeKey e.key m with
  | (.error err, m) => (.error err, m)
  | (.ok k, m) => (.ok k, { m with table := m.table.insert { e with key := k } })

/-- Removes one entity. False if there is none. -/
def remove (k : Key) (m : Memory) : Bool × Memory :=
  ((m.get? k).isSome, { m with table := m.table.erase k })

/-! ## Queries -/

/-- The entities that a query matches, in its order. -/
def matching (q : Query) (m : Memory) : List Entity :=
  Order.sort q.orders (m.table.entities.filter fun e => q.covers e.key && q.satisfiedBy e)

/-- The index of the results at which a query starts. -/
def startIndex (q : Query) (results : List Entity) : Except StoreError Nat :=
  match q.start with
  | none => .ok 0
  | some cursor =>
    match Position.decode cursor with
    | .error reason => .error (.invalidCursor reason)
    | .ok (.after k) =>
      let notAfter (i : Nat) : Bool := (results[i]?).any fun e => (compare e.key k).isLE
      .ok (bisect notAfter 0 results.length)
    | .ok (.index i) => .ok (min i results.length)

/-- The page of the results from an index on. -/
def pageAt (cap : Nat) (q : Query) (results : List Entity) (start : Nat) : Page :=
  let first := min (start + q.offset.getD 0) results.length
  let size := match q.limit with | some limit => min limit cap | none => cap
  let last := min (first + size) results.length
  let batch := (results.drop first).take (last - first)
  { slots := batch.map fun e => some (q.shape e)
    cursor :=
      match batch.getLast? with
      | none => q.start
      | some e => some (if q.orders.isEmpty then Position.after e.key else .index last).encode
    more :=
      if last = results.length then .exhausted
      else if q.limit = some (last - first) then .afterLimit
      else .notFinished }

/-- The answer to a query for one key: the entity, an empty slot if there is none, or no slot if it
fails a filter. -/
def lookup (q : Query) (k : Key) (m : Memory) : Page :=
  if 0 < q.offset.getD 0 || k.kind != q.kind then .last []
  else
    match m.get? k with
    | none => .last [none]
    | some e => if q.satisfiedBy e then .last [some (q.shape e)] else .last []

/-- The page that answers a query. -/
def answer (q : Query) (m : Memory) : Except StoreError Page :=
  match q.keyLookup?, q.start with
  | some k, none => .ok (m.lookup q k)
  | _, _ =>
    let results := m.matching q
    (startIndex q results).map (pageAt m.cap q results)

/-- Runs a query, unless a failure is due. -/
def run (q : Query) (m : Memory) : Except StoreError Page × Memory :=
  let m := { m with log := m.log ++ [q] }
  match m.faults.queries with
  | n + 1 =>
    (.error (.queryFailed ("injected failure on kind '" ++ q.kind ++ "'")),
      { m with faults := { m.faults with queries := n } })
  | 0 => (m.answer q, m)

/-! ## Writes -/

/-- The failure that was ordered for a write. -/
def injected : String := "injected failure"

/-- Stores entities one after another. Those before one that fails remain. -/
def insertAll : List Entity → Memory → Except StoreError (List Key) × Memory
  | [], m => (.ok [], m)
  | e :: rest, m =>
    match insert e m with
    | (.error err, m) => (.error err, m)
    | (.ok k, m) =>
      match insertAll rest m with
      | (.error err, m) => (.error err, m)
      | (.ok ks, m) => (.ok (k :: ks), m)

def save (es : List Entity) (m : Memory) : Except StoreError (List Key) × Memory :=
  match m.faults.writes with
  | n + 1 => (.error (.writeFailed injected), { m with faults := { m.faults with writes := n } })
  | 0 => insertAll es m

/-- Overwrites entities, if all of them are there. -/
def update (es : List Entity) (m : Memory) : Except StoreError Unit × Memory :=
  match m.faults.writes with
  | n + 1 => (.error (.writeFailed injected), { m with faults := { m.faults with writes := n } })
  | 0 =>
    match es.find? fun e => (m.get? e.key).isNone with
    | some missing => (.error (.notFound missing.key.text), m)
    | none => (.ok (), { m with table := m.table.insertAll es })

def delete (ks : List Key) (m : Memory) : Except StoreError Unit × Memory :=
  match m.faults.deletes with
  | n + 1 =>
    (.error (.deleteFailed injected), { m with faults := { m.faults with deletes := n } })
  | 0 => (.ok (), { m with table := m.table.eraseAll ks })

/-! ## As a store -/

/-- Redeems a ticket by running its query now. -/
def redeem (t : Ticket) (m : Memory) : Except StoreError Page × Memory :=
  match t with
  | .running q => m.run q
  | .answered answer => (answer, m)

/-- The memory as a store. Every page but the last of a query has an entity of its own. -/
def store : Store Memory where
  space m := m.space
  ask q m := (.running q, m)
  redeem := redeem
  save := save
  update := update
  delete := delete
  patience m := m.table.entities.length + 1

end Memory

end Quarry
