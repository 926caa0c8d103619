import Quarry.Store.Memory

/-!
# Rehearsals

A store in memory whose course is laid down beforehand, to try a caller on events that the memory
alone never brings about. Hooks act when a call is made: they fail it, or change the memory behind
the caller's back. A script answers queries in the place of the memory. The calls are recorded in
the order in which they are made.
-/

namespace Quarry

/-- The calls that a hook can wait for. -/
inductive Call where
  | query
  | save
  | update
  | delete
  deriving DecidableEq

/-- What a hook does. -/
inductive Deed where
  | fail (error : StoreError)
  | remove (key : Key)
  | insert (entity : Entity)
  deriving DecidableEq

/-- Acts once, on the call that follows `after` others of its sort. -/
structure Hook where
  on : Call
  after : Nat
  deed : Deed
  deriving DecidableEq

structure Rehearsal where
  memory : Memory
  hooks : List Hook
  /-- answers to the next queries -/
  script : List (Except StoreError Page)
  /-- every page of the memory claims that there is more behind its limit -/
  stale : Bool
  /-- the queries that were asked -/
  calls : List Query

namespace Rehearsal

/-- Hooks that wait on come a call closer. -/
def Hook.waiting (call : Call) (h : Hook) : Option Hook :=
  if h.on ≠ call then some h else if h.after = 0 then none else some { h with after := h.after - 1 }

/-- What hooks do on a call, in their order. -/
def due (call : Call) (hooks : List Hook) : List Deed :=
  (hooks.filter fun h => h.on = call ∧ h.after = 0).map Hook.deed

/-- The first failure among deeds. -/
def failure? (deeds : List Deed) : Option StoreError :=
  deeds.findSome? fun d => match d with | .fail e => some e | _ => none

/-- The memory behind a deed. -/
def act (m : Memory) : Deed → Memory
  | .fail _ => m
  | .remove k => (m.remove k).2
  | .insert e => (m.insert e).2

/-- Fires the hooks that are due on a call. -/
def fire (call : Call) (r : Rehearsal) : Option StoreError × Rehearsal :=
  let deeds := due call r.hooks
  (failure? deeds,
    { r with
      hooks := r.hooks.filterMap (Hook.waiting call)
      memory := deeds.foldl act r.memory })

def ask (q : Query) (r : Rehearsal) : Ticket × Rehearsal :=
  match fire .query { r with calls := r.calls ++ [q] } with
  | (some e, r) => (.answered (.error e), r)
  | (none, r) =>
    match r.script with
    | answer :: rest => (.answered answer, { r with script := rest })
    | [] => (.running q, r)

/-- A page as this store hands it out. -/
def present (r : Rehearsal) (p : Page) : Page := if r.stale then { p with more := .afterLimit } else p

def redeem (t : Ticket) (r : Rehearsal) : Except StoreError Page × Rehearsal :=
  match t with
  | .answered answer => (answer, r)
  | .running q =>
    let (answer, memory) := r.memory.run q
    (answer.map r.present, { r with memory })

/-- A write: hooks first, then the memory. -/
def write {α : Type} (call : Call) (f : Memory → Except StoreError α × Memory) (r : Rehearsal) :
    Except StoreError α × Rehearsal :=
  match fire call r with
  | (some e, r) => (.error e, r)
  | (none, r) =>
    let (answer, memory) := f r.memory
    (answer, { r with memory })

/-- The rehearsal as a store. Between two answers of the script, and in the end, a caller goes
through the memory and whatever hooks insert. -/
def store : Store Rehearsal where
  space r := r.memory.space
  ask := ask
  redeem := redeem
  save es := write .save fun m => m.save es
  update es := write .update fun m => m.update es
  delete ks := write .delete fun m => m.delete ks
  patience r := (r.memory.table.entities.length + r.hooks.length + 2) * (r.script.length + 1)

end Rehearsal

end Quarry
