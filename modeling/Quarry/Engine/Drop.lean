import Quarry.Journal.Scope

/-!
# Dropping a kind

All entities of a kind are deleted page by page: the keys of a page are fetched and deleted before
the next page is asked for. The drop ends with a page that holds no keys or is the last. A failure
stops it, and what was deleted stays deleted.
-/

namespace Quarry

/-- What a drop has done. -/
structure DropSummary where
  kind : String
  /-- pages deleted -/
  pages : Nat
  /-- entities deleted -/
  deleted : Nat
  deriving DecidableEq

inductive DropStage where
  | query
  | delete
  deriving DecidableEq

def DropStage.name : DropStage → String
  | .query => "query"
  | .delete => "delete"

/-- A drop that was stopped. -/
structure DropError where
  stage : DropStage
  /-- what was done before -/
  done : DropSummary
  source : StoreError
  deriving DecidableEq

namespace DropError

def code : String := "E_DROP_FAILED"

def message (e : DropError) : String :=
  code ++ ": " ++ e.stage.name ++ " failed dropping '" ++ e.done.kind ++ "' after " ++
    toString e.done.pages ++ " page(s) and " ++ toString e.done.deleted ++ " deletion(s): " ++
    e.source.message

end DropError

namespace Drop

variable {σ ε : Type}

def events : ScopeEvents := ⟨none, .dropComplete, .dropFailed⟩

/-- The query for a page of keys. -/
def pageQuery (space : Option String) (kind : String) (pageSize : Nat) (start : Option Cursor) :
    Query :=
  { Query.ofKind space kind with keysOnly := true, limit := some pageSize, start }

/-- The keys of a page. -/
def keys (p : Page) : List Key := p.slots.filterMap fun slot => slot.map Entity.key

/-- The cursor of the page after this one. -/
def next? (p : Page) : Option Cursor := if p.more.hasMore then p.cursor else none

/-- Notes that a page was deleted. -/
def note (done : DropSummary) (deleted : Nat) : Action σ ε DropSummary := do
  let done := { done with pages := done.pages + 1, deleted := done.deleted + deleted }
  Action.count .dropPages 1
  Action.count .entitiesDeleted deleted
  Action.report .info .dropPage [
    ("kind", done.kind),
    ("page", toString done.pages),
    ("deleted", toString deleted)]
  return done

/-- Fetches a page and deletes it. Yields the cursor of the next one. -/
def step (S : Store σ) (pageSize : Nat) (start : Option Cursor) (done : DropSummary) :
    Action σ DropError (DropSummary × Option Cursor) := do
  let space ← Action.inquire S.space
  let ticket ← Action.onStore (S.ask (pageQuery space done.kind pageSize start))
  let page ← (Action.attempt (S.redeem ticket)).adapt fun e => ⟨.query, done, e⟩
  let found := keys page
  if found.isEmpty then
    if page.more.hasMore then
      Action.report .warn .dropStaleCursor [
        ("kind", done.kind),
        ("pages", toString done.pages)]
    return (done, none)
  else
    (Action.attempt (S.delete found)).adapt fun e => ⟨.delete, done, e⟩
    let done ← note done found.length
    return (done, next? page)

/-- Goes from page to page, through no more of them than `patience`. -/
def pagesFrom (S : Store σ) (pageSize : Nat) :
    Nat → Option Cursor → DropSummary → Action σ DropError DropSummary
  | 0, _, done => throw ⟨.query, done, Store.endless⟩
  | patience + 1, start, done => do
    match ← step S pageSize start done with
    | (done, none) => return done
    | (done, some cursor) => pagesFrom S pageSize patience (some cursor) done

end Drop

/-- Deletes every entity of a kind. A page size of nothing counts as one. -/
def dropAll {σ : Type} (S : Store σ) (pageSize : Nat) (kind : String) :
    Action σ DropError DropSummary := do
  let pageSize := max pageSize 1
  let patience ← Action.inquire S.patience
  let scope ← Scope.enter Drop.events [("kind", kind), ("page_size", toString pageSize)]
  let done ← (Drop.pagesFrom S pageSize patience none ⟨kind, 0, 0⟩).orElseDo fun e => do
    Action.count .storeFailures 1
    scope.fail e.message
  scope.complete [("pages", toString done.pages), ("deleted", toString done.deleted)]
  return done

end Quarry
