import Quarry.Session

/-!
# Tasks side by side

A group runs its tasks on one thread. A task is run until it suspends, comes to an end, or fails,
and the group is run in turns. In a turn of a small group every open task is run once, in the order
of the tasks, and a failure ends the group at once. A group of more than thirty tasks keeps the open
ones in a queue. A turn runs them from the head, a task that suspends goes to the tail, and the turn
is over when two tasks have suspended with no other coming to an end in between. A failure ends such
a group only when all tasks before the failed one have succeeded. Until then the others go on.
-/

namespace Quarry

/-- Where a run leaves a task. -/
inductive Progress (τ ρ : Type) where
  | suspended (task : τ)
  | ended (result : ρ)

/-- How tasks of one sort are run. -/
structure Work (σ τ ρ ε : Type) where
  /-- runs the task of a place -/
  run : Nat → τ → Action σ ε (Progress τ ρ)
  /-- what is done when an open task is given up -/
  leave : τ → Action σ ε Unit

/-- A group under way. Tasks are known by their places. -/
structure TaskGroup (τ ρ ε : Type) where
  /-- the open tasks, the next to be run first -/
  queue : List (Nat × τ)
  /-- what has become of each task -/
  outcomes : List (Option (Except ε ρ))

namespace TaskGroup

variable {σ τ ρ ε : Type}

/-- The size up to which a group is small. -/
def smallSize : Nat := 30

/-- All tasks open. -/
def start (tasks : List τ) : TaskGroup τ ρ ε :=
  ⟨tasks.zipIdx.map fun (t, place) => (place, t), tasks.map fun _ => none⟩

def isDone (g : TaskGroup τ ρ ε) : Bool := g.queue.isEmpty

/-- The results there are, in the order of the tasks. -/
def results (g : TaskGroup τ ρ ε) : List ρ :=
  g.outcomes.filterMap fun
    | some (.ok r) => some r
    | _ => none

/-- The first failure among outcomes, if all outcomes before it are known and none is missing. -/
def failure? : List (Option (Except ε ρ)) → Option ε
  | some (.ok _) :: rest => failure? rest
  | some (.error e) :: _ => some e
  | none :: _ => none
  | [] => none

/-- Gives up tasks. -/
def leaveAll (W : Work σ τ ρ ε) (tasks : List (Nat × τ)) : Action σ ε Unit :=
  tasks.forM fun (_, t) => W.leave t

/-! ## Small groups -/

/-- Runs every task once, those of `before` having been run. -/
def round (W : Work σ τ ρ ε) (outcomes : List (Option (Except ε ρ))) (before : List (Nat × τ)) :
    List (Nat × τ) → Action σ ε (TaskGroup τ ρ ε)
  | [] => return ⟨before, outcomes⟩
  | (place, t) :: rest => do
    match ← (W.run place t).orElseDo fun _ => leaveAll W (before ++ rest) with
    | .suspended t => round W outcomes (before ++ [(place, t)]) rest
    | .ended r => round W (outcomes.set place (some (.ok r))) before rest

/-! ## Large groups -/

/-- Runs tasks from the head of the queue until one has come to an end or failed, or `n` have
suspended. Tells if it was the former. -/
def runSome (W : Work σ τ ρ ε) : Nat → TaskGroup τ ρ ε → Action σ ε (Bool × TaskGroup τ ρ ε)
  | 0, g => return (false, g)
  | n + 1, g =>
    match g.queue with
    | [] => return (false, g)
    | (place, t) :: rest => do
      match ← Action.outcome (W.run place t) with
      | .ok (.suspended t) => runSome W n { g with queue := rest ++ [(place, t)] }
      | .ok (.ended r) => return (true, ⟨rest, g.outcomes.set place (some (.ok r))⟩)
      | .error e => return (true, ⟨rest, g.outcomes.set place (some (.error e))⟩)

/-- One turn, in which no more than `n` tasks come to an end. When a failure ends the group, the
open tasks are given up from the tail of the queue. -/
def turn (W : Work σ τ ρ ε) : Nat → TaskGroup τ ρ ε → Action σ ε (TaskGroup τ ρ ε)
  | 0, g => return g
  | n + 1, g => do
    let (ended, g) ← runSome W (min 2 g.queue.length) g
    if ended then
      match failure? g.outcomes with
      | some e =>
        leaveAll W g.queue.reverse
        throw e
      | none => turn W n g
    else return g

/-! ## Groups of any size -/

/-- One turn. -/
def advance (W : Work σ τ ρ ε) (g : TaskGroup τ ρ ε) : Action σ ε (TaskGroup τ ρ ε) :=
  if g.outcomes.length ≤ smallSize then round W g.outcomes [] g.queue
  else turn W g.queue.length g

/-- Goes on until all tasks are at their end, through no more turns than `patience`. Past it the
group is given up, and `endless` is the failure of the task that would have been next. -/
def complete (W : Work σ τ ρ ε) (endless : Nat → ε) :
    Nat → TaskGroup τ ρ ε → Action σ ε (TaskGroup τ ρ ε)
  | 0, g =>
    match g.queue with
    | [] => return g
    | (place, _) :: _ => do
      leaveAll W g.queue
      throw (endless place)
  | patience + 1, g => do
    if g.isDone then return g
    else
      let g ← g.advance W
      complete W endless patience g

end TaskGroup

end Quarry
