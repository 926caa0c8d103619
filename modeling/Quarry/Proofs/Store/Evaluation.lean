import Quarry.Proofs.Store.Order
import Quarry.Proofs.Store.Pages

/-!
# Answers that can be evaluated

Sorting by merging cannot be evaluated in a proof, sorting by insertion can, and both yield the same
list. So what is asked of a memory may as well be asked of one that sorts by insertion.
-/

namespace Quarry

namespace Memory

variable (sort : List Order → List Entity → List Entity)

/-- The answer to a query whose results are sorted in a given way. -/
def answerBy (q : Query) (m : Memory) : Except StoreError Page :=
  match q.keyLookup?, q.start with
  | some k, none => .ok (m.lookup q k)
  | _, _ =>
    let results := sort q.orders (m.selected q)
    (startIndex q results).map (pageAt m.cap q results)

def runBy (q : Query) (m : Memory) : Except StoreError Page × Memory :=
  match m.faults.queries with
  | _ + 1 => m.run q
  | 0 => (m.answerBy sort q, { m with log := m.log ++ [q] })

/-- The memory as a store that sorts in a given way. -/
def storeBy : Store Memory :=
  { store with
    redeem := fun t m =>
      match t with
      | .running q => m.runBy sort q
      | .answered answer => (answer, m) }

theorem run_eq_runBy : run = runBy Order.insertionSort := by
  rw [← Order.sort_eq_insertionSort]
  funext q m
  unfold runBy
  cases hfaults : m.faults.queries with
  | succ n => rfl
  | zero => exact run_of_no_faults hfaults

theorem store_eq_storeBy : store = storeBy Order.insertionSort := by
  rw [storeBy, ← run_eq_runBy]
  rfl

end Memory

end Quarry
