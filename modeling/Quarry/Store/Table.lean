import Quarry.Store.Entity

/-!
# Tables

The entities of a store in strict key order, so that each key holds at most one.
-/

namespace Quarry

namespace Entities

/-! ## Lists in key order -/

/-- Strict key order. -/
abbrev Before (a b : Entity) : Prop := compare a.key b.key = .lt

/-- Puts an entity in its place, over the one of its key. -/
def insert (e : Entity) : List Entity → List Entity
  | [] => [e]
  | x :: rest =>
    match compare e.key x.key with
    | .lt => e :: x :: rest
    | .eq => e :: rest
    | .gt => x :: insert e rest

theorem mem_insert {e y : Entity} {es : List Entity} (h : y ∈ insert e es) : y = e ∨ y ∈ es := by
  induction es with
  | nil => simpa [insert] using h
  | cons x rest ih =>
    unfold insert at h
    split at h <;> simp only [List.mem_cons] at h ⊢
    · exact h
    · exact h.imp id .inr
    · rcases h with h | h
      · exact .inr (.inl h)
      · exact (ih h).imp id .inr

theorem pairwise_insert {e : Entity} {es : List Entity} (h : es.Pairwise Before) :
    (insert e es).Pairwise Before := by
  induction es with
  | nil => simp [insert]
  | cons x rest ih =>
    obtain ⟨hx, hr⟩ := List.pairwise_cons.1 h
    unfold insert
    split
    · rename_i hlt
      refine List.pairwise_cons.2 ⟨fun y hy => ?_, h⟩
      rcases List.mem_cons.1 hy with rfl | hy
      · exact hlt
      · exact Std.TransCmp.lt_trans hlt (hx y hy)
    · rename_i heq
      have hk : e.key = x.key := Std.LawfulEqOrd.eq_of_compare heq
      exact List.pairwise_cons.2 ⟨fun y hy => by simpa [Before, hk] using hx y hy, hr⟩
    · rename_i hgt
      refine List.pairwise_cons.2 ⟨fun y hy => ?_, ih hr⟩
      rcases mem_insert hy with rfl | hy
      · exact Std.OrientedCmp.lt_of_gt hgt
      · exact hx y hy

end Entities

/-- Entities in strict key order. -/
structure Table where
  entities : List Entity
  sorted : entities.Pairwise Entities.Before
  deriving DecidableEq

namespace Table

def empty : Table := ⟨[], .nil⟩

instance : Inhabited Table := ⟨empty⟩

def get? (t : Table) (k : Key) : Option Entity := t.entities.find? fun e => e.key == k

/-- Stores an entity, over the one of its key. -/
def insert (t : Table) (e : Entity) : Table :=
  ⟨Entities.insert e t.entities, Entities.pairwise_insert t.sorted⟩

def insertAll (t : Table) (es : List Entity) : Table := es.foldl insert t

/-- Removes the entity of a key, if there is one. -/
def erase (t : Table) (k : Key) : Table :=
  ⟨t.entities.filter fun e => e.key != k, t.sorted.filter _⟩

def eraseAll (t : Table) (ks : List Key) : Table := ks.foldl erase t

end Table

end Quarry
