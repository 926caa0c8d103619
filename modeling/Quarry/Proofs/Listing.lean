import Quarry.Compiler
import Quarry.Proofs.Criteria.Meaning
import Quarry.Proofs.Store.Order

/-!
# What criteria ask for

The entities that criteria ask for are told from the entities there are, without any query: those in
scope that satisfy a group, in the order of the sort clauses, behind what is skipped and up to the
limit, with the selected columns.
-/

namespace Quarry

open Json

namespace Model

/-! ## Groups -/

/-- The entity satisfies the predicate. What is said of the primary-key column is said of the key,
and what is said of any other column, of a property. -/
def satisfies (m : Model) (space : Option String) (e : Entity) (p : Predicate) : Bool :=
  if p.field = m.primaryKeyColumn then
    match KeyId.ofValue? p.value with
    | some id => p.op.holds (compare e.key (m.keyOf space (some id)))
    | none => false
  else
    match e.properties.get? p.field with
    | some v => Filter.accepts v p.op p.value
    | none => false

/-- The predicates that an entity satisfies are true of it. -/
def truth (m : Model) (space : Option String) (e : Entity) : Valuation :=
  fun p => m.satisfies space e p = true

/-- The group asks for equality with a key. -/
def NamesKey (m : Model) (g : Group) : Prop := ∃ p ∈ g, p.field = m.primaryKeyColumn ∧ p.op = .eq

/-- The entity belongs to the namespace and is of the model's kind. -/
def inScope (m : Model) (space : Option String) (e : Entity) : Bool :=
  e.key.space == space && e.key.kind == m.kind

theorem holds_truth_iff {m : Model} {space : Option String} {e : Entity} {g : Group} :
    Group.Holds (m.truth space e) g ↔ g.all (m.satisfies space e) = true := by
  rw [List.all_eq_true]
  rfl

/-! ## Order -/

/-- How two entities stand under one sort clause: by key, if it names the key, and by property
otherwise. -/
def rankBy (m : Model) (s : Sorting) (a b : Entity) : Ordering :=
  let ascending :=
    if s.field = m.primaryKeyColumn ∨ s.field = keyProperty then compare a.key b.key
    else sortCompareOptional (a.properties.get? s.field) (b.properties.get? s.field)
  match s.direction with
  | .ascending => ascending
  | .descending => ascending.swap

/-- How two entities stand under sort clauses and then by key. -/
def rank (m : Model) : List Sorting → Entity → Entity → Ordering
  | [], a, b => compare a.key b.key
  | s :: rest, a, b => (m.rankBy s a b).then (m.rank rest a b)

/-- The entities in scope that satisfy the group, in order. -/
def listing (m : Model) (space : Option String) (sort : List Sorting) (entities : List Entity)
    (g : Group) : List Entity :=
  (entities.filter fun e => m.inScope space e && g.all (m.satisfies space e)).mergeSort
    fun a b => (m.rank sort a b).isLE

end Model

/-! ## Bounds and columns -/

/-- What criteria leave of a list: what is not skipped, up to the limit if there is one. -/
def Criteria.window {α : Type} (c : Criteria) (maxLimit : Nat) (l : List α) : List α :=
  match c.limit with
  | none | some 0 => l.drop (c.skip.getD 0)
  | some n => (l.drop (c.skip.getD 0)).take (min n maxLimit)

/-- The selection asks for the column. -/
def Selection.includes : Selection → String → Bool
  | .everything, _ => true
  | .fields names, name => names.contains name

/-- The record of an entity: its id under the primary-key column, and the selected columns. -/
def Model.recordOf (m : Model) (s : Selection) (e : Entity) : Record :=
  m.toRecord { e with properties := e.properties.restrict s.includes }

/-! ## Listings -/

namespace Model

variable {m : Model} {space : Option String} {sort : List Sorting} {entities : List Entity}
  {g : Group} {e : Entity}

theorem listing_perm (m : Model) (space : Option String) (sort : List Sorting)
    (entities : List Entity) (g : Group) : (m.listing space sort entities g).Perm
      (entities.filter fun e => m.inScope space e && g.all (m.satisfies space e)) :=
  List.mergeSort_perm _ _

theorem mem_listing : e ∈ m.listing space sort entities g ↔
    e ∈ entities ∧ m.inScope space e = true ∧ g.all (m.satisfies space e) = true := by
  rw [(m.listing_perm space sort entities g).mem_iff, List.mem_filter, Bool.and_eq_true]

/-- An entity in scope is listed once under a group that it satisfies. -/
theorem count_listing (hentities : entities.Pairwise Entities.Before) (he : e ∈ entities)
    (hscope : m.inScope space e = true) :
    (m.listing space sort entities g).count e =
      if g.all (m.satisfies space e) then 1 else 0 := by
  have hnodup : entities.Nodup := hentities.imp fun hab heq => hab.ne (congrArg Entity.key heq)
  rw [(m.listing_perm space sort entities g).count_eq]
  split
  · rename_i hall
    rw [List.count_filter (by rw [hscope, hall]; rfl)]
    rw [hnodup.count, if_pos he]
  · rename_i hall
    rw [List.count_eq_zero, List.mem_filter, hscope, Bool.true_and]
    exact fun hmem => hall hmem.2

/-- An entity in scope is listed as often as there are groups that it satisfies. -/
theorem count_listings (hentities : entities.Pairwise Entities.Before) (he : e ∈ entities)
    (hscope : m.inScope space e = true) (gs : List Group) :
    (gs.flatMap (m.listing space sort entities)).count e =
      gs.countP fun g => g.all (m.satisfies space e) := by
  induction gs with
  | nil => rfl
  | cons g gs ih =>
      rw [List.flatMap_cons, List.count_append, count_listing hentities he hscope, ih,
        List.countP_cons, Nat.add_comm]

/-- An entity in scope is listed under some group of a clause exactly if the clause is true of it. -/
theorem mem_listings {c : Clause} {gs : List Group} (hgroups : c.groups = .ok gs)
    (he : e ∈ entities) (hscope : m.inScope space e = true) :
    e ∈ gs.flatMap (m.listing space sort entities) ↔ c.Holds (m.truth space e) := by
  rw [← Clause.someHolds_groups c hgroups, List.mem_flatMap]
  constructor
  · rintro ⟨g, hg, hmem⟩
    exact ⟨g, hg, holds_truth_iff.2 (mem_listing.1 hmem).2.2⟩
  · rintro ⟨g, hg, hholds⟩
    exact ⟨g, hg, mem_listing.2 ⟨he, hscope, holds_truth_iff.1 hholds⟩⟩

end Model

end Quarry
