import Quarry.Proofs.Criteria.Faults
import Quarry.Proofs.Criteria.Meaning

/-!
# The groups of a clause

Which clauses have groups, and how many they have. The groups of a conjunction are a product, which
is empty only if one of its factors is. As no part of a clause that has groups at all is without
them, it has at least one, so that it never comes to match everything by default.
-/

namespace Quarry

/-! ## Joining groups -/

namespace Group

@[simp] theorem product_unit_left (right : List Group) : product [[]] right = right := by
  simp [product]

@[simp] theorem product_unit_right (left : List Group) : product left [[]] = left := by
  simp [product]

theorem product_assoc (left middle right : List Group) :
    product (product left middle) right = product left (product middle right) := by
  simp only [product, List.flatMap_assoc, List.flatMap_map, List.map_flatMap, List.map_map,
    Function.comp_def, List.append_assoc]

theorem length_product (left right : List Group) :
    (product left right).length = left.length * right.length := by
  simp [product, List.length_flatMap]

end Group

/-! ## How many groups there are -/

/-- The number of groups of a test. -/
def Test.width : Test → Nat
  | oneOf values => values.length
  | _ => 1

theorem Test.length_groups {field : String} {t : Test} {gs : List Group}
    (h : t.groups field = .ok gs) : gs.length = t.width := by
  cases t with
  | compare op value =>
      cases h
      rfl
  | oneOf values =>
      cases values with
      | nil => cases h
      | cons value rest =>
          cases h
          exact List.length_map _
  | noneOf _ => cases h
  | like _ => cases h
  | contains _ => cases h
  | startsWith _ => cases h
  | endsWith _ => cases h

theorem Test.width_pos {field : String} {t : Test} (h : t.faults field = []) : 0 < t.width := by
  cases t with
  | oneOf values =>
      cases values with
      | nil => cases h
      | cons value rest => exact Nat.succ_pos rest.length
  | _ => exact Nat.one_pos

namespace Clause

mutual

/-- The number of groups of a clause: the product of those of the children for a conjunction, and
their sum for a disjunction. -/
def width : Clause → Nat
  | all children => widthOfAll children
  | any children => widthOfAny children
  | test _ t => t.width

def widthOfAll : List Clause → Nat
  | [] => 1
  | c :: cs => c.width * widthOfAll cs

def widthOfAny : List Clause → Nat
  | [] => 0
  | c :: cs => c.width + widthOfAny cs

end

mutual

theorem length_groups : ∀ (c : Clause) {gs : List Group}, c.groups = .ok gs → gs.length = c.width
  | all children, gs, h => by
      rw [groups] at h
      rw [width]
      exact length_groupsOfAll children h
  | any [], gs, h => by
      rw [groups] at h
      cases h
  | any (c :: cs), gs, h => by
      rw [groups] at h
      rw [width]
      exact length_groupsOfAny (c :: cs) h
  | test field t, gs, h => by
      rw [groups] at h
      rw [width]
      exact Test.length_groups h

theorem length_groupsOfAll : ∀ (cs : List Clause) {gs : List Group}, groupsOfAll cs = .ok gs →
    gs.length = widthOfAll cs
  | [], gs, h => by
      rw [groupsOfAll] at h
      cases h
      rfl
  | c :: cs, gs, h => by
      obtain ⟨left, right, hl, hr, rfl⟩ := groupsOfAll_cons h
      rw [Group.length_product, length_groups c hl, length_groupsOfAll cs hr, widthOfAll]

theorem length_groupsOfAny : ∀ (cs : List Clause) {gs : List Group}, groupsOfAny cs = .ok gs →
    gs.length = widthOfAny cs
  | [], gs, h => by
      rw [groupsOfAny] at h
      cases h
      rfl
  | c :: cs, gs, h => by
      obtain ⟨first, more, hf, hm, rfl⟩ := groupsOfAny_cons h
      rw [List.length_append, length_groups c hf, length_groupsOfAny cs hm, widthOfAny]

end

mutual

/-- A clause with nothing wrong in it loses no factor: none of its parts is without groups. -/
theorem width_pos : ∀ {c : Clause}, c.faults = [] → 0 < c.width
  | all children, h => by
      rw [faults] at h
      rw [width]
      exact widthOfAll_pos h
  | any [], h => by
      rw [faults] at h
      cases h
  | any (c :: cs), h => by
      rw [faults, faultsOfEach, List.append_eq_nil_iff] at h
      rw [width, widthOfAny]
      exact Nat.add_pos_left (width_pos h.1) _
  | test field t, h => by
      rw [faults] at h
      rw [width]
      exact Test.width_pos h

theorem widthOfAll_pos : ∀ {cs : List Clause}, faultsOfEach cs = [] → 0 < widthOfAll cs
  | [], _ => Nat.one_pos
  | c :: cs, h => by
      rw [faultsOfEach, List.append_eq_nil_iff] at h
      rw [widthOfAll]
      exact Nat.mul_pos (width_pos h.1) (widthOfAll_pos h.2)

end

/-! ## Which clauses have groups -/

mutual

/-- The nodes of a clause, each before those below it, and these from left to right. -/
def nodes : Clause → List Clause
  | all children => all children :: nodesOfEach children
  | any children => any children :: nodesOfEach children
  | test field t => [test field t]

def nodesOfEach : List Clause → List Clause
  | [] => []
  | c :: cs => c.nodes ++ nodesOfEach cs

end

/-- The node itself keeps a clause from having groups, and this is how that is reported. -/
inductive Blocks : Clause → CriteriaError → Prop
  | noBranches : Blocks (any []) (.malformed .noBranches)
  | noValues (field : String) : Blocks (test field (.oneOf [])) (.badField field (.noValues "in"))
  | unsupported (field : String) {t : Test} (h : t.isSupported = false) :
      Blocks (test field t) (.unsupported field t.operator)

/-- What is reported of the node itself. -/
def ownFault? : Clause → Option CriteriaError
  | all _ => none
  | any [] => some (.malformed .noBranches)
  | any (_ :: _) => none
  | test field t => (t.faults field).head?

theorem ownFault?_eq_some_iff {n : Clause} {e : CriteriaError} :
    n.ownFault? = some e ↔ n.Blocks e := by
  constructor
  · intro h
    match n with
    | all _ => cases h
    | any [] =>
        cases h
        exact .noBranches
    | any (_ :: _) => cases h
    | test field (.compare _ _) => cases h
    | test field (.oneOf []) =>
        cases h
        exact .noValues field
    | test field (.oneOf (_ :: _)) => cases h
    | test field (.noneOf _) | test field (.like _) | test field (.contains _)
    | test field (.startsWith _) | test field (.endsWith _) =>
        cases h
        exact .unsupported field rfl
  · rintro (_ | field | ⟨field, h⟩)
    · rfl
    · rfl
    · rename_i t
      cases t with
      | compare _ _ => cases h
      | oneOf _ => cases h
      | _ => rfl

mutual

/-- What is wrong with a clause is what is wrong with its nodes. -/
theorem faults_eq_ownFaults : ∀ c : Clause, c.faults = c.nodes.filterMap ownFault?
  | all children => by
      rw [faults, nodes, List.filterMap_cons_none rfl]
      exact faultsOfEach_eq_ownFaults children
  | any [] => rfl
  | any (c :: cs) => by
      rw [faults, nodes, List.filterMap_cons_none rfl]
      exact faultsOfEach_eq_ownFaults (c :: cs)
  | test field t => by
      rw [faults, nodes]
      cases t with
      | oneOf values => cases values <;> rfl
      | _ => rfl

theorem faultsOfEach_eq_ownFaults : ∀ cs : List Clause,
    faultsOfEach cs = (nodesOfEach cs).filterMap ownFault?
  | [] => rfl
  | c :: cs => by
      rw [faultsOfEach, nodesOfEach, List.filterMap_append, faults_eq_ownFaults c,
        faultsOfEach_eq_ownFaults cs]

end

/-- The groups of a clause, or the group that matches everything if there are none. -/
def groupsOrEverything (c : Clause) : Except CriteriaError (List Group) :=
  c.groups.map fun gs => if gs.isEmpty then [[]] else gs

theorem length_groups_pos {c : Clause} {gs : List Group} (h : c.groups = .ok gs) :
    0 < gs.length := by
  rw [length_groups c h]
  exact width_pos (c.reports_groups.ok_iff.1 ⟨gs, h⟩)

/-- **Clauses that have groups.** A clause has groups exactly if none of its nodes is a disjunction
of nothing, a membership test without values or a test that no store query can express, and
otherwise the first such node is reported. The groups are as many as `width` says, so that there is
at least one, and matching everything instead of nothing is never called for. -/
theorem groups_of_nodes (c : Clause) :
    ((∃ gs, c.groups = .ok gs) ↔ ∀ n ∈ c.nodes, ∀ e, ¬ n.Blocks e) ∧
    (∀ e, c.groups = .error e ↔ ∃ before n after, c.nodes = before ++ n :: after ∧
      n.Blocks e ∧ ∀ m ∈ before, ∀ e', ¬ m.Blocks e') ∧
    (∀ gs, c.groups = .ok gs → gs.length = c.width ∧ 1 ≤ gs.length) ∧
    c.groupsOrEverything = c.groups := by
  have hreports := c.reports_groups
  rw [faults_eq_ownFaults] at hreports
  have hnone : ∀ n : Clause, n.ownFault? = none ↔ ∀ e, ¬ n.Blocks e := by
    intro n
    simp only [Option.eq_none_iff_forall_ne_some, ne_eq, ownFault?_eq_some_iff]
  refine ⟨?_, ?_, fun gs h => ⟨length_groups c h, length_groups_pos h⟩, ?_⟩
  · rw [hreports.ok_iff, List.filterMap_eq_nil_iff]
    exact forall₂_congr fun n _ => hnone n
  · intro e
    rw [hreports.error_iff, List.head?_filterMap, List.findSome?_eq_some_iff]
    simp only [ownFault?_eq_some_iff, hnone]
  · rw [groupsOrEverything]
    cases hgroups : c.groups with
    | error e => rfl
    | ok gs =>
        have hne : gs.isEmpty = false := by
          rw [List.isEmpty_eq_false_iff, ← List.length_pos_iff]
          exact length_groups_pos hgroups
        rw [Except.map, hne]
        rfl

/-- Two choices under a conjunction: one of three, and one of two. -/
def twoChoices : Clause :=
  .all [.any [.equals "a" (.ofNat 1), .test "b" (.oneOf [.ofNat 2, .ofNat 3])],
    .all [.test "c" (.oneOf [.ofNat 4, .ofNat 5]), .all []]]

/-- Three nodes that keep a clause from having groups, one of them below another conjunction. -/
def threeObstacles : Clause :=
  .all [.equals "a" (.ofNat 1), .any [.all [.test "b" (.oneOf [])], .any []],
    .test "c" (.like (.string "x"))]

theorem groups_of_nodes_choices :
    (∃ gs, twoChoices.groups = .ok gs ∧ gs.length = 6) ∧
      threeObstacles.groups = .error (.badField "b" (.noValues "in")) ∧
      ∃ n ∈ threeObstacles.nodes, ∃ e, n.Blocks e := by
  obtain ⟨_, _, hlength, _⟩ := groups_of_nodes twoChoices
  obtain ⟨_, herror, _⟩ := groups_of_nodes threeObstacles
  have hfirst : threeObstacles.groups = .error (.badField "b" (.noValues "in")) := rfl
  refine ⟨⟨_, rfl, (hlength _ rfl).1⟩, hfirst, ?_⟩
  obtain ⟨before, n, after, hnodes, hblocks, _⟩ := (herror _).1 hfirst
  exact ⟨n, by rw [hnodes]; simp, _, hblocks⟩

end Clause

end Quarry
