import Quarry.Proofs.Criteria.Groups

/-!
# Nested clauses

A conjunction within a conjunction, and a disjunction within a disjunction, may be dissolved into
their children: the groups are the same, in the same order, and so is what is reported if there are
none. The groups of a list of clauses come from those of its parts, wherever it is divided.
-/

namespace Quarry

open Json

namespace Clause

/-! ## Lists of clauses in parts -/

theorem groupsOfAll_append (cs ds : List Clause) :
    groupsOfAll (cs ++ ds) = do
      let left ← groupsOfAll cs
      let right ← groupsOfAll ds
      return Group.product left right := by
  induction cs with
  | nil =>
      rw [List.nil_append, groupsOfAll]
      cases groupsOfAll ds with
      | error e => rfl
      | ok right => exact congrArg Except.ok (Group.product_unit_left right).symm
  | cons c cs ih =>
      rw [List.cons_append, groupsOfAll, groupsOfAll, ih]
      cases c.groups with
      | error e => rfl
      | ok left =>
          cases groupsOfAll cs with
          | error e => rfl
          | ok middle =>
              cases groupsOfAll ds with
              | error e => rfl
              | ok right => exact congrArg Except.ok (Group.product_assoc left middle right).symm

theorem groupsOfAny_append (cs ds : List Clause) :
    groupsOfAny (cs ++ ds) = do
      let first ← groupsOfAny cs
      let more ← groupsOfAny ds
      return first ++ more := by
  induction cs with
  | nil =>
      rw [List.nil_append, groupsOfAny]
      cases groupsOfAny ds <;> rfl
  | cons c cs ih =>
      rw [List.cons_append, groupsOfAny, groupsOfAny, ih]
      cases c.groups with
      | error e => rfl
      | ok first =>
          cases groupsOfAny cs with
          | error e => rfl
          | ok middle =>
              cases groupsOfAny ds with
              | error e => rfl
              | ok more => exact congrArg Except.ok (List.append_assoc first middle more).symm

theorem groupsOfAll_singleton (c : Clause) : groupsOfAll [c] = c.groups := by
  rw [groupsOfAll, groupsOfAll]
  cases c.groups with
  | error e => rfl
  | ok gs => exact congrArg Except.ok (Group.product_unit_right gs)

theorem groupsOfAny_singleton (c : Clause) : groupsOfAny [c] = c.groups := by
  rw [groupsOfAny, groupsOfAny]
  cases c.groups with
  | error e => rfl
  | ok gs => exact congrArg Except.ok (List.append_nil gs)

theorem groups_any {cs : List Clause} (h : cs ≠ []) : (any cs).groups = groupsOfAny cs := by
  cases cs with
  | nil => exact absurd rfl h
  | cons c cs => rw [groups]

/-- The groups of a conjunction, multiplied from the left. -/
theorem foldlM_groups (cs : List Clause) (gs : List Group) :
    cs.foldlM (fun gs c => c.groups.map (Group.product gs)) gs =
      (groupsOfAll cs).map (Group.product gs) := by
  induction cs generalizing gs with
  | nil => exact congrArg Except.ok (Group.product_unit_right gs).symm
  | cons c cs ih =>
      rw [List.foldlM_cons, groupsOfAll]
      cases c.groups with
      | error e => rfl
      | ok left =>
          refine (ih (Group.product gs left)).trans ?_
          cases groupsOfAll cs with
          | error e => rfl
          | ok right => exact congrArg Except.ok (Group.product_assoc gs left right)

/-! ## Flattening -/

/-- Equalities with some values have a group each. -/
theorem groupsOfAny_equals (field : String) (values : List Value) :
    groupsOfAny (values.map (equals field)) = .ok (values.map fun v => [⟨field, .eq, v⟩]) := by
  induction values with
  | nil => rfl
  | cons v values ih =>
      rw [List.map_cons, groupsOfAny, ih]
      rfl

/-- A conjunction among others dissolves into its children. -/
theorem groupsOfAll_flatten (cs ds es : List Clause) :
    groupsOfAll (cs ++ [all ds] ++ es) = groupsOfAll (cs ++ ds ++ es) := by
  have hds : groupsOfAll [all ds] = groupsOfAll ds := by
    rw [groupsOfAll_singleton, groups]
  rw [groupsOfAll_append, groupsOfAll_append, hds, ← groupsOfAll_append, ← groupsOfAll_append]

/-- A disjunction among others dissolves into its children, if it has any. -/
theorem groupsOfAny_flatten (cs : List Clause) {ds : List Clause} (h : ds ≠ []) (es : List Clause) :
    groupsOfAny (cs ++ [any ds] ++ es) = groupsOfAny (cs ++ ds ++ es) := by
  have hds : groupsOfAny [any ds] = groupsOfAny ds := by
    rw [groupsOfAny_singleton, groups_any h]
  rw [groupsOfAny_append, groupsOfAny_append, hds, ← groupsOfAny_append, ← groupsOfAny_append]

/-- **Nesting does not matter.** A conjunction within a conjunction has the groups of its children
in its place, and so has a disjunction with children within a disjunction. A combination of one
clause has the groups of that clause, and a membership test with values those of a disjunction of
equalities. The groups are the same in the same order, and if there are none, the same is reported.
It does not matter either from which side a conjunction is multiplied. -/
theorem groups_flatten (cs ds es : List Clause) (c : Clause) (field : String)
    (values : List Value) :
    (all (cs ++ [all ds] ++ es)).groups = (all (cs ++ ds ++ es)).groups ∧
    (ds ≠ [] → (any (cs ++ [any ds] ++ es)).groups = (any (cs ++ ds ++ es)).groups) ∧
    (all [c]).groups = c.groups ∧ (any [c]).groups = c.groups ∧
    (values ≠ [] →
      (test field (.oneOf values)).groups = (any (values.map (equals field))).groups) ∧
    (all cs).groups = cs.foldlM (fun gs c => c.groups.map (Group.product gs)) [[]] := by
  refine ⟨?_, fun hds => ?_, ?_, ?_, fun hvalues => ?_, ?_⟩
  · rw [groups, groups]
    exact groupsOfAll_flatten cs ds es
  · rw [groups_any (by simp), groups_any (by simp [hds])]
    exact groupsOfAny_flatten cs hds es
  · rw [groups, groupsOfAll_singleton]
  · rw [groups_any (List.cons_ne_nil c []), groupsOfAny_singleton]
  · rw [groups_any (by simpa using hvalues), groupsOfAny_equals, groups]
    cases values with
    | nil => exact absurd rfl hvalues
    | cons v values => rfl
  · rw [groups, foldlM_groups]
    cases groupsOfAll cs with
    | error e => rfl
    | ok gs => exact congrArg Except.ok (Group.product_unit_left gs).symm

/-- A choice of two between two other clauses, and two values. -/
theorem groups_flatten_choices :
    [equals "b" (.ofNat 2), equals "c" .null] ≠ [] ∧ [Value.ofNat 4, .ofNat 5] ≠ [] ∧
      (any ([equals "a" (.ofNat 1)] ++ [any [equals "b" (.ofNat 2), equals "c" .null]] ++
        [test "d" (.oneOf [.ofNat 4, .ofNat 5])])).groups =
        .ok [[⟨"a", .eq, .ofNat 1⟩], [⟨"b", .eq, .ofNat 2⟩], [⟨"c", .eq, .null⟩],
          [⟨"d", .eq, .ofNat 4⟩], [⟨"d", .eq, .ofNat 5⟩]] ∧
      (test "d" (.oneOf [.ofNat 4, .ofNat 5])).groups =
        .ok [[⟨"d", .eq, .ofNat 4⟩], [⟨"d", .eq, .ofNat 5⟩]] := by
  obtain ⟨_, hany, _, _, hvalues, _⟩ := groups_flatten [equals "a" (.ofNat 1)]
    [equals "b" (.ofNat 2), equals "c" .null] [test "d" (.oneOf [.ofNat 4, .ofNat 5])] everything
    "d" [.ofNat 4, .ofNat 5]
  refine ⟨List.cons_ne_nil _ _, List.cons_ne_nil _ _, ?_, ?_⟩
  · exact (hany (List.cons_ne_nil _ _)).trans rfl
  · exact (hvalues (List.cons_ne_nil _ _)).trans rfl

end Clause

end Quarry
