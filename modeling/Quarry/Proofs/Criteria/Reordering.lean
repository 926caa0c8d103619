import Mathlib.Data.Multiset.Bind
import Quarry.Proofs.Criteria.Flattening
import Quarry.Proofs.Criteria.Reading

/-!
# The order of members

Members of a where object may be written in any order, and so may the operators under a field. The
clauses are then other ones, and so are their lists of groups, but the groups are the same up to
their order and that of the predicates in them. This holds at any depth: conjunctions multiply their
children, and as bags the products commute.
-/

namespace Quarry

open Json

/-! ## Groups without order -/

namespace Group

/-- A list of groups with all order forgotten, that of the groups and that within them. -/
def bag (gs : List Group) : Multiset (Multiset Predicate) := .ofList (gs.map .ofList)

theorem bag_append (gs hs : List Group) : bag (gs ++ hs) = bag gs + bag hs := by
  simp [bag]

theorem bag_product (gs hs : List Group) :
    bag (product gs hs) = (bag gs).bind fun g => (bag hs).map (g + ·) := by
  simp only [bag, product, List.map_flatMap, List.map_map, Function.comp_def, Multiset.map_coe,
    Multiset.coe_bind, List.flatMap_map, Multiset.coe_add]

/-- Factors may be exchanged. -/
theorem bag_product_left_comm (gs hs ks : List Group) :
    bag (product gs (product hs ks)) = bag (product hs (product gs ks)) := by
  simp only [bag_product, Multiset.map_bind, Multiset.map_map, Function.comp_def]
  rw [Multiset.bind_bind]
  simp only [add_left_comm]

/-- The lists hold the same groups up to order, as often as each other. -/
def SameBag (gs hs : List Group) : Prop := bag gs = bag hs

namespace SameBag

variable {gs gs' hs hs' : List Group}

theorem append (h : SameBag gs hs) (h' : SameBag gs' hs') : SameBag (gs ++ gs') (hs ++ hs') := by
  rw [SameBag] at h h' ⊢
  rw [bag_append, bag_append, h, h']

theorem product (h : SameBag gs hs) (h' : SameBag gs' hs') :
    SameBag (product gs gs') (product hs hs') := by
  rw [SameBag] at h h' ⊢
  rw [bag_product, bag_product, h, h']

theorem length_eq (h : SameBag gs hs) : gs.length = hs.length := by
  have hcard := congrArg Multiset.card h
  simpa [bag] using hcard

/-- The groups are paired up by an arrangement of the second list. -/
theorem exists_arranged (h : SameBag gs hs) :
    ∃ arranged, arranged.Perm hs ∧ List.Forall₂ List.Perm gs arranged := by
  have hperm : (gs.map Multiset.ofList).Perm (hs.map Multiset.ofList) := Multiset.coe_eq_coe.1 h
  have hsame : List.Forall₂ (fun b h => b = Multiset.ofList h) (hs.map Multiset.ofList) hs := by
    rw [List.forall₂_map_left_iff, List.forall₂_same]
    exact fun _ _ => rfl
  obtain ⟨arranged, hpaired, harranged⟩ := List.perm_comp_forall₂ hperm hsame
  rw [List.forall₂_map_left_iff] at hpaired
  exact ⟨arranged, harranged, hpaired.imp fun _ _ => Multiset.coe_eq_coe.1⟩

theorem both_refl (x : Except CriteriaError (List Group)) : Both SameBag x x :=
  Both.refl (R := SameBag) (fun _ => rfl) x

theorem both_trans {x y z : Except CriteriaError (List Group)} (h : Both SameBag x y)
    (h' : Both SameBag y z) : Both SameBag x z :=
  Both.trans (R := SameBag) Eq.trans h h'

end SameBag

end Group

/-! ## Clauses -/

namespace Clause

open Quarry.Group

/-- The clauses have the same groups up to order, or both have none. -/
def Exchangeable (c d : Clause) : Prop := Both SameBag c.groups d.groups

theorem Exchangeable.refl (c : Clause) : Exchangeable c c := SameBag.both_refl c.groups

theorem Exchangeable.trans {b c d : Clause} (h : Exchangeable b c) (h' : Exchangeable c d) :
    Exchangeable b d :=
  SameBag.both_trans h h'

/-- The first child and the others may be exchanged at once. -/
theorem both_groupsOfAll_cons {c d : Clause} {cs ds : List Clause} (h : Exchangeable c d)
    (hs : Both SameBag (groupsOfAll cs) (groupsOfAll ds)) :
    Both SameBag (groupsOfAll (c :: cs)) (groupsOfAll (d :: ds)) := by
  rw [groupsOfAll, groupsOfAll]
  exact h.bind fun _ _ hfirst => hs.bind fun _ _ hmore => .ok (hfirst.product hmore)

theorem both_groupsOfAll {cs ds : List Clause} (h : List.Forall₂ Exchangeable cs ds) :
    Both SameBag (groupsOfAll cs) (groupsOfAll ds) := by
  induction h with
  | nil => exact .ok rfl
  | cons hcd _ ih => exact both_groupsOfAll_cons hcd ih

theorem both_groupsOfAny {cs ds : List Clause} (h : List.Forall₂ Exchangeable cs ds) :
    Both SameBag (groupsOfAny cs) (groupsOfAny ds) := by
  induction h with
  | nil => exact .ok rfl
  | cons hcd _ ih =>
      rw [groupsOfAny, groupsOfAny]
      exact hcd.bind fun _ _ hfirst => ih.bind fun _ _ hmore => .ok (hfirst.append hmore)

/-- The children of a conjunction may stand in any order. -/
theorem both_groupsOfAll_of_perm {cs ds : List Clause} (h : cs.Perm ds) :
    Both SameBag (groupsOfAll cs) (groupsOfAll ds) := by
  induction h with
  | nil => exact .ok rfl
  | cons c _ ih => exact both_groupsOfAll_cons (.refl c) ih
  | swap c d cs =>
      -- Where one of the three fails, both orders fail, with whichever failure comes first.
      simp only [groupsOfAll]
      cases c.groups with
      | error e => cases d.groups <;> exact .error _ _
      | ok gs =>
          cases d.groups with
          | error e => exact .error _ _
          | ok hs =>
              cases groupsOfAll cs with
              | error e => exact .error _ _
              | ok ks => exact .ok (bag_product_left_comm hs gs ks)
  | trans _ _ ih ih' => exact SameBag.both_trans ih ih'

/-- Unwrapping a conjunction of one does not change its groups. -/
theorem groups_conjunction (cs : List Clause) : (conjunction cs).groups = groupsOfAll cs := by
  match cs with
  | [] => rw [conjunction, groups]; simp
  | [c] => rw [conjunction, groupsOfAll_singleton]
  | c :: d :: rest => rw [conjunction, groups]; simp

theorem exchangeable_conjunction {cs ds : List Clause} (h : List.Forall₂ Exchangeable cs ds) :
    Exchangeable (conjunction cs) (conjunction ds) := by
  rw [Exchangeable, groups_conjunction, groups_conjunction]
  exact both_groupsOfAll h

theorem exchangeable_conjunction_of_perm {cs ds : List Clause} (h : cs.Perm ds) :
    Exchangeable (conjunction cs) (conjunction ds) := by
  rw [Exchangeable, groups_conjunction, groups_conjunction]
  exact both_groupsOfAll_of_perm h

theorem exchangeable_all {cs ds : List Clause} (h : List.Forall₂ Exchangeable cs ds) :
    Exchangeable (all cs) (all ds) := by
  rw [Exchangeable, groups, groups]
  exact both_groupsOfAll h

theorem exchangeable_any {cs ds : List Clause} (h : List.Forall₂ Exchangeable cs ds) :
    Exchangeable (any cs) (any ds) := by
  cases h with
  | nil => exact .refl _
  | cons hcd hrest =>
      rw [Exchangeable, groups, groups]
      exact both_groupsOfAny (.cons hcd hrest)

end Clause

/-! ## Where values -/

namespace Where

/-- The values differ at most in the order of members of where objects and of operators. What is
compared with is left as it is. -/
inductive Reordered : Value → Value → Prop
  | refl (w : Value) : Reordered w w
  | trans {u v w : Value} (h : Reordered u v) (h' : Reordered v w) : Reordered u w
  | members {ms ns : List (String × Value)} (h : ms.Perm ns) :
      Reordered (.object ms) (.object ns)
  | operators {name : String} {os ps : List (String × Value)} (h : os.Perm ps)
      (ms ns : List (String × Value)) :
      Reordered (.object (ms ++ (name, .object os) :: ns))
        (.object (ms ++ (name, .object ps) :: ns))
  | branch {name : String} (hname : name = "and" ∨ name = "or") {v w : Value}
      (h : Reordered v w) (vs ws : List Value) (ms ns : List (String × Value)) :
      Reordered (.object (ms ++ (name, .array (vs ++ v :: ws)) :: ns))
        (.object (ms ++ (name, .array (vs ++ w :: ws)) :: ns))

end Where

namespace Clause

open Where

theorem readMembers_eq_mapM (members : List (String × Value)) :
    readMembers members = members.mapM fun m => readMember m.1 m.2 := by
  induction members with
  | nil => rfl
  | cons m members ih =>
      obtain ⟨name, value⟩ := m
      rw [readMembers, List.mapM_cons, ih]

theorem readBranches_eq_mapM (branches : List Value) :
    readBranches branches = branches.mapM read := by
  induction branches with
  | nil => rfl
  | cons branch branches ih => rw [readBranches, List.mapM_cons, ih]

theorem readMember_and (branches : List Value) :
    readMember "and" (.array branches) = (readBranches branches).map all := rfl

theorem readMember_or {branches : List Value} (h : branches ≠ []) :
    readMember "or" (.array branches) = (readBranches branches).map any := by
  cases branches with
  | nil => exact absurd rfl h
  | cons branch branches => rfl

theorem both_read_refl (x : Except CriteriaError Clause) : Both Exchangeable x x :=
  Both.refl Exchangeable.refl x

/-- One item of a list is exchanged. -/
theorem forall₂_replaced {α : Type} {R : α → α → Prop} (hR : ∀ a, R a a) {a b : α} (h : R a b)
    (as bs : List α) : List.Forall₂ R (as ++ a :: bs) (as ++ b :: bs) :=
  List.rel_append (R := R) (List.forall₂_same.2 fun c _ => hR c)
    (.cons h (List.forall₂_same.2 fun c _ => hR c))

/-- A member may be exchanged for one of its name. -/
theorem both_read_member {name : String} {v w : Value}
    (h : Both Exchangeable (readMember name v) (readMember name w))
    (ms ns : List (String × Value)) :
    Both Exchangeable (read (.object (ms ++ (name, v) :: ns)))
      (read (.object (ms ++ (name, w) :: ns))) := by
  have hmembers := Both.mapM (forall₂_replaced
    (R := fun m n => Both Exchangeable (readMember m.1 m.2) (readMember n.1 n.2))
    (fun _ => both_read_refl _) (a := (name, v)) (b := (name, w)) h ms ns)
  rw [read, read, readMembers_eq_mapM, readMembers_eq_mapM]
  exact hmembers.map fun _ _ => exchangeable_conjunction

theorem both_read_members {ms ns : List (String × Value)} (h : ms.Perm ns) :
    Both Exchangeable (read (.object ms)) (read (.object ns)) := by
  rw [read, read, readMembers_eq_mapM, readMembers_eq_mapM]
  exact (Both.mapM_of_perm _ h).map fun _ _ => exchangeable_conjunction_of_perm

theorem readField_object {field : String} {operators : List (String × Value)}
    (h : operators ≠ []) : readField field (.object operators) = do
      let tests ← operators.mapM fun o => readOperator field o.1 o.2
      return conjunction (tests.map (test field)) := by
  cases operators with
  | nil => exact absurd rfl h
  | cons o operators => rfl

theorem both_readField {field : String} {os ps : List (String × Value)} (h : os.Perm ps) :
    Both Exchangeable (readField field (.object os)) (readField field (.object ps)) := by
  by_cases hos : os = []
  · subst hos
    rw [List.nil_perm.1 h]
    exact both_read_refl _
  · have hps : ps ≠ [] := by
      rintro rfl
      exact hos (List.perm_nil.1 h)
    rw [readField_object hos, readField_object hps]
    refine (Both.mapM_of_perm _ h).bind ?_
    intro tests tests' htests
    exact .ok (exchangeable_conjunction_of_perm (htests.map (test field)))

theorem both_readMember_operators {name : String} {os ps : List (String × Value)}
    (h : os.Perm ps) :
    Both Exchangeable (readMember name (.object os)) (readMember name (.object ps)) := by
  rw [readMember_eq_of_not_array rfl, readMember_eq_of_not_array rfl]
  split
  · exact both_read_refl _
  · split
    · exact both_read_refl _
    · exact both_readField h

theorem both_readMember_branches {name : String} (hname : name = "and" ∨ name = "or")
    {v w : Value} (h : Both Exchangeable (read v) (read w)) (vs ws : List Value) :
    Both Exchangeable (readMember name (.array (vs ++ v :: ws)))
      (readMember name (.array (vs ++ w :: ws))) := by
  have hbranches := Both.mapM (forall₂_replaced
    (R := fun v w => Both Exchangeable (read v) (read w)) (fun _ => both_read_refl _) h vs ws)
  rw [← readBranches_eq_mapM, ← readBranches_eq_mapM] at hbranches
  rcases hname with rfl | rfl
  · rw [readMember_and, readMember_and]
    exact hbranches.map fun _ _ => exchangeable_all
  · rw [readMember_or (by simp), readMember_or (by simp)]
    exact hbranches.map fun _ _ => exchangeable_any

/-- **The order of members is of no account.** -/
theorem both_read {w w' : Value} (h : Reordered w w') : Both Exchangeable (read w) (read w') := by
  induction h with
  | refl w => exact both_read_refl _
  | trans _ _ ih ih' => exact Both.trans (R := Exchangeable) Exchangeable.trans ih ih'
  | members h => exact both_read_members h
  | operators h ms ns => exact both_read_member (both_readMember_operators h) ms ns
  | branch hname _ vs ws ms ns ih =>
      exact both_read_member (both_readMember_branches hname ih vs ws) ms ns

/-- **The order of members does not matter.** Of two where values that differ at most in the order
of the members of where objects and of operators, at any depth, either both are read or neither, and
the clauses both have groups or neither has. The groups are then as many, and some arrangement of
those of the second value pairs them with those of the first, so that two groups of a pair hold the
same predicates, each as often, in some order. -/
theorem groups_of_reordered {w w' : Value} (h : Reordered w w') :
    ((∃ c, read w = .ok c) ↔ ∃ c', read w' = .ok c') ∧
    ∀ c c', read w = .ok c → read w' = .ok c' →
      ((∃ gs, c.groups = .ok gs) ↔ ∃ gs', c'.groups = .ok gs') ∧
      ∀ gs gs', c.groups = .ok gs → c'.groups = .ok gs' →
        gs.length = gs'.length ∧
        ∃ arranged, arranged.Perm gs' ∧ List.Forall₂ List.Perm gs arranged := by
  have hread := both_read h
  refine ⟨hread.ok_iff, ?_⟩
  intro c c' hc hc'
  rw [hc, hc'] at hread
  have hgroups : Both Group.SameBag c.groups c'.groups := hread.of_ok
  refine ⟨hgroups.ok_iff, ?_⟩
  intro gs gs' hgs hgs'
  rw [hgs, hgs'] at hgroups
  have hbag : Group.SameBag gs gs' := hgroups.of_ok
  exact ⟨hbag.length_eq, hbag.exists_arranged⟩

/-- Two members, the first with a choice of branches. -/
def writtenOnce : Value :=
  .object [
    ("or", .array [
      .object [("a", .ofNat 1), ("b", .object [("gt", .ofNat 2), ("lt", .ofNat 9)])],
      .object [("c", .null)]]),
    ("d", .array [.ofNat 4, .ofNat 5])]

/-- The same members in another order, at every depth. -/
def writtenAgain : Value :=
  .object [
    ("d", .array [.ofNat 4, .ofNat 5]),
    ("or", .array [
      .object [("b", .object [("lt", .ofNat 9), ("gt", .ofNat 2)]), ("a", .ofNat 1)],
      .object [("c", .null)]])]

theorem reordered_writtenOnce : Reordered writtenOnce writtenAgain := by
  have hbranch : Reordered
      (.object [("a", .ofNat 1), ("b", .object [("gt", .ofNat 2), ("lt", .ofNat 9)])])
      (.object [("b", .object [("lt", .ofNat 9), ("gt", .ofNat 2)]), ("a", .ofNat 1)]) :=
    .trans (.operators (.swap _ _ []) [("a", .ofNat 1)] []) (.members (.swap _ _ []))
  exact .trans
    (.branch (.inr rfl) hbranch [] [.object [("c", .null)]] [] [("d", .array [.ofNat 4, .ofNat 5])])
    (.members (.swap _ _ []))

theorem groups_of_reordered_writtenOnce : Reordered writtenOnce writtenAgain ∧
    ∃ c c' gs gs', read writtenOnce = .ok c ∧ read writtenAgain = .ok c' ∧ c.groups = .ok gs ∧
      c'.groups = .ok gs' ∧ gs ≠ gs' ∧ gs'.length = 4 ∧
      ∃ arranged, arranged.Perm gs' ∧ List.Forall₂ List.Perm gs arranged := by
  obtain ⟨_, hgroups⟩ := groups_of_reordered reordered_writtenOnce
  obtain ⟨_, hpaired⟩ := hgroups _ _ rfl rfl
  refine ⟨reordered_writtenOnce, _, _, _, _, rfl, rfl, rfl, rfl, ?_, rfl, (hpaired _ _ rfl rfl).2⟩
  decide

end Clause

end Quarry
