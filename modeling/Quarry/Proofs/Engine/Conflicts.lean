import Quarry.Proofs.Engine.Create
import Quarry.Proofs.Engine.Lookups

/-!
# The conflicts that a check reports

On a memory without failures and without other clients, a check for conflicts reports exactly the
entities that the proposed values are looked up by: attribute by attribute, value by value, and in
key order. It asks one query for each attribute and distinct value, and fails only of values that
cannot be looked up.
-/

namespace Quarry

open Json

namespace Probe

variable {m : Memory} {c : Compiler} {records : List Record} {a : UniqueAttribute} {f : FanOut}
  {drains : List Drain} {queries : List Query} {total place : Nat}
  {all owed others : Multiset Query} {w : Session Memory}

/-! ## A look-up on its way -/

theorem exec_settle_done (hdone : f.isDone = true) (w : Session Memory) :
    ∃ w', (settle c.model a f : Action Memory CheckError _).exec w =
        (.ok (.ended (conflicts c.model a f.results)), w') ∧ w'.store = w.store := by
  obtain ⟨w', hfinish, hstore⟩ := FanOut.exec_finish CheckError f w
  refine ⟨w', ?_, hstore⟩
  rw [settle, if_pos hdone, Action.exec_bind_ok hfinish]
  rfl

theorem exec_settle_open (hopen : f.isDone = false) (w : Session Memory) :
    (settle c.model a f : Action Memory CheckError _).exec w =
      (.ok (.suspended (running a f)), w) := by
  rw [settle, if_neg (by simp [hopen])]
  rfl

/-- A look-up under way ends with the conflicts of what its queries find. -/
theorem ends_running (place : Nat)
    (hway : TaskGroup.OnItsWay (Pull.work Memory.store) (Session.Awaits m all) drains f.group total
      owed) (hopen : f.isDone = false)
    (hjoined : ∀ f : FanOut, f.group.results = drains →
      f.group.outcomes.length = drains.length → f.results = joined queries m) :
    (work Memory.store c records).Ends (Session.Awaits m all) place
      (conflicts c.model a (joined queries m)) total owed (running a f) := by
  -- Every turn of the fan-out takes at least one run off its total.
  induction total using Nat.strongRecOn generalizing f owed with
  | _ total ih =>
      cases total with
      | zero =>
          have hpos := hway.total_pos (List.isEmpty_eq_false_iff.1 hopen)
          exact absurd hpos (Nat.lt_irrefl 0)
      | succ n =>
          intro others w hw
          obtain ⟨group, w₁, rest, due', hadvance, hw₁, hway', hlt⟩ :=
            FanOut.exec_advance hway hopen hw
          have hrun : ((work Memory.store c records).run place (running a f)).exec w =
              (settle c.model a { f with group }).exec w₁ := by
            apply Action.exec_bind_ok
            rw [Action.exec_adapt, hadvance]
            rfl
          cases hdone : ({ f with group } : FanOut).isDone with
          | true =>
              obtain ⟨w', hsettle, hstore⟩ := exec_settle_done (c := c) (a := a) hdone w₁
              obtain ⟨hresults, hlength, rfl⟩ := hway'.of_done (List.isEmpty_iff.1 hdone)
              rw [zero_add] at hw₁
              refine ⟨_, w', hrun.trans hsettle, ?_, hw₁.of_store hstore⟩
              rw [hjoined { f with group } hresults hlength]
          | false =>
              refine ⟨_, w₁, hrun.trans (exec_settle_open hdone w₁), due', hw₁, ?_⟩
              exact (ih rest hlt hway' hdone).mono (Nat.le_of_lt_succ hlt)

/-! ## Whole look-ups -/

/-- The conflicts of an attribute: for each distinct value that is proposed, with the entities that
the value is looked up by. -/
def found (c : Compiler) (records : List Record) (m : Memory) (a : UniqueAttribute) :
    List Conflict :=
  (proposed records a.column).flatMap fun v =>
    (m.holders c.model a.column v).map (conflictWith c.model a)

/-- The queries of an attribute: one for each distinct value that is proposed. -/
def lookups (c : Compiler) (records : List Record) (a : UniqueAttribute) : List Query :=
  (proposed records a.column).map (c.lookup a.column)

theorem exec_enter (hqueries : c.queries (criteria a.column (proposed records a.column)) =
    .ok queries) (w : Session Memory) :
    ∃ f w', (enter c a (proposed records a.column)).exec w = (.ok f, w') ∧
      w'.store = w.store ∧ f.group = .start (queries.map .fresh) := by
  have hcompiled : ∀ w : Session Memory, (Action.ofExcept CheckError.criteria
      (c.queries (criteria a.column (proposed records a.column))) :
      Action Memory CheckError (List Query)).exec w = (.ok queries, w) := by
    intro w
    rw [Action.exec_ofExcept, hqueries]
    rfl
  rw [enter, Action.exec_bind_ok (Action.exec_count _ _ _),
    Action.exec_bind_ok (Action.exec_report _ _ _ _), Action.exec_bind_ok (hcompiled _)]
  exact FanOut.exec_enter CheckError queries _

/-- What a look-up owes that has not been started. -/
def due (c : Compiler) (records : List Record) : Probe → Multiset Query
  | fresh a => ((lookups c records a).map Query.due).sum
  | running _ _ => 0

/-- The look-up of an attribute ends with its conflicts. By then its queries have been run. -/
theorem ends_fresh (hspace : c.space = m.space) (hfaults : m.faults.queries = 0)
    (hcan : ∀ v ∈ proposed records a.column, c.CanLookUp a.column v) (all : Multiset Query)
    (place : Nat) :
    (work Memory.store c records).Ends (Session.Awaits m all) place (found c records m a)
      (FanOut.turns (Memory.store.patience m) records.length + 1)
      ((fresh a).due c records) (fresh a) := by
  by_cases hnone : proposed records a.column = []
  · -- Nothing is proposed, so that nothing is asked.
    intro others w hw
    refine ⟨.ended [], w, ?_, ?_, ?_⟩
    · show (advance Memory.store c records (fresh a)).exec w = _
      simp only [advance, hnone]
      rfl
    · rw [found, hnone, List.flatMap_nil]
    · rwa [due, lookups, hnone, List.map_nil, List.map_nil, List.sum_nil, zero_add] at hw
  · have hqueries : c.queries (criteria a.column (proposed records a.column)) =
        .ok (lookups c records a) := Compiler.queries_criteria hnone hcan
    have hstart : ∀ q ∈ lookups c records a, q.start = none := by
      intro q hq
      obtain ⟨v, _, rfl⟩ := List.mem_map.1 hq
      exact c.start_lookup a.column v
    have horders : ∀ q ∈ lookups c records a, q.orders ≠ [] → m.Fits := by
      intro q hq hne
      obtain ⟨v, _, rfl⟩ := List.mem_map.1 hq
      exact absurd (c.orders_lookup a.column v) hne
    obtain ⟨drains, total, htotal, hway, hjoined⟩ :=
      FanOut.onItsWay_enter (Pull.costs_due m) hfaults horders hstart all
    have hopen : (TaskGroup.start ((lookups c records a).map Pull.fresh) :
        TaskGroup Pull Drain (Nat × StoreError)).isDone = false := by
      obtain ⟨v, values, hvalues⟩ := List.exists_cons_of_ne_nil hnone
      rw [lookups, hvalues]
      rfl
    have hfound : conflicts c.model a (joined (lookups c records a) m) = found c records m a :=
      conflicts_joined hspace _
    have hlength : total ≤ FanOut.turns (Memory.store.patience m) records.length + 1 := by
      have hle := Nat.mul_le_mul_left (Memory.store.patience m + 1)
        (length_proposed_le records a.column)
      rw [lookups, List.length_map] at htotal
      exact Nat.le_succ_of_le (Nat.le_trans htotal hle)
    refine Work.Ends.mono ?_ hlength
    cases total with
    | zero =>
        have hpos := hway.total_pos (List.isEmpty_eq_false_iff.1 hopen)
        exact absurd hpos (Nat.lt_irrefl 0)
    | succ n =>
        -- The first run opens the fan-out and goes on as a look-up that is under way.
        intro others w hw
        obtain ⟨f, w₁, henter, hstore₁, hgroup⟩ := exec_enter hqueries w
        rw [← hgroup] at hway hopen
        have hrunning : (work Memory.store c records).Ends (Session.Awaits m all) place
            (conflicts c.model a (joined (lookups c records a) m)) (n + 1) _ (running a f) :=
          ends_running place hway hopen hjoined
        obtain ⟨progress, w', hrun, hprogress⟩ := hrunning others w₁ (hw.of_store hstore₁)
        rw [hfound] at hprogress
        refine ⟨progress, w', ?_, hprogress⟩
        rw [← hrun]
        show (advance Memory.store c records (fresh a)).exec w = _
        cases hvalues : proposed records a.column with
        | nil => exact absurd hvalues hnone
        | cons v values =>
            simp only [advance, hvalues]
            rw [hvalues] at henter
            rw [Action.exec_bind_ok henter]
            rfl

end Probe

/-! ## Whole checks -/

section Checks

variable {m : Memory} {c : Compiler} {records : List Record}

/-- The conflicts of all attributes, in the order of the attributes. -/
def Memory.conflicts (c : Compiler) (records : List Record) (m : Memory) : List Conflict :=
  c.model.unique.flatMap (Probe.found c records m)

theorem exec_findConflicts (hspace : c.space = m.space) (hfaults : m.faults.queries = 0)
    (hcan : ∀ a ∈ c.model.unique, ∀ v ∈ Probe.proposed records a.column,
      c.CanLookUp a.column v) {w : Session Memory} (hw : w.store = m) :
    ∃ w', (findConflicts Memory.store c records).exec w = (.ok (m.conflicts c records), w') ∧
      w'.Awaits m ((c.model.unique.flatMap (Probe.lookups c records)).map Query.due).sum 0 := by
  have hdue : ((c.model.unique.map Probe.fresh).map (Probe.due c records)).sum =
      ((c.model.unique.flatMap (Probe.lookups c records)).map Query.due).sum := by
    rw [List.map_map, List.map_flatMap, List.flatMap_def, List.sum_flatten, List.map_map]
    rfl
  rw [← hdue]
  generalize hall : ((c.model.unique.map Probe.fresh).map (Probe.due c records)).sum = all
  have htasks : ∀ i t, (c.model.unique.map Probe.fresh)[i]? = some t → ∃ r n,
      (c.model.unique.map (Probe.found c records m))[i]? = some r ∧
      n ≤ FanOut.turns (Memory.store.patience m) records.length + 1 ∧
      (Probe.work Memory.store c records).Ends (Session.Awaits m all) i r n
        (Probe.due c records t) t := by
    intro i t ht
    rw [List.getElem?_map, Option.map_eq_some_iff] at ht
    obtain ⟨a, ha, rfl⟩ := ht
    refine ⟨_, _, ?_, Nat.le_refl _, Probe.ends_fresh hspace hfaults
      (hcan a (List.mem_of_getElem? ha)) all i⟩
    rw [List.getElem?_map, ha]
    rfl
  obtain ⟨total, htotal, hway⟩ := TaskGroup.onItsWay_start (by simp) htasks
  rw [List.length_map] at htotal
  have hpatience : total ≤ Probe.turns (Memory.store.patience w.store) c.model records := by
    rw [hw]
    exact htotal
  have hawaits : w.Awaits m all (all + 0) := by
    rw [add_zero]
    exact w.awaits_of_store hw all
  rw [hall] at hway
  obtain ⟨probes, w₁, hcomplete, hw₁, hresults, _⟩ :=
    TaskGroup.exec_complete (Probe.endless c.model) hway hpatience hawaits
  have hflatten : probes.results.flatten = m.conflicts c records := by
    rw [hresults, Memory.conflicts, List.flatMap_def]
  rw [findConflicts, Action.exec_bind_ok (Action.exec_inquire _ _), Action.exec_bind_ok hcomplete]
  simp only [hflatten]
  by_cases hempty : (m.conflicts c records).isEmpty = true
  · simp only [if_pos hempty]
    exact ⟨w₁, rfl, hw₁⟩
  · simp only [if_neg hempty]
    exact ⟨_, rfl, hw₁⟩

/-- What is owed for queries is to run those of them that go on from no cursor. -/
theorem sum_due (queries : List Query) :
    (queries.map Query.due).sum = (queries.filter fun q => q.start = none : Multiset Query) := by
  induction queries with
  | nil => rfl
  | cons q queries ih =>
      rw [List.map_cons, List.sum_cons, ih, Query.due]
      by_cases hstart : q.start = none <;> simp [hstart]

/-- A record proposes a value for the primary key that is no id. -/
def ProposesNoId (M : Model) (records : List Record) : Prop :=
  ∃ a ∈ M.unique, a.column = M.primaryKeyColumn ∧
    ∃ r ∈ records, ∃ v, r.present? a.column = some v ∧ KeyId.ofValue? v = none

theorem canLookUp_of_proposed (h : ¬ ProposesNoId c.model records) {a : UniqueAttribute}
    (ha : a ∈ c.model.unique) {v : Value} (hv : v ∈ Probe.proposed records a.column) :
    c.CanLookUp a.column v := by
  intro hcolumn hid
  obtain ⟨r, hr, hpresent⟩ := Probe.present?_of_proposed hv
  exact h ⟨a, ha, hcolumn, r, hr, v, hpresent, hid⟩

/-- A check fails if it cannot look up a value. -/
theorem exec_findConflicts_error (h : ProposesNoId c.model records) (w : Session Memory) :
    ∃ err w', (findConflicts Memory.store c records).exec w = (.error err, w') := by
  obtain ⟨a, ha, hcolumn, r, hr, v, hpresent, hid⟩ := h
  obtain ⟨v₀, hv₀, hequal⟩ := Probe.exists_proposed hr hpresent
  have hid₀ : KeyId.ofValue? v₀ = none := by
    rcases hequal with rfl | hsame
    · exact hid
    · rwa [← KeyId.ofValue?_of_same hsame]
  cases hexec : (findConflicts Memory.store c records).exec w with
  | mk result w' =>
      cases result with
      | error err => exact ⟨err, w', rfl⟩
      | ok found =>
          have hfinds := (keeps_findConflicts w.store c records w rfl).2 found
          rw [hexec] at hfinds
          obtain ⟨_, hfound, _⟩ := (hfinds rfl).1 a ha
          rcases hfound with ⟨hnone, _⟩ | ⟨queries, _, hqueries, _⟩
          · rw [hnone] at hv₀
            cases hv₀
          · have hcannot : ¬ c.CanLookUp a.column v₀ := fun hcan => hcan hcolumn hid₀
            exact absurd hqueries (Compiler.queries_ne_ok hv₀ hcannot queries)

end Checks

/-- **A check reports exactly what is stored.** With no failures due and no other clients, and
whatever the cap, a check fails if and only if a unique attribute is that of the primary key and a
record proposes a value for it that is no id. Otherwise it lists, for each unique attribute in their
order and for each distinct value that records propose for its column in the order of their first
appearance, the entities in key order that the value is looked up by. The names of the list, and of
an error made of it, are those of its attributes, each once in the order of their first appearance.
The queries that were run without a cursor are, up to their order, one for each attribute and
distinct value. -/
theorem findConflicts_eq_matches (c : Compiler) (records : List Record) (w : Session Memory)
    (hspace : c.space = w.store.space) (hfaults : w.store.faults.queries = 0) :
    let values (a : UniqueAttribute) : List Value :=
      (records.filterMap fun r => r.present? a.column).eraseDupsBy Value.same
    let found : List Conflict := c.model.unique.flatMap fun a => (values a).flatMap fun v =>
      (w.store.holders c.model a.column v).map (Probe.conflictWith c.model a)
    let names : List String := (found.map fun x => x.unique.name).eraseDups
    (ProposesNoId c.model records →
      ∃ err w', (findConflicts Memory.store c records).exec w = (.error err, w')) ∧
    (¬ ProposesNoId c.model records →
      ∃ w', (findConflicts Memory.store c records).exec w = (.ok found, w') ∧
        Conflict.attributes found = names ∧
        (∀ e, UniqueError.ofConflicts found = .error e → e.attributes = names) ∧
        ∃ log, w'.store = { w.store with log := w.store.log ++ log } ∧
          (log.filter fun q => q.start = none).Perm
            (c.model.unique.flatMap fun a => (values a).map (c.lookup a.column))) := by
  intro values found names
  refine ⟨fun hno => exec_findConflicts_error hno w, ?_⟩
  intro hids
  have hvalues : ∀ a : UniqueAttribute, Probe.proposed records a.column = values a :=
    fun a => Probe.proposed_eq records a.column
  have hfound : w.store.conflicts c records = found := by
    simp only [found, ← hvalues]
    rfl
  have hlookups : c.model.unique.flatMap (Probe.lookups c records) =
      c.model.unique.flatMap fun a => (values a).map (c.lookup a.column) := by
    simp only [← hvalues]
    rfl
  obtain ⟨w', hexec, log, hlog, hsum⟩ := exec_findConflicts hspace hfaults
    (fun a ha v hv => canLookUp_of_proposed hids ha hv) rfl
  rw [hfound] at hexec
  refine ⟨w', hexec, Conflict.attributes_eq found, ?_, log, hlog, ?_⟩
  · intro e he
    rw [UniqueError.ofConflicts] at he
    split at he
    · cases he
    · cases he
      exact Conflict.attributes_eq found
  · have hstart : (c.model.unique.flatMap (Probe.lookups c records)).filter
        (fun q => q.start = none) = c.model.unique.flatMap (Probe.lookups c records) := by
      rw [List.filter_eq_self]
      intro q hq
      obtain ⟨a, _, hq⟩ := List.mem_flatMap.1 hq
      obtain ⟨v, _, rfl⟩ := List.mem_map.1 hq
      exact decide_eq_true (c.start_lookup a.column v)
    rw [add_zero, sum_due, sum_due, hstart, hlookups] at hsum
    exact Multiset.coe_eq_coe.1 hsum

namespace Engine

/-- People whose numbers are looked up as well as their emails. -/
def citizens : Model := { people with unique := [⟨"email", "email"⟩, ⟨"number", "id"⟩] }

/-- Three people, of whom two share an email, and one of another namespace, one to a page. -/
def threePeople : Memory :=
  (Memory.insertAll [person 3 (.string "a@x"), person 1 (.string "a@x"), person 2 (.string "b@x"),
    { person 4 (.string "a@x") with key := people.keyOf (some "other") (some (.number 4)) }]
    (.empty none 1)).2

/-- An email that is proposed twice meets the two people who have it, and a number the person of that
number. -/
theorem findConflicts_eq_matches_threePeople :
    let records : List Record :=
      [.ofColumns [("email", .string "a@x"), ("id", .number (.ofNat 2))],
        .ofColumns [("email", .null)], .ofColumns [("email", .string "a@x")]]
    ∃ w', (findConflicts Memory.store ⟨none, citizens, 10⟩ records).exec (.start threePeople) =
        (.ok [⟨⟨"email", "email"⟩, .string "a@x", person 1 (.string "a@x")⟩,
          ⟨⟨"email", "email"⟩, .string "a@x", person 3 (.string "a@x")⟩,
          ⟨⟨"number", "id"⟩, .number (.ofNat 2), (person 2 .null).keyOnly⟩], w') := by
  intro records
  have hids : ¬ ProposesNoId citizens records := by
    rintro ⟨a, ha, hcolumn, r, hr, v, hpresent, hid⟩
    have hall : ∀ r ∈ records,
        (r.present? "id").all (fun v => (KeyId.ofValue? v).isSome) = true := by
      decide
    have hv := hall r hr
    rw [hcolumn] at hpresent
    have hpresent' : r.present? "id" = some v := hpresent
    rw [hpresent', Option.all_some, hid] at hv
    cases hv
  obtain ⟨w', hexec, _⟩ := (findConflicts_eq_matches ⟨none, citizens, 10⟩ records
    (.start threePeople) rfl rfl).2 hids
  refine ⟨w', hexec.trans (congrArg (fun l => (Except.ok l, w')) ?_)⟩
  decide +kernel

end Engine

end Quarry
