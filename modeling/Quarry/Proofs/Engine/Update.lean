import Quarry.Proofs.Engine.Create

/-!
# What updating entities keeps unique

The values of an update are compared with the stored entities, those apart that it is about to
write. So equal values in a unique column can come in only when an update writes them into several
entities at once. A list escapes the comparison as well, since the store looks up its items and not
the list.
-/

namespace Quarry

open Quarry.Action Json

namespace Engine

variable {config : Config} {registry : Registry} {M : Model} {values : Record}
  {es : List Entity} {m m' : Memory}

/-! ## Values -/

/-- An entity holds what was written over it, and elsewhere what it held before. -/
theorem get?_overlay (values : Record) (e : Entity) (column : String) :
    (overlay values e).properties.get? column =
      (values.get? column).or (e.properties.get? column) :=
  Record.get?_putAll_columns e.properties values column

/-- What would be written to a unique column is looked up. -/
theorem present?_uniqueValues {a : UniqueAttribute} (ha : a ∈ M.unique) {v : Value}
    (hv : values.get? a.column = some v) (hnull : v ≠ .null) :
    (uniqueValues M values).present? a.column = some v := by
  have hpresent := Record.present?_of_get? hv hnull
  refine Record.present?_of_get? (Record.get?_putAll_of_mem _ ?_ ?_) hnull
  · exact List.mem_filterMap.2 ⟨a, ha, by rw [hpresent]; rfl⟩
  · intro w hw
    obtain ⟨b, _, hb⟩ := List.mem_filterMap.1 hw
    obtain ⟨w', hw', heq⟩ := Option.map_eq_some_iff.1 hb
    obtain ⟨hcolumn, rfl⟩ := Prod.mk.inj heq
    rw [hcolumn, hpresent] at hw'
    exact (Option.some.inj hw').symm

theorem present?_uniqueValues_eq {a : UniqueAttribute} (ha : a ∈ M.unique) :
    (uniqueValues M values).present? a.column = values.present? a.column := by
  cases hpresent : values.present? a.column with
  | some v =>
      obtain ⟨hv, hnull⟩ := Option.filter_eq_some_iff.1 hpresent
      refine present?_uniqueValues ha hv ?_
      rintro rfl
      cases hnull
  | none =>
      have habsent : (uniqueValues M values).get? a.column = none := by
        refine Record.get?_putAll_of_not_mem .empty ?_
        intro v hv
        obtain ⟨b, _, hb⟩ := List.mem_filterMap.1 hv
        obtain ⟨v', hv', heq⟩ := Option.map_eq_some_iff.1 hb
        obtain ⟨hcolumn, _⟩ := Prod.mk.inj heq
        rw [hcolumn, hpresent] at hv'
        cases hv'
      rw [Record.present?, habsent]
      rfl

/-! ## Updating -/

/-- An update that succeeds has found nothing to write over, or has compared its values with what is
stored and written them over what it found. -/
theorem exec_update_ok {σ : Type} {E : Engine σ} {kind : String} {c : Criteria} {out : List Record}
    {w w' : Session σ} (hmodel : E.registry.get kind = .ok M)
    (h : (E.update kind c values).exec w = (.ok out, w')) :
    ∃ es w₁, (E.matched M c).exec w = (.ok es, w₁) ∧
      out = (es.map (overlay values)).map M.toRecord ∧
      (es = [] ∧ w' = w₁ ∨
        ∃ found w₂, (E.conflicts M [uniqueValues M values]).exec w₁ = (.ok found, w₂) ∧
          (found.filter fun x => !es.any fun e => e.key == x.existing.key) = [] ∧
          E.store.update (es.map (overlay values)) w₂.store = (.ok (), w'.store)) := by
  rw [update, exec_model_bind hmodel] at h
  split at h
  · cases h
  · obtain ⟨es, w₁, hmatched, hwrites⟩ := exec_bind_eq_ok.1 h
    refine ⟨es, w₁, hmatched, ?_⟩
    split at hwrites
    · rename_i hempty
      cases hwrites
      obtain rfl := List.isEmpty_iff.1 hempty
      exact ⟨rfl, .inl ⟨rfl, rfl⟩⟩
    · obtain ⟨found, w₂, hconflicts, hothers⟩ := exec_bind_eq_ok.1 hwrites
      obtain ⟨_, w₃, hpassed, hupdates⟩ := exec_bind_eq_ok.1 hothers
      obtain ⟨hnone, rfl⟩ := exec_ofExcept_eq_ok hpassed
      obtain ⟨_, w₄, hupdated, hreports⟩ := exec_bind_eq_ok.1 hupdates
      rw [exec_bind_ok (exec_report _ _ _ _)] at hreports
      cases hreports
      have hstored := store_of_exec_write hupdated
      exact ⟨rfl, .inr ⟨found, _, hconflicts, eq_nil_of_ofConflicts hnone, hstored⟩⟩

/-- What an update has done that wrote values over these entities. -/
structure Updated (config : Config) (M : Model) (values : Record) (es : List Entity)
    (m m' : Memory) : Prop where
  space : m'.space = m.space
  stored : ∀ e ∈ es, e ∈ m.table.entities
  /-- whatever a look-up found is among the entities -/
  compared : es ≠ [] → ∀ a ∈ M.unique, ∃ found,
    Probe.Finds m (compilerFor config M m) [uniqueValues M values] a found ∧
      ∀ x ∈ found, ∃ e ∈ es, e.key = x.existing.key
  origin : ∀ e ∈ m'.table.entities,
    e ∈ es.map (overlay values) ∨ e ∈ m.table.entities ∧ ∀ x ∈ es, x.key ≠ e.key

/-- An update that succeeds returns the entities over which it wrote. -/
theorem updated_of_exec {kind : String} {c : Criteria} {out : List Record} {w w' : Session Memory}
    (hmodel : registry.get kind = .ok M)
    (h : (update ⟨Memory.store, config, registry⟩ kind c values).exec w = (.ok out, w')) :
    ∃ es, out = (es.map (overlay values)).map M.toRecord ∧
      Updated config M values es w.store w'.store := by
  obtain ⟨es, w₁, hmatched, hout, hwrite⟩ := exec_update_ok hmodel h
  obtain ⟨hkeeps₁, hstored⟩ := keeps_matched w.store config registry M c w rfl
  rw [hmatched] at hkeeps₁ hstored
  refine ⟨es, hout, ?_⟩
  rcases hwrite with ⟨rfl, rfl⟩ | ⟨found, w₂, hconflicts, hothers, hupdate⟩
  · refine ⟨Memory.space_of_bare hkeeps₁, hstored [] rfl, fun hne => absurd rfl hne, ?_⟩
    intro e he
    rw [Memory.table_of_bare hkeeps₁] at he
    exact .inr ⟨he, fun x hx => absurd hx List.not_mem_nil⟩
  · obtain ⟨hkeeps₂, hfinds⟩ := keeps_conflicts w.store config registry M _ w₁ hkeeps₁
    rw [hconflicts] at hkeeps₂ hfinds
    have hstore := Memory.update_eq_ok hupdate
    refine ⟨?_, hstored es rfl, ?_, ?_⟩
    · rw [hstore]
      exact Memory.space_of_bare (m := w.store) (s := w₂.store) hkeeps₂
    · intro _ a ha
      obtain ⟨found', hfound, hsubset⟩ := (hfinds found rfl).1 a ha
      refine ⟨found', hfound, ?_⟩
      intro x hx
      have hany := List.filter_eq_nil_iff.1 hothers x (hsubset hx)
      simpa using hany
    · intro e he
      rw [hstore] at he
      have horigin := Table.mem_of_insertAll he
      rw [Memory.table_of_bare hkeeps₂] at horigin
      refine horigin.imp_right ?_
      rintro ⟨hold, hothers⟩
      exact ⟨hold, fun x hx => hothers (overlay values x) (List.mem_map_of_mem hx)⟩

namespace Updated

variable {a : UniqueAttribute} {e e₁ e₂ : Entity} {v v₁ v₂ : Value}

/-- Every entity was there under its key, and holds what was written over it, if anything was. -/
theorem exists_before (h : Updated config M values es m m') (he : e ∈ m'.ofKind M.kind) :
    ∃ x ∈ m.ofKind M.kind, x.key = e.key ∧ (e = x ∨ e = overlay values x ∧ x ∈ es) := by
  obtain ⟨hmem, hscope⟩ := Memory.mem_ofKind.1 he
  rw [h.space] at hscope
  rcases h.origin e hmem with hnew | ⟨hold, _⟩
  · obtain ⟨x, hx, rfl⟩ := List.mem_map.1 hnew
    exact ⟨x, Memory.mem_ofKind.2 ⟨h.stored x hx, hscope⟩, rfl, .inr ⟨rfl, hx⟩⟩
  · exact ⟨e, Memory.mem_ofKind.2 ⟨hold, hscope⟩, rfl, .inl rfl⟩

/-- An entity holds a value because it was written, or because the entity held it before. -/
theorem written_or_held (h : Updated config M values es m m') (he : e ∈ m'.ofKind M.kind)
    (hv : e.properties.get? a.column = some v) :
    (values.get? a.column = some v ∧ e ∈ es.map (overlay values)) ∨
      ∃ x ∈ m.ofKind M.kind, x.key = e.key ∧ x.properties.get? a.column = some v := by
  obtain ⟨x, hx, hkey, rfl | ⟨rfl, hmem⟩⟩ := h.exists_before he
  · exact .inr ⟨_, hx, rfl, hv⟩
  · rw [get?_overlay] at hv
    cases hvalue : values.get? a.column with
    | none =>
        rw [hvalue, Option.none_or] at hv
        exact .inr ⟨x, hx, hkey, hv⟩
    | some w =>
        rw [hvalue, Option.some_or] at hv
        exact .inl ⟨hv, List.mem_map_of_mem hmem⟩

/-- Of two entities that hold equal values, one was written. -/
theorem written (h : Updated config M values es m m') (hunique : m.IsUnique M) (ha : a ∈ M.unique)
    (hcolumn : a.column ≠ M.primaryKeyColumn) (he₁ : e₁ ∈ m'.ofKind M.kind)
    (he₂ : e₂ ∈ m'.ofKind M.kind) (hne : e₁ ≠ e₂) (hv₁ : e₁.properties.get? a.column = some v₁)
    (hv₂ : e₂.properties.get? a.column = some v₂) (hnull : v₁ ≠ .null) (hequal : v₁.Equal v₂) :
    (values.get? a.column = some v₁ ∧ e₁ ∈ es.map (overlay values)) ∨
      (values.get? a.column = some v₂ ∧ e₂ ∈ es.map (overlay values)) := by
  rcases h.written_or_held he₁ hv₁ with hwritten | ⟨x₁, hx₁, hkey₁, hheld₁⟩
  · exact .inl hwritten
  · rcases h.written_or_held he₂ hv₂ with hwritten | ⟨x₂, hx₂, hkey₂, hheld₂⟩
    · exact .inr hwritten
    · -- Both held the values before, so they are one.
      refine absurd ⟨v₁, v₂, hheld₁, hheld₂, hnull, hequal⟩
        (hunique a ha hcolumn x₁ hx₁ x₂ hx₂ ?_)
      rintro rfl
      exact hne (Entities.eq_of_key_eq m'.table.sorted (Memory.mem_ofKind.1 he₁).1
        (Memory.mem_ofKind.1 he₂).1 (hkey₁.symm.trans hkey₂))

/-- An entity that holds what was written into another was written as well, lists apart: it would
have been found if it had held the value before. -/
theorem written_of_same (h : Updated config M values es m m') (ha : a ∈ M.unique)
    (hcolumn : a.column ≠ M.primaryKeyColumn) (he₁ : e₁ ∈ es.map (overlay values))
    (hv₁ : values.get? a.column = some v₁) (hnull : v₁ ≠ .null) (he₂ : e₂ ∈ m'.ofKind M.kind)
    (hv₂ : e₂.properties.get? a.column = some v₂) (hlist : ∀ items, v₂ ≠ .array items)
    (hsame : v₂.same v₁ = true) :
    values.get? a.column = some v₂ ∧ e₂ ∈ es.map (overlay values) := by
  obtain ⟨hmem, hscope⟩ := Memory.mem_ofKind.1 he₂
  rcases h.origin e₂ hmem with hnew | ⟨hold, huntouched⟩
  · obtain ⟨x, _, rfl⟩ := List.mem_map.1 hnew
    rw [get?_overlay, hv₁, Option.some_or] at hv₂
    exact ⟨hv₁.trans hv₂, hnew⟩
  · have hne : es ≠ [] := by
      rintro rfl
      cases he₁
    obtain ⟨found, hfinds, hamong⟩ := h.compared hne a ha
    rw [h.space] at hscope
    obtain ⟨x, hx, hkey⟩ := exists_of_stored hfinds hcolumn (Memory.mem_ofKind.2 ⟨hold, hscope⟩) hv₂
      hlist List.mem_cons_self (present?_uniqueValues ha hv₁ hnull) hsame
    obtain ⟨y, hy, hykey⟩ := hamong x hx
    exact absurd (hykey.trans hkey) (huntouched y hy)

end Updated

/-- **Equal values come in by one call.** In a memory where no two entities of the kind hold equal
values in a unique column, and with no other clients, an update that succeeds leaves it so but for
what it writes. If two entities hold equal values in the end, other than null, then the update wrote
the value of one of them. Unless the values are lists, it wrote both, and returns both entities in
different places. -/
theorem update_keeps_unique (config : Config) (registry : Registry) (kind : String) (M : Model)
    (c : Criteria) (values : Record) (out : List Record) (w w' : Session Memory)
    (hmodel : registry.get kind = .ok M) (hunique : w.store.IsUnique M)
    (hupdate : (update ⟨Memory.store, config, registry⟩ kind c values).exec w = (.ok out, w')) :
    ∀ a ∈ M.unique, a.column ≠ M.primaryKeyColumn →
      ∀ e₁ ∈ w'.store.ofKind M.kind, ∀ e₂ ∈ w'.store.ofKind M.kind, e₁ ≠ e₂ →
        ∀ v₁ v₂, e₁.properties.get? a.column = some v₁ → e₂.properties.get? a.column = some v₂ →
          v₁ ≠ .null → v₁.Equal v₂ →
          (values.get? a.column = some v₁ ∧ M.toRecord e₁ ∈ out ∨
              values.get? a.column = some v₂ ∧ M.toRecord e₂ ∈ out) ∧
            ((∀ items, v₁ ≠ .array items) → ∃ i j : Nat, i ≠ j ∧
              values.get? a.column = some v₁ ∧ values.get? a.column = some v₂ ∧
              out[i]? = some (M.toRecord e₁) ∧ out[j]? = some (M.toRecord e₂)) := by
  intro a ha hcolumn e₁ he₁ e₂ he₂ hne v₁ v₂ hv₁ hv₂ hnull hequal
  obtain ⟨es, rfl, hupdated⟩ := updated_of_exec hmodel hupdate
  have hwritten := hupdated.written hunique ha hcolumn he₁ he₂ hne hv₁ hv₂ hnull hequal
  constructor
  · exact hwritten.imp (And.imp_right List.mem_map_of_mem) (And.imp_right List.mem_map_of_mem)
  · intro hlist
    have hboth : (values.get? a.column = some v₁ ∧ e₁ ∈ es.map (overlay values)) ∧
        (values.get? a.column = some v₂ ∧ e₂ ∈ es.map (overlay values)) := by
      rcases hwritten with ⟨hvalue, hmem⟩ | ⟨hvalue, hmem⟩
      · exact ⟨⟨hvalue, hmem⟩, hupdated.written_of_same ha hcolumn hmem hvalue hnull he₂ hv₂
          (hequal.ne_array hlist) hequal.2⟩
      · exact ⟨hupdated.written_of_same ha hcolumn hmem hvalue (hequal.ne_null hnull) he₁ hv₁ hlist
          hequal.1, ⟨hvalue, hmem⟩⟩
    obtain ⟨⟨hvalue₁, hmem₁⟩, hvalue₂, hmem₂⟩ := hboth
    obtain ⟨i, hi⟩ := List.getElem?_of_mem hmem₁
    obtain ⟨j, hj⟩ := List.getElem?_of_mem hmem₂
    refine ⟨i, j, ?_, hvalue₁, hvalue₂, ?_, ?_⟩
    · rintro rfl
      exact hne (Option.some.inj (hi.symm.trans hj))
    · rw [List.getElem?_map, hi]
      rfl
    · rw [List.getElem?_map, hj]
      rfl

/-! ## People with new emails -/

/-- Writes an email into the people that match. -/
def updatePeople (c : Clause) (email : Value) : Action Memory Failure (List Record) :=
  update ⟨Memory.store, .default, ⟨[people]⟩⟩ "Person" { Criteria.everything with clause := c }
    (.ofColumns [("email", email)])

theorem isUnique_of_ofKind (a b : Value) {m : Memory} {i j : Int64}
    (h : m.ofKind "Person" = [person i a, person j b]) (hab : a.same b = false) :
    m.IsUnique people := by
  rintro u hu _ e₁ he₁ e₂ he₂ hne ⟨v, w, hv, hw, _, hequal⟩
  obtain rfl := List.mem_singleton.1 hu
  have hmem : ∀ {e : Entity}, e ∈ m.ofKind people.kind → e = person i a ∨ e = person j b := by
    intro e he
    have hlist : e ∈ m.ofKind "Person" := he
    simpa [h] using hlist
  have hnot : a.same b ≠ true := by simp [hab]
  rcases hmem he₁ with rfl | rfl
  · rcases hmem he₂ with rfl | rfl
    · exact hne rfl
    · cases hv
      cases hw
      exact hnot hequal.1
  · rcases hmem he₂ with rfl | rfl
    · cases hv
      cases hw
      exact hnot hequal.2
    · exact hne rfl

/-- Two people, whose emails differ. -/
def couple (a b : Value) : Session Memory := ((createPeople [a, b]).exec nobody).2

theorem isUnique_couple : (couple (.string "b@x") (.string "c@x")).store.IsUnique people :=
  isUnique_of_ofKind (.string "b@x") (.string "c@x") (i := 1) (j := 2) (by decide +kernel)
    (by decide)

/-- Two people are given one email. Both come from their places in the call. -/
theorem update_keeps_unique_couple :
    ∃ (out : List Record) (w' : Session Memory) (i j : Nat),
      (updatePeople .everything (.string "a@x")).exec (couple (.string "b@x") (.string "c@x")) =
        (.ok out, w') ∧
      i ≠ j ∧ out[i]? = some (people.toRecord (person 1 (.string "a@x"))) ∧
      out[j]? = some (people.toRecord (person 2 (.string "a@x"))) := by
  generalize hrun : (updatePeople .everything (.string "a@x")).exec
    (couple (.string "b@x") (.string "c@x")) = out
  have hok : out.1.isOk = true := by
    rw [← hrun, updatePeople, Memory.store_eq_storeBy]
    decide +kernel
  have hfirst : person 1 (.string "a@x") ∈ out.2.store.ofKind "Person" := by
    rw [← hrun, updatePeople, Memory.store_eq_storeBy]
    decide +kernel
  have hsecond : person 2 (.string "a@x") ∈ out.2.store.ofKind "Person" := by
    rw [← hrun, updatePeople, Memory.store_eq_storeBy]
    decide +kernel
  rcases out with ⟨_ | out, w'⟩
  · cases hok
  · obtain ⟨_, hplaces⟩ := update_keeps_unique .default ⟨[people]⟩ "Person" people _ _ out _ w' rfl
      isUnique_couple hrun ⟨"email", "email"⟩ (by decide) (by decide) _ hfirst _ hsecond (by decide)
      _ _ rfl rfl (by decide) ⟨by decide, by decide⟩
    obtain ⟨i, j, hne, _, _, hi, hj⟩ := hplaces (by rintro _ ⟨⟩)
    exact ⟨out, w', i, j, rfl, hne, hi, hj⟩

/-- People that an update writes share their email. A person may also be given the email of another
one, if the email is a list. -/
theorem update_not_unique :
    let twins := (updatePeople .everything (.string "a@x")).exec
      (couple (.string "b@x") (.string "c@x"))
    let listed := couple (.array [.string "a@x"]) (.string "b@x")
    let again := (updatePeople (.equals "id" (.number (.ofNat 2))) (.array [.string "a@x"])).exec
      listed
    ((couple (.string "b@x") (.string "c@x")).store.IsUnique people ∧ twins.1.isOk = true ∧
        ¬ twins.2.store.IsUnique people) ∧
      listed.store.IsUnique people ∧ again.1.isOk = true ∧ ¬ again.2.store.IsUnique people := by
  simp only [updatePeople, Memory.store_eq_storeBy]
  refine ⟨⟨isUnique_couple, by decide +kernel, ?_⟩,
    isUnique_of_ofKind (.array [.string "a@x"]) (.string "b@x") (i := 1) (j := 2)
      (by decide +kernel) (by decide), by decide +kernel, ?_⟩
  · exact not_isUnique_of_mem (.string "a@x") (i := 1) (j := 2) (by decide +kernel)
      (by decide +kernel) (by decide) (by decide) (by decide)
  · exact not_isUnique_of_mem (.array [.string "a@x"]) (i := 1) (j := 2) (by decide +kernel)
      (by decide +kernel) (by decide) (by decide) (by decide)

end Engine

end Quarry
