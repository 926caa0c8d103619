import Quarry.Proofs.Engine.Steps
import Quarry.Proofs.Model.Mapping
import Quarry.Proofs.Store.Writes

/-!
# What creating entities keeps unique

New records are compared with the stored entities, not with each other. So equal values in a unique
column can come in only with two records of one call. A list escapes the comparison as well, since
the store looks up its items and not the list.
-/

namespace Quarry

open Quarry.Action Json

namespace Entity

/-- The entities hold equal values in a column, other than null. -/
def Shares (column : String) (a b : Entity) : Prop :=
  ∃ v w, a.properties.get? column = some v ∧ b.properties.get? column = some w ∧ v ≠ .null ∧
    v.Equal w

end Entity

namespace Memory

/-- No two entities of the model's kind in the namespace hold equal values, other than null, in a
unique column besides that of the primary key. -/
def IsUnique (M : Model) (m : Memory) : Prop :=
  ∀ a ∈ M.unique, a.column ≠ M.primaryKeyColumn →
    ∀ e₁ ∈ m.ofKind M.kind, ∀ e₂ ∈ m.ofKind M.kind, e₁ ≠ e₂ → ¬ e₁.Shares a.column e₂

end Memory

/-! ## New entities -/

namespace Model

variable {M : Model} {space : Option String} {records : List Record} {es : List Entity}

/-- The entity of a record holds what the record does, but for the primary-key column. -/
def Describes (M : Model) (r : Record) (e : Entity) : Prop :=
  ∀ column, column ≠ M.primaryKeyColumn → e.properties.get? column = r.get? column

theorem describes_of_toEntity {r : Record} {e : Entity} (h : M.toEntity space r = .ok e) :
    M.Describes r e := by
  obtain ⟨id, _, rfl⟩ := map_eq_ok.1 h
  intro column hcolumn
  exact (r.get?_takeOut M.primaryKeyColumn column).trans (if_neg hcolumn)

/-- An entity that is stored for records is that of the record in its place. -/
theorem record_of_underKeys (h : records.mapM (M.toEntity space) = .ok es) {ks : List Key} {i : Nat}
    {e : Entity} (hi : (Memory.underKeys ks es)[i]? = some e) :
    ∃ r, records[i]? = some r ∧ M.Describes r e := by
  rw [Memory.underKeys, List.getElem?_map, Option.map_eq_some_iff] at hi
  obtain ⟨⟨k, x⟩, hzip, rfl⟩ := hi
  obtain ⟨_, hx⟩ := List.getElem?_zip_eq_some.1 hzip
  obtain ⟨hlength, hall⟩ := List.forall₂_iff_get.1 (mapM_eq_ok.1 h)
  obtain ⟨hlt, rfl⟩ := List.getElem?_eq_some_iff.1 hx
  have hlt' : i < records.length := hlength ▸ hlt
  have hdescribes := describes_of_toEntity (hall i hlt' hlt)
  exact ⟨records[i], List.getElem?_eq_getElem hlt', hdescribes⟩

end Model

namespace Engine

variable {config : Config} {registry : Registry} {M : Model} {records : List Record}

/-! ## Creating -/

/-- A creation that succeeds has stored the entities of its records and returns them as records. -/
theorem exec_create_ok {kind : String} {out : List Record} {w w' : Session Memory}
    (hmodel : registry.get kind = .ok M)
    (h : (create ⟨Memory.store, config, registry⟩ kind records).exec w = (.ok out, w')) :
    ∃ w₁ es ks, (enforceUniqueness ⟨Memory.store, config, registry⟩ M records).exec w =
        (.ok (), w₁) ∧
      records.mapM (M.toEntity w₁.store.space) = .ok es ∧
      w₁.store.save es = (.ok ks, w'.store) ∧
      out = (Memory.underKeys ks es).map M.toRecord := by
  rw [create, exec_model_bind hmodel] at h
  obtain ⟨_, w₁, hunique, hwrites⟩ := exec_bind_eq_ok.1 h
  obtain ⟨_, _, hspace, hmaps⟩ := exec_bind_eq_ok.1 hwrites
  cases hspace
  obtain ⟨es, w₂, hmapped, hsaves⟩ := exec_bind_eq_ok.1 hmaps
  obtain ⟨hes, rfl⟩ := exec_ofExcept_eq_ok hmapped
  obtain ⟨ks, w₃, hsaved, hreports⟩ := exec_bind_eq_ok.1 hsaves
  rw [exec_bind_ok (exec_report _ _ _ _)] at hreports
  cases hreports
  have hstored := store_of_exec_write hsaved
  refine ⟨_, es, ks, hunique, hes, hstored, ?_⟩
  rw [Memory.underKeys, List.map_map]
  rfl

/-- After a creation, an entity of the kind was there before or is stored for a record. -/
theorem origin_of_create {kind : String} {out : List Record} {w w' : Session Memory}
    (hmodel : registry.get kind = .ok M)
    (h : (create ⟨Memory.store, config, registry⟩ kind records).exec w = (.ok out, w')) :
    (∀ a ∈ M.unique,
      Probe.Finds w.store (compilerFor config M w.store) records a []) ∧
    ∃ stored : List Entity, out = stored.map M.toRecord ∧
      ∀ e ∈ w'.store.ofKind M.kind, e ∈ w.store.ofKind M.kind ∨
        ∃ (i : Nat) (r : Record), stored[i]? = some e ∧ records[i]? = some r ∧
          M.Describes r e := by
  obtain ⟨w₁, es, ks, hunique, hes, hsave, hout⟩ := exec_create_ok hmodel h
  obtain ⟨hkeeps, hfinds⟩ := keeps_enforceUniqueness w.store config registry M records w rfl
  rw [hunique] at hkeeps hfinds
  have hinserted := Memory.insertAll_of_save hsave
  have hspace : w'.store.space = w.store.space := by
    have hinsertAll := w₁.store.space_insertAll es
    rw [hinserted] at hinsertAll
    exact hinsertAll.trans (Memory.space_of_bare hkeeps)
  refine ⟨hfinds () rfl, _, hout, ?_⟩
  intro e he
  rw [Memory.mem_ofKind, hspace] at he
  obtain ⟨hmem, hscope⟩ := he
  rcases Memory.mem_of_insertAll hinserted hmem with hold | hnew
  · rw [Memory.table_of_bare hkeeps] at hold
    exact .inl (Memory.mem_ofKind.2 ⟨hold, hscope⟩)
  · obtain ⟨i, hi⟩ := List.getElem?_of_mem hnew
    obtain ⟨r, hr, hdescribes⟩ := Model.record_of_underKeys hes hi
    exact .inr ⟨i, r, hi, hr, hdescribes⟩

/-- What passes the comparison holds no value that is stored, lists apart. -/
theorem not_same_of_stored {m : Memory} {a : UniqueAttribute}
    (hfinds : Probe.Finds m (compilerFor config M m) records a [])
    (hcolumn : a.column ≠ M.primaryKeyColumn) {e : Entity} (he : e ∈ m.ofKind M.kind) {v w : Value}
    (hv : e.properties.get? a.column = some v) (hlist : ∀ items, v ≠ .array items) {r : Record}
    (hr : r ∈ records) (hw : r.get? a.column = some w) (hnull : w ≠ .null) : v.same w = false := by
  by_contra hsame
  rw [Bool.not_eq_false] at hsame
  obtain ⟨x, hx, _⟩ := exists_of_stored hfinds hcolumn he hv hlist hr
    (Record.present?_of_get? hw hnull) hsame
  cases hx

/-- **Equal values come in by one call.** In a memory where no two entities of the kind hold equal
values in a unique column, and with no other clients, a creation that succeeds leaves it so but for
its own records. If two entities hold equal values in the end, neither null nor lists, then two
records of the call propose them, and both entities are returned as the records in their places. -/
theorem create_keeps_unique (config : Config) (registry : Registry) (kind : String) (M : Model)
    (records out : List Record) (w w' : Session Memory) (hmodel : registry.get kind = .ok M)
    (hunique : w.store.IsUnique M)
    (hcreate : (create ⟨Memory.store, config, registry⟩ kind records).exec w = (.ok out, w')) :
    ∀ a ∈ M.unique, a.column ≠ M.primaryKeyColumn →
      ∀ e₁ ∈ w'.store.ofKind M.kind, ∀ e₂ ∈ w'.store.ofKind M.kind, e₁ ≠ e₂ →
        ∀ v₁ v₂, e₁.properties.get? a.column = some v₁ → e₂.properties.get? a.column = some v₂ →
          v₁ ≠ .null → v₁.Equal v₂ → (∀ items, v₁ ≠ .array items) →
          ∃ (i j : Nat) (r₁ r₂ : Record), i ≠ j ∧ records[i]? = some r₁ ∧ records[j]? = some r₂ ∧
            r₁.get? a.column = some v₁ ∧ r₂.get? a.column = some v₂ ∧
            out[i]? = some (M.toRecord e₁) ∧ out[j]? = some (M.toRecord e₂) := by
  intro a ha hcolumn e₁ he₁ e₂ he₂ hne v₁ v₂ hv₁ hv₂ hnull hequal hlist
  obtain ⟨hfinds, stored, rfl, horigin⟩ := origin_of_create hmodel hcreate
  have hnull₂ : v₂ ≠ .null := by
    rintro rfl
    exact hnull (Value.null_of_same hequal.2)
  have hlist₂ : ∀ items, v₂ ≠ .array items := by
    rintro items rfl
    obtain ⟨items', heq, _⟩ := Value.items_of_same hequal.2
    exact hlist items' heq
  rcases horigin e₁ he₁ with hold₁ | ⟨i, r₁, hi, hr₁, hdescribes₁⟩
  · rcases horigin e₂ he₂ with hold₂ | ⟨j, r₂, _, hr₂, hdescribes₂⟩
    · exact absurd ⟨v₁, v₂, hv₁, hv₂, hnull, hequal⟩ (hunique a ha hcolumn e₁ hold₁ e₂ hold₂ hne)
    · rw [hdescribes₂ a.column hcolumn] at hv₂
      have hsame := not_same_of_stored (hfinds a ha) hcolumn hold₁ hv₁ hlist
        (List.mem_of_getElem? hr₂) hv₂ hnull₂
      rw [hequal.1] at hsame
      cases hsame
  · rw [hdescribes₁ a.column hcolumn] at hv₁
    rcases horigin e₂ he₂ with hold₂ | ⟨j, r₂, hj, hr₂, hdescribes₂⟩
    · have hsame := not_same_of_stored (hfinds a ha) hcolumn hold₂ hv₂ hlist₂
        (List.mem_of_getElem? hr₁) hv₁ hnull
      rw [hequal.2] at hsame
      cases hsame
    · rw [hdescribes₂ a.column hcolumn] at hv₂
      have hplaces : i ≠ j := by
        rintro rfl
        exact hne (Option.some.inj (hi.symm.trans hj))
      refine ⟨i, j, r₁, r₂, hplaces, hr₁, hr₂, hv₁, hv₂, ?_, ?_⟩
      · rw [List.getElem?_map, hi]
        rfl
      · rw [List.getElem?_map, hj]
        rfl

/-! ## People with emails -/

/-- The model of people, whose emails are to be unique. -/
def people : Model := ⟨"Person", "id", "id", [⟨"email", "email"⟩]⟩

def person (id : Int64) (email : Value) : Entity :=
  ⟨people.keyOf none (some (.number id)), .ofColumns [("email", email)]⟩

def nobody : Session Memory := .start (.empty none 10)

/-- Creates people with these emails. -/
def createPeople (emails : List Value) : Action Memory Failure (List Record) :=
  create ⟨Memory.store, .default, ⟨[people]⟩⟩ "Person"
    (emails.map fun email => .ofColumns [("email", email)])

theorem isUnique_of_length_le {m : Memory} (h : (m.ofKind M.kind).length ≤ 1) : m.IsUnique M := by
  intro a _ _ e₁ he₁ e₂ he₂ hne
  obtain ⟨i, hi, rfl⟩ := List.getElem_of_mem he₁
  obtain ⟨j, hj, rfl⟩ := List.getElem_of_mem he₂
  obtain rfl : i = j := by omega
  exact absurd rfl hne

/-- After the first person, the second and the third of a call share an email. Both come from their
places in the call. -/
theorem create_keeps_unique_twins :
    ∃ (out : List Record) (w' : Session Memory) (i j : Nat),
      (createPeople [.string "b@x", .string "a@x", .string "a@x"]).exec
        ((createPeople [.string "c@x"]).exec nobody).2 = (.ok out, w') ∧
      i ≠ j ∧ out[i]? = some (people.toRecord (person 3 (.string "a@x"))) ∧
      out[j]? = some (people.toRecord (person 4 (.string "a@x"))) := by
  generalize hrun : (createPeople [.string "b@x", .string "a@x", .string "a@x"]).exec
    ((createPeople [.string "c@x"]).exec nobody).2 = out
  have hok : out.1.isOk = true := by
    rw [← hrun]
    decide +kernel
  have hthird : person 3 (.string "a@x") ∈ out.2.store.ofKind "Person" := by
    rw [← hrun]
    decide +kernel
  have hfourth : person 4 (.string "a@x") ∈ out.2.store.ofKind "Person" := by
    rw [← hrun]
    decide +kernel
  rcases out with ⟨_ | out, w'⟩
  · cases hok
  · have honly : ((createPeople [.string "c@x"]).exec nobody).2.store.IsUnique people :=
      isUnique_of_length_le (by decide +kernel)
    obtain ⟨i, j, _, _, hne, _, _, _, _, hi, hj⟩ := create_keeps_unique .default ⟨[people]⟩
      "Person" people _ out _ w' rfl honly hrun ⟨"email", "email"⟩ (by decide) (by decide)
      _ hthird _ hfourth (by decide) _ _ rfl rfl (by decide) ⟨by decide, by decide⟩
      (by rintro _ ⟨⟩)
    exact ⟨out, w', i, j, rfl, hne, hi, hj⟩

theorem not_isUnique_of_mem (email : Value) {m : Memory} {i j : Int64}
    (hi : person i email ∈ m.ofKind "Person") (hj : person j email ∈ m.ofKind "Person")
    (hne : i ≠ j) (hnull : email ≠ .null) (hsame : email.same email = true) :
    ¬ m.IsUnique people := by
  intro h
  have hdistinct : person i email ≠ person j email := by
    intro heq
    cases heq
    exact hne rfl
  have hget : ∀ id, (person id email).properties.get? "email" = some email := fun _ => rfl
  exact h ⟨"email", "email"⟩ (by decide) (by decide) _ hi _ hj hdistinct
    ⟨email, email, hget i, hget j, hnull, hsame, hsame⟩

/-- Two people of one call may have the same email. So may two people of different calls, if the
email is a list. -/
theorem create_not_unique :
    let twins := (createPeople [.string "a@x", .string "a@x"]).exec nobody
    let listed := ((createPeople [.array [.string "a@x"]]).exec nobody).2
    let again := (createPeople [.array [.string "a@x"]]).exec listed
    (nobody.store.IsUnique people ∧ twins.1.isOk = true ∧ ¬ twins.2.store.IsUnique people) ∧
      listed.store.IsUnique people ∧ again.1.isOk = true ∧ ¬ again.2.store.IsUnique people := by
  refine ⟨⟨isUnique_of_length_le (by decide), by decide +kernel, ?_⟩,
    isUnique_of_length_le (by decide +kernel), by decide +kernel, ?_⟩
  · exact not_isUnique_of_mem (.string "a@x") (i := 1) (j := 2) (by decide +kernel)
      (by decide +kernel) (by decide) (by decide) (by decide)
  · exact not_isUnique_of_mem (.array [.string "a@x"]) (i := 1) (j := 2) (by decide +kernel)
      (by decide +kernel) (by decide) (by decide) (by decide)

end Engine

end Quarry
