import Quarry.Proofs.Engine.Matched
import Quarry.Proofs.Engine.Update

/-!
# What an update changes

An update that succeeds has written its values over what a search with the same criteria finds with
everything selected. Each entity that is found keeps its key and the properties that are not written
over, and all other entities stay as they are. Where nothing is found, the update is no more than
the search.
-/

namespace Quarry

open Quarry.Action

namespace Engine

variable {config : Config} {registry : Registry} {kind : String} {M : Model} {c : Criteria}
  {values : Record} {es : List Entity} {out : List Record} {m m' : Memory} {w w' : Session Memory}

/-- The other memory is this one with values written over these entities. -/
structure Overlaid (values : Record) (es : List Entity) (m m' : Memory) : Prop where
  written : ∀ e ∈ es, m'.get? e.key = some (overlay values e)
  others : ∀ k, (∀ e ∈ es, e.key ≠ k) → m'.get? k = m.get? k

theorem overlaid_of_table (h : m'.table = m.table) : Overlaid values [] m m' := by
  constructor
  · intro e he
    cases he
  · intro k _
    rw [Memory.get?, Memory.get?, h]

theorem overlaid_of_update {s : Memory} (hkeys : (es.map Entity.key).Nodup)
    (htable : s.table = m.table) (h : s.update (es.map (overlay values)) = (.ok (), m')) :
    Overlaid values es m m' := by
  have hsame : (es.map (overlay values)).map Entity.key = es.map Entity.key := by
    rw [List.map_map]
    rfl
  obtain rfl := Memory.update_eq_ok h
  constructor
  · intro e he
    exact Table.get?_insertAll_of_mem (hsame ▸ hkeys) (List.mem_map_of_mem he)
  · intro k hothers
    show (s.table.insertAll (es.map (overlay values))).get? k = m.table.get? k
    rw [htable]
    apply Table.get?_insertAll_of_ne
    intro x hx
    obtain ⟨e, he, rfl⟩ := List.mem_map.1 hx
    exact hothers e he

namespace Overlaid

/-- It does not matter how often an entity is named. -/
theorem of_eraseDups (h : Overlaid values es.eraseDups m m') : Overlaid values es m m' := by
  constructor
  · intro e he
    exact h.written e (List.mem_eraseDups.2 he)
  · intro k hothers
    exact h.others k fun e he => hothers e (List.mem_eraseDups.1 he)

/-- The keys are those of before. -/
theorem isSome_get? (h : Overlaid values es m m') (hes : ∀ e ∈ es, e ∈ m.table.entities) (k : Key) :
    (m'.get? k).isSome = (m.get? k).isSome := by
  by_cases hfound : ∃ e ∈ es, e.key = k
  · obtain ⟨e, he, rfl⟩ := hfound
    have hstored : m.get? e.key = some e := Table.get?_eq_some_iff.2 ⟨hes e he, rfl⟩
    rw [h.written e he, hstored]
    rfl
  · rw [h.others k fun e he hkey => hfound ⟨e, he, hkey⟩]

/-- An entity holds what was written, and elsewhere what it held before. -/
theorem exists_written (h : Overlaid values es m m') {e : Entity} (he : e ∈ es) :
    ∃ x, m'.get? e.key = some x ∧ x.key = e.key ∧ ∀ column,
      x.properties.get? column = (values.get? column).or (e.properties.get? column) :=
  ⟨overlay values e, h.written e he, rfl, get?_overlay values e⟩

end Overlaid

/-- An update that succeeds has written over what it found, and returns that. -/
theorem overlaid_of_exec (hmodel : registry.get kind = .ok M)
    (h : (update ⟨Memory.store, config, registry⟩ kind c values).exec w = (.ok out, w')) :
    ∃ r w₁, (run ⟨Memory.store, config, registry⟩ M { c with select := .everything }).exec w =
        (.ok r, w₁) ∧
      out = (r.entities.eraseDups.map (overlay values)).map M.toRecord ∧
      Overlaid values r.entities w.store w'.store := by
  obtain ⟨es, w₁, hmatched, hout, hwrites⟩ := exec_update_ok hmodel h
  obtain ⟨r, w₂, hrun, hdistinct⟩ := exec_bind_eq_ok.1 hmatched
  cases hdistinct
  obtain ⟨_, hkept, hstored⟩ := exec_matched hrun
  have hfirsts := distinct_eq_eraseDups hstored
  have hkeys := nodup_distinct r.entities
  rw [hfirsts] at hout hwrites hkeys
  refine ⟨r, _, hrun, hout, ?_⟩
  apply Overlaid.of_eraseDups
  rcases hwrites with ⟨hnone, rfl⟩ | ⟨found, w₃, hconflicts, _, hupdate⟩
  · rw [hnone]
    exact overlaid_of_table (Memory.table_of_bare hkept)
  · obtain ⟨hkept', _⟩ := keeps_conflicts w.store config registry M _ _ hkept
    rw [hconflicts] at hkept'
    exact overlaid_of_update hkeys (Memory.table_of_bare hkept') hupdate

/-- Where the search finds nothing, the update ends with it. -/
theorem exec_update_none (hmodel : registry.get kind = .ok M)
    (hkey : values.get? M.primaryKeyColumn = none)
    (h : (find ⟨Memory.store, config, registry⟩ kind { c with select := .everything }).exec w =
      (.ok [], w')) :
    (update ⟨Memory.store, config, registry⟩ kind c values).exec w = (.ok [], w') := by
  rw [find, exec_model_bind hmodel] at h
  obtain ⟨r, w₁, hrun, hrecords⟩ := exec_bind_eq_ok.1 h
  have hnone : r.entities = [] := List.map_eq_nil_iff.1 (Except.ok.inj (congrArg Prod.fst hrecords))
  obtain ⟨hmatched, _, _⟩ := exec_matched hrun
  rw [hnone] at hmatched
  have hsession : w₁ = w' := congrArg Prod.snd hrecords
  rw [update, exec_model_bind hmodel, hkey, Option.isSome_none, if_neg Bool.false_ne_true,
    exec_bind_ok hmatched, hsession]
  rfl

/-- **An update changes what it matches and nothing else.** The primary key cannot be written. Where
a search with the same criteria finds nothing, the update ends as the search does: it looks nothing
up and writes nothing. An update that succeeds leaves the keys as they are. Each entity that the
search finds with everything selected then holds the values in their columns and its own in all
others, and under any other key there is what was there before. The update returns the records of
what is now stored of these entities, each once, in the order of first appearance. -/
theorem update_changes_found (config : Config) (registry : Registry) (kind : String) (M : Model)
    (c : Criteria) (values : Record) (w : Session Memory) (hmodel : registry.get kind = .ok M)
    (hkey : values.get? M.primaryKeyColumn = none) :
    let E : Engine Memory := ⟨Memory.store, config, registry⟩
    let all : Criteria := { c with select := .everything }
    (∀ w', (E.find kind all).exec w = (.ok [], w') →
        (E.update kind c values).exec w = (.ok [], w')) ∧
      ∀ out w', (E.update kind c values).exec w = (.ok out, w') →
        ∃ r w₁, (E.run M all).exec w = (.ok r, w₁) ∧
          (E.find kind all).exec w = (.ok (r.entities.map M.toRecord), w₁) ∧
          (∀ e ∈ r.entities, w.store.get? e.key = some e) ∧
          (∀ k, (w'.store.get? k).isSome = (w.store.get? k).isSome) ∧
          (∀ e ∈ r.entities, ∃ x, w'.store.get? e.key = some x ∧ x.key = e.key ∧ ∀ column,
            x.properties.get? column = (values.get? column).or (e.properties.get? column)) ∧
          (∀ k, (∀ e ∈ r.entities, e.key ≠ k) → w'.store.get? k = w.store.get? k) ∧
          out.map some =
            r.entities.eraseDups.map fun e => (w'.store.get? e.key).map M.toRecord := by
  intro E all
  constructor
  · intro w' hnone
    exact exec_update_none hmodel hkey hnone
  · intro out w' hupdate
    obtain ⟨r, w₁, hrun, hout, hoverlaid⟩ := overlaid_of_exec hmodel hupdate
    obtain ⟨_, _, hstored⟩ := exec_matched hrun
    refine ⟨r, w₁, hrun, exec_find hmodel hrun, ?_, hoverlaid.isSome_get? hstored, ?_,
      hoverlaid.others, ?_⟩
    · intro e he
      exact Table.get?_eq_some_iff.2 ⟨hstored e he, rfl⟩
    · intro e he
      exact hoverlaid.exists_written he
    · rw [hout, List.map_map, List.map_map]
      refine List.map_congr_left ?_
      intro e he
      rw [hoverlaid.written e (List.mem_eraseDups.1 he)]
      rfl

def titled : Record := .ofColumns [("title", .string "a")]

/-- The third note is found twice and returned once with its title, and the first one stays. -/
theorem update_changes_found_twoLatest :
    ∃ out w', (update ⟨Memory.store, .default, ⟨[notes]⟩⟩ "Note" twoLatest titled).exec
        (.start Pull.threeNotes) = (.ok out, w') ∧
      titled.get? notes.primaryKeyColumn = none ∧ out.length = 2 ∧
      (∃ x, w'.store.get? (bareNote 3).key = some x ∧
        x.properties.get? "title" = some (.string "a")) ∧
      w'.store.get? (bareNote 1).key = some (bareNote 1) := by
  obtain ⟨-, hchanges⟩ := update_changes_found .default ⟨[notes]⟩ "Note" notes twoLatest titled
    (.start Pull.threeNotes) rfl (by decide)
  generalize hexec : (update ⟨Memory.store, .default, ⟨[notes]⟩⟩ "Note" twoLatest titled).exec
    (.start Pull.threeNotes) = ended at hchanges
  have hok : ended.1.isOk = true := by
    rw [← hexec, Memory.store_eq_storeBy]
    decide +kernel
  rcases ended with ⟨_ | out, w'⟩
  · cases hok
  · obtain ⟨r, w₁, hrun, -, -, -, hwritten, hothers, hout⟩ := hchanges out w' rfl
    rw [entities_twoLatest hrun] at hwritten hothers hout
    obtain ⟨x, hx, -, hcolumns⟩ := hwritten (bareNote 3) (by decide)
    refine ⟨out, w', rfl, by decide, ?_, ⟨x, hx, ?_⟩, ?_⟩
    · have hlength := congrArg List.length hout
      rw [List.length_map, List.length_map] at hlength
      exact hlength
    · rw [hcolumns]
      decide
    · rw [hothers _ (by decide)]
      decide

end Engine

end Quarry
