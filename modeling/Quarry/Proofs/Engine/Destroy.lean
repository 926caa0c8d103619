import Quarry.Proofs.Engine.Matched
import Quarry.Proofs.Store.Writes

/-!
# What a deletion removes

A deletion removes what a search with the same criteria finds with everything selected, and returns
it in full, each entity once. Where nothing is skipped and nothing is cut off, nothing is left that
the same criteria would find.
-/

namespace Quarry

open Quarry.Action

namespace Engine

variable {config : Config} {registry : Registry} {kind : String} {M : Model} {c : Criteria}
  {r : ResultSet} {w w₁ : Session Memory}

/-- What a write takes is deleted and returned. -/
theorem exec_destroy {σ : Type} {E : Engine σ} {es : List Entity} {w w₁ : Session σ} {s : σ}
    (hmodel : E.registry.get kind = .ok M) (hmatched : (E.matched M c).exec w = (.ok es, w₁))
    (hdelete : E.store.delete (es.map Entity.key) w₁.store = (.ok (), s))
    (hnone : es = [] → s = w₁.store) :
    ∃ w', (E.destroy kind c).exec w = (.ok (es.map M.toRecord), w') ∧ w'.store = s := by
  rw [destroy, exec_model_bind hmodel, exec_bind_ok hmatched]
  by_cases hempty : es = []
  · refine ⟨w₁, ?_, (hnone hempty).symm⟩
    rw [if_pos (List.isEmpty_iff.2 hempty), hempty]
    rfl
  · rw [if_neg (mt List.isEmpty_iff.1 hempty), exec_bind_ok (exec_write_ok hdelete)]
    exact ⟨_, rfl, rfl⟩

/-- A deletion takes what is found off the table. -/
theorem exec_destroy_found (hmodel : registry.get kind = .ok M)
    (hrun : (run ⟨Memory.store, config, registry⟩ M { c with select := .everything }).exec w =
      (.ok r, w₁))
    (hdeletes : w₁.store.faults.deletes = 0) :
    ∃ w', (destroy ⟨Memory.store, config, registry⟩ kind c).exec w =
        (.ok (r.entities.eraseDups.map M.toRecord), w') ∧
      w'.store = { w₁.store with
        table := w₁.store.table.eraseAll (r.entities.eraseDups.map Entity.key) } := by
  obtain ⟨hmatched, _, _⟩ := exec_matched hrun
  apply exec_destroy hmodel hmatched
  · exact Memory.delete_of_no_faults hdeletes
  · intro hnone
    rw [hnone]
    rfl

/-- Entities that are not listed among all are not listed among themselves either. -/
theorem listings_eq_nil {gs : List Group} {es rest : List Entity} {space : Option String}
    (hrest : ∀ e ∈ rest, e ∈ es ∧ e ∉ gs.flatMap (M.listing space c.sort es)) :
    gs.flatMap (M.listing space c.sort rest) = [] := by
  rw [List.eq_nil_iff_forall_not_mem]
  intro e he
  obtain ⟨g, hg, hlisted⟩ := List.mem_flatMap.1 he
  obtain ⟨hmem, hscope, hall⟩ := Model.mem_listing.1 hlisted
  obtain ⟨hold, hnot⟩ := hrest e hmem
  exact hnot (List.mem_flatMap.2 ⟨g, hg, Model.mem_listing.2 ⟨hold, hscope, hall⟩⟩)

/-- Where all that accepted criteria list is gone from a memory, they find nothing to delete. -/
theorem exec_destroy_rest (es : List Entity) {queries : List Query} {gs : List Group}
    (hmodel : registry.get kind = .ok M)
    (hqueries : (compilerFor config M w.store).queries c = .ok queries)
    (hgroups : c.clause.groups = .ok gs) (hskip : c.skip.getD 0 = 0) (hlimit : c.limit.getD 0 = 0)
    (hrest : ∀ e ∈ w.store.table.entities,
      e ∈ es ∧ e ∉ gs.flatMap (M.listing w.store.space c.sort es))
    (hfits : w.store.Fits) (hfaults : w.store.faults.queries = 0)
    (hdeletes : w.store.faults.deletes = 0) :
    ∃ w', (destroy ⟨Memory.store, config, registry⟩ kind c).exec w = (.ok [], w') ∧
      ∃ log, w'.store = { w.store with log } := by
  obtain ⟨gs', r, w₁, hsame, hrun, ⟨log, hlog⟩, hfound⟩ :=
    exec_run_everything registry hqueries hfits hfaults
  obtain rfl : gs = gs' := Except.ok.inj (hgroups.symm.trans hsame)
  have hentities := hfound (.inl hlimit)
  simp only [Criteria.window_eq_self hskip hlimit] at hentities
  have hnone : r.entities = [] := hentities.trans (listings_eq_nil hrest)
  obtain ⟨w', hdestroy, hstore⟩ := exec_destroy_found hmodel hrun (by rw [hlog]; exact hdeletes)
  rw [hnone] at hdestroy hstore
  refine ⟨w', hdestroy, log, ?_⟩
  rw [hstore, hlog]
  rfl

/-- **A deletion removes exactly what it returns.** On a memory without failures, and with no other
clients, a deletion with accepted criteria returns the full records of the entities that a search
with the same criteria finds if everything is selected, each once, in the order of first appearance.
Afterwards the memory holds all other entities as they were, and nothing else of it has changed but
the log. If the criteria neither skip nor limit, then the same deletion finds nothing any more. -/
theorem destroy_removes_found (config : Config) (registry : Registry) (kind : String) (M : Model)
    (c : Criteria) (queries : List Query) (w : Session Memory)
    (hmodel : registry.get kind = .ok M)
    (hqueries : (compilerFor config M w.store).queries c = .ok queries)
    (hfits : w.store.Fits) (hfaults : w.store.faults.queries = 0)
    (hdeletes : w.store.faults.deletes = 0) :
    let E : Engine Memory := ⟨Memory.store, config, registry⟩
    let all : Criteria := { c with select := .everything }
    ∃ r w₁ w', (E.run M all).exec w = (.ok r, w₁) ∧
      (E.find kind all).exec w = (.ok (r.entities.map M.toRecord), w₁) ∧
      (∀ e ∈ r.entities, e ∈ w.store.table.entities) ∧
      (E.destroy kind c).exec w = (.ok (r.entities.eraseDups.map M.toRecord), w') ∧
      w'.store.table.entities = w.store.table.entities.filter (fun e => e ∉ r.entities) ∧
      (∃ log, w'.store = { w.store with table := w'.store.table, log }) ∧
      (c.skip.getD 0 = 0 → c.limit.getD 0 = 0 →
        ∃ w'', (E.destroy kind c).exec w' = (.ok [], w'') ∧
          ∃ log, w''.store = { w'.store with log }) := by
  intro E all
  obtain ⟨gs, r, w₁, hgroups, hrun, ⟨log, hlog⟩, hfound⟩ :=
    exec_run_everything registry hqueries hfits hfaults
  obtain ⟨_, _, hstored⟩ := exec_matched hrun
  obtain ⟨w', hdestroy, hstore⟩ := exec_destroy_found hmodel hrun (by rw [hlog]; exact hdeletes)
  rw [hlog] at hstore
  have hleft : w'.store.table.entities =
      w.store.table.entities.filter fun e => e ∉ r.entities := by
    rw [hstore]
    show (w.store.table.eraseAll (r.entities.eraseDups.map Entity.key)).entities = _
    rw [Table.entities_eraseAll_stored fun e he => hstored e (List.mem_eraseDups.1 he)]
    simp only [List.mem_eraseDups]
  have hframe : w'.store = { w.store with table := w'.store.table, log } := by rw [hstore]
  refine ⟨r, w₁, w', hrun, exec_find hmodel hrun, hstored, hdestroy, hleft, ⟨log, hframe⟩, ?_⟩
  intro hskip hlimit
  have hentities := hfound (.inl hlimit)
  simp only [Criteria.window_eq_self hskip hlimit] at hentities
  have hspace : w'.store.space = w.store.space := by rw [hframe]
  have hagain : (compilerFor config M w'.store).queries c = .ok queries := by
    show (⟨w'.store.space, M, config.maxQueryLimit⟩ : Compiler).queries c = _
    rw [hspace]
    exact hqueries
  apply exec_destroy_rest w.store.table.entities hmodel hagain hgroups hskip hlimit
  · intro e he
    rw [hleft, List.mem_filter] at he
    rw [hspace]
    exact ⟨he.1, hentities ▸ of_decide_eq_true he.2⟩
  · rw [Memory.Fits, hleft]
    exact Nat.le_trans (List.length_filter_le _ _) hfits
  · rw [hframe]
    exact hfaults
  · rw [hframe]
    exact hdeletes

/-- The third note is found twice and deleted once, and the first one stays. -/
theorem destroy_removes_found_twoLatest :
    ∃ w', (destroy ⟨Memory.store, .default, ⟨[notes]⟩⟩ "Note" twoLatest).exec
        (.start Pull.threeNotes) = (.ok ([3, 2].map fun n => notes.toRecord (bareNote n)), w') ∧
      w'.store.table.entities = [bareNote 1] := by
  obtain ⟨r, w₁, w', hrun, -, -, hdestroy, hleft, -, -⟩ := destroy_removes_found .default ⟨[notes]⟩
    "Note" notes twoLatest _ (.start Pull.threeNotes) rfl rfl Pull.fits_threeNotes rfl rfl
  rw [entities_twoLatest hrun] at hdestroy hleft
  refine ⟨w', hdestroy, ?_⟩
  rw [hleft]
  decide

end Engine

end Quarry
