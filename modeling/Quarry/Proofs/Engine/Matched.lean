import Quarry.Proofs.Engine.Lookups
import Quarry.Proofs.Engine.Selecting

/-!
# What a write goes by

A write goes by what a search with the same criteria finds with everything selected. It takes each
entity once, in the order of first appearance. With neither a skip nor a limit, an entity is found
exactly if it is listed under some group of the criteria.
-/

namespace Quarry

open Quarry.Action

/-! ## The first of each -/

theorem eraseDupsBy_congr {α : Type} {r s : α → α → Bool} :
    ∀ {as : List α}, (∀ a ∈ as, ∀ b ∈ as, r a b = s a b) → as.eraseDupsBy r = as.eraseDupsBy s
  | [], _ => rfl
  | a :: as, h => by
      have hrest : as.filter (fun b => r b a = false) = as.filter fun b => s b a = false := by
        refine List.filter_congr ?_
        intro b hb
        rw [h b (List.mem_cons_of_mem a hb) a List.mem_cons_self]
      rw [List.eraseDupsBy_cons, List.eraseDupsBy_cons, hrest]
      apply congrArg (a :: ·)
      apply eraseDupsBy_congr
      intro x hx y hy
      exact h x (List.mem_cons_of_mem a (List.mem_filter.1 hx).1) y
        (List.mem_cons_of_mem a (List.mem_filter.1 hy).1)
termination_by as => as.length
decreasing_by exact Nat.lt_succ_of_le (List.length_filter_le _ _)

/-! ## Windows -/

/-- With neither a skip nor a limit, criteria leave all of a list. -/
theorem Criteria.window_eq_self {α : Type} {c : Criteria} (hskip : c.skip.getD 0 = 0)
    (hlimit : c.limit.getD 0 = 0) (maxLimit : Nat) (l : List α) : c.window maxLimit l = l := by
  unfold window
  rw [hskip, List.drop_zero]
  cases h : c.limit with
  | none => rfl
  | some n =>
      obtain rfl : n = 0 := by rwa [h] at hlimit
      rfl

namespace Engine

variable {config : Config} {registry : Registry} {kind : String} {M : Model} {c : Criteria}
  {r : ResultSet} {w w₁ : Session Memory}

/-! ## Entities -/

/-- Of stored entities, the first of each key is the first of each. -/
theorem distinct_eq_eraseDups {m : Memory} {es : List Entity}
    (h : ∀ e ∈ es, e ∈ m.table.entities) : distinct es = es.eraseDups := by
  have hfold := foldl_unless_any (fun a b : Entity => b.key == a.key) [] es
  rw [distinct, hfold, List.nil_append, List.eraseDups]
  rw [show es.filter (fun a => !([] : List Entity).any fun b => b.key == a.key) = es from
    List.filter_eq_self.2 fun _ _ => rfl]
  apply eraseDupsBy_congr
  intro a ha b hb
  apply Bool.eq_iff_iff.2
  rw [beq_iff_eq, beq_iff_eq]
  constructor
  · intro hkey
    exact Entities.eq_of_key_eq m.table.sorted (h a ha) (h b hb) hkey.symm
  · rintro rfl
    rfl

/-- A write takes each entity that is found with everything selected, and each is stored. -/
theorem exec_matched
    (hrun : (run ⟨Memory.store, config, registry⟩ M { c with select := .everything }).exec w =
      (.ok r, w₁)) :
    (matched ⟨Memory.store, config, registry⟩ M c).exec w = (.ok r.entities.eraseDups, w₁) ∧
      w.store.Is w₁.store ∧ ∀ e ∈ r.entities, e ∈ w.store.table.entities := by
  obtain ⟨hkept, hstored⟩ := keeps_run_everything w.store config registry M c w rfl
  rw [hrun] at hkept hstored
  refine ⟨?_, hkept, hstored r rfl⟩
  rw [matched, exec_bind_ok hrun, distinct_eq_eraseDups (hstored r rfl)]
  rfl

theorem exec_find {σ : Type} {E : Engine σ} {w w₁ : Session σ}
    (hmodel : E.registry.get kind = .ok M) (hrun : (E.run M c).exec w = (.ok r, w₁)) :
    (E.find kind c).exec w = (.ok (r.entities.map M.toRecord), w₁) := by
  rw [find, exec_model_bind hmodel, exec_bind_ok hrun]
  rfl

/-! ## Criteria that compile -/

/-- Accepted criteria find the listings of their groups. -/
theorem exec_run_everything (registry : Registry) {queries : List Query}
    (hqueries : (compilerFor config M w.store).queries c = .ok queries)
    (hfits : w.store.Fits) (hfaults : w.store.faults.queries = 0) :
    ∃ gs r w₁, c.clause.groups = .ok gs ∧
      (run ⟨Memory.store, config, registry⟩ M { c with select := .everything }).exec w =
        (.ok r, w₁) ∧
      (∃ log, w₁.store = { w.store with log }) ∧
      (c.limit.getD 0 = 0 ∨ 1 ≤ config.maxQueryLimit →
        r.entities = gs.flatMap fun g => c.window (min config.maxQueryLimit Query.maxLimit)
          (M.listing w.store.space c.sort w.store.table.entities g)) := by
  have hwhole := (compilerFor config M w.store).queries_everything c
  rw [hqueries] at hwhole
  obtain ⟨gs, hgroups, hcompiled⟩ := bind_eq_ok.1 hwhole
  obtain ⟨w₁, hrun, log, hlog, _⟩ :=
    exec_run registry hfits hfaults hwhole (Compiler.start_of_queries hwhole)
  refine ⟨gs, _, w₁, hgroups, hrun, ⟨_, hlog⟩, ?_⟩
  intro hbound
  have hslots := map_slots_eq id id hbound
    (fun g q hq e => Compiler.shape_of_compile hq rfl e) (mapM_eq_ok.1 hcompiled) w.store
  simp only [List.map_id] at hslots
  exact hslots

/-- The note of number three, or any note, no more than two of each, the latest first and by their
ids alone. -/
def twoLatest : Criteria := { latestFirst with limit := some 2, select := .fields ["id"] }

/-- A note without properties. -/
def bareNote (n : Int64) : Entity := ⟨notes.keyOf none (some (.number n)), .empty⟩

/-- The third note is found twice. -/
theorem entities_twoLatest
    (hrun : (run ⟨Memory.store, .default, ⟨[notes]⟩⟩ notes
      { twoLatest with select := .everything }).exec (.start Pull.threeNotes) = (.ok r, w₁)) :
    r.entities = [3, 3, 2].map bareNote := by
  have hfound : ((run ⟨Memory.store, .default, ⟨[notes]⟩⟩ notes
      { twoLatest with select := .everything }).exec (.start Pull.threeNotes)).1.map
        ResultSet.entities = .ok ([3, 3, 2].map bareNote) := by
    rw [Memory.store_eq_storeBy]
    decide +kernel
  rw [hrun] at hfound
  exact Except.ok.inj hfound

end Engine

end Quarry
