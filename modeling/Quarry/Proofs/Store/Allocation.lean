import Quarry.Proofs.Store.Batches
import Quarry.Proofs.Store.Shared

/-!
# Numbers given to keys

A memory counts the keys that it completes, and gives each the next number. It does not look at the
numbers that callers choose. So an entity that gets a number is a new one, unless the number makes
the key of an entity that a caller has stored under an id of its own. Then it takes the place of
that entity.
-/

namespace Quarry

namespace Key

variable {k : Key}

theorem id?_completeWith (h : k.path ≠ []) (id : KeyId) : (k.completeWith id).id? = some id := by
  obtain ⟨steps, last, hpath⟩ := List.eq_nil_or_concat k.path |>.resolve_left h
  simp [completeWith, id?, hpath]

theorem isComplete_of_id?_eq_none (h : k.id? = none) : k.isComplete = false := by
  rcases List.eq_nil_or_concat k.path with hpath | ⟨steps, last, hpath⟩
  · simp [isComplete, hpath]
  · have hlast : last.id = none := by simpa [id?, hpath] using h
    simp [isComplete, hpath, hlast]

end Key

/-! ## What has been stored -/

/-- The entities up to a key with an empty path: those of a batch that are stored. -/
def storable (es : List Entity) : List Entity := es.takeWhile fun e => !e.key.path.isEmpty

/-- The entities that an act inserts or saves. -/
def Act.inserted (m : Memory) : Act → List Entity
  | .insert e => storable [e]
  | .save es => if m.faults.writes = 0 then storable es else []
  | .update _ | .remove _ | .delete _ => []

/-- The keys that came with their ids. -/
def chosenKeys (es : List Entity) : List Key := (es.map Entity.key).filter Key.isComplete

/-- How many keys have got a number. -/
def numbersTaken (es : List Entity) : Nat := es.countP fun e => !e.key.isComplete

theorem chosenKeys_append (es fs : List Entity) :
    chosenKeys (es ++ fs) = chosenKeys es ++ chosenKeys fs := by
  simp [chosenKeys]

theorem numbersTaken_append (es fs : List Entity) :
    numbersTaken (es ++ fs) = numbersTaken es + numbersTaken fs := List.countP_append

theorem chosenKeys_of_complete {e : Entity} (h : e.key.isComplete = true) :
    chosenKeys [e] = [e.key] := by
  simp [chosenKeys, h]

theorem numbersTaken_of_complete {e : Entity} (h : e.key.isComplete = true) :
    numbersTaken [e] = 0 := by
  simp [numbersTaken, h]

theorem numbersTaken_of_incomplete {e : Entity} (h : e.key.isComplete = false) :
    numbersTaken [e] = 1 := by
  simp [numbersTaken, h]

theorem storable_append {es : List Entity} (h : ∀ e ∈ es, e.key.path ≠ []) (fs : List Entity) :
    storable (es ++ fs) = es ++ storable fs := by
  refine List.takeWhile_append_of_pos ?_
  intro e he
  simp [h e he]

theorem storable_eq_self {es : List Entity} (h : ∀ e ∈ es, e.key.path ≠ []) : storable es = es := by
  have happend : storable (es ++ []) = es ++ [] := storable_append h []
  rwa [List.append_nil] at happend

theorem storable_of_no_path {e : Entity} (h : e.key.path = []) (es : List Entity) :
    storable (e :: es) = [] := List.takeWhile_cons_of_neg (by simp [h])

namespace Memory

variable {m m' : Memory} {es fs : List Entity} {ks : List Key}

/-- What a memory can become, along with all that has been inserted and saved on the way. Failures
may be ordered and queries run at any time. -/
inductive Reached : List Entity → Memory → Prop where
  | empty (space : Option String) (cap : Nat) : Reached [] (.empty space cap)
  | act {es : List Entity} {m : Memory} (a : Act) (h : Reached es m) :
      Reached (es ++ a.inserted m) (a.on m)
  | idle {es : List Entity} {m : Memory} (faults : Faults) (log : List Query) (h : Reached es m) :
      Reached es { m with faults, log }

/-- The next number is the first that has not been given away. Each key that is there has been
chosen by a caller or has got one of the numbers before. -/
structure Accounted (es : List Entity) (m : Memory) : Prop where
  next : m.nextId = Int64.ofNat (numbersTaken es + 1)
  origin : ∀ k, m.get? k ≠ none → k ∈ chosenKeys es ∨
    ∃ i < numbersTaken es, k.id? = some (.number (Int64.ofNat (i + 1)))

/-! ## Steps -/

/-- What brings in nothing keeps the account. -/
theorem Accounted.of_absent (h : Accounted es m) (hnext : m'.nextId = m.nextId)
    (habsent : ∀ k, m.get? k = none → m'.get? k = none) : Accounted es m' := by
  constructor
  · rw [hnext, h.next]
  · intro k hk
    exact h.origin k fun hnone => hk (habsent k hnone)

theorem Accounted.store (h : Accounted es m) {e : Entity} {k : Key} {id : Int64}
    (hnext : id = Int64.ofNat (numbersTaken (es ++ [e]) + 1))
    (hk : k ∈ chosenKeys [e] ∨
      ∃ i < numbersTaken (es ++ [e]), k.id? = some (.number (Int64.ofNat (i + 1)))) :
    Accounted (es ++ [e]) { m with nextId := id, table := m.table.insert { e with key := k } } := by
  constructor
  · exact hnext
  · intro k' hk'
    rw [chosenKeys_append, List.mem_append]
    by_cases heq : k = k'
    · rw [← heq]
      exact hk.imp_left .inr
    · have hold : m.get? k' ≠ none := by
        intro hnone
        exact hk' ((Table.get?_insert _ _ _).trans ((if_neg heq).trans hnone))
      rcases h.origin k' hold with hchosen | ⟨i, hi, hid⟩
      · exact .inl (.inl hchosen)
      · rw [numbersTaken_append]
        exact .inr ⟨i, Nat.lt_add_right _ hi, hid⟩

theorem Accounted.insert (h : Accounted es m) {e : Entity} {k : Key}
    (hinsert : m.insert e = (.ok k, m')) : Accounted (es ++ [e]) m' := by
  have hpath := path_of_insert hinsert
  cases hcomplete : e.key.isComplete with
  | true =>
      rw [insert_of_complete hcomplete] at hinsert
      cases hinsert
      refine h.store ?_ (.inl ?_)
      · rw [numbersTaken_append, numbersTaken_of_complete hcomplete, h.next, Nat.add_zero]
      · rw [chosenKeys_of_complete hcomplete]
        exact List.mem_cons_self
  | false =>
      have htaken : numbersTaken (es ++ [e]) = numbersTaken es + 1 := by
        rw [numbersTaken_append, numbersTaken_of_incomplete hcomplete]
      rw [insert_of_incomplete hpath hcomplete] at hinsert
      cases hinsert
      refine h.store ?_ (.inr ⟨numbersTaken es, ?_, ?_⟩)
      · rw [htaken, h.next, Int64.ofNat_add (numbersTaken es + 1) 1]
        rfl
      · omega
      · rw [Key.id?_completeWith hpath, h.next]

/-- A batch that is stored has no empty path in it. -/
theorem path_ne_nil_of_insertAll (h : m.insertAll es = (.ok ks, m')) :
    ∀ e ∈ es, e.key.path ≠ [] := by
  induction es generalizing m ks with
  | nil =>
      intro e he
      cases he
  | cons x es ih =>
      obtain ⟨k, m₁, rest, hinsert, hrest, _⟩ := insertAll_cons_eq_ok.1 h
      intro e he
      rcases List.mem_cons.1 he with rfl | he
      · exact path_of_insert hinsert
      · exact ih hrest e he

theorem Accounted.insertAll_ok (h : Accounted es m) (hrun : m.insertAll fs = (.ok ks, m')) :
    Accounted (es ++ fs) m' := by
  induction fs generalizing es m ks with
  | nil =>
      cases hrun
      rwa [List.append_nil]
  | cons e fs ih =>
      obtain ⟨k, m₁, rest, hinsert, hrest, _⟩ := insertAll_cons_eq_ok.1 hrun
      have hall := ih (h.insert hinsert) hrest
      rwa [List.append_assoc] at hall

/-- A batch is accounted for up to where it fails. -/
theorem Accounted.insertAll (h : Accounted es m) (fs : List Entity) :
    Accounted (es ++ storable fs) (m.insertAll fs).2 := by
  rcases hrun : m.insertAll fs with ⟨err | ks, m'⟩
  · obtain ⟨before, e, after, ks, rfl, hpath, hbefore⟩ := insertAll_eq_error hrun
    rw [storable_append (path_ne_nil_of_insertAll hbefore), storable_of_no_path hpath,
      List.append_nil]
    exact h.insertAll_ok hbefore
  · rw [storable_eq_self (path_ne_nil_of_insertAll hrun)]
    exact h.insertAll_ok hrun

theorem Accounted.act (h : Accounted es m) (a : Act) : Accounted (es ++ a.inserted m) (a.on m) := by
  cases a with
  | insert e =>
      rw [Act.on, ← m.insertAll_singleton e]
      exact h.insertAll [e]
  | save fs =>
      cases hfaults : m.faults.writes with
      | zero =>
          rw [Act.inserted, if_pos hfaults, Act.on, save_of_no_faults hfaults]
          exact h.insertAll fs
      | succ n =>
          rw [Act.inserted, if_neg (by omega), List.append_nil, Act.on, save_of_fault hfaults]
          exact h.of_absent rfl fun _ hk => hk
  | update fs =>
      rw [Act.inserted, List.append_nil]
      refine h.of_absent ?_ fun k hk => (Act.update fs).get?_on_eq_none hk List.not_mem_nil
      rcases m.update_cases fs with ⟨e, faults, hcase⟩ | ⟨_, hcase⟩
      · rw [Act.on, hcase]
      · rw [Act.on, hcase]
  | remove k =>
      rw [Act.inserted, List.append_nil]
      exact h.of_absent rfl fun k' hk => (Act.remove k).get?_on_eq_none hk List.not_mem_nil
  | delete ks =>
      rw [Act.inserted, List.append_nil]
      refine h.of_absent ?_ fun k hk => (Act.delete ks).get?_on_eq_none hk List.not_mem_nil
      rcases m.delete_cases ks with ⟨e, faults, hcase⟩ | hcase
      · rw [Act.on, hcase]
      · rw [Act.on, hcase]

/-! ## Runs -/

theorem Reached.accounted (h : m.Reached es) : Accounted es m := by
  induction h with
  | empty space cap => exact ⟨rfl, fun _ hk => absurd rfl hk⟩
  | act a _ ih => exact ih.act a
  | idle faults log _ ih => exact ih.of_absent rfl fun _ hk => hk

/-- A batch that is saved is reached entity by entity. -/
theorem Reached.insertAll (h : m.Reached es) (hfaults : m.faults.writes = 0)
    (hrun : m.insertAll fs = (.ok ks, m')) : m'.Reached (es ++ fs) := by
  have hact := h.act (.save fs)
  rwa [Act.inserted, if_pos hfaults, storable_eq_self (path_ne_nil_of_insertAll hrun), Act.on,
    save_of_no_faults hfaults, hrun] at hact

/-! ## New entities -/

/-- The entity has come in under a key that was free, and nothing else has changed. -/
structure StoresAnew (e : Entity) (k : Key) (m m' : Memory) : Prop where
  absent : m.get? k = none
  present : m'.get? k = some { e with key := k }
  others : ∀ k' ≠ k, m'.get? k' = m.get? k'
  length : m'.table.entities.length = m.table.entities.length + 1

theorem storesAnew_of_insert {e : Entity} {k : Key} (habsent : m.get? k = none)
    (hinsert : m.insert e = (.ok k, m')) : StoresAnew e k m m' := by
  obtain ⟨id, rfl⟩ := insert_eq_ok hinsert
  refine ⟨habsent, ?_, ?_, Entities.length_insert (Table.get?_eq_none_iff.1 habsent)⟩
  · exact (Table.get?_insert _ _ _).trans (if_pos rfl)
  · intro k' hk'
    exact (Table.get?_insert _ _ _).trans (if_neg hk'.symm)

theorem ofNat_inj {i j : Nat} (hi : i < Nat.pow 2 64) (hj : j < Nat.pow 2 64)
    (h : Int64.ofNat i = Int64.ofNat j) : i = j := by
  have hbits : (BitVec.ofNat 64 i).toNat = (BitVec.ofNat 64 j).toNat :=
    congrArg (fun n : Int64 => n.toBitVec.toNat) h
  have hmod : ∀ n, n < Nat.pow 2 64 → (BitVec.ofNat 64 n).toNat = n :=
    fun _ hn => Nat.mod_eq_of_lt hn
  rwa [hmod i hi, hmod j hj] at hbits

/-- The next number makes a key that nothing is stored under, if nobody has chosen that key. -/
theorem get?_completeWith_nextId (h : Accounted es m) (hfew : numbersTaken es < Nat.pow 2 63)
    {k : Key} (hpath : k.path ≠ []) (hchosen : k.completeWith (.number m.nextId) ∉ chosenKeys es) :
    m.get? (k.completeWith (.number m.nextId)) = none := by
  have hdouble : Nat.pow 2 64 = 2 * Nat.pow 2 63 := rfl
  by_contra hsome
  rcases h.origin _ hsome with hmem | ⟨i, hi, hid⟩
  · exact hchosen hmem
  · rw [Key.id?_completeWith hpath, h.next] at hid
    have hnumber : numbersTaken es + 1 = i + 1 :=
      ofNat_inj (by omega) (by omega) (KeyId.number.inj (Option.some.inj hid))
    omega

theorem Reached.storesAnew (h : m.Reached es) {e : Entity} (hpath : e.key.path ≠ [])
    (hcomplete : e.key.isComplete = false) (hfew : numbersTaken es < Nat.pow 2 63) :
    ∃ k m', m.insert e = (.ok k, m') ∧ (k ∉ chosenKeys es → StoresAnew e k m m') := by
  have hinsert := insert_of_incomplete (m := m) hpath hcomplete
  refine ⟨_, _, hinsert, ?_⟩
  intro hchosen
  exact storesAnew_of_insert (get?_completeWith_nextId h.accounted hfew hpath hchosen) hinsert

/-- **Numbers are new, but for keys that callers have chosen.** An entity that lacks its id gets a
key, inserted alone or among others in a batch. Unless a caller has stored an entity under an id
that makes the same key, in an earlier call or earlier in the batch, there was nothing under the
key: one entity more is stored, and all others stay as they are. -/
theorem insert_numbered (h : m.Reached es) (e : Entity) (hid : e.key.id? = none) :
    (e.key.path ≠ [] → numbersTaken es < Nat.pow 2 63 →
      ∃ k m', m.insert e = (.ok k, m') ∧ (k ∉ chosenKeys es → StoresAnew e k m m')) ∧
    ∀ before after ks m', m.save (before ++ e :: after) = (.ok ks, m') →
      numbersTaken (es ++ before) < Nat.pow 2 63 →
      ∃ ks₁ m₁ k m₂ ks₂, m.insertAll before = (.ok ks₁, m₁) ∧ m₁.insert e = (.ok k, m₂) ∧
        m₂.insertAll after = (.ok ks₂, m') ∧ ks = ks₁ ++ k :: ks₂ ∧
        (k ∉ chosenKeys (es ++ before) → StoresAnew e k m₁ m₂) := by
  have hcomplete : e.key.isComplete = false := Key.isComplete_of_id?_eq_none hid
  constructor
  · intro hpath hfew
    exact h.storesAnew hpath hcomplete hfew
  · intro before after ks m' hsave hfew
    obtain ⟨ks₁, m₁, _, hbefore, hrest, rfl⟩ := insertAll_append_eq_ok (insertAll_of_save hsave)
    obtain ⟨k, m₂, ks₂, hone, hafter, rfl⟩ := insertAll_cons_eq_ok.1 hrest
    refine ⟨ks₁, m₁, k, m₂, ks₂, hbefore, hone, hafter, rfl, ?_⟩
    -- What stands before the entity leads to a memory that is reached in its turn.
    have hreached := h.insertAll (writes_of_save hsave) hbefore
    have hpath : e.key.path ≠ [] := path_ne_nil_of_insertAll hrest e List.mem_cons_self
    obtain ⟨k', m₂', hone', hnew⟩ := hreached.storesAnew hpath hcomplete hfew
    rw [hone] at hone'
    cases hone'
    exact hnew

/-! ## A number that was chosen -/

/-- A note under an id of its own. -/
def chosen (id : KeyId) : Entity := ⟨⟨none, [⟨"Note", some id⟩]⟩, .empty⟩

/-- After a note under a name, two notes of a batch get the numbers one and two. -/
theorem insert_numbered_afterName :
    let m := ((empty none 10).insert (chosen (.name "a"))).2
    ∃ ks₁ m₁ k m₂ ks₂, m.insertAll [unnumbered] = (.ok ks₁, m₁) ∧
      m₁.insert unnumbered = (.ok k, m₂) ∧
      m₂.insertAll [] = (.ok ks₂, (m.save [unnumbered, unnumbered]).2) ∧
      StoresAnew unnumbered k m₁ m₂ := by
  intro m
  have hreached : m.Reached ([] ++ [chosen (.name "a")]) :=
    (Reached.empty none 10).act (.insert (chosen (.name "a")))
  obtain ⟨_, hsave⟩ := insert_numbered hreached unnumbered rfl
  obtain ⟨ks₁, m₁, k, m₂, ks₂, hbefore, hone, hafter, _, hnew⟩ :=
    hsave [unnumbered] [] _ (m.save [unnumbered, unnumbered]).2 rfl (by decide +kernel)
  refine ⟨ks₁, m₁, k, m₂, ks₂, hbefore, hone, hafter, hnew ?_⟩
  cases hbefore
  cases hone
  decide +kernel

/-- An entity for the next number takes the place of one that has chosen the number one. -/
theorem insert_over_chosen :
    let m := ((empty none 10).insert (chosen (.number 1))).2
    (m.insert unnumbered).1 = .ok (chosen (.number 1)).key ∧
      m.get? (chosen (.number 1)).key ≠ none ∧
      (m.insert unnumbered).2.table.entities.length = m.table.entities.length := by
  decide +kernel

end Memory

end Quarry
