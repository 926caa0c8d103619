import Quarry.Proofs.Engine.Reading

/-!
# Updates among other clients

An update reads the entities that match, compares its values with others that are stored, and
writes back what it has read with its values over it. Meanwhile other clients write to the memory.
What they write to one of these entities after it was read is overwritten, and so lost. What they
write to others stays. An entity that they have deleted does not come back: the update fails.
-/

namespace Quarry

open Quarry.Action Json

namespace Engine

variable {c : Course} {patience : Nat} {m : Memory} {config : Config} {registry : Registry}
  {M : Model} {values : Record} {es : List Entity} {w w' : Session Shared}

/-- What an update has made of a memory by writing over these entities. Without the update, the
others would have left the memory `alone`. -/
structure Overwritten (values : Record) (es : List Entity) (alone now : Memory) : Prop where
  present : ∀ e ∈ es, alone.get? e.key ≠ none
  written : ∀ e ∈ es, now.get? e.key = some (overlay values e)
  others : ∀ k ∉ es.map Entity.key, now.get? k = alone.get? k

/-- The write of an update. -/
theorem overwritten_of_trip {s s' : Shared} (hs : s.OnlyRead c m)
    (hkeys : (es.map Entity.key).Nodup)
    (h : s.trip c (.update (es.map (overlay values))) (Memory.update (es.map (overlay values))) =
      (.ok (), s')) :
    s'.trips.length = s.trips.length + 1 ∧
      Overwritten values es (c.alone m s'.trips.length) s'.memory := by
  obtain ⟨hlength, hpresent, htable⟩ := hs.update h
  have hsame : (es.map (overlay values)).map Entity.key = es.map Entity.key := by
    rw [List.map_map]
    rfl
  refine ⟨hlength, ?_, ?_, ?_⟩
  · intro e he
    exact hpresent (overlay values e) (List.mem_map_of_mem he)
  · intro e he
    rw [Memory.get?, htable]
    exact Table.get?_insertAll_of_mem (hsame ▸ hkeys) (List.mem_map_of_mem he)
  · intro k hk
    rw [Memory.get?, htable]
    refine Table.get?_insertAll_of_ne ?_
    rintro x hx rfl
    rw [← hsame] at hk
    exact hk (List.mem_map_of_mem hx)

/-- **An update among writers.** Other clients insert, save, overwrite and remove entities before
each round trip of an update, and the line may break at any of them. If the update succeeds, it has
found each entity that matches once, as the others had left it when it was read. The update has
written its values over what it had read, so that every other column holds what was there at that
moment, and what the others have written to the entity since then is lost. Each of the entities was
there when it was written: none that the others have deleted is brought back. Under all other keys
there is what the others have left. -/
theorem update_among_writers (c : Course) (patience : Nat) (config : Config) (registry : Registry)
    (kind : String) (M : Model) (criteria : Criteria) (values : Record) (m : Memory)
    (out : List Record) (w w' : Session Shared) (hmodel : registry.get kind = .ok M)
    (hw : w.store = .ofMemory m)
    (hupdate : (update ⟨Shared.store c patience, config, registry⟩ kind criteria values).exec w =
      (.ok out, w')) :
    ∃ es w₁,
      (matched ⟨Shared.store c patience, config, registry⟩ M criteria).exec w = (.ok es, w₁) ∧
      out = (es.map (overlay values)).map M.toRecord ∧ (es.map Entity.key).Nodup ∧
      (∀ e ∈ es, w₁.store.trips.length < w'.store.trips.length ∧
        (∃ i ≤ w₁.store.trips.length, (c.alone m i).get? e.key = some e) ∧
        (c.alone m w'.store.trips.length).get? e.key ≠ none ∧
        ∃ x, w'.store.memory.get? e.key = some x ∧
          ∀ column, x.properties.get? column =
            (values.get? column).or (e.properties.get? column)) ∧
      ∀ k ∉ es.map Entity.key,
        w'.store.memory.get? k = (c.alone m w'.store.trips.length).get? k := by
  obtain ⟨es, w₁, hmatched, hout, hwrite⟩ :=
    exec_update_ok (E := ⟨Shared.store c patience, config, registry⟩) hmodel hupdate
  have hstart : w.store.OnlyRead c m := by
    rw [hw]
    exact Shared.onlyRead_ofMemory c m
  obtain ⟨hread, hkeys, hseen⟩ := seen_of_matched hstart hmatched
  refine ⟨es, w₁, hmatched, hout, hkeys, ?_⟩
  rcases hwrite with ⟨rfl, rfl⟩ | ⟨found, w₂, hconflicts, _, htrip⟩
  · -- Nothing matches, and nothing is written.
    refine ⟨fun e he => absurd he List.not_mem_nil, ?_⟩
    intro k _
    exact congrArg (·.get? k) (Memory.table_of_bare (Memory.bare_of_quiet hread))
  · have hkeeps : Keeps (fun s : Shared => s.OnlyRead c m ∧
        w₁.store.trips.length ≤ s.trips.length)
        (conflicts ⟨Shared.store c patience, config, registry⟩ M [uniqueValues M values])
        fun _ => True :=
      (uses_conflicts fun _ _ => trivial).keeps_of_reads
        (reads_shared c patience m w₁.store.trips.length)
    have hlooked := (hkeeps w₁ ⟨hread, Nat.le_refl _⟩).1
    rw [hconflicts] at hlooked
    obtain ⟨hlength, hwritten⟩ := overwritten_of_trip hlooked.1 hkeys htrip
    refine ⟨?_, hwritten.others⟩
    intro e he
    refine ⟨?_, hseen e he, hwritten.present e he, overlay values e, hwritten.written e he,
      get?_overlay values e⟩
    rw [hlength]
    exact Nat.lt_succ_of_le hlooked.2

/-! ## A birthday -/

/-- A person of this age. -/
def aged (email : Value) (age : Nat) : Entity :=
  ⟨people.keyOf none (some (.number 1)),
    .ofColumns [("email", email), ("age", .number (.ofNat age))]⟩

/-- A person of one year. -/
def child : Memory := ((Memory.empty none 10).insert (aged (.string "a@x") 1)).2

/-- When the update has read the person, another client writes the next age. -/
def birthday : Course where
  acts n := if n = 1 then [.insert (aged (.string "a@x") 2)] else []
  broken _ := none

/-- Writes an email into all people. -/
def writeEmail (email : Value) : Action Shared Failure (List Record) :=
  update ⟨Shared.store birthday 9, .default, ⟨[people]⟩⟩ "Person" Criteria.everything
    (.ofColumns [("email", email)])

/-- The person is read before the birthday. -/
theorem update_among_writers_birthday :
    ∃ (out : List Record) (w' : Session Shared) (es : List Entity),
      (writeEmail (.string "b@x")).exec (.start (.ofMemory child)) = (.ok out, w') ∧
      es ≠ [] ∧ out = (es.map (overlay (.ofColumns [("email", .string "b@x")]))).map
        people.toRecord ∧
      ∀ e ∈ es, ∃ i < w'.store.trips.length, (birthday.alone child i).get? e.key = some e := by
  generalize hrun : (writeEmail (.string "b@x")).exec (.start (.ofMemory child)) = outcome
  have hone : outcome.1.toOption.map List.length = some 1 := by
    rw [← hrun]
    decide +kernel
  rcases outcome with ⟨_ | out, w'⟩
  · cases hone
  · have hlength : out.length = 1 := Option.some.inj hone
    obtain ⟨es, w₁, _, hout, _, hes, _⟩ := update_among_writers birthday 9 .default ⟨[people]⟩
      "Person" people Criteria.everything (.ofColumns [("email", .string "b@x")]) child out
      (.start (.ofMemory child)) w' rfl rfl hrun
    refine ⟨out, w', es, rfl, ?_, hout, ?_⟩
    · rintro rfl
      rw [hout] at hlength
      cases hlength
    · intro e he
      obtain ⟨hbefore, ⟨i, hi, hget⟩, _⟩ := hes e he
      exact ⟨i, Nat.lt_of_le_of_lt hi hbefore, hget⟩

/-- The birthday is lost. The update writes no age, and the other client has written that of two
years, but in the end the person is one year old. -/
theorem update_loses_birthday :
    ∃ (out : List Record) (w' : Session Shared),
      (writeEmail (.string "b@x")).exec (.start (.ofMemory child)) = (.ok out, w') ∧
      out = [people.toRecord (aged (.string "b@x") 1)] ∧
      (Record.ofColumns [("email", .string "b@x")]).get? "age" = none ∧
      (birthday.alone child w'.store.trips.length).get? (aged (.string "a@x") 2).key =
        some (aged (.string "a@x") 2) ∧
      w'.store.memory.get? (aged (.string "a@x") 2).key = some (aged (.string "b@x") 1) := by
  generalize hrun : (writeEmail (.string "b@x")).exec (.start (.ofMemory child)) = outcome
  have hout : outcome.1.toOption = some [people.toRecord (aged (.string "b@x") 1)] := by
    rw [← hrun]
    decide +kernel
  have htheirs : (birthday.alone child outcome.2.store.trips.length).get?
      (aged (.string "a@x") 2).key = some (aged (.string "a@x") 2) := by
    rw [← hrun]
    decide +kernel
  have hours : outcome.2.store.memory.get? (aged (.string "a@x") 2).key =
      some (aged (.string "b@x") 1) := by
    rw [← hrun]
    decide +kernel
  rcases outcome with ⟨_ | out, w'⟩
  · cases hout
  · exact ⟨out, w', rfl, Option.some.inj hout, by decide, htheirs, hours⟩

end Engine

end Quarry
