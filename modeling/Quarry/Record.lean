import Quarry.Json.Raw

/-!
# Records

A record is a list of columns with their values, each column once, in the order in which they first
arrived. Writing to a column that is there leaves it in its place. Taking a column out moves the
last column into the gap.
-/

namespace Quarry

open Json

namespace Columns

/-! ## Lists of columns -/

theorem map_fst_putMember_of_mem {name : String} {v : Value} {cs : List (String × Value)}
    (h : name ∈ cs.map Prod.fst) : (putMember name v cs).map Prod.fst = cs.map Prod.fst := by
  induction cs with
  | nil => simp at h
  | cons c rest ih =>
    obtain ⟨n, w⟩ := c
    unfold putMember
    split
    · simp
    · rename_i hne
      have : name ∈ rest.map Prod.fst := by
        simp only [List.map_cons, List.mem_cons] at h
        exact h.resolve_left fun e => hne e.symm
      simp [ih this]

theorem putMember_of_not_mem {name : String} {v : Value} {cs : List (String × Value)}
    (h : name ∉ cs.map Prod.fst) : putMember name v cs = cs ++ [(name, v)] := by
  induction cs with
  | nil => rfl
  | cons c rest ih =>
    obtain ⟨n, w⟩ := c
    simp only [List.map_cons, List.mem_cons, not_or] at h
    unfold putMember
    rw [if_neg fun e => h.1 e.symm, ih h.2]
    rfl

theorem nodup_putMember {name : String} {v : Value} {cs : List (String × Value)}
    (h : (cs.map Prod.fst).Nodup) : ((putMember name v cs).map Prod.fst).Nodup := by
  by_cases hm : name ∈ cs.map Prod.fst
  · rwa [map_fst_putMember_of_mem hm]
  · rw [putMember_of_not_mem hm, List.map_append, List.nodup_append]
    refine ⟨h, by simp, ?_⟩
    intro a ha b hb
    simp only [List.map_cons, List.map_nil, List.mem_singleton] at hb
    rintro rfl
    exact hm (hb ▸ ha)

/-- Takes a column out. The last column moves into the gap. -/
def takeOut (name : String) : List (String × Value) → List (String × Value)
  | [] => []
  | (n, w) :: rest =>
    if n = name then
      match rest.getLast? with
      | some last => last :: rest.dropLast
      | none => []
    else (n, w) :: takeOut name rest

theorem takeOut_perm (name : String) (cs : List (String × Value)) :
    (takeOut name cs).Perm (cs.eraseP fun c => c.1 = name) := by
  induction cs with
  | nil => exact .refl _
  | cons c rest ih =>
    obtain ⟨n, w⟩ := c
    unfold takeOut
    split
    · rename_i h
      rw [List.eraseP_cons_of_pos (by simpa using h)]
      cases hl : rest.getLast? with
      | none => simp [List.getLast?_eq_none_iff.1 hl]
      | some last =>
        obtain ⟨init, rfl⟩ := List.getLast?_eq_some_iff.1 hl
        simpa using (List.perm_append_singleton last init).symm
    · rename_i h
      rw [List.eraseP_cons_of_neg (by simpa using h)]
      exact ih.cons _

theorem nodup_takeOut {name : String} {cs : List (String × Value)} (h : (cs.map Prod.fst).Nodup) :
    ((takeOut name cs).map Prod.fst).Nodup := by
  have hp := (takeOut_perm name cs).map Prod.fst
  exact hp.nodup_iff.2 ((List.eraseP_sublist.map Prod.fst).nodup h)

end Columns

/-- Columns with their values, each column once. -/
structure Record where
  columns : List (String × Value)
  distinct : (columns.map Prod.fst).Nodup
  deriving DecidableEq

namespace Record

def empty : Record := ⟨[], by simp⟩

instance : Inhabited Record := ⟨empty⟩

def get? (r : Record) (column : String) : Option Value := r.columns.lookup column

/-- Writes a column: over its value, or behind all others. -/
def put (r : Record) (column : String) (v : Value) : Record :=
  ⟨putMember column v r.columns, Columns.nodup_putMember r.distinct⟩

/-- Takes a column out. The last column moves into the gap. -/
def takeOut (r : Record) (column : String) : Record :=
  ⟨Columns.takeOut column r.columns, Columns.nodup_takeOut r.distinct⟩

/-- Keeps the columns that `keep` holds of. -/
def restrict (r : Record) (keep : String → Bool) : Record :=
  ⟨r.columns.filter fun c => keep c.1, (List.filter_sublist.map Prod.fst).nodup r.distinct⟩

/-- Writes columns one after another. -/
def putAll (r : Record) (columns : List (String × Value)) : Record :=
  columns.foldl (fun acc c => acc.put c.1 c.2) r

/-- The record of a list of columns. A column that comes again has its last value in its first
place. -/
def ofColumns (columns : List (String × Value)) : Record := empty.putAll columns

def toJson (r : Record) : Value := .object r.columns

/-- The record that a JSON object writes. -/
def ofValue? : Value → Option Record
  | .object members => some (ofColumns members)
  | _ => none

end Record

end Quarry
