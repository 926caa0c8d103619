import Quarry.Proofs.Key.ReadBack
import Quarry.Proofs.Text.Base64
import Quarry.Proofs.Text.Octets
import Quarry.Store.Cursor

/-!
# Cursor tokens lead back

The token of a position is read as that position. An index has to be one that a machine word of 64
bits holds. The token of a greater one is not read at all. No two positions have one token, since
each layer of a token, its symbols, its octets and its tree, tells the one below.
-/

namespace Quarry

open Json

namespace Position

/-- An index fits a machine word. A key always fits. -/
def Fits : Position → Prop
  | after _ => True
  | index i => i < Nat.pow 2 64

/-- A position as a JSON value: an object with one member. -/
def toJson : Position → Value
  | after key => .object [("after_key", key.toJson)]
  | index i => .object [("offset", .number (.ofNat i))]

theorem ofNat_eq {i : Nat} (h : i < Nat.pow 2 64) :
    ∃ fits, Number.ofNat i = .integer (i : Int) fits := by
  have hi : i < 18446744073709551616 := h
  have hmod : i % 18446744073709551616 = i := Nat.mod_eq_of_lt hi
  refine ⟨⟨by omega, by omega⟩, ?_⟩
  simp only [Number.ofNat, hmod]

theorem render_eq {p : Position} (h : p.Fits) : p.render = p.toJson.render := by
  cases p with
  | after key => rfl
  | index i =>
      obtain ⟨fits, hi⟩ := ofNat_eq h
      have hpos : ¬ (i : Int) < 0 := by omega
      rw [toJson, hi]
      simp [render, Value.render, Value.renderMembers, Number.render, integerText, hpos]

theorem isExact_toJson (p : Position) : p.toJson.IsExact := by
  cases p with
  | after key => simp [toJson, Value.IsExact, Value.MembersExact, key.isExact_toJson]
  | index i => simp [toJson, Number.ofNat, Value.IsExact, Value.MembersExact]

theorem toNat?_ofInt {i : Nat} (h : i < Nat.pow 2 64) :
    (Raw.ofInt (i : Int)).toNat? (Nat.pow 2 64) = some i := by
  obtain ⟨fits, _⟩ := ofNat_eq h
  rw [Raw.ofInt, Raw.toNat?, toNumber?_integer fits]
  simp [Number.toNat?, h]

/-- The digits of a greater index are those of a double, which is no index. -/
theorem toNat?_ofInt_beyond {i : Nat} (h : ¬ i < Nat.pow 2 64) :
    (Raw.ofInt (i : Int)).toNat? (Nat.pow 2 64) = none := by
  have hi : 18446744073709551616 ≤ i := Nat.le_of_not_lt h
  have hofInt : Number.ofInt? ((i : Nat) : Int) = none := dif_neg (by omega)
  have hneg : decide ((i : Int) < 0) = false := decide_eq_false (by omega)
  rw [Raw.ofInt, Raw.toNat?, Literal.toNumber?]
  simp only [natValue_toDigits, hneg, Int.natAbs_natCast, hofInt]
  generalize Literal.toDouble? _ = d
  cases d with
  | none => rfl
  | some d => rfl

theorem ofRaw?_toJson {p : Position} (h : p.Fits) : ofRaw? (Raw.ofValue p.toJson) = some p := by
  cases p with
  | after key =>
      show (Key.ofRaw? (Raw.ofValue key.toJson)).map after = _
      rw [Key.ofRaw?_toJson]
      rfl
  | index i =>
      obtain ⟨fits, hi⟩ := ofNat_eq h
      rw [toJson, hi]
      show ((Raw.ofInt (i : Int)).toNat? (Nat.pow 2 64)).map index = _
      rw [toNat?_ofInt h]
      rfl

theorem decode_of_read {p : Position} {raw : Raw} (h : Raw.read p.render = .ok raw) :
    decode p.encode = (ofRaw? raw).elim (.error "not a position") .ok := by
  have hoctets := Text.octets_ofList
    (Text.Base64.encode_ascii (String.ofList p.render).toUTF8.data.toList)
  have hraw : rawOf (String.ofList p.render).toUTF8.data.toList = .ok raw := by
    rw [rawOf, Text.fromUTF8?_octets]
    simp only [String.toList_ofList, h]
    rfl
  rw [decode, encode, hoctets, Text.Base64.decode_encode]
  simp only [hraw]
  cases ofRaw? raw <;> rfl

/-- **Round trip.** A token is read as the position it was made of. -/
theorem decode_encode {p : Position} (h : p.Fits) : decode p.encode = .ok p := by
  have hread : Raw.read p.render = .ok (Raw.ofValue p.toJson) := by
    rw [render_eq h, Raw.read_render _ p.isExact_toJson]
  rw [decode_of_read hread, ofRaw?_toJson h]
  rfl

theorem read_index (i : Nat) :
    Raw.read (index i).render = .ok (.object [(some "offset", Raw.ofInt i)]) := by
  have hdigits : integerText (i : Int) = Nat.toDigits 10 i := by
    rw [integerText, if_neg (by omega), Int.natAbs_natCast]
  have hvalue := fun n => Reader.value_integer n i
    (Reader.numberEnds_cons (c := '\x7d') (by simp) [])
  have hmember := fun n => Reader.members_member (n + 1) "offset" (hvalue n)
  rw [hdigits] at hmember
  have hobject : ∀ n, Reader.value Reader.ofChars (n + 3) (index i).render =
      .ok (.object [(some "offset", Raw.ofInt i)], []) := by
    intro n
    rw [render, stringText]
    refine (Reader.value_object Reader.ofChars (n + 2) _).trans ?_
    refine (congrArg (fun r => r >>= _) (hmember n)).trans ?_
    rfl
  rw [Raw.read, Raw.readBy]
  have hlength : 0 < (index i).render.length := by simp [render]
  obtain ⟨n, hn⟩ := Nat.exists_eq_add_of_le (by omega : 3 ≤ 2 * (index i).render.length + 2)
  rw [hn, Nat.add_comm, hobject n]
  rfl

/-- The token of an index that no machine word holds leads nowhere. -/
theorem decode_index_beyond {i : Nat} (h : ¬ i < Nat.pow 2 64) :
    decode (index i).encode = .error "not a position" := by
  rw [decode_of_read (read_index i), ofRaw?, toNat?_ofInt_beyond h]
  rfl

/-! ## Distinct positions, distinct tokens -/

/-- The tree that a position is written as. -/
def tree : Position → Raw
  | after key => .object [(some "after_key", Raw.ofValue key.toJson)]
  | index i => .object [(some "offset", Raw.ofInt i)]

theorem read_render (p : Position) : Raw.read p.render = .ok p.tree := by
  cases p with
  | after key => exact Raw.read_render _ (after key).isExact_toJson
  | index i => exact read_index i

/-- The digits of an index tell it, whether or not a machine word holds it. -/
theorem ofInt_injective {i j : Nat} (h : Raw.ofInt (i : Int) = Raw.ofInt (j : Int)) : i = j := by
  simp only [Raw.ofInt, Raw.number.injEq, Literal.mk.injEq, Int.natAbs_natCast] at h
  have hvalue := congrArg Literal.natValue h.2.1
  simpa only [natValue_toDigits] using hvalue

theorem tree_injective {p q : Position} (h : p.tree = q.tree) : p = q := by
  cases p with
  | after key =>
      cases q with
      | after key' =>
          -- Both keys are read back from the one tree.
          have hkey := congrArg ofRaw? h
          rw [tree, tree, ofRaw?, ofRaw?, Key.ofRaw?_toJson, Key.ofRaw?_toJson] at hkey
          simpa using hkey
      | index j => simp [tree] at h
  | index i =>
      cases q with
      | after key' => simp [tree] at h
      | index j =>
          have hdigits : Raw.ofInt (i : Int) = Raw.ofInt (j : Int) := by simpa [tree] using h
          rw [ofInt_injective hdigits]

theorem render_injective {p q : Position} (h : p.render = q.render) : p = q := by
  have hread := read_render p
  rw [h, read_render q] at hread
  exact tree_injective (Except.ok.inj hread).symm

theorem render_of_encode {p q : Position} (h : p.encode = q.encode) : p.render = q.render := by
  have hsymbols := Text.Base64.encode_injective (String.ofList_injective h)
  exact String.ofList_injective (Text.octets_injective hsymbols)

/-- **Tokens and positions.** A token is read as the position it was made of, unless that is an
index beyond a machine word, and no two positions have one token. -/
theorem tokens_lead_back (p : Position) :
    (decode p.encode = .ok p ↔ p.Fits) ∧ ∀ q : Position, p.encode = q.encode → p = q := by
  refine ⟨⟨?_, decode_encode⟩, fun q h => render_injective (render_of_encode h)⟩
  intro h
  cases p with
  | after key => trivial
  | index i =>
      rcases Nat.lt_or_ge i (Nat.pow 2 64) with hi | hi
      · exact hi
      · rw [decode_index_beyond (Nat.not_lt.2 hi)] at h
        cases h

/-- A path of two steps under a namespace, one id negative and one missing, with text to escape. -/
def deepKey : Key :=
  ⟨some "tenant \"7\"", [⟨"Größe\n", some (.number (-7))⟩, ⟨"語", some (.name "")⟩, ⟨"", none⟩]⟩

theorem deepKey_leads_back :
    decode (after deepKey).encode = .ok (after deepKey) ∧
    decode (index 18446744073709551615).encode = .ok (index 18446744073709551615) ∧
    decode (index 18446744073709551616).encode ≠ .ok (index 18446744073709551616) ∧
    (after deepKey).encode ≠ (index 0).encode := by
  refine ⟨(tokens_lead_back _).1.2 trivial, (tokens_lead_back _).1.2 ?_, ?_, ?_⟩
  · show 18446744073709551615 < Nat.pow 2 64
    decide
  · intro h
    have hbound : 18446744073709551616 < Nat.pow 2 64 := (tokens_lead_back _).1.1 h
    exact absurd hbound (by decide)
  · intro h
    cases (tokens_lead_back _).2 _ h

end Position

end Quarry
