/-!
# Texts as octets

A text is given back by the octets of its UTF-8 form. A text of ASCII characters has one octet for
each character.
-/

namespace Quarry.Text

theorem fromUTF8?_octets (s : String) :
    String.fromUTF8? ⟨s.toUTF8.data.toList.toArray⟩ = some s := by
  have h : (⟨s.toUTF8.data.toList.toArray⟩ : ByteArray) = s.toByteArray := by
    rw [String.toUTF8_eq_toByteArray, Array.toArray_toList]
  rw [h, String.fromUTF8?, dif_pos s.isValidUTF8]
  rfl

theorem octets_injective {s t : String} (h : s.toUTF8.data.toList = t.toUTF8.data.toList) :
    s = t := by
  have htext := congrArg (fun octets : List UInt8 => String.fromUTF8? ⟨octets.toArray⟩) h
  simpa only [fromUTF8?_octets, Option.some.injEq] using htext

/-- A character below 128 is its own octet. -/
theorem utf8EncodeChar_ascii {c : Char} (h : c.toNat < 128) :
    String.utf8EncodeChar c = [c.toUInt8] := by
  have hc : c.val.toNat ≤ 127 := Nat.le_of_lt_succ h
  simp only [String.utf8EncodeChar, if_pos hc]
  rfl

theorem octets_ofList {cs : List Char} (h : ∀ c ∈ cs, c.toNat < 128) :
    (String.ofList cs).toUTF8.data.toList = cs.map Char.toUInt8 := by
  rw [String.toUTF8_eq_toByteArray, String.toByteArray_ofList, List.utf8Encode,
    List.toList_data_toByteArray]
  induction cs with
  | nil => rfl
  | cons c cs ih =>
      have hc : String.utf8EncodeChar c = [c.toUInt8] :=
        utf8EncodeChar_ascii (h c List.mem_cons_self)
      have hcs : cs.flatMap String.utf8EncodeChar = cs.map Char.toUInt8 :=
        ih fun d hd => h d (List.mem_cons_of_mem c hd)
      rw [List.flatMap_cons, hc, hcs]
      rfl

end Quarry.Text
