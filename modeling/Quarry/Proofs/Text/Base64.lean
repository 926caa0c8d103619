import Quarry.Text.Base64

/-!
# Octets survive their text

Encoding groups octets into numbers of six bits and writes a symbol for each. Decoding reads the
symbols back and joins the bits, so that it gives back the octets that were encoded.
-/

namespace Quarry.Text.Base64

/-- The six-bit numbers of the octets, the unused low bits being zero. -/
def sextets : List UInt8 → List Nat
  | a :: b :: c :: rest =>
    let n := (a.toNat * 256 + b.toNat) * 256 + c.toNat
    n / 262144 :: n / 4096 % 64 :: n / 64 % 64 :: n % 64 :: sextets rest
  | [a, b] =>
    let n := (a.toNat * 256 + b.toNat) * 4
    [n / 4096, n / 64 % 64, n % 64]
  | [a] =>
    let n := a.toNat * 16
    [n / 64, n % 64]
  | [] => []

theorem encode_eq (octets : List UInt8) : encode octets = (sextets octets).map symbol := by
  fun_induction encode octets with
  | case1 a b c rest n ih => simp [sextets, ih, n]
  | case2 a b n => simp [sextets, n]
  | case3 a n => simp [sextets, n]
  | case4 => rfl

theorem sextets_lt (octets : List UInt8) : ∀ n ∈ sextets octets, n < 64 := by
  fun_induction sextets octets with
  | case1 a b c rest n ih =>
      have ha := a.toNat_lt
      have hb := b.toNat_lt
      have hc := c.toNat_lt
      simp only [List.forall_mem_cons]
      refine ⟨?_, ?_, ?_, ?_, ih⟩ <;> omega
  | case2 a b n =>
      have ha := a.toNat_lt
      have hb := b.toNat_lt
      simp only [List.forall_mem_cons]
      refine ⟨?_, ?_, ?_, by simp⟩ <;> omega
  | case3 a n =>
      have ha := a.toNat_lt
      simp only [List.forall_mem_cons]
      refine ⟨?_, ?_, by simp⟩ <;> omega
  | case4 => simp

/-- Symbols are ASCII characters, none of them is the padding sign, and each is read as its bits. -/
theorem symbol_spec : ∀ n < 64, (symbol n).toNat < 128 ∧ (symbol n).toUInt8 ≠ pad ∧
    bits? (symbol n).toUInt8 = some n := by
  decide

theorem encode_ascii (octets : List UInt8) : ∀ c ∈ encode octets, c.toNat < 128 := by
  intro c hc
  rw [encode_eq] at hc
  obtain ⟨n, hn, rfl⟩ := List.mem_map.mp hc
  exact (symbol_spec n (sextets_lt octets n hn)).1

theorem scan_symbols (ns : List Nat) (h : ∀ n ∈ ns, n < 64) (offset : Nat) :
    scan offset (ns.map fun n => (symbol n).toUInt8) = .ok ns := by
  induction ns generalizing offset with
  | nil => rfl
  | cons n ns ih =>
      obtain ⟨_, hpad, hbits⟩ := symbol_spec n (h n List.mem_cons_self)
      have hns := ih (fun m hm => h m (List.mem_cons_of_mem n hm)) (offset + 1)
      simp only [List.map_cons, scan, if_neg hpad, hbits, hns]

theorem assemble?_sextets (octets : List UInt8) : assemble? (sextets octets) = some octets := by
  fun_induction sextets octets with
  | case1 a b c rest n ih =>
      have ha := a.toNat_lt
      have hb := b.toNat_lt
      have hc := c.toNat_lt
      have hn : ((n / 262144 * 64 + n / 4096 % 64) * 64 + n / 64 % 64) * 64 + n % 64 = n := by omega
      have h1 : n / 65536 = a.toNat := by omega
      have h2 : n / 256 % 256 = b.toNat := by omega
      have h3 : n % 256 = c.toNat := by omega
      simp [assemble?, ih, hn, h1, h2, h3]
  | case2 a b n =>
      have ha := a.toNat_lt
      have hb := b.toNat_lt
      have hn : (n / 4096 * 64 + n / 64 % 64) * 64 + n % 64 = n := by omega
      have h1 : n / 1024 = a.toNat := by omega
      have h2 : n / 4 % 256 = b.toNat := by omega
      have h3 : n % 4 = 0 := by omega
      simp [assemble?, hn, h1, h2, h3]
  | case3 a n =>
      have ha := a.toNat_lt
      have hn : n / 64 * 64 + n % 64 = n := by omega
      have h1 : n / 16 = a.toNat := by omega
      have h2 : n % 16 = 0 := by omega
      simp [assemble?, hn, h1, h2]
  | case4 => rfl

theorem length_sextets (octets : List UInt8) : (sextets octets).length % 4 ≠ 1 := by
  fun_induction sextets octets with
  | case1 a b c rest n ih =>
      simp only [List.length_cons]
      omega
  | case2 a b n => simp
  | case3 a n => simp
  | case4 => simp

/-- **Round trip.** Decoding the symbols of octets gives back the octets. -/
theorem decode_encode (octets : List UInt8) :
    decode ((encode octets).map Char.toUInt8) = .ok octets := by
  have hmap : (encode octets).map Char.toUInt8 =
      (sextets octets).map fun n => (symbol n).toUInt8 := by
    rw [encode_eq, List.map_map]
    rfl
  have hlength : ((sextets octets).map fun n => (symbol n).toUInt8).length % 4 ≠ 1 := by
    rw [List.length_map]
    exact length_sextets octets
  have hscan := scan_symbols (sextets octets) (sextets_lt octets) 0
  simp only [hmap, decode, if_neg hlength, hscan, assemble?_sextets]

theorem encode_injective {octets octets' : List UInt8} (h : encode octets = encode octets') :
    octets = octets' := by
  have hdecode := congrArg (fun symbols => decode (symbols.map Char.toUInt8)) h
  simpa only [decode_encode, Except.ok.injEq] using hdecode

end Quarry.Text.Base64
