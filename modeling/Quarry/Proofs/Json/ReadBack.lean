import Quarry.Proofs.Json.Numbers
import Quarry.Proofs.Json.Strings

/-!
# Values survive their text

The compact text of a value without doubles is read back as the tree of that value.
-/

namespace Quarry.Json

open Reader

namespace Value

mutual

/-- No number in the value is a double. -/
def IsExact : Value → Prop
  | number (.double _) => False
  | array items => AllExact items
  | object members => MembersExact members
  | _ => True

def AllExact : List Value → Prop
  | [] => True
  | v :: rest => v.IsExact ∧ AllExact rest

def MembersExact : List (String × Value) → Prop
  | [] => True
  | (_, v) :: rest => v.IsExact ∧ MembersExact rest

end

end Value

namespace Reader

/-! ## The first character -/

/-- The text begins with a character that is neither blank nor the end of an array. -/
def Opens (text : List Char) : Prop := ∃ c rest, text = c :: rest ∧ isSpace c = false ∧ c ≠ ']'

theorem skip_cons {c : Char} (h : isSpace c = false) (rest : List Char) :
    skip (c :: rest) = c :: rest := by
  rw [skip, List.dropWhile_cons_of_neg (by simp [h])]

theorem skip_of_opens {text : List Char} (h : Opens text) (rest : List Char) :
    skip (text ++ rest) = text ++ rest := by
  obtain ⟨c, more, rfl, hspace, _⟩ := h
  exact skip_cons hspace _

theorem isDigit_cases {c : Char} (h : isDigit c = true) :
    c = '0' ∨ c = '1' ∨ c = '2' ∨ c = '3' ∨ c = '4' ∨ c = '5' ∨ c = '6' ∨ c = '7' ∨ c = '8' ∨
      c = '9' := by
  have hall : ∀ n < 58, 48 ≤ n →
      Char.ofNat n ∈ ['0', '1', '2', '3', '4', '5', '6', '7', '8', '9'] := by decide
  have hc : 48 ≤ c.toNat ∧ c.toNat ≤ 57 := by
    simpa [isDigit, Char.le_def, UInt32.le_iff_toNat_le] using h
  have hmem := hall c.toNat (by omega) hc.1
  rw [Char.ofNat_toNat] at hmem
  simpa only [List.mem_cons, List.not_mem_nil, or_false] using hmem

/-- The digits of a natural begin with a digit. -/
theorem toDigits_eq_cons (n : Nat) :
    ∃ c rest, Nat.toDigits 10 n = c :: rest ∧ isDigit c = true := by
  cases h : Nat.toDigits 10 n with
  | nil => exact absurd h Nat.toDigits_ne_nil
  | cons c rest => exact ⟨c, rest, rfl, isDigit_of_mem_toDigits (h ▸ List.mem_cons_self)⟩

theorem opens_integerText (i : Int) : Opens (integerText i) := by
  unfold integerText
  split
  · exact ⟨'-', _, rfl, rfl, by decide⟩
  · obtain ⟨c, rest, h, hc⟩ := toDigits_eq_cons i.natAbs
    refine ⟨c, rest, h, ?_⟩
    rcases isDigit_cases hc with rfl | rfl | rfl | rfl | rfl | rfl | rfl | rfl | rfl | rfl <;>
      decide

theorem opens_render (v : Value) (hv : v.IsExact) : Opens v.render := by
  cases v with
  | null => exact ⟨'n', _, rfl, rfl, by decide⟩
  | bool b => cases b <;> exact ⟨_, _, rfl, rfl, by decide⟩
  | number n =>
      cases n with
      | integer i fits => exact opens_integerText i
      | double d => exact absurd hv (by simp [Value.IsExact])
  | string s => exact ⟨'"', _, rfl, rfl, by decide⟩
  | array items => exact ⟨'[', _, rfl, rfl, by decide⟩
  | object members => exact ⟨'\x7b', _, rfl, rfl, by decide⟩

/-! ## Scalars -/

section Steps

variable (text? : Assembly) (n : Nat)

theorem value_digit {c : Char} (hc : isDigit c = true) (rest : List Char) :
    value text? (n + 1) (c :: rest) =
      (do let (literal, rest) ← unsigned false (c :: rest); return (.number literal, rest)) := by
  rcases isDigit_cases hc with rfl | rfl | rfl | rfl | rfl | rfl | rfl | rfl | rfl | rfl <;> rfl

theorem value_minus (rest : List Char) :
    value text? (n + 1) ('-' :: rest) =
      (do let (literal, rest) ← unsigned true rest; return (.number literal, rest)) := rfl

theorem value_quote (rest : List Char) :
    value text? (n + 1) ('"' :: rest) =
      (do let (text, rest) ← string text? rest; return (.string text, rest)) := rfl

/-- An array whose first item begins here. -/
theorem value_array {text : List Char} (h : Opens text) (rest : List Char) :
    value text? (n + 1) ('[' :: (text ++ rest)) =
      (do let (items, rest) ← items text? n (text ++ rest); return (.array items, rest)) := by
  have hskip := skip_of_opens h rest
  obtain ⟨c, more, rfl, _, hbracket⟩ := h
  simp only [value, skip_cons (show isSpace '[' = false from rfl)]
  rw [hskip, List.cons_append]
  split
  · rename_i heq
    exact absurd (List.cons.inj heq).1 hbracket
  · rename_i heq
    cases heq
  · rfl

/-- An object whose first name begins here. -/
theorem value_object (rest : List Char) :
    value text? (n + 1) ('\x7b' :: '"' :: rest) =
      (do let (members, rest) ← members text? n ('"' :: rest); return (.object members, rest)) :=
  rfl

/-- The last item of an array. -/
theorem items_last {text rest : List Char} {first : Raw}
    (h : value text? n text = .ok (first, ']' :: rest)) :
    items text? (n + 1) text = .ok ([first], rest) := by
  rw [items, h]
  rfl

/-- An item with others behind it. -/
theorem items_next {text next rest : List Char} {first : Raw} {more : List Raw} {last : List Char}
    (hfirst : value text? n text = .ok (first, ',' :: (next ++ rest))) (hnext : Opens next)
    (hmore : items text? n (next ++ rest) = .ok (more, last)) :
    items text? (n + 1) text = .ok (first :: more, last) := by
  rw [items, hfirst]
  have hskip := skip_of_opens hnext rest
  obtain ⟨c, cs, rfl, _, hbracket⟩ := hnext
  simp only [bind, Except.bind, skip_cons (show isSpace ',' = false from rfl)]
  rw [hskip, List.cons_append]
  split
  · rename_i heq
    exact absurd (List.cons.inj heq).1 hbracket
  · rw [← List.cons_append, hmore]
    rfl

end Steps

theorem value_integer (n : Nat) (i : Int) {rest : List Char} (h : NumberEnds rest) :
    value ofChars (n + 1) (integerText i ++ rest) = .ok (Raw.ofInt i, rest) := by
  by_cases hneg : i < 0
  · rw [integerText, if_pos hneg, List.cons_append, value_minus,
      unsigned_toDigits true i.natAbs h]
    simp [bind, Except.bind, pure, Except.pure, Raw.ofInt, hneg]
  · rw [integerText, if_neg hneg]
    have hread := unsigned_toDigits false i.natAbs h
    obtain ⟨c, more, hdigits, hc⟩ := toDigits_eq_cons i.natAbs
    rw [hdigits, List.cons_append] at hread ⊢
    rw [value_digit ofChars n hc, hread]
    simp [bind, Except.bind, pure, Except.pure, Raw.ofInt, hneg, hdigits]

theorem value_string (n : Nat) (s : String) (rest : List Char) :
    value ofChars (n + 1) (stringText s ++ rest) = .ok (.string (some s), rest) := by
  have htext : stringText s ++ rest = '"' :: (s.toList.flatMap escapeChar ++ '"' :: rest) := by
    simp [stringText]
  rw [htext, value_quote, string_stringText]
  rfl

/-! ## Values -/

theorem numberEnds_cons {c : Char} (hc : c ∈ [',', ']', '\x7d']) (rest : List Char) :
    NumberEnds (c :: rest) := by
  rintro d ⟨⟩
  simp only [List.mem_cons, List.not_mem_nil, or_false] at hc
  rcases hc with rfl | rfl | rfl <;> decide

/-- One member, whatever is behind its value. -/
theorem members_member (n : Nat) (name : String) {text rest : List Char} {first : Raw}
    (h : value ofChars n text = .ok (first, rest)) :
    members ofChars (n + 1) (stringText name ++ ':' :: text) =
      match skip rest with
      | '\x7d' :: rest => .ok ([(some name, first)], rest)
      | ',' :: rest =>
        match skip rest with
        | '\x7d' :: rest => .error ⟨.trailingComma, rest.length⟩
        | rest => do
          let (more, rest) ← members ofChars n rest
          return ((some name, first) :: more, rest)
      | [] => .error ⟨.objectEnds, 0⟩
      | _ :: rest => .error ⟨.commaOrBraceExpected, rest.length⟩ := by
  have htext : stringText name ++ ':' :: text =
      '"' :: (name.toList.flatMap escapeChar ++ '"' :: ':' :: text) := by
    simp [stringText]
  have hcolon : skip (':' :: text) = ':' :: text := rfl
  have hquote : ∀ s, skip ('"' :: s) = '"' :: s := fun _ => rfl
  rw [htext, members, hquote]
  simp only [bind, Except.bind, string_stringText, hcolon, h]
  rfl

/-- A bound of twice the length of a text leaves a call to make. -/
theorem exists_succ {text : List Char} (h : Opens text) {n : Nat} (hn : 2 * text.length ≤ n) :
    ∃ k, n = k + 1 := by
  obtain ⟨c, rest, rfl, _, _⟩ := h
  rw [List.length_cons] at hn
  exact ⟨n - 1, by omega⟩

theorem opens_renderItems (v : Value) (vs : List Value) (hv : v.IsExact) :
    Opens (Value.renderItems (v :: vs)) := by
  obtain ⟨c, rest, h, hspace, hbracket⟩ := opens_render v hv
  cases vs with
  | nil => exact ⟨c, rest ++ [']'], by rw [Value.renderItems, h]; rfl, hspace, hbracket⟩
  | cons w vs =>
      exact ⟨c, rest ++ ',' :: Value.renderItems (w :: vs), by rw [Value.renderItems, h]; rfl, hspace,
        hbracket⟩

theorem renderMembers_eq_cons (m : String × Value) (ms : List (String × Value)) :
    ∃ rest, Value.renderMembers (m :: ms) = '"' :: rest := by
  cases ms with
  | nil => exact ⟨_, by rw [Value.renderMembers, stringText]; rfl⟩
  | cons m' ms => exact ⟨_, by rw [Value.renderMembers, stringText]; rfl⟩

theorem opens_renderMembers (m : String × Value) (ms : List (String × Value)) :
    Opens (Value.renderMembers (m :: ms)) := by
  obtain ⟨text, htext⟩ := renderMembers_eq_cons m ms
  exact ⟨'"', text, htext, rfl, by decide⟩

mutual

/-- **Round trip.** The text of a value without doubles is read as the tree of that value. -/
theorem value_render : ∀ (v : Value), v.IsExact → ∀ {n : Nat} {rest : List Char},
    2 * v.render.length ≤ n → NumberEnds rest →
      value ofChars n (v.render ++ rest) = .ok (Raw.ofValue v, rest)
  | .null, hv, _, _, hn, _ => by
      obtain ⟨k, rfl⟩ := exists_succ (opens_render _ hv) hn
      rfl
  | .bool b, hv, _, _, hn, _ => by
      obtain ⟨k, rfl⟩ := exists_succ (opens_render _ hv) hn
      cases b <;> rfl
  | .number (.integer i _), hv, _, _, hn, hrest => by
      obtain ⟨k, rfl⟩ := exists_succ (opens_render _ hv) hn
      exact value_integer k i hrest
  | .number (.double _), hv, _, _, _, _ => absurd hv (by simp [Value.IsExact])
  | .string s, hv, _, rest, hn, _ => by
      obtain ⟨k, rfl⟩ := exists_succ (opens_render _ hv) hn
      exact value_string k s rest
  | .array [], hv, _, _, hn, _ => by
      obtain ⟨k, rfl⟩ := exists_succ (opens_render _ hv) hn
      rfl
  | .array (v :: vs), hv, _, rest, hn, _ => by
      obtain ⟨k, rfl⟩ := exists_succ (opens_render _ hv) hn
      rw [Value.render, List.length_cons] at hn
      rw [Value.IsExact] at hv
      have hread := items_render (v :: vs) (by simp) hv (n := k) rest (by omega)
      rw [Value.AllExact] at hv
      rw [Value.render, List.cons_append, value_array ofChars k (opens_renderItems v vs hv.1), hread]
      rfl
  | .object [], hv, _, _, hn, _ => by
      obtain ⟨k, rfl⟩ := exists_succ (opens_render _ hv) hn
      rfl
  | .object (m :: ms), hv, _, rest, hn, _ => by
      obtain ⟨k, rfl⟩ := exists_succ (opens_render _ hv) hn
      rw [Value.render, List.length_cons] at hn
      rw [Value.IsExact] at hv
      have hread := members_render (m :: ms) (by simp) hv (n := k) rest (by omega)
      obtain ⟨text, htext⟩ := renderMembers_eq_cons m ms
      rw [Value.render, List.cons_append]
      rw [htext, List.cons_append] at hread ⊢
      rw [value_object, hread]
      rfl

-- Items begin with something that is no bracket, so that the reader does not take the array to end.
theorem items_render : ∀ (vs : List Value), vs ≠ [] → Value.AllExact vs →
    ∀ {n : Nat} (rest : List Char), 2 * (Value.renderItems vs).length ≤ n →
      items ofChars n (Value.renderItems vs ++ rest) = .ok (Raw.ofItems vs, rest)
  | [], hne, _, _, _, _ => absurd rfl hne
  | [v], _, hvs, _, rest, hn => by
      rw [Value.AllExact] at hvs
      obtain ⟨k, rfl⟩ := exists_succ (opens_renderItems v [] hvs.1) hn
      rw [Value.renderItems, List.length_append, List.length_singleton] at hn
      rw [Value.renderItems, List.append_assoc]
      have hfirst := value_render v hvs.1 (n := k) (by omega)
        (numberEnds_cons (c := ']') (by simp) rest)
      exact items_last ofChars k hfirst
  | v :: w :: ws, _, hvs, _, rest, hn => by
      rw [Value.AllExact] at hvs
      obtain ⟨k, rfl⟩ := exists_succ (opens_renderItems v (w :: ws) hvs.1) hn
      rw [Value.renderItems, List.length_append, List.length_cons] at hn
      rw [Value.renderItems, List.append_assoc]
      have hfirst := value_render v hvs.1 (n := k) (by omega)
        (numberEnds_cons (c := ',') (by simp) (Value.renderItems (w :: ws) ++ rest))
      have hmore := items_render (w :: ws) (by simp) hvs.2 (n := k) rest (by omega)
      rw [Value.AllExact] at hvs
      exact items_next ofChars k hfirst (opens_renderItems w ws hvs.2.1) hmore

theorem members_render : ∀ (ms : List (String × Value)), ms ≠ [] → Value.MembersExact ms →
    ∀ {n : Nat} (rest : List Char), 2 * (Value.renderMembers ms).length ≤ n →
      members ofChars n (Value.renderMembers ms ++ rest) = .ok (Raw.ofMembers ms, rest)
  | [], hne, _, _, _, _ => absurd rfl hne
  | [(name, v)], _, hms, _, rest, hn => by
      obtain ⟨k, rfl⟩ := exists_succ (opens_renderMembers (name, v) []) hn
      have heq : Value.renderMembers [(name, v)] ++ rest =
          stringText name ++ ':' :: (v.render ++ '\x7d' :: rest) := by simp [Value.renderMembers]
      simp only [Value.renderMembers, List.length_append, List.length_cons, List.length_nil] at hn
      rw [Value.MembersExact] at hms
      have hfirst := value_render v hms.1 (n := k) (by omega)
        (numberEnds_cons (c := '\x7d') (by simp) rest)
      rw [heq, members_member k name hfirst]
      rfl
  | (name, v) :: m :: ms, _, hms, _, rest, hn => by
      obtain ⟨k, rfl⟩ := exists_succ (opens_renderMembers (name, v) (m :: ms)) hn
      have heq : Value.renderMembers ((name, v) :: m :: ms) ++ rest =
          stringText name ++ ':' :: (v.render ++ ',' :: (Value.renderMembers (m :: ms) ++ rest)) := by
        simp [Value.renderMembers]
      simp only [Value.renderMembers, List.length_append, List.length_cons] at hn
      rw [Value.MembersExact] at hms
      have hfirst := value_render v hms.1 (n := k) (by omega)
        (numberEnds_cons (c := ',') (by simp) (Value.renderMembers (m :: ms) ++ rest))
      have hmore := members_render (m :: ms) (by simp) hms.2 (n := k) rest (by omega)
      obtain ⟨text, htext⟩ := renderMembers_eq_cons m ms
      rw [heq, members_member k name hfirst]
      rw [htext, List.cons_append] at hmore ⊢
      show (do let (more, rest) ← members ofChars k ('"' :: _); _) = _
      rw [hmore]
      rfl

end

end Reader

/-- The whole text of a value without doubles is read as the tree of that value. -/
theorem Raw.read_render (v : Value) (hv : v.IsExact) : Raw.read v.render = .ok (Raw.ofValue v) := by
  have hends : NumberEnds [] := by
    intro c hc
    cases hc
  have h := value_render v hv (n := 2 * v.render.length + 2) (by omega) hends
  rw [List.append_nil] at h
  rw [Raw.read, Raw.readBy, h]
  rfl

end Quarry.Json
