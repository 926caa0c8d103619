import Quarry.Criteria.Reader
import Quarry.Proofs.Except
import Quarry.Proofs.Record
import Quarry.Proofs.Text.Words

/-!
# Sort notations

A list of sort clauses can be written as one text, as an array of texts, as an array of objects with
one member each, and, where no field comes twice, as one object. What a text writes is told by a
relation, with any blanks and any empty clauses. All notations of a list are read as the same sort
order, and a text is refused exactly if one of its clauses has three words or more.
-/

namespace Quarry

open Json Text

namespace Sorting

/-! ## What is written -/

/-- What stands for a field or a direction in a sort text: one word, without a comma. -/
structure Word where
  text : String
  isWord : IsWord text.toList
  noComma : ',' ∉ text.toList

/-- A clause as it is written, with or without a direction. -/
structure Wording where
  field : Word
  direction : Option Word

namespace Wording

def words (c : Wording) : List (List Char) :=
  c.field.text.toList :: (c.direction.map fun d => d.text.toList).toList

/-- The order that is meant, ascending where no direction is written. -/
def sorting (c : Wording) : Sorting :=
  ⟨c.field.text, (c.direction.map fun d => .ofText d.text).getD .ascending⟩

/-- The clause of a field with its direction. -/
def directed (p : Word × Word) : Wording := ⟨p.1, some p.2⟩

end Wording

/-- A field with its direction as the member of an object. -/
def member (p : Word × Word) : String × Value := (p.1.text, .string p.2.text)

/-- The text writes the clauses: a comma between any two, blanks around and between the words, and
empty clauses anywhere. -/
inductive Writes : List Wording → List Char → Prop where
  | blank {pad : List Char} (hpad : AllBlank pad) : Writes [] pad
  | clause {c : Wording} {s : List Char} (h : Spelled c.words s) : Writes [c] s
  | comma {clauses others : List Wording} {s t : List Char} (hs : Writes clauses s)
      (ht : Writes others t) : Writes (clauses ++ others) (s ++ ',' :: t)

variable {c : Wording} {clauses : List Wording} {s t : List Char}

/-- The text with one blank between the words and one comma between the clauses. -/
def plain (clauses : List Wording) : List Char :=
  [','].intercalate (clauses.map fun c => [' '].intercalate c.words)

theorem spelled_words (c : Wording) : Spelled c.words ([' '].intercalate c.words) := by
  have hnone : AllBlank [] := by decide
  obtain ⟨field, direction⟩ := c
  cases direction with
  | none =>
      have hfield := Spelled.word (w := field.text.toList) hnone (by simp) (.blank hnone)
      simpa [Wording.words] using hfield
  | some d =>
      have hblank : AllBlank [' '] := by decide
      have hends : ∀ c ∈ ([' '] ++ d.text.toList ++ []).head?, isBlank c = true := by
        rintro c ⟨⟩
        rfl
      have hdirection := Spelled.word (w := d.text.toList) hblank (by simp) (.blank hnone)
      have hfield := Spelled.word (w := field.text.toList) hnone hends hdirection
      simpa [Wording.words] using hfield

/-- Every list of clauses is written by its plain text. -/
theorem writes_plain (clauses : List Wording) : Writes clauses (plain clauses) := by
  induction clauses with
  | nil => exact .blank (by decide)
  | cons c clauses ih =>
      have hc : Writes [c] _ := .clause (spelled_words c)
      cases clauses with
      | nil => simpa [plain] using hc
      | cons d clauses => simpa [plain] using Writes.comma hc ih

theorem Wording.isWord_of_mem {w : List Char} (h : w ∈ c.words) : IsWord w ∧ ',' ∉ w := by
  obtain ⟨field, direction⟩ := c
  rcases List.mem_cons.1 h with rfl | h
  · exact ⟨field.isWord, field.noComma⟩
  · cases direction with
    | none => cases h
    | some d =>
        obtain rfl := List.mem_singleton.1 h
        exact ⟨d.isWord, d.noComma⟩

/-! ## Clauses of a text -/

/-- The clauses of a text that are not blank. -/
def clauseTexts (s : List Char) : List (List Char) :=
  ((splitWhere (· = ',') s).map trim).filter fun c => !c.isEmpty

theorem ofText_eq (s : String) : ofText s = (clauseTexts s.toList).mapM ofClause := rfl

/-- **Clauses part at a comma.** -/
theorem clauseTexts_append (s t : List Char) :
    clauseTexts (s ++ ',' :: t) = clauseTexts s ++ clauseTexts t := by
  have hsplit : splitWhere (· = ',') (s ++ ',' :: t) = _ := splitWhere_append (by decide) s t
  simp only [clauseTexts, hsplit, List.map_append, List.filter_append]

theorem splitWhere_comma (h : ',' ∉ s) : splitWhere (· = ',') s = [s] := by
  refine splitWhere_eq_singleton ?_
  intro c hc
  exact decide_eq_false fun heq => h (heq ▸ hc)

theorem comma_not_mem_of_allBlank (h : AllBlank s) : ',' ∉ s := by
  intro hmem
  exact absurd (h ',' hmem) (by decide)

/-- There is no comma in a text that spells words without one. -/
theorem comma_not_mem_of_spelled {ws : List (List Char)} (h : Spelled ws s)
    (hws : ∀ w ∈ ws, ',' ∉ w) : ',' ∉ s := by
  induction h with
  | blank hpad => exact comma_not_mem_of_allBlank hpad
  | word hpad hends hrest ih =>
      obtain ⟨hw, hws⟩ := List.forall_mem_cons.1 hws
      simp [comma_not_mem_of_allBlank hpad, hw, ih hws]

theorem clauseTexts_of_allBlank (h : AllBlank s) : clauseTexts s = [] := by
  have htrim : trim s = [] := trim_eq_nil_iff.2 (words_eq_nil_of_allBlank h)
  simp [clauseTexts, splitWhere_comma (comma_not_mem_of_allBlank h), htrim]

theorem clauseTexts_of_spelled (h : Spelled c.words s) : clauseTexts s = [trim s] := by
  have hcomma := comma_not_mem_of_spelled h fun w hw => (Wording.isWord_of_mem hw).2
  have hwords := words_of_spelled h fun w hw => (Wording.isWord_of_mem hw).1
  have htrim : trim s ≠ [] := by
    rw [Ne, trim_eq_nil_iff, hwords]
    exact List.cons_ne_nil _ _
  simp [clauseTexts, splitWhere_comma hcomma, htrim]

theorem ofClause_of_spelled (h : Spelled c.words s) : ofClause (trim s) = .ok c.sorting := by
  have hwords : words (trim s) = c.words := by
    rw [words_trim]
    exact words_of_spelled h fun w hw => (Wording.isWord_of_mem hw).1
  obtain ⟨field, direction⟩ := c
  cases direction with
  | none => simp [ofClause, hwords, Wording.words, Wording.sorting]
  | some d => simp [ofClause, hwords, Wording.words, Wording.sorting]

theorem ofClause_clauseTexts (h : Writes clauses s) :
    List.Forall₂ (fun t c => ofClause t = .ok c.sorting) (clauseTexts s) clauses := by
  induction h with
  | blank hpad =>
      rw [clauseTexts_of_allBlank hpad]
      exact .nil
  | clause h =>
      rw [clauseTexts_of_spelled h]
      exact .cons (ofClause_of_spelled h) .nil
  | comma _ _ ihs iht =>
      rw [clauseTexts_append]
      exact List.rel_append ihs iht

/-- A text is read as the clauses that it writes. -/
theorem ofText_of_writes {s : String} (h : Writes clauses s.toList) :
    ofText s = .ok (clauses.map Wording.sorting) := by
  rw [ofText_eq, mapM_eq_ok, List.forall₂_map_right_iff]
  exact ofClause_clauseTexts h

/-! ## Arrays and objects -/

theorem read_array {items : List Value} {parts : List (List Sorting)}
    (h : List.Forall₂ (fun v part => readEntry v = .ok part) items parts) :
    read (.array items) = .ok parts.flatten :=
  map_eq_ok.2 ⟨parts, mapM_eq_ok.2 h, rfl⟩

theorem flatten_sortings (clauses : List Wording) :
    (clauses.map fun c => [c.sorting]).flatten = clauses.map Wording.sorting := by
  induction clauses with
  | nil => rfl
  | cons c clauses ih => simp [ih]

/-- Texts of one clause each are read in their order. -/
theorem read_texts {texts : List String}
    (h : List.Forall₂ (fun c t => Writes [c] t.toList) clauses texts) :
    read (.array (texts.map .string)) = .ok (clauses.map Wording.sorting) := by
  rw [← flatten_sortings]
  apply read_array
  rw [List.forall₂_map_left_iff, List.forall₂_map_right_iff]
  exact h.flip.imp fun t c hwrites => ofText_of_writes hwrites

theorem readDirection_member (p : Word × Word) :
    (readDirection (member p).1 (member p).2).map (fun d => ⟨(member p).1, d⟩) =
      .ok (Wording.directed p).sorting := rfl

theorem ofMembers_members (pairs : List (Word × Word)) :
    ofMembers (pairs.map member) = .ok (pairs.map fun p => (Wording.directed p).sorting) := by
  rw [ofMembers, mapM_eq_ok, List.forall₂_map_left_iff, List.forall₂_map_right_iff, List.forall₂_same]
  intro p _
  exact readDirection_member p

/-- Objects of one member each are read in their order. -/
theorem read_objects (pairs : List (Word × Word)) :
    read (.array (pairs.map fun p => .object [member p])) =
      .ok (pairs.map fun p => (Wording.directed p).sorting) := by
  have hparts := flatten_sortings (pairs.map Wording.directed)
  rw [List.map_map, List.map_map] at hparts
  refine (read_array ?_).trans (congrArg Except.ok hparts)
  rw [List.forall₂_map_left_iff, List.forall₂_map_right_iff, List.forall₂_same]
  intro p _
  exact ofMembers_members [p]

/-- An object keeps its members in the order in which they were put into it. -/
theorem read_object {pairs : List (Word × Word)} (h : (pairs.map fun p => p.1.text).Nodup) :
    read (Record.ofColumns (pairs.map member)).toJson =
      .ok (pairs.map fun p => (Wording.directed p).sorting) := by
  have hcolumns : (Record.ofColumns (pairs.map member)).columns = pairs.map member := by
    refine Record.columns_ofColumns ?_
    rw [List.map_map]
    exact h
  rw [Record.toJson, hcolumns]
  exact ofMembers_members pairs

/-! ## What is refused -/

/-- What is wrong with a clause that is not blank: that it has three words or more. -/
def clauseFaults (clause : List Char) : List CriteriaError :=
  if 3 ≤ (words clause).length then [.malformed (.sortClause (String.ofList clause))] else []

theorem reports_ofClause (h : words t ≠ []) : Reports (ofClause t) (clauseFaults t) := by
  rw [ofClause, clauseFaults]
  rcases hwords : words t with _ | ⟨field, _ | ⟨direction, _ | ⟨w, rest⟩⟩⟩
  · exact absurd hwords h
  · exact reports_ok _
  · exact reports_ok _
  · rw [if_pos (by simp)]
    rfl

theorem mem_clauseTexts_iff :
    t ∈ clauseTexts s ↔ ∃ piece ∈ splitWhere (· = ',') s, trim piece = t ∧ words t ≠ [] := by
  simp only [clauseTexts, List.mem_filter, List.mem_map]
  constructor
  · rintro ⟨⟨piece, hpiece, rfl⟩, hne⟩
    refine ⟨piece, hpiece, rfl, ?_⟩
    rw [words_trim, Ne, ← trim_eq_nil_iff]
    simpa using hne
  · rintro ⟨piece, hpiece, rfl, hne⟩
    refine ⟨⟨piece, hpiece, rfl⟩, ?_⟩
    rw [words_trim, Ne, ← trim_eq_nil_iff] at hne
    simpa using hne

theorem reports_ofText (s : String) :
    Reports (ofText s) ((clauseTexts s.toList).flatMap clauseFaults) := by
  rw [ofText_eq]
  apply reports_mapM
  intro t ht
  obtain ⟨_, _, _, hne⟩ := mem_clauseTexts_iff.1 ht
  exact reports_ofClause hne

theorem ofText_refuses_iff (s : String) : (∃ fault, ofText s = .error fault) ↔
    ∃ piece ∈ splitWhere (· = ',') s.toList, 3 ≤ (words piece).length := by
  have hreports := reports_ofText s
  -- A clause is its piece trimmed, and trimming changes no words.
  constructor
  · rintro ⟨fault, hfault⟩
    have hmem := List.mem_of_mem_head? (hreports.error_iff.1 hfault)
    obtain ⟨t, ht, hfault⟩ := List.mem_flatMap.1 hmem
    obtain ⟨piece, hpiece, rfl, _⟩ := mem_clauseTexts_iff.1 ht
    refine ⟨piece, hpiece, Decidable.byContradiction fun hfew => ?_⟩
    rw [clauseFaults, words_trim, if_neg hfew] at hfault
    cases hfault
  · rintro ⟨piece, hpiece, hmany⟩
    cases hread : ofText s with
    | error fault => exact ⟨fault, rfl⟩
    | ok sortings =>
        have hfaults := hreports.ok_iff.1 ⟨sortings, hread⟩
        have hclause : trim piece ∈ clauseTexts s.toList := by
          refine mem_clauseTexts_iff.2 ⟨piece, hpiece, rfl, ?_⟩
          rw [words_trim]
          exact List.ne_nil_of_length_pos (by omega)
        have hnone := List.flatMap_eq_nil_iff.1 hfaults _ hclause
        rw [clauseFaults, words_trim, if_pos hmany] at hnone
        cases hnone

/-! ## The notations together -/

/-- **Sort notations agree.** Whatever text writes the clauses, the plain one among others. -/
theorem notations_agree :
    (∀ clauses : List Wording, Writes clauses (plain clauses)) ∧
    (∀ (clauses : List Wording) (s : String), Writes clauses s.toList →
      read (.string s) = .ok (clauses.map Wording.sorting)) ∧
    (∀ (clauses : List Wording) (texts : List String),
      List.Forall₂ (fun c t => Writes [c] t.toList) clauses texts →
        read (.array (texts.map .string)) = .ok (clauses.map Wording.sorting)) ∧
    (∀ pairs : List (Word × Word),
      read (.array (pairs.map fun p => .object [member p])) =
        .ok (pairs.map fun p => (Wording.directed p).sorting)) ∧
    (∀ pairs : List (Word × Word), (pairs.map fun p => p.1.text).Nodup →
      read (Record.ofColumns (pairs.map member)).toJson =
        .ok (pairs.map fun p => (Wording.directed p).sorting)) ∧
    ∀ s : String, (∃ fault, read (.string s) = .error fault) ↔
      ∃ piece ∈ splitWhere (· = ',') s.toList, ∃ ws,
        Spelled ws piece ∧ (∀ w ∈ ws, IsWord w) ∧ 3 ≤ ws.length := by
  refine ⟨writes_plain, ?_, ?_, ?_, ?_, ?_⟩
  · intro clauses s h
    exact ofText_of_writes h
  · intro clauses texts h
    exact read_texts h
  · intro pairs
    exact read_objects pairs
  · intro pairs h
    exact read_object h
  · intro s
    refine (ofText_refuses_iff s).trans ?_
    constructor
    · rintro ⟨piece, hpiece, hmany⟩
      obtain ⟨hspelled, hwords⟩ := words_eq_iff.1 (rfl : words piece = words piece)
      exact ⟨piece, hpiece, _, hspelled, hwords, hmany⟩
    · rintro ⟨piece, hpiece, ws, hspelled, hwords, hmany⟩
      rw [← words_of_spelled hspelled hwords] at hmany
      exact ⟨piece, hpiece, hmany⟩

def byAge : Word × Word := (⟨"age", by decide, by decide⟩, ⟨"DESC", by decide, by decide⟩)

def byName : Word × Word := (⟨"name", by decide, by decide⟩, ⟨"aSc", by decide, by decide⟩)

theorem notations_agree_padded :
    let sortings : List Sorting := [⟨"age", .descending⟩, ⟨"name", .ascending⟩]
    read (.string "\u2003age  DESC ,\u00a0,name") = .ok sortings ∧
    read (.array [.string " age\tDESC", .string "name aSc"]) = .ok sortings ∧
    read (.array [.object [("age", .string "DESC")], .object [("name", .string "aSc")]]) =
      .ok sortings ∧
    read (Record.ofColumns [("age", .string "DESC"), ("name", .string "aSc")]).toJson =
      .ok sortings ∧
    ∃ fault, read (.string "age, name aSc last") = .error fault := by
  intro sortings
  obtain ⟨_, htext, htexts, hobjects, hobject, hrefused⟩ := notations_agree
  have hspelled : ∀ {ws s}, words s = ws → Spelled ws s := fun h => (words_eq_iff.1 h).1
  refine ⟨?_, ?_, ?_, ?_, ?_⟩
  · refine htext [.directed byAge, ⟨byName.1, none⟩] _ ?_
    exact .comma (s := "\u2003age  DESC ".toList) (.clause (hspelled rfl))
      (.comma (s := ['\u00a0']) (.blank (by decide)) (.clause (hspelled rfl)))
  · refine htexts [.directed byAge, .directed byName] [" age\tDESC", "name aSc"] ?_
    exact .cons (.clause (hspelled rfl)) (.cons (.clause (hspelled rfl)) .nil)
  · exact hobjects [byAge, byName]
  · exact hobject [byAge, byName] (by decide)
  · refine (hrefused _).2 ⟨" name aSc last".toList, by decide, _, hspelled rfl, ?_, ?_⟩
    · decide
    · decide

end Sorting

end Quarry
