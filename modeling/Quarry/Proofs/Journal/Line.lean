import Mathlib.Data.List.Nodup
import Quarry.Journal.Line
import Quarry.Proofs.Sorting
import Quarry.Proofs.Json.ReadBack
import Quarry.Proofs.Record

/-!
# What a journal line says

Whatever stands in the fields of a line, it is printed as one object on a line of its own, and is
read back as that object: the event, the severity, then the fields in the order of their names, each
once with its last value. In which order the fields came makes no difference, unless two of them
have one name.
-/

namespace Quarry

open Json

/-! ## Objects of strings -/

namespace Json.Value

/-- Every member is a string. -/
def OfStrings (members : List (String × Value)) : Prop := ∀ m ∈ members, ∃ s, m.2 = .string s

variable {members : List (String × Value)}

theorem OfStrings.isExact (h : OfStrings members) : MembersExact members := by
  induction members with
  | nil => trivial
  | cons m members ih =>
      obtain ⟨⟨s, hs⟩, hrest⟩ := List.forall_mem_cons.1 h
      obtain ⟨name, v⟩ := m
      obtain rfl : v = .string s := hs
      exact ⟨trivial, ih hrest⟩

theorem OfStrings.toValue? (h : OfStrings members) (depth : Nat) :
    Raw.membersToValue? depth (Raw.ofMembers members) = some members := by
  induction members with
  | nil => rfl
  | cons m members ih =>
      obtain ⟨⟨s, hs⟩, hrest⟩ := List.forall_mem_cons.1 h
      obtain ⟨name, v⟩ := m
      obtain rfl : v = .string s := hs
      rw [Raw.ofMembers, Raw.membersToValue?, ih hrest]
      rfl

theorem OfStrings.printable : ∀ {members : List (String × Value)}, OfStrings members →
    Printable (renderMembers members)
  | [], _ => by simp [renderMembers]
  | [(name, v)], h => by
      obtain ⟨s, rfl⟩ := h (name, v) List.mem_cons_self
      simp [renderMembers, render]
  | (name, v) :: m :: members, h => by
      obtain ⟨⟨s, hs⟩, hrest⟩ := List.forall_mem_cons.1 h
      obtain rfl : v = .string s := hs
      simp [renderMembers, render, OfStrings.printable hrest]

end Json.Value

namespace Record

theorem columns_putAll_eq_foldl (r : Record) (columns : List (String × Value)) :
    (r.putAll columns).columns =
      columns.foldl (fun acc c => putMember c.1 c.2 acc) r.columns := by
  induction columns generalizing r with
  | nil => rfl
  | cons c columns ih => exact ih (r.put c.1 c.2)

variable {r : Record}

/-- **Round trip.** A record of strings is read back from its text. -/
theorem read_render_toJson (h : Value.OfStrings r.columns) :
    Value.read r.toJson.render = .ok r.toJson := by
  have hmembers := columns_putAll_eq_foldl empty r.columns
  have hsame : (empty.putAll r.columns).columns = r.columns := columns_ofColumns r.distinct
  rw [hsame] at hmembers
  have hvalue : (Raw.ofValue r.toJson).toValue? Raw.maxDepth = some r.toJson := by
    rw [toJson, Raw.ofValue, Raw.toValue?, h.toValue?]
    exact congrArg (fun ms => some (Value.object ms)) hmembers.symm
  rw [Value.read, Raw.read_render r.toJson h.isExact]
  simp only [hvalue]

theorem printable_render_toJson (h : Value.OfStrings r.columns) : Printable r.toJson.render :=
  printable_cons.2 ⟨by decide, h.printable⟩

/-- Columns that are written in the order of their names stand so behind those that were there. -/
theorem exists_names_putAll (r : Record) {columns : List (String × Value)}
    (h : columns.Pairwise fun a b => (compare a.1 b.1).isLE = true) :
    ∃ names, (r.putAll columns).columns.map Prod.fst = r.columns.map Prod.fst ++ names ∧
      names.Pairwise (fun a b => compare a b = .lt) ∧ ∀ n ∈ names, n ∈ columns.map Prod.fst := by
  induction columns generalizing r with
  | nil => exact ⟨[], (List.append_nil _).symm, .nil, fun _ hn => hn⟩
  | cons c columns ih =>
      obtain ⟨hc, hrest⟩ := List.pairwise_cons.1 h
      obtain ⟨names, hnames, hsorted, hfrom⟩ := ih (r.put c.1 c.2) hrest
      by_cases hold : c.1 ∈ r.columns.map Prod.fst
      · have hput : (r.put c.1 c.2).columns.map Prod.fst = r.columns.map Prod.fst :=
          Columns.map_fst_putMember_of_mem hold
        rw [hput] at hnames
        exact ⟨names, hnames, hsorted, fun n hn => List.mem_cons_of_mem _ (hfrom n hn)⟩
      · have hput : (r.put c.1 c.2).columns = r.columns ++ [c] :=
          Columns.putMember_of_not_mem hold
        rw [hput, List.map_append, List.append_assoc] at hnames
        refine ⟨c.1 :: names, hnames, List.pairwise_cons.2 ⟨?_, hsorted⟩, ?_⟩
        · intro n hn
          -- The name is one of those behind `c` and not that of `c` again.
          obtain ⟨d, hd, rfl⟩ := List.mem_map.1 (hfrom n hn)
          have hdistinct := ((r.put c.1 c.2).putAll columns).distinct
          rw [hnames] at hdistinct
          have hne : c.1 ≠ d.1 := by
            intro heq
            have htail := (List.nodup_append.1 hdistinct).2.1
            exact (List.nodup_cons.1 htail).1 (heq ▸ hn)
          rcases hcompare : compare c.1 d.1 with _ | _ | _
          · rfl
          · exact absurd (Std.LawfulEqOrd.eq_of_compare hcompare) hne
          · have hle := hc d hd
            rw [hcompare] at hle
            cases hle
        · intro n hn
          rcases List.mem_cons.1 hn with rfl | hn
          · exact List.mem_cons_self
          · exact List.mem_cons_of_mem _ (hfrom n hn)

end Record

/-! ## Fields -/

namespace Line

variable {l : Line} {fields : LineFields} {name : String}

/-- The value of the last field of a name. -/
def last? (fields : LineFields) (name : String) : Option String := fields.reverse.lookup name

theorem lookup_filter (fields : LineFields) (name : String) :
    (fields.filter fun f => name == f.1).lookup name = fields.lookup name := by
  induction fields with
  | nil => rfl
  | cons f fields ih =>
      rw [List.filter_cons, List.lookup_cons]
      cases hf : name == f.1 with
      | false => exact ih
      | true => rw [if_pos rfl, List.lookup_cons, hf]

instance : Std.TransCmp fun a b : String × String => compare a.1 b.1 := transCmp_on Prod.fst

/-- Fields of one name keep their order. -/
theorem last?_ordered (fields : LineFields) (name : String) :
    last? (ordered fields) name = last? fields name := by
  have hlevel : ∀ a b : String × String, (name == a.1) = true → (name == b.1) = true →
      (compare a.1 b.1).isLE = true := by
    intro a b ha hb
    have hself : compare name name = .eq := Std.ReflCmp.compare_self
    rw [← beq_iff_eq.1 ha, ← beq_iff_eq.1 hb, hself]
    rfl
  rw [last?, last?, ← lookup_filter, List.filter_reverse, ordered, filter_mergeSort hlevel,
    ← List.filter_reverse, lookup_filter]

theorem lookup_map_string (fields : LineFields) (name : String) :
    (fields.map fun f => (f.1, Value.string f.2)).lookup name =
      (fields.lookup name).map Value.string := by
  induction fields with
  | nil => rfl
  | cons f fields ih =>
      rw [List.map_cons, List.lookup_cons, List.lookup_cons]
      cases name == f.1 with
      | false => exact ih
      | true => rfl

/-- Fields of different names are put into the same order however they came. -/
theorem ordered_eq_of_perm {fs gs : LineFields} (h : (fs.map Prod.fst).Nodup)
    (hperm : gs.Perm fs) : ordered gs = ordered fs := by
  have hlevel : ∀ a ∈ fs, ∀ b ∈ fs, compare a.1 b.1 = .eq → a = b := by
    intro a ha b hb hlevel
    exact List.inj_on_of_nodup_map h ha hb (Std.LawfulEqOrd.eq_of_compare hlevel)
  exact mergeSort_eq_of_perm hlevel hperm

/-! ## The object of a line -/

/-- The two members that every line has. -/
def head (l : Line) : Record :=
  .ofColumns [("event", .string l.event.name), ("severity", .string l.severity.name)]

theorem record_eq (l : Line) :
    l.record = l.head.putAll ((ordered l.fields).map fun f => (f.1, .string f.2)) := rfl

/-- A member has the last value that its field was given, or else that of the first two members. -/
theorem get?_record (l : Line) (name : String) : l.record.get? name =
    ((last? l.fields name).map Value.string).or (l.head.get? name) := by
  rw [record_eq, Record.get?_putAll, ← List.map_reverse, lookup_map_string]
  rw [← last?_ordered, last?]

theorem ofStrings_record (l : Line) : Value.OfStrings l.record.columns := by
  rintro ⟨name, v⟩ hmem
  have hget := Record.get?_eq_some_iff.2 hmem
  rw [get?_record, Option.or_eq_some_iff] at hget
  rcases hget with hlast | ⟨_, hhead⟩
  · obtain ⟨s, _, rfl⟩ := Option.map_eq_some_iff.1 hlast
    exact ⟨s, rfl⟩
  · have hmem := Record.get?_eq_some_iff.1 hhead
    have htwo : (name, v) ∈ [("event", Value.string l.event.name),
        ("severity", .string l.severity.name)] := hmem
    simp only [List.mem_cons, Prod.mk.injEq, List.not_mem_nil, or_false] at htwo
    rcases htwo with ⟨_, rfl⟩ | ⟨_, rfl⟩ <;> exact ⟨_, rfl⟩

/-- The members behind the first two: the fields of other names with their last values. -/
structure IsRest (fields : LineFields) (rest : List (String × Value)) : Prop where
  sorted : rest.Pairwise fun a b => compare a.1 b.1 = .lt
  mem_iff : ∀ name v, (name, v) ∈ rest ↔
    name ≠ "event" ∧ name ≠ "severity" ∧ ∃ s, last? fields name = some s ∧ v = .string s

/-- The members that every line has. -/
def members (l : Line) (rest : List (String × Value)) : List (String × Value) :=
  ("event", .string ((last? l.fields "event").getD l.event.name)) ::
    ("severity", .string ((last? l.fields "severity").getD l.severity.name)) :: rest

theorem get?_record_event (l : Line) : l.record.get? "event" =
    some (.string ((last? l.fields "event").getD l.event.name)) := by
  rw [get?_record]
  cases last? l.fields "event" <;> rfl

theorem get?_record_severity (l : Line) : l.record.get? "severity" =
    some (.string ((last? l.fields "severity").getD l.severity.name)) := by
  rw [get?_record]
  cases last? l.fields "severity" <;> rfl

theorem get?_record_of_ne (l : Line) (hevent : name ≠ "event") (hseverity : name ≠ "severity") :
    l.record.get? name = (last? l.fields name).map Value.string := by
  have hhead : l.head.get? name = none := by
    show [("event", Value.string l.event.name), ("severity", Value.string l.severity.name)].lookup
      name = none
    rw [Record.lookup_cons, if_neg hevent, Record.lookup_cons, if_neg hseverity, List.lookup_nil]
  rw [get?_record, hhead, Option.or_none]

/-- The first two members, then those of other fields in the order of their names. -/
theorem columns_record (l : Line) :
    ∃ rest, l.record.columns = l.members rest ∧ IsRest l.fields rest := by
  have hsorted : ((ordered l.fields).map fun f => (f.1, Value.string f.2)).Pairwise
      fun a b => (compare a.1 b.1).isLE = true :=
    List.pairwise_map.2 (pairwise_mergeSort_isLE l.fields)
  obtain ⟨names, hnames, hordered, _⟩ := l.head.exists_names_putAll hsorted
  rw [← record_eq] at hnames
  obtain ⟨⟨_, v⟩, columns, hcolumns, rfl, hrest⟩ := List.map_eq_cons_iff.1 hnames
  obtain ⟨⟨_, w⟩, rest, rfl, rfl, rfl⟩ := List.map_eq_cons_iff.1 hrest
  have hvalue : ∀ {name v}, (name, v) ∈ l.record.columns → l.record.get? name = some v :=
    Record.get?_eq_some_iff.2
  rw [hcolumns] at hvalue
  have hv : v = .string ((last? l.fields "event").getD l.event.name) :=
    Option.some.inj ((hvalue List.mem_cons_self).symm.trans l.get?_record_event)
  have hw : w = .string ((last? l.fields "severity").getD l.severity.name) :=
    Option.some.inj ((hvalue (List.mem_cons_of_mem _ List.mem_cons_self)).symm.trans
      l.get?_record_severity)
  subst hv hw
  refine ⟨rest, hcolumns, List.pairwise_map.1 hordered, ?_⟩
  intro name v
  have hdistinct := l.record.distinct
  rw [hcolumns] at hdistinct
  obtain ⟨hevent, hdistinct⟩ := List.nodup_cons.1 hdistinct
  have hseverity := (List.nodup_cons.1 hdistinct).1
  have hmem : name ≠ "event" → name ≠ "severity" →
      ((name, v) ∈ rest ↔ l.record.get? name = some v) := by
    intro hne hne'
    rw [Record.get?_eq_some_iff, hcolumns, List.mem_cons, List.mem_cons]
    simp [hne, hne']
  constructor
  · intro hrest
    have hin : name ∈ rest.map Prod.fst := List.mem_map_of_mem hrest
    have hne : name ≠ "event" := fun heq => hevent (heq ▸ List.mem_cons_of_mem _ hin)
    have hne' : name ≠ "severity" := fun heq => hseverity (heq ▸ hin)
    rw [hmem hne hne', l.get?_record_of_ne hne hne'] at hrest
    obtain ⟨s, hs, rfl⟩ := Option.map_eq_some_iff.1 hrest
    exact ⟨hne, hne', s, hs, rfl⟩
  · rintro ⟨hne, hne', s, hs, rfl⟩
    rw [hmem hne hne', l.get?_record_of_ne hne hne', hs]
    rfl

/-! ## What is read back -/

/-- **Nothing slips into the journal.** A line is one object on a line of its own whatever its
fields say, and what is read back are its event and its severity, then the fields in the order of
their names, each with its last value. With no name twice, the order of the fields does not matter. -/
theorem render_reads_back :
    (∀ l : Line, ∃ text rest, l.render = text ++ ['\n'] ∧ '\n' ∉ text ∧
      Value.read text = .ok (.object (l.members rest)) ∧ IsRest l.fields rest) ∧
    ∀ severity event, ∀ fs gs : LineFields, (fs.map Prod.fst).Nodup → gs.Perm fs →
      render ⟨severity, event, gs⟩ = render ⟨severity, event, fs⟩ := by
  constructor
  · intro l
    obtain ⟨rest, hcolumns, hrest⟩ := l.columns_record
    have hstrings := l.ofStrings_record
    refine ⟨l.record.toJson.render, rest, rfl, ?_, ?_, hrest⟩
    · exact (Record.printable_render_toJson hstrings).newline_not_mem
    · rw [Record.read_render_toJson hstrings, Record.toJson, hcolumns]
  · intro severity event fs gs hdistinct hperm
    have hsame : record ⟨severity, event, gs⟩ = record ⟨severity, event, fs⟩ := by
      rw [record, record, ordered_eq_of_perm hdistinct hperm]
    rw [render, render, hsame]

/-- A line whose fields try to end it, to name another event and to say a thing twice. -/
def forged : Line := ⟨.error, .fanOutFailed, [("kind", "a\n\x7b\"event\":1\x7d"), ("event", "b"),
  ("kind", "\\\u0001\""), ("cause", "c")]⟩

theorem render_reads_back_forged :
    (∃ text rest, forged.render = text ++ ['\n'] ∧ '\n' ∉ text ∧
      Value.read text = .ok (.object (("event", .string "b") :: ("severity", .string "ERROR") ::
        rest)) ∧ ("kind", .string "\\\u0001\"") ∈ rest) ∧
    ([("b", "1"), ("a", "2")].map Prod.fst).Nodup ∧
      [("a", "2"), ("b", "1")].Perm [("b", "1"), ("a", "2")] ∧
      render ⟨.info, .dropPage, [("a", "2"), ("b", "1")]⟩ =
        render ⟨.info, .dropPage, [("b", "1"), ("a", "2")]⟩ := by
  obtain ⟨text, rest, htext, hline, hread, hrest⟩ := render_reads_back.1 forged
  have hkind : ("kind", .string "\\\u0001\"") ∈ rest :=
    (hrest.mem_iff _ _).2 ⟨by decide, by decide, _, rfl, rfl⟩
  have hdistinct : ([("b", "1"), ("a", "2")].map Prod.fst).Nodup := by decide
  have hperm : [("a", "2"), ("b", "1")].Perm [("b", "1"), ("a", "2")] := .swap _ _ _
  exact ⟨⟨text, rest, htext, hline, hread, hkind⟩, hdistinct, hperm,
    render_reads_back.2 .info .dropPage _ _ hdistinct hperm⟩

end Line

end Quarry
