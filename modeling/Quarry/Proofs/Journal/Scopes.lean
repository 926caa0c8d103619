import Quarry.Journal.Scope
import Quarry.Proofs.Json.Numbers
import Quarry.Proofs.Moving

/-!
# Scopes in the journal

The lines of a scope are known by its id, and no two scopes of a session have one id. What a session
has written balances when every scope that was opened meanwhile is either still open, and has
written no more than that, or is closed as it should be.
-/

namespace Quarry

open Quarry.Action

/-! ## Ids -/

namespace Scope

theorem natValue_replicate_append (k : Nat) (digits : List Char) :
    Json.Literal.natValue (List.replicate k '0' ++ digits) = Json.Literal.natValue digits := by
  induction k with
  | zero => rfl
  | succ k ih =>
      rw [← ih]
      rfl

theorem idOf_inj {m n : Nat} : idOf m = idOf n ↔ m = n := by
  refine ⟨?_, congrArg idOf⟩
  intro h
  unfold idOf at h
  generalize "00000000-0000-4000-8000-" = start at h
  have hdigits := congrArg String.toList h
  rw [String.toList_append, String.toList_append] at hdigits
  have hvalue := congrArg Json.Literal.natValue (List.append_cancel_left hdigits)
  rw [String.toList_ofList, String.toList_ofList, natValue_replicate_append,
    natValue_replicate_append, Json.natValue_toDigits, Json.natValue_toDigits] at hvalue
  exact hvalue

/-- The id is that of a scope from `first` up to `next`. -/
def Numbered (first next : Nat) (id : String) : Prop := ∃ n, first ≤ n ∧ n < next ∧ id = idOf n

theorem Numbered.mono {first next next' : Nat} {id : String} (h : Numbered first next id)
    (hle : next ≤ next') : Numbered first next' id := by
  obtain ⟨n, hfirst, hn, hid⟩ := h
  exact ⟨n, hfirst, Nat.lt_of_lt_of_le hn hle, hid⟩

theorem Numbered.ne_idOf {first next : Nat} {id : String} (h : Numbered first next id) :
    id ≠ idOf next := by
  obtain ⟨n, _, hn, rfl⟩ := h
  intro heq
  exact Nat.ne_of_lt hn (idOf_inj.1 heq)

end Scope

/-! ## Lines -/

/-- Scopes are opened and closed by these. -/
def Event.isOfScope : Event → Bool
  | .fanOutBegin | .fanOutComplete | .fanOutFailed | .dropComplete | .dropFailed => true
  | _ => false

namespace Line

/-- The line carries this id. -/
def isOf (id : String) (l : Line) : Bool := l.fields.contains ("op_id", id)

/-- The lines that carry an id. -/
def ofScope (id : String) (lines : List Line) : List Line := lines.filter (isOf id)

/-- The line has nothing to do with scopes. -/
def Plain (l : Line) : Prop := l.event.isOfScope = false ∧ "op_id" ∉ l.fields.map Prod.fst

variable {id : String} {lines more : List Line}

theorem Plain.isOf_eq_false {l : Line} (h : l.Plain) (id : String) : l.isOf id = false := by
  refine Bool.eq_false_iff.2 ?_
  intro hof
  exact h.2 (List.mem_map_of_mem (List.contains_iff_mem.1 hof))

theorem ofScope_append (id : String) (lines more : List Line) :
    ofScope id (lines ++ more) = ofScope id lines ++ ofScope id more :=
  List.filter_append _ _

theorem ofScope_eq_self (h : ∀ l ∈ lines, l.isOf id = true) : ofScope id lines = lines :=
  List.filter_eq_self.2 h

theorem ofScope_eq_nil (h : ∀ l ∈ lines, l.isOf id = false) : ofScope id lines = [] :=
  List.filter_eq_nil_iff.2 fun l hl => Bool.eq_false_iff.1 (h l hl)

theorem ofScope_append_of_isOf_eq_false (h : ∀ l ∈ more, l.isOf id = false) :
    ofScope id (lines ++ more) = ofScope id lines := by
  rw [ofScope_append, ofScope_eq_nil h, List.append_nil]

end Line

open Line

namespace Scope

/-- A line that the scope writes. -/
def line (s : Scope) (severity : Severity) (event : Event) (more : LineFields) : Line :=
  ⟨severity, event, s.fields ++ ("op_id", s.id) :: more⟩

/-- What the scope writes when it is opened. -/
def opening (s : Scope) : List Line := s.events.opened.toList.map fun e => s.line .info e []

/-- The lines carry no other id than that of the scope. -/
def Names (s : Scope) (lines : List Line) : Prop := ∀ l ∈ lines, ∀ id, l.isOf id = true ↔ id = s.id

variable {s : Scope} {lines : List Line} {id : String}

theorem names_line (hfields : "op_id" ∉ s.fields.map Prod.fst) (severity : Severity) (event : Event)
    {more : LineFields} (hmore : "op_id" ∉ more.map Prod.fst) :
    s.Names [s.line severity event more] := by
  intro l hl id
  obtain rfl := List.mem_singleton.1 hl
  have hnot : ∀ {fields : LineFields}, "op_id" ∉ fields.map Prod.fst → ("op_id", id) ∉ fields :=
    fun h hmem => h (List.mem_map_of_mem hmem)
  rw [isOf, line, List.contains_iff_mem, List.mem_append, List.mem_cons]
  simp [hnot hfields, hnot hmore]

theorem names_opening (hfields : "op_id" ∉ s.fields.map Prod.fst) : s.Names s.opening := by
  intro l hl
  obtain ⟨event, _, rfl⟩ := List.mem_map.1 hl
  exact names_line hfields .info event List.not_mem_nil _ List.mem_cons_self

theorem Names.ofScope_self (h : s.Names lines) : ofScope s.id lines = lines :=
  ofScope_eq_self fun l hl => (h l hl s.id).2 rfl

theorem Names.told (h : s.Names lines) :
    ∀ l ∈ lines, l.event.isOfScope = true → ∃ id, l.isOf id = true :=
  fun l hl _ => ⟨s.id, (h l hl s.id).2 rfl⟩

theorem Names.isOf_eq_false (h : s.Names lines) (hne : id ≠ s.id) :
    ∀ l ∈ lines, l.isOf id = false :=
  fun l hl => Bool.eq_false_iff.2 fun hof => hne ((h l hl id).1 hof)

end Scope

/-! ## Balance -/

open Scope

/-- **Balance.** Of the scopes from `first` up to `next`, some are open and have written no more
than that. All others are closed, and have written what `P` says. No line of a scope belongs to
none of them. -/
structure Balanced (P : String → List Line → Prop) (first next : Nat) (opened : List Scope)
    (lines : List Line) : Prop where
  le : first ≤ next
  fields : ∀ s ∈ opened, "op_id" ∉ s.fields.map Prod.fst
  opening : ∀ s ∈ opened, ofScope s.id lines = s.opening
  numbered : ∀ s ∈ opened, Numbered first next s.id
  distinct : (opened.map Scope.id).Nodup
  closed : ∀ n, first ≤ n → n < next → idOf n ∉ opened.map Scope.id →
    P (idOf n) (ofScope (idOf n) lines)
  known : ∀ l ∈ lines, ∀ id, l.isOf id = true → Numbered first next id
  told : ∀ l ∈ lines, l.event.isOfScope = true → ∃ id, l.isOf id = true

namespace Balanced

variable {P : String → List Line → Prop} {first next : Nat} {opened others : List Scope} {s : Scope}
  {lines more : List Line}

theorem nil (P : String → List Line → Prop) (n : Nat) : Balanced P n n [] [] where
  le := Nat.le_refl n
  fields _ hs := absurd hs List.not_mem_nil
  opening _ hs := absurd hs List.not_mem_nil
  numbered _ hs := absurd hs List.not_mem_nil
  distinct := .nil
  closed _ hfirst hnext := absurd hnext (Nat.not_lt.2 hfirst)
  known _ hl := absurd hl List.not_mem_nil
  told _ hl := absurd hl List.not_mem_nil

theorem perm (h : Balanced P first next opened lines) (hperm : others.Perm opened) :
    Balanced P first next others lines where
  le := h.le
  fields s hs := h.fields s (hperm.subset hs)
  opening s hs := h.opening s (hperm.subset hs)
  numbered s hs := h.numbered s (hperm.subset hs)
  distinct := (hperm.map Scope.id).nodup_iff.2 h.distinct
  closed n hfirst hnext hnot := by
    refine h.closed n hfirst hnext ?_
    intro hmem
    exact hnot ((hperm.map Scope.id).mem_iff.2 hmem)
  known := h.known
  told := h.told

theorem plain (h : Balanced P first next opened lines) (hplain : ∀ l ∈ more, l.Plain) :
    Balanced P first next opened (lines ++ more) := by
  have hsame : ∀ id, ofScope id (lines ++ more) = ofScope id lines :=
    fun id => ofScope_append_of_isOf_eq_false fun l hl => (hplain l hl).isOf_eq_false id
  refine ⟨h.le, h.fields, ?_, h.numbered, h.distinct, ?_, List.forall_mem_append.2 ⟨h.known, ?_⟩,
    List.forall_mem_append.2 ⟨h.told, ?_⟩⟩
  · intro s hs
    rw [hsame, h.opening s hs]
  · intro n hfirst hnext hnot
    rw [hsame]
    exact h.closed n hfirst hnext hnot
  · intro l hl id hid
    rw [(hplain l hl).isOf_eq_false] at hid
    cases hid
  · intro l hl hevent
    rw [(hplain l hl).1] at hevent
    cases hevent

/-- The next scope is opened. -/
theorem enter (h : Balanced P first next opened lines) (hid : s.id = idOf next)
    (hfields : "op_id" ∉ s.fields.map Prod.fst) :
    Balanced P first (next + 1) (s :: opened) (lines ++ s.opening) := by
  have hnames := names_opening hfields
  have hnew : ∀ {id}, Numbered first next id → id ≠ s.id := by
    intro id hnumbered
    rw [hid]
    exact hnumbered.ne_idOf
  have hs : Numbered first (next + 1) s.id := ⟨next, h.le, Nat.lt_succ_self next, hid⟩
  refine ⟨Nat.le_succ_of_le h.le, List.forall_mem_cons.2 ⟨hfields, h.fields⟩,
    List.forall_mem_cons.2 ⟨?_, ?_⟩, List.forall_mem_cons.2 ⟨hs, ?_⟩,
    List.nodup_cons.2 ⟨?_, h.distinct⟩, ?_, List.forall_mem_append.2 ⟨?_, ?_⟩,
    List.forall_mem_append.2 ⟨h.told, hnames.told⟩⟩
  · -- No line so far carries the new id.
    have hnone : ofScope s.id lines = [] := by
      refine ofScope_eq_nil ?_
      intro l hl
      exact Bool.eq_false_iff.2 fun hof => hnew (h.known l hl _ hof) rfl
    rw [ofScope_append, hnone, hnames.ofScope_self, List.nil_append]
  · intro t ht
    rw [ofScope_append_of_isOf_eq_false (hnames.isOf_eq_false (hnew (h.numbered t ht))),
      h.opening t ht]
  · intro t ht
    exact (h.numbered t ht).mono (Nat.le_succ next)
  · intro hmem
    obtain ⟨t, ht, heq⟩ := List.mem_map.1 hmem
    exact hnew (h.numbered t ht) heq
  · intro n hfirst hnext hnot
    obtain ⟨hne, hnot⟩ := not_or.1 (mt List.mem_cons.2 hnot)
    have hlt : n < next := by
      refine Nat.lt_of_le_of_ne (Nat.le_of_lt_succ hnext) ?_
      rintro rfl
      exact hne hid.symm
    rw [ofScope_append_of_isOf_eq_false (hnames.isOf_eq_false hne)]
    exact h.closed n hfirst hlt hnot
  · intro l hl id hof
    exact (h.known l hl id hof).mono (Nat.le_succ next)
  · intro l hl id hof
    rw [(hnames l hl id).1 hof]
    exact hs

/-- An open scope writes its last lines. -/
theorem close (h : Balanced P first next (s :: opened) lines) (hnames : s.Names more)
    (hclosed : P s.id (s.opening ++ more)) : Balanced P first next opened (lines ++ more) := by
  obtain ⟨_, hfields⟩ := List.forall_mem_cons.1 h.fields
  obtain ⟨hs, hopening⟩ := List.forall_mem_cons.1 h.opening
  obtain ⟨hnumber, hnumbered⟩ := List.forall_mem_cons.1 h.numbered
  obtain ⟨hnew, hdistinct⟩ := List.nodup_cons.1 h.distinct
  refine ⟨h.le, hfields, ?_, hnumbered, hdistinct, ?_, List.forall_mem_append.2 ⟨h.known, ?_⟩,
    List.forall_mem_append.2 ⟨h.told, hnames.told⟩⟩
  · intro t ht
    have hne : t.id ≠ s.id := fun heq => hnew (heq ▸ List.mem_map_of_mem ht)
    rw [ofScope_append_of_isOf_eq_false (hnames.isOf_eq_false hne), hopening t ht]
  · intro n hfirst hnext hnot
    by_cases heq : idOf n = s.id
    · rw [heq, ofScope_append, hs, hnames.ofScope_self]
      exact hclosed
    · rw [ofScope_append_of_isOf_eq_false (hnames.isOf_eq_false heq)]
      exact h.closed n hfirst hnext fun hmem => (List.mem_cons.1 hmem).elim heq hnot
  · intro l hl id hof
    rw [(hnames l hl id).1 hof]
    exact hnumber

end Balanced

/-! ## Steps of a session -/

variable {σ ε φ α β : Type}

/-- Lines have been written, but none that have to do with scopes. -/
def Plainly (w w' : Session σ) : Prop :=
  ∃ more, w'.journal = w.journal ++ more ∧ (∀ l ∈ more, l.Plain) ∧ w'.scopes = w.scopes

theorem Plainly.scopes_eq {w w' : Session σ} (h : Plainly w w') : w'.scopes = w.scopes :=
  h.elim fun _ hmore => hmore.2.2

/-- The line was written between two sessions. -/
def Wrote (w w' : Session σ) (l : Line) : Prop :=
  ∃ lines, w'.journal = w.journal ++ lines ∧ l ∈ lines

/-- Lines have been written with which the journal balances. Scopes were open before and others are
open now. Whatever else is open stays so. -/
def Balances (P : String → List Line → Prop) (opened opened' : List Scope) (w w' : Session σ) :
    Prop :=
  ∃ more, w'.journal = w.journal ++ more ∧ ∀ first others lines,
    Balanced P first w.scopes (opened ++ others) lines →
      Balanced P first w'.scopes (opened' ++ others) (lines ++ more)

/-- What was written in between was written, too. -/
theorem Wrote.mono {w w₁ w₂ w' : Session σ} {l : Line} (h : Wrote w₁ w₂ l)
    (hbefore : w.journal <+: w₁.journal) (hafter : w₂.journal <+: w'.journal) : Wrote w w' l := by
  obtain ⟨lines, hlines, hl⟩ := h
  obtain ⟨before, hbefore⟩ := hbefore
  obtain ⟨after, hafter⟩ := hafter
  refine ⟨before ++ lines ++ after, ?_, ?_⟩
  · rw [← hafter, hlines, ← hbefore, List.append_assoc, List.append_assoc, List.append_assoc]
  · exact List.mem_append_left after (List.mem_append_right before hl)

instance : Std.Refl (Plainly (σ := σ)) where
  refl _ := ⟨[], (List.append_nil _).symm, List.forall_mem_nil _, rfl⟩

instance : Trans (Plainly (σ := σ)) Plainly Plainly where
  trans := by
    rintro a b c ⟨first, hb, hfirst, hscopes⟩ ⟨second, hc, hsecond, hscopes'⟩
    refine ⟨first ++ second, ?_, List.forall_mem_append.2 ⟨hfirst, hsecond⟩,
      hscopes'.trans hscopes⟩
    rw [hc, hb, List.append_assoc]

namespace Balances

variable {P : String → List Line → Prop} {opened opened' opened'' : List Scope} {s : Scope}
  {w w' w'' : Session σ}

theorem of_plainly (h : Plainly w w') : Balances P opened opened w w' := by
  obtain ⟨more, hjournal, hplain, hscopes⟩ := h
  refine ⟨more, hjournal, ?_⟩
  intro first others lines hlines
  rw [hscopes]
  exact hlines.plain hplain

theorem refl (P : String → List Line → Prop) (opened : List Scope) (w : Session σ) :
    Balances P opened opened w w :=
  .of_plainly (Std.Refl.refl w)

theorem grown (h : Balances P opened opened' w w') : w.journal <+: w'.journal :=
  h.elim fun more hmore => ⟨more, hmore.1.symm⟩

theorem trans (h : Balances P opened opened' w w') (h' : Balances P opened' opened'' w' w'') :
    Balances P opened opened'' w w'' := by
  obtain ⟨first, hfirst, hbalanced⟩ := h
  obtain ⟨second, hsecond, hbalanced'⟩ := h'
  refine ⟨first ++ second, ?_, ?_⟩
  · rw [hsecond, hfirst, List.append_assoc]
  · intro n others lines hlines
    rw [← List.append_assoc]
    exact hbalanced' n others _ (hbalanced n others lines hlines)

/-- More may be open all the while. -/
theorem frame (h : Balances P opened opened' w w') (others : List Scope) :
    Balances P (opened ++ others) (opened' ++ others) w w' := by
  obtain ⟨more, hjournal, hbalanced⟩ := h
  refine ⟨more, hjournal, ?_⟩
  intro first rest lines hlines
  rw [List.append_assoc] at hlines ⊢
  exact hbalanced first _ lines hlines

theorem perm (h : Balances P opened opened' w w') (hperm : opened''.Perm opened') :
    Balances P opened opened'' w w' := by
  obtain ⟨more, hjournal, hbalanced⟩ := h
  refine ⟨more, hjournal, ?_⟩
  intro first others lines hlines
  exact (hbalanced first others lines hlines).perm (hperm.append_right others)

theorem enter (hid : s.id = idOf w.scopes) (hfields : "op_id" ∉ s.fields.map Prod.fst)
    (hjournal : w'.journal = w.journal ++ s.opening) (hscopes : w'.scopes = w.scopes + 1) :
    Balances P [] [s] w w' := by
  refine ⟨s.opening, hjournal, ?_⟩
  intro first others lines hlines
  rw [hscopes]
  exact hlines.enter hid hfields

theorem close {more : List Line} (hnames : s.Names more) (hclosed : P s.id (s.opening ++ more))
    (hjournal : w'.journal = w.journal ++ more) (hscopes : w'.scopes = w.scopes) :
    Balances P [s] [] w w' := by
  refine ⟨more, hjournal, ?_⟩
  intro first others lines hlines
  rw [hscopes]
  exact hlines.close hnames hclosed

end Balances

instance {P : String → List Line → Prop} {opened : List Scope} :
    Std.Refl (Balances (σ := σ) P opened opened) where
  refl := Balances.refl P opened

instance {P : String → List Line → Prop} {opened : List Scope} :
    Trans (Balances (σ := σ) P opened opened) (Balances P opened opened)
      (Balances P opened opened) where
  trans := Balances.trans

/-- **What the journal tells.** Every scope that was opened between two sessions has written what
`P` says in between, and no line of a scope belongs to any other. -/
def Told (P : String → List Line → Prop) (w w' : Session σ) : Prop :=
  w.scopes ≤ w'.scopes ∧ ∃ lines, w'.journal = w.journal ++ lines ∧
    (∀ n, w.scopes ≤ n → n < w'.scopes → P (idOf n) (ofScope (idOf n) lines)) ∧
    ∀ l ∈ lines, l.event.isOfScope = true →
      ∃ id, l.isOf id = true ∧ Numbered w.scopes w'.scopes id

theorem Balances.told {P : String → List Line → Prop} {w w' : Session σ}
    (h : Balances P [] [] w w') : Told P w w' := by
  obtain ⟨lines, hjournal, hbalanced⟩ := h
  have hlines := hbalanced w.scopes [] [] (.nil P w.scopes)
  refine ⟨hlines.le, lines, hjournal, ?_, ?_⟩
  · intro n hfirst hnext
    exact hlines.closed n hfirst hnext List.not_mem_nil
  · intro l hl hevent
    obtain ⟨id, hof⟩ := hlines.told l hl hevent
    exact ⟨id, hof, hlines.known l hl id hof⟩

/-! ## Actions -/

namespace Action

theorem moves_plainly {x : Action σ ε α}
    (h : ∀ w, (x.exec w).2.journal = w.journal ∧ (x.exec w).2.scopes = w.scopes) :
    Moves Plainly x := by
  intro w
  obtain ⟨hjournal, hscopes⟩ := h w
  exact ⟨[], hjournal.trans (List.append_nil _).symm, List.forall_mem_nil _, hscopes⟩

theorem plainly_count (c : Counter) (n : Nat) :
    Moves Plainly (count c n : Action σ ε Unit) := moves_plainly fun _ => ⟨rfl, rfl⟩

theorem plainly_onStore (f : σ → α × σ) :
    Moves Plainly (onStore f : Action σ ε α) := moves_plainly fun _ => ⟨rfl, rfl⟩

theorem plainly_attempt (f : σ → Except φ α × σ) : Moves Plainly (attempt f) := by
  refine moves_plainly ?_
  intro w
  rw [exec_attempt]
  exact ⟨rfl, rfl⟩

theorem plainly_report {severity : Severity} {event : Event} {fields : LineFields}
    (h : Line.Plain ⟨severity, event, fields⟩) :
    Moves Plainly (report severity event fields : Action σ ε Unit) :=
  fun _ => ⟨_, rfl, List.forall_mem_singleton.2 h, rfl⟩

theorem Moves.balances {P : String → List Line → Prop} {x : Action σ ε α} (h : Moves Plainly x) :
    Moves (Balances P [] []) x := h.mono .of_plainly

end Action

namespace Scope

variable {P : String → List Line → Prop} {w : Session σ}

theorem exec_enter (events : ScopeEvents) (fields : LineFields) (w : Session σ) :
    (enter events fields : Action σ ε Scope).exec w =
      (.ok ⟨events, idOf w.scopes, fields, w.clock⟩, { w with
        scopes := w.scopes + 1
        journal := w.journal ++ opening ⟨events, idOf w.scopes, fields, w.clock⟩ }) := by
  cases h : events.opened with
  | none => simp only [enter, opening, h, Option.toList, List.map_nil, List.append_nil]; rfl
  | some event => simp only [enter, opening, h]; rfl

theorem exists_exec_enter (ε : Type) (events : ScopeEvents) {fields : LineFields}
    (hfields : "op_id" ∉ fields.map Prod.fst) (w : Session σ) :
    ∃ w', (enter events fields : Action σ ε Scope).exec w =
        (.ok ⟨events, idOf w.scopes, fields, w.clock⟩, w') ∧ w'.scopes = w.scopes + 1 ∧
      ∀ P, Balances P [] [⟨events, idOf w.scopes, fields, w.clock⟩] w w' :=
  ⟨_, exec_enter events fields w, rfl, fun _ => .enter rfl hfields rfl rfl⟩

/-- A last line closes a scope. -/
theorem balances_close {s : Scope} {severity : Severity} {event : Event} {more : LineFields}
    (hfields : "op_id" ∉ s.fields.map Prod.fst) (hmore : "op_id" ∉ more.map Prod.fst)
    (hclosed : P s.id (s.opening ++ [s.line severity event more])) :
    Balances P [s] [] w { w with journal := w.journal ++ [s.line severity event more] } :=
  .close (names_line hfields severity event hmore) hclosed rfl rfl

end Scope

end Quarry
