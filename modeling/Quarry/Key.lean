import Quarry.Text.Quoted

/-!
# Keys

The address of an entity: a namespace and a path of steps, the last of which names the entity
itself. A step without an id waits for the store to allocate one. Keys are ordered by namespace,
none before any, then by path; a step by kind, then by id, a missing id first and numbers before
names. The order is total and equates only equal keys.
-/

namespace Quarry

/-- What tells the entities of one kind apart. -/
inductive KeyId where
  | number (value : Int64)
  | name (text : String)
  deriving DecidableEq

namespace KeyId

def number? : KeyId → Option Int64
  | number value => some value
  | name _ => none

def name? : KeyId → Option String
  | number _ => none
  | name text => some text

/-- Numbers come before names. -/
protected def compare : KeyId → KeyId → Ordering :=
  compareLex (compareOn name?) (compareOn number?)

instance : Ord KeyId := ⟨KeyId.compare⟩

instance : Std.TransOrd KeyId :=
  inferInstanceAs (Std.TransCmp (compareLex (compareOn name?) (compareOn number?)))

instance : Std.LawfulEqOrd KeyId where
  eq_of_compare {a b} h := by
    obtain ⟨hn, hv⟩ := compareLex_eq_eq.1 h
    have hn := Std.LawfulEqOrd.eq_of_compare hn
    have hv := Std.LawfulEqOrd.eq_of_compare hv
    cases a <;> cases b <;> simp_all [name?, number?]

/-- The id as it stands inside the text of a key. -/
def text : KeyId → String
  | number value => toString value.toInt
  | name text => Text.Quoted.encode text

end KeyId

/-- One step of a path. -/
structure Step where
  kind : String
  id : Option KeyId
  deriving DecidableEq

namespace Step

protected def compare : Step → Step → Ordering :=
  compareLex (compareOn Step.kind) (compareOn Step.id)

instance : Ord Step := ⟨Step.compare⟩

instance : Std.TransOrd Step :=
  inferInstanceAs (Std.TransCmp (compareLex (compareOn Step.kind) (compareOn Step.id)))

instance : Std.LawfulEqOrd Step where
  eq_of_compare {a b} h := by
    obtain ⟨hk, hi⟩ := compareLex_eq_eq.1 h
    have hk := Std.LawfulEqOrd.eq_of_compare hk
    have hi := Std.LawfulEqOrd.eq_of_compare hi
    cases a; cases b; simp_all

def text (s : Step) : String :=
  s.kind ++ "(" ++ (match s.id with | some id => id.text | none => "?") ++ ")"

end Step

/-- The address of an entity. `space` is its namespace. -/
structure Key where
  space : Option String
  path : List Step
  deriving DecidableEq

namespace Key

protected def compare : Key → Key → Ordering :=
  compareLex (compareOn Key.space) (compareOn Key.path)

instance : Ord Key := ⟨Key.compare⟩

instance : Std.TransOrd Key :=
  inferInstanceAs (Std.TransCmp (compareLex (compareOn Key.space) (compareOn Key.path)))

instance : Std.LawfulEqOrd Key where
  eq_of_compare {a b} h := by
    obtain ⟨hs, hp⟩ := compareLex_eq_eq.1 h
    have hs := Std.LawfulEqOrd.eq_of_compare hs
    have hp := Std.LawfulEqOrd.eq_of_compare hp
    cases a; cases b; simp_all

/-- The kind of the entity, empty for a key without a path. -/
def kind (k : Key) : String := (k.path.getLast?.map Step.kind).getD ""

/-- The id of the entity, if it has been allocated. -/
def id? (k : Key) : Option KeyId := k.path.getLast?.bind Step.id

/-- There is a path, and every step has its id. -/
def isComplete (k : Key) : Bool := !k.path.isEmpty && k.path.all fun s => s.id.isSome

/-- Gives the last step an id. -/
def completeWith (k : Key) (id : KeyId) : Key :=
  match k.path.getLast? with
  | none => k
  | some last => { k with path := k.path.dropLast ++ [{ last with id := some id }] }

/-- The namespace before a colon, and the steps between slashes. -/
def text (k : Key) : String :=
  (match k.space with | some s => s ++ ":" | none => "") ++
    String.intercalate "/" (k.path.map Step.text)

end Key

end Quarry
