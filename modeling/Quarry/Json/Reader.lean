import Quarry.Json.Raw

/-!
# Reading JSON text

A strict reader: one value, blanks around it, nothing else. It accepts no byte order mark, no
trailing comma, no raw control in a string, no leading zero. A fault carries its cause and what was
left of the text, from which its line and column follow. Octets are read too, whether or not they
are a text as a whole: a string whose octets are none has no text, which matters only to whoever
asks for it.
-/

namespace Quarry.Json

/-- Why a text is not JSON. -/
inductive Cause where
  | valueEnds
  | listEnds
  | objectEnds
  | stringEnds
  | valueExpected
  | wordExpected
  | colonExpected
  | commaOrBracketExpected
  | commaOrBraceExpected
  | nameExpected
  | trailingComma
  | trailingText
  | badNumber
  | badEscape
  | rawControl
  | unfit
  deriving DecidableEq

def Cause.message : Cause → String
  | .valueEnds => "EOF while parsing a value"
  | .listEnds => "EOF while parsing a list"
  | .objectEnds => "EOF while parsing an object"
  | .stringEnds => "EOF while parsing a string"
  | .valueExpected => "expected value"
  | .wordExpected => "expected ident"
  | .colonExpected => "expected `:`"
  | .commaOrBracketExpected => "expected `,` or `]`"
  | .commaOrBraceExpected => "expected `,` or `\x7d`"
  | .nameExpected => "key must be a string"
  | .trailingComma => "trailing comma"
  | .trailingText => "trailing characters"
  | .badNumber => "invalid number"
  | .badEscape => "invalid escape"
  | .rawControl => "control character (\\u0000-\\u001F) found while parsing a string"
  | .unfit => "value out of range"

/-- A cause, and how many characters of the text come after the one that shows it. -/
structure Fault where
  cause : Cause
  remaining : Nat
  deriving DecidableEq

namespace Fault

/-- Line and column of the fault in the text. Lines count from one. Columns count bytes. -/
def position (f : Fault) (text : List Char) : Nat × Nat :=
  let before := text.take (text.length - f.remaining)
  let line := before.count '\n' + 1
  let column := (before.reverse.takeWhile (· ≠ '\n')).foldl (fun n c => n + c.utf8Size) 0
  (line, column)

def message (f : Fault) (text : List Char) : String :=
  let (line, column) := f.position text
  f.cause.message ++ " at line " ++ toString line ++ " column " ++ toString column

end Fault

namespace Reader

/-- The fault that the next character shows, or the end of the text. -/
def atNext {α : Type} (cause : Cause) (s : List Char) : Except Fault α :=
  .error ⟨cause, s.length - 1⟩

def isSpace (c : Char) : Bool := c = ' ' || c = '\n' || c = '\t' || c = '\r'

def skip (s : List Char) : List Char := s.dropWhile isSpace

def isDigit (c : Char) : Bool := '0' ≤ c && c ≤ '9'

/-! ## Strings -/

/-- What a string is made of: characters, and the 16-bit units of `\u` escapes. -/
inductive Piece where
  | char (c : Char)
  | unit (n : Nat)
  deriving DecidableEq

def isHighSurrogate (n : Nat) : Bool := 0xD800 ≤ n && n < 0xDC00

def isLowSurrogate (n : Nat) : Bool := 0xDC00 ≤ n && n < 0xE000

/-- The pieces put together, if every surrogate has its partner: a character by `plain`, and what
units stand for by `escaped`. -/
def assemble? {α : Type} (plain escaped : Char → List α) : List Piece → Option (List α)
  | [] => some []
  | .char c :: rest => (assemble? plain escaped rest).map (plain c ++ ·)
  | .unit high :: .unit low :: rest =>
    if isHighSurrogate high then
      if isLowSurrogate low then
        (assemble? plain escaped rest).map
          (escaped (Char.ofNat (0x10000 + (high - 0xD800) * 0x400 + (low - 0xDC00))) ++ ·)
      else none
    else if isLowSurrogate high then none
    else (assemble? plain escaped (.unit low :: rest)).map (escaped (Char.ofNat high) ++ ·)
  | .unit n :: rest =>
    if isHighSurrogate n || isLowSurrogate n then none
    else (assemble? plain escaped rest).map (escaped (Char.ofNat n) ++ ·)

/-- How the pieces of a string become its text, if it has one. -/
abbrev Assembly := List Piece → Option String

/-- The text of pieces. -/
def ofChars : Assembly := fun ps =>
  (assemble? (fun c => [c]) (fun c => [c]) ps).map String.ofList

/-- The text of pieces whose characters stand for octets, if these are a text in UTF-8. -/
def ofOctets : Assembly := fun ps =>
  (assemble? (fun c => [c.toUInt8]) String.utf8EncodeChar ps).bind fun octets =>
    String.fromUTF8? ⟨octets.toArray⟩

def hexValue? (c : Char) : Option Nat :=
  if isDigit c then some (c.toNat - 48)
  else if 'a' ≤ c && c ≤ 'f' then some (c.toNat - 87)
  else if 'A' ≤ c && c ≤ 'F' then some (c.toNat - 55)
  else none

def hexUnit? (a b c d : Char) : Option Nat := do
  return (((← hexValue? a) * 16 + (← hexValue? b)) * 16 + (← hexValue? c)) * 16 + (← hexValue? d)

/-- The character of a short escape. -/
def escaped? : Char → Option Char
  | '"' => some '"'
  | '\\' => some '\\'
  | '/' => some '/'
  | 'b' => some '\x08'
  | 'f' => some '\x0c'
  | 'n' => some '\n'
  | 'r' => some '\r'
  | 't' => some '\t'
  | _ => none

def onPieces (p : Piece) :
    Except Fault (List Piece × List Char) → Except Fault (List Piece × List Char)
  | .ok (ps, rest) => .ok (p :: ps, rest)
  | .error f => .error f

/-- The pieces up to the closing quote, and the text behind it. -/
def pieces : List Char → Except Fault (List Piece × List Char)
  | [] => .error ⟨.stringEnds, 0⟩
  | '"' :: rest => .ok ([], rest)
  | '\\' :: 'u' :: a :: b :: c :: d :: rest =>
    match hexUnit? a b c d with
    | some n => onPieces (.unit n) (pieces rest)
    | none => .error ⟨.badEscape, rest.length⟩
  | '\\' :: c :: rest =>
    match escaped? c with
    | some e => onPieces (.char e) (pieces rest)
    | none => .error ⟨if c = 'u' then .stringEnds else .badEscape, if c = 'u' then 0 else rest.length⟩
  | c :: rest =>
    if c = '\\' then .error ⟨.stringEnds, 0⟩
    else if c.toNat < 0x20 then .error ⟨.rawControl, rest.length⟩
    else onPieces (.char c) (pieces rest)

/-- The string whose opening quote has been read. -/
def string (text? : Assembly) (s : List Char) : Except Fault (Option String × List Char) :=
  match pieces s with
  | .ok (ps, rest) => .ok (text? ps, rest)
  | .error f => .error f

/-! ## Numbers -/

/-- At least one digit. -/
def digits (s : List Char) : Except Fault (List Char × List Char) :=
  match s.takeWhile isDigit with
  | [] => atNext (if s.isEmpty then .valueEnds else .badNumber) s
  | ds => .ok (ds, s.dropWhile isDigit)

/-- The exponent of a number, if there is one. -/
def exponent (s : List Char) : Except Fault (Option (Bool × List Char) × List Char) :=
  match s with
  | e :: rest =>
    if e = 'e' || e = 'E' then
      let (negative, rest) :=
        match rest with
        | '+' :: r => (false, r)
        | '-' :: r => (true, r)
        | r => (false, r)
      match digits rest with
      | .ok (ds, rest) => .ok (some (negative, ds), rest)
      | .error f => .error f
    else .ok (none, e :: rest)
  | [] => .ok (none, [])

/-- A number without its sign. The whole part has no leading zero. -/
def unsigned (negative : Bool) (s : List Char) : Except Fault (Literal × List Char) := do
  let (whole, rest) ← digits s
  match whole with
  | '0' :: _ :: more => .error ⟨.badNumber, more.length + rest.length⟩
  | _ => pure ()
  match rest with
  | '.' :: rest =>
    let (fraction, rest) ← digits rest
    let (power, rest) ← exponent rest
    return (⟨negative, whole, some fraction, power⟩, rest)
  | rest =>
    let (power, rest) ← exponent rest
    return (⟨negative, whole, none, power⟩, rest)

/-! ## Values -/

/-- What follows the letters of a word, which must be next. -/
def word (letters : List Char) (meaning : Raw) (s : List Char) : Except Fault (Raw × List Char) :=
  if letters.isPrefixOf s then .ok (meaning, s.drop letters.length)
  else if s.isPrefixOf letters then .error ⟨.valueEnds, 0⟩
  else
    let common := ((letters.zip s).takeWhile fun p => p.1 = p.2).length
    .error ⟨.wordExpected, s.length - common - 1⟩

mutual

/-- A value at the head of the text. The number bounds the calls and is never reached by a caller
who gives twice the length of the text. -/
def value (text? : Assembly) : Nat → List Char → Except Fault (Raw × List Char)
  | 0, s => atNext .valueExpected s
  | n + 1, s =>
    match skip s with
    | [] => .error ⟨.valueEnds, 0⟩
    | 'n' :: rest => word ['u', 'l', 'l'] .null rest
    | 't' :: rest => word ['r', 'u', 'e'] (.bool true) rest
    | 'f' :: rest => word ['a', 'l', 's', 'e'] (.bool false) rest
    | '"' :: rest => do
      let (text, rest) ← string text? rest
      return (.string text, rest)
    | '-' :: rest => do
      let (literal, rest) ← unsigned true rest
      return (.number literal, rest)
    | '[' :: rest =>
      match skip rest with
      | ']' :: rest => .ok (.array [], rest)
      | [] => .error ⟨.listEnds, 0⟩
      | rest => do
        let (items, rest) ← items text? n rest
        return (.array items, rest)
    | '\x7b' :: rest =>
      match skip rest with
      | '\x7d' :: rest => .ok (.object [], rest)
      | rest => do
        let (members, rest) ← members text? n rest
        return (.object members, rest)
    | c :: rest =>
      if isDigit c then do
        let (literal, rest) ← unsigned false (c :: rest)
        return (.number literal, rest)
      else .error ⟨.valueExpected, rest.length⟩

/-- The items up to the closing bracket. There is at least one. -/
def items (text? : Assembly) : Nat → List Char → Except Fault (List Raw × List Char)
  | 0, s => atNext .valueExpected s
  | n + 1, s => do
    let (first, rest) ← value text? n s
    match skip rest with
    | ']' :: rest => return ([first], rest)
    | ',' :: rest =>
      match skip rest with
      | ']' :: rest => .error ⟨.trailingComma, rest.length⟩
      | rest =>
        let (more, rest) ← items text? n rest
        return (first :: more, rest)
    | [] => .error ⟨.listEnds, 0⟩
    | _ :: rest => .error ⟨.commaOrBracketExpected, rest.length⟩

/-- The members up to the closing brace. There is at least one. -/
def members (text? : Assembly) : Nat → List Char → Except Fault (List (Option String × Raw) × List Char)
  | 0, s => atNext .nameExpected s
  | n + 1, s =>
    match skip s with
    | '"' :: rest => do
      let (name, rest) ← string text? rest
      match skip rest with
      | ':' :: rest =>
        let (first, rest) ← value text? n rest
        match skip rest with
        | '\x7d' :: rest => return ([(name, first)], rest)
        | ',' :: rest =>
          match skip rest with
          | '\x7d' :: rest => .error ⟨.trailingComma, rest.length⟩
          | rest =>
            let (more, rest) ← members text? n rest
            return ((name, first) :: more, rest)
        | [] => .error ⟨.objectEnds, 0⟩
        | _ :: rest => .error ⟨.commaOrBraceExpected, rest.length⟩
      | [] => .error ⟨.objectEnds, 0⟩
      | _ :: rest => .error ⟨.colonExpected, rest.length⟩
    | [] => .error ⟨.objectEnds, 0⟩
    | _ :: rest => .error ⟨.nameExpected, rest.length⟩

end

end Reader

namespace Raw

/-- Reads a whole text, strings by way of `text?`. -/
def readBy (text? : Reader.Assembly) (text : List Char) : Except Fault Raw :=
  match Reader.value text? (2 * text.length + 2) text with
  | .error f => .error f
  | .ok (raw, rest) =>
    match Reader.skip rest with
    | [] => .ok raw
    | _ :: more => .error ⟨.trailingText, more.length⟩

/-- Reads a whole text. -/
def read (text : List Char) : Except Fault Raw := readBy Reader.ofChars text

/-- Reads octets, each standing as the character of its number. -/
def readOctets (octets : List UInt8) : Except Fault Raw :=
  readBy Reader.ofOctets (octets.map fun o => Char.ofNat o.toNat)

end Raw

/-- Reads a whole text as a value. -/
def Value.read (text : List Char) : Except Fault Value :=
  match Raw.read text with
  | .error f => .error f
  | .ok raw =>
    match raw.toValue? Raw.maxDepth with
    | some v => .ok v
    | none => .error ⟨.unfit, 0⟩

end Quarry.Json
