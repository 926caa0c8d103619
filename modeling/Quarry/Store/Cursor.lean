import Quarry.Store.Query
import Quarry.Text.Base64

/-!
# Cursor tokens

A token holds the place where a query goes on: behind a key, when results are in key order, or at an
index of the sorted results. It is the base-64 text of a compact JSON object with one member.
-/

namespace Quarry

open Json

/-- Where a query goes on. -/
inductive Position where
  | after (key : Key)
  | index (i : Nat)
  deriving DecidableEq

namespace Position

def render : Position → List Char
  | after key => '\x7b' :: stringText "after_key" ++ ':' :: key.toJson.render ++ ['\x7d']
  | index i => '\x7b' :: stringText "offset" ++ ':' :: Nat.toDigits 10 i ++ ['\x7d']

def encode (p : Position) : Cursor :=
  String.ofList (Text.Base64.encode (String.ofList p.render).toUTF8.data.toList)

/-- The position in a JSON tree: an object with one member. An index is below `2 ^ 64`. -/
def ofRaw? : Raw → Option Position
  | .object [(some "after_key", r)] => (Key.ofRaw? r).map after
  | .object [(some "offset", r)] => (r.toNat? (Nat.pow 2 64)).map index
  | _ => none

/-- Octets as characters of one octet each, for the column of a fault. -/
def visible (octets : List UInt8) : List Char :=
  octets.map fun o => if o < 128 then Char.ofNat o.toNat else '\x7f'

/-- The JSON tree of a token's octets. Where they are no text, the strings with stray octets are
without a text. -/
def rawOf (octets : List UInt8) : Except String Raw :=
  match String.fromUTF8? ⟨octets.toArray⟩ with
  | some text => (Raw.read text.toList).mapError fun f => f.message text.toList
  | none => (Raw.readOctets octets).mapError fun f => f.message (visible octets)

def decode (c : Cursor) : Except String Position :=
  match Text.Base64.decode c.toUTF8.data.toList with
  | .error fault => .error fault.message
  | .ok octets =>
    match rawOf octets with
    | .error message => .error message
    | .ok raw =>
      match ofRaw? raw with
      | some p => .ok p
      | none => .error "not a position"

end Position

end Quarry
