import ChipEight.Machine.Parts
import ChipEight.Numeral.Integer
import ChipEight.Text.Pieces

/-!
# The keypad

The machine has sixteen keys, numbered from zero. This module holds their places on the keypad and on a host keyboard,
and reads the lists of keys that a user writes.

* `Keypad.indexOf?` and `Keypad.hostKey` go between the characters of a host keyboard and keys; `indexOf?_hostKeys` says
  that they are inverse.
* `Keypad.readList` reads keys in base sixteen, separated by commas.
-/

namespace ChipEight

namespace Keypad

/-- The character of the host keyboard for each key: the block of four by four keys at its left. -/
def hostKeys : List Char :=
  ['x', '1', '2', '3', 'q', 'w', 'e', 'a', 's', 'd', 'z', 'c', '4', 'r', 'f', 'v']

/-- The keys as they lie on the keypad, row by row. -/
def layout : List (List Key) :=
  ["123C", "456D", "789E", "A0BF"].map fun row => row.toList.filterMap Hex.value?

/-- The key for what was typed on the host keyboard, a single character of either case. Only ASCII letters have
another case here, which is right because no other character is the capital of a host key. -/
def indexOf? (typed : String) : Option Key :=
  match typed.toList with
  | [c] => (List.finRange keyCount).find? fun k => hostKeys[k.val]? == some c.toLower
  | _ => none

/-- The character of the host keyboard for a key. -/
def hostKey (key : Key) : Char :=
  hostKeys.get key

theorem indexOf?_hostKeys : ∀ key : Key, indexOf? (String.ofList [hostKey key]) = some key := by
  decide +kernel

/-- Why a text is no list of keys. -/
inductive ListFault where
  /-- An item is no number in base sixteen. -/
  | numeral (fault : Integer.Fault)
  /-- An item is a number, but not that of a key. -/
  | outOfRange (item : List Char)
  deriving DecidableEq

/-- The wording of the fault. -/
def ListFault.message : ListFault → String
  | .numeral fault => fault.message
  | .outOfRange item => "Key out of range: " ++ String.ofList item

def ListFault.errorClass (_ : ListFault) : ErrorClass := .valueError

/-- Reads one item without blanks around it. -/
def readItem (item : List Char) : Except ListFault Key :=
  match Integer.read 16 item with
  | .error fault => .error (.numeral fault)
  | .ok value =>
    match Key.ofInt value with
    | .error _ => .error (.outOfRange item)
    | .ok key => .ok key

/-- Reads items one after the other and stops at the first that is wrong; blank items count for nothing. -/
def readItems : List (List Char) → Except ListFault (List Key)
  | [] => .ok []
  | item :: rest =>
    let bare := Text.strip item
    if bare.isEmpty then readItems rest
    else do
      let key ← readItem bare
      let keys ← readItems rest
      return key :: keys

/-- Reads keys in base sixteen, separated by commas. -/
def readList (text : List Char) : Except ListFault (List Key) :=
  readItems (Text.pieces ',' text)

end Keypad

end ChipEight
