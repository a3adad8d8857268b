import Ixion.Error
import Ixion.Token

/-!
# UTF-8

The characters of a string are told apart by their first bytes, which say how long they
are.  A character may be cut off by the end of the string.
-/

namespace Ixion

/-- The bytes of a string, as they are shown in messages. -/
def Text.show (s : Text) : String := .ofList (s.map fun c ↦ Char.ofNat c.toNat)

/-- The number of bytes of a character, by its first byte. -/
def calcUtf8ByteLength (c1 : UInt8) : Option Nat :=
  if c1 &&& 0x80 = 0x00 then some 1
  else if c1 &&& 0xE0 = 0xC0 then some 2
  else if c1 &&& 0xF0 = 0xE0 then some 3
  else if c1 &&& 0xFC = 0xF0 then some 4
  else none

/-- The positions of the characters from a position on, after the bytes that still belong to
the character before it. -/
def utf8PositionsFrom (s : Text) : Nat → Nat → Text → Except Exn (List Nat)
  | _, _, [] => .ok []
  | p, skip + 1, _ :: cs => utf8PositionsFrom s (p + 1) skip cs
  | p, 0, c :: cs => do
    match calcUtf8ByteLength c with
    | none => throw (.generalError s!"invalid utf8 byte length in string '{s.show}'")
    | some n => return p :: (← utf8PositionsFrom s (p + 1) (n - 1) cs)

/-- The positions of the characters of a string. -/
def calcUtf8BytePositions (s : Text) : Except Exn (List Nat) := utf8PositionsFrom s 0 0 s

end Ixion
