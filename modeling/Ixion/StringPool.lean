import Ixion.Token

/-!
# The string pool

Strings are stored once and referred to by number.  The pool is a list of strings
together with a map from strings back to their numbers; the map is never wrong,
which is a field of the pool.
-/

namespace Ixion

/-- The strings stored so far, and for each stored string the number of its first
occurrence. -/
structure StringPool where
  strings : List Text
  stringMap : Text → Option Nat
  map_sound : ∀ s i, stringMap s = some i → strings[i]? = some s

namespace StringPool

/-- A pool without strings. -/
def new : StringPool := ⟨[], fun _ ↦ none, nofun⟩

/-- Store a string at the end.  The map keeps the number it has, if it has one. -/
def appendString (p : StringPool) (s : Text) : StringPool × StringId where
  fst :=
    { strings := p.strings ++ [s]
      stringMap := fun t ↦
        if t = s ∧ p.stringMap s = none then some p.strings.length else p.stringMap t
      map_sound := by
        intro t i h
        split at h
        case isTrue hts =>
          rw [Option.some.injEq] at h
          rw [← h, List.getElem?_concat_length, hts.1]
        case isFalse =>
          have hi := p.map_sound t i h
          rwa [List.getElem?_append_left (List.getElem?_eq_some_iff.mp hi).1] }
  snd := .index p.strings.length

/-- The number of a string, which is stored if it was not before.  The empty
string is never stored. -/
def addString (p : StringPool) (s : Text) : StringPool × StringId :=
  if s.isEmpty then (p, .empty)
  else
    match p.stringMap s with
    | some i => (p, .index i)
    | none => p.appendString s

/-- The string with a number. -/
def getString (p : StringPool) : StringId → Option Text
  | .empty => some []
  | .index i => p.strings[i]?

/-- Numbers that have been handed out keep denoting the same string. -/
theorem getString_addString_of_some {p : StringPool} {sid : StringId} {s t : Text}
    (h : p.getString sid = some t) : (p.addString s).1.getString sid = some t := by
  rw [addString]
  split
  · exact h
  · split
    · exact h
    · cases sid with
      | empty => exact h
      | index i =>
        change (p.strings ++ [s])[i]? = some t
        rw [List.getElem?_append_left (List.getElem?_eq_some_iff.mp h).1]
        exact h

/-- The number that a string is given denotes it. -/
theorem getString_addString (p : StringPool) (s : Text) :
    (p.addString s).1.getString (p.addString s).2 = some s := by
  rw [addString]
  split
  case isTrue h => rw [List.isEmpty_iff.mp h]; rfl
  case isFalse =>
    split
    case h_1 i h => exact p.map_sound s i h
    case h_2 => exact List.getElem?_concat_length

end StringPool

end Ixion
