import Ixion.Interp.Aggregates
import Ixion.Lib.CodeWords
import Mathlib.Tactic.IntervalCases

/-!
# The characters of a string

A string is the UTF-8 encoding of its characters.  Where they begin is found by the first byte of
each, of which the code knows those with up to 18 bits after the mark of the longest form; the
characters of the last plane have one more (`countsCharacters_iff`).  The encodings of the
characters that the code knows synchronise themselves.
-/

namespace Ixion

open Lib

/-! ## First bytes -/

theorem forall_uint8 {p : UInt8 → Prop} (h : ∀ n : Fin 256, p (.ofFin n)) (x : UInt8) : p x :=
  h x.toFin

theorem calcUtf8ByteLength_one : ∀ x : UInt8, x ≤ 127 → calcUtf8ByteLength x = some 1 :=
  forall_uint8 (by decide +kernel)

theorem calcUtf8ByteLength_two : ∀ x : UInt8, calcUtf8ByteLength (x &&& 0x1f ||| 0xc0) = some 2 :=
  forall_uint8 (by decide +kernel)

theorem calcUtf8ByteLength_three :
    ∀ x : UInt8, calcUtf8ByteLength (x &&& 0x0f ||| 0xe0) = some 3 :=
  forall_uint8 (by decide +kernel)

/-- Of the longest form only half of the first bytes are known. -/
theorem calcUtf8ByteLength_four :
    ∀ x : UInt8,
      calcUtf8ByteLength (x &&& 0x07 ||| 0xf0) = if x &&& 0x04 = 0 then some 4 else none :=
  forall_uint8 (by decide +kernel)

/-- No other byte of a character is a first one. -/
theorem calcUtf8ByteLength_rest : ∀ x : UInt8, calcUtf8ByteLength (x &&& 0x3f ||| 0x80) = none :=
  forall_uint8 (by decide +kernel)

/-- The first byte of a character of four bytes is known if the character is not of the last
plane. -/
theorem firstByte_and_four {c : Char} :
    (c.val >>> 18).toUInt8 &&& 0x04 = 0 ↔ c.toNat < 0x100000 := by
  have hlt : c.toNat < 0x110000 := by
    rcases c.valid with h | h
    · exact Nat.lt_trans h (by decide)
    · exact h.2
  have hshift : (c.val >>> 18).toUInt8.toNat = c.toNat / 2 ^ 18 := by
    rw [UInt32.toNat_toUInt8, UInt32.toNat_shiftRight]
    show (c.toNat >>> 18) % 2 ^ 8 = _
    rw [Nat.shiftRight_eq_div_pow]
    exact Nat.mod_eq_of_lt (by omega)
  rw [← UInt8.toNat_inj, UInt8.toNat_and, hshift]
  generalize hn : c.toNat / 2 ^ 18 = n
  have hle : n ≤ 4 := by omega
  interval_cases n
  · exact iff_of_true rfl (by omega)
  · exact iff_of_true rfl (by omega)
  · exact iff_of_true rfl (by omega)
  · exact iff_of_true rfl (by omega)
  · exact iff_of_false nofun (by omega)

/-- A character is one byte that says how long it is and others that do not; the first byte of a
character of the last plane says nothing. -/
theorem exists_utf8EncodeChar (c : Char) :
    ∃ b bs, String.utf8EncodeChar c = b :: bs ∧
      calcUtf8ByteLength b = (if c.toNat < 0x100000 then some (bs.length + 1) else none) ∧
      ∀ x ∈ bs, calcUtf8ByteLength x = none := by
  have hsmall (h : c.val ≤ 0xffff) : c.toNat < 0x100000 :=
    Nat.lt_of_le_of_lt (UInt32.le_iff_toNat_le.mp h) (by decide)
  rcases c.utf8Size_eq with h | h | h | h
  · refine ⟨_, _, String.utf8EncodeChar_eq_singleton h, ?_, fun x hx ↦ absurd hx List.not_mem_nil⟩
    have hle := Char.utf8Size_eq_one_iff.mp h
    have hle' : c.val.toUInt8 ≤ 127 := by
      rw [UInt32.le_iff_toNat_le] at hle
      rw [UInt8.le_iff_toNat_le, UInt32.toNat_toUInt8]
      exact (Nat.mod_le _ _).trans hle
    rw [if_pos (hsmall (UInt32.le_trans hle (by decide)))]
    exact calcUtf8ByteLength_one _ hle'
  · refine ⟨_, _, String.utf8EncodeChar_eq_cons_cons h, ?_, fun x hx ↦ ?_⟩
    · rw [if_pos (hsmall (UInt32.le_trans (Char.utf8Size_eq_two_iff.mp h).2 (by decide)))]
      exact calcUtf8ByteLength_two _
    · rw [List.mem_singleton.mp hx]
      exact calcUtf8ByteLength_rest _
  · refine ⟨_, _, String.utf8EncodeChar_eq_cons_cons_cons h, ?_, fun x hx ↦ ?_⟩
    · rw [if_pos (hsmall (Char.utf8Size_eq_three_iff.mp h).2)]
      exact calcUtf8ByteLength_three _
    · rcases List.mem_cons.mp hx with rfl | hx
      · exact calcUtf8ByteLength_rest _
      · rw [List.mem_singleton.mp hx]
        exact calcUtf8ByteLength_rest _
  · refine ⟨_, _, String.utf8EncodeChar_eq_cons_cons_cons_cons h, ?_, fun x hx ↦ ?_⟩
    · rw [calcUtf8ByteLength_four]
      exact if_congr firstByte_and_four rfl rfl
    · rcases List.mem_cons.mp hx with rfl | hx
      · exact calcUtf8ByteLength_rest _
      rcases List.mem_cons.mp hx with rfl | hx
      · exact calcUtf8ByteLength_rest _
      · rw [List.mem_singleton.mp hx]
        exact calcUtf8ByteLength_rest _

/-- Different characters are written differently. -/
theorem utf8EncodeChar_injective : Function.Injective String.utf8EncodeChar := by
  intro c c' h
  have hdecode (c : Char) : (String.utf8EncodeChar c).toByteArray.utf8DecodeChar? 0 = some c := by
    have happend := ByteArray.utf8DecodeChar?_utf8EncodeChar_append (b := .empty) (c := c)
    rwa [ByteArray.append_empty] at happend
  have hc := hdecode c
  rw [h] at hc
  exact Option.some.inj (hc.symm.trans (hdecode c'))

/-! ## Positions -/

/-- The encoding of characters. -/
def utf8 (cs : List Char) : Text := cs.flatMap String.utf8EncodeChar

/-- The bytes that still belong to a character are passed over. -/
theorem utf8PositionsFrom_skip (s bs rest : Text) (p : Nat) :
    utf8PositionsFrom s p bs.length (bs ++ rest) = utf8PositionsFrom s (p + bs.length) 0 rest := by
  induction bs generalizing p with
  | nil => rfl
  | cons b bs ih =>
    show utf8PositionsFrom s (p + 1) bs.length (bs ++ rest) = _
    rw [ih, List.length_cons, Nat.add_assoc, Nat.add_comm 1]

/-- A character that is known has a position, and those of the others follow. -/
theorem utf8PositionsFrom_char (s rest : Text) (p : Nat) {c : Char} (hc : c.toNat < 0x100000) :
    utf8PositionsFrom s p 0 (String.utf8EncodeChar c ++ rest) =
      (p :: ·) <$> utf8PositionsFrom s (p + (String.utf8EncodeChar c).length) 0 rest := by
  obtain ⟨b, bs, hcode, hsize, -⟩ := exists_utf8EncodeChar c
  rw [if_pos hc] at hsize
  rw [hcode, List.cons_append, utf8PositionsFrom, hsize]
  dsimp only
  rw [Nat.add_sub_cancel, utf8PositionsFrom_skip, List.length_cons, Nat.add_assoc, Nat.add_comm 1]
  cases utf8PositionsFrom s (p + (bs.length + 1)) 0 rest <;> rfl

/-- The positions of characters that are known are where their encodings begin. -/
theorem utf8PositionsFrom_utf8 (s : Text) (p : Nat) {cs : List Char}
    (h : ∀ c ∈ cs, c.toNat < 0x100000) :
    utf8PositionsFrom s p 0 (utf8 cs) =
      .ok ((offsets String.utf8EncodeChar cs).map (p + ·)) := by
  induction cs generalizing p with
  | nil => rfl
  | cons c cs ih =>
    rw [utf8, List.flatMap_cons, utf8PositionsFrom_char s _ p (h c List.mem_cons_self)]
    have ih := ih (p + (String.utf8EncodeChar c).length) fun c' hc' ↦
      h c' (List.mem_cons_of_mem c hc')
    rw [utf8] at ih
    rw [ih, offsets_cons, List.map_cons, List.map_map]
    refine congrArg (fun l ↦ Except.ok (p :: l)) (List.map_congr_left fun k _ ↦ ?_)
    exact Nat.add_assoc _ _ _

/-- There are no positions if a character is not known. -/
theorem utf8PositionsFrom_error (s : Text) (p : Nat) {cs : List Char}
    (h : ¬∀ c ∈ cs, c.toNat < 0x100000) :
    ∃ e, utf8PositionsFrom s p 0 (utf8 cs) = .error e := by
  induction cs generalizing p with
  | nil => exact absurd (fun c hc ↦ absurd hc List.not_mem_nil) h
  | cons c cs ih =>
    rw [utf8, List.flatMap_cons]
    by_cases hc : c.toNat < 0x100000
    · rw [utf8PositionsFrom_char s _ p hc]
      obtain ⟨e, he⟩ := ih (p + (String.utf8EncodeChar c).length) fun hall ↦
        h (List.forall_mem_cons.mpr ⟨hc, hall⟩)
      rw [utf8] at he
      rw [he]
      exact ⟨e, rfl⟩
    · obtain ⟨b, bs, hcode, hsize, -⟩ := exists_utf8EncodeChar c
      rw [if_neg hc] at hsize
      rw [hcode, List.cons_append, utf8PositionsFrom, hsize]
      exact ⟨_, rfl⟩

theorem calcUtf8BytePositions_utf8 {cs : List Char} (h : ∀ c ∈ cs, c.toNat < 0x100000) :
    calcUtf8BytePositions (utf8 cs) = .ok (offsets String.utf8EncodeChar cs) := by
  rw [calcUtf8BytePositions, utf8PositionsFrom_utf8 _ _ h]
  refine congrArg Except.ok ((List.map_congr_left fun k _ ↦ ?_).trans (List.map_id _))
  exact Nat.zero_add k

/-! ## Counting characters -/

namespace FormulaFunctions

variable (f : FormulaFunctions) (result : FormulaCell → Except Exn FormulaResult)

/-- The positions of characters are found, and there are as many as characters. -/
def CountsCharacters (cs : List Char) : Prop :=
  calcUtf8BytePositions (utf8 cs) = .ok (offsets String.utf8EncodeChar cs) ∧
    f.call result .funcLen [.string (utf8 cs)] = .ok [.value cs.length]

/-- The positions of characters are found exactly if none of them is of the last plane. -/
theorem countsCharacters_iff (cs : List Char) :
    f.CountsCharacters result cs ↔ ∀ c ∈ cs, c.toNat < 0x100000 := by
  constructor
  · rintro ⟨hpositions, -⟩
    by_contra h
    obtain ⟨e, he⟩ := utf8PositionsFrom_error (utf8 cs) 0 h
    exact nomatch hpositions.symm.trans he
  · intro h
    have hpositions := calcUtf8BytePositions_utf8 h
    refine ⟨hpositions, call_of_ok ?_⟩
    show ((liftM (Reader.ofExcept (calcUtf8BytePositions (utf8 cs))) >>= fun positions ↦
      ValueStack.push (.value (positions.length : ℚ)) : StackM Unit) []).run _ = _
    rw [hpositions, run_bind_apply, run_lift_apply]
    show Except.ok ((), [StackValue.value ((offsets String.utf8EncodeChar cs).length : ℚ)]) = _
    rw [length_offsets]

/-- The first character of the last plane. -/
theorem not_countsCharacters_lastPlane :
    ¬(plain ⟨⟨1, 1⟩, [], [], fun _ ↦ .empty, .new, none⟩ ⟨0, 0, 0⟩).CountsCharacters
      (fun _ ↦ .ok (.value 0)) [Char.ofNat 0x100000] := by
  rintro ⟨hpositions, -⟩
  obtain ⟨e, he⟩ := utf8PositionsFrom_error (utf8 [Char.ofNat 0x100000]) 0 fun h ↦
    absurd (h (Char.ofNat 0x100000) List.mem_cons_self) (by decide)
  exact nomatch hpositions.symm.trans he

end FormulaFunctions

/-! ## Strings that are accepted -/

/-- A character whose first byte is known. -/
abbrev Utf8Char : Type := {c : Char // c.toNat < 0x100000}

/-- The bytes of a character. -/
def Utf8Char.bytes (c : Utf8Char) : Text := String.utf8EncodeChar c.1

/-- The bytes of a string that is accepted. -/
def encode (s : List Utf8Char) : Text := s.flatMap Utf8Char.bytes

/-- The characters that are known synchronise themselves. -/
theorem isSelfSynchronizing_utf8 : IsSelfSynchronizing Utf8Char.bytes calcUtf8ByteLength where
  head c := by
    obtain ⟨b, bs, hcode, hsize, hrest⟩ := exists_utf8EncodeChar c.1
    exact ⟨b, bs, hcode, hsize.trans (if_pos c.2), hrest⟩
  injective _ _ h := Subtype.ext (utf8EncodeChar_injective h)

theorem encode_eq_utf8 (s : List Utf8Char) : encode s = utf8 (s.map Subtype.val) := by
  rw [encode, utf8, List.flatMap_map]
  rfl

theorem offsets_map_val (s : List Utf8Char) :
    offsets String.utf8EncodeChar (s.map Subtype.val) = offsets Utf8Char.bytes s := by
  rw [offsets, offsets, List.length_map]
  refine List.map_congr_left fun k _ ↦ ?_
  rw [offset, offset, ← List.map_take, List.flatMap_map]
  rfl

/-- The positions of the characters of a string that is accepted. -/
theorem calcUtf8BytePositions_encode (s : List Utf8Char) :
    calcUtf8BytePositions (encode s) = .ok (offsets Utf8Char.bytes s) := by
  rw [encode_eq_utf8, calcUtf8BytePositions_utf8 fun c hc ↦ ?_, offsets_map_val]
  obtain ⟨c', -, rfl⟩ := List.mem_map.mp hc
  exact c'.2

end Ixion
