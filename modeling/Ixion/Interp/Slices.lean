import Ixion.Interp.Characters

/-!
# Slices of strings

LEFT, MID, RIGHT and REPLACE cut a string between characters.  Each of them has its own way from
numbers of characters to positions of bytes, and they agree as far as numbers of characters are
numbers of the code (`slicesConsistently_iff`): what does not fit an `int` is not one.
-/

namespace Ixion.FormulaFunctions

open Lib ValueStack

variable {f : FormulaFunctions} {result : FormulaCell → Except Exn FormulaResult}
  {s : List Utf8Char} {t : Text} {p k : Int}

/-! ## Arguments -/

section Run

variable {ans : ∀ i : Question, Except Failure i.Answer} {rest : ValueStack}

/-- The positions of the characters are found. -/
theorem run_bytePositions (s : List Utf8Char) :
    (bytePositions (encode s) rest).run ans = .ok (offsets Utf8Char.bytes s, rest) := by
  rw [bytePositions, run_lift_apply, calcUtf8BytePositions_encode]
  rfl

/-- The number of characters is popped. -/
theorem run_popCount {v : StackValue} (hk : FitsInt k) :
    (popCount [.value k, v]).run ans = .ok (k, [v]) := by
  rw [popCount]
  exact (run_bind_of_ok rfl).trans ((run_popFloor k).trans (run_toInt hk))

end Run

/-! ## Each function -/

/-- LEFT leaves the first characters. -/
theorem call_funcLeft (h : 0 ≤ k) (hk : FitsInt k) :
    f.call result .funcLeft [.string (encode s), .value k] =
      .ok [.string (encode (s.take k.toNat))] := by
  refine call_of_ok ?_
  show (f.fncLeft [.value k, .string (encode s)]).run _ = _
  rw [fncLeft]
  refine (run_bind_of_ok rfl).trans ?_
  refine (run_bind_of_ok (run_popCount hk)).trans ?_
  rw [if_neg (not_lt.mpr h)]
  refine (run_bind_of_ok rfl).trans ((run_bind_of_ok (run_bytePositions s)).trans ?_)
  rw [getElem?_offsets]
  by_cases hlt : k.toNat < s.length
  · have htake : (encode s).take (offset Utf8Char.bytes s k.toNat) = encode (s.take k.toNat) :=
      take_offset k.toNat
    rw [if_pos hlt, ← htake]
    rfl
  · rw [if_neg hlt, List.take_of_length_le (Nat.not_lt.mp hlt)]
    rfl

/-- MID leaves the characters from a position on. -/
theorem call_funcMid (hp : 1 ≤ p) (hp' : FitsInt p) (h : 0 ≤ k) (hk : FitsInt k)
    (hs : FitsInt s.length) :
    f.call result .funcMid [.string (encode s), .value p, .value k] =
      .ok [.string (encode ((s.drop (p - 1).toNat).take k.toNat))] := by
  refine call_of_ok ?_
  show (f.fncMid [.value k, .value p, .string (encode s)]).run _ = _
  rw [fncMid]
  refine (run_bind_of_ok rfl).trans ?_
  refine (run_bind_of_ok ((run_popFloor k).trans (run_toInt hk))).trans ?_
  refine (run_bind_of_ok ((run_popFloor p).trans (run_toInt hp'))).trans ?_
  rw [if_neg (by omega)]
  refine (run_bind_of_ok rfl).trans ((run_bind_of_ok (run_bytePositions s)).trans ?_)
  dsimp only
  rw [length_offsets]
  generalize hi : (p - 1).toNat = i
  split
  case isTrue hle =>
    rw [List.drop_of_length_le hle, List.take_nil]
    rfl
  case isFalse hlt =>
    have hlt := Nat.not_le.mp hlt
    have hread {j : Nat} (hj : j < s.length) :
        (elementAt (offsets Utf8Char.bytes s) j []).run (f.workbook.answers result) =
          .ok (offset Utf8Char.bytes s j, []) := by
      rw [run_elementAt (hj.trans_eq length_offsets.symm) (encode s).length, encode, getD_offsets]
    have hcut : ((encode s).take (offset Utf8Char.bytes s (i + k.toNat))).drop
        (offset Utf8Char.bytes s i) = encode ((s.drop i).take k.toNat) := drop_take_offset i k.toNat
    refine (run_bind_of_ok (hread hlt)).trans ?_
    have hrest : FitsInt (s.length - i) := by
      obtain ⟨-, hs⟩ := hs
      exact ⟨by omega, by omega⟩
    rw [asInt_of_fitsInt hrest]
    split
    case isTrue hlen =>
      have hlast : FitsInt (i + k) := by
        obtain ⟨-, hs⟩ := hs
        exact ⟨by omega, by omega⟩
      refine (run_bind_of_ok (run_toInt hlast)).trans ?_
      rw [toSize_of_fitsInt (by omega) hlast]
      refine (run_bind_of_ok (hread (by omega))).trans ?_
      rw [show (i + k).toNat = i + k.toNat by omega, hcut]
      rfl
    case isFalse hlen =>
      have hend : (encode s).length = offset Utf8Char.bytes s (i + k.toNat) :=
        (offset_of_length_le (by omega)).symm
      refine (run_bind_of_ok (a := offset Utf8Char.bytes s (i + k.toNat)) (by rw [hend]; rfl)).trans
        ?_
      rw [hcut]
      rfl

/-- MID is undefined if its numbers are not. -/
theorem call_funcMid_undefined (h : ¬(FitsInt p ∧ FitsInt k)) :
    f.call result .funcMid [.string t, .value p, .value k] = .error .undefined := by
  refine call_of_failure ?_ (by rintro ⟨x, hx⟩; exact nomatch hx)
  show (f.fncMid [.value k, .value p, .string t]).run _ = _
  rw [fncMid]
  refine (run_bind_of_ok rfl).trans ?_
  by_cases hk : FitsInt k
  · refine (run_bind_of_ok ((run_popFloor k).trans (run_toInt hk))).trans ?_
    have hp : ¬FitsInt p := fun hp ↦ h ⟨hp, hk⟩
    exact run_bind_of_error ((run_popFloor p).trans (run_toInt_undefined hp))
  · exact run_bind_of_error ((run_popFloor k).trans (run_toInt_undefined hk))

/-- RIGHT leaves the last characters. -/
theorem call_funcRight (h : 0 ≤ k) (hk : FitsInt k) (hs : FitsInt s.length) :
    f.call result .funcRight [.string (encode s), .value k] =
      .ok [.string (encode (s.drop (s.length - k.toNat)))] := by
  refine call_of_ok ?_
  show (f.fncRight [.value k, .string (encode s)]).run _ = _
  rw [fncRight]
  refine (run_bind_of_ok rfl).trans ?_
  refine (run_bind_of_ok (run_popCount hk)).trans ?_
  rw [if_neg (not_lt.mpr h)]
  split
  case isTrue hzero =>
    rw [hzero, Int.toNat_zero, Nat.sub_zero, List.drop_length]
    rfl
  case isFalse hne =>
    refine (run_bind_of_ok rfl).trans ((run_bind_of_ok (run_bytePositions s)).trans ?_)
    rw [length_offsets, asInt_of_fitsInt hs]
    have hskip : FitsInt (s.length - k) := by
      obtain ⟨-, hs⟩ := hs
      obtain ⟨-, hk⟩ := hk
      exact ⟨by omega, by omega⟩
    refine (run_bind_of_ok (run_toInt hskip)).trans ?_
    split
    case isTrue hpos =>
      have hread := @run_elementAt _ (f.workbook.answers result) (offsets Utf8Char.bytes s)
        ((s.length : Int) - k).toNat (by rw [length_offsets]; omega) (encode s).length []
      refine (run_bind_of_ok hread).trans ?_
      rw [encode, getD_offsets, drop_offset, show ((s.length : Int) - k).toNat =
        s.length - k.toNat by omega]
      rfl
    case isFalse hneg =>
      rw [Nat.sub_eq_zero_of_le (by omega)]
      rfl

/-- REPLACE puts a text in place of the characters from a position on. -/
theorem call_funcReplace (hp : 1 ≤ p) (hp' : FitsInt p) (h : 0 ≤ k) (hk : FitsInt k)
    (hs : FitsInt s.length) :
    f.call result .funcReplace [.string (encode s), .value p, .value k, .string t] =
      .ok [.string (encode (s.take (p - 1).toNat) ++ t ++
        encode (s.drop ((p - 1).toNat + k.toNat)))] := by
  refine call_of_ok ?_
  show (f.fncReplace [.string t, .value k, .value p, .string (encode s)]).run _ = _
  rw [fncReplace]
  refine (run_bind_of_ok rfl).trans ((run_bind_of_ok rfl).trans ?_)
  refine (run_bind_of_ok ((run_popFloor k).trans (run_toInt hk))).trans ?_
  refine (run_bind_of_ok (run_popValue _)).trans ?_
  have hpos : FitsInt (p - 1) := by
    obtain ⟨-, hp'⟩ := hp'
    exact ⟨by omega, by omega⟩
  rw [Rat.floor_intCast]
  refine (run_bind_of_ok (run_toInt hpos)).trans ?_
  rw [if_neg (by omega)]
  refine (run_bind_of_ok rfl).trans ((run_bind_of_ok (run_bytePositions s)).trans ?_)
  dsimp only
  rw [length_offsets, asInt_of_fitsInt hs]
  have hrest : FitsInt (s.length - min (p - 1) s.length) := by
    obtain ⟨-, hs⟩ := hs
    exact ⟨by omega, by omega⟩
  rw [asInt_of_fitsInt hrest]
  have hsegment : FitsInt (min (p - 1) s.length) := by
    obtain ⟨-, hs⟩ := hs
    exact ⟨by omega, by omega⟩
  have hlogical : FitsInt (min (p - 1) s.length + min k (s.length - min (p - 1) s.length)) := by
    obtain ⟨-, hs⟩ := hs
    exact ⟨by omega, by omega⟩
  refine (run_bind_of_ok (run_toInt hlogical)).trans ?_
  rw [toSize_of_fitsInt (by omega) hsegment, toSize_of_fitsInt (by omega) hlogical, encode,
    getD_offsets, getD_offsets, take_offset, drop_offset]
  have htake : s.take (min (p - 1) s.length).toNat = s.take (p - 1).toNat :=
    List.take_eq_take_iff.mpr (by omega)
  have hdrop : s.drop (min (p - 1) s.length + min k (s.length - min (p - 1) s.length)).toNat =
      s.drop ((p - 1).toNat + k.toNat) := List.drop_eq_drop_iff.mpr (by omega)
  rw [htake, hdrop]
  rfl

/-! ## Laws -/

variable (f result)

/-- LEFT, RIGHT and MID leave the characters they should, what LEFT and MID leave of a string is
the string, RIGHT is MID from a later position, and REPLACE leaves what LEFT and MID do before and
after the new text. -/
structure SlicesConsistently (s : List Utf8Char) (t : Text) (p k : Int) : Prop where
  left : f.call result .funcLeft [.string (encode s), .value k] =
    .ok [.string (encode (s.take k.toNat))]
  right : f.call result .funcRight [.string (encode s), .value k] =
    .ok [.string (encode (s.drop (s.length - k.toNat)))]
  mid : f.call result .funcMid [.string (encode s), .value p, .value k] =
    .ok [.string (encode ((s.drop (p - 1).toNat).take k.toNat))]
  left_mid : ∃ l m : List Utf8Char,
    f.call result .funcLeft [.string (encode s), .value k] = .ok [.string (encode l)] ∧
      f.call result .funcMid [.string (encode s), .value (k + 1 : Int), .value (s.length : Int)] =
        .ok [.string (encode m)] ∧ encode l ++ encode m = encode s
  right_eq_mid : 1 ≤ k → k ≤ s.length →
    f.call result .funcRight [.string (encode s), .value k] =
      f.call result .funcMid [.string (encode s), .value (s.length - k + 1 : Int), .value k]
  replace : ∃ l m : List Utf8Char,
    f.call result .funcLeft [.string (encode s), .value (p - 1 : Int)] = .ok [.string (encode l)] ∧
      f.call result .funcMid [.string (encode s), .value (p + k : Int), .value (s.length : Int)] =
        .ok [.string (encode m)] ∧
      f.call result .funcReplace [.string (encode s), .value p, .value k, .string t] =
        .ok [.string (encode l ++ t ++ encode m)]

theorem encode_append (l m : List Utf8Char) : encode (l ++ m) = encode l ++ encode m :=
  List.flatMap_append

/-- The functions agree exactly if the number of characters and the position after the segment are
numbers of the code. -/
theorem slicesConsistently_iff (s : List Utf8Char) (t : Text) (hp : 1 ≤ p) (hk : 0 ≤ k) :
    f.SlicesConsistently result s t p k ↔ FitsInt s.length ∧ FitsInt (p + k) := by
  constructor
  · rintro ⟨-, -, -, -, -, l, m, -, hmid, -⟩
    by_contra h
    have hundefined := @call_funcMid_undefined f result (encode s) (p + k) s.length
      fun hfits ↦ h hfits.symm
    exact nomatch hmid.symm.trans hundefined
  · rintro ⟨hs, hsum⟩
    obtain ⟨hlo, hhi⟩ := hsum
    have hk' : FitsInt k := ⟨by omega, by omega⟩
    have hp' : FitsInt p := ⟨by omega, by omega⟩
    have hp₁ : FitsInt (p - 1) := ⟨by omega, by omega⟩
    have hk₁ : FitsInt (k + 1) := ⟨by omega, by omega⟩
    have hall (i : Nat) : (s.drop i).take s.length = s.drop i :=
      List.take_of_length_le (by rw [List.length_drop]; exact Nat.sub_le _ _)
    refine ⟨call_funcLeft hk hk', call_funcRight hk hk' hs, call_funcMid hp hp' hk hk' hs,
      ?_, ?_, ?_⟩
    · have hmid := @call_funcMid f result _ (k + 1) s.length (by omega)
        hk₁ (by omega) hs hs
      rw [Int.add_sub_cancel, Int.toNat_natCast, hall] at hmid
      refine ⟨_, _, call_funcLeft hk hk', hmid, ?_⟩
      rw [← encode_append, List.take_append_drop]
    · intro hpos hle
      have hlength := hs.2
      have hstart : FitsInt (s.length - k + 1) := ⟨by omega, by omega⟩
      rw [call_funcRight hk hk' hs, call_funcMid (by omega) hstart hk hk' hs]
      have hdrop : ((s.length : Int) - k + 1 - 1).toNat = s.length - k.toNat := by omega
      rw [hdrop, List.take_of_length_le (by rw [List.length_drop]; omega)]
    · have hmid := @call_funcMid f result _ (p + k) s.length (by omega)
        ⟨hlo, hhi⟩ (by omega) hs hs
      rw [Int.toNat_natCast, hall] at hmid
      refine ⟨_, _, call_funcLeft (by omega) hp₁, hmid, ?_⟩
      rw [call_funcReplace hp hp' hk hk' hs]
      have hafter : (p + k - 1).toNat = (p - 1).toNat + k.toNat := by omega
      rw [hafter]

/-- The first two characters of three. -/
theorem slicesConsistently_example :
    (1 : Int) ≤ 1 ∧ (0 : Int) ≤ 2 ∧
      emptyFunctions.SlicesConsistently (fun _ ↦ .ok (.value 0))
        [⟨'a', by decide⟩, ⟨'é', by decide⟩, ⟨'c', by decide⟩] [] 1 2 :=
  ⟨by decide, by decide, (slicesConsistently_iff emptyFunctions (fun _ ↦ .ok (.value 0))
    [⟨'a', by decide⟩, ⟨'é', by decide⟩, ⟨'c', by decide⟩] [] (by decide) (by decide)).mpr
      ⟨by decide, by decide⟩⟩

/-- From the first character on, as many as there can be. -/
theorem not_slicesConsistently_maxLength :
    ¬emptyFunctions.SlicesConsistently (fun _ ↦ .ok (.value 0)) [⟨'a', by decide⟩] [] 1
      2147483647 := by
  rintro ⟨-, -, -, ⟨l, m, -, hmid, -⟩, -, -⟩
  have hundefined := @call_funcMid_undefined emptyFunctions (fun _ ↦ .ok (.value 0))
    (encode [⟨'a', by decide⟩]) (2147483647 + 1) 1 (by decide)
  exact nomatch hmid.symm.trans hundefined

end Ixion.FormulaFunctions
