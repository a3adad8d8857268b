import Ixion.Interp.Slices
import Ixion.Lib.Occurrences

/-!
# Finding strings

FIND looks for bytes from where a character begins, and whatever it finds begins with a character
too.  The place where it starts is kept in an `int`, and once it does not fit, the search is from
another one (`findsFirst_iff`).
-/

namespace Ixion.FormulaFunctions

open Lib ValueStack

variable {f : FormulaFunctions} {result : FormulaCell → Except Exn FormulaResult}

/-! ## Searching bytes -/

section Search

variable {content part : Text} {pos i : Nat}

theorem isPrefixOf_and_iff :
    (decide (pos ≤ i) && part.isPrefixOf (content.drop i)) = true ↔
      pos ≤ i ∧ part <+: content.drop i := by
  rw [Bool.and_eq_true, decide_eq_true_iff, List.isPrefixOf_iff_prefix]

/-- What is found is the first occurrence from a position on. -/
theorem findFrom_eq_some_iff :
    findFrom content part pos = some i ↔ IsLeast {i | pos ≤ i ∧ OccursAt part content i} i := by
  rw [findFrom, List.find?_range_eq_some, isPrefixOf_and_iff, List.mem_range, Nat.lt_succ_iff]
  constructor
  · rintro ⟨⟨hpos, hprefix⟩, hle, hbefore⟩
    refine ⟨⟨hpos, hle, hprefix⟩, fun j hj ↦ Nat.not_lt.mp fun hlt ↦ ?_⟩
    have hfalse := hbefore j hlt
    rw [Bool.not_eq_true', ← Bool.not_eq_true, isPrefixOf_and_iff] at hfalse
    exact hfalse ⟨hj.1, hj.2.isPrefix⟩
  · rintro ⟨⟨hpos, hoccurs⟩, hleast⟩
    refine ⟨⟨hpos, hoccurs.isPrefix⟩, hoccurs.le, fun j hlt ↦ ?_⟩
    rw [Bool.not_eq_true', ← Bool.not_eq_true, isPrefixOf_and_iff]
    rintro ⟨hj, hprefix⟩
    exact absurd (hleast ⟨hj, hlt.le.trans hoccurs.le, hprefix⟩) (Nat.not_le.mpr hlt)

theorem findFrom_eq_none_iff :
    findFrom content part pos = none ↔ ∀ i, pos ≤ i → ¬OccursAt part content i := by
  constructor
  · intro h i hpos hoccurs
    classical
    have hleast :=
      Nat.isLeast_find (p := fun i ↦ pos ≤ i ∧ OccursAt part content i) ⟨i, hpos, hoccurs⟩
    exact nomatch h.symm.trans (findFrom_eq_some_iff.mpr hleast)
  · intro h
    cases hfind : findFrom content part pos with
    | none => rfl
    | some i =>
      obtain ⟨hpos, hoccurs⟩ := (findFrom_eq_some_iff.mp hfind).1
      exact absurd hoccurs (h i hpos)

/-- Only where the string occurs matters. -/
theorem findFrom_congr {pos' : Nat} (h : ∀ i, OccursAt part content i → (pos ≤ i ↔ pos' ≤ i)) :
    findFrom content part pos = findFrom content part pos' := by
  have hset : {i | pos ≤ i ∧ OccursAt part content i} =
      {i | pos' ≤ i ∧ OccursAt part content i} :=
    Set.ext fun i ↦ and_congr_left (h i)
  refine Option.ext fun i ↦ ?_
  rw [findFrom_eq_some_iff, findFrom_eq_some_iff, hset]

end Search

/-! ## Searching characters -/

section Characters

variable {content part : List Utf8Char} {k j : Nat}

/-- The character that begins at its position. -/
theorem characterAt_offset (hj : j < content.length) :
    characterAt (offsets Utf8Char.bytes content) (offset Utf8Char.bytes content j) = some j := by
  have hlength : j < (offsets Utf8Char.bytes content).length := hj.trans_eq length_offsets.symm
  have hget {i : Nat} (hi : i < (offsets Utf8Char.bytes content).length) :
      (offsets Utf8Char.bytes content)[i] = offset Utf8Char.bytes content i := by
    have hsome := List.getElem?_eq_getElem hi
    rw [getElem?_offsets, if_pos (hi.trans_eq length_offsets)] at hsome
    exact (Option.some.inj hsome).symm
  have hindex : (offsets Utf8Char.bytes content).findIdx
      (offset Utf8Char.bytes content j ≤ ·) = j := by
    refine (List.findIdx_eq hlength).mpr ⟨?_, fun i hi ↦ ?_⟩
    · rw [hget hlength]
      exact decide_eq_true le_rfl
    · rw [hget (hi.trans hlength)]
      exact decide_eq_false (Nat.not_le.mpr (isSelfSynchronizing_utf8.offset_lt hi hj.le))
  rw [characterAt, hindex, getElem?_offsets, if_pos hj]
  exact if_pos rfl

/-- A string occurs where its characters do. -/
theorem occursAt_offset_iff :
    OccursAt (encode part) (encode content) (offset Utf8Char.bytes content j) ↔
      part <+: content.drop j := by
  have hdrop : (encode content).drop (offset Utf8Char.bytes content j) = encode (content.drop j) :=
    drop_offset j
  constructor
  · rintro ⟨-, hprefix⟩
    rw [hdrop] at hprefix
    exact isSelfSynchronizing_utf8.flatMap_isPrefix_iff.mp hprefix
  · intro hprefix
    refine ⟨offset_le_length j, ?_⟩
    rw [hdrop]
    exact isSelfSynchronizing_utf8.flatMap_isPrefix_iff.mpr hprefix

/-- Where a string occurs that is not empty, a character begins. -/
theorem exists_offset_of_occursAt {i : Nat} (hpart : part ≠ [])
    (h : OccursAt (encode part) (encode content) i) :
    ∃ j < content.length, i = offset Utf8Char.bytes content j ∧ part <+: content.drop j := by
  obtain ⟨j, hj, rfl⟩ := isSelfSynchronizing_utf8.exists_offset_of_isPrefix_drop hpart h.isPrefix
  exact ⟨j, hj, rfl, occursAt_offset_iff.mp h⟩

/-- Where a string occurs from a character on, it occurs at a character between. -/
theorem exists_character_of_occursAt {i : Nat} (hk : k < content.length)
    (hki : offset Utf8Char.bytes content k ≤ i) (h : OccursAt (encode part) (encode content) i) :
    ∃ j, k ≤ j ∧ j < content.length ∧ offset Utf8Char.bytes content j ≤ i ∧
      part <+: content.drop j := by
  by_cases hpart : part = []
  · exact ⟨k, le_rfl, hk, hki, hpart ▸ List.nil_prefix⟩
  · obtain ⟨j, hj, rfl, hprefix⟩ := exists_offset_of_occursAt hpart h
    refine ⟨j, Nat.not_lt.mp fun hlt ↦ ?_, hj, le_rfl, hprefix⟩
    exact absurd hki (Nat.not_le.mpr (isSelfSynchronizing_utf8.offset_lt hlt hk.le))

/-- From a character on, what is found is the first character where the string occurs. -/
theorem findFrom_offset_eq_some_iff {i : Nat} (hk : k < content.length) :
    findFrom (encode content) (encode part) (offset Utf8Char.bytes content k) = some i ↔
      ∃ j < content.length, i = offset Utf8Char.bytes content j ∧
        IsLeast {j | k ≤ j ∧ part <+: content.drop j} j := by
  rw [findFrom_eq_some_iff]
  constructor
  · rintro ⟨⟨hki, hoccurs⟩, hleast⟩
    obtain ⟨j, hkj, hj, hji, hprefix⟩ := exists_character_of_occursAt hk hki hoccurs
    have hi : i = offset Utf8Char.bytes content j :=
      le_antisymm (hleast ⟨offset_mono hkj, occursAt_offset_iff.mpr hprefix⟩) hji
    refine ⟨j, hj, hi, ⟨hkj, hprefix⟩, fun j' ⟨hkj', hprefix'⟩ ↦ Nat.not_lt.mp fun hlt ↦ ?_⟩
    have hle := hleast ⟨offset_mono hkj', occursAt_offset_iff.mpr hprefix'⟩
    rw [hi] at hle
    exact absurd hle (Nat.not_le.mpr (isSelfSynchronizing_utf8.offset_lt hlt hj.le))
  · rintro ⟨j, hj, rfl, ⟨hkj, hprefix⟩, hleast⟩
    refine ⟨⟨offset_mono hkj, occursAt_offset_iff.mpr hprefix⟩, fun i ⟨hki, hoccurs⟩ ↦ ?_⟩
    obtain ⟨j', hkj', -, hji', hprefix'⟩ := exists_character_of_occursAt hk hki hoccurs
    exact (offset_mono (hleast ⟨hkj', hprefix'⟩)).trans hji'

/-- Characters are counted from one. -/
theorem isLeast_succ_iff (hk : 1 ≤ k) :
    IsLeast {j | k ≤ j ∧ part <+: content.drop (j - 1)} (j + 1) ↔
      IsLeast {j | k - 1 ≤ j ∧ part <+: content.drop j} j := by
  constructor
  · rintro ⟨⟨hkj, hprefix⟩, hleast⟩
    refine ⟨⟨Nat.sub_le_of_le_add hkj, hprefix⟩, fun j' ⟨hkj', hprefix'⟩ ↦ ?_⟩
    exact Nat.le_of_succ_le_succ (hleast ⟨Nat.le_add_of_sub_le hkj', hprefix'⟩)
  · rintro ⟨⟨hkj, hprefix⟩, hleast⟩
    refine ⟨⟨Nat.le_add_of_sub_le hkj, hprefix⟩, fun j' ⟨hkj', hprefix'⟩ ↦ ?_⟩
    have hle : j ≤ j' - 1 := hleast ⟨Nat.sub_le_sub_right hkj' 1, hprefix'⟩
    exact Nat.add_le_of_le_sub (hk.trans hkj') hle

end Characters

/-! ## Finding -/

section Call

variable {content part : List Utf8Char} {k : Nat}

theorem floor_natCast (n : Nat) : (n : ℚ).floor = n := by
  rw [← Int.cast_natCast, Rat.floor_intCast]

/-- The byte position from which a search goes. -/
def searchStart (content : List Utf8Char) (k : Nat) : Nat :=
  toSize (asInt (offset Utf8Char.bytes content (k - 1)))

/-- FIND leaves the number of the character that begins where the string is found. -/
theorem call_funcFind (hk : 1 ≤ k) (hk' : k ≤ content.length) (hfits : FitsInt (k - 1)) :
    f.call result .funcFind [.string (encode part), .string (encode content), .value k] =
      .ok [match (findFrom (encode content) (encode part) (searchStart content k)).bind
          (characterAt (offsets Utf8Char.bytes content)) with
        | none => .error .invalidValueType
        | some j => .value (j + 1)] := by
  refine call_of_ok ?_
  show (f.fncFind [.value k, .string (encode content), .string (encode part)]).run _ = _
  rw [fncFind]
  refine (run_bind_of_ok rfl).trans ((run_bind_of_ok rfl).trans ?_)
  rw [if_pos (show [_, _, _].length = 3 from rfl)]
  refine (run_bind_of_ok (run_popValue _)).trans ?_
  rw [floor_natCast]
  refine (run_bind_of_ok (run_toInt hfits)).trans ?_
  dsimp only
  rw [if_neg (by omega)]
  refine (run_bind_of_ok rfl).trans ((run_bind_of_ok rfl).trans ?_)
  refine (run_bind_of_ok (run_bytePositions content)).trans ?_
  have hstart : ((k : Int) - 1).toNat = k - 1 := by omega
  rw [hstart, getElem?_offsets, if_pos (by omega), searchStart]
  dsimp only
  generalize (findFrom _ _ _).bind _ = found
  cases found with
  | none => rfl
  | some j => rfl

theorem call_funcFind_undefined {content part : Text} (hfits : ¬FitsInt (k - 1)) :
    f.call result .funcFind [.string part, .string content, .value k] = .error .undefined := by
  refine call_of_failure ?_ (by rintro ⟨x, hx⟩; exact nomatch hx)
  show (f.fncFind [.value k, .string content, .string part]).run _ = _
  rw [fncFind]
  refine (run_bind_of_ok rfl).trans ((run_bind_of_ok rfl).trans ?_)
  rw [if_pos (show [_, _, _].length = 3 from rfl)]
  refine (run_bind_of_ok (run_popValue _)).trans ?_
  rw [floor_natCast]
  exact run_bind_of_error (run_toInt_undefined hfits)

/-- FIND leaves the first character from a position on where the string occurs, if there is one,
and the bytes that are found begin with a character. -/
structure FindsFirst (f : FormulaFunctions) (result : FormulaCell → Except Exn FormulaResult)
    (part content : List Utf8Char) (k : Nat) : Prop where
  found : ∀ j : Nat, IsLeast {j | k ≤ j ∧ part <+: content.drop (j - 1)} j →
    f.call result .funcFind [.string (encode part), .string (encode content), .value k] =
      .ok [.value j]
  notFound : (∀ j, k ≤ j → ¬part <+: content.drop (j - 1)) →
    f.call result .funcFind [.string (encode part), .string (encode content), .value k] =
      .ok [.error .invalidValueType]
  boundary : ∀ i, findFrom (encode content) (encode part) (searchStart content k) = some i →
    ∃ j < content.length, i = offset Utf8Char.bytes content j

/-- The string is there or not. -/
theorem exists_isLeast_or (part content : List Utf8Char) (k : Nat) :
    (∃ j, IsLeast {j | k ≤ j ∧ part <+: content.drop (j - 1)} j) ∨
      ∀ j, k ≤ j → ¬part <+: content.drop (j - 1) := by
  classical
  by_cases h : ∃ j, k ≤ j ∧ part <+: content.drop (j - 1)
  · exact .inl ⟨_, Nat.isLeast_find h⟩
  · exact .inr fun j hj hprefix ↦ h ⟨j, hj, hprefix⟩

/-- What FIND leaves where the bytes that are found begin with a character. -/
theorem FindsFirst.eq_of_findFrom (h : f.FindsFirst result part content k) (hk : 1 ≤ k)
    (hk' : k ≤ content.length) (hfits : FitsInt (k - 1)) {j : Nat} (hj : j < content.length)
    (hfind : findFrom (encode content) (encode part) (searchStart content k) =
      some (offset Utf8Char.bytes content j)) :
    IsLeast {j | k ≤ j ∧ part <+: content.drop (j - 1)} (j + 1) := by
  have hcall := @call_funcFind f result _ part _ hk hk' hfits
  rw [hfind, Option.bind_some, characterAt_offset hj] at hcall
  rcases exists_isLeast_or part content k with ⟨j', hleast⟩ | hnone
  · have heq := (h.found j' hleast).symm.trans hcall
    injection heq with heq
    injection heq with heq
    injection heq with heq
    have hnat : j' = j + 1 := by exact_mod_cast heq
    rwa [hnat] at hleast
  · exact nomatch (h.notFound hnone).symm.trans hcall

/-- FIND finds the first character exactly if the position before the start fits an `int` and the
string does not occur between the byte position of the start and what is left of it as an `int`. -/
theorem findsFirst_iff (f : FormulaFunctions) (result : FormulaCell → Except Exn FormulaResult)
    (part content : List Utf8Char) (k : Nat) (hk : 1 ≤ k) (hk' : k ≤ content.length) :
    f.FindsFirst result part content k ↔
      FitsInt (k - 1) ∧
        ∀ i, min (offset Utf8Char.bytes content (k - 1)) (searchStart content k) ≤ i →
          i < max (offset Utf8Char.bytes content (k - 1)) (searchStart content k) →
          ¬OccursAt (encode part) (encode content) i := by
  have hlt : k - 1 < content.length := by omega
  constructor
  · intro h
    have hfits : FitsInt (k - 1) := by
      by_contra hfits
      have hundefined := @call_funcFind_undefined f result _ (encode content) (encode part)
        hfits
      rcases exists_isLeast_or part content k with ⟨j, hleast⟩ | hnone
      · exact nomatch (h.found j hleast).symm.trans hundefined
      · exact nomatch (h.notFound hnone).symm.trans hundefined
    refine ⟨hfits, fun i hmin hmax hoccurs ↦ ?_⟩
    cases hfind : findFrom (encode content) (encode part) (searchStart content k) with
    | none =>
      have hnone := findFrom_eq_none_iff.mp hfind i
      have hki : offset Utf8Char.bytes content (k - 1) ≤ i := by
        by_contra hik
        exact hnone (by omega) hoccurs
      obtain ⟨j, hkj, -, -, hprefix⟩ := exists_character_of_occursAt hlt hki hoccurs
      have hcall := @call_funcFind f result _ part _ hk hk' hfits
      rw [hfind] at hcall
      rcases exists_isLeast_or part content k with ⟨j', hleast⟩ | hnone
      · exact nomatch (h.found j' hleast).symm.trans hcall
      · exact hnone (j + 1) (Nat.le_add_of_sub_le hkj) hprefix
    | some i' =>
      obtain ⟨j, hj, rfl⟩ := h.boundary i' hfind
      have hleast := (isLeast_succ_iff hk).mp (h.eq_of_findFrom hk hk' hfits hj hfind)
      have hfirst := findFrom_eq_some_iff.mp hfind
      have hbefore := @offset_mono _ _ Utf8Char.bytes content _ _ hleast.1.1
      rcases Nat.lt_or_ge i (offset Utf8Char.bytes content (k - 1)) with hik | hki
      · have hle := hfirst.2 ⟨by omega, hoccurs⟩
        omega
      · have hfirst' := (findFrom_offset_eq_some_iff hlt).mpr ⟨j, hj, rfl, hleast⟩
        have hle := (findFrom_eq_some_iff.mp hfirst').2 ⟨hki, hoccurs⟩
        have hge := hfirst.1.1
        omega
  · rintro ⟨hfits, hnone⟩
    have hset : findFrom (encode content) (encode part) (searchStart content k) =
        findFrom (encode content) (encode part) (offset Utf8Char.bytes content (k - 1)) := by
      refine findFrom_congr fun i hoccurs ↦ ?_
      by_contra hne
      refine hnone i ?_ ?_ hoccurs
      · omega
      · omega
    have hcall := @call_funcFind f result _ part _ hk hk' hfits
    rw [hset] at hcall
    refine ⟨fun j hleast ↦ ?_, fun hno ↦ ?_, fun i hi ↦ ?_⟩
    · obtain ⟨j, rfl⟩ := Nat.exists_eq_add_of_le' (hk.trans hleast.1.1)
      have hfirst := (isLeast_succ_iff hk).mp hleast
      obtain ⟨j', hkj', hj', -, hprefix'⟩ := exists_character_of_occursAt hlt
        (offset_mono hfirst.1.1) (occursAt_offset_iff.mpr hfirst.1.2)
      have hj : j < content.length := (hfirst.2 ⟨hkj', hprefix'⟩).trans_lt hj'
      rw [(findFrom_offset_eq_some_iff hlt).mpr ⟨j, hj, rfl, hfirst⟩, Option.bind_some,
        characterAt_offset hj] at hcall
      rw [hcall, Nat.cast_succ]
    · cases hfind : findFrom (encode content) (encode part)
          (offset Utf8Char.bytes content (k - 1)) with
      | none =>
        rw [hfind] at hcall
        exact hcall
      | some i =>
        obtain ⟨j, -, -, hleast⟩ := (findFrom_offset_eq_some_iff hlt).mp hfind
        have hfirst := (isLeast_succ_iff hk).mpr hleast
        exact absurd hfirst.1.2 (hno _ hfirst.1.1)
    · rw [hset] at hi
      obtain ⟨j, hj, hij, -⟩ := (findFrom_offset_eq_some_iff hlt).mp hi
      exact ⟨j, hj, hij⟩

theorem searchStart_of_fitsInt (h : FitsInt (offset Utf8Char.bytes content (k - 1))) :
    searchStart content k = offset Utf8Char.bytes content (k - 1) := by
  rw [searchStart, asInt_of_fitsInt h, toSize_of_fitsInt (Int.natCast_nonneg _) h,
    Int.toNat_natCast]

/-- The second character of two. -/
theorem findsFirst_example :
    1 ≤ 1 ∧ 1 ≤ 2 ∧
      emptyFunctions.FindsFirst (fun _ ↦ .ok (.value 0)) [⟨'b', by decide⟩]
        [⟨'a', by decide⟩, ⟨'b', by decide⟩] 1 := by
  refine ⟨by decide, by decide, (findsFirst_iff emptyFunctions (fun _ ↦ .ok (.value 0))
    [⟨'b', by decide⟩] [⟨'a', by decide⟩, ⟨'b', by decide⟩] 1 (by decide) (by decide)).mpr
    ⟨by decide, fun i hmin hmax _ ↦ ?_⟩⟩
  have hstart : searchStart [⟨'a', by decide⟩, ⟨'b', by decide⟩] 1 =
      offset Utf8Char.bytes [⟨'a', by decide⟩, ⟨'b', by decide⟩] (1 - 1) :=
    searchStart_of_fitsInt (show FitsInt 0 by decide)
  rw [hstart, min_self] at hmin
  rw [hstart, max_self] at hmax
  exact absurd hmin (Nat.not_le.mpr hmax)

/-- Nothing is found from a place after the end. -/
theorem not_findsFirst_of_length_lt (hk : 1 ≤ k) (hk' : k ≤ content.length)
    (hfits : FitsInt (k - 1)) ( hprefix : part <+: content.drop (k - 1))
    (hstart : (encode content).length < searchStart content k) :
    ¬f.FindsFirst result part content k := by
  intro h
  have hnone : findFrom (encode content) (encode part) (searchStart content k) = none :=
    findFrom_eq_none_iff.mpr fun i hi hoccurs ↦
      absurd (hi.trans hoccurs.le) (Nat.not_le.mpr hstart)
  have hcall := @call_funcFind f result _ part _ hk hk' hfits
  rw [hnone] at hcall
  exact nomatch (h.found k ⟨⟨le_rfl, hprefix⟩, fun _ hj ↦ hj.1⟩).symm.trans hcall

/-- A character of two bytes is not found where it is the only one from the start on, which no
longer fits an `int`. -/
theorem not_findsFirst_replicate {c : Utf8Char} (hc : c.bytes.length = 2) {n : Nat}
    (hn : n = 2 ^ 30) :
    ¬f.FindsFirst result [c] (List.replicate (n + 1) c) (n + 1) := by
  have hfits : FitsInt ((n + 1 : Nat) - 1) := ⟨by omega, by omega⟩
  refine not_findsFirst_of_length_lt (Nat.succ_pos n) (by rw [List.length_replicate]) hfits ?_ ?_
  · rw [List.drop_replicate, Nat.add_sub_cancel, Nat.add_sub_cancel_left]
    exact List.prefix_rfl
  · have hstart : searchStart (List.replicate (n + 1) c) (n + 1) = 2 ^ 64 - 2 ^ 31 := by
      rw [searchStart, Nat.add_sub_cancel, offset_replicate (Nat.le_succ n), hc, hn]
      rfl
    rw [encode, length_flatMap_replicate, hc, hstart]
    omega

/-- The last of many characters. -/
theorem not_findsFirst_wrapped :
    ¬emptyFunctions.FindsFirst (fun _ ↦ .ok (.value 0)) [⟨'é', by decide⟩]
      (List.replicate (2 ^ 30 + 1) ⟨'é', by decide⟩) (2 ^ 30 + 1) :=
  not_findsFirst_replicate (by decide) rfl

end Call

end Ixion.FormulaFunctions
