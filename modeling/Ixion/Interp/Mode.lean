import Ixion.Interp.Aggregates

/-!
# The number that is there most often

MODE counts how often each number is there and sorts the numbers by that.  The comparison is an
order only where no number is there more often than a smaller one (`findsMode_iff`); a number that
is there more often and a smaller one that is there less often each come before the other.
-/

namespace Ixion.FormulaFunctions

open Lib ValueStack

variable {f : FormulaFunctions} {result : FormulaCell → Except Exn FormulaResult}
  {values : List ℚ}

/-! ## Counts -/

/-- Each value of a sorted list is there with how often it is there. -/
theorem mem_valueCounts_iff {l : List ℚ} (h : l.Pairwise (· ≤ ·)) {c : ℚ × Nat} :
    c ∈ valueCounts l ↔ c.1 ∈ l ∧ c.2 = l.count c.1 := by
  induction l generalizing c with
  | nil => exact iff_of_false List.not_mem_nil fun hc ↦ absurd hc.1 List.not_mem_nil
  | cons v vs ih =>
    obtain ⟨hv, hvs⟩ := List.pairwise_cons.mp h
    obtain ⟨hpairwise, -, hhead, -⟩ := valueCounts_of_sorted hvs
    rw [valueCounts]
    cases hcounts : valueCounts vs with
    | nil =>
      rw [hcounts] at hhead
      obtain rfl := List.head?_eq_none_iff.mp hhead.symm
      rw [List.mem_singleton, List.mem_singleton, Prod.ext_iff]
      refine and_congr_right fun (hc : c.1 = v) ↦ ?_
      rw [hc, List.count_singleton_self]
    | cons top counts =>
      obtain ⟨w, n⟩ := top
      rw [hcounts] at hpairwise hhead ih
      have hw : w ∈ vs := List.mem_of_mem_head? hhead.symm
      dsimp only
      split
      case isTrue hlt =>
        have hnot : v ∉ vs := by
          obtain ⟨vs', rfl⟩ := List.head?_eq_some_iff.mp hhead.symm
          intro hmem
          rcases List.mem_cons.mp hmem with rfl | hmem
          · exact lt_irrefl v hlt
          · exact absurd ((List.pairwise_cons.mp hvs).1 v hmem) (not_le.mpr hlt)
        rw [List.mem_cons, ih hvs, List.mem_cons, Prod.ext_iff]
        by_cases hc : c.1 = v
        · rw [hc, List.count_cons_self, List.count_eq_zero.mpr hnot]
          constructor
          · rintro (h | h)
            · exact ⟨.inl rfl, h.2⟩
            · exact absurd h.1 hnot
          · exact fun h ↦ .inl ⟨rfl, h.2⟩
        · rw [List.count_cons_of_ne (Ne.symm hc)]
          exact ⟨fun h ↦ h.elim (fun h ↦ absurd h.1 hc) fun h ↦ ⟨.inr h.1, h.2⟩,
            fun h ↦ .inr ⟨h.1.resolve_left hc, h.2⟩⟩
      case isFalse hge =>
        obtain rfl : v = w := le_antisymm (hv w hw) (not_lt.mp hge)
        have hgreater := (List.pairwise_cons.mp hpairwise).1
        have hn : n = vs.count v := ((ih hvs (c := (v, n))).mp List.mem_cons_self).2
        by_cases hc : c.1 = v
        · have hrest : c ∉ counts := fun hmem ↦ lt_irrefl v (hc ▸ hgreater c hmem)
          rw [List.mem_cons, hc, List.count_cons_self, ← hn, and_iff_right List.mem_cons_self,
            or_iff_left hrest, Prod.ext_iff]
          exact and_iff_right hc
        · have hiff := ih hvs (c := c)
          rw [List.mem_cons, or_iff_right fun h ↦ hc (congrArg Prod.fst h)] at hiff
          rw [List.mem_cons, or_iff_right fun h ↦ hc (congrArg Prod.fst h), hiff,
            List.count_cons_of_ne (Ne.symm hc), List.mem_cons, or_iff_right hc]

/-- The values of a list, each with how often it is there. -/
def withCounts (values : List ℚ) : List (ℚ × Nat) := values.map fun v ↦ (v, values.count v)

/-- What is sorted are the values with how often they are there. -/
theorem mem_valueCounts_mergeSort {c : ℚ × Nat} :
    c ∈ valueCounts (values.mergeSort (· ≤ ·)) ↔ c ∈ withCounts values := by
  have hperm := List.mergeSort_perm values (· ≤ ·)
  rw [mem_valueCounts_iff (List.pairwise_mergeSort' (· ≤ ·) values), hperm.mem_iff, hperm.count_eq,
    withCounts, List.mem_map]
  constructor
  · rintro ⟨hmem, hcount⟩
    exact ⟨c.1, hmem, Prod.ext rfl hcount.symm⟩
  · rintro ⟨v, hmem, rfl⟩
    exact ⟨hmem, rfl⟩

/-! ## The order -/

theorem modeLess_iff {a b : ℚ × Nat} : modeLess a b = true ↔ b.2 < a.2 ∨ a.1 < b.1 := by
  rw [modeLess, Bool.or_eq_true_iff, decide_eq_true_iff, decide_eq_true_iff]

/-- A comparison is an order on a list or not, whatever the order of the list. -/
theorem strictWeakOrderOn_congr {α : Type} {lt : α → α → Bool} {l l' : List α}
    (h : ∀ a, a ∈ l ↔ a ∈ l') : StrictWeakOrderOn lt l ↔ StrictWeakOrderOn lt l' := by
  simp only [StrictWeakOrderOn, h]

/-- The comparison is an order exactly where no value is there more often than a smaller one. -/
theorem strictWeakOrderOn_modeLess_iff :
    StrictWeakOrderOn modeLess (withCounts values) ↔
      ∀ v ∈ values, ∀ w ∈ values, v < w → values.count w ≤ values.count v := by
  have hmem {v : ℚ} (hv : v ∈ values) : (v, values.count v) ∈ withCounts values :=
    List.mem_map_of_mem hv
  constructor
  · rintro ⟨-, hasymm, -, -⟩ v hv w hw hlt
    have hfalse := hasymm _ (hmem hv) _ (hmem hw) (modeLess_iff.mpr (.inr hlt))
    rw [← Bool.not_eq_true, modeLess_iff, not_or] at hfalse
    exact Nat.not_lt.mp hfalse.1
  · intro h
    -- where counts go down with the values, only the values are compared
    have hless : ∀ a ∈ withCounts values, ∀ b ∈ withCounts values,
        modeLess a b = decide (a.1 < b.1) := by
      intro a ha b hb
      obtain ⟨v, hv, rfl⟩ := List.mem_map.mp ha
      obtain ⟨w, hw, rfl⟩ := List.mem_map.mp hb
      rw [Bool.eq_iff_iff, modeLess_iff, decide_eq_true_iff]
      refine or_iff_right_of_imp fun hcount ↦ not_le.mp fun hle ↦ ?_
      rcases hle.eq_or_lt with heq | hlt
      · have heq : w = v := heq
        rw [heq] at hcount
        exact lt_irrefl _ hcount
      · exact absurd (h w hw v hv hlt) (Nat.not_le.mpr hcount)
    exact strictWeakOrderOn_of_lt hless

/-! ## The mode -/

/-- Numbers are collected as they are. -/
theorem foldlM_sequenceArg_value (l seq : List ℚ) :
    (l.map StackValue.value).foldlM (f.sequenceArg result) seq = .ok (seq ++ l) := by
  induction l generalizing seq with
  | nil => exact congrArg Except.ok (List.append_nil seq).symm
  | cons v l ih =>
    rw [List.map_cons, List.foldlM_cons]
    exact (ih (seq ++ [v])).trans (congrArg Except.ok (List.append_assoc seq [v] l))

/-- MODE goes by the numbers in order. -/
theorem handle_funcMode_value (hne : values ≠ []) :
    f.handle result .funcMode (values.map .value) =
      (modeOf (values.mergeSort (· ≤ ·))).map fun v ↦ ((), [v]) := by
  rw [handle_funcMode fun hnil ↦ hne (List.map_eq_nil_iff.mp hnil), ← List.map_reverse,
    foldlM_sequenceArg_value, List.nil_append]
  show (modeOf (values.reverse.mergeSort (· ≤ ·))).map _ = _
  rw [mergeSort_eq_of_perm values.reverse_perm]

/-- The least of the values that are there most often. -/
def IsMode (values : List ℚ) (v : ℚ) : Prop :=
  IsLeast {v | v ∈ values ∧ ∀ w ∈ values, values.count w ≤ values.count v} v

/-- The values with how often they are there are sorted by an order, and MODE leaves the least of
those that are there most often, if that is more than once. -/
structure FindsMode (f : FormulaFunctions) (result : FormulaCell → Except Exn FormulaResult)
    (values : List ℚ) : Prop where
  order : StrictWeakOrderOn modeLess (withCounts values)
  mode : ∀ v, IsMode values v → 1 < values.count v →
    f.call result .funcMode (values.map .value) = .ok [.value v]
  none : (∀ v ∈ values, values.count v ≤ 1) →
    f.call result .funcMode (values.map .value) = .ok [.error .noValueAvailable]

/-- What MODE leaves where no value is there more often than a smaller one. -/
theorem exists_modeOf (hne : values ≠ [])
    (hcounts : ∀ v ∈ values, ∀ w ∈ values, v < w → values.count w ≤ values.count v) :
    ∃ v, IsMode values v ∧ modeOf (values.mergeSort (· ≤ ·)) =
      .ok (if values.count v = 1 then .error .noValueAvailable else .value v) := by
  have hsorted := List.pairwise_mergeSort' (· ≤ ·) values
  have horder := (strictWeakOrderOn_congr fun _ ↦ mem_valueCounts_mergeSort).mpr
    (strictWeakOrderOn_modeLess_iff.mpr hcounts)
  have hpairwise := (valueCounts_of_sorted hsorted).1
  rw [modeOf, if_pos horder, (valueCounts_of_order hsorted horder).2]
  cases hlist : valueCounts (values.mergeSort (· ≤ ·)) with
  | nil =>
    obtain ⟨v, hv⟩ := List.exists_mem_of_ne_nil values hne
    have hmem := mem_valueCounts_mergeSort.mpr (List.mem_map_of_mem hv :
      (v, values.count v) ∈ withCounts values)
    rw [hlist] at hmem
    cases hmem
  | cons top rest =>
    have hmem {c : ℚ × Nat} : c ∈ top :: rest ↔ c ∈ withCounts values :=
      hlist ▸ mem_valueCounts_mergeSort
    obtain ⟨v, hv, rfl⟩ := List.mem_map.mp (hmem.mp List.mem_cons_self)
    have hleast : ∀ w ∈ values, w ≠ v → v < w := by
      intro w hw hne
      have hw := hmem.mpr (List.mem_map_of_mem hw : (w, values.count w) ∈ withCounts values)
      rw [hlist] at hpairwise
      rcases List.mem_cons.mp hw with heq | hrest
      · exact absurd (congrArg Prod.fst heq) hne
      · exact (List.pairwise_cons.mp hpairwise).1 _ hrest
    refine ⟨v, ⟨⟨hv, fun w hw ↦ ?_⟩, fun w hw ↦ ?_⟩, ?_⟩
    · by_cases heq : w = v
      · rw [heq]
      · exact hcounts v hv w hw (hleast w hw heq)
    · by_cases heq : w = v
      · rw [heq]
      · exact (hleast w hw.1 heq).le
    · dsimp only
      split <;> rfl

/-- MODE finds the mode exactly if there are numbers and none is there more often than a smaller
one. -/
theorem findsMode_iff (f : FormulaFunctions) (result : FormulaCell → Except Exn FormulaResult)
    (values : List ℚ) :
    f.FindsMode result values ↔
      values ≠ [] ∧ ∀ v ∈ values, ∀ w ∈ values, v < w → values.count w ≤ values.count v := by
  constructor
  · intro h
    refine ⟨?_, strictWeakOrderOn_modeLess_iff.mp h.order⟩
    rintro rfl
    have hcall : f.call result .funcMode [] =
        .error (.exception (.invalidArg "MODE requires one or more arguments.")) := rfl
    exact nomatch (h.none nofun).symm.trans hcall
  · rintro ⟨hne, hcounts⟩
    obtain ⟨v, hv, hmode⟩ := exists_modeOf hne hcounts
    have hcall := call_of_ok ((@handle_funcMode_value f result _ hne).trans
      (congrArg (Except.map fun v ↦ ((), [v])) hmode))
    refine ⟨strictWeakOrderOn_modeLess_iff.mpr hcounts, fun w hw hmany ↦ ?_, fun hone ↦ ?_⟩
    · obtain rfl := hw.unique hv
      rw [hcall, if_neg hmany.ne']
    · have hpos := List.count_pos_iff.mpr hv.1.1
      rw [hcall, if_pos (Nat.le_antisymm (hone v hv.1.1) hpos)]

/-- A number that is there twice and a greater one that is there three times. -/
theorem not_findsMode_greater :
    ¬emptyFunctions.FindsMode (fun _ ↦ .ok (.value 0)) [1, 1, 2, 2, 2] := fun h ↦
  absurd h.order (by decide)

end Ixion.FormulaFunctions
