import Ixion.Resolver.Resolve

/-!
# Views of a memory

A name is a view of a part of a memory.  `LooksInside` says that a resolver reads the
characters of the view only, and that it therefore gives the same result whatever
surrounds the view.  This is so exactly when the resolver asks for nothing behind the
view (`looksInside_iff_silent`).

When a name is not a reference after all, a resolver goes back to looking for a
function, but with the length of the whole name from where the scanner has stopped.
-/

namespace Ixion

open Lib

/-! ## Views -/

/-- A part of a memory. -/
structure View where
  memory : ℕ → Char
  offset : ℕ
  length : ℕ

namespace View

/-- The characters of a view. -/
def text (v : View) : List Char := (List.range v.length).map fun i ↦ v.memory (v.offset + i)

/-- The character at a distance behind a view. -/
def behind (v : View) (k : ℕ) : Char := v.memory (v.offset + v.length + k)

/-- The same part of a memory that has the same content there. -/
def Agrees (v w : View) : Prop :=
  w.offset = v.offset ∧ w.length = v.length ∧
    ∀ a, v.offset ≤ a → a < v.offset + v.length → w.memory a = v.memory a

/-- What a resolver makes of a view. -/
def resolve (v : View) (type : FormulaNameResolverType) (cxt : Option Workbook)
    (pos : AbsAddress) : FormulaName :=
  (type.resolve cxt pos v.text).eval v.behind

/-- The places outside a view at which a resolver reads. -/
def strayReads (v : View) (type : FormulaNameResolverType) (cxt : Option Workbook)
    (pos : AbsAddress) : List ℕ :=
  ((type.resolve cxt pos v.text).asked v.behind).map (v.offset + v.length + ·)

theorem text_eq_of_agrees {v w : View} (h : v.Agrees w) : w.text = v.text := by
  obtain ⟨ho, hl, h⟩ := h
  rw [text, text, ho, hl]
  apply List.map_congr_left
  intro i hi
  rw [List.mem_range] at hi
  exact h _ (Nat.le_add_right _ i) (by omega)

end View

/-- A resolver reads only the characters of a view, and its result depends on nothing
else in the memory. -/
def LooksInside (type : FormulaNameResolverType) (cxt : Option Workbook) (pos : AbsAddress)
    (v : View) : Prop :=
  v.strayReads type cxt pos = [] ∧
    ∀ w, v.Agrees w → w.resolve type cxt pos = v.resolve type cxt pos

/-- A resolver that reads nothing else gives the same result whatever the memory
contains elsewhere. -/
theorem looksInside_iff_silent {type : FormulaNameResolverType} {cxt : Option Workbook}
    {pos : AbsAddress} {v : View} :
    LooksInside type cxt pos v ↔ (type.resolve cxt pos v.text).Silent := by
  constructor
  · intro h
    exact Query.asked_eq_nil_iff.mp (List.map_eq_nil_iff.mp h.1)
  · intro h
    refine ⟨List.map_eq_nil_iff.mpr (Query.asked_eq_nil_iff.mpr h), fun w hw ↦ ?_⟩
    obtain ⟨name, hname⟩ := h
    rw [View.resolve, View.resolve, View.text_eq_of_agrees hw, hname]
    rfl

/-! ## The last resort -/

theorem silent_deref {p : Pointer} : p.deref.Silent ↔ p.rest ≠ [] := by
  cases p with
  | inside c cs => exact iff_of_true ⟨c, rfl⟩ nofun
  | past k => exact iff_of_false (Query.not_silent_query k) fun h ↦ h rfl

/-- Reading a number of characters stays inside if there are as many. -/
theorem silent_readString {n : ℕ} {p : Pointer} :
    (p.readString n).Silent ↔ n ≤ p.rest.length := by
  induction n generalizing p with
  | zero => exact iff_of_true (Query.silent_pure _) (Nat.zero_le _)
  | succ n ih =>
    rw [Pointer.readString, Query.silent_bind]
    cases p with
    | past k => exact iff_of_false (fun ⟨_, h, _⟩ ↦ absurd h nofun) nofun
    | inside c cs =>
      have hrest : (Pointer.ofList cs).rest = cs := by cases cs <;> rfl
      constructor
      · rintro ⟨_, -, h⟩
        rw [Query.silent_bind] at h
        obtain ⟨s, hs, -⟩ := h
        have hn : n ≤ (Pointer.ofList cs).rest.length := ih.mp ⟨s, hs⟩
        rw [hrest] at hn
        exact Nat.succ_le_succ hn
      · intro h
        have hn : n ≤ (Pointer.ofList cs).rest.length := by
          rw [hrest]
          exact Nat.le_of_succ_le_succ h
        obtain ⟨s, hs⟩ := ih.mpr hn
        exact ⟨c, rfl, c :: s, by rw [Pointer.next, hs]; rfl⟩

/-- Looking for a function stays inside if the name is as long as what is left. -/
theorem silent_resolveFunctionOrName {n : ℕ} {p : Pointer} :
    (resolveFunctionOrName p n).Silent ↔ n ≤ p.rest.length := by
  rw [resolveFunctionOrName, Query.silent_bind, ← silent_readString]
  exact ⟨fun ⟨s, hs, _⟩ ↦ ⟨s, hs⟩, fun ⟨s, hs⟩ ↦ ⟨s, hs, Query.silent_pure _⟩⟩

end Ixion
