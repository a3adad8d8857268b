import Mathlib.Data.Finset.Card
import Ixion.Expand
import Ixion.Lib.Definitions

/-!
# Named expressions that refer to themselves

A named expression may refer to others and to itself.  The expansion of a formula keeps
the names that it has used and refuses to expand one of them again inside a named
expression, which always comes to an end.  A name that is used twice is not yet circular,
however: `expandsFaithfully_iff` says where the two differ.

The collection of references for registration keeps no such record.  It comes to an end
exactly where no name that a formula uses refers to itself: `collectsReferences_iff`.
-/

namespace Ixion

open Lib UnorderedSet DirtyCellTracker Relation

namespace Workbook

/-! ## Named expressions as definitions -/

/-- The named expressions that are visible from a sheet. -/
def definitions (wb : Workbook) (sheet : Int) : Definitions String FormulaToken where
  name?
    | .namedExpression name => some name
    | _ => none
  body name := (wb.getNamedExpression sheet name).map NamedExpression.tokens

theorem name?_eq_some_iff {wb : Workbook} {sheet : Int} {t : FormulaToken} {name : String} :
    (wb.definitions sheet).name? t = some name ↔ t = .namedExpression name := by
  cases t with
  | namedExpression name' => exact ⟨fun h ↦ congrArg _ (Option.some.inj h), fun h ↦ by cases h; rfl⟩
  | _ => exact ⟨nofun, nofun⟩

theorem body_eq_some_iff {wb : Workbook} {sheet : Int} {name : String} {b : List FormulaToken} :
    (wb.definitions sheet).body name = some b ↔
      ∃ expr, wb.getNamedExpression sheet name = some expr ∧ expr.tokens = b :=
  Option.map_eq_some_iff

/-- The tokens that occur in a formula are those within its list of tokens. -/
theorem within_iff_occurs {wb : Workbook} {sheet : Int} {tokens : List FormulaToken}
    {t : FormulaToken} : (wb.definitions sheet).Within tokens t ↔ Occurs wb sheet tokens t := by
  constructor
  · intro h
    induction h with
    | here ht => exact .here ht
    | there ht hn hb _ ih =>
      obtain rfl := name?_eq_some_iff.mp hn
      obtain ⟨expr, hexpr, rfl⟩ := body_eq_some_iff.mp hb
      exact .there ht hexpr ih
  · intro h
    induction h with
    | here ht => exact .here ht
    | there ht hexpr _ ih =>
      exact .there ht rfl (body_eq_some_iff.mpr ⟨_, hexpr, rfl⟩) ih

/-- The names of all named expressions. -/
def names (wb : Workbook) : Finset String :=
  ((wb.namedExpressions ++ wb.sheets.flatMap Sheet.namedExpressions).map Prod.fst).toFinset

theorem mem_names {wb : Workbook} {sheet : Int} {name : String} {expr : NamedExpression}
    (h : wb.getNamedExpression sheet name = some expr) : name ∈ wb.names := by
  have hkey (l : NamedExpressions) (hl : l.lookup name = some expr) : name ∈ l.map Prod.fst := by
    induction l with
    | nil => exact absurd hl nofun
    | cons p l ih =>
      rw [List.lookup_cons] at hl
      split at hl
      case h_1 heq => exact List.mem_cons.mpr (.inl (LawfulBEq.eq_of_beq heq))
      case h_2 => exact List.mem_cons_of_mem _ (ih hl)
  rw [names, List.mem_toFinset, List.map_append, List.mem_append, List.map_flatMap,
    List.mem_flatMap]
  rw [getNamedExpression] at h
  split at h
  case h_1 ws hws =>
    rcases Option.or_eq_some_iff.mp h with h | ⟨_, h⟩
    · refine .inr ⟨ws, ?_, hkey _ h⟩
      split at hws
      · exact List.mem_of_getElem? hws
      · exact absurd hws nofun
    · exact .inl (hkey _ h)
  case h_2 => exact .inl (hkey _ h)

theorem mem_names_of_body {wb : Workbook} {sheet : Int} {name : String} {b : List FormulaToken}
    (h : (wb.definitions sheet).body name = some b) : name ∈ wb.names := by
  obtain ⟨expr, hexpr, _⟩ := body_eq_some_iff.mp h
  exact mem_names hexpr

/-- Every name that a formula uses exists. -/
def AllNamesExist (wb : Workbook) (sheet : Int) (tokens : List FormulaToken) : Prop :=
  ∀ name, Occurs wb sheet tokens (.namedExpression name) →
    (wb.getNamedExpression sheet name).isSome = true

/-- A formula uses a name that refers to itself, directly or through others. -/
def CircularNames (wb : Workbook) (sheet : Int) (tokens : List FormulaToken) : Prop :=
  ∃ name expr, Occurs wb sheet tokens (.namedExpression name) ∧
    wb.getNamedExpression sheet name = some expr ∧
    Occurs wb sheet expr.tokens (.namedExpression name)

theorem uses_iff_occurs {wb : Workbook} {sheet : Int} {tokens : List FormulaToken}
    {name : String} : (wb.definitions sheet).Uses tokens name ↔
      Occurs wb sheet tokens (.namedExpression name) := by
  constructor
  · rintro ⟨t, ht, hn⟩
    exact name?_eq_some_iff.mp hn ▸ within_iff_occurs.mp ht
  · intro h
    exact ⟨_, within_iff_occurs.mpr h, rfl⟩

theorem circular_iff {wb : Workbook} {sheet : Int} {tokens : List FormulaToken} :
    (wb.definitions sheet).Circular tokens ↔ wb.CircularNames sheet tokens := by
  constructor
  · rintro ⟨name, b, hn, hb, hu⟩
    obtain ⟨expr, hexpr, rfl⟩ := body_eq_some_iff.mp hb
    exact ⟨name, expr, uses_iff_occurs.mp hn, hexpr, uses_iff_occurs.mp hu⟩
  · rintro ⟨name, expr, hn, hexpr, hu⟩
    exact ⟨name, expr.tokens, uses_iff_occurs.mpr hn, body_eq_some_iff.mpr ⟨expr, hexpr, rfl⟩,
      uses_iff_occurs.mpr hu⟩

/-! ## What the expansion does -/

/-- The error that reports a circular reference. -/
def circularError : Failure :=
  .exception (.invalidExpression "circular referencing of named expressions")

/-- The formula with every name replaced, recursively, by its tokens in parentheses. -/
def FullyExpands (wb : Workbook) (sheet : Int) : List FormulaToken → List FormulaToken → Prop :=
  (wb.definitions sheet).Expands .parenOpen .parenClose

theorem FullyExpands.allNamesExist {wb : Workbook} {sheet : Int} {tokens out : List FormulaToken}
    (h : wb.FullyExpands sheet tokens out) : wb.AllNamesExist sheet tokens := by
  intro name hname
  obtain ⟨b, hb⟩ := h.exists_body (uses_iff_occurs.mpr hname)
  obtain ⟨expr, hexpr, _⟩ := body_eq_some_iff.mp hb
  exact Option.isSome_iff_exists.mpr ⟨expr, hexpr⟩

/-- The names used so far. -/
def ExpandState.used (s : ExpandState) : Set String := {name | name ∈ s.usedNames}

/-- From one state to the other some tokens have been expanded. -/
structure Expanded (wb : Workbook) (sheet : Int) (tokens : List FormulaToken)
    (s s' : ExpandState) : Prop where
  appended : ∃ out, wb.FullyExpands sheet tokens out ∧ s'.tokens = s.tokens ++ out
  used : s'.used = s.used ∪ {name | (wb.definitions sheet).Uses tokens name}

/-- From one state to the other a name has been expanded. -/
structure ExpandedName (wb : Workbook) (sheet : Int) (name : String) (expr : NamedExpression)
    (s s' : ExpandState) : Prop where
  appended : ∃ mid, wb.FullyExpands sheet expr.tokens mid ∧
    s'.tokens = s.tokens ++ .parenOpen :: (mid ++ [.parenClose])
  used : s'.used =
    insert name (s.used ∪ {name | (wb.definitions sheet).Uses expr.tokens name})

theorem Expanded.nil (wb : Workbook) (sheet : Int) (s : ExpandState) :
    Expanded wb sheet [] s s where
  appended := ⟨[], .nil, (List.append_nil _).symm⟩
  used := by
    ext name
    exact (or_iff_left (Definitions.not_uses_nil name)).symm

theorem Expanded.token {wb : Workbook} {sheet : Int} {t : FormulaToken}
    {tokens : List FormulaToken} {s s' : ExpandState} (ht : (wb.definitions sheet).name? t = none)
    (h : Expanded wb sheet tokens { s with tokens := s.tokens ++ [t] } s') :
    Expanded wb sheet (t :: tokens) s s' where
  appended := by
    obtain ⟨out, hout, htokens⟩ := h.appended
    exact ⟨t :: out, .token ht hout, by rw [htokens, List.append_assoc, List.singleton_append]⟩
  used := by
    rw [h.used]
    ext name
    exact or_congr_right (Definitions.uses_cons_of_none ht).symm

theorem Expanded.name {wb : Workbook} {sheet : Int} {name : String} {expr : NamedExpression}
    {tokens : List FormulaToken} {s s' s'' : ExpandState}
    (hexpr : wb.getNamedExpression sheet name = some expr)
    (h : ExpandedName wb sheet name expr s s') (h' : Expanded wb sheet tokens s' s'') :
    Expanded wb sheet (.namedExpression name :: tokens) s s'' where
  appended := by
    obtain ⟨mid, hmid, htokens⟩ := h.appended
    obtain ⟨out, hout, htokens'⟩ := h'.appended
    refine ⟨_, .name rfl (body_eq_some_iff.mpr ⟨expr, hexpr, rfl⟩) hmid hout, ?_⟩
    rw [htokens', htokens, List.append_assoc, List.cons_append, List.append_assoc,
      List.singleton_append]
  used := by
    rw [h'.used, h.used]
    ext m
    have huses := Definitions.uses_cons_of_some (l := tokens) (m := m)
      (show (wb.definitions sheet).name? (.namedExpression name) = some name from rfl)
      (body_eq_some_iff.mpr ⟨expr, hexpr, rfl⟩)
    simp only [Set.mem_union, Set.mem_insert_iff, Set.mem_ofPred_eq, huses]
    tauto

/-- The loop over the tokens of an expression or of a formula.  `k` is 1 where a name
must not have been used before and 2 where this makes no difference. -/
theorem wp_forM_expand {wb : Workbook} {sheet : Int} {k : Nat} (hk : k ≤ 2)
    {f : FormulaToken → Exec ExpandState Unit} {μ : ExpandState → Prop}
    {tokens : List FormulaToken} (hexist : wb.AllNamesExist sheet tokens)
    (hμ : ∀ s s', s.used ⊆ s'.used → μ s → μ s')
    (htoken : ∀ t, (wb.definitions sheet).name? t = none → f t = pushToken t)
    (hname : ∀ name expr s, .namedExpression name ∈ tokens →
      wb.getNamedExpression sheet name = some expr → μ s →
      wp (f (.namedExpression name))
        (fun _ s' ↦ ExpandedName wb sheet name expr s s' ∧ ¬ (k ≤ 1 ∧ name ∈ s.used) ∧
          ¬ (wb.definitions sheet).Repeats 1 (insert name s.used) expr.tokens)
        (fun e _ ↦ e = circularError ∧ ((k ≤ 1 ∧ name ∈ s.used) ∨
          (wb.definitions sheet).Repeats 1 (insert name s.used) expr.tokens)) s)
    {s : ExpandState} (hs : μ s) :
    wp (tokens.forM f)
      (fun _ s' ↦ Expanded wb sheet tokens s s' ∧
        ¬ (wb.definitions sheet).Repeats k s.used tokens)
      (fun e _ ↦ e = circularError ∧ (wb.definitions sheet).Repeats k s.used tokens) s := by
  induction tokens generalizing s with
  | nil => exact ⟨.nil wb sheet s, Definitions.not_repeats_nil k _⟩
  | cons t tokens ih =>
    have hexist' : wb.AllNamesExist sheet tokens := fun name h ↦ hexist name <| by
      cases h with
      | here h => exact .here (List.mem_cons_of_mem t h)
      | there h hexpr h' => exact .there (List.mem_cons_of_mem t h) hexpr h'
    have ih := @ih hexist' fun name expr s h ↦ hname name expr s (List.mem_cons_of_mem t h)
    change wp (f t >>= fun _ ↦ tokens.forM f) _ _ s
    rw [wp_bind]
    cases hn : (wb.definitions sheet).name? t with
    | none =>
      rw [htoken t hn, pushToken, wp_modify]
      have hs' : μ { s with tokens := s.tokens ++ [t] } := hμ s _ (fun _ h ↦ h) hs
      refine (ih hs').mono ?_ ?_
      · rintro _ s' ⟨h, hr⟩
        exact ⟨.token hn h, fun hr' ↦ hr ((Definitions.repeats_cons_of_none hn).mp hr')⟩
      · rintro e _ ⟨he, hr⟩
        exact ⟨he, (Definitions.repeats_cons_of_none hn).mpr hr⟩
    | some name =>
      obtain rfl := name?_eq_some_iff.mp hn
      obtain ⟨expr, hexpr⟩ := Option.isSome_iff_exists.mp
        (hexist name (.here List.mem_cons_self))
      have hcons := Definitions.repeats_cons_of_some (l := tokens) (s := s.used) hn
        (body_eq_some_iff.mpr ⟨expr, hexpr, rfl⟩) hk
      refine (hname name expr s List.mem_cons_self hexpr hs).mono ?_ ?_
      · rintro _ s' ⟨h, hfresh, hbody⟩
        have hsub : s.used ⊆ s'.used := by
          rw [h.used]
          exact fun m hm ↦ .inr (.inl hm)
        refine (ih (hμ s s' hsub hs)).mono ?_ ?_
        · rintro _ s'' ⟨h', hr⟩
          refine ⟨.name hexpr h h', ?_⟩
          rw [hcons]
          rintro (hr' | hr' | hr')
          · exact hfresh hr'
          · exact hbody hr'
          · exact hr (h.used ▸ hr')
        · rintro e _ ⟨he, hr⟩
          exact ⟨he, hcons.mpr (.inr (.inr (h.used ▸ hr)))⟩
      · rintro e _ ⟨he, hr | hr⟩
        · exact ⟨he, hcons.mpr (.inl hr)⟩
        · exact ⟨he, hcons.mpr (.inr (.inl hr))⟩

/-- How many names have not been used yet. -/
def unusedCount (wb : Workbook) (s : ExpandState) : Nat :=
  (wb.names.filter fun name ↦ name ∉ s.usedNames).card

theorem unusedCount_le {wb : Workbook} {s s' : ExpandState} (h : s.used ⊆ s'.used) :
    wb.unusedCount s' ≤ wb.unusedCount s := by
  apply Finset.card_le_card
  intro name hname
  obtain ⟨hmem, hnot⟩ := Finset.mem_filter.mp hname
  exact Finset.mem_filter.mpr ⟨hmem, fun hu ↦ hnot (h hu)⟩

/-- A name that is used for the first time leaves one name less. -/
theorem unusedCount_lt {wb : Workbook} {s : ExpandState} {name : String} (hmem : name ∈ wb.names)
    (hnew : name ∉ s.usedNames) :
    wb.unusedCount { s with usedNames := name :: s.usedNames } < wb.unusedCount s := by
  apply Finset.card_lt_card
  refine Finset.ssubset_iff_of_subset (fun m hm ↦ ?_) |>.mpr ⟨name, ?_, ?_⟩
  · obtain ⟨hmem', hnot⟩ := Finset.mem_filter.mp hm
    exact Finset.mem_filter.mpr ⟨hmem', fun hu ↦ hnot (List.mem_cons_of_mem name hu)⟩
  · exact Finset.mem_filter.mpr ⟨hmem, hnew⟩
  · exact fun hm ↦ (Finset.mem_filter.mp hm).2 List.mem_cons_self

theorem used_cons (s : ExpandState) (name : String) :
    ExpandState.used { s with usedNames := name :: s.usedNames } = insert name s.used := by
  ext m
  exact List.mem_cons

/-- The names used behind a name of the formula exist. -/
theorem AllNamesExist.of_mem {wb : Workbook} {sheet : Int} {tokens : List FormulaToken}
    (h : wb.AllNamesExist sheet tokens) {name : String} {expr : NamedExpression}
    (hmem : .namedExpression name ∈ tokens)
    (hexpr : wb.getNamedExpression sheet name = some expr) : wb.AllNamesExist sheet expr.tokens :=
  fun m hm ↦ h m (.there hmem hexpr hm)

/-- What the expansion of a named expression does: it fails where a name comes twice. -/
theorem wp_expandNamedExpression_some {wb : Workbook} {sheet : Int} {depth : Nat}
    {expr : NamedExpression} (hexist : wb.AllNamesExist sheet expr.tokens) {s : ExpandState}
    (hdepth : wb.unusedCount s < depth) :
    wp (wb.expandNamedExpression sheet depth (some expr))
      (fun _ s' ↦ (∃ mid, wb.FullyExpands sheet expr.tokens mid ∧
          s'.tokens = s.tokens ++ .parenOpen :: (mid ++ [.parenClose])) ∧
        s'.used = s.used ∪ {name | (wb.definitions sheet).Uses expr.tokens name} ∧
        ¬ (wb.definitions sheet).Repeats 1 s.used expr.tokens)
      (fun e _ ↦ e = circularError ∧ (wb.definitions sheet).Repeats 1 s.used expr.tokens) s := by
  induction depth generalizing expr s with
  | zero => exact absurd hdepth (Nat.not_lt_zero _)
  | succ depth ih =>
    rw [expandNamedExpression, wp_bind, pushToken, wp_modify, wp_bind]
    let s₀ : ExpandState := { s with tokens := s.tokens ++ [.parenOpen] }
    refine (wp_forM_expand (s := s₀) (Nat.le_succ 1) hexist
      (fun s s' hsub (h : wb.unusedCount s ≤ depth) ↦ (unusedCount_le hsub).trans h)
      (fun t ht ↦ ?_) (fun name expr' s hmem hexpr hs ↦ ?_) (Nat.le_of_lt_succ hdepth)).mono
        ?_ fun e _ h ↦ h
    · cases t with
      | namedExpression => exact absurd ht (by rintro ⟨⟩)
      | _ => rfl
    · simp only [wp_bind, wp_get]
      split
      case isTrue hused => exact ⟨rfl, .inl ⟨le_refl 1, hused⟩⟩
      case isFalse hnew =>
        rw [wp_bind, useName, wp_modify, hexpr]
        have hlt := (unusedCount_lt (mem_names hexpr) hnew).trans_le hs
        refine (ih (hexist.of_mem hmem hexpr) hlt).mono ?_ ?_
        · rintro _ s' ⟨htokens, hused, hr⟩
          refine ⟨⟨htokens, ?_⟩, fun h ↦ hnew h.2, used_cons s name ▸ hr⟩
          rw [hused, used_cons, Set.insert_union]
        · rintro e _ ⟨he, hr⟩
          exact ⟨he, .inr (used_cons s name ▸ hr)⟩
    · rintro _ s' ⟨h, hr⟩
      rw [pushToken, wp_modify]
      obtain ⟨out, hout, htokens⟩ := h.appended
      refine ⟨⟨out, hout, ?_⟩, h.used, hr⟩
      rw [htokens, List.append_assoc, List.append_assoc, List.singleton_append]

/-- What the expansion of a formula does: it fails where a name inside a named expression
stands at an earlier place too. -/
theorem wp_initTokens_exist {wb : Workbook} {depth : Nat} {cell : FormulaCell} {pos : AbsAddress}
    (hexist : wb.AllNamesExist pos.sheet cell.tokens) (hdepth : wb.names.card < depth) :
    wp (wb.initTokens depth cell pos)
      (fun _ s ↦ wb.FullyExpands pos.sheet cell.tokens s.tokens ∧
        ¬ (wb.definitions pos.sheet).Repeats 2 ∅ cell.tokens)
      (fun e _ ↦ e = circularError ∧ (wb.definitions pos.sheet).Repeats 2 ∅ cell.tokens)
      ⟨[], []⟩ := by
  have hused : ExpandState.used ⟨[], []⟩ = ∅ :=
    Set.eq_empty_of_forall_notMem fun _ ↦ List.not_mem_nil
  refine (wp_forM_expand (le_refl 2) hexist (fun _ _ _ (_ : True) ↦ trivial)
    (fun t ht ↦ ?_) (fun name expr s hmem hexpr _ ↦ ?_) trivial).mono ?_ ?_
  · cases t with
    | namedExpression => exact absurd ht (by rintro ⟨⟩)
    | _ => rfl
  · rw [wp_bind, useName, wp_modify, hexpr]
    have hlt : wb.unusedCount { s with usedNames := name :: s.usedNames } < depth :=
      (Finset.card_filter_le _ _).trans_lt hdepth
    have hno : ¬ (2 ≤ 1 ∧ name ∈ s.used) := fun h ↦ absurd h.1 (Nat.not_succ_le_self 1)
    refine (wp_expandNamedExpression_some (hexist.of_mem hmem hexpr) hlt).mono ?_ ?_
    · rintro _ s' ⟨htokens, hused, hr⟩
      refine ⟨⟨htokens, ?_⟩, hno, used_cons s name ▸ hr⟩
      rw [hused, used_cons, Set.insert_union]
    · rintro e _ ⟨he, hr⟩
      exact ⟨he, .inr (used_cons s name ▸ hr)⟩
  · rintro _ s' ⟨h, hr⟩
    obtain ⟨out, hout, htokens⟩ := h.appended
    exact ⟨htokens ▸ hout, hused ▸ hr⟩
  · rintro e _ ⟨he, hr⟩
    exact ⟨he, hused ▸ hr⟩

/-- The two ways in which an expansion fails: there is no such name, or a name is used again. -/
def ExpansionFails (e : Failure) : Prop :=
  e = .exception (.formulaError .nameNotFound) ∨ e = circularError

/-- Where enough expressions may be nested, the expansion of a named expression fails in these
ways only. -/
theorem wp_expandNamedExpression_fails {wb : Workbook} {sheet : Int} {depth : Nat}
    {expr : Option NamedExpression} {s : ExpandState}
    (hdepth : expr ≠ none → wb.unusedCount s < depth) :
    wp (wb.expandNamedExpression sheet depth expr) (fun _ s' ↦ s.used ⊆ s'.used)
      (fun e _ ↦ ExpansionFails e) s := by
  induction depth generalizing expr s with
  | zero =>
    cases expr with
    | none => exact .inl rfl
    | some expr => exact absurd (hdepth nofun) (Nat.not_lt_zero _)
  | succ depth ih =>
    cases expr with
    | none => exact .inl rfl
    | some expr =>
      rw [expandNamedExpression, wp_bind, pushToken, wp_modify, wp_bind]
      refine (wp_forM (E := fun e _ ↦ ExpansionFails e)
        (I := fun _ s' ↦ s.used ⊆ s'.used) (fun t rest s' hs ↦ ?_) subset_rfl).mono
          (fun _ s' h ↦ h) fun _ _ he ↦ he
      split
      case h_1 name =>
        simp only [wp_bind, wp_get]
        split
        case isTrue => exact .inr rfl
        case isFalse hnew =>
          rw [wp_bind, useName, wp_modify]
          refine (ih fun hsome ↦ ?_).mono (fun _ s'' h ↦ ?_) fun _ _ he ↦ he
          · obtain ⟨expr', hexpr⟩ := Option.ne_none_iff_exists'.mp hsome
            exact (unusedCount_lt (mem_names hexpr) hnew).trans_le
              ((unusedCount_le hs).trans (Nat.le_of_lt_succ (hdepth nofun)))
          · rw [used_cons] at h
            exact hs.trans ((Set.subset_insert _ _).trans h)
      case h_2 => exact hs

/-- Where enough expressions may be nested, the expansion of a formula fails in these ways
only. -/
theorem expansionFails_of_expandedTokens {wb : Workbook} {depth : Nat} {cell : FormulaCell}
    {pos : AbsAddress} (hdepth : wb.names.card < depth) {e : Failure}
    (h : wb.expandedTokens depth cell pos = .error e) : ExpansionFails e := by
  have hwp : wp (wb.initTokens depth cell pos) (fun _ _ ↦ True)
      (fun e _ ↦ ExpansionFails e) ⟨[], []⟩ := by
    refine (wp_forM (E := fun e _ ↦ ExpansionFails e) (I := fun _ _ ↦ True)
      (fun t rest s _ ↦ ?_) trivial).mono (fun _ _ _ ↦ trivial) fun _ _ he ↦ he
    split
    case h_1 name =>
      rw [wp_bind, useName, wp_modify]
      refine (wp_expandNamedExpression_fails fun _ ↦ ?_).mono (fun _ _ _ ↦ trivial)
        fun _ _ he ↦ he
      exact (Finset.card_filter_le _ _).trans_lt hdepth
    case h_2 => trivial
  rw [expandedTokens] at h
  cases hx : wb.initTokens depth cell pos ⟨[], []⟩ with
  | ok u s => rw [hx] at h; exact absurd h (by rintro ⟨⟩)
  | error e' s =>
    rw [hx] at h
    cases h
    exact hwp.of_error hx

/-! ## When a circular reference is reported -/

/-- The expansion of a formula comes to an end, reports a circular reference exactly where
there is one, and otherwise replaces every name by its tokens in parentheses. -/
structure ExpandsFaithfully (wb : Workbook) (cell : FormulaCell) (pos : AbsAddress)
    (res : Except Failure (List FormulaToken)) : Prop where
  terminates : res ≠ .error .stackOverflow
  circular : res = .error circularError ↔ wb.CircularNames pos.sheet cell.tokens
  expanded : ¬ wb.CircularNames pos.sheet cell.tokens →
    ∃ out, wb.FullyExpands pos.sheet cell.tokens out ∧ res = .ok out

/-- A name inside a named expression stands at an earlier place too: in the formula, or
inside a named expression. -/
def UsesTwice (wb : Workbook) (sheet : Int) (tokens : List FormulaToken) : Prop :=
  ∃ p q name, p < q ∧ 2 ≤ q.length ∧ (wb.definitions sheet).nameAt tokens p = some name ∧
    (wb.definitions sheet).nameAt tokens q = some name

theorem repeats_empty_iff {wb : Workbook} {sheet : Int} {tokens : List FormulaToken} :
    (wb.definitions sheet).Repeats 2 ∅ tokens ↔ wb.UsesTwice sheet tokens := by
  constructor
  · rintro ⟨q, name, hk, hq, h⟩
    obtain ⟨p, hlt, hp⟩ := h.resolve_left (Set.notMem_empty name)
    exact ⟨p, q, name, hlt, hk, hp, hq⟩
  · rintro ⟨p, q, name, hlt, hk, hp, hq⟩
    exact ⟨q, name, hk, hq, .inr ⟨p, hlt, hp⟩⟩

/-- Where all names exist, the expansion of a formula is what it should be exactly when
there is a circular reference or no name inside a named expression stands at an earlier
place. -/
theorem expandsFaithfully_iff {wb : Workbook} {cell : FormulaCell} {pos : AbsAddress}
    (hexist : wb.AllNamesExist pos.sheet cell.tokens) :
    (∃ depth₀, ∀ depth ≥ depth₀, wb.ExpandsFaithfully cell pos (wb.expandedTokens depth cell pos)) ↔
      wb.CircularNames pos.sheet cell.tokens ∨ ¬ wb.UsesTwice pos.sheet cell.tokens := by
  have hspec {depth : Nat} (hdepth : wb.names.card < depth) :
      (∃ out, wb.expandedTokens depth cell pos = .ok out ∧
        wb.FullyExpands pos.sheet cell.tokens out ∧ ¬ wb.UsesTwice pos.sheet cell.tokens) ∨
      (wb.expandedTokens depth cell pos = .error circularError ∧
        wb.UsesTwice pos.sheet cell.tokens) := by
    have h := wp_initTokens_exist hexist hdepth
    rw [wp] at h
    rw [expandedTokens]
    cases hx : wb.initTokens depth cell pos ⟨[], []⟩ with
    | ok u s =>
      rw [hx] at h
      exact .inl ⟨s.tokens, rfl, h.1, repeats_empty_iff.not.mp h.2⟩
    | error e s =>
      rw [hx] at h
      exact .inr ⟨congrArg _ h.1, repeats_empty_iff.mp h.2⟩
  constructor
  · rintro ⟨depth₀, h⟩
    have hlt : wb.names.card < max depth₀ (wb.names.card + 1) :=
      (Nat.lt_succ_self _).trans_le (Nat.le_max_right ..)
    by_cases hcirc : wb.CircularNames pos.sheet cell.tokens
    · exact .inl hcirc
    · obtain ⟨out, _, hok⟩ := (h _ (Nat.le_max_left ..)).expanded hcirc
      rcases hspec hlt with ⟨_, _, _, hno⟩ | ⟨herr, _⟩
      · exact .inr hno
      · exact absurd (hok.symm.trans herr) (by rintro ⟨⟩)
  · intro hcond
    refine ⟨wb.names.card + 1, fun depth hdepth ↦ ?_⟩
    rcases hspec hdepth with ⟨out, hok, hout, _⟩ | ⟨herr, htwice⟩
    · -- what is expanded has no circular reference
      have hno : ¬ wb.CircularNames pos.sheet cell.tokens := fun h ↦
        hout.not_circular (circular_iff.mpr h)
      rw [hok]
      exact ⟨(by rintro ⟨⟩), ⟨(by rintro ⟨⟩), fun h ↦ absurd h hno⟩, fun _ ↦ ⟨out, hout, rfl⟩⟩
    · have hcirc := hcond.resolve_right fun h ↦ h htwice
      rw [herr]
      exact ⟨(by rintro ⟨⟩), ⟨fun _ ↦ hcirc, fun _ ↦ rfl⟩, fun h ↦ absurd hcirc h⟩

/-! ### A name that is used twice -/

/-- A cell that consists of the name `twice`. -/
def twiceCell : FormulaCell := ⟨[.namedExpression "twice"], -1, -1, 0⟩

/-- A workbook in which `twice` stands for `one+one`, and `one` for `1`. -/
def twiceWorkbook : Workbook where
  sheetSize := ⟨1048576, 16384⟩
  sheets := [⟨"Sheet1", []⟩]
  namedExpressions :=
    [("twice", ⟨⟨0, 0, 0⟩, [.namedExpression "one", .plus, .namedExpression "one"]⟩),
      ("one", ⟨⟨0, 0, 0⟩, [.value 1]⟩)]
  cells addr := if addr = ⟨0, 0, 0⟩ then .formula twiceCell else .empty
  strPool := .new
  tableHandler := none

/-- What `twice` stands for. -/
theorem fullyExpands_twice : twiceWorkbook.FullyExpands 0 twiceCell.tokens
    [.parenOpen, .parenOpen, .value 1, .parenClose, .plus, .parenOpen, .value 1, .parenClose,
      .parenClose] := by
  have hone : twiceWorkbook.FullyExpands 0 [.value 1] [.value 1] := .token rfl .nil
  exact .name rfl rfl (.name rfl rfl hone (.token rfl (.name rfl rfl hone .nil))) .nil

theorem allNamesExist_twice : twiceWorkbook.AllNamesExist 0 twiceCell.tokens :=
  fullyExpands_twice.allNamesExist

/-- The name is not circular, but its expansion reports that it is. -/
theorem not_expandsFaithfully_twice :
    twiceWorkbook.AllNamesExist 0 twiceCell.tokens ∧
      ¬ twiceWorkbook.CircularNames 0 twiceCell.tokens ∧
      ¬ ∃ depth₀, ∀ depth ≥ depth₀, twiceWorkbook.ExpandsFaithfully twiceCell ⟨0, 0, 0⟩
        (twiceWorkbook.expandedTokens depth twiceCell ⟨0, 0, 0⟩) := by
  have hno : ¬ twiceWorkbook.CircularNames 0 twiceCell.tokens := fun h ↦
    fullyExpands_twice.not_circular (circular_iff.mpr h)
  refine ⟨allNamesExist_twice, hno, fun ⟨depth₀, h⟩ ↦ ?_⟩
  have herr : twiceWorkbook.expandedTokens (depth₀ + 2) twiceCell ⟨0, 0, 0⟩ =
      .error circularError := rfl
  exact hno ((h (depth₀ + 2) (Nat.le_add_right ..)).circular.mp herr)

theorem expandsFaithfully_iff_twice :
    (∃ depth₀, ∀ depth ≥ depth₀, twiceWorkbook.ExpandsFaithfully twiceCell ⟨0, 0, 0⟩
        (twiceWorkbook.expandedTokens depth twiceCell ⟨0, 0, 0⟩)) ↔
      twiceWorkbook.CircularNames 0 twiceCell.tokens ∨
        ¬ twiceWorkbook.UsesTwice 0 twiceCell.tokens :=
  @expandsFaithfully_iff twiceWorkbook twiceCell ⟨0, 0, 0⟩ allNamesExist_twice

/-! ## When the references of a formula are collected -/

theorem getRefs_zero {wb : Workbook} {sheet : Int} {name : String} {expr : NamedExpression}
    (hexpr : wb.getNamedExpression sheet name = some expr) :
    wb.getRefs sheet 0 (.namedExpression name) = .error .stackOverflow := by
  unfold getRefs
  simp only [hexpr]

theorem getRefs_succ {wb : Workbook} {sheet : Int} (depth : Nat) {name : String}
    {expr : NamedExpression} (hexpr : wb.getNamedExpression sheet name = some expr) :
    wb.getRefs sheet (depth + 1) (.namedExpression name) =
      collectM (wb.getRefs sheet depth) expr.tokens := by
  unfold getRefs
  simp only [hexpr]

/-- A token that is no name, or a name that does not exist, needs no recursion. -/
theorem exists_getRefs_of_body_eq_none {wb : Workbook} {sheet : Int} {t : FormulaToken}
    (ht : (wb.definitions sheet).name? t = none ∨
      ∃ name, t = .namedExpression name ∧ wb.getNamedExpression sheet name = none) :
    ∃ bs, ∀ depth, wb.getRefs sheet depth t = .ok bs := by
  rcases ht with ht | ⟨name, rfl, hnone⟩
  · cases t with
    | namedExpression => exact absurd ht nofun
    | singleRef addr => exact ⟨[.singleRef addr], fun _ ↦ by unfold getRefs; rfl⟩
    | rangeRef range => exact ⟨[.rangeRef range], fun _ ↦ by unfold getRefs; rfl⟩
    | _ => exact ⟨[], fun _ ↦ by unfold getRefs; rfl⟩
  · exact ⟨[], fun _ ↦ by unfold getRefs; simp only [hnone]⟩

/-- Where there is no circular reference the collection comes to an end. -/
theorem exists_getRefTokens_of_not_circular {wb : Workbook} {sheet : Int}
    {tokens : List FormulaToken} (h : ¬ wb.CircularNames sheet tokens) :
    ∃ d refs, ∀ depth ≥ d, collectM (wb.getRefs sheet depth) tokens = .ok refs := by
  refine Definitions.induction_of_not_circular
    (P := fun l ↦ ∃ d refs, ∀ depth ≥ d, collectM (wb.getRefs sheet depth) l = .ok refs)
    wb.names.finite_toSet (fun _ _ hb ↦ mem_names_of_body hb) (fun l ih ↦ ?_)
    (circular_iff.not.mpr h)
  refine exists_collectM_of_forall fun t ht ↦ ?_
  cases hn : (wb.definitions sheet).name? t with
  | none =>
    obtain ⟨bs, hbs⟩ := exists_getRefs_of_body_eq_none (.inl hn)
    exact ⟨0, bs, fun depth _ ↦ hbs depth⟩
  | some name =>
    obtain rfl := name?_eq_some_iff.mp hn
    cases hexpr : wb.getNamedExpression sheet name with
    | none =>
      obtain ⟨bs, hbs⟩ := exists_getRefs_of_body_eq_none (.inr ⟨name, rfl, hexpr⟩)
      exact ⟨0, bs, fun depth _ ↦ hbs depth⟩
    | some expr =>
      obtain ⟨d, refs, hrefs⟩ := ih _ ht name _ hn (body_eq_some_iff.mpr ⟨expr, hexpr, rfl⟩)
      refine ⟨d + 1, refs, fun depth hdepth ↦ ?_⟩
      obtain ⟨depth, rfl⟩ := Nat.exists_eq_add_of_le' hdepth
      rw [← Nat.add_assoc, getRefs_succ _ hexpr]
      exact hrefs _ (Nat.le_add_left d depth)

/-- Each name on the way takes one level of the recursion. -/
theorem exists_getRefs_of_occurs {wb : Workbook} {sheet : Int} {depth : Nat}
    {tokens refs : List FormulaToken} (hrefs : collectM (wb.getRefs sheet depth) tokens = .ok refs)
    {name : String} {expr : NamedExpression}
    (hmem : Occurs wb sheet tokens (.namedExpression name))
    (hexpr : wb.getNamedExpression sheet name = some expr) :
    ∃ depth' < depth, ∃ refs', collectM (wb.getRefs sheet depth') expr.tokens = .ok refs' := by
  have hstep {tokens refs : List FormulaToken} {depth : Nat} {name : String}
      {expr : NamedExpression} (hrefs : collectM (wb.getRefs sheet depth) tokens = .ok refs)
      (hmem : .namedExpression name ∈ tokens)
      (hexpr : wb.getNamedExpression sheet name = some expr) :
      ∃ depth' < depth, ∃ refs', collectM (wb.getRefs sheet depth') expr.tokens = .ok refs' := by
    obtain ⟨bs, hbs⟩ := exists_ok_of_collectM hrefs hmem
    cases depth with
    | zero => rw [getRefs_zero hexpr] at hbs; exact absurd hbs nofun
    | succ depth => exact ⟨depth, Nat.lt_succ_self depth, bs, getRefs_succ depth hexpr ▸ hbs⟩
  generalize ht : FormulaToken.namedExpression name = t at hmem
  induction hmem generalizing depth refs with
  | here hmem => exact hstep hrefs (ht ▸ hmem) hexpr
  | there hmem hexpr' _ ih =>
    obtain ⟨d, hd, refs', hrefs'⟩ := hstep hrefs hmem hexpr'
    obtain ⟨d', hd', h⟩ := ih hrefs' ht
    exact ⟨d', hd'.trans hd, h⟩

/-- Where there is a circular reference the collection comes to no end. -/
theorem not_circular_of_getRefTokens {wb : Workbook} {sheet : Int} {depth : Nat}
    {tokens refs : List FormulaToken}
    (hrefs : collectM (wb.getRefs sheet depth) tokens = .ok refs) :
    ¬ wb.CircularNames sheet tokens := by
  rintro ⟨name, expr, hmem, hexpr, hself⟩
  obtain ⟨d, hd, refs', hrefs'⟩ := exists_getRefs_of_occurs hrefs hmem hexpr
  clear hd
  induction d using Nat.strongRecOn generalizing refs' with
  | ind d ih =>
    obtain ⟨d', hd', refs'', hrefs''⟩ := exists_getRefs_of_occurs hrefs' hself hexpr
    exact ih d' hd' refs'' hrefs''

end Workbook

namespace ModelContext

open Workbook

variable {S T : Type} [UnorderedSet S AbsRange] [RTree T S]

theorem wp_liftExcept_ne_stackOverflow {σ α : Type} (x : Except Exn α) (s : σ) :
    wp (liftExcept x : Exec σ α) (fun _ _ ↦ True) (fun e _ ↦ e ≠ .stackOverflow) s := by
  cases x with
  | ok a => trivial
  | error e => exact nofun

omit [UnorderedSet S AbsRange] [RTree T S] in
theorem wp_checkSheetOrThrow_ne_stackOverflow (func : String) (sheet : Int) (pos : AbsAddress)
    (cxt : ModelContext S T) : wp (checkSheetOrThrow func sheet pos) (fun _ _ ↦ True)
      (fun e _ ↦ e ≠ .stackOverflow) cxt := by
  rw [checkSheetOrThrow]
  split
  · trivial
  · rintro ⟨⟩

omit [UnorderedSet S AbsRange] [RTree T S] in
theorem wp_modifyTracker_ne_stackOverflow
    (f : DirtyCellTracker S T → Except Exn (DirtyCellTracker S T)) (cxt : ModelContext S T) :
    wp (modifyTracker f) (fun _ _ ↦ True) (fun e _ ↦ e ≠ .stackOverflow) cxt := by
  rw [modifyTracker, wp_bind, wp_get, wp_bind]
  exact (wp_liftExcept_ne_stackOverflow _ cxt).mono (fun _ _ _ ↦ trivial) fun _ _ he ↦ he

/-- Tracking one reference needs no recursion. -/
theorem wp_registerRef_ne_stackOverflow (src : AbsRange) (pos : AbsAddress) (t : FormulaToken)
    (cxt : ModelContext S T) : wp (registerRef src pos t) (fun _ _ ↦ True)
      (fun e _ ↦ e ≠ .stackOverflow) cxt := by
  unfold registerRef
  split
  iterate 2
    rw [wp_bind]
    refine (wp_checkSheetOrThrow_ne_stackOverflow ..).mono (fun _ cxt _ ↦ ?_) fun _ _ he ↦ he
    rw [wp_bind, wp_get]
    exact wp_modifyTracker_ne_stackOverflow ..
  · trivial

/-- Nor does giving it up. -/
theorem wp_unregisterRef_ne_stackOverflow (pos : AbsAddress) (t : FormulaToken)
    (cxt : ModelContext S T) : wp (unregisterRef pos t) (fun _ _ ↦ True)
      (fun e _ ↦ e ≠ .stackOverflow) cxt := by
  unfold unregisterRef
  split
  iterate 2
    rw [wp_bind]
    exact (wp_checkSheetOrThrow_ne_stackOverflow ..).mono
      (fun _ cxt _ ↦ wp_modifyTracker_ne_stackOverflow ..) fun _ _ he ↦ he
  · trivial

/-- Registering and unregistering a cell come to an end, and the references that they go
through are those that occur in the formula. -/
structure CollectsReferences (cxt : ModelContext S T) (cell : FormulaCell) (pos : AbsAddress)
    (depth : Nat) : Prop where
  collected : ∃ refs, cxt.getRefTokens depth cell pos = .ok refs ∧
    ∀ t, t ∈ refs ↔ IsRef t ∧ Occurs cxt.toWorkbook pos.sheet cell.tokens t
  registers : ∀ cxt', registerFormulaCell depth pos (some cell) cxt ≠ .error .stackOverflow cxt'
  unregisters : cxt.getFormulaCell pos = .ok (some cell) →
    ∀ cxt', unregisterFormulaCell depth pos cxt ≠ .error .stackOverflow cxt'

theorem collectsReferences_of_eq_ok {cxt : ModelContext S T} {cell : FormulaCell}
    {pos : AbsAddress} {depth : Nat} {refs : List FormulaToken}
    (hrefs : cxt.getRefTokens depth cell pos = .ok refs) :
    cxt.CollectsReferences cell pos depth where
  collected := by
    refine ⟨refs, hrefs, fun t ↦ ⟨fun ht ↦ ?_, fun ⟨href, hoccurs⟩ ↦ ?_⟩⟩
    · exact ⟨isRef_of_mem_getRefTokens hrefs ht, occurs_of_mem hrefs ht⟩
    · exact mem_of_occurs hoccurs hrefs href
  registers := by
    intro cxt' herr
    have h : wp (registerFormulaCell depth pos (some cell)) (fun _ _ ↦ True)
        (fun e _ ↦ e ≠ .stackOverflow) cxt := by
      rw [registerFormulaCell, wp_bind, wp_get]
      change wp (liftFailure (cxt.getRefTokens depth cell pos) >>= fun refTokens ↦ _) _ _ cxt
      rw [hrefs, wp_bind]
      change wp (refs.forM _ >>= fun _ ↦ _) _ _ cxt
      rw [wp_bind]
      refine (wp_forM (I := fun _ _ ↦ True) (fun t _ cxt _ ↦
        wp_registerRef_ne_stackOverflow _ _ t cxt) trivial).mono (fun _ cxt _ ↦ ?_) fun _ _ he ↦ he
      split <;> trivial
    exact h.of_error herr rfl
  unregisters := by
    intro hcell cxt' herr
    have h : wp (unregisterFormulaCell depth pos) (fun _ _ ↦ True)
        (fun e _ ↦ e ≠ .stackOverflow) cxt := by
      rw [unregisterFormulaCell, wp_bind, wp_get, hcell]
      change wp (liftFailure (cxt.getRefTokens depth cell pos) >>= fun refTokens ↦ _) _ _
        (cxt.withTracker _)
      rw [hrefs]
      exact wp_forM (I := fun _ _ ↦ True) (fun t _ cxt _ ↦
        wp_unregisterRef_ne_stackOverflow _ t cxt) trivial
    exact h.of_error herr rfl

/-- Given enough stack, the references of a formula are collected exactly when no name that
the formula uses refers to itself. -/
theorem collectsReferences_iff (cxt : ModelContext S T) (cell : FormulaCell) (pos : AbsAddress) :
    (∃ depth₀, ∀ depth ≥ depth₀, cxt.CollectsReferences cell pos depth) ↔
      ¬ cxt.CircularNames pos.sheet cell.tokens := by
  constructor
  · rintro ⟨depth₀, h⟩
    obtain ⟨refs, hrefs, _⟩ := (h depth₀ (Nat.le_refl depth₀)).collected
    exact not_circular_of_getRefTokens hrefs
  · intro h
    obtain ⟨depth₀, refs, hrefs⟩ := exists_getRefTokens_of_not_circular h
    exact ⟨depth₀, fun depth hdepth ↦ collectsReferences_of_eq_ok (hrefs depth hdepth)⟩

/-! ### A name that refers to itself -/

/-- A cell that consists of the name `loop`. -/
def loopCell : FormulaCell := ⟨[.namedExpression "loop"], -1, -1, 0⟩

/-- A context with this cell, in which `loop` stands for itself. -/
def loopContext : ModelContext Ranges (ListTree Ranges) :=
  { ModelContext.new ⟨1048576, 16384⟩ with
    sheets := [⟨"Sheet1", []⟩]
    namedExpressions := [("loop", ⟨⟨0, 0, 0⟩, [.namedExpression "loop"]⟩)]
    cells := fun addr ↦ if addr = ⟨0, 0, 0⟩ then .formula loopCell else .empty
    statusCount := 1 }

/-- Its references are never collected, whatever the size of the stack. -/
theorem not_collectsReferences_loop :
    (∀ depth, loopContext.getRefTokens depth loopCell ⟨0, 0, 0⟩ = .error .stackOverflow) ∧
      ¬ ∃ depth₀, ∀ depth ≥ depth₀, loopContext.CollectsReferences loopCell ⟨0, 0, 0⟩ depth := by
  have hover (depth : Nat) :
      loopContext.getRefTokens depth loopCell ⟨0, 0, 0⟩ = .error .stackOverflow := by
    have hexpr : loopContext.getNamedExpression 0 "loop" =
        some ⟨⟨0, 0, 0⟩, [.namedExpression "loop"]⟩ := rfl
    have hname : loopContext.getRefs 0 depth (.namedExpression "loop") = .error .stackOverflow := by
      induction depth with
      | zero => exact getRefs_zero hexpr
      | succ depth ih => rw [getRefs_succ depth hexpr, collectM, ih]
    rw [getRefTokens, loopCell, collectM, hname]
  refine ⟨hover, ?_⟩
  rintro ⟨depth₀, h⟩
  obtain ⟨refs, hrefs, _⟩ := (h depth₀ (Nat.le_refl depth₀)).collected
  exact absurd ((hover depth₀).symm.trans hrefs) (by rintro ⟨⟩)

end ModelContext

end Ixion
