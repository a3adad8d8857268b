import Ixion.Context

/-!
# Defining named expressions

A named expression is defined for a sheet or for all of them.  The store of a scope keeps the first
definition of a name (`lookup_insertNew`), so that what is found after any number of definitions is
the first one in each scope (`getNamedExpression_setNamedExpressions`).  This is the latest one as
long as no name gets a different definition in a scope (`findsLatest_iff`).
-/

namespace Ixion

/-- A character that a name may have. -/
def isNameCharacter (c : Char) : Bool := c.isLower || c.isUpper || c.isDigit || c = '_' || c = '.'

/-- Check the name of a named expression. -/
def checkNamedExpName (name : String) : Except Exn Unit :=
  match name.toList with
  | [] => throw (.modelContextError "empty name is not allowed")
  | c :: cs =>
    if c.isDigit then throw (.modelContextError "name cannot start with a numeric character")
    else if c = '.' then throw (.modelContextError "name cannot start with a dot")
    else
      match (c :: cs).find? fun c ↦ !isNameCharacter c with
      | some c => throw (.modelContextError s!"name contains invalid character '{c}'")
      | none => return ()

/-- Insert a named expression, unless there is one with its name. -/
def NamedExpressions.insertNew (ns : NamedExpressions) (name : String) (expr : NamedExpression) :
    NamedExpressions :=
  if (ns.lookup name).isSome then ns else ns ++ [(name, expr)]

/-- A definition of a name, for a sheet or for all of them. -/
structure NameDefinition where
  sheet : Option Int
  name : String
  expr : NamedExpression
deriving DecidableEq

namespace Workbook

/-- The sheet with an index, if it exists. -/
def fetchSheet (wb : Workbook) (sheet : Int) : Option Sheet :=
  if 0 ≤ sheet then wb.sheets[sheet.toNat]? else none

/-- Define a name. -/
def setNamedExpression (wb : Workbook) (d : NameDefinition) : Except Exn Workbook := do
  checkNamedExpName d.name
  match d.sheet with
  | none => return { wb with namedExpressions := wb.namedExpressions.insertNew d.name d.expr }
  | some sheet =>
    match wb.fetchSheet sheet with
    | some ws =>
      let ws := { ws with namedExpressions := ws.namedExpressions.insertNew d.name d.expr }
      return { wb with sheets := wb.sheets.set sheet.toNat ws }
    | none => throw .outOfRange

/-- Define names, one after the other. -/
def setNamedExpressions (wb : Workbook) (ds : List NameDefinition) : Except Exn Workbook :=
  ds.foldlM setNamedExpression wb

/-- The named expressions of a scope. -/
def scopeExpressions (wb : Workbook) (sheet : Option Int) : NamedExpressions :=
  match sheet with
  | none => wb.namedExpressions
  | some sheet => ((wb.fetchSheet sheet).map Sheet.namedExpressions).getD []

/-- A scope is that of an existing sheet or of all of them. -/
def HasScope (wb : Workbook) (sheet : Option Int) : Prop :=
  ∀ i ∈ sheet, 0 ≤ i ∧ i < wb.sheets.length

theorem getNamedExpression_eq (wb : Workbook) (sheet : Int) (name : String) :
    wb.getNamedExpression sheet name =
      ((wb.scopeExpressions (some sheet)).lookup name).or
        ((wb.scopeExpressions none).lookup name) := by
  show (match wb.fetchSheet sheet with
    | some ws => _
    | none => _) = _
  rw [scopeExpressions, scopeExpressions]
  cases wb.fetchSheet sheet <;> rfl

theorem fetchSheet_set (wb : Workbook) {i : Int} (hpos : 0 ≤ i) (hlt : i < wb.sheets.length)
    (ws : Sheet) (j : Int) :
    ({ wb with sheets := wb.sheets.set i.toNat ws } : Workbook).fetchSheet j =
      if i = j then some ws else wb.fetchSheet j := by
  rw [fetchSheet, fetchSheet]
  split
  case isTrue hj =>
    rw [List.getElem?_set]
    by_cases hij : i = j
    · rw [if_pos (congrArg Int.toNat hij), if_pos (by omega), if_pos hij]
    · rw [if_neg (by omega), if_neg hij]
  case isFalse hj => rw [if_neg (by omega)]

/-! ## One definition -/

/-- A store keeps the definition that it has. -/
theorem lookup_insertNew (ns : NamedExpressions) (name name' : String) (expr : NamedExpression) :
    (ns.insertNew name expr).lookup name' =
      (ns.lookup name').or (if name = name' then some expr else none) := by
  rw [NamedExpressions.insertNew]
  split
  case isTrue h =>
    obtain ⟨expr', hexpr'⟩ := Option.isSome_iff_exists.mp h
    split
    case isTrue heq => rw [← heq, hexpr', Option.some_or]
    case isFalse => rw [Option.or_none]
  case isFalse =>
    rw [List.lookup_append]
    by_cases heq : name = name'
    · rw [if_pos heq, heq, List.lookup_cons_self]
    · rw [if_neg heq, List.lookup_cons, beq_false_of_ne (Ne.symm heq), List.lookup_nil]

variable {wb wb' : Workbook} {d : NameDefinition} {ds : List NameDefinition}

/-- A definition is added to its scope, and the others stay as they are. -/
theorem exists_setNamedExpression (hname : checkNamedExpName d.name = .ok ())
    (hscope : wb.HasScope d.sheet) :
    ∃ wb', wb.setNamedExpression d = .ok wb' ∧ wb'.sheets.length = wb.sheets.length ∧
      ∀ sheet, wb'.scopeExpressions sheet =
        if d.sheet = sheet then (wb.scopeExpressions sheet).insertNew d.name d.expr
        else wb.scopeExpressions sheet := by
  obtain ⟨sheet, name, expr⟩ := d
  rw [setNamedExpression, hname]
  cases sheet with
  | none =>
    refine ⟨_, rfl, rfl, fun sheet ↦ ?_⟩
    cases sheet <;> rfl
  | some i =>
    obtain ⟨hpos, hlt⟩ := hscope i rfl
    obtain ⟨ws, hws⟩ : ∃ ws, wb.fetchSheet i = some ws :=
      ⟨_, (if_pos hpos).trans (List.getElem?_eq_getElem (by omega))⟩
    let ws' : Sheet := { ws with namedExpressions := ws.namedExpressions.insertNew name expr }
    refine ⟨{ wb with sheets := wb.sheets.set i.toNat ws' }, ?_, List.length_set, fun sheet ↦ ?_⟩
    · show (match wb.fetchSheet i with
        | some ws => _
        | none => _) = _
      rw [hws]
      rfl
    cases sheet with
    | none => rfl
    | some j =>
      rw [scopeExpressions, scopeExpressions, fetchSheet_set wb hpos hlt]
      by_cases hij : i = j
      · rw [if_pos hij, if_pos (congrArg some hij), ← hij, hws]
        rfl
      · rw [if_neg hij, if_neg fun heq ↦ hij (Option.some.inj heq)]

theorem lookup_setNamedExpression (h : ∀ sheet, wb'.scopeExpressions sheet =
      if d.sheet = sheet then (wb.scopeExpressions sheet).insertNew d.name d.expr
      else wb.scopeExpressions sheet) (sheet : Option Int) (name : String) :
    (wb'.scopeExpressions sheet).lookup name =
      ((wb.scopeExpressions sheet).lookup name).or
        (if d.sheet = sheet ∧ d.name = name then some d.expr else none) := by
  rw [h sheet]
  by_cases hsheet : d.sheet = sheet
  · rw [if_pos hsheet, lookup_insertNew]
    simp only [hsheet, true_and]
  · rw [if_neg hsheet, if_neg fun hno ↦ hsheet hno.1, Option.or_none]

/-! ## Runs -/

/-- The first definition of a name in a scope. -/
def firstDefinition (ds : List NameDefinition) (sheet : Option Int) (name : String) :
    Option NamedExpression :=
  (ds.find? fun d ↦ d.sheet = sheet ∧ d.name = name).map NameDefinition.expr

/-- The latest definition of a name in a scope. -/
def latestDefinition (ds : List NameDefinition) (sheet : Option Int) (name : String) :
    Option NamedExpression :=
  firstDefinition ds.reverse sheet name

/-- The definitions are valid: their names are, and their scopes exist. -/
def Defines (wb : Workbook) (ds : List NameDefinition) : Prop :=
  ∀ d ∈ ds, checkNamedExpName d.name = .ok () ∧ wb.HasScope d.sheet

/-- After valid definitions each scope has those it had and the first one of every other name. -/
theorem exists_setNamedExpressions (h : wb.Defines ds) :
    ∃ wb', wb.setNamedExpressions ds = .ok wb' ∧ ∀ sheet name,
      (wb'.scopeExpressions sheet).lookup name =
        ((wb.scopeExpressions sheet).lookup name).or (firstDefinition ds sheet name) := by
  induction ds generalizing wb with
  | nil => exact ⟨wb, rfl, fun sheet name ↦ (Option.or_none).symm⟩
  | cons d ds ih =>
    obtain ⟨hname, hscope⟩ := h d List.mem_cons_self
    obtain ⟨wb₁, hset, hlength, hscopes⟩ := exists_setNamedExpression hname hscope
    have hdefines : wb₁.Defines ds := by
      intro d' hd'
      obtain ⟨hname', hscope'⟩ := h d' (List.mem_cons_of_mem d hd')
      refine ⟨hname', fun i hi ↦ ?_⟩
      rw [hlength]
      exact hscope' i hi
    obtain ⟨wb', hsets, hlookup⟩ := ih hdefines
    refine ⟨wb', ?_, fun sheet name ↦ ?_⟩
    · rw [setNamedExpressions, List.foldlM_cons, hset]
      exact hsets
    · rw [hlookup, lookup_setNamedExpression hscopes, Option.or_assoc, firstDefinition,
        firstDefinition, List.find?_cons]
      by_cases hd : d.sheet = sheet ∧ d.name = name
      · rw [if_pos hd, decide_eq_true hd]
        rfl
      · rw [if_neg hd, decide_eq_false hd, Option.none_or]

/-- What is found under a name is its latest definition for the sheet, or else its latest definition
for all sheets. -/
def FindsLatest (wb : Workbook) (ds : List NameDefinition) : Prop :=
  ∃ wb', wb.setNamedExpressions ds = .ok wb' ∧ ∀ sheet name,
    wb'.getNamedExpression sheet name =
      (latestDefinition ds (some sheet) name).or (latestDefinition ds none name)

/-- A name has a first definition if and only if it has a latest one. -/
theorem firstDefinition_eq_none_iff {sheet : Option Int} {name : String} :
    firstDefinition ds sheet name = none ↔ latestDefinition ds sheet name = none := by
  rw [latestDefinition, firstDefinition, firstDefinition, Option.map_eq_none_iff,
    Option.map_eq_none_iff, List.find?_eq_none, List.find?_eq_none]
  exact forall_congr' fun d ↦ by rw [List.mem_reverse]

/-- In a workbook without named expressions the latest definitions are found if and only if they are
the first ones. -/
theorem findsLatest_iff (hempty : ∀ sheet, wb.scopeExpressions sheet = []) (h : wb.Defines ds) :
    wb.FindsLatest ds ↔ ∀ sheet name,
      firstDefinition ds sheet name = latestDefinition ds sheet name := by
  obtain ⟨wb', hset, hlookup⟩ := exists_setNamedExpressions h
  have hfound (sheet : Int) (name : String) : wb'.getNamedExpression sheet name =
      (firstDefinition ds (some sheet) name).or (firstDefinition ds none name) := by
    rw [getNamedExpression_eq, hlookup, hlookup, hempty, hempty]
    rfl
  constructor
  · rintro ⟨wb'', hset', hlatest⟩ sheet name
    cases hset.symm.trans hset'
    cases sheet with
    | none =>
      -- a sheet that does not exist has the names of all sheets
      have hnone : firstDefinition ds (some (-1)) name = none := by
        rw [firstDefinition, Option.map_eq_none_iff, List.find?_eq_none]
        intro d hd heq
        exact absurd ((h d hd).2 (-1) (of_decide_eq_true heq).1).1 (by decide)
      have hlatest := hlatest (-1) name
      rwa [hfound, hnone, firstDefinition_eq_none_iff.mp hnone, Option.none_or,
        Option.none_or] at hlatest
    | some i =>
      have hlatest := hlatest i name
      rw [hfound] at hlatest
      cases hfirst : firstDefinition ds (some i) name with
      | none => exact (firstDefinition_eq_none_iff.mp hfirst).symm
      | some expr =>
        cases hlast : latestDefinition ds (some i) name with
        | none => exact nomatch hfirst.symm.trans (firstDefinition_eq_none_iff.mpr hlast)
        | some expr' =>
          rwa [hfirst, hlast, Option.some_or, Option.some_or] at hlatest
  · intro heq
    refine ⟨wb', hset, fun sheet name ↦ ?_⟩
    rw [hfound, heq, heq]

/-! ## A redefinition -/

/-- A workbook with a sheet and without names. -/
def unnamedWorkbook : Workbook := ⟨⟨1, 1⟩, [⟨"Sheet", []⟩], [], fun _ ↦ .empty, .new, none⟩

/-- A name that is defined for all sheets and for one of them. -/
def shadowedName : List NameDefinition :=
  [⟨none, "a", ⟨⟨0, 0, 0⟩, [.value 1]⟩⟩, ⟨some 0, "a", ⟨⟨0, 0, 0⟩, [.value 2]⟩⟩]

theorem defines_shadowedName : unnamedWorkbook.Defines shadowedName := by
  rintro d (_ | ⟨_, _ | ⟨_, ⟨⟩⟩⟩)
  · exact ⟨by decide, nofun⟩
  · refine ⟨by decide, ?_⟩
    rintro i ⟨⟩
    exact ⟨by decide, by decide⟩

theorem scopeExpressions_unnamedWorkbook (sheet : Option Int) :
    unnamedWorkbook.scopeExpressions sheet = [] := by
  cases sheet with
  | none => rfl
  | some i =>
    rw [scopeExpressions, fetchSheet]
    split
    case isTrue =>
      cases i.toNat with
      | zero => rfl
      | succ n => rfl
    case isFalse => rfl

theorem findsLatest_shadowed : unnamedWorkbook.FindsLatest shadowedName := by
  refine (findsLatest_iff scopeExpressions_unnamedWorkbook defines_shadowedName).mpr
    fun sheet name ↦ ?_
  rw [latestDefinition, firstDefinition, firstDefinition, shadowedName, List.reverse_cons,
    List.reverse_singleton, List.singleton_append, List.find?_cons, List.find?_cons,
    List.find?_cons, List.find?_cons]
  by_cases hsheet : sheet = none
  · subst hsheet
    split <;> rfl
  · rw [decide_eq_false fun heq ↦ hsheet heq.1.symm]

/-- The second definition of a name is lost. -/
theorem not_findsLatest_redefined :
    ¬unnamedWorkbook.FindsLatest
      [⟨none, "a", ⟨⟨0, 0, 0⟩, [.value 1]⟩⟩, ⟨none, "a", ⟨⟨0, 0, 0⟩, [.value 2]⟩⟩] := by
  rintro ⟨wb', hset, hlatest⟩
  cases hset
  exact absurd (hlatest 0 "a") (by decide)

end Workbook

end Ixion
