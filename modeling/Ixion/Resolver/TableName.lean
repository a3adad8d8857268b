import Ixion.Resolver.SheetPrefix
import Ixion.Resolver.Survives
import Ixion.Table
import Mathlib.Tactic.IntervalCases

/-!
# Names of table references

A table reference is printed with its areas in a fixed order, and with brackets around each of the
names between its brackets if there are several of them.  What is printed is read again name by
name, and so the reference survives printing unless there is neither a column nor an area in it: of
such a reference only the name of the table is printed.
-/

namespace Ixion

open Lib

/-! ## Printing -/

/-- The bytes of a string as characters. -/
def charsOf (s : Text) : List Char := s.map fun b ↦ Char.ofNat b.toNat

/-- Characters as the bytes they stand for. -/
def bytesOf (s : List Char) : Text := s.map fun c ↦ UInt8.ofNat c.toNat

/-- Print the string with a number, if there is one. -/
def appendNameString (cxt : Option Workbook) (sid : StringId) : List Char :=
  match cxt with
  | some wb => ((wb.strPool.getString sid).map charsOf).getD []
  | none => []

/-- Print areas, and count what has been printed. -/
def appendTableAreas (areas : Int) : List Char × ℕ :=
  if areas = 7 then ("[#All]".toList, 1)
  else
    let os : List Char × ℕ := ([], 0)
    let os := if hasArea areas 2 then (os.1 ++ "[#Headers]".toList, os.2 + 1) else os
    let os :=
      if hasArea areas 1 then
        (os.1 ++ (if 0 < os.2 then [','] else []) ++ "[#Data]".toList, os.2 + 1)
      else os
    if hasArea areas 4 then
      (os.1 ++ (if 0 < os.2 then [','] else []) ++ "[#Totals]".toList, os.2 + 1)
    else os

/-- The name of a table reference in Excel's syntaxes. -/
def Table.toChars (cxt : Option Workbook) (table : Table) : List Char :=
  let areas : List Char × ℕ :=
    if table.areas ≠ 0 ∧ table.areas ≠ 1 then appendTableAreas table.areas else ([], 0)
  appendNameString cxt table.name ++
    if table.columnFirst = .empty then
      -- area specifiers only
      let multiple := [2, 1, 4].countP (hasArea table.areas) = 2
      (if multiple then ['['] else []) ++ (appendTableAreas table.areas).1 ++
        (if multiple then [']'] else [])
    else if table.columnLast = .empty then
      let multiple := 0 < areas.2
      ['['] ++ areas.1 ++ (if multiple then [',', '['] else []) ++
        appendNameString cxt table.columnFirst ++ (if multiple then [']'] else []) ++ [']']
    else
      ['['] ++ areas.1 ++ (if 0 < areas.2 then [','] else []) ++ ['['] ++
        appendNameString cxt table.columnFirst ++ "]:[".toList ++
        appendNameString cxt table.columnLast ++ "]]".toList

/-- The names of a table reference are put into the string pool. -/
def TableName.intern (pool : StringPool) (t : TableName) : StringPool × Table :=
  let name := pool.addString (bytesOf t.name)
  let columnFirst := name.1.addString (bytesOf t.columnFirst)
  let columnLast := columnFirst.1.addString (bytesOf t.columnLast)
  (columnLast.1, ⟨name.2, columnFirst.2, columnLast.2, t.areas⟩)

/-! ## Bytes -/

/-- Characters that are bytes. -/
def AreBytes (s : List Char) : Prop := ∀ c ∈ s, c.toNat < 256

instance : DecidablePred AreBytes :=
  List.decidableBAll fun c : Char ↦ c.toNat < 256

theorem charsOf_bytesOf {s : List Char} (h : AreBytes s) : charsOf (bytesOf s) = s := by
  rw [charsOf, bytesOf, List.map_map]
  refine (List.map_congr_left fun c hc ↦ ?_).trans (List.map_id s)
  show Char.ofNat (UInt8.ofNat c.toNat).toNat = c
  rw [UInt8.toNat_ofNat', Nat.mod_eq_of_lt (h c hc), Char.ofNat_toNat]

theorem bytesOf_eq_nil_iff {s : List Char} : bytesOf s = [] ↔ s = [] := List.map_eq_nil_iff

/-- Only the empty string has the number that is reserved for it. -/
theorem addString_eq_empty_iff {p : StringPool} {s : Text} :
    (p.addString s).2 = .empty ↔ s = [] := by
  rw [StringPool.addString]
  split
  case isTrue h => exact iff_of_true rfl (List.isEmpty_iff.mp h)
  case isFalse h =>
    refine iff_of_false ?_ fun hnil ↦ h (List.isEmpty_iff.mpr hnil)
    split
    · rintro ⟨⟩
    · rintro ⟨⟩

/-- The names that have been put into the pool are printed. -/
theorem appendNameString_intern {wb : Workbook} {t : TableName} (hname : AreBytes t.name)
    (hfirst : AreBytes t.columnFirst) (hlast : AreBytes t.columnLast) :
    let wb' : Workbook := { wb with strPool := (t.intern wb.strPool).1 }
    appendNameString (some wb') (t.intern wb.strPool).2.name = t.name ∧
      appendNameString (some wb') (t.intern wb.strPool).2.columnFirst = t.columnFirst ∧
      appendNameString (some wb') (t.intern wb.strPool).2.columnLast = t.columnLast := by
  intro wb'
  have hshow {sid : StringId} {s : List Char} (hs : AreBytes s)
      (h : wb'.strPool.getString sid = some (bytesOf s)) : appendNameString (some wb') sid = s := by
    rw [appendNameString, h, Option.map_some, Option.getD_some, charsOf_bytesOf hs]
  refine ⟨hshow hname ?_, hshow hfirst ?_, hshow hlast ?_⟩
  · exact StringPool.getString_addString_of_some
      (StringPool.getString_addString_of_some (StringPool.getString_addString _ _))
  · exact StringPool.getString_addString_of_some (StringPool.getString_addString _ _)
  · exact StringPool.getString_addString _ _

namespace TableName

/-! ## Reading names -/

/-- A byte that has no meaning of its own in a table reference. -/
def IsOrdinary (c : Char) : Prop := c.toNat < 256 ∧ ∀ d ∈ ['[', ']', ',', ':'], c ≠ d

instance : DecidablePred IsOrdinary := fun c ↦
  @instDecidableAnd _ _ _ (List.decidableBAll (fun d : Char ↦ c ≠ d) ['[', ']', ',', ':'])

theorem areBytes_of_isOrdinary {s : List Char} (h : ∀ c ∈ s, IsOrdinary c) : AreBytes s :=
  fun c hc ↦ (h c hc).1

/-- A name between brackets. -/
structure IsName (s : List Char) : Prop where
  ne_nil : s ≠ []
  ordinary : ∀ c ∈ s, IsOrdinary c

instance : DecidablePred IsName := fun s ↦
  @decidable_of_iff _ (s ≠ [] ∧ ∀ c ∈ s, IsOrdinary c) ⟨fun h ↦ ⟨h.1, h.2⟩, fun h ↦ ⟨h.1, h.2⟩⟩
    (@instDecidableAnd _ _ _ (List.decidableBAll IsOrdinary s))

theorem State.push_of_isOrdinary (st : State) {c : Char} (hc : IsOrdinary c) :
    st.push c = some { st with buf := st.buf ++ [c] } := by
  rw [State.push, if_neg (hc.2 '[' (by decide)), if_neg (hc.2 ']' (by decide)),
    if_neg (hc.2 ',' (by decide)), if_neg (hc.2 ':' (by decide))]

/-- Ordinary characters are kept for a name. -/
theorem foldlM_push_ordinary {s : List Char} (h : ∀ c ∈ s, IsOrdinary c) (st : State) :
    s.foldlM State.push st = some { st with buf := st.buf ++ s } := by
  induction s generalizing st with
  | nil => rw [List.append_nil]; rfl
  | cons c s ih =>
    rw [List.foldlM_cons, st.push_of_isOrdinary (h c List.mem_cons_self)]
    refine (ih (fun c' hc' ↦ h c' (List.mem_cons_of_mem c hc')) _).trans ?_
    rw [List.append_assoc]
    rfl

/-- Between the brackets of a reference to a table, where names have been read. -/
def inside (lastColumnPos : Option ℕ) (tableName : List Char) (names : List (List Char)) : State :=
  ⟨1, lastColumnPos, [], tableName, names, true⟩

section Inside

variable {pos : Option ℕ} {tableName : List Char} {names : List (List Char)} {s : List Char}

/-- The name of a table stands before the brackets. -/
theorem foldlM_push_tableName (h : ∀ c ∈ tableName, IsOrdinary c) (rest : List Char) :
    (tableName ++ '[' :: rest).foldlM State.push ⟨0, none, [], [], [], false⟩ =
      rest.foldlM State.push (inside none tableName []) := by
  rw [List.foldlM_append, foldlM_push_ordinary h]
  cases tableName <;> rfl

/-- A name and the bracket that closes it. -/
theorem push_close_name (h : IsName s) (n : ℕ) (detected : Bool) :
    (s ++ [']']).foldlM State.push ⟨n + 1, pos, [], tableName, names, detected⟩ =
      some ⟨n, pos, [], tableName, names ++ [s], detected⟩ := by
  rw [List.foldlM_append, foldlM_push_ordinary h.ordinary]
  cases s with
  | nil => exact absurd rfl h.ne_nil
  | cons c s => rfl

/-- A name in brackets of its own. -/
def bracketed (s : List Char) : List Char := '[' :: (s ++ [']'])

theorem foldlM_push_bracketed (h : IsName s) (rest : List Char) :
    (bracketed s ++ rest).foldlM State.push (inside pos tableName names) =
      rest.foldlM State.push (inside pos tableName (names ++ [s])) := by
  rw [List.foldlM_append, bracketed, List.foldlM_cons]
  show ((s ++ [']']).foldlM State.push ⟨1 + 1, pos, [], tableName, names, true⟩ >>= _) = _
  rw [push_close_name h]
  rfl

/-- Names in brackets of their own. -/
def separated (l : List (List Char)) : List Char := List.intercalate [','] (l.map bracketed)

theorem separated_singleton (s : List Char) : separated [s] = bracketed s :=
  List.intercalate_singleton

theorem separated_cons_cons (s s' : List Char) (l : List (List Char)) :
    separated (s :: s' :: l) = bracketed s ++ ',' :: separated (s' :: l) := by
  rw [separated, List.map_cons, List.map_cons, List.intercalate_cons_cons, List.append_assoc]
  rfl

theorem foldlM_push_separated {l : List (List Char)} (h : ∀ s ∈ l, IsName s) (rest : List Char) :
    (separated l ++ rest).foldlM State.push (inside pos tableName names) =
      rest.foldlM State.push (inside pos tableName (names ++ l)) := by
  induction l generalizing names with
  | nil => rw [List.append_nil]; rfl
  | cons s l ih =>
    have hs := h s List.mem_cons_self
    have ih := fun names ↦ @ih names fun s' hs' ↦ h s' (List.mem_cons_of_mem s hs')
    cases l with
    | nil =>
      rw [separated_singleton]
      exact foldlM_push_bracketed hs rest
    | cons s' l =>
      rw [separated_cons_cons, List.append_assoc, foldlM_push_bracketed hs, List.cons_append,
        List.foldlM_cons]
      refine (ih (names ++ [s])).trans ?_
      rw [List.append_assoc]
      rfl

end Inside

/-! ## Taking names -/

/-- A name that is not an area specifier. -/
structure IsColumn (s : List Char) : Prop extends IsName s where
  head_ne : s.head? ≠ some '#'

/-- The area specifiers that are printed for areas. -/
def specifiers (areas : ℕ) : List (List Char) :=
  if areas = 7 then ["#All".toList]
  else
    (if hasArea areas 2 then ["#Headers".toList] else []) ++
      (if hasArea areas 1 then ["#Data".toList] else []) ++
      (if hasArea areas 4 then ["#Totals".toList] else [])

theorem appendTableAreas_eq {areas : ℕ} (h : areas < 8) :
    appendTableAreas areas = (separated (specifiers areas), (specifiers areas).length) := by
  interval_cases areas <;> rfl

/-- The brackets around area specifiers. -/
theorem countP_hasArea {areas : ℕ} (h : areas < 8) :
    [(2 : Int), 1, 4].countP (hasArea areas) = 2 ↔ (specifiers areas).length = 2 := by
  interval_cases areas <;> decide

theorem isName_of_mem_specifiers {areas : ℕ} (h : areas < 8) :
    ∀ s ∈ specifiers areas, IsName s := by
  interval_cases areas <;> decide

variable {pos : Option ℕ} {i : ℕ} {s : List Char} {table t : TableName}

/-- The areas after one more area specifier.  One that is not known adds nothing. -/
def addArea (areas : ℕ) (s : List Char) : ℕ :=
  if s = "#Headers".toList then areas ||| 2
  else if s = "#Data".toList then areas ||| 1
  else if s = "#Totals".toList then areas ||| 4
  else if s = "#All".toList then 7
  else areas

theorem addName_area (hs : s.head? = some '#') :
    table.addName pos i s = some { table with areas := addArea table.areas s } := by
  cases s with
  | nil => exact nomatch hs
  | cons c s =>
    obtain rfl := Option.some.inj hs
    have harea (area : String) (l : List Char) (hl : l = '#' :: area.toList) :
        String.ofList ('#' :: s).tail = area ↔ '#' :: s = l := by
      rw [hl, List.cons_inj_right, ← String.toList_inj, String.toList_ofList, List.tail_cons]
    rw [addName, if_pos hs, addArea]
    simp only [harea "Headers" "#Headers".toList rfl, harea "Data" "#Data".toList rfl,
      harea "Totals" "#Totals".toList rfl, harea "All" "#All".toList rfl]
    split_ifs <;> rfl

theorem foldlM_addName_areas {l : List (List Char)} (h : ∀ s ∈ l, s.head? = some '#') (k : ℕ) :
    (l.zipIdx k).foldlM (fun (table : TableName) e ↦ table.addName pos e.2 e.1) table =
      some { table with areas := l.foldl addArea table.areas } := by
  induction l generalizing table k with
  | nil => rfl
  | cons s l ih =>
    rw [List.zipIdx_cons, List.foldlM_cons, addName_area (h s List.mem_cons_self)]
    exact ih (fun s' hs' ↦ h s' (List.mem_cons_of_mem s hs')) (k + 1)

/-- The area specifiers that are printed stand for the areas. -/
theorem foldlM_addName_specifiers {areas : ℕ} (h : areas < 8) (name : List Char) :
    (specifiers areas).zipIdx.foldlM (fun (table : TableName) e ↦ table.addName pos e.2 e.1)
      ⟨name, [], [], 0⟩ = some ⟨name, [], [], areas⟩ := by
  have hhead : ∀ areas < 8, ∀ s ∈ specifiers areas, s.head? = some '#' := by decide
  have hareas : ∀ areas < 8, (specifiers areas).foldl addArea 0 = areas := by decide
  rw [foldlM_addName_areas (hhead areas h), hareas areas h]

theorem addName_first (hs : IsColumn s) (h : table.columnFirst = []) :
    table.addName pos i s = some { table with
      areas := if table.areas = 0 then 1 else table.areas
      columnFirst := s } := by
  rw [addName, if_neg hs.head_ne, if_neg (not_not.mpr h)]

theorem addName_last (hs : IsColumn s) (h : table.columnFirst ≠ [])
    (hlast : table.columnLast = []) :
    table.addName (some i) i s = some { table with columnLast := s } := by
  rw [addName, if_neg hs.head_ne, if_pos h, if_neg]
  rintro (hne | hne)
  · exact hne hlast
  · exact hne rfl

/-! ## Reading what is printed -/

/-- A table reference that has been read. -/
structure Scanned (t : TableName) : Prop where
  name : ∀ c ∈ t.name, IsOrdinary c
  areas : t.areas < 8
  first : t.columnFirst ≠ [] → IsColumn t.columnFirst ∧ t.areas ≠ 0
  last : t.columnLast ≠ [] → IsColumn t.columnLast ∧ t.columnFirst ≠ []

theorem Scanned.areBytes_columnFirst (h : t.Scanned) : AreBytes t.columnFirst := by
  by_cases hfirst : t.columnFirst = []
  · rw [hfirst]
    exact fun c hc ↦ absurd hc List.not_mem_nil
  · exact areBytes_of_isOrdinary (h.first hfirst).1.ordinary

theorem Scanned.areBytes_columnLast (h : t.Scanned) : AreBytes t.columnLast := by
  by_cases hlast : t.columnLast = []
  · rw [hlast]
    exact fun c hc ↦ absurd hc List.not_mem_nil
  · exact areBytes_of_isOrdinary (h.last hlast).1.ordinary

/-- A table reference without a column and without an area. -/
def Blank (t : TableName) : Prop := t.columnFirst = [] ∧ t.areas = 0

/-- The area specifiers that are printed before columns. -/
def columnSpecifiers (t : TableName) : List (List Char) :=
  if t.areas ≠ 0 ∧ t.areas ≠ 1 then specifiers t.areas else []

/-- What is between the brackets, without the outer ones if there are others. -/
def printed (t : TableName) : List Char :=
  if t.columnFirst = [] then
    if (specifiers t.areas).length = 2 then '[' :: (separated (specifiers t.areas) ++ [']'])
    else separated (specifiers t.areas)
  else if t.columnLast = [] then
    if t.columnSpecifiers = [] then bracketed t.columnFirst
    else '[' :: (separated (t.columnSpecifiers ++ [t.columnFirst]) ++ [']'])
  else
    '[' :: (separated (t.columnSpecifiers ++ [t.columnFirst]) ++
      ':' :: (bracketed t.columnLast ++ [']']))

theorem separated_append_singleton {l : List (List Char)} (hl : l ≠ []) (s : List Char) :
    separated (l ++ [s]) = separated l ++ ',' :: bracketed s := by
  induction l with
  | nil => exact absurd rfl hl
  | cons s' l ih =>
    cases l with
    | nil => rw [separated_singleton, ← separated_singleton s]; exact separated_cons_cons s' s []
    | cons s'' l =>
      have hcons : separated (s' :: s'' :: l ++ [s]) =
          bracketed s' ++ ',' :: separated (s'' :: l ++ [s]) :=
        separated_cons_cons s' s'' (l ++ [s])
      rw [hcons, ih (List.cons_ne_nil s'' l), separated_cons_cons, List.append_assoc,
        List.cons_append]

variable {wb : Workbook}

/-- The name of a table reference is that of its table and what is between the brackets. -/
theorem toChars_intern (h : t.Scanned) :
    (t.intern wb.strPool).2.toChars (some { wb with strPool := (t.intern wb.strPool).1 }) =
      t.name ++ t.printed := by
  obtain ⟨hname', hfirst', hlast'⟩ := @appendNameString_intern wb _
    (areBytes_of_isOrdinary h.name) h.areBytes_columnFirst h.areBytes_columnLast
  have hareas : (t.intern wb.strPool).2.areas = (t.areas : Int) := rfl
  have hfirstEmpty : (t.intern wb.strPool).2.columnFirst = .empty ↔ t.columnFirst = [] :=
    addString_eq_empty_iff.trans bytesOf_eq_nil_iff
  have hlastEmpty : (t.intern wb.strPool).2.columnLast = .empty ↔ t.columnLast = [] :=
    addString_eq_empty_iff.trans bytesOf_eq_nil_iff
  have hareas' : (if (t.areas : Int) ≠ 0 ∧ (t.areas : Int) ≠ 1 then appendTableAreas t.areas
      else ([], 0)) = (separated t.columnSpecifiers, t.columnSpecifiers.length) := by
    rw [columnSpecifiers]
    by_cases hcolumns : t.areas ≠ 0 ∧ t.areas ≠ 1
    · rw [if_pos (by exact_mod_cast hcolumns), if_pos hcolumns, appendTableAreas_eq h.areas]
    · rw [if_neg (by exact_mod_cast hcolumns), if_neg hcolumns]
      rfl
  rw [Table.toChars, hname', hfirst', hlast', hareas, printed]
  dsimp only
  rw [hareas', appendTableAreas_eq h.areas]
  congr 1
  simp only [hfirstEmpty, hlastEmpty]
  have hcount := countP_hasArea h.areas
  have hlength : 0 < t.columnSpecifiers.length ↔ t.columnSpecifiers ≠ [] := List.length_pos_iff
  by_cases hnone : t.columnFirst = []
  · simp only [if_pos hnone, hcount]
    split_ifs
    · simp
    · simp
  by_cases hsingle : t.columnLast = []
  · simp only [if_neg hnone, if_pos hsingle, hlength]
    by_cases hspecifiers : t.columnSpecifiers = []
    · simp [hspecifiers, bracketed, separated]
    · simp [hspecifiers, bracketed, separated_append_singleton hspecifiers]
  · simp only [if_neg hnone, if_neg hsingle, hlength]
    by_cases hspecifiers : t.columnSpecifiers = []
    · simp [hspecifiers, bracketed, separated]
    · simp [hspecifiers, bracketed, separated_append_singleton hspecifiers]

theorem Scanned.mem_printed (h : t.Scanned) (hblank : ¬ t.Blank) : '[' ∈ t.printed := by
  have hspecifiers : t.columnFirst = [] → '[' ∈ separated (specifiers t.areas) := by
    intro hfirst
    have hall : ∀ areas < 8, areas ≠ 0 → '[' ∈ separated (specifiers areas) := by decide
    exact hall _ h.areas fun hareas ↦ hblank ⟨hfirst, hareas⟩
  rw [printed]
  split_ifs with hfirst
  · exact List.mem_cons_self
  · exact hspecifiers hfirst
  · exact List.mem_cons_self
  · exact List.mem_cons_self
  · exact List.mem_cons_self

/-! ### What is printed is read -/

/-- A table reference is what its names are taken for. -/
theorem resolveTable_of_names {text : List Char} {names : List (List Char)} (hne : names ≠ [])
    (hread : text.foldlM State.push ⟨0, none, [], [], [], false⟩ =
      some ⟨0, pos, [], t.name, names, true⟩)
    (htake : names.zipIdx.foldlM (fun (table : TableName) e ↦ table.addName pos e.2 e.1)
      ⟨t.name, [], [], 0⟩ = some t) :
    resolveTable (some wb) text = some (.tableReference t) := by
  obtain ⟨s, l, rfl⟩ := List.exists_cons_of_ne_nil hne
  rw [resolveTable, hread]
  show ((s :: l).zipIdx.foldlM (fun (table : TableName) e ↦ table.addName pos e.2 e.1)
    ⟨t.name, [], [], 0⟩).bind _ = _
  rw [htake]
  rfl

theorem Scanned.isName_columnSpecifiers (h : t.Scanned) {s : List Char}
    (hs : s ∈ t.columnSpecifiers) : IsName s := by
  rw [columnSpecifiers] at hs
  split at hs
  · exact isName_of_mem_specifiers h.areas _ hs
  · exact absurd hs List.not_mem_nil

theorem specifiers_eq_nil_iff {areas : ℕ} (h : areas < 8) : specifiers areas = [] ↔ areas = 0 := by
  interval_cases areas <;> decide

/-- The area specifiers before a column, and the column, stand for the areas and the column. -/
theorem Scanned.foldlM_addName_column (h : t.Scanned) (hfirst : t.columnFirst ≠ []) :
    (t.columnSpecifiers ++ [t.columnFirst]).zipIdx.foldlM
        (fun (table : TableName) e ↦ table.addName pos e.2 e.1) ⟨t.name, [], [], 0⟩ =
      some ⟨t.name, t.columnFirst, [], t.areas⟩ := by
  obtain ⟨hcolumn, hareas⟩ := h.first hfirst
  rw [List.zipIdx_append, List.foldlM_append]
  by_cases hspecifiers : t.areas ≠ 0 ∧ t.areas ≠ 1
  · rw [columnSpecifiers, if_pos hspecifiers, foldlM_addName_specifiers h.areas]
    show (addName pos _ _ t.columnFirst >>= _) = _
    rw [addName_first hcolumn rfl, if_neg hareas]
    rfl
  · have hone : t.areas = 1 := by
      by_contra hone
      exact hspecifiers ⟨hareas, hone⟩
    rw [columnSpecifiers, if_neg hspecifiers]
    show (addName pos _ _ t.columnFirst >>= _) = _
    rw [addName_first hcolumn rfl, hone]
    rfl

/-- Two columns stand for themselves. -/
theorem Scanned.foldlM_addName_columns (h : t.Scanned) (hlast : t.columnLast ≠ []) :
    (t.columnSpecifiers ++ [t.columnFirst] ++ [t.columnLast]).zipIdx.foldlM
        (fun (table : TableName) e ↦ table.addName
          (some (t.columnSpecifiers ++ [t.columnFirst]).length) e.2 e.1) ⟨t.name, [], [], 0⟩ =
      some t := by
  obtain ⟨hcolumn, hfirst⟩ := h.last hlast
  have hadd : addName (some (t.columnSpecifiers ++ [t.columnFirst]).length)
      ⟨t.name, t.columnFirst, [], t.areas⟩ (t.columnSpecifiers ++ [t.columnFirst]).length
        t.columnLast = some t := addName_last hcolumn hfirst rfl
  rw [List.zipIdx_append, List.foldlM_append, h.foldlM_addName_column hfirst, Nat.zero_add]
  show (addName _ _ (t.columnSpecifiers ++ [t.columnFirst]).length t.columnLast >>= _) = _
  rw [hadd]
  rfl

/-- A name that is the only one between the brackets has no brackets of its own. -/
theorem foldlM_push_single (hname : ∀ c ∈ t.name, IsOrdinary c) {s : List Char} (hs : IsName s) :
    (t.name ++ bracketed s).foldlM State.push ⟨0, none, [], [], [], false⟩ =
      some ⟨0, none, [], t.name, [s], true⟩ := by
  rw [bracketed, foldlM_push_tableName hname]
  exact push_close_name hs 0 true

/-- Names between the brackets, each of which has brackets of its own. -/
theorem foldlM_push_several (hname : ∀ c ∈ t.name, IsOrdinary c) {l : List (List Char)}
    (hl : ∀ s ∈ l, IsName s) :
    (t.name ++ '[' :: (separated l ++ [']'])).foldlM State.push ⟨0, none, [], [], [], false⟩ =
      some ⟨0, none, [], t.name, l, true⟩ := by
  rw [foldlM_push_tableName hname, foldlM_push_separated hl]
  rfl

/-- A range of columns between the brackets. -/
theorem foldlM_push_range (hname : ∀ c ∈ t.name, IsOrdinary c) {l : List (List Char)}
    (hne : l ≠ []) (hl : ∀ s ∈ l, IsName s) {s : List Char} (hs : IsName s) :
    (t.name ++ '[' :: (separated l ++ ':' :: (bracketed s ++ [']']))).foldlM State.push
        ⟨0, none, [], [], [], false⟩ =
      some ⟨0, some l.length, [], t.name, l ++ [s], true⟩ := by
  have hcolon : (inside none t.name l).push ':' = some (inside (some l.length) t.name l) := by
    obtain ⟨s', l', rfl⟩ := List.exists_cons_of_ne_nil hne
    rfl
  rw [foldlM_push_tableName hname, foldlM_push_separated hl, List.nil_append, List.foldlM_cons,
    hcolon]
  refine (foldlM_push_bracketed hs [']']).trans ?_
  rfl

/-- What is printed of a table reference is read as that reference, if there is a column or an
area in it. -/
theorem Scanned.resolveTable_printed (h : t.Scanned) (hblank : ¬ t.Blank) :
    resolveTable (some wb) (t.name ++ t.printed) = some (.tableReference t) := by
  rw [printed]
  by_cases hfirst : t.columnFirst = []
  · have hlast : t.columnLast = [] := by
      by_contra hlast
      exact (h.last hlast).2 hfirst
    have hareas : t.areas ≠ 0 := fun hareas ↦ hblank ⟨hfirst, hareas⟩
    have hspecifiers : specifiers t.areas ≠ [] :=
      fun hnil ↦ hareas ((specifiers_eq_nil_iff h.areas).mp hnil)
    have htake {pos : Option ℕ} : (specifiers t.areas).zipIdx.foldlM
        (fun (table : TableName) e ↦ table.addName pos e.2 e.1) ⟨t.name, [], [], 0⟩ = some t := by
      rw [foldlM_addName_specifiers h.areas, Option.some.injEq]
      calc (⟨t.name, [], [], t.areas⟩ : TableName)
          = ⟨t.name, t.columnFirst, t.columnLast, t.areas⟩ := by rw [hfirst, hlast]
        _ = t := rfl
    have hnames : ∀ s ∈ specifiers t.areas, IsName s :=
      fun s hs ↦ isName_of_mem_specifiers h.areas _ hs
    rw [if_pos hfirst]
    split
    case isTrue => exact resolveTable_of_names hspecifiers (foldlM_push_several h.name hnames) htake
    case isFalse htwo =>
      have hone : (specifiers t.areas).length = 1 := by
        have hlengths : ∀ areas < 8, areas ≠ 0 → (specifiers areas).length ≠ 2 →
            (specifiers areas).length = 1 := by decide
        exact hlengths _ h.areas hareas htwo
      obtain ⟨s, hs⟩ := List.length_eq_one_iff.mp hone
      rw [hs] at hspecifiers htake hnames ⊢
      rw [separated_singleton]
      exact resolveTable_of_names hspecifiers
        (foldlM_push_single h.name (hnames s List.mem_cons_self)) htake
  have hcolumn := (h.first hfirst).1
  have hnames : ∀ s ∈ t.columnSpecifiers ++ [t.columnFirst], IsName s := by
    intro s hs
    rcases List.mem_append.mp hs with hs | hs
    · exact h.isName_columnSpecifiers hs
    · rw [List.mem_singleton.mp hs]
      exact hcolumn.toIsName
  have hne : t.columnSpecifiers ++ [t.columnFirst] ≠ [] := by simp
  rw [if_neg hfirst]
  by_cases hlast : t.columnLast = []
  · have htake : (t.columnSpecifiers ++ [t.columnFirst]).zipIdx.foldlM
        (fun (table : TableName) e ↦ table.addName none e.2 e.1) ⟨t.name, [], [], 0⟩ = some t := by
      rw [h.foldlM_addName_column hfirst, Option.some.injEq]
      calc (⟨t.name, t.columnFirst, [], t.areas⟩ : TableName)
          = ⟨t.name, t.columnFirst, t.columnLast, t.areas⟩ := by rw [hlast]
        _ = t := rfl
    rw [if_pos hlast]
    split
    case isTrue hnil =>
      rw [hnil, List.nil_append] at htake hne
      exact resolveTable_of_names hne (foldlM_push_single h.name hcolumn.toIsName) htake
    case isFalse => exact resolveTable_of_names hne (foldlM_push_several h.name hnames) htake
  · rw [if_neg hlast]
    exact resolveTable_of_names (by simp)
      (foldlM_push_range h.name hne hnames (h.last hlast).1.toIsName)
      (h.foldlM_addName_columns hlast)

/-! ## What is read -/

/-- What has been read of a table reference: ordinary characters, and names. -/
structure State.OfNames (st : State) : Prop where
  buf : ∀ c ∈ st.buf, IsOrdinary c
  tableName : ∀ c ∈ st.tableName, IsOrdinary c
  names : ∀ s ∈ st.names, IsName s

theorem State.OfNames.push {st st' : State} (h : st.OfNames) {c : Char} (hc : c.toNat < 256)
    (hpush : st.push c = some st') : st'.OfNames := by
  rw [State.push] at hpush
  split_ifs at hpush with hopen hscope hempty hscope' hclose hzero hempty' hcomma hempty'' hcolon
    hin
  · cases hpush
    exact ⟨h.buf, h.tableName, h.names⟩
  · cases hpush
    exact ⟨by simp, h.buf, h.names⟩
  · cases hpush
    exact ⟨h.buf, h.tableName, h.names⟩
  · cases hpush
    refine ⟨by simp, h.tableName, fun s hs ↦ ?_⟩
    rcases List.mem_append.mp hs with hs | hs
    · exact h.names s hs
    · rw [List.mem_singleton.mp hs]
      exact ⟨fun hnil ↦ hempty' (List.isEmpty_iff.mpr hnil), h.buf⟩
  · cases hpush
    exact h
  · cases hpush
    exact ⟨h.buf, h.tableName, h.names⟩
  · cases hpush
    refine ⟨fun d hd ↦ ?_, h.tableName, h.names⟩
    rcases List.mem_append.mp hd with hd | hd
    · exact h.buf d hd
    · rw [List.mem_singleton.mp hd]
      simp only [IsOrdinary, List.mem_cons, List.not_mem_nil, or_false, forall_eq_or_imp, forall_eq]
      exact ⟨hc, hopen, hclose, hcomma, hcolon⟩

theorem State.OfNames.foldlM {st st' : State} (h : st.OfNames) {s : List Char} (hs : AreBytes s)
    (hread : s.foldlM State.push st = some st') : st'.OfNames := by
  induction s generalizing st with
  | nil =>
    cases hread
    exact h
  | cons c s ih =>
    rw [List.foldlM_cons] at hread
    obtain ⟨st₁, hpush, hrest⟩ := Option.bind_eq_some_iff.mp hread
    exact ih (h.push (hs c List.mem_cons_self) hpush)
      (fun c' hc' ↦ hs c' (List.mem_cons_of_mem c hc')) hrest

theorem addName_cases {s : List Char} (h : table.addName pos i s = some t) :
    (s.head? = some '#' ∧ t = { table with areas := addArea table.areas s }) ∨
      (s.head? ≠ some '#' ∧ table.columnFirst ≠ [] ∧ t = { table with columnLast := s }) ∨
      (s.head? ≠ some '#' ∧ t = { table with
        areas := if table.areas = 0 then 1 else table.areas
        columnFirst := s }) := by
  by_cases hhead : s.head? = some '#'
  · rw [addName_area hhead] at h
    exact .inl ⟨hhead, (Option.some.inj h).symm⟩
  · rw [addName, if_neg hhead] at h
    by_cases hfirst : table.columnFirst ≠ []
    · rw [if_pos hfirst] at h
      split at h
      · cases h
      · exact .inr (.inl ⟨hhead, hfirst, (Option.some.inj h).symm⟩)
    · rw [if_neg hfirst] at h
      exact .inr (.inr ⟨hhead, (Option.some.inj h).symm⟩)

theorem addArea_lt {areas : ℕ} (h : areas < 8) (s : List Char) : addArea areas s < 8 := by
  rw [addArea]
  split_ifs
  · exact Nat.or_lt_two_pow (n := 3) h (by decide)
  · exact Nat.or_lt_two_pow (n := 3) h (by decide)
  · exact Nat.or_lt_two_pow (n := 3) h (by decide)
  · decide
  · exact h

theorem addArea_ne_zero {areas : ℕ} (h : areas ≠ 0) (s : List Char) : addArea areas s ≠ 0 := by
  rw [addArea]
  split_ifs
  · exact fun hzero ↦ h (Nat.or_eq_zero_iff.mp hzero).1
  · exact fun hzero ↦ h (Nat.or_eq_zero_iff.mp hzero).1
  · exact fun hzero ↦ h (Nat.or_eq_zero_iff.mp hzero).1
  · decide
  · exact h

theorem Scanned.addName (h : table.Scanned) {s : List Char} (hs : IsName s)
    (hadd : table.addName pos i s = some t) : t.Scanned := by
  rcases addName_cases hadd with ⟨-, rfl⟩ | ⟨hhead, hfirst, rfl⟩ | ⟨hhead, rfl⟩
  · exact ⟨h.name, addArea_lt h.areas s,
      fun hfirst ↦ ⟨(h.first hfirst).1, addArea_ne_zero (h.first hfirst).2 s⟩, h.last⟩
  · exact ⟨h.name, h.areas, h.first, fun _ ↦ ⟨⟨hs, hhead⟩, hfirst⟩⟩
  · refine ⟨h.name, ?_, fun _ ↦ ⟨⟨hs, hhead⟩, ?_⟩, fun hlast ↦ ⟨(h.last hlast).1, hs.ne_nil⟩⟩
    · have hareas := h.areas
      dsimp only
      split <;> omega
    · dsimp only
      split <;> omega

theorem Scanned.foldlM_addName (h : table.Scanned) {l : List (List Char × ℕ)}
    (hl : ∀ e ∈ l, IsName e.1)
    (hadd : l.foldlM (fun (table : TableName) e ↦ table.addName pos e.2 e.1) table = some t) :
    t.Scanned := by
  induction l generalizing table with
  | nil =>
    cases hadd
    exact h
  | cons e l ih =>
    rw [List.foldlM_cons] at hadd
    obtain ⟨table₁, hadd₁, hrest⟩ := Option.bind_eq_some_iff.mp hadd
    exact ih (h.addName (hl e List.mem_cons_self) hadd₁)
      (fun e' he' ↦ hl e' (List.mem_cons_of_mem e he')) hrest

/-- A table reference that has been resolved has been scanned. -/
theorem scanned_of_resolveTable {cxt : Option Workbook} {s : List Char} (hs : AreBytes s)
    (h : resolveTable cxt s = some (.tableReference t)) : t.Scanned := by
  simp only [resolveTable, Option.bind_eq_bind, Option.bind_eq_some_iff] at h
  obtain ⟨_, -, st, hread, h⟩ := h
  split at h
  · cases h
  · obtain ⟨table, hadd, ht⟩ := Option.bind_eq_some_iff.mp h
    cases ht
    have hst : st.OfNames := State.OfNames.foldlM ⟨by simp, by simp, by simp⟩ hs hread
    refine Scanned.foldlM_addName ⟨hst.tableName, ?_, ?_, ?_⟩ (fun e he ↦ ?_) hadd
    · exact Nat.zero_lt_succ 7
    · exact fun hne ↦ absurd rfl hne
    · exact fun hne ↦ absurd rfl hne
    · exact hst.names e.1 (List.fst_mem_of_mem_zipIdx he)

/-- Without brackets there is no table reference. -/
theorem resolveTable_of_ordinary {s : List Char} (h : ∀ c ∈ s, IsOrdinary c) :
    resolveTable (some wb) s = none := by
  rw [resolveTable, foldlM_push_ordinary h]
  show (if !([] ++ s).isEmpty ∨ !false ∨ _ then none else _) = none
  exact if_pos (.inr (.inl rfl))

end TableName

/-! ## Excel's A1 syntax -/

theorem resolveFunctionOrName_ne_table {p : Pointer} {n : ℕ} {f : ℕ → Char} {t : TableName} :
    (resolveFunctionOrName p n).eval f ≠ .tableReference t := by
  rw [resolveFunctionOrName, Query.eval_bind, Query.eval_pure, resolveFunction]
  cases FormulaFunctions.getFunctionOpcode _ with
  | none => rintro ⟨⟩
  | some func => rintro ⟨⟩

/-- What is read as a table reference is one. -/
theorem exists_of_resolveTable {cxt : Option Workbook} {s : List Char} {name : FormulaName}
    (h : resolveTable cxt s = some name) : ∃ t, name = .tableReference t := by
  simp only [resolveTable, Option.bind_eq_bind, Option.bind_eq_some_iff] at h
  obtain ⟨_, -, st, -, h⟩ := h
  split at h
  · cases h
  · obtain ⟨table, -, ht⟩ := Option.bind_eq_some_iff.mp h
    cases ht
    exact ⟨table, rfl⟩

theorem FormulaName.IsReference.ne_table {name : FormulaName} (h : name.IsReference)
    (t : TableName) : name ≠ .tableReference t := by
  rintro rfl
  rcases h with ⟨⟨⟩⟩ | ⟨⟨⟩⟩

theorem FormulaName.IsReference.ne_function {name : FormulaName} (h : name.IsReference)
    (func : FormulaFunction) : name ≠ .function func := by
  rintro rfl
  rcases h with ⟨⟨⟩⟩ | ⟨⟨⟩⟩

section ExcelA1

variable {wb : Workbook} {pos : AbsAddress} {f : ℕ → Char} {t : TableName}

/-- What follows the sheets is a reference or nothing, or else a function or a name. -/
theorem eval_resolveAddressExcelA1_cases (cxt : Option Workbook) (n : ℕ) (sheets : SheetRange)
    (p : List Char) :
    ((resolveAddressExcelA1 cxt pos n sheets p).eval f).IsReference ∨
      (resolveAddressExcelA1 cxt pos n sheets p).eval f = .invalid ∨
      ∃ p' n', (resolveAddressExcelA1 cxt pos n sheets p).eval f =
        (resolveFunctionOrName p' n').eval f := by
  rw [resolveAddressExcelA1]
  generalize parseAddressExcelA1 p ⟨pos.sheet, 0, 0, false, false, false⟩ = parsed
  dsimp only
  generalize (if parsed.result ≠ .invalid ∧ !checkAddressBySheetBounds cxt parsed.addr then
    ParseAddressResultType.invalid else parsed.result) = result
  split
  · exact .inl (sheets.isReference_cell _)
  · split
    · split
      · exact .inr (.inl rfl)
      · split
        · exact .inr (.inl rfl)
        · exact .inl (sheets.isReference_range _ _)
    · exact .inr (.inr ⟨_, _, rfl⟩)

theorem resolveAddressExcelA1_ne_table {cxt : Option Workbook} {n : ℕ} {sheets : SheetRange}
    {p : List Char} : (resolveAddressExcelA1 cxt pos n sheets p).eval f ≠ .tableReference t := by
  rcases @eval_resolveAddressExcelA1_cases pos f cxt n sheets p with href | heq | ⟨p', n', heq⟩
  · exact href.ne_table t
  · rw [heq]
    rintro ⟨⟩
  · rw [heq]
    exact resolveFunctionOrName_ne_table

/-- A name is that of a part of a table if it is read as such and is not that of a function. -/
theorem eval_resolveExcelA1_eq_table {s : List Char} :
    (resolveExcelA1 (some wb) pos s).eval f = .tableReference t ↔
      resolveFunction s = none ∧ resolveTable (some wb) s = some (.tableReference t) := by
  cases s with
  | nil => exact iff_of_false (by rintro ⟨⟩) (by rintro ⟨-, ⟨⟩⟩)
  | cons c s =>
    rw [resolveExcelA1, if_neg (by simp)]
    cases hfunction : resolveFunction (c :: s) with
    | some name =>
      refine iff_of_false ?_ (by rintro ⟨⟨⟩, -⟩)
      obtain ⟨func, -, rfl⟩ := Option.map_eq_some_iff.mp hfunction
      rintro ⟨⟩
    | none =>
      rw [eq_self_iff_true, true_and]
      cases htable : resolveTable (some wb) (c :: s) with
      | some name => exact Option.some_inj.symm
      | none =>
        refine iff_of_false ?_ (by rintro ⟨⟩)
        dsimp only
        split
        · rintro ⟨⟩
        · exact resolveAddressExcelA1_ne_table

/-- The name of a part of a table; only Excel's syntaxes have one. -/
def FormulaNameResolverType.getTableName (type : FormulaNameResolverType) (cxt : Option Workbook)
    (table : Table) : List Char :=
  match type with
  | .excelA1 | .excelR1C1 => table.toChars cxt
  | .calcA1 | .odff | .odfCra => []

/-- The name of a part of a table, with its names in the string pool, is resolved to that part
again. -/
def TableReturns (wb : Workbook) (behind : ℕ → Char) (pos : AbsAddress) (t : TableName) : Prop :=
  let (pool, table) := t.intern wb.strPool
  let wb : Workbook := { wb with strPool := pool }
  let s := FormulaNameResolverType.excelA1.getTableName (some wb) table
  (FormulaNameResolverType.excelA1.resolve (some wb) pos s).eval behind = .tableReference t

/-- A part of a table that a name has been resolved to is printed and resolved again exactly when
there is a column or an area in it.  Otherwise only the name of the table is printed. -/
theorem tableReturns_iff {s : List Char} (hs : AreBytes s) (behind : ℕ → Char)
    (h : (FormulaNameResolverType.excelA1.resolve (some wb) pos s).eval behind =
      .tableReference t) :
    TableReturns wb behind pos t ↔ t.columnFirst ≠ [] ∨ t.areas ≠ 0 := by
  have hscanned := TableName.scanned_of_resolveTable hs (eval_resolveExcelA1_eq_table.mp h).2
  set wb' : Workbook := { wb with strPool := (t.intern wb.strPool).1 }
  have hprinted : TableReturns wb behind pos t ↔
      resolveFunction (t.name ++ t.printed) = none ∧
        resolveTable (some wb') (t.name ++ t.printed) = some (.tableReference t) := by
    rw [← TableName.toChars_intern hscanned]
    exact eval_resolveExcelA1_eq_table
  have hblank : t.columnFirst ≠ [] ∨ t.areas ≠ 0 ↔ ¬ t.Blank := by
    rw [TableName.Blank, not_and_or]
  rw [hprinted, hblank]
  by_cases ht : t.Blank
  · -- only the name of the table is printed
    have hnil : t.printed = [] := by
      rw [TableName.printed, if_pos ht.1, ht.2]
      rfl
    rw [hnil, List.append_nil, TableName.resolveTable_of_ordinary hscanned.name]
    exact iff_of_false (by rintro ⟨-, ⟨⟩⟩) (not_not.mpr ht)
  · refine iff_of_true ⟨?_, hscanned.resolveTable_printed ht⟩ ht
    exact resolveFunction_eq_none (c := '[') (List.mem_append_right _ (hscanned.mem_printed ht)) rfl

end ExcelA1

/-- The headers of two columns. -/
theorem tableReturns_iff_headers :
    TableReturns (oneSheet "A") (fun _ ↦ ' ') ⟨0, 0, 0⟩ ⟨['T'], ['a'], ['b'], 2⟩ ↔
      ['a'] ≠ [] ∨ 2 ≠ 0 :=
  @tableReturns_iff (oneSheet "A") ⟨0, 0, 0⟩ _ "T[[#Headers],[a]:[b]]".toList (by decide +kernel) _
    (by decide +kernel)

/-- Of a reference with an unknown area, only the name of the table is printed. -/
example : (FormulaNameResolverType.excelA1.resolve (some (oneSheet "A")) ⟨0, 0, 0⟩
    "T[#No]".toList).eval (fun _ ↦ ' ') = .tableReference ⟨['T'], [], [], 0⟩ := by
  decide +kernel

end Ixion
