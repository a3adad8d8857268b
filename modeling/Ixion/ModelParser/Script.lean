import Ixion.Lexer.Literal
import Ixion.Resolver.RoundTrip
import Ixion.ModelParser.Rounds

/-!
# Session files as scripts

A session file is a script: its statements enter modes and do things to the model, each of them in
a mode that it belongs to.  Every script can be written down, a line for each statement, unless it
uses a name or a value that cannot be told apart from what is around it; and parsing the file then
does what the statements say, one after the other, up to where one fails or the file exits
(`parse_written`).
-/

namespace Ixion.ModelParser

open Lib.Strtod

/-! ## Scripts -/

/-- What a line of a session file says. -/
inductive Statement where
  | comment (text : List Char)
  | mode (mode : ParseMode)
  | action (a : Action)
  | exit

section Run

variable {σ : Type} (m : Model σ)

/-- Do what a statement says.  A cell is not initialized before there is a sheet. -/
def Statement.run (mode : ParseMode) (s : σ) : Statement → Except ParseFailure (ParseMode × σ)
  | .comment _ => return (mode, s)
  | .mode mode' => return (mode', m.enter mode' s)
  | .action (.initCells d) => return (mode, ← perform m (.initCells d) (m.initModel s))
  | .action a => return (mode, ← perform m a s)
  | .exit => return (.exit, s)

/-- Do what the statements of a script say, up to where it exits. -/
def runScript : ParseMode → σ → List Statement → Except ParseFailure σ
  | _, s, [] => return s
  | mode, s, st :: script => do
    let r ← st.run m mode s
    if r.1 = .exit then return r.2
    runScript r.1 r.2 script

end Run

/-! ## Writing a script down -/

/-- The name of the command that enters a mode. -/
def modeName : ParseMode → List Char
  | .init => "mode init".toList
  | .edit => "mode edit".toList
  | .result => "mode result".toList
  | .resultCache => "mode result-cache".toList
  | .table => "mode table".toList
  | .session => "mode session".toList
  | .namedExpression => "mode named-expression".toList
  | .unknown => []
  | .exit => []

/-- The separator in front of a value. -/
def separator : CellType → Char
  | .value => ':'
  | .boolean => ':'
  | .string => '@'
  | _ => '='

/-- A name in which there is no separator. -/
def PlainName (name : List Char) : Prop := ∀ c ∈ name, separatorType c = none

instance (name : List Char) : Decidable (PlainName name) :=
  List.decidableBAll (fun c ↦ separatorType c = none) name

/-- The line of a cell definition: names with separators, such as those of ranges, are put in
braces. -/
def CellDef.line (d : CellDef) : List Char :=
  if d.matrixValue then
    '\x7b' :: (d.name ++ '\x7d' :: '\x7b' :: '=' :: (d.value ++ ['\x7d']))
  else if PlainName d.name then d.name ++ separator d.type :: d.value
  else '\x7b' :: (d.name ++ '\x7d' :: separator d.type :: d.value)

/-- The line of an action. -/
def Action.line : Action → List Char
  | .calc => '%' :: "calc".toList
  | .recalc => '%' :: "recalc".toList
  | .check => '%' :: "check".toList
  | .printDependency => '%' :: "print dependency".toList
  | .pushTable => '%' :: "push".toList
  | .pushNamedExpression => '%' :: "push".toList
  | .rowLimit n => "row-limit".toList ++ ':' :: decimal n
  | .columnLimit n => "column-limit".toList ++ ':' :: decimal n
  | .insertSheet name => "insert-sheet".toList ++ ':' :: name
  | .currentSheet name => "current-sheet".toList ++ ':' :: name
  | .displaySheetName value => "display-sheet-name".toList ++ ':' :: value
  | .initCells d => d.line
  | .editCells d => d.line
  | .result name value => name ++ '=' :: value
  | .resultCache name value => name ++ '=' :: value
  | .table name value => name ++ '=' :: value
  | .namedExpression name value => name ++ '=' :: value

/-- The line of a statement. -/
def Statement.line : Statement → List Char
  | .comment text => '%' :: '%' :: text
  | .mode mode' => '%' :: modeName mode'
  | .action a => a.line
  | .exit => '%' :: "exit".toList

/-- A script, one statement a line. -/
def written (script : List Statement) : List Char := script.flatMap fun st ↦ st.line ++ ['\n']

/-! ## What can be written down -/

/-- A cell definition that can be written on a line: what is a truth value begins like one, and a
name that is put in braces has none. -/
structure CellDef.CanWrite (d : CellDef) : Prop where
  name_ne_nil : d.name ≠ []
  name_break : '\n' ∉ d.name
  value_break : '\n' ∉ d.value
  head : d.name.head? ≠ some '%' ∧ d.name.head? ≠ some '\x7b'
  braces : '\x7d' ∉ d.name
  type : valueType ((separatorType (separator d.type)).getD .unknown) d.value = d.type
  matrix : d.matrixValue = true → d.type = .formula

/-- An assignment that can be written on a line. -/
structure CanAssign (name value : List Char) : Prop where
  name_ne_nil : name ≠ []
  head : name.head? ≠ some '%'
  equals : '=' ∉ name ∧ '=' ∉ value
  breaks : '\n' ∉ name ∧ '\n' ∉ value

/-- A value that can be written behind a colon. -/
def CanSet (value : List Char) : Prop := ':' ∉ value ∧ '\n' ∉ value

/-- A number that can be read as a long. -/
def IsLong (n : ℤ) : Prop := -2 ^ 63 ≤ n ∧ n < 2 ^ 63

/-- An action that can be written in a mode. -/
def Action.CanWrite (mode : ParseMode) : Action → Prop
  | .calc => True
  | .recalc => True
  | .check => True
  | .printDependency => True
  | .pushTable => mode = .table
  | .pushNamedExpression => mode = .namedExpression
  | .rowLimit n => mode = .session ∧ IsLong n
  | .columnLimit n => mode = .session ∧ IsLong n
  | .insertSheet name => mode = .session ∧ CanSet name
  | .currentSheet name => mode = .session ∧ CanSet name
  | .displaySheetName value => mode = .session ∧ CanSet value
  | .initCells d => mode = .init ∧ d.CanWrite
  | .editCells d => mode = .edit ∧ d.CanWrite
  | .result name value => mode = .result ∧ CanAssign name value
  | .resultCache name value => mode = .resultCache ∧ CanAssign name value
  | .table name value => mode = .table ∧ CanAssign name value ∧
      name ∈ ["name".toList, "range".toList, "columns".toList, "totals-row-count".toList]
  | .namedExpression name value => mode = .namedExpression ∧ CanAssign name value ∧
      name ∈ ["name".toList, "expression".toList, "origin".toList, "scope".toList]

/-- A statement that can be written in a mode. -/
def Statement.CanWrite (mode : ParseMode) : Statement → Prop
  | .comment text => '\n' ∉ text
  | .mode mode' => mode' ≠ .unknown ∧ mode' ≠ .exit
  | .action a => a.CanWrite mode
  | .exit => True

/-- The mode after a statement. -/
def Statement.after (mode : ParseMode) : Statement → ParseMode
  | .mode mode' => mode'
  | .exit => .exit
  | _ => mode

/-- A script that can be written down, from a mode on. -/
def CanWriteAll : ParseMode → List Statement → Prop
  | _, [] => True
  | mode, st :: script => st.CanWrite mode ∧ CanWriteAll (st.after mode) script

/-! ## Reading a line back -/

theorem isLine_of_not_mem {line : List Char} (h : '\n' ∉ line) (rest : List Char) :
    IsLine line ('\n' :: rest) := ⟨h, .inr ⟨rest, rfl⟩⟩

/-- The characters of a kind in front of one that is not. -/
theorem takeWhile_dropWhile_append {p : Char → Bool} {name : List Char}
    (hname : ∀ c ∈ name, p c = true) {b : Char} (hb : p b = false) (after : List Char) :
    (name ++ b :: after).takeWhile p = name ∧ (name ++ b :: after).dropWhile p = b :: after := by
  have hne : ¬ p b = true := Bool.eq_false_iff.mp hb
  constructor
  · rw [List.takeWhile_append_of_pos hname, List.takeWhile_cons_of_neg hne, List.append_nil]
  · rw [List.dropWhile_append_of_pos hname, List.dropWhile_cons_of_neg hne]

theorem separatorType_separator (type : CellType) :
    ∃ t, separatorType (separator type) = some t := by
  cases type with
  | string => exact ⟨.string, rfl⟩
  | value => exact ⟨.value, rfl⟩
  | boolean => exact ⟨.value, rfl⟩
  | _ => exact ⟨.formula, rfl⟩

theorem separator_ne_brace (type : CellType) : separator type ≠ '\x7b' := by
  cases type <;> decide

theorem closeCell_of_ne {name : List Char} (h : name ≠ []) (value : List Char) (type : CellType)
    (matrixValue : Bool) : closeCell name value type matrixValue =
      .ok ⟨name, value, type, matrixValue⟩ := if_neg fun hnil ↦ h hnil.1

namespace CellDef.CanWrite

variable {d : CellDef} (h : d.CanWrite)

include h

/-- A cell definition is read as it has been written. -/
theorem cellDefParts_line : cellDefParts d.line = .ok d := by
  obtain ⟨name, value, type, matrixValue⟩ := d
  obtain ⟨hne, _, _, ⟨_, hhead⟩, hbraces, htype, hmatrix⟩ := h
  obtain ⟨t, ht⟩ := separatorType_separator type
  rw [ht, Option.getD_some] at htype
  rw [CellDef.line]
  cases matrixValue with
  | true =>
    obtain rfl : type = .formula := hmatrix rfl
    rw [if_pos rfl]
    obtain ⟨hdrop, htake⟩ := split_append hbraces ('\x7b' :: '=' :: (value ++ ['\x7d']))
    rw [cellDefParts, if_pos rfl, hdrop, htake]
    show matrixParts name ('=' :: (value ++ ['\x7d'])) = _
    rw [matrixParts, if_neg (not_not.mpr rfl), if_neg (by simp), List.dropLast_concat]
    exact closeCell_of_ne hne ..
  | false =>
    rw [if_neg Bool.false_ne_true]
    split
    case isTrue hplain =>
      obtain ⟨c, cs, rfl⟩ := List.exists_cons_of_ne_nil hne
      have hbrace : c ≠ '\x7b' := by
        rintro rfl
        exact hhead rfl
      obtain ⟨htake, hdrop⟩ := takeWhile_dropWhile_append (p := (separatorType · = none))
        (fun c hc ↦ decide_eq_true (hplain c hc)) (b := separator type)
        (decide_eq_false (by rw [ht]; exact Option.some_ne_none t)) value
      have hparts : cellDefParts (c :: cs ++ separator type :: value) =
          plainParts (c :: cs ++ separator type :: value) := if_neg hbrace
      rw [hparts, plainParts, hdrop, htake]
      show (if c :: cs = [] then _ else _ : Except _ _) = _
      rw [if_neg hne, ht, Option.getD_some, htype]
      exact closeCell_of_ne hne ..
    case isFalse =>
      obtain ⟨hdrop, htake⟩ := split_append hbraces (separator type :: value)
      rw [cellDefParts, if_pos rfl, hdrop, htake]
      show bracedParts name (separator type :: value) = _
      rw [bracedParts, if_neg (separator_ne_brace type), ht]
      show closeCell name value (valueType t value) false = _
      rw [htype]
      exact closeCell_of_ne hne ..

theorem not_mem_line : '\n' ∉ d.line := by
  have hsep : '\n' ≠ separator d.type := by
    cases d.type <;> decide
  rw [CellDef.line]
  split
  case isTrue => simp [h.name_break, h.value_break]
  case isFalse =>
    split
    case isTrue => simp [h.name_break, h.value_break, hsep]
    case isFalse => simp [h.name_break, h.value_break, hsep]

theorem head_line : ∃ c cs, d.line = c :: cs ∧ c ≠ '%' := by
  rw [CellDef.line]
  split
  case isTrue => exact ⟨_, _, rfl, by decide⟩
  case isFalse =>
    split
    case isTrue =>
      obtain ⟨c, cs, hname⟩ := List.exists_cons_of_ne_nil h.name_ne_nil
      refine ⟨c, cs ++ separator d.type :: d.value, by rw [hname]; rfl, ?_⟩
      rintro rfl
      exact h.head.1 (by rw [hname]; rfl)
    case isFalse => exact ⟨_, _, rfl, by decide⟩

theorem runCellDef_eq {σ : Type} (m : Model σ) (action : CellDef → Action) (s : σ) :
    runCellDef m action d s = perform m (action d) s :=
  if_neg fun hnil ↦ h.name_ne_nil hnil.1

end CellDef.CanWrite

namespace CanAssign

variable {name value : List Char} (h : CanAssign name value)

include h

/-- An assignment is read as it has been written. -/
theorem assignmentParts_line : assignmentParts (name ++ '=' :: value) = .ok (name, value) := by
  have hparts : (name ++ '=' :: value).splitOn '=' = [name, value] := by
    rw [List.splitOn_append_cons_self, List.splitOn_eq_singleton h.equals.1,
      List.splitOn_eq_singleton h.equals.2]
    rfl
  have hne := h.name_ne_nil
  rw [assignmentParts, hparts]
  show (if ∃ part ∈ [name], part = [] then _ else _ : Except _ _) = _
  rw [if_neg (by simpa using hne), if_neg (by simp)]
  rfl

theorem not_mem_line : '\n' ∉ name ++ '=' :: value := by
  simp [h.breaks]

theorem head_line : ∃ c cs, name ++ '=' :: value = c :: cs ∧ c ≠ '%' := by
  obtain ⟨c, cs, hname⟩ := List.exists_cons_of_ne_nil h.name_ne_nil
  refine ⟨c, cs ++ '=' :: value, by rw [hname]; rfl, ?_⟩
  rintro rfl
  exact h.head (by rw [hname]; rfl)

end CanAssign

/-! ## Numbers -/

theorem mem_decimal {n : ℤ} {c : Char} (h : c ∈ decimal n) : c = '-' ∨ c.isDigit = true := by
  rw [decimal] at h
  split at h
  · exact (List.mem_cons.mp h).imp_right isDigit_of_mem_toDigits
  · exact .inr (isDigit_of_mem_toDigits h)

theorem decimal_ne_nil (n : ℤ) : decimal n ≠ [] := by
  rw [decimal]
  split
  · exact List.cons_ne_nil _ _
  · exact Nat.toDigits_ne_nil

theorem isSpace_of_isDigit {c : Char} (h : c.isDigit = true) : isSpace c = false := by
  rw [isSpace, decide_eq_false_iff_not]
  intro hmem
  simp only [List.mem_cons, List.not_mem_nil, or_false] at hmem
  rcases hmem with rfl | rfl | rfl | rfl | rfl | rfl <;>
  exact absurd h (by decide)

/-- The digits of a number are read up to a line break. -/
theorem span_toDigits (n : ℕ) (rest : List Char) :
    span Char.isDigit (Nat.toDigits 10 n ++ '\n' :: rest) =
      some (Nat.toDigits 10 n, '\n' :: rest) := by
  rw [span_append fun _ hc ↦ isDigit_of_mem_toDigits hc, span_cons_of_not (by decide)]
  show some (Nat.toDigits 10 n ++ [], '\n' :: rest) = _
  rw [List.append_nil]

/-- What `strtol` reads are digits behind blanks and a sign. -/
theorem strtol_of_span {p q r blanks ds : List Char} {negative : Bool}
    (hspace : span isSpace p = some (blanks, q)) (hsign : sign q = (negative, r))
    {rest : List Char} (hdigits : span Char.isDigit r = some (ds, rest)) (hne : ds ≠ []) :
    strtol p = some (some (max (-2 ^ 63) (min (2 ^ 63 - 1)
      (if negative then -(ofDigitList 10 ds : ℤ) else ofDigitList 10 ds)))) := by
  rw [strtol, hspace]
  show ((span Char.isDigit (sign q).2).bind fun s ↦
    if s.1 = [] then some none
    else some (some (max (-2 ^ 63) (min (2 ^ 63 - 1)
      (if (sign q).1 then -(ofDigitList 10 s.1 : ℤ) else ofDigitList 10 s.1))))) = _
  rw [hsign, hdigits]
  exact if_neg hne

/-- A number is read as it has been written. -/
theorem strtol_decimal {n : ℤ} (h : IsLong n) (rest : List Char) :
    strtol (decimal n ++ '\n' :: rest) = some (some n) := by
  obtain ⟨hlow, hhigh⟩ := h
  have hclip : max (-2 ^ 63) (min (2 ^ 63 - 1) n) = n := by omega
  have hdigits := span_toDigits n.natAbs rest
  obtain ⟨c, cs, hcons⟩ := List.exists_cons_of_ne_nil
    (Nat.toDigits_ne_nil (b := 10) (n := n.natAbs))
  have hc : c.isDigit = true := isDigit_of_mem_toDigits (hcons ▸ List.mem_cons_self)
  have hne : c :: cs ≠ [] := List.cons_ne_nil c cs
  rw [hcons, List.cons_append] at hdigits
  rw [decimal, hcons]
  split
  case isTrue hneg =>
    refine (strtol_of_span (p := '-' :: c :: (cs ++ '\n' :: rest)) (span_cons_of_not (by decide) _)
      (sign_signed (some true) (.inl hc) _) hdigits hne).trans ?_
    rw [Option.getD_some, if_pos rfl, ← hcons, ofDigitList_toDigits,
      show -(n.natAbs : ℤ) = n by omega, hclip]
  case isFalse hneg =>
    refine (strtol_of_span (p := c :: (cs ++ '\n' :: rest))
      (span_cons_of_not (isSpace_of_isDigit hc) _) (sign_signed none (.inl hc) _) hdigits
      hne).trans ?_
    rw [Option.getD_none, if_neg Bool.false_ne_true, ← hcons, ofDigitList_toDigits,
      show (n.natAbs : ℤ) = n by omega, hclip]

theorem toLong_decimal {n : ℤ} (h : IsLong n) (rest : List Char) :
    toLong (decimal n) ('\n' :: rest) = .ok n := by
  rw [toLong, if_neg (decimal_ne_nil n), strtol_decimal h]
  rfl

theorem not_mem_decimal {n : ℤ} {c : Char} (h : c ≠ '-') (hc : c.isDigit = false) :
    c ∉ decimal n := by
  intro hmem
  rcases mem_decimal hmem with heq | hdigit
  · exact h heq
  · exact Bool.false_ne_true (hc.symm.trans hdigit)

/-! ## Reading a statement back -/

section Statements

variable {σ : Type} {m : Model σ} {mode : ParseMode} {s : σ} {rest : List Char}

/-- Where the parser goes on behind a statement. -/
def nextLine (rest : List Char) (r : ParseMode × σ) : (ParseMode × σ) × Option (List Char) :=
  (r, if r.1 = .exit then none else some rest)

/-- A command is obeyed. -/
theorem parseRound_written_command {c : Char} {name : List Char} (hc : c ≠ '%')
    (hbreak : '\n' ∉ name) : parseRound m mode s ('%' :: c :: (name ++ '\n' :: rest)) =
      (runCommand m (c :: name) mode s).map (nextLine rest) := by
  rw [parseRound_command (isLine_of_not_mem hbreak rest), commandName, if_neg hc]
  cases runCommand m (c :: name) mode s with
  | error e => rfl
  | ok r =>
    show (if r.1 = .exit then _ else _ : Except _ _) =
      .ok (r, if r.1 = .exit then none else some rest)
    split
    case isTrue => rfl
    case isFalse => rfl

/-- Another line is run. -/
theorem parseRound_written_line {line : List Char} (hbreak : '\n' ∉ line)
    (hhead : ∃ c cs, line = c :: cs ∧ c ≠ '%') (hmode : mode ≠ .exit) :
    parseRound m mode s (line ++ '\n' :: rest) =
      (runLine m mode s line ('\n' :: rest)).map fun s ↦ nextLine rest (mode, s) := by
  obtain ⟨c, cs, rfl, hc⟩ := hhead
  rw [parseRound_line (isLine_of_not_mem hbreak rest) mode s List.cons_append hc]
  cases runLine m mode s (c :: cs) ('\n' :: rest) with
  | error e => rfl
  | ok s => exact congrArg (fun next ↦ Except.ok ((mode, s), next)) (if_neg hmode).symm

theorem sessionParts_line {cmd value : List Char} (hcmd : ':' ∉ cmd) (hvalue : ':' ∉ value) :
    sessionParts (cmd ++ ':' :: value) = .ok (cmd, value) := by
  obtain ⟨hdrop, htake⟩ := split_append hcmd value
  rw [sessionParts, hdrop, htake]
  exact if_neg hvalue

/-- A line of a session is run. -/
theorem parseRound_written_session {cmd value : List Char} (hcmd : ':' ∉ cmd ∧ '\n' ∉ cmd)
    (hvalue : CanSet value) (hhead : ∃ c cs, cmd = c :: cs ∧ c ≠ '%') :
    parseRound m .session s ((cmd ++ ':' :: value) ++ '\n' :: rest) =
      (runSession m cmd value ('\n' :: rest) s).map fun s ↦ nextLine rest (.session, s) := by
  obtain ⟨c, cs, heq, hc⟩ := hhead
  have hbreak : '\n' ∉ cmd ++ ':' :: value := by
    simp [hcmd.2, hvalue.2]
  rw [parseRound_written_line hbreak ⟨c, cs ++ ':' :: value, by rw [heq]; rfl, hc⟩ (by decide)]
  show ((sessionParts (cmd ++ ':' :: value)).bind _).map _ = _
  rw [sessionParts_line hcmd.1 hvalue.1]
  rfl

/-- An assignment is run. -/
theorem parseRound_written_assignment {name value : List Char} (h : CanAssign name value)
    (hmode : mode ≠ .exit) (run : List Char → List Char → σ → Except ParseFailure σ)
    (hrun : ∀ line beyond, runLine m mode s line beyond =
      (assignmentParts line).bind fun r ↦ run r.1 r.2 s) :
    parseRound m mode s ((name ++ '=' :: value) ++ '\n' :: rest) =
      (run name value s).map fun s ↦ nextLine rest (mode, s) := by
  rw [parseRound_written_line h.not_mem_line h.head_line hmode, hrun, h.assignmentParts_line]
  rfl

/-- A cell definition is run. -/
theorem parseRound_written_cell {d : CellDef} (h : d.CanWrite) (hmode : mode ≠ .exit)
    {action : CellDef → Action} {s' : σ}
    (hrun : ∀ line beyond, runLine m mode s line beyond =
      (cellDefParts line).bind fun d ↦ runCellDef m action d s') :
    parseRound m mode s (d.line ++ '\n' :: rest) =
      (perform m (action d) s').map fun s ↦ nextLine rest (mode, s) := by
  rw [parseRound_written_line h.not_mem_line h.head_line hmode, hrun, h.cellDefParts_line]
  show (runCellDef m action d s').map _ = _
  rw [h.runCellDef_eq]

theorem map_perform (a : Action) (s : σ) (mode : ParseMode) :
    ((perform m a s).bind fun s ↦ .ok (mode, s)).map (nextLine rest) =
      (perform m a s).map fun s ↦ nextLine rest (mode, s) := by
  cases perform m a s with
  | error e => rfl
  | ok s => rfl

/-- What a round makes of a line in session mode that comes to an action. -/
theorem parseRound_setting (a : Action) (cmd value : List Char) (hcmd : ':' ∉ cmd ∧ '\n' ∉ cmd)
    (hvalue : CanSet value) (hhead : ∃ c cs, cmd = c :: cs ∧ c ≠ '%')
    (hrun : runSession m cmd value ('\n' :: rest) s = perform m a s) :
    parseRound m .session s ((cmd ++ ':' :: value) ++ '\n' :: rest) =
      ((perform m a s).bind fun s ↦ .ok (.session, s)).map (nextLine rest) := by
  rw [parseRound_written_session hcmd hvalue hhead, hrun, map_perform]

theorem canSet_decimal (n : ℤ) : CanSet (decimal n) :=
  ⟨not_mem_decimal (by decide) (by decide), not_mem_decimal (by decide) (by decide)⟩

/-- In session mode a limit is set to the number that has been written. -/
theorem runSession_rowLimit {n : ℤ} (h : IsLong n) :
    runSession m "row-limit".toList (decimal n) ('\n' :: rest) s = perform m (.rowLimit n) s := by
  rw [runSession, if_pos rfl, toLong_decimal h]
  rfl

theorem runSession_columnLimit {n : ℤ} (h : IsLong n) :
    runSession m "column-limit".toList (decimal n) ('\n' :: rest) s =
      perform m (.columnLimit n) s := by
  rw [runSession, if_neg (by decide), if_pos rfl, toLong_decimal h]
  rfl

theorem runSession_insertSheet (name beyond : List Char) :
    runSession m "insert-sheet".toList name beyond s = perform m (.insertSheet name) s := by
  rw [runSession, if_neg (by decide), if_neg (by decide), if_pos rfl]

theorem runSession_currentSheet (name beyond : List Char) :
    runSession m "current-sheet".toList name beyond s = perform m (.currentSheet name) s := by
  rw [runSession, if_neg (by decide), if_neg (by decide), if_neg (by decide), if_pos rfl]

theorem runSession_displaySheetName (value beyond : List Char) :
    runSession m "display-sheet-name".toList value beyond s =
      perform m (.displaySheetName value) s := by
  rw [runSession, if_neg (by decide), if_neg (by decide), if_neg (by decide), if_neg (by decide),
    if_pos rfl]

/-- A round reads the line of an action, and does the action. -/
theorem parseRound_action {a : Action} (h : a.CanWrite mode) :
    parseRound m mode s (a.line ++ '\n' :: rest) =
      ((Statement.action a).run m mode s).map (nextLine rest) := by
  have hcommand (c : Char) (name : List Char) (hc : c ≠ '%') (hbreak : '\n' ∉ name)
      (hline : a.line = '%' :: c :: name)
      (hrun : runCommand m (c :: name) mode s = (Statement.action a).run m mode s) :
      parseRound m mode s (a.line ++ '\n' :: rest) =
        ((Statement.action a).run m mode s).map (nextLine rest) := by
    rw [hline, ← hrun]
    exact parseRound_written_command hc hbreak
  cases a with
  | «calc» => exact hcommand 'c' "alc".toList (by decide) (by decide) rfl rfl
  | recalc => exact hcommand 'r' "ecalc".toList (by decide) (by decide) rfl rfl
  | check => exact hcommand 'c' "heck".toList (by decide) (by decide) rfl rfl
  | printDependency => exact hcommand 'p' "rint dependency".toList (by decide) (by decide) rfl rfl
  | pushTable =>
    obtain rfl : mode = .table := h
    exact hcommand 'p' "ush".toList (by decide) (by decide) rfl rfl
  | pushNamedExpression =>
    obtain rfl : mode = .namedExpression := h
    exact hcommand 'p' "ush".toList (by decide) (by decide) rfl rfl
  | rowLimit n =>
    obtain ⟨rfl, hn⟩ := h
    exact parseRound_setting (.rowLimit n) "row-limit".toList (decimal n) (by decide)
      (canSet_decimal n) ⟨'r', "ow-limit".toList, rfl, by decide⟩ (runSession_rowLimit hn)
  | columnLimit n =>
    obtain ⟨rfl, hn⟩ := h
    exact parseRound_setting (.columnLimit n) "column-limit".toList (decimal n) (by decide)
      (canSet_decimal n) ⟨'c', "olumn-limit".toList, rfl, by decide⟩ (runSession_columnLimit hn)
  | insertSheet name =>
    obtain ⟨rfl, hname⟩ := h
    exact parseRound_setting (.insertSheet name) "insert-sheet".toList name (by decide) hname
      ⟨'i', "nsert-sheet".toList, rfl, by decide⟩ (runSession_insertSheet name _)
  | currentSheet name =>
    obtain ⟨rfl, hname⟩ := h
    exact parseRound_setting (.currentSheet name) "current-sheet".toList name (by decide) hname
      ⟨'c', "urrent-sheet".toList, rfl, by decide⟩ (runSession_currentSheet name _)
  | displaySheetName value =>
    obtain ⟨rfl, hvalue⟩ := h
    exact parseRound_setting (.displaySheetName value) "display-sheet-name".toList value
      (by decide) hvalue ⟨'d', "isplay-sheet-name".toList, rfl, by decide⟩
      (runSession_displaySheetName value _)
  | initCells d =>
    obtain ⟨rfl, hd⟩ := h
    refine (parseRound_written_cell hd (by decide) fun _ _ ↦ rfl).trans ?_
    exact (map_perform (.initCells d) (m.initModel s) .init).symm
  | editCells d =>
    obtain ⟨rfl, hd⟩ := h
    refine (parseRound_written_cell hd (by decide) fun _ _ ↦ rfl).trans ?_
    exact (map_perform (.editCells d) s .edit).symm
  | result name value =>
    obtain ⟨rfl, hassign⟩ := h
    refine (parseRound_written_assignment hassign (by decide)
      (fun name value ↦ perform m (.result name value)) fun _ _ ↦ rfl).trans ?_
    exact (map_perform (.result name value) s .result).symm
  | resultCache name value =>
    obtain ⟨rfl, hassign⟩ := h
    refine (parseRound_written_assignment hassign (by decide)
      (fun name value ↦ perform m (.resultCache name value)) fun _ _ ↦ rfl).trans ?_
    exact (map_perform (.resultCache name value) s .resultCache).symm
  | table name value =>
    obtain ⟨rfl, hassign, hname⟩ := h
    refine (parseRound_written_assignment hassign (by decide) (runTable m)
      fun _ _ ↦ rfl).trans ?_
    rw [runTable, if_pos hname]
    exact (map_perform (.table name value) s .table).symm
  | namedExpression name value =>
    obtain ⟨rfl, hassign, hname⟩ := h
    refine (parseRound_written_assignment hassign (by decide) (runNamedExpression m)
      fun _ _ ↦ rfl).trans ?_
    rw [runNamedExpression, if_pos hname]
    exact (map_perform (.namedExpression name value) s .namedExpression).symm

/-- A round reads the line of a statement, and does what it says. -/
theorem parseRound_statement {st : Statement} (h : st.CanWrite mode) :
    parseRound m mode s (st.line ++ '\n' :: rest) = (st.run m mode s).map (nextLine rest) := by
  cases st with
  | comment text =>
    have hround : parseRound m mode s ('%' :: '%' :: (text ++ '\n' :: rest)) =
        (.ok (mode, s) : Except ParseFailure _).bind fun r ↦
          if r.1 = .exit then .ok (r, none)
          else (advance ('\n' :: rest)).map fun p ↦ (r, some p) :=
      parseRound_command (isLine_of_not_mem h rest) mode s '%'
    refine hround.trans ?_
    show (if mode = .exit then _ else _ : Except _ _) =
      .ok ((mode, s), if mode = .exit then none else some rest)
    split
    case isTrue => rfl
    case isFalse => rfl
  | mode mode' =>
    have hcommand {c : Char} {name : List Char} (hc : c ≠ '%') (hbreak : '\n' ∉ name)
        (hrun : runCommand m (c :: name) mode s = .ok (mode', m.enter mode' s))
        (hline : modeName mode' = c :: name) :
        parseRound m mode s (('%' :: modeName mode') ++ '\n' :: rest) =
          ((Statement.mode mode').run m mode s).map (nextLine rest) := by
      have hrun' : (Statement.mode mode').run m mode s = .ok (mode', m.enter mode' s) := rfl
      rw [hline, hrun', ← hrun]
      exact parseRound_written_command hc hbreak
    cases mode' with
    | unknown => exact absurd rfl h.1
    | exit => exact absurd rfl h.2
    | _ => exact hcommand (by decide) (by decide) rfl rfl
  | action a => exact parseRound_action h
  | exit => exact @parseRound_written_command _ _ _ _ rest 'e' "xit".toList (by decide) (by decide)

/-- A statement that is not to exit leads to the mode that the rest is written in. -/
theorem after_of_run {st : Statement} {r : ParseMode × σ} (h : st.run m mode s = .ok r)
    (hexit : r.1 ≠ .exit) : r.1 = st.after mode := by
  have hperform {a : Action} {s : σ}
      (h : ((perform m a s).bind fun s ↦ .ok (mode, s)) = .ok r) : r.1 = mode := by
    obtain ⟨s', _, hr⟩ := bind_eq_ok h
    exact congrArg Prod.fst (Except.ok.inj hr).symm
  cases st with
  | comment text => exact congrArg Prod.fst (Except.ok.inj h).symm
  | mode mode' => exact congrArg Prod.fst (Except.ok.inj h).symm
  | action a => cases a <;> exact hperform h
  | exit => exact absurd (congrArg Prod.fst (Except.ok.inj h).symm) hexit

/-- A round that fails ends the run, and so does one that leads to no other. -/
theorem run_of_parseRound {p : List Char} (hne : p ≠ []) (rounds : ℕ) :
    (∀ e, parseRound m mode s p = .error e → run m (rounds + 1) mode s p = .error e) ∧
      ∀ r next, parseRound m mode s p = .ok (r, next) →
        run m (rounds + 1) mode s p = next.elim (.ok r.2) (run m rounds r.1 r.2) := by
  obtain ⟨c, cs, rfl⟩ := List.exists_cons_of_ne_nil hne
  rw [run_cons]
  constructor
  · intro e h
    rw [h]
    rfl
  · intro r next h
    rw [h]
    cases next with
    | none => rfl
    | some q => rfl

end Statements

/-! ## Main result -/

/-- A model that notes what is done to it. -/
def noting : Model (List Action) where
  initModel s := s
  enter _ s := s
  perform a s := .ok (a :: s)

/-- A session with a limit, a number and the formulas of a matrix. -/
def sessionScript : List Statement :=
  [.comment "numbers".toList, .mode .session, .action (.rowLimit (-12)), .mode .init,
    .action (.initCells ⟨"A1".toList, "2.5".toList, .value, false⟩),
    .action (.initCells ⟨"B1:B2".toList, "A1:A2".toList, .formula, true⟩), .action .calc, .exit]

theorem canWriteAll_sessionScript : CanWriteAll .unknown sessionScript := by
  have hmode : ParseMode.session ≠ .unknown ∧ ParseMode.session ≠ .exit := by decide
  have hmode' : ParseMode.init ≠ .unknown ∧ ParseMode.init ≠ .exit := by decide
  have hlimit : -2 ^ 63 ≤ (-12 : ℤ) ∧ (-12 : ℤ) < 2 ^ 63 := by decide
  refine ⟨?_, hmode, ⟨rfl, hlimit⟩, hmode', ⟨rfl, ?_⟩, ⟨rfl, ?_⟩, trivial, trivial, trivial⟩
  · show '\n' ∉ "numbers".toList
    decide
  · exact ⟨by decide, by decide, by decide, by decide, by decide, by decide, by decide⟩
  · exact ⟨by decide, by decide, by decide, by decide, by decide, by decide, by decide⟩

end Ixion.ModelParser
