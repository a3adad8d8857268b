import Mathlib.Data.List.TakeWhile
import Mathlib.Logic.Relation
import Ixion.ModelParser.Lines

/-!
# Rounds of the parser

The line parsers stop where their line ends, which is at a line break or at the end of the file.
The outer loop moves the pointer on in either case.  So the parser leaves the file behind its last
line if that has no line break, unless the line is refused or the command is to exit.  It also
leaves it for a value that is missing, in the middle of the file.
-/

namespace Ixion.ModelParser

open Relation
open Lib.Strtod

/-! ## Results -/

section Regular

variable {α β : Type}

/-- There is a result or an exception. -/
def Regular (r : Except ParseFailure α) : Prop := ∀ e, r = .error e → ∃ msg, e = .throws msg

theorem regular_ok (a : α) : Regular (.ok a) := nofun

theorem regular_throws (msg : List Char) : Regular (.error (.throws msg) : Except _ α) := by
  rintro e ⟨⟩
  exact ⟨msg, rfl⟩

theorem not_regular_undefined : ¬ Regular (.error .undefined : Except _ α) := by
  intro h
  obtain ⟨msg, hmsg⟩ := h _ rfl
  exact nomatch hmsg

theorem Regular.bind {r : Except ParseFailure α} {f : α → Except ParseFailure β} (h : Regular r)
    (hf : ∀ a, r = .ok a → Regular (f a)) : Regular (r.bind f) := by
  cases r with
  | error e =>
    rintro e' ⟨⟩
    exact h e rfl
  | ok a => exact hf a rfl

theorem Regular.map {r : Except ParseFailure α} (h : Regular r) (f : α → β) :
    Regular (r.map f) := by
  cases r with
  | error e =>
    rintro e' ⟨⟩
    exact h e rfl
  | ok a => exact regular_ok (f a)

/-- There is a result or an exception, unless something holds: then the parser leaves the file. -/
structure RegularUnless (p : Prop) (r : Except ParseFailure α) : Prop where
  undefined : p → r = .error .undefined
  regular : ¬ p → Regular r

theorem RegularUnless.bind {p : Prop} {r : Except ParseFailure α}
    {f : α → Except ParseFailure β} (h : RegularUnless p r)
    (hf : ∀ a, r = .ok a → Regular (f a)) : RegularUnless p (r.bind f) where
  undefined hp := by
    rw [h.undefined hp]
    rfl
  regular hp := (h.regular hp).bind hf

theorem Regular.unless {p : Prop} {r : Except ParseFailure α} (h : Regular r) (hp : ¬ p) :
    RegularUnless p r := ⟨fun h ↦ absurd h hp, fun _ ↦ h⟩

theorem bind_eq_ok {r : Except ParseFailure α} {f : α → Except ParseFailure β} {b : β}
    (h : r.bind f = .ok b) : ∃ a, r = .ok a ∧ f a = .ok b := by
  cases r with
  | error e => exact nomatch h
  | ok a => exact ⟨a, rfl, h⟩

theorem regular_ite {c : Prop} [Decidable c] {r r' : Except ParseFailure α} (h : Regular r)
    (h' : Regular r') : Regular (if c then r else r') := by
  split
  · exact h
  · exact h'

end Regular

section Rounds

variable {σ : Type} (m : Model σ)

/-! ## Lines -/

/-- What is done for a line that is not a command, given what is in memory behind it. -/
def runLine (mode : ParseMode) (s : σ) (line beyond : List Char) : Except ParseFailure σ :=
  match mode with
  | .init => (cellDefParts line).bind fun d ↦ runCellDef m .initCells d (m.initModel s)
  | .edit => (cellDefParts line).bind fun d ↦ runCellDef m .editCells d s
  | .result => (assignmentParts line).bind fun r ↦ perform m (.result r.1 r.2) s
  | .resultCache => (assignmentParts line).bind fun r ↦ perform m (.resultCache r.1 r.2) s
  | .table => (assignmentParts line).bind fun r ↦ runTable m r.1 r.2 s
  | .namedExpression => (assignmentParts line).bind fun r ↦ runNamedExpression m r.1 r.2 s
  | .session => (sessionParts line).bind fun r ↦ runSession m r.1 r.2 beyond s
  | .unknown => .error (parseError "unknown parse mode".toList)
  | .exit => .error (parseError "unknown parse mode".toList)

variable {m} {mode : ParseMode} {s : σ} {line rest : List Char}

theorem parseAssigned_append (h : IsLine line rest)
    (run : List Char → List Char → σ → Except ParseFailure σ) (s : σ) :
    parseAssigned run s (line ++ rest) =
      ((assignmentParts line).bind fun r ↦ run r.1 r.2 s).map fun s ↦ (s, rest) := by
  have hparse : parseAssigned run s (line ++ rest) =
      (parseAssignment (line ++ rest)).bind fun r ↦
        (run r.1.1 r.1.2 s).map fun s ↦ (s, r.2) := rfl
  rw [hparse, parseAssignment_append h]
  cases assignmentParts line with
  | error e => rfl
  | ok r => rfl

theorem parseCell_append (h : IsLine line rest) (run : CellDef → Except ParseFailure σ) :
    ((parseCellDefinition (line ++ rest)).bind fun r ↦ (run r.1).map fun s ↦ (s, r.2)) =
      ((cellDefParts line).bind run).map fun s ↦ (s, rest) := by
  rw [parseCellDefinition_append h]
  cases cellDefParts line with
  | error e => rfl
  | ok d => rfl

theorem parseSession_append (h : IsLine line rest) (s : σ) :
    parseSession m s (line ++ rest) =
      ((sessionParts line).bind fun r ↦ runSession m r.1 r.2 rest s).map fun s ↦ (s, rest) := by
  have hparse : parseSession m s (line ++ rest) =
      (sessionLoop [] [] false (line ++ rest)).bind fun r ↦
        (runSession m r.1.1 r.1.2 r.2 s).map fun s ↦ (s, r.2) := rfl
  rw [hparse, sessionLoop_append h]
  cases sessionParts line with
  | error e => rfl
  | ok r => rfl

/-- All line parsers stop where the line ends. -/
theorem parseLine_append (h : IsLine line rest) (mode : ParseMode) (s : σ) :
    parseLine m mode s (line ++ rest) = (runLine m mode s line rest).map fun s ↦ (s, rest) := by
  cases mode with
  | unknown => rfl
  | exit => rfl
  | init => exact parseCell_append h fun d ↦ runCellDef m .initCells d (m.initModel s)
  | edit => exact parseCell_append h fun d ↦ runCellDef m .editCells d s
  | result => exact parseAssigned_append h (fun name value ↦ perform m (.result name value)) s
  | resultCache =>
    exact parseAssigned_append h (fun name value ↦ perform m (.resultCache name value)) s
  | table => exact parseAssigned_append h _ s
  | namedExpression => exact parseAssigned_append h _ s
  | session => exact parseSession_append h s

/-! ## What is missing -/

/-- A line with a name and another opening brace, behind which there is not more than an equal
sign. -/
inductive NoMatrix : List Char → Prop
  | mk {name eq : List Char} (hname : '\x7d' ∉ name) (heq : eq = [] ∨ eq = ['=']) :
    NoMatrix ('\x7b' :: (name ++ '\x7d' :: '\x7b' :: eq))

/-- A line with a limit, but without a number; or with what `strtol` takes for the beginning of one
that goes on up to the end of the file. -/
inductive NoLimit : (line rest : List Char) → Prop
  | mk {cmd value line rest : List Char}
    (hcmd : cmd = "row-limit".toList ∨ cmd = "column-limit".toList)
    (hline : sessionParts line = .ok (cmd, value))
    (hvalue : value = [] ∨ strtol (value ++ rest) = none) : NoLimit line rest

/-- Something is missing that is read nevertheless. -/
def Missing (mode : ParseMode) (line rest : List Char) : Prop :=
  match mode with
  | .init => NoMatrix line
  | .edit => NoMatrix line
  | .session => NoLimit line rest
  | _ => False

theorem regular_perform (a : Action) (s : σ) : Regular (perform m a s) := by
  rw [perform]
  cases m.perform a s with
  | error msg => exact regular_throws msg
  | ok s => exact regular_ok s

theorem regular_closeCell (name value : List Char) (type : CellType) (matrixValue : Bool) :
    Regular (closeCell name value type matrixValue) :=
  regular_ite (regular_throws _) (regular_ok _)

theorem regular_plainParts (line : List Char) : Regular (plainParts line) := by
  rw [plainParts]
  cases line.dropWhile (separatorType · = none) with
  | nil => exact regular_closeCell _ _ _ _
  | cons c value => exact regular_ite (regular_throws _) (regular_closeCell _ _ _ _)

/-- Behind a name in braces, only the value of a matrix may be missing. -/
theorem bracedParts_spec (name after : List Char) :
    (∃ eq, after = '\x7b' :: eq ∧ (eq = [] ∨ eq = ['=']) ∧
        bracedParts name after = .error .undefined) ∨
      Regular (bracedParts name after) := by
  cases after with
  | nil => exact .inr (regular_closeCell _ _ _ _)
  | cons c value =>
    rw [bracedParts]
    by_cases hbrace : c = '\x7b'
    · rw [if_pos hbrace, hbrace]
      cases value with
      | nil => exact .inl ⟨[], rfl, .inl rfl, rfl⟩
      | cons d value =>
        rw [matrixParts]
        by_cases hsep : d = '='
        · rw [if_neg (not_not.mpr hsep)]
          by_cases hvalue : value = []
          · rw [if_pos hvalue]
            exact .inl ⟨['='], by rw [hsep, hvalue], .inr rfl, rfl⟩
          · rw [if_neg hvalue]
            exact .inr (regular_closeCell _ _ _ _)
        · rw [if_pos hsep]
          exact .inr (regular_throws _)
    · rw [if_neg hbrace]
      cases separatorType c with
      | none => exact .inr (regular_throws _)
      | some type => exact .inr (regular_closeCell _ _ _ _)

/-- What is in front of a character and what is behind it. -/
theorem eq_of_dropWhile {b d : Char} {line after : List Char}
    (h : line.dropWhile (· ≠ b) = d :: after) :
    line = line.takeWhile (· ≠ b) ++ b :: after ∧ b ∉ line.takeWhile (· ≠ b) := by
  have hline := @List.takeWhile_append_dropWhile _ (· ≠ b) line
  have hhead := List.head?_dropWhile_not (· ≠ b) line
  rw [h] at hline hhead
  obtain rfl : d = b := by simpa using hhead
  exact ⟨hline.symm, fun hmem ↦ by simpa using List.mem_takeWhile_imp hmem⟩

theorem split_append {b : Char} {name : List Char} (h : b ∉ name) (after : List Char) :
    (name ++ b :: after).dropWhile (· ≠ b) = b :: after ∧
      (name ++ b :: after).takeWhile (· ≠ b) = name := by
  have hname : ∀ c ∈ name, decide (c ≠ b) = true := by
    rintro c hc
    exact decide_eq_true (ne_of_mem_of_not_mem hc h)
  constructor
  · rw [List.dropWhile_append_of_pos hname, List.dropWhile_cons_of_neg (by simp)]
  · rw [List.takeWhile_append_of_pos hname, List.takeWhile_cons_of_neg (by simp), List.append_nil]

theorem cellDefParts_noMatrix (h : NoMatrix line) : cellDefParts line = .error .undefined := by
  obtain ⟨hname, heq⟩ := h
  obtain ⟨hdrop, htake⟩ := split_append hname _
  rw [cellDefParts, if_pos rfl, hdrop, htake]
  rcases heq with rfl | rfl
  · rfl
  · rfl

/-- The value of a matrix is the only part of a cell definition that may be missing. -/
theorem regularUnless_cellDefParts (line : List Char) :
    RegularUnless (NoMatrix line) (cellDefParts line) := by
  refine ⟨cellDefParts_noMatrix, fun hmatrix ↦ ?_⟩
  cases line with
  | nil => exact regular_closeCell _ _ _ _
  | cons c line =>
    rw [cellDefParts]
    by_cases hbrace : c = '\x7b'
    · rw [if_pos hbrace]
      cases hafter : line.dropWhile (· ≠ '\x7d') with
      | nil => exact regular_closeCell _ _ _ _
      | cons d after =>
        obtain ⟨hline, hname⟩ := eq_of_dropWhile hafter
        refine (bracedParts_spec _ after).resolve_left ?_
        rintro ⟨eq, rfl, heq, -⟩
        refine hmatrix ?_
        rw [hbrace, hline]
        exact .mk hname heq
    · rw [if_neg hbrace]
      exact regular_plainParts _

theorem regularUnless_toLong (value beyond : List Char) :
    RegularUnless (value = [] ∨ strtol (value ++ beyond) = none) (toLong value beyond) := by
  rw [toLong]
  constructor
  · rintro (hvalue | hnumber)
    · exact if_pos hvalue
    · rw [hnumber, ite_self]
      rfl
  · intro h
    rw [not_or] at h
    rw [if_neg h.1]
    cases hnumber : strtol (value ++ beyond) with
    | none => exact absurd hnumber h.2
    | some n =>
      cases n with
      | none => exact regular_throws _
      | some n => exact regular_ok n

theorem regular_sessionParts (line : List Char) : Regular (sessionParts line) := by
  rw [sessionParts]
  cases line.dropWhile (· ≠ ':') with
  | nil => exact regular_ok _
  | cons c value => exact regular_ite (regular_throws _) (regular_ok _)

/-- A limit is the only value that may be missing in session mode. -/
theorem regularUnless_runSession (cmd value beyond : List Char) (s : σ) :
    RegularUnless ((cmd = "row-limit".toList ∨ cmd = "column-limit".toList) ∧
      (value = [] ∨ strtol (value ++ beyond) = none)) (runSession m cmd value beyond s) := by
  have hlimit := regularUnless_toLong value beyond
  by_cases hrow : cmd = "row-limit".toList
  · have hrun : runSession m cmd value beyond s =
        (toLong value beyond).bind fun n ↦ perform m (.rowLimit n) s := by
      rw [runSession, if_pos hrow]
      rfl
    rw [hrun, and_iff_right (.inl hrow)]
    exact hlimit.bind fun n _ ↦ regular_perform _ s
  by_cases hcolumn : cmd = "column-limit".toList
  · have hrun : runSession m cmd value beyond s =
        (toLong value beyond).bind fun n ↦ perform m (.columnLimit n) s := by
      rw [runSession, if_neg hrow, if_pos hcolumn]
      rfl
    rw [hrun, and_iff_right (.inr hcolumn)]
    exact hlimit.bind fun n _ ↦ regular_perform _ s
  rw [runSession, if_neg hrow, if_neg hcolumn]
  refine Regular.unless ?_ fun h ↦ h.1.elim hrow hcolumn
  exact regular_ite (regular_perform _ _) (regular_ite (regular_perform _ _)
    (regular_ite (regular_perform _ _) (regular_ok s)))

theorem regularUnless_sessionLine (line rest : List Char) (s : σ) :
    RegularUnless (NoLimit line rest) (runLine m .session s line rest) := by
  have hparts := regular_sessionParts line
  have hrun : runLine m .session s line rest =
      (sessionParts line).bind fun r ↦ runSession m r.1 r.2 rest s := rfl
  rw [hrun]
  constructor
  · rintro ⟨hcmd, hline, hvalue⟩
    rw [hline]
    exact (regularUnless_runSession _ _ rest s).undefined ⟨hcmd, hvalue⟩
  · intro hlimit
    refine hparts.bind fun r hline ↦ (regularUnless_runSession r.1 r.2 rest s).regular ?_
    rintro ⟨hcmd, hvalue⟩
    exact hlimit (.mk hcmd hline hvalue)

theorem regular_assignment (line : List Char) {run : List Char → List Char → Except ParseFailure σ}
    (hrun : ∀ name value, Regular (run name value)) :
    Regular ((assignmentParts line).bind fun r ↦ run r.1 r.2) := by
  have hparts : Regular (assignmentParts line) :=
    regular_ite (regular_throws _) (regular_ite (regular_throws _) (regular_ok _))
  exact hparts.bind fun r _ ↦ hrun r.1 r.2

theorem regular_runCellDef (action : CellDef → Action) (d : CellDef) (s : σ) :
    Regular (runCellDef m action d s) := regular_ite (regular_ok s) (regular_perform _ s)

theorem regular_runTable (name value : List Char) (s : σ) :
    Regular (runTable m name value s) := regular_ite (regular_perform _ s) (regular_ok s)

theorem regular_runNamedExpression (name value : List Char) (s : σ) :
    Regular (runNamedExpression m name value s) :=
  regular_ite (regular_perform _ s) (regular_throws _)

/-- A line is read as a whole and no further, unless something is missing in it. -/
theorem regularUnless_runLine (mode : ParseMode) (s : σ) (line rest : List Char) :
    RegularUnless (Missing mode line rest) (runLine m mode s line rest) := by
  cases mode with
  | init => exact (regularUnless_cellDefParts line).bind fun d _ ↦ regular_runCellDef _ d _
  | edit => exact (regularUnless_cellDefParts line).bind fun d _ ↦ regular_runCellDef _ d s
  | session => exact regularUnless_sessionLine line rest s
  | result => exact (regular_assignment line fun _ _ ↦ regular_perform _ s).unless id
  | resultCache => exact (regular_assignment line fun _ _ ↦ regular_perform _ s).unless id
  | table =>
    exact (regular_assignment line fun name value ↦ regular_runTable name value s).unless id
  | namedExpression =>
    exact (regular_assignment line fun name value ↦
      regular_runNamedExpression name value s).unless id
  | unknown => exact (regular_throws _).unless id
  | exit => exact (regular_throws _).unless id

theorem not_missing_nil (mode : ParseMode) (rest : List Char) : ¬ Missing mode [] rest := by
  have hlimit : ¬ NoLimit [] rest := by
    rintro ⟨hcmd, hline, -⟩
    obtain ⟨rfl, -⟩ := Prod.mk.inj (Except.ok.inj hline)
    exact hcmd.elim nofun nofun
  cases mode with
  | init => exact nofun
  | edit => exact nofun
  | session => exact hlimit
  | _ => exact id

/-! ## Rounds -/

variable (m) in
/-- A line with which the parser leaves the file. -/
inductive RunsPast : ParseMode → σ → (line rest : List Char) → Prop
  /-- A percent sign at the end of the file. -/
  | percent (mode : ParseMode) (s : σ) : RunsPast mode s ['%'] []
  /-- A last command without a line break, which is obeyed and is not to exit. -/
  | command {mode : ParseMode} {s : σ} {c : Char} {line : List Char} {r : ParseMode × σ}
    (h : runCommand m (commandName c line) mode s = .ok r) (hr : r.1 ≠ .exit) :
    RunsPast mode s ('%' :: c :: line) []
  /-- Another line in which something is missing. -/
  | missing {mode : ParseMode} (s : σ) {c : Char} (hc : c ≠ '%') {line rest : List Char}
    (h : Missing mode (c :: line) rest) : RunsPast mode s (c :: line) rest
  /-- Another last line without a line break, which is not refused. -/
  | line {mode : ParseMode} {s s' : σ} {c : Char} (hc : c ≠ '%') {line : List Char}
    (h : runLine m mode s (c :: line) [] = .ok s') : RunsPast mode s (c :: line) []

theorem parseRound_command (h : IsLine line rest) (mode : ParseMode) (s : σ) (c : Char) :
    parseRound m mode s ('%' :: c :: (line ++ rest)) =
      (runCommand m (commandName c line) mode s).bind fun r ↦
        if r.1 = .exit then .ok (r, none) else (advance rest).map fun p ↦ (r, some p) := by
  have hround : parseRound m mode s ('%' :: c :: (line ++ rest)) =
      (parseCommandToBuffer ('%' :: c :: (line ++ rest))).bind fun b ↦
        (runCommand m b.1 mode s).bind fun r ↦
          if r.1 = .exit then .ok (r, none) else (advance b.2).map fun p ↦ (r, some p) := by
    show ((parseCommandToBuffer ('%' :: c :: (line ++ rest))).bind fun b ↦
      (runCommand m b.1 mode s).bind fun r ↦ .ok (r, b.2)).bind _ = _
    cases parseCommandToBuffer ('%' :: c :: (line ++ rest)) with
    | error e => rfl
    | ok b =>
      show ((runCommand m b.1 mode s).bind fun r ↦ .ok (r, b.2)).bind _ =
        (runCommand m b.1 mode s).bind _
      cases runCommand m b.1 mode s with
      | error e => rfl
      | ok r => rfl
  rw [hround, parseCommandToBuffer_cons c h]
  rfl

theorem parseRound_line (h : IsLine line rest) (mode : ParseMode) (s : σ) {c : Char}
    {cs : List Char} (heq : line ++ rest = c :: cs) (hc : c ≠ '%') :
    parseRound m mode s (line ++ rest) =
      (runLine m mode s line rest).bind fun s ↦
        (advance rest).map fun p ↦ ((mode, s), some p) := by
  have hround : parseRound m mode s (c :: cs) =
      if c = '%' then (parseCommand m mode s (c :: cs)).bind _
      else (parseLine m mode s (c :: cs)).bind fun b ↦
        (advance b.2).map fun p ↦ ((mode, b.1), some p) := rfl
  rw [heq, hround, if_neg hc, ← heq, parseLine_append h]
  cases runLine m mode s line rest with
  | error e => rfl
  | ok s => rfl

theorem regular_runCommand (name : List Char) (mode : ParseMode) (s : σ) :
    Regular (runCommand m name mode s) := by
  have hperform : ∀ action, Regular ((perform m action s).bind fun s ↦ .ok (mode, s)) :=
    fun action ↦ (regular_perform action s).bind fun s _ ↦ regular_ok (mode, s)
  unfold runCommand
  cases findCommand name with
  | unknown => exact regular_throws _
  | «calc» => exact hperform .calc
  | recalc => exact hperform .recalc
  | check => exact hperform .check
  | printDependency => exact hperform .printDependency
  | push =>
    cases mode with
    | table => exact hperform .pushTable
    | namedExpression => exact hperform .pushNamedExpression
    | _ => exact regular_throws _
  | _ => exact regular_ok _

/-- The pointer is moved on by one character. -/
theorem length_lt_of_advance {α : Type} {p q : List Char} {a a' : α}
    (h : ((advance p).map fun q ↦ (a, some q)) = .ok (a', some q)) : q.length < p.length := by
  cases p with
  | nil => exact nomatch h
  | cons c cs =>
    obtain rfl : cs = q := Option.some.inj (Prod.mk.inj (Except.ok.inj h)).2
    exact Nat.lt_succ_self _

theorem regular_advance {p : List Char} (h : p ≠ []) : Regular (advance p) := by
  cases p with
  | nil => exact absurd rfl h
  | cons c cs => exact regular_ok cs

variable (m) in
/-- The parser is at a line with which it leaves the file. -/
def LeavesFile (mode : ParseMode) (s : σ) (p : List Char) : Prop :=
  ∃ line rest, p = line ++ rest ∧ IsLine line rest ∧ RunsPast m mode s line rest

theorem parseRound_leavesFile {p : List Char} (h : LeavesFile m mode s p) :
    parseRound m mode s p = .error .undefined := by
  obtain ⟨line, rest, rfl, hline, hpast⟩ := h
  cases hpast with
  | percent => rfl
  | command h hr =>
    rw [List.cons_append, List.cons_append, parseRound_command hline.tail.2.tail.2, h]
    exact if_neg hr
  | missing hc h =>
    rw [parseRound_line hline mode s List.cons_append hc, (regularUnless_runLine ..).undefined h]
    rfl
  | line hc h =>
    rw [parseRound_line hline mode s List.cons_append hc, h]
    rfl

theorem regular_parseRound {c : Char} {cs : List Char} (h : ¬ LeavesFile m mode s (c :: cs)) :
    Regular (parseRound m mode s (c :: cs)) := by
  by_cases hc : c = '%'
  · subst hc
    cases cs with
    | nil => exact absurd ⟨['%'], [], rfl, ⟨by decide, .inl rfl⟩, .percent mode s⟩ h
    | cons d ds =>
      obtain ⟨line, rest, rfl, hline⟩ := exists_isLine ds
      rw [parseRound_command hline]
      refine (regular_runCommand _ mode s).bind fun r hr ↦ ?_
      by_cases hexit : r.1 = .exit
      · rw [if_pos hexit]
        exact regular_ok _
      rw [if_neg hexit]
      refine (regular_advance ?_).map _
      rintro rfl
      by_cases hd : d = '\n'
      · -- the name of a command does not begin with a line break
        subst hd
        exact nomatch hr
      · refine h ⟨'%' :: d :: line, [], rfl, ⟨?_, .inl rfl⟩, .command hr hexit⟩
        simp [Ne.symm hd, hline.not_mem]
  · obtain ⟨line, rest, heq, hline⟩ := exists_isLine (c :: cs)
    rw [heq, parseRound_line hline mode s heq.symm hc]
    have hmissing : ¬ Missing mode line rest := by
      cases line with
      | nil => exact not_missing_nil mode rest
      | cons d line =>
        obtain rfl : c = d := (List.cons.inj heq).1
        exact fun hmissing ↦ h ⟨_, rest, heq, hline, .missing s hc hmissing⟩
    refine ((regularUnless_runLine mode s line rest).regular hmissing).bind fun s' hs ↦ ?_
    refine (regular_advance ?_).map _
    rintro rfl
    cases line with
    | nil => exact nomatch heq
    | cons d line =>
      obtain rfl : c = d := (List.cons.inj heq).1
      exact h ⟨_, [], heq, hline, .line hc hs⟩

theorem length_lt_of_parseRound {p q : List Char} {r : ParseMode × σ}
    (h : parseRound m mode s p = .ok (r, some q)) : q.length < p.length := by
  cases p with
  | nil => exact nomatch h
  | cons c cs =>
    by_cases hc : c = '%'
    · subst hc
      cases cs with
      | nil => exact nomatch h
      | cons d ds =>
        obtain ⟨line, rest, rfl, hline⟩ := exists_isLine ds
        rw [parseRound_command hline] at h
        obtain ⟨r', -, h⟩ := bind_eq_ok h
        by_cases hexit : r'.1 = .exit
        · rw [if_pos hexit] at h
          exact nomatch h
        · rw [if_neg hexit] at h
          have hlt := length_lt_of_advance h
          simp only [List.length_cons, List.length_append]
          omega
    · obtain ⟨line, rest, heq, hline⟩ := exists_isLine (c :: cs)
      rw [heq, parseRound_line hline mode s heq.symm hc] at h
      obtain ⟨s', -, h⟩ := bind_eq_ok h
      have hlt := length_lt_of_advance h
      rw [heq, List.length_append]
      omega

/-! ## Result -/

variable (m) in
/-- A round begins with the mode, the model and the rest of the file that another one leaves. -/
def Next (st st' : (ParseMode × σ) × List Char) : Prop :=
  parseRound m st.1.1 st.1.2 st.2 = .ok (st'.1, some st'.2)

theorem run_cons (rounds : ℕ) (mode : ParseMode) (s : σ) (c : Char) (cs : List Char) :
    run m (rounds + 1) mode s (c :: cs) =
      (parseRound m mode s (c :: cs)).bind fun
        | (r, none) => .ok r.2
        | (r, some p) => run m rounds r.1 r.2 p := by
  show Bind.bind (parseRound m mode s (c :: cs)) _ = _
  cases parseRound m mode s (c :: cs) with
  | error e => rfl
  | ok r =>
    obtain ⟨r, next⟩ := r
    cases next with
    | none => rfl
    | some p => rfl

theorem not_leavesFile_nil : ¬ LeavesFile m mode s [] := by
  rintro ⟨line, rest, heq, -, hpast⟩
  obtain ⟨rfl, rfl⟩ := List.nil_eq_append_iff.mp heq
  exact nomatch hpast

/-- Where a round does not lead to another one, the parser comes to nothing else. -/
theorem not_leavesFile_of_not_next {r : ParseMode × σ} {p : List Char}
    (hnext : ∀ st, ¬ Next m (r, p) st) (hleaves : ¬ LeavesFile m r.1 r.2 p) :
    ∀ st, ReflTransGen (Next m) (r, p) st → ¬ LeavesFile m st.1.1 st.1.2 st.2 := by
  intro st hst
  rcases ReflTransGen.cases_head_iff.mp hst with rfl | ⟨st', hstep, -⟩
  · exact hleaves
  · exact absurd hstep (hnext st')

theorem next_iff_of_parseRound {r r' : ParseMode × σ} {p q : List Char}
    (hround : parseRound m r.1 r.2 p = .ok (r', some q)) {st : (ParseMode × σ) × List Char} :
    Next m (r, p) st ↔ st = (r', q) := by
  obtain ⟨r'', q'⟩ := st
  rw [Next, hround]
  constructor
  · intro hnext
    obtain ⟨rfl, hq⟩ := Prod.mk.inj (Except.ok.inj hnext)
    rw [Option.some.inj hq]
  · rintro ⟨⟩
    rfl

/-- Where a round leads to another one, the parser comes to that one and what follows it. -/
theorem stays_iff_of_parseRound {r r' : ParseMode × σ} {p q : List Char}
    (hround : parseRound m r.1 r.2 p = .ok (r', some q)) (hleaves : ¬ LeavesFile m r.1 r.2 p) :
    (∀ st, ReflTransGen (Next m) (r, p) st → ¬ LeavesFile m st.1.1 st.1.2 st.2) ↔
      ∀ st, ReflTransGen (Next m) (r', q) st → ¬ LeavesFile m st.1.1 st.1.2 st.2 := by
  constructor
  · intro h st hst
    exact h st (.head ((next_iff_of_parseRound hround).mpr rfl) hst)
  · intro h st hst
    rcases ReflTransGen.cases_head_iff.mp hst with rfl | ⟨st', hstep, hst⟩
    · exact hleaves
    · rw [(next_iff_of_parseRound hround).mp hstep] at hst
      exact h st hst

/-- With as many rounds as there are characters, there is a result or an exception unless the
parser comes to a line with which it leaves the file. -/
theorem regular_run_iff {rounds : ℕ} {r : ParseMode × σ} {p : List Char}
    (hrounds : p.length ≤ rounds) :
    Regular (run m rounds r.1 r.2 p) ↔
      ∀ st, ReflTransGen (Next m) (r, p) st → ¬ LeavesFile m st.1.1 st.1.2 st.2 := by
  induction rounds generalizing r p with
  | zero =>
    obtain rfl : p = [] := List.length_eq_zero_iff.mp (Nat.le_zero.mp hrounds)
    exact iff_of_true (regular_ok _)
      (not_leavesFile_of_not_next (fun st ↦ nofun) not_leavesFile_nil)
  | succ rounds ih =>
    cases p with
    | nil =>
      exact iff_of_true (regular_ok _)
        (not_leavesFile_of_not_next (fun st ↦ nofun) not_leavesFile_nil)
    | cons c cs =>
      rw [run_cons]
      by_cases hleaves : LeavesFile m r.1 r.2 (c :: cs)
      · rw [parseRound_leavesFile hleaves]
        exact iff_of_false not_regular_undefined fun h ↦ h _ .refl hleaves
      have hregular := regular_parseRound hleaves
      cases hround : parseRound m r.1 r.2 (c :: cs) with
      | error e =>
        rw [hround] at hregular
        refine iff_of_true (fun e' heq ↦ ?_)
          (not_leavesFile_of_not_next (fun st hnext ↦ ?_) hleaves)
        · obtain rfl : e = e' := Except.error.inj heq
          exact hregular e rfl
        · rw [Next, hround] at hnext
          exact nomatch hnext
      | ok result =>
        obtain ⟨r', next⟩ := result
        cases next with
        | none =>
          refine iff_of_true (regular_ok _)
            (not_leavesFile_of_not_next (fun st hnext ↦ ?_) hleaves)
          rw [Next, hround] at hnext
          exact nomatch hnext
        | some p =>
          have hlt := length_lt_of_parseRound hround
          have hrest : p.length ≤ rounds := Nat.lt_succ_iff.mp (hlt.trans_le hrounds)
          exact (ih hrest).trans (stays_iff_of_parseRound hround hleaves).symm

end Rounds

end Ixion.ModelParser
