import Ixion.Lib.Strtod

/-!
# The parser of session files

A session file has commands, which begin with a percent sign, and between them lines that mean
something else in each mode.  The parser goes through the file with a pointer.  The line parsers
leave it at the line break, or at the end if there is none, and the outer loop goes on behind that.

What the lines do to the model is not looked at here: each ends in an action, with the texts that
have been cut out of the line, and an action may fail.
-/

namespace Ixion.ModelParser

open Lib.Strtod

/-! ## Modes, cells and actions -/

/-- The modes. -/
inductive ParseMode where
  | unknown | init | result | resultCache | edit | table | session | namedExpression | exit
deriving DecidableEq, Repr

/-- What is on the right-hand side of a cell definition. -/
inductive CellType where
  | unknown | formula | value | string | boolean
deriving DecidableEq, Repr

/-- A cell definition, whose name has not been resolved. -/
structure CellDef where
  name : List Char
  value : List Char
  type : CellType
  matrixValue : Bool
deriving DecidableEq

/-- What is done to the model. -/
inductive Action where
  | calc | recalc | check | printDependency | pushTable | pushNamedExpression
  | rowLimit (n : ℤ) | columnLimit (n : ℤ)
  | insertSheet (name : List Char) | currentSheet (name : List Char)
  | displaySheetName (value : List Char)
  | initCells (d : CellDef) | editCells (d : CellDef)
  | result (name value : List Char) | resultCache (name value : List Char)
  | table (name value : List Char) | namedExpression (name value : List Char)

/-- A model that actions are done to.  Each of them may throw; that a mode is entered, and that the
first sheet is inserted, does not. -/
structure Model (σ : Type) where
  initModel : σ → σ
  enter : ParseMode → σ → σ
  perform : Action → σ → Except (List Char) σ

/-! ## Reading -/

/-- How the parser fails: it throws, it looks at a character that is not in the file or points
behind its end, or it has not ended yet. -/
inductive ParseFailure where
  | throws (msg : List Char)
  | undefined
  | running
deriving DecidableEq

/-- An exception of the parser. -/
def parseError (msg : List Char) : ParseFailure := .throws ("parse error: ".toList ++ msg)

/-- Look at the character that is pointed to. -/
def readChar : List Char → Except ParseFailure Char
  | [] => throw .undefined
  | c :: _ => return c

/-- Move the pointer to the next character; there is none behind the end. -/
def advance : List Char → Except ParseFailure (List Char)
  | [] => throw .undefined
  | _ :: cs => return cs

/-- Convert a text to an integer, given what is in memory behind it.  The text of nothing is a null
pointer. -/
def toLong (value beyond : List Char) : Except ParseFailure ℤ :=
  if value = [] then throw .undefined
  else
    match strtol (value ++ beyond) with
    | none => throw .undefined
    | some none => throw (parseError ('\'' :: (value ++ "' is not a valid integer.".toList)))
    | some (some n) => return n

/-! ## Scanners of lines -/

/-- The loop over the rest of a comment. -/
def skipLine : List Char → List Char
  | [] => []
  | c :: cs => if c = '\n' then c :: cs else skipLine cs

/-- The loop over a command, which counts its characters. -/
def commandLoop : ℕ → List Char → ℕ × List Char
  | n, [] => (n, [])
  | n, c :: cs => if c = '\n' then (n, c :: cs) else commandLoop (n + 1) cs

/-- The text of a command, and where the pointer stops. -/
def parseCommandToBuffer (p : List Char) : Except ParseFailure (List Char × List Char) := do
  let p ← advance p
  if (← readChar p) = '%' then return (['%'], skipLine p)
  let (n, q) := commandLoop 1 (← advance p)
  return (p.take n, q)

/-- The loop of `parse_session`. -/
def sessionLoop (cmd value : List Char) (inValue : Bool) :
    List Char → Except ParseFailure ((List Char × List Char) × List Char)
  | [] => return ((cmd, value), [])
  | c :: cs =>
    if c = '\n' then return ((cmd, value), c :: cs)
    else if c = ':' then
      if inValue then throw (parseError "2nd ':' character is illegal.".toList)
      else sessionLoop cmd value true cs
    else if inValue then sessionLoop cmd (value ++ [c]) inValue cs
    else sessionLoop (cmd ++ [c]) value inValue cs

/-- The loop of `parse_assignment`. -/
def assignmentLoop (first buf : List Char) :
    List Char → Except ParseFailure ((List Char × List Char) × List Char)
  | [] => return ((first, buf), [])
  | c :: cs =>
    if c = '\n' then return ((first, buf), c :: cs)
    else if c = '=' then
      if buf = [] then throw (parseError "left hand side is empty".toList)
      else assignmentLoop buf [] cs
    else assignmentLoop first (buf ++ [c]) cs

/-- Parse a simple left=right assignment line. -/
def parseAssignment (p : List Char) :
    Except ParseFailure ((List Char × List Char) × List Char) := do
  let ((first, buf), q) ← assignmentLoop [] [] p
  if buf ≠ [] ∧ first = [] then throw (parseError "'=' is missing".toList)
  return ((first, buf), q)

/-! ## Cell definitions -/

/-- The sections of a cell definition. -/
inductive SectionType where
  | name | bracedName | afterBracedName | bracedValue | value
deriving DecidableEq, Repr

/-- The variables of the loop of `parse_cell_definition`. -/
structure CellScan where
  sect : SectionType
  skipNext : Option Char
  buf : List Char
  name : List Char
  type : CellType
deriving DecidableEq

/-- Their values in front of the loop. -/
def CellScan.new : CellScan := ⟨.name, none, [], [], .unknown⟩

/-- What a separator says about the value behind it. -/
def separatorType : Char → Option CellType
  | '=' => some .formula
  | ':' => some .value
  | '@' => some .string
  | _ => none

/-- The body of the loop of `parse_cell_definition`. -/
def CellScan.step (s : CellScan) (lineHead : Bool) (c : Char) : Except ParseFailure CellScan :=
  match s.skipNext with
  | some d =>
    if c ≠ d then
      throw (parseError ('\'' :: d :: ("' was expected, but '".toList ++
        c :: "' was found.".toList)))
    else return { s with skipNext := none }
  | none =>
    match s.sect with
    | .name =>
      if lineHead ∧ c = '\x7b' then return { s with sect := .bracedName }
      else
        match separatorType c with
        | some type =>
          if s.buf = [] then throw (parseError "left hand side is empty".toList)
          else return { s with name := s.buf, buf := [], type := type, sect := .value }
        | none => return { s with buf := s.buf ++ [c] }
    | .bracedName =>
      if c = '\x7d' then return { s with name := s.buf, buf := [], sect := .afterBracedName }
      else return { s with buf := s.buf ++ [c] }
    | .afterBracedName =>
      if c = '\x7b' then
        return { s with sect := .bracedValue, type := .formula, skipNext := some '=' }
      else
        match separatorType c with
        | some type => return { s with type := type, sect := .value }
        | none =>
          throw (parseError ("Unexpected character after braced name: '".toList ++ [c, '\'']))
    | .bracedValue => return { s with buf := s.buf ++ [c] }
    | .value => return { s with buf := s.buf ++ [c] }

/-- The loop of `parse_cell_definition`. -/
def cellLoop (s : CellScan) (lineHead : Bool) :
    List Char → Except ParseFailure (CellScan × List Char)
  | [] => return (s, [])
  | c :: cs => do
    if c = '\n' then return (s, c :: cs)
    let s ← s.step lineHead c
    cellLoop s false cs

/-- What is done after the loop, up to where the name is resolved. -/
def CellScan.finish (s : CellScan) : Except ParseFailure CellDef := do
  let type :=
    if s.type = .value ∧ (s.buf.head? = some 't' ∨ s.buf.head? = some 'f') then .boolean
    else s.type
  let d : CellDef ←
    if s.sect = .bracedValue then
      -- the exception for another last character than a brace is made but not thrown
      if s.buf = [] then throw .undefined
      else pure ⟨s.name, s.buf.dropLast, type, true⟩
    else pure ⟨s.name, s.buf, type, false⟩
  if d.name = [] ∧ d.value ≠ [] then
    throw (parseError ("separator may be missing (name='".toList ++ d.name ++
      "'; value='".toList ++ d.value ++ "')".toList))
  return d

/-- A cell definition, and where the pointer stops. -/
def parseCellDefinition (p : List Char) : Except ParseFailure (CellDef × List Char) := do
  let (s, q) ← cellLoop .new true p
  return (← s.finish, q)

example : parseCellDefinition "A1:2\n".toList =
    .ok (⟨['A', '1'], ['2'], .value, false⟩, ['\n']) := by
  decide +kernel

/-! ## Commands -/

/-- The commands. -/
inductive Command where
  | unknown | comment | calc | recalc | check | exit | push
  | modeInit | modeEdit | modeResult | modeResultCache | modeTable | modeSession
  | modeNamedExpression | printDependency
deriving DecidableEq, Repr

/-- The commands, by their names. -/
def commandEntries : List (List Char × Command) :=
  [("%".toList, .comment), ("calc".toList, .calc), ("check".toList, .check),
    ("exit".toList, .exit), ("mode edit".toList, .modeEdit), ("mode init".toList, .modeInit),
    ("mode named-expression".toList, .modeNamedExpression), ("mode result".toList, .modeResult),
    ("mode result-cache".toList, .modeResultCache), ("mode session".toList, .modeSession),
    ("mode table".toList, .modeTable), ("print dependency".toList, .printDependency),
    ("push".toList, .push), ("recalc".toList, .recalc)]

/-- The command with a name. -/
def findCommand (name : List Char) : Command := (commandEntries.lookup name).getD .unknown

section Parser

variable {σ : Type} (m : Model σ)

/-- Do an action. -/
def perform (a : Action) (s : σ) : Except ParseFailure σ :=
  match m.perform a s with
  | .error msg => throw (.throws msg)
  | .ok s => return s

/-- Do what a command says. -/
def runCommand (name : List Char) (mode : ParseMode) (s : σ) :
    Except ParseFailure (ParseMode × σ) :=
  match findCommand name with
  | .comment => return (mode, s)
  | .calc => return (mode, ← perform m .calc s)
  | .recalc => return (mode, ← perform m .recalc s)
  | .check => return (mode, ← perform m .check s)
  | .exit => return (.exit, s)
  | .push =>
    match mode with
    | .table => return (mode, ← perform m .pushTable s)
    | .namedExpression => return (mode, ← perform m .pushNamedExpression s)
    | _ => throw (parseError "push command was used for wrong mode!".toList)
  | .modeInit => return (.init, m.enter .init s)
  | .modeResult => return (.result, m.enter .result s)
  | .modeResultCache => return (.resultCache, m.enter .resultCache s)
  | .modeEdit => return (.edit, m.enter .edit s)
  | .modeTable => return (.table, m.enter .table s)
  | .modeSession => return (.session, m.enter .session s)
  | .modeNamedExpression => return (.namedExpression, m.enter .namedExpression s)
  | .printDependency => return (mode, ← perform m .printDependency s)
  | .unknown => throw (parseError ("unknown command: ".toList ++ name ++ ['\n']))

/-! ## Line parsers -/

/-- Parse a line with a command. -/
def parseCommand (mode : ParseMode) (s : σ) (p : List Char) :
    Except ParseFailure ((ParseMode × σ) × List Char) := do
  let (name, q) ← parseCommandToBuffer p
  return (← runCommand m name mode s, q)

/-- Do what a line says in session mode, given what is in memory behind it. -/
def runSession (cmd value beyond : List Char) (s : σ) : Except ParseFailure σ := do
  if cmd = "row-limit".toList then perform m (.rowLimit (← toLong value beyond)) s
  else if cmd = "column-limit".toList then perform m (.columnLimit (← toLong value beyond)) s
  else if cmd = "insert-sheet".toList then perform m (.insertSheet value) s
  else if cmd = "current-sheet".toList then perform m (.currentSheet value) s
  else if cmd = "display-sheet-name".toList then perform m (.displaySheetName value) s
  else return s

/-- Parse a line in session mode. -/
def parseSession (s : σ) (p : List Char) : Except ParseFailure (σ × List Char) := do
  let ((cmd, value), q) ← sessionLoop [] [] false p
  return (← runSession m cmd value q s, q)

/-- Do what a cell definition says, unless its line is empty. -/
def runCellDef (action : CellDef → Action) (d : CellDef) (s : σ) : Except ParseFailure σ :=
  if d.name = [] ∧ d.value = [] then return s else perform m (action d) s

/-- Parse a line in init mode. -/
def parseInit (s : σ) (p : List Char) : Except ParseFailure (σ × List Char) := do
  let s := m.initModel s
  let (d, q) ← parseCellDefinition p
  return (← runCellDef m .initCells d s, q)

/-- Parse a line in edit mode. -/
def parseEdit (s : σ) (p : List Char) : Except ParseFailure (σ × List Char) := do
  let (d, q) ← parseCellDefinition p
  return (← runCellDef m .editCells d s, q)

/-- Do what an attribute of a table says; those that are not known are ignored. -/
def runTable (name value : List Char) (s : σ) : Except ParseFailure σ :=
  if name ∈ ["name".toList, "range".toList, "columns".toList, "totals-row-count".toList] then
    perform m (.table name value) s
  else return s

/-- Do what a property of a named expression says. -/
def runNamedExpression (name value : List Char) (s : σ) : Except ParseFailure σ :=
  if name ∈ ["name".toList, "expression".toList, "origin".toList, "scope".toList] then
    perform m (.namedExpression name value) s
  else throw (parseError ("unknown property of named expression '".toList ++ name ++ ['\'']))

/-- Parse a line with an assignment, and do what it says. -/
def parseAssigned (run : List Char → List Char → σ → Except ParseFailure σ) (s : σ)
    (p : List Char) : Except ParseFailure (σ × List Char) := do
  let ((name, value), q) ← parseAssignment p
  return (← run name value s, q)

/-- Parse a line in result mode. -/
def parseResult : σ → List Char → Except ParseFailure (σ × List Char) :=
  parseAssigned fun name value ↦ perform m (.result name value)

/-- Parse a line in result cache mode. -/
def parseResultCache : σ → List Char → Except ParseFailure (σ × List Char) :=
  parseAssigned fun name value ↦ perform m (.resultCache name value)

/-- Parse a line in table mode. -/
def parseTable : σ → List Char → Except ParseFailure (σ × List Char) :=
  parseAssigned (runTable m)

/-- Parse a line in named expression mode. -/
def parseNamedExpression : σ → List Char → Except ParseFailure (σ × List Char) :=
  parseAssigned (runNamedExpression m)

/-- Parse a line that is not a command. -/
def parseLine (mode : ParseMode) (s : σ) (p : List Char) : Except ParseFailure (σ × List Char) :=
  match mode with
  | .init => parseInit m s p
  | .edit => parseEdit m s p
  | .result => parseResult m s p
  | .resultCache => parseResultCache m s p
  | .table => parseTable m s p
  | .session => parseSession m s p
  | .namedExpression => parseNamedExpression m s p
  | .unknown => throw (parseError "unknown parse mode".toList)
  | .exit => throw (parseError "unknown parse mode".toList)

/-! ## Files -/

/-- The body of the loop of `parse`, with its increment: the mode and the model, and where the next
line is, unless the command was to exit. -/
def parseRound (mode : ParseMode) (s : σ) (p : List Char) :
    Except ParseFailure ((ParseMode × σ) × Option (List Char)) := do
  if (← readChar p) = '%' then
    let (r, q) ← parseCommand m mode s p
    if r.1 = .exit then return (r, none)
    return (r, some (← advance q))
  else
    let (s, q) ← parseLine m mode s p
    return ((mode, s), some (← advance q))

/-- The loop of `parse`, for a number of rounds. -/
def run : ℕ → ParseMode → σ → List Char → Except ParseFailure σ
  | _, _, s, [] => return s
  | 0, _, _, _ :: _ => throw .running
  | rounds + 1, mode, s, c :: cs => do
    match ← parseRound m mode s (c :: cs) with
    | (r, none) => return r.2
    | (r, some p) => run rounds r.1 r.2 p

/-- Parse a file. -/
def parse (s : σ) (content : List Char) : Except ParseFailure σ :=
  run m content.length .unknown s content

end Parser

end Ixion.ModelParser
