import Ixion.Error
import Ixion.ToDouble

/-!
# The tokenizer of formulas

The tokenizer goes through the text of a formula with a pointer into memory and counts how many
characters of the text are left.  Most of its scanners ask whether one is left before they look at
it, but the one for strings looks first, and the conversion of a numeral does not know where the
text ends.

The separators are the default ones.
-/

namespace Ixion

/-! ## Tokens -/

/-- The operators and separators. -/
inductive LexerOpcode where
  | plus | minus | divide | multiply | exponent
  | concat
  | equal | less | greater
  | parenOpen | parenClose | sep | arrayOpen | arrayClose | arrayRowSep
deriving DecidableEq, Repr

/-- A token; a number that is infinite or not a number has no value. -/
inductive LexerToken where
  | op (oc : LexerOpcode)
  | value (v : Option ℚ)
  | string (s : List Char)
  | name (s : List Char)
  | error (e : FormulaError)
deriving DecidableEq

/-- How the tokenizer fails: it throws, it looks at a character that is not in memory, or it has
not ended yet. -/
inductive LexFailure where
  | throws (msg : List Char)
  | undefined
  | running
deriving DecidableEq

/-- The characters that are operators. -/
def opsMap : Char → Option LexerOpcode
  | '&' => some .concat
  | '(' => some .parenOpen
  | ')' => some .parenClose
  | '*' => some .multiply
  | '+' => some .plus
  | '-' => some .minus
  | '/' => some .divide
  | '<' => some .less
  | '=' => some .equal
  | '>' => some .greater
  | '^' => some .exponent
  | '\x7b' => some .arrayOpen
  | '\x7d' => some .arrayClose
  | _ => none

/-- The errors, by their names. -/
def errorEntries : List (List Char × FormulaError) :=
  [("DIV/0!".toList, .divisionByZero), ("N/A".toList, .noValueAvailable),
    ("NAME?".toList, .nameNotFound), ("NULL!".toList, .noRangeIntersection),
    ("NUM!".toList, .invalidExpression), ("REF!".toList, .refResultNotAvailable),
    ("VALUE!".toList, .invalidValueType)]

/-- Separates arguments. -/
def sepArg : Char := ','

/-- Separates the rows of an array. -/
def sepArrayRow : Char := ';'

/-- Separates the fraction of a number. -/
def sepDecimal : Char := '.'

namespace Tokenizer

/-! ## Reading -/

/-- Look at the character that is pointed to. -/
def readChar : List Char → Except LexFailure Char
  | [] => .error .undefined
  | c :: _ => .ok c

/-- A scanner has read so many characters, and goes on from here. -/
structure Scanned where
  len : ℕ
  mem : List Char
  left : ℕ
deriving DecidableEq

/-- What the loop body emits, and where it goes on. -/
structure Emitted where
  token : Option LexerToken
  mem : List Char
  left : ℕ
deriving DecidableEq

/-! ## Names -/

/-- Whether a character ends a name. -/
def isOp (c : Char) : Bool := c = sepArg || (opsMap c).isSome || c = ' ' || c = '"'

/-- The loop of `name`, with the characters that close the open scopes. -/
def nameLoop : List Char → ℕ → List Char → ℕ → Except LexFailure Scanned
  | _, len, mem, 0 => return ⟨len, mem, 0⟩
  | scopes, len, mem, left + 1 => do
    let c ← readChar mem
    if scopes.head? = some c then nameLoop scopes.tail (len + 1) mem.tail left
    else if c = '[' then nameLoop (']' :: scopes) (len + 1) mem.tail left
    else if c = '\'' then nameLoop ('\'' :: scopes) (len + 1) mem.tail left
    else if scopes ≠ [] then nameLoop scopes (len + 1) mem.tail left
    else if isOp c then return ⟨len, mem, left + 1⟩
    else nameLoop scopes (len + 1) mem.tail left

/-- A name. -/
def name (mem : List Char) (left : ℕ) : Except LexFailure Emitted := do
  let r ← nameLoop [] 0 mem left
  return ⟨some (.name (mem.take r.len)), r.mem, r.left⟩

/-! ## Numerals -/

/-- The loop of `numeral`, with the number of decimal separators; there is no result at a colon,
in front of which no numeral is. -/
def numeralLoop : ℕ → ℕ → List Char → ℕ → Except LexFailure (Option (ℕ × Scanned))
  | sepCount, len, mem, 0 => return some (sepCount, ⟨len, mem, 0⟩)
  | sepCount, len, mem, left + 1 => do
    let c ← readChar mem
    if c = ':' then return none
    else if c.isDigit then numeralLoop sepCount (len + 1) mem.tail left
    else if c = sepDecimal then
      if sepCount + 1 ≤ 1 then numeralLoop (sepCount + 1) (len + 1) mem.tail left
      else return some (sepCount + 1, ⟨len, mem, left + 1⟩)
    else return some (sepCount, ⟨len, mem, left + 1⟩)

/-- How long the numeral is that the text begins with, and what follows it; unless it is the
beginning of a name, as in `3:3`, or has a second decimal separator. -/
def numeralEnd (mem : List Char) (left : ℕ) : Except LexFailure (Option Scanned) := do
  match ← numeralLoop 0 1 mem.tail (left - 1) with
  | none => return none
  | some (sepCount, r) => return if sepCount > 1 then none else some r

/-- A numeral, or else a name. -/
def numeral (mem : List Char) (left : ℕ) : Except LexFailure Emitted := do
  match ← numeralEnd mem left with
  | none => name mem left
  | some r =>
    match toDouble (mem.take r.len) (mem.drop r.len) with
    | none => throw .undefined
    | some val => return ⟨some (.value val), r.mem, r.left⟩

/-! ## Strings -/

/-- The loop of `string`, which looks at a character before it asks whether one is left. -/
def stringLoop : ℕ → List Char → ℕ → Except LexFailure Scanned
  | len, mem, 0 => do
    let _ ← readChar mem
    return ⟨len, mem, 0⟩
  | len, mem, left + 1 => do
    let c ← readChar mem
    if c = '"' then return ⟨len, mem, left + 1⟩
    else stringLoop (len + 1) mem.tail left

/-- A string. -/
def string (mem : List Char) (left : ℕ) : Except LexFailure Emitted := do
  let p := mem.tail
  let r ← stringLoop 0 p (left - 1)
  let token := LexerToken.string (p.take r.len)
  let c ← readChar r.mem
  if c = '"' then return ⟨some token, r.mem.tail, r.left - 1⟩
  else return ⟨some token, r.mem, r.left⟩

/-! ## Errors -/

/-- What may follow of the names of errors, and the errors that they stand for. -/
abbrev ErrorNode : Type := List (List Char × FormulaError)

namespace ErrorNode

/-- What may follow after one more character. -/
def child (c : Char) (node : ErrorNode) : ErrorNode :=
  node.filterMap fun e ↦ if e.1.head? = some c then some (e.1.tail, e.2) else none

/-- The error whose name is complete. -/
def value (node : ErrorNode) : Option FormulaError := (node.find? (·.1.isEmpty)).map (·.2)

end ErrorNode

/-- The loop of `error`. -/
def errorLoop : ErrorNode → ℕ → List Char → ℕ →
    Except LexFailure (Option FormulaError × Scanned)
  | _, len, mem, 0 => return (none, ⟨len, mem, 0⟩)
  | node, len, mem, left + 1 => do
    let c ← readChar mem
    let node := node.child c
    if node.isEmpty then return (none, ⟨len, mem, left + 1⟩)
    else
      match node.value with
      | some e => return (some e, ⟨len + 1, mem.tail, left⟩)
      | none => errorLoop node (len + 1) mem.tail left

/-- An error. -/
def error (mem : List Char) (left : ℕ) : Except LexFailure Emitted := do
  match ← errorLoop errorEntries 1 mem.tail (left - 1) with
  | (some e, r) => return ⟨some (.error e), r.mem, r.left⟩
  | (none, r) =>
    throw (.throws ("failed to parse an error token in lexer tokenizer: '".toList ++
      mem.take r.len ++ ['\'']))

/-! ## All tokens -/

/-- The body of the loop of `run`. -/
def step (mem : List Char) (left : ℕ) : Except LexFailure Emitted := do
  let c ← readChar mem
  if c.isDigit then numeral mem left
  else
    match opsMap c with
    | some oc => return ⟨some (.op oc), mem.tail, left - 1⟩
    | none =>
      if c = ' ' then return ⟨none, mem.tail, left - 1⟩
      else if c = '"' then string mem left
      else if c = '#' then error mem left
      else if c = sepArg then return ⟨some (.op .sep), mem.tail, left - 1⟩
      else if c = sepArrayRow then return ⟨some (.op .arrayRowSep), mem.tail, left - 1⟩
      else name mem left

/-- The loop of `run`, for a number of rounds. -/
def run : ℕ → List Char → ℕ → Except LexFailure (List LexerToken)
  | _, _, 0 => return []
  | 0, _, _ + 1 => throw .running
  | rounds + 1, mem, left + 1 => do
    let r ← step mem (left + 1)
    let tokens ← run rounds r.mem r.left
    return r.token.toList ++ tokens

end Tokenizer

/-- The tokens of a text, given what is in memory behind it. -/
def tokenize (text beyond : List Char) : Except LexFailure (List LexerToken) :=
  Tokenizer.run text.length (text ++ beyond) text.length

example : tokenize "A1+2.5, ".toList ['\x00'] =
    .ok [.name ['A', '1'], .op .plus, .value (some (5 / 2)), .op .sep] := by
  decide +kernel

end Ixion
