import Ixion.ModelParser

/-!
# Lines of session files

What a line means is said here for the line as a whole: which parts it has, and when it is refused.
The scanners of the parser, which go through it character by character, agree with that, and stop
where the line ends.
-/

namespace Ixion.ModelParser

/-- A line, and what follows it: a line break, or nothing at the end of the file. -/
structure IsLine (line rest : List Char) : Prop where
  not_mem : '\n' ∉ line
  rest : rest = [] ∨ ∃ cs, rest = '\n' :: cs

theorem exists_isLine (p : List Char) : ∃ line rest, p = line ++ rest ∧ IsLine line rest := by
  induction p with
  | nil => exact ⟨[], [], rfl, List.not_mem_nil, .inl rfl⟩
  | cons c cs ih =>
    by_cases hc : c = '\n'
    · subst hc
      exact ⟨[], '\n' :: cs, rfl, List.not_mem_nil, .inr ⟨cs, rfl⟩⟩
    · obtain ⟨line, rest, rfl, hline⟩ := ih
      refine ⟨c :: line, rest, rfl, fun hmem ↦ ?_, hline.rest⟩
      rcases List.mem_cons.mp hmem with heq | hmem
      · exact hc heq.symm
      · exact hline.not_mem hmem

theorem IsLine.nil {line rest : List Char} (h : IsLine line rest) : IsLine [] rest :=
  ⟨List.not_mem_nil, h.rest⟩

theorem IsLine.tail {c : Char} {line rest : List Char} (h : IsLine (c :: line) rest) :
    c ≠ '\n' ∧ IsLine line rest :=
  ⟨fun hc ↦ h.not_mem (hc ▸ List.mem_cons_self), fun hmem ↦ h.not_mem (List.mem_cons_of_mem c hmem),
    h.rest⟩

variable {line rest : List Char}

/-! ## Commands -/

theorem skipLine_append (h : IsLine line rest) : skipLine (line ++ rest) = rest := by
  induction line with
  | nil =>
    rcases h.rest with rfl | ⟨cs, rfl⟩
    · rfl
    · rfl
  | cons c line ih =>
    obtain ⟨hc, htail⟩ := h.tail
    rw [List.cons_append, skipLine, if_neg hc, ih htail]

theorem commandLoop_append (h : IsLine line rest) (n : ℕ) :
    commandLoop n (line ++ rest) = (n + line.length, rest) := by
  induction line generalizing n with
  | nil =>
    rcases h.rest with rfl | ⟨cs, rfl⟩
    · rfl
    · rfl
  | cons c line ih =>
    obtain ⟨hc, htail⟩ := h.tail
    rw [List.cons_append, commandLoop, if_neg hc, ih htail, List.length_cons]
    congr 1
    omega

/-- The name of the command that a line has behind a percent sign; a comment is a command that is
named so. -/
def commandName (c : Char) (line : List Char) : List Char := if c = '%' then ['%'] else c :: line

/-- A command takes the line, whatever its first character is. -/
theorem parseCommandToBuffer_cons (c : Char) (h : IsLine line rest) :
    parseCommandToBuffer ('%' :: c :: (line ++ rest)) = .ok (commandName c line, rest) := by
  have hbuffer : parseCommandToBuffer ('%' :: c :: (line ++ rest)) =
      if c = '%' then .ok (['%'], skipLine (c :: (line ++ rest)))
      else .ok ((c :: (line ++ rest)).take (commandLoop 1 (line ++ rest)).1,
        (commandLoop 1 (line ++ rest)).2) := by
    show (if c = '%' then _ else _ : Except _ _) = _
    rfl
  rw [hbuffer, commandName]
  split
  case isTrue hc =>
    subst hc
    rw [skipLine, if_neg (by decide), skipLine_append h]
  case isFalse hc =>
    rw [commandLoop_append h, Nat.add_comm, List.take_succ_cons, List.take_left]

/-! ## Sessions -/

/-- What is in front of the first colon of a line and what is behind it, if that is the only one. -/
def sessionParts (line : List Char) : Except ParseFailure (List Char × List Char) :=
  match line.dropWhile (· ≠ ':') with
  | [] => .ok (line, [])
  | _ :: value =>
    if ':' ∈ value then .error (parseError "2nd ':' character is illegal.".toList)
    else .ok (line.takeWhile (· ≠ ':'), value)

theorem sessionLoop_value (h : IsLine line rest) (cmd value : List Char) :
    sessionLoop cmd value true (line ++ rest) =
      if ':' ∈ line then .error (parseError "2nd ':' character is illegal.".toList)
      else .ok ((cmd, value ++ line), rest) := by
  induction line generalizing value with
  | nil =>
    rw [if_neg List.not_mem_nil, List.append_nil]
    rcases h.rest with rfl | ⟨cs, rfl⟩
    · rfl
    · rfl
  | cons c line ih =>
    obtain ⟨hc, htail⟩ := h.tail
    rw [List.cons_append, sessionLoop, if_neg hc]
    by_cases hcolon : c = ':'
    · rw [if_pos hcolon, if_pos rfl, if_pos (hcolon ▸ List.mem_cons_self)]
      rfl
    · have hmem : ':' ∈ c :: line ↔ ':' ∈ line := by
        rw [List.mem_cons, or_iff_right fun heq ↦ hcolon heq.symm]
      rw [if_neg hcolon, if_pos rfl, ih htail, List.append_assoc, List.singleton_append]
      simp only [hmem]

theorem sessionLoop_append (h : IsLine line rest) (cmd : List Char) :
    sessionLoop cmd [] false (line ++ rest) =
      (sessionParts line).map fun r ↦ ((cmd ++ r.1, r.2), rest) := by
  induction line generalizing cmd with
  | nil =>
    rcases h.rest with rfl | ⟨cs, rfl⟩
    · simp [sessionLoop, sessionParts, Except.map, pure, Except.pure]
    · simp [sessionLoop, sessionParts, Except.map, pure, Except.pure]
  | cons c line ih =>
    obtain ⟨hc, htail⟩ := h.tail
    rw [List.cons_append, sessionLoop, if_neg hc]
    by_cases hcolon : c = ':'
    · subst hcolon
      rw [if_pos rfl, if_neg nofun, sessionLoop_value htail, sessionParts,
        List.dropWhile_cons_of_neg (by simp), List.takeWhile_cons_of_neg (by simp)]
      dsimp only
      split
      · rfl
      · rw [List.nil_append]
        simp [Except.map]
    · rw [if_neg hcolon, if_neg nofun, ih htail, sessionParts, sessionParts,
        List.dropWhile_cons_of_pos (by simpa using hcolon),
        List.takeWhile_cons_of_pos (by simpa using hcolon)]
      cases line.dropWhile (· ≠ ':') with
      | nil => simp [Except.map]
      | cons d value =>
        dsimp only
        split
        · rfl
        · simp [Except.map]

/-! ## Assignments -/

/-- The last two parts of a line that is cut at equal signs; all but the last must not be empty. -/
def assignmentParts (line : List Char) : Except ParseFailure (List Char × List Char) :=
  let parts := line.splitOn '='
  if ∃ part ∈ parts.dropLast, part = [] then
    .error (parseError "left hand side is empty".toList)
  else if line ≠ [] ∧ parts.dropLast = [] then .error (parseError "'=' is missing".toList)
  else .ok (parts.dropLast.getLast?.getD [], parts.getLast?.getD [])

/-- The loop goes on with what is already in the buffer, in front of the first part. -/
theorem assignmentLoop_append (h : IsLine line rest) (first buf : List Char) {q : List Char}
    {qs : List (List Char)} (hparts : line.splitOn '=' = q :: qs) :
    assignmentLoop first buf (line ++ rest) =
      if [] ∈ ((buf ++ q) :: qs).dropLast then
        .error (parseError "left hand side is empty".toList)
      else
        .ok ((((buf ++ q) :: qs).dropLast.getLast?.getD first,
          ((buf ++ q) :: qs).getLast?.getD []), rest) := by
  induction line generalizing first buf q qs with
  | nil =>
    obtain ⟨rfl, rfl⟩ : [] = q ∧ [] = qs := by
      rw [List.splitOn_nil] at hparts
      exact List.cons.inj hparts
    rw [List.append_nil, List.dropLast_singleton, if_neg List.not_mem_nil]
    rcases h.rest with rfl | ⟨cs, rfl⟩
    · rfl
    · rfl
  | cons c line ih =>
    obtain ⟨hc, htail⟩ := h.tail
    obtain ⟨q', qs', hparts'⟩ := List.exists_cons_of_ne_nil (List.splitOn_ne_nil '=' line)
    rw [List.splitOn_cons_eq_if_modifyHead, hparts'] at hparts
    rw [List.cons_append, assignmentLoop, if_neg hc]
    by_cases hsep : c = '='
    · obtain ⟨rfl, rfl⟩ : [] = q ∧ q' :: qs' = qs := by
        rw [if_pos (by simpa using hsep)] at hparts
        exact List.cons.inj hparts
      rw [if_pos hsep, List.append_nil, List.dropLast_cons_cons]
      by_cases hbuf : buf = []
      · rw [if_pos hbuf, if_pos (hbuf ▸ List.mem_cons_self)]
        rfl
      · have hmem : [] ∈ buf :: (q' :: qs').dropLast ↔ [] ∈ (q' :: qs').dropLast := by
          rw [List.mem_cons, or_iff_right fun heq ↦ hbuf heq.symm]
        have hlast : (buf :: (q' :: qs').dropLast).getLast?.getD first =
            (q' :: qs').dropLast.getLast?.getD buf := by
          rw [List.getLast?_cons, Option.getD_some]
        rw [if_neg hbuf, ih htail buf [] hparts', List.nil_append, hlast, List.getLast?_cons_cons]
        simp only [hmem]
    · obtain ⟨rfl, rfl⟩ : c :: q' = q ∧ qs' = qs := by
        rw [if_neg (by simpa using hsep)] at hparts
        exact List.cons.inj hparts
      rw [if_neg hsep, ih htail first (buf ++ [c]) hparts', List.append_assoc,
        List.singleton_append]

/-- An assignment is parsed as what its line is cut into. -/
theorem parseAssignment_append (h : IsLine line rest) :
    parseAssignment (line ++ rest) = (assignmentParts line).map fun r ↦ (r, rest) := by
  obtain ⟨q, qs, hparts⟩ := List.exists_cons_of_ne_nil (List.splitOn_ne_nil '=' line)
  rw [parseAssignment, assignmentLoop_append h [] [] hparts, assignmentParts, hparts,
    List.nil_append]
  by_cases hmem : [] ∈ (q :: qs).dropLast
  · rw [if_pos hmem, if_pos ⟨_, hmem, rfl⟩]
    rfl
  have hparts' : ¬ ∃ part ∈ (q :: qs).dropLast, part = [] := by
    rintro ⟨_, h, rfl⟩
    exact hmem h
  rw [if_neg hmem, if_neg hparts']
  cases qs with
  | nil =>
    obtain rfl : q = line := by
      have hline := @List.intercalate_splitOn _ line _ _ '='
      rwa [hparts, List.intercalate_singleton] at hline
    show (if q ≠ [] ∧ [] = [] then _ else _ : Except _ _) = _
    simp only [and_true, List.dropLast_singleton]
    split
    · rfl
    · rfl
  | cons q' qs =>
    have hfirst : (q :: q' :: qs).dropLast.getLast?.getD [] ≠ [] := by
      rw [List.dropLast_cons_cons] at hmem ⊢
      intro heq
      rw [List.getLast?_eq_some_getLast (List.cons_ne_nil _ _), Option.getD_some] at heq
      exact hmem (heq ▸ List.getLast_mem _)
    show (if (q :: q' :: qs).getLast?.getD [] ≠ [] ∧ (q :: q' :: qs).dropLast.getLast?.getD [] = []
      then _ else _ : Except _ _) = _
    rw [if_neg fun h ↦ hfirst h.2, if_neg fun h ↦ List.cons_ne_nil _ _ h.2]
    rfl

/-! ## Cell definitions -/

/-- A cell definition, whose name must not be missing unless its value is, too. -/
def closeCell (name value : List Char) (type : CellType) (matrixValue : Bool) :
    Except ParseFailure CellDef :=
  if name = [] ∧ value ≠ [] then
    .error (parseError ("separator may be missing (name='".toList ++ name ++
      "'; value='".toList ++ value ++ "')".toList))
  else .ok ⟨name, value, type, matrixValue⟩

/-- What is on the right-hand side: a value may be a truth value. -/
def valueType (type : CellType) (value : List Char) : CellType :=
  if type = .value ∧ (value.head? = some 't' ∨ value.head? = some 'f') then .boolean else type

/-- What is behind the brace in front of the value of a matrix: an equal sign, and the value with a
last character that is dropped, which cannot be missing. -/
def matrixParts (name : List Char) : List Char → Except ParseFailure CellDef
  | [] => .error .undefined
  | c :: value =>
    if c ≠ '=' then
      .error (parseError ('\'' :: '=' :: ("' was expected, but '".toList ++
        c :: "' was found.".toList)))
    else if value = [] then .error .undefined
    else closeCell name value.dropLast .formula true

/-- What is behind a name in braces: the value of a matrix, or a separator and a value. -/
def bracedParts (name : List Char) : List Char → Except ParseFailure CellDef
  | [] => closeCell name [] .unknown false
  | c :: value =>
    if c = '\x7b' then matrixParts name value
    else
      match separatorType c with
      | some type => closeCell name value (valueType type value) false
      | none =>
        .error (parseError ("Unexpected character after braced name: '".toList ++ [c, '\'']))

/-- A line that does not begin with a brace: a name, a separator, and a value. -/
def plainParts (line : List Char) : Except ParseFailure CellDef :=
  match line.dropWhile (separatorType · = none) with
  | [] => closeCell [] line .unknown false
  | c :: value =>
    if line.takeWhile (separatorType · = none) = [] then
      .error (parseError "left hand side is empty".toList)
    else
      closeCell (line.takeWhile (separatorType · = none)) value
        (valueType ((separatorType c).getD .unknown) value) false

/-- The parts of a line with a cell definition.  Without a second brace, a name in braces is taken
for a value. -/
def cellDefParts : List Char → Except ParseFailure CellDef
  | [] => closeCell [] [] .unknown false
  | c :: line =>
    if c = '\x7b' then
      match line.dropWhile (· ≠ '\x7d') with
      | [] => closeCell [] line .unknown false
      | _ :: after => bracedParts (line.takeWhile (· ≠ '\x7d')) after
    else plainParts (c :: line)

/-- The rest of a cell definition, from inside of the loop on. -/
def cellFrom (s : CellScan) (lineHead : Bool) (p : List Char) :
    Except ParseFailure (CellDef × List Char) :=
  (cellLoop s lineHead p).bind fun r ↦ r.1.finish.map fun d ↦ (d, r.2)

theorem cellFrom_end (h : IsLine [] rest) (s : CellScan) (lineHead : Bool) :
    cellFrom s lineHead rest = s.finish.map fun d ↦ (d, rest) := by
  rcases h.rest with rfl | ⟨cs, rfl⟩
  · rfl
  · rfl

theorem cellFrom_cons {c : Char} (hc : c ≠ '\n') (s : CellScan) (lineHead : Bool) (p : List Char) :
    cellFrom s lineHead (c :: p) = (s.step lineHead c).bind fun s ↦ cellFrom s false p := by
  have hloop : cellLoop s lineHead (c :: p) =
      (s.step lineHead c).bind fun s ↦ cellLoop s false p := by
    show (if c = '\n' then _ else _ : Except _ _) = _
    rw [if_neg hc]
    rfl
  rw [cellFrom, hloop]
  cases s.step lineHead c with
  | error e => rfl
  | ok s => rfl

section Step

variable (buf name : List Char) (type : CellType) (lineHead : Bool) (c : Char)

theorem step_skipNext (sect : SectionType) (d : Char) :
    (⟨sect, some d, buf, name, type⟩ : CellScan).step lineHead c =
      if c ≠ d then
        .error (parseError ('\'' :: d :: ("' was expected, but '".toList ++
          c :: "' was found.".toList)))
      else .ok ⟨sect, none, buf, name, type⟩ := rfl

theorem step_name :
    (⟨.name, none, buf, name, type⟩ : CellScan).step lineHead c =
      if lineHead = true ∧ c = '\x7b' then .ok ⟨.bracedName, none, buf, name, type⟩
      else
        match separatorType c with
        | some type =>
          if buf = [] then .error (parseError "left hand side is empty".toList)
          else .ok ⟨.value, none, [], buf, type⟩
        | none => .ok ⟨.name, none, buf ++ [c], name, type⟩ := rfl

theorem step_bracedName :
    (⟨.bracedName, none, buf, name, type⟩ : CellScan).step lineHead c =
      if c = '\x7d' then .ok ⟨.afterBracedName, none, [], buf, type⟩
      else .ok ⟨.bracedName, none, buf ++ [c], name, type⟩ := rfl

theorem step_afterBracedName :
    (⟨.afterBracedName, none, buf, name, type⟩ : CellScan).step lineHead c =
      if c = '\x7b' then .ok ⟨.bracedValue, some '=', buf, name, .formula⟩
      else
        match separatorType c with
        | some type => .ok ⟨.value, none, buf, name, type⟩
        | none =>
          .error (parseError ("Unexpected character after braced name: '".toList ++
            [c, '\''])) := rfl

end Step

theorem finish_of_ne {sect : SectionType} (h : sect ≠ .bracedValue) (skipNext : Option Char)
    (buf name : List Char) (type : CellType) :
    (⟨sect, skipNext, buf, name, type⟩ : CellScan).finish =
      closeCell name buf (valueType type buf) false := by
  rw [CellScan.finish, if_neg h]
  rfl

theorem finish_bracedValue (buf name : List Char) :
    (⟨.bracedValue, none, buf, name, .formula⟩ : CellScan).finish =
      if buf = [] then .error .undefined else closeCell name buf.dropLast .formula true := by
  rw [CellScan.finish, if_pos rfl]
  by_cases hbuf : buf = []
  · rw [if_pos hbuf, if_pos hbuf]
    rfl
  · rw [if_neg hbuf, if_neg hbuf]
    rfl

/-- The rest of the line belongs to the value. -/
theorem cellFrom_value (h : IsLine line rest) {sect : SectionType}
    (hsect : sect = .value ∨ sect = .bracedValue) (lineHead : Bool) (buf name : List Char)
    (type : CellType) :
    cellFrom ⟨sect, none, buf, name, type⟩ lineHead (line ++ rest) =
      (⟨sect, none, buf ++ line, name, type⟩ : CellScan).finish.map fun d ↦ (d, rest) := by
  induction line generalizing lineHead buf with
  | nil => rw [List.append_nil, List.nil_append, cellFrom_end h]
  | cons c line ih =>
    obtain ⟨hc, htail⟩ := h.tail
    have hstep : (⟨sect, none, buf, name, type⟩ : CellScan).step lineHead c =
        .ok ⟨sect, none, buf ++ [c], name, type⟩ := by
      rcases hsect with rfl | rfl
      · rfl
      · rfl
    rw [List.cons_append, cellFrom_cons hc, hstep]
    refine (ih htail false (buf ++ [c])).trans ?_
    rw [List.append_assoc, List.singleton_append]

theorem cellFrom_matrix (h : IsLine line rest) (name : List Char) :
    cellFrom ⟨.bracedValue, some '=', [], name, .formula⟩ false (line ++ rest) =
      (matrixParts name line).map fun d ↦ (d, rest) := by
  cases line with
  | nil =>
    rw [List.nil_append, cellFrom_end h]
    rfl
  | cons c value =>
    obtain ⟨hc, htail⟩ := h.tail
    rw [List.cons_append, cellFrom_cons hc, step_skipNext, matrixParts]
    by_cases hsep : c = '='
    · rw [if_neg (not_not.mpr hsep), if_neg (not_not.mpr hsep)]
      refine (cellFrom_value htail (.inr rfl) false [] name .formula).trans ?_
      rw [List.nil_append, finish_bracedValue]
    · rw [if_pos hsep, if_pos hsep]
      rfl

theorem cellFrom_braced (h : IsLine line rest) (name : List Char) :
    cellFrom ⟨.afterBracedName, none, [], name, .unknown⟩ false (line ++ rest) =
      (bracedParts name line).map fun d ↦ (d, rest) := by
  cases line with
  | nil =>
    rw [List.nil_append, cellFrom_end h, finish_of_ne (by decide)]
    rfl
  | cons c value =>
    obtain ⟨hc, htail⟩ := h.tail
    rw [List.cons_append, cellFrom_cons hc, step_afterBracedName, bracedParts]
    by_cases hbrace : c = '\x7b'
    · rw [if_pos hbrace, if_pos hbrace]
      exact cellFrom_matrix htail name
    · rw [if_neg hbrace, if_neg hbrace]
      cases separatorType c with
      | none => rfl
      | some type =>
        refine (cellFrom_value htail (.inl rfl) false [] name type).trans ?_
        rw [List.nil_append, finish_of_ne (by decide)]

/-- In braces, a name goes on up to the second one. -/
theorem cellFrom_bracedName (h : IsLine line rest) (buf : List Char) :
    cellFrom ⟨.bracedName, none, buf, [], .unknown⟩ false (line ++ rest) =
      (match line.dropWhile (· ≠ '\x7d') with
        | [] => closeCell [] (buf ++ line) .unknown false
        | _ :: after => bracedParts (buf ++ line.takeWhile (· ≠ '\x7d')) after).map
          fun d ↦ (d, rest) := by
  induction line generalizing buf with
  | nil =>
    rw [List.nil_append, cellFrom_end h, finish_of_ne (by decide), List.append_nil]
    rfl
  | cons c line ih =>
    obtain ⟨hc, htail⟩ := h.tail
    rw [List.cons_append, cellFrom_cons hc, step_bracedName]
    by_cases hbrace : c = '\x7d'
    · rw [if_pos hbrace, List.dropWhile_cons_of_neg (by simpa using hbrace),
        List.takeWhile_cons_of_neg (by simpa using hbrace), List.append_nil]
      exact cellFrom_braced htail buf
    · rw [if_neg hbrace, List.dropWhile_cons_of_pos (by simpa using hbrace),
        List.takeWhile_cons_of_pos (by simpa using hbrace)]
      refine (ih htail (buf ++ [c])).trans ?_
      simp only [List.append_assoc, List.singleton_append]

/-- A name goes on up to a separator. -/
theorem cellFrom_name (h : IsLine line rest) (buf : List Char) :
    cellFrom ⟨.name, none, buf, [], .unknown⟩ false (line ++ rest) =
      (match line.dropWhile (separatorType · = none) with
        | [] => closeCell [] (buf ++ line) .unknown false
        | c :: value =>
          if buf ++ line.takeWhile (separatorType · = none) = [] then
            .error (parseError "left hand side is empty".toList)
          else
            closeCell (buf ++ line.takeWhile (separatorType · = none)) value
              (valueType ((separatorType c).getD .unknown) value) false).map
          fun d ↦ (d, rest) := by
  induction line generalizing buf with
  | nil =>
    rw [List.nil_append, cellFrom_end h, finish_of_ne (by decide), List.append_nil]
    rfl
  | cons c line ih =>
    obtain ⟨hc, htail⟩ := h.tail
    rw [List.cons_append, cellFrom_cons hc, step_name, if_neg (by simp)]
    cases hsep : separatorType c with
    | some type =>
      rw [List.dropWhile_cons_of_neg (by simp [hsep]), List.takeWhile_cons_of_neg (by simp [hsep]),
        List.append_nil]
      dsimp only
      by_cases hbuf : buf = []
      · rw [if_pos hbuf, if_pos hbuf]
        rfl
      · rw [if_neg hbuf, if_neg hbuf, hsep]
        refine (cellFrom_value htail (.inl rfl) false [] buf type).trans ?_
        rw [List.nil_append, finish_of_ne (by decide)]
        rfl
    | none =>
      rw [List.dropWhile_cons_of_pos (by simp [hsep]), List.takeWhile_cons_of_pos (by simp [hsep])]
      refine (ih htail (buf ++ [c])).trans ?_
      simp only [List.append_assoc, List.singleton_append]

/-- A cell definition is parsed as what its line is made of. -/
theorem parseCellDefinition_append (h : IsLine line rest) :
    parseCellDefinition (line ++ rest) = (cellDefParts line).map fun d ↦ (d, rest) := by
  have hparse : parseCellDefinition (line ++ rest) = cellFrom .new true (line ++ rest) := rfl
  rw [hparse, CellScan.new]
  cases line with
  | nil =>
    rw [List.nil_append, cellFrom_end h, finish_of_ne (by decide)]
    rfl
  | cons c line =>
    obtain ⟨hc, htail⟩ := h.tail
    rw [cellDefParts]
    by_cases hbrace : c = '\x7b'
    · rw [List.cons_append, cellFrom_cons hc, step_name, if_pos ⟨rfl, hbrace⟩, if_pos hbrace]
      refine (cellFrom_bracedName htail []).trans ?_
      simp only [List.nil_append]
    · have hhead : ∀ lineHead, (CellScan.step ⟨.name, none, [], [], .unknown⟩ lineHead c) =
          CellScan.step ⟨.name, none, [], [], .unknown⟩ false c := by
        intro lineHead
        rw [step_name, step_name, if_neg fun h ↦ hbrace h.2, if_neg fun h ↦ hbrace h.2]
      rw [if_neg hbrace, List.cons_append, cellFrom_cons hc, hhead, ← cellFrom_cons hc,
        ← List.cons_append, cellFrom_name h]
      rfl

end Ixion.ModelParser
