import Ixion.Lexer.Tokenizer

/-!
# What tokens are made of

A text is cut into pieces, one for each round of the tokenizer: blanks, and the characters of one
token.  Nothing else is left out, and nothing is looked at behind the text, unless a string has no
second quote or a numeral goes on, as far as `strtod` can tell, up to the end of the text.
-/

namespace Ixion

open Lib.Strtod

/-! ## Pieces -/

/-- The operator or separator that a character is. -/
def opcodeOf (c : Char) : Option LexerOpcode :=
  if c = sepArg then some .sep
  else if c = sepArrayRow then some .arrayRowSep
  else opsMap c

/-- A part of a text: a blank, or the characters of a token. -/
inductive Piece where
  | blank
  | op (c : Char) (oc : LexerOpcode) (h : opcodeOf c = some oc)
  | string (s : List Char) (h : '"' ∉ s)
  | error (key : List Char) (e : FormulaError) (h : (key, e) ∈ errorEntries)
  | numeral (s : List Char) (h : ∀ c ∈ s, c.isDigit = true ∨ c = sepDecimal) (v : Option ℚ)
  | name (s : List Char)

namespace Piece

/-- The characters of a piece. -/
def text : Piece → List Char
  | blank => [' ']
  | op c _ _ => [c]
  | string s _ => '"' :: (s ++ ['"'])
  | error key _ _ => '#' :: key
  | numeral s _ _ => s
  | name s => s

/-- The token that is made of a piece. -/
def token : Piece → Option LexerToken
  | blank => none
  | op _ oc _ => some (.op oc)
  | string s _ => some (.string s)
  | error _ e _ => some (.error e)
  | numeral _ _ v => some (.value v)
  | name s => some (.name s)

end Piece

/-- A text has been cut into pieces of which tokens are made; or the rest is an error whose name is
not known. -/
def Lexed (text : List Char) : Except LexFailure (List LexerToken) → Prop
  | .ok tokens => ∃ pieces : List Piece,
      text = pieces.flatMap Piece.text ∧ tokens = pieces.filterMap Piece.token
  | .error (.throws _) => ∃ (pieces : List Piece) (rest : List Char),
      text = pieces.flatMap Piece.text ++ '#' :: rest ∧ ∀ e ∈ errorEntries, ¬ e.1 <+: rest
  | .error .undefined => False
  | .error .running => False

namespace Tokenizer

/-! ## Scanners within a text -/

/-- A scanner has read a part of a text and goes on with the rest of it. -/
structure Reads (text s : List Char) (len : ℕ) (r : Scanned) : Prop where
  text : text = s ++ r.mem
  len : r.len = len + s.length
  left : r.left = r.mem.length

theorem Reads.cons {c : Char} {cs s : List Char} {len : ℕ} {r : Scanned}
    (h : Reads cs s (len + 1) r) : Reads (c :: cs) (c :: s) len r where
  text := by rw [h.text, List.cons_append]
  len := by
    rw [h.len, List.length_cons]
    omega
  left := h.left

theorem reads_nil (cs : List Char) (len : ℕ) : Reads cs [] len ⟨len, cs, cs.length⟩ :=
  ⟨rfl, rfl, rfl⟩

theorem nameLoop_cons (scopes : List Char) (len : ℕ) (c : Char) (cs : List Char) (left : ℕ) :
    nameLoop scopes len (c :: cs) (left + 1) =
      if scopes.head? = some c then nameLoop scopes.tail (len + 1) cs left
      else if c = '[' then nameLoop (']' :: scopes) (len + 1) cs left
      else if c = '\'' then nameLoop ('\'' :: scopes) (len + 1) cs left
      else if scopes ≠ [] then nameLoop scopes (len + 1) cs left
      else if isOp c then .ok ⟨len, c :: cs, left + 1⟩
      else nameLoop scopes (len + 1) cs left := rfl

/-- A name is within the text. -/
theorem reads_nameLoop (scopes : List Char) (len : ℕ) (text : List Char) :
    ∃ s r, nameLoop scopes len text text.length = .ok r ∧ Reads text s len r := by
  induction text generalizing scopes len with
  | nil => exact ⟨[], _, rfl, reads_nil [] len⟩
  | cons c cs ih =>
    have hstep : ∀ scopes', ∃ s r, nameLoop scopes' (len + 1) cs cs.length = .ok r ∧
        Reads (c :: cs) s len r := by
      intro scopes'
      obtain ⟨s, r, heq, hreads⟩ := ih scopes' (len + 1)
      exact ⟨c :: s, r, heq, hreads.cons⟩
    rw [List.length_cons, nameLoop_cons]
    split_ifs
    · exact hstep _
    · exact hstep _
    · exact hstep _
    · exact hstep _
    · exact ⟨[], _, rfl, reads_nil (c :: cs) len⟩
    · exact hstep _

/-- A name has at least one character if it does not begin where names end. -/
theorem name_cons {c : Char} (hc : isOp c = false) (cs : List Char) :
    ∃ s rest, name (c :: cs) (cs.length + 1) = .ok ⟨some (.name (c :: s)), rest, rest.length⟩ ∧
      c :: cs = (c :: s) ++ rest := by
  have hfirst : ∃ scopes, nameLoop [] 0 (c :: cs) (cs.length + 1) =
      nameLoop scopes 1 cs cs.length := by
    rw [nameLoop_cons, if_neg nofun]
    split_ifs with h₁ h₂ h₃ h₄
    · exact ⟨_, rfl⟩
    · exact ⟨_, rfl⟩
    · exact absurd rfl h₃
    · exact absurd h₄ (by rw [hc]; exact nofun)
    · exact ⟨_, rfl⟩
  obtain ⟨scopes, hscopes⟩ := hfirst
  obtain ⟨s, r, heq, htext, hlen, hleft⟩ := reads_nameLoop scopes 1 cs
  refine ⟨s, r.mem, ?_, by rw [List.cons_append, ← htext]⟩
  have htake : (c :: cs).take r.len = c :: s := by
    rw [hlen, Nat.add_comm, List.take_succ_cons, htext, List.take_left]
  rw [name, hscopes, heq, ← hleft]
  show Except.ok (Emitted.mk (some (.name ((c :: cs).take r.len))) r.mem r.left) = _
  rw [htake]

theorem numeralLoop_cons (sepCount len : ℕ) (c : Char) (cs : List Char) (left : ℕ) :
    numeralLoop sepCount len (c :: cs) (left + 1) =
      if c = ':' then .ok none
      else if c.isDigit then numeralLoop sepCount (len + 1) cs left
      else if c = sepDecimal then
        if sepCount + 1 ≤ 1 then numeralLoop (sepCount + 1) (len + 1) cs left
        else .ok (some (sepCount + 1, ⟨len, c :: cs, left + 1⟩))
      else .ok (some (sepCount, ⟨len, c :: cs, left + 1⟩)) := rfl

/-- A numeral is within the text, and has digits and decimal separators only. -/
theorem reads_numeralLoop (sepCount len : ℕ) (text : List Char) :
    numeralLoop sepCount len text text.length = .ok none ∨
      ∃ sepCount' s r, numeralLoop sepCount len text text.length = .ok (some (sepCount', r)) ∧
        Reads text s len r ∧ ∀ c ∈ s, c.isDigit = true ∨ c = sepDecimal := by
  induction text generalizing sepCount len with
  | nil => exact .inr ⟨sepCount, [], _, rfl, reads_nil [] len, by simp⟩
  | cons c cs ih =>
    have hstep : c.isDigit = true ∨ c = sepDecimal → ∀ n,
        numeralLoop n (len + 1) cs cs.length = .ok none ∨
          ∃ sepCount' s r, numeralLoop n (len + 1) cs cs.length = .ok (some (sepCount', r)) ∧
            Reads (c :: cs) s len r ∧ ∀ d ∈ s, d.isDigit = true ∨ d = sepDecimal := by
      intro hc n
      rcases ih n (len + 1) with hnone | ⟨n', s, r, heq, hreads, hs⟩
      · exact .inl hnone
      · refine .inr ⟨n', c :: s, r, heq, hreads.cons, fun d hd ↦ ?_⟩
        rcases List.mem_cons.mp hd with rfl | hd
        · exact hc
        · exact hs d hd
    rw [List.length_cons, numeralLoop_cons]
    split_ifs with h₁ h₂ h₃ h₄
    · exact .inl rfl
    · exact hstep (.inl h₂) _
    · exact hstep (.inr h₃) _
    · exact .inr ⟨_, [], _, rfl, reads_nil (c :: cs) len, by simp⟩
    · exact .inr ⟨_, [], _, rfl, reads_nil (c :: cs) len, by simp⟩

/-- What is scanned as a numeral, from its first digit on. -/
theorem numeralEnd_cons {c : Char} (hc : c.isDigit = true) (cs : List Char) :
    numeralEnd (c :: cs) (cs.length + 1) = .ok none ∨
      ∃ s r, numeralEnd (c :: cs) (cs.length + 1) = .ok (some r) ∧ Reads (c :: cs) (c :: s) 0 r ∧
        ∀ d ∈ c :: s, d.isDigit = true ∨ d = sepDecimal := by
  rw [numeralEnd]
  rcases reads_numeralLoop 0 1 cs with hnone | ⟨n, s, r, heq, hreads, hs⟩
  · left
    show (numeralLoop 0 1 cs cs.length >>= _) = _
    rw [hnone]
    rfl
  · by_cases hn : n > 1
    · left
      show (numeralLoop 0 1 cs cs.length >>= _) = _
      rw [heq]
      show Except.ok (if n > 1 then none else some r) = _
      rw [if_pos hn]
    · right
      refine ⟨s, r, ?_, hreads.cons, fun d hd ↦ ?_⟩
      · show (numeralLoop 0 1 cs cs.length >>= _) = _
        rw [heq]
        show Except.ok (if n > 1 then none else some r) = _
        rw [if_neg hn]
      · rcases List.mem_cons.mp hd with rfl | hd
        · exact .inl hc
        · exact hs d hd

theorem stringLoop_cons (len : ℕ) (c : Char) (cs : List Char) (left : ℕ) :
    stringLoop len (c :: cs) (left + 1) =
      if c = '"' then .ok ⟨len, c :: cs, left + 1⟩ else stringLoop (len + 1) cs left := rfl

/-- A string that has a second quote ends there. -/
theorem reads_stringLoop (len : ℕ) {text : List Char} (h : '"' ∈ text) :
    ∃ s rest, text = s ++ '"' :: rest ∧ '"' ∉ s ∧
      stringLoop len text text.length = .ok ⟨len + s.length, '"' :: rest, rest.length + 1⟩ := by
  induction text generalizing len with
  | nil => exact absurd h List.not_mem_nil
  | cons c cs ih =>
    rw [List.length_cons, stringLoop_cons]
    by_cases hc : c = '"'
    · subst hc
      exact ⟨[], cs, rfl, List.not_mem_nil, by rw [if_pos rfl]; rfl⟩
    · have hcs : '"' ∈ cs := (List.mem_cons.mp h).resolve_left (Ne.symm hc)
      obtain ⟨s, rest, rfl, hs, heq⟩ := ih (len + 1) hcs
      refine ⟨c :: s, rest, rfl, ?_, ?_⟩
      · rw [List.mem_cons, not_or]
        exact ⟨Ne.symm hc, hs⟩
      · rw [if_neg hc, heq, List.length_cons]
        congr 2
        omega

/-- A string without a second quote is read past the end of the text. -/
theorem stringLoop_of_not_mem (len : ℕ) {text : List Char} (h : '"' ∉ text) :
    stringLoop len text text.length = .error .undefined := by
  induction text generalizing len with
  | nil => rfl
  | cons c cs ih =>
    rw [List.mem_cons, not_or] at h
    rw [List.length_cons, stringLoop_cons, if_neg (Ne.symm h.1)]
    exact ih (len + 1) h.2

/-! ### Errors -/

theorem mem_child {c : Char} {node : ErrorNode} {key : List Char} {e : FormulaError} :
    (key, e) ∈ node.child c ↔ (c :: key, e) ∈ node := by
  rw [ErrorNode.child, List.mem_filterMap]
  constructor
  · rintro ⟨⟨key', e'⟩, hmem, heq⟩
    split at heq
    case isTrue hhead =>
      obtain ⟨cs, rfl⟩ := List.head?_eq_some_iff.mp hhead
      cases heq
      exact hmem
    case isFalse => exact nomatch heq
  · intro hmem
    exact ⟨(c :: key, e), hmem, if_pos rfl⟩

theorem mem_of_value_eq_some {node : ErrorNode} {e : FormulaError} (h : node.value = some e) :
    ([], e) ∈ node := by
  obtain ⟨⟨key, e'⟩, hfind, rfl⟩ := Option.map_eq_some_iff.mp h
  have hkey : key = [] := by simpa using List.find?_some hfind
  exact hkey ▸ List.mem_of_find?_eq_some hfind

theorem ne_nil_of_value_eq_none {node : ErrorNode} (h : node.value = none) :
    ∀ e ∈ node, e.1 ≠ [] := by
  intro e he hnil
  rw [ErrorNode.value, Option.map_eq_none_iff, List.find?_eq_none] at h
  exact h e he (by rw [hnil]; rfl)

theorem errorLoop_cons (node : ErrorNode) (len : ℕ) (c : Char) (cs : List Char) (left : ℕ) :
    errorLoop node len (c :: cs) (left + 1) =
      if (node.child c).isEmpty then .ok (none, ⟨len, c :: cs, left + 1⟩)
      else
        match (node.child c).value with
        | some e => .ok (some e, ⟨len + 1, cs, left⟩)
        | none => errorLoop (node.child c) (len + 1) cs left := rfl

/-- Either the text begins with the name of an error, or with none. -/
theorem errorLoop_spec {node : ErrorNode} (hnode : ∀ e ∈ node, e.1 ≠ []) (len : ℕ)
    (text : List Char) :
    (∃ key e r, (key, e) ∈ node ∧ errorLoop node len text text.length = .ok (some e, r) ∧
        Reads text key len r) ∨
      ∃ r, errorLoop node len text text.length = .ok (none, r) ∧
        ∀ e ∈ node, ¬ e.1 <+: text := by
  induction text generalizing node len with
  | nil =>
    right
    exact ⟨_, rfl, fun e he hle ↦ hnode e he (List.prefix_nil.mp hle)⟩
  | cons c cs ih =>
    -- the names that begin with the character are those of the next node
    have hnext : (∀ e ∈ node.child c, ¬ e.1 <+: cs) → ∀ e ∈ node, ¬ e.1 <+: c :: cs := by
      rintro hchild ⟨key, e⟩ he hle
      cases key with
      | nil => exact hnode _ he rfl
      | cons d key =>
        obtain ⟨rfl, hkey⟩ := List.cons_prefix_cons.mp hle
        exact hchild (key, e) (mem_child.mpr he) hkey
    rw [List.length_cons, errorLoop_cons]
    by_cases hempty : (node.child c).isEmpty = true
    · right
      rw [if_pos hempty]
      refine ⟨_, rfl, hnext fun e he ↦ ?_⟩
      rw [List.isEmpty_iff.mp hempty] at he
      exact absurd he List.not_mem_nil
    · rw [if_neg hempty]
      cases hvalue : (node.child c).value with
      | some e =>
        left
        exact ⟨[c], e, _, mem_child.mp (mem_of_value_eq_some hvalue), rfl, rfl, rfl, rfl⟩
      | none =>
        rcases ih (ne_nil_of_value_eq_none hvalue) (len + 1) with
          ⟨key, e, r, hmem, heq, hreads⟩ | ⟨r, heq, hnone⟩
        · exact .inl ⟨c :: key, e, r, mem_child.mp hmem, heq, hreads.cons⟩
        · exact .inr ⟨r, heq, hnext hnone⟩

/-! ## One round -/

/-- The tokenizer looks behind a text that begins with a quote and has no second one, or with a
numeral that goes on up to its end as far as `strtod` can tell. -/
def ReadsPast (text : List Char) : Prop :=
  (∃ s, text = '"' :: s ∧ '"' ∉ s) ∨
    ∃ c s r, text = c :: s ∧ c.isDigit = true ∧ numeralEnd text text.length = .ok (some r) ∧
      strtod text = none

/-- A round cuts a piece off the text. -/
structure Cuts (text : List Char) (r : Emitted) (piece : Piece) : Prop where
  text : text = piece.text ++ r.mem
  token : r.token = piece.token
  left : r.left = r.mem.length
  ne_nil : piece.text ≠ []

theorem not_readsPast {c : Char} (hdigit : c.isDigit = false) (hquote : c ≠ '"')
    (cs : List Char) : ¬ ReadsPast (c :: cs) := by
  rintro (⟨s, hs, -⟩ | ⟨d, s, r, hs, hd, -⟩)
  · exact hquote (List.cons.inj hs).1
  · rw [← (List.cons.inj hs).1, hdigit] at hd
    exact nomatch hd

/-- What a round does: it looks behind the text where it is said to do so, and otherwise cuts a
piece off, unless it throws at an error whose name is not known. -/
def RoundSpec (c : Char) (cs : List Char) (result : Except LexFailure Emitted) : Prop :=
  (ReadsPast (c :: cs) ∧ result = .error .undefined) ∨
    (¬ ReadsPast (c :: cs) ∧
      ((∃ r piece, result = .ok r ∧ Cuts (c :: cs) r piece) ∨
        ∃ msg, result = .error (.throws msg) ∧ c = '#' ∧ ∀ e ∈ errorEntries, ¬ e.1 <+: cs))

theorem roundSpec_name {c : Char} (hc : isOp c = false) {cs : List Char}
    (h : ¬ ReadsPast (c :: cs)) : RoundSpec c cs (name (c :: cs) (cs.length + 1)) := by
  obtain ⟨s, rest, heq, htext⟩ := name_cons hc cs
  exact .inr ⟨h, .inl ⟨_, .name (c :: s), heq, htext, rfl, rfl, List.cons_ne_nil _ _⟩⟩

/-- One character is the whole piece. -/
theorem roundSpec_single {c : Char} {piece : Piece} (hpiece : piece.text = [c]) {cs : List Char}
    (h : ¬ ReadsPast (c :: cs)) :
    RoundSpec c cs (.ok ⟨piece.token, cs, cs.length⟩) :=
  .inr ⟨h, .inl ⟨_, piece, rfl, by rw [hpiece]; rfl, rfl, rfl, by rw [hpiece]; simp⟩⟩

theorem isOp_of_isDigit {c : Char} (h : c.isDigit = true) : isOp c = false := by
  by_contra hop
  rw [Bool.not_eq_false] at hop
  have hops : (opsMap c).isSome = true → False := by
    intro hsome
    unfold opsMap at hsome
    split at hsome <;> first | exact absurd h (by decide) | exact nomatch hsome
  simp only [isOp, Bool.or_eq_true, decide_eq_true_eq] at hop
  rcases hop with ((rfl | hop) | rfl) | rfl
  · exact nomatch h
  · exact hops hop
  · exact nomatch h
  · exact nomatch h

/-- A numeral is converted if no more than one point stands in it. -/
theorem numeral_of_numeralEnd {mem : List Char} {left : ℕ} {r : Scanned}
    (h : numeralEnd mem left = .ok (some r)) :
    numeral mem left =
      match toDouble (mem.take r.len) (mem.drop r.len) with
      | none => .error .undefined
      | some val => .ok ⟨some (.value val), r.mem, r.left⟩ := by
  rw [numeral, h]
  rfl

theorem roundSpec_numeral {c : Char} (hc : c.isDigit = true) (cs : List Char) :
    RoundSpec c cs (numeral (c :: cs) (cs.length + 1)) := by
  have hquote : c ≠ '"' := by
    rintro rfl
    cases hc
  rcases numeralEnd_cons hc cs with hnone | ⟨s, r, heq, ⟨htext, hlen, hleft⟩, hdigits⟩
  · have hpast : ¬ ReadsPast (c :: cs) := by
      rintro (⟨s, hs, -⟩ | ⟨d, s, r, -, -, hend, -⟩)
      · exact hquote (List.cons.inj hs).1
      · rw [List.length_cons, hnone] at hend
        cases hend
    rw [numeral, hnone]
    exact roundSpec_name (isOp_of_isDigit hc) hpast
  · have htake : (c :: cs).take r.len = c :: s := by
      rw [hlen, Nat.zero_add, htext, List.take_left]
    have hdrop : (c :: cs).drop r.len = r.mem := by
      rw [hlen, Nat.zero_add, htext, List.drop_left]
    have hnumeral := numeral_of_numeralEnd heq
    rw [htake, hdrop] at hnumeral
    have hconvert : toDouble (c :: s) r.mem = none ↔ strtod (c :: cs) = none := by
      rw [toDouble, if_neg (by simp), htext]
      cases strtod (c :: s ++ r.mem) with
      | none => exact iff_of_true rfl rfl
      | some result =>
        refine iff_of_false (fun h ↦ ?_) (by rintro ⟨⟩)
        change (if _ then _ else _ : Option (Option ℚ)) = none at h
        split at h <;> cases h
    rw [hnumeral]
    cases hval : toDouble (c :: s) r.mem with
    | none => exact .inl ⟨.inr ⟨c, cs, r, rfl, hc, heq, hconvert.mp hval⟩, rfl⟩
    | some val =>
      refine .inr ⟨?_, .inl ⟨_, .numeral (c :: s) hdigits val, rfl, htext, rfl, hleft,
        List.cons_ne_nil _ _⟩⟩
      rintro (⟨s, hs, -⟩ | ⟨d, s, r, -, -, -, hstrtod⟩)
      · exact hquote (List.cons.inj hs).1
      · rw [hconvert.mpr hstrtod] at hval
        cases hval

theorem roundSpec_string (cs : List Char) :
    RoundSpec '"' cs (string ('"' :: cs) (cs.length + 1)) := by
  have hstring : string ('"' :: cs) (cs.length + 1) = (stringLoop 0 cs cs.length).bind fun r ↦
      (readChar r.mem).bind fun c ↦
        if c = '"' then .ok ⟨some (.string (cs.take r.len)), r.mem.tail, r.left - 1⟩
        else .ok ⟨some (.string (cs.take r.len)), r.mem, r.left⟩ := rfl
  rw [hstring]
  by_cases hmem : '"' ∈ cs
  · obtain ⟨s, rest, htext, hs, heq⟩ := reads_stringLoop 0 hmem
    refine .inr ⟨?_, .inl ⟨⟨some (.string s), rest, rest.length⟩, .string s hs, ?_, ?_, rfl, rfl,
      List.cons_ne_nil _ _⟩⟩
    · rintro (⟨s', hs', hnot⟩ | ⟨d, s', r, hs', hd, -⟩)
      · exact hnot ((List.cons.inj hs').2 ▸ hmem)
      · rw [← (List.cons.inj hs').1] at hd
        exact nomatch hd
    · have htake : cs.take s.length = s := by
        rw [htext, List.take_left]
      rw [heq, Nat.zero_add]
      show Except.ok (Emitted.mk (some (.string (cs.take s.length))) rest rest.length) = _
      rw [htake]
    · rw [htext]
      simp [Piece.text]
  · refine .inl ⟨.inl ⟨cs, rfl, hmem⟩, ?_⟩
    rw [stringLoop_of_not_mem 0 hmem]
    rfl

theorem error_cons (cs : List Char) :
    error ('#' :: cs) (cs.length + 1) =
      (errorLoop errorEntries 1 cs cs.length).bind fun
        | (some e, r) => .ok ⟨some (.error e), r.mem, r.left⟩
        | (none, r) =>
          .error (.throws ("failed to parse an error token in lexer tokenizer: '".toList ++
            ('#' :: cs).take r.len ++ ['\''])) := rfl

theorem roundSpec_error (cs : List Char) :
    RoundSpec '#' cs (error ('#' :: cs) (cs.length + 1)) := by
  have hpast : ¬ ReadsPast ('#' :: cs) := not_readsPast (by decide) (by decide) cs
  rw [error_cons]
  rcases @errorLoop_spec errorEntries (by decide) 1 cs with
    ⟨key, e, r, hmem, heq, htext, -, hleft⟩ | ⟨r, heq, hnone⟩
  · rw [heq]
    refine .inr ⟨hpast, .inl ⟨_, .error key e hmem, rfl, ?_, rfl, hleft, List.cons_ne_nil _ _⟩⟩
    rw [Piece.text, List.cons_append, ← htext]
  · rw [heq]
    exact .inr ⟨hpast, .inr ⟨_, rfl, rfl, hnone⟩⟩

theorem step_cons (c : Char) (cs : List Char) (left : ℕ) :
    step (c :: cs) left =
      if c.isDigit then numeral (c :: cs) left
      else
        match opsMap c with
        | some oc => .ok ⟨some (.op oc), cs, left - 1⟩
        | none =>
          if c = ' ' then .ok ⟨none, cs, left - 1⟩
          else if c = '"' then string (c :: cs) left
          else if c = '#' then error (c :: cs) left
          else if c = sepArg then .ok ⟨some (.op .sep), cs, left - 1⟩
          else if c = sepArrayRow then .ok ⟨some (.op .arrayRowSep), cs, left - 1⟩
          else name (c :: cs) left := rfl

/-- What a round does, for each character that it may begin with. -/
theorem roundSpec_step (c : Char) (cs : List Char) :
    RoundSpec c cs (step (c :: cs) (cs.length + 1)) := by
  rw [step_cons, Nat.add_sub_cancel]
  by_cases hdigit : c.isDigit = true
  · rw [if_pos hdigit]
    exact roundSpec_numeral hdigit cs
  rw [if_neg hdigit]
  rw [Bool.not_eq_true] at hdigit
  cases hop : opsMap c with
  | some oc =>
    have hquote : c ≠ '"' := by
      rintro rfl
      exact nomatch hop
    have hopcode : opcodeOf c = some oc := by
      rw [opcodeOf, if_neg, if_neg, hop]
      · rintro rfl
        exact nomatch hop
      · rintro rfl
        exact nomatch hop
    exact @roundSpec_single c (.op c oc hopcode) rfl cs (not_readsPast hdigit hquote cs)
  | none =>
    dsimp only
    split_ifs with hblank hquote herror hsep hrow
    · subst hblank
      exact @roundSpec_single ' ' .blank rfl cs (not_readsPast hdigit (by decide) cs)
    · subst hquote
      exact roundSpec_string cs
    · subst herror
      exact roundSpec_error cs
    · subst hsep
      exact @roundSpec_single sepArg (.op sepArg .sep rfl) rfl cs
        (not_readsPast hdigit hquote cs)
    · subst hrow
      exact @roundSpec_single sepArrayRow (.op sepArrayRow .arrayRowSep rfl) rfl cs
        (not_readsPast hdigit hquote cs)
    · refine roundSpec_name ?_ (not_readsPast hdigit hquote cs)
      simp [isOp, hop, hsep, hblank, hquote]

/-! ## All rounds -/

/-- The rests of a text that rounds of the tokenizer begin with. -/
inductive ComesTo : List Char → List Char → Prop
  | start (text : List Char) : ComesTo text text
  | round {text rest : List Char} {r : Emitted} (h : step text text.length = .ok r)
      (hrest : ComesTo r.mem rest) : ComesTo text rest

/-- A round that leads on comes to what it leaves. -/
theorem comesTo_iff_of_step {text rest : List Char} {r : Emitted}
    (hstep : step text text.length = .ok r) :
    ComesTo text rest ↔ rest = text ∨ ComesTo r.mem rest := by
  constructor
  · rintro (- | ⟨h, hrest⟩)
    · exact .inl rfl
    · obtain rfl := Except.ok.inj (hstep.symm.trans h)
      exact .inr hrest
  · rintro (rfl | hrest)
    · exact .start _
    · exact .round hstep hrest

/-- A round that fails is the last one. -/
theorem ComesTo.eq_of_error {text rest : List Char} (h : ComesTo text rest) {e : LexFailure}
    (hstep : step text text.length = .error e) : rest = text := by
  rcases h with - | ⟨h, -⟩
  · rfl
  · exact nomatch hstep.symm.trans h

theorem not_readsPast_nil : ¬ ReadsPast [] := by
  rintro (⟨s, hs, -⟩ | ⟨c, s, r, hs, -⟩)
  · exact nomatch hs
  · exact nomatch hs

theorem not_readsPast_of_comesTo_nil {rest : List Char} (h : ComesTo [] rest) :
    ¬ ReadsPast rest := by
  rcases h with - | ⟨h, -⟩
  · exact not_readsPast_nil
  · exact nomatch h

theorem run_cons (rounds : ℕ) (c : Char) (cs : List Char) :
    run (rounds + 1) (c :: cs) (c :: cs).length =
      (step (c :: cs) (cs.length + 1)).bind fun r ↦
        (run rounds r.mem r.left).bind fun tokens ↦ .ok (r.token.toList ++ tokens) := rfl

theorem Cuts.length_lt {text : List Char} {r : Emitted} {piece : Piece} (h : Cuts text r piece) :
    r.mem.length < text.length := by
  have hlen := congrArg List.length h.text
  have hpos := List.length_pos_iff.mpr h.ne_nil
  rw [List.length_append] at hlen
  omega

/-- A piece is put in front of those of the rest. -/
theorem Cuts.lexed {text : List Char} {r : Emitted} {piece : Piece} (h : Cuts text r piece)
    {result : Except LexFailure (List LexerToken)} (hlexed : Lexed r.mem result) :
    Lexed text (result.bind fun tokens ↦ .ok (r.token.toList ++ tokens)) := by
  match result, hlexed with
  | .ok tokens, ⟨pieces, htext, htokens⟩ =>
    refine ⟨piece :: pieces, ?_, ?_⟩
    · rw [List.flatMap_cons, ← htext]
      exact h.text
    · rw [h.token, htokens, List.filterMap_cons]
      cases piece.token <;> rfl
  | .error (.throws msg), ⟨pieces, rest, htext, hnone⟩ =>
    refine ⟨piece :: pieces, rest, ?_, hnone⟩
    rw [List.flatMap_cons, List.append_assoc, ← htext]
    exact h.text

/-- With as many rounds as there are characters, a text is cut into pieces unless the tokenizer
comes to where it looks behind the text, and then it does. -/
theorem run_spec {rounds : ℕ} {text : List Char} (hrounds : text.length ≤ rounds) :
    ((∀ rest, ComesTo text rest → ¬ ReadsPast rest) ∧ Lexed text (run rounds text text.length)) ∨
      ((∃ rest, ComesTo text rest ∧ ReadsPast rest) ∧
        run rounds text text.length = .error .undefined) := by
  induction rounds generalizing text with
  | zero =>
    obtain rfl : text = [] := List.length_eq_zero_iff.mp (Nat.le_zero.mp hrounds)
    exact .inl ⟨fun rest ↦ not_readsPast_of_comesTo_nil, [], rfl, rfl⟩
  | succ rounds ih =>
    cases text with
    | nil => exact .inl ⟨fun rest ↦ not_readsPast_of_comesTo_nil, [], rfl, rfl⟩
    | cons c cs =>
      rw [run_cons]
      rcases roundSpec_step c cs with ⟨hpast, hstep⟩ | ⟨hpast, ⟨r, piece, hstep, hcuts⟩ |
        ⟨msg, hstep, rfl, hnone⟩⟩
      · refine .inr ⟨⟨_, .start _, hpast⟩, ?_⟩
        rw [hstep]
        rfl
      · have hlength : r.mem.length ≤ rounds :=
          Nat.lt_succ_iff.mp (hcuts.length_lt.trans_le hrounds)
        have hcomes (rest : List Char) := @comesTo_iff_of_step _ rest _ hstep
        have hbind : ((.ok r : Except LexFailure Emitted).bind fun r ↦
            (run rounds r.mem r.left).bind fun tokens ↦ .ok (r.token.toList ++ tokens)) =
              (run rounds r.mem r.mem.length).bind fun tokens ↦
                .ok (r.token.toList ++ tokens) := by
          rw [← hcuts.left]
          rfl
        rw [hstep, hbind]
        rcases ih hlength with ⟨hsafe, hlexed⟩ | ⟨⟨rest, hrest, hreads⟩, hrun⟩
        · refine .inl ⟨fun rest hrest ↦ ?_, hcuts.lexed hlexed⟩
          rcases (hcomes rest).mp hrest with rfl | hrest
          · exact hpast
          · exact hsafe rest hrest
        · refine .inr ⟨⟨rest, (hcomes rest).mpr (.inr hrest), hreads⟩, ?_⟩
          rw [hrun]
          rfl
      · rw [hstep]
        exact .inl ⟨fun rest hrest ↦ (hrest.eq_of_error hstep).symm ▸ hpast, [], cs, rfl, hnone⟩

/-! ## Result -/

/-- A text is cut into the pieces that the tokens are made of, without a look behind it, exactly
when no round begins with a quote that has no second one, or with a numeral that goes on up to the
end of the text as far as `strtod` can tell. -/
theorem lexed_iff (text : List Char) :
    Lexed text (tokenize text []) ↔ ∀ rest, ComesTo text rest → ¬ ReadsPast rest := by
  rw [tokenize, List.append_nil]
  rcases run_spec (le_refl text.length) with ⟨hsafe, hlexed⟩ | ⟨⟨rest, hrest, hreads⟩, hrun⟩
  · exact iff_of_true hlexed hsafe
  · rw [hrun]
    exact iff_of_false id fun h ↦ h rest hrest hreads

/-- A quote alone is looked behind. -/
theorem not_lexed : ¬ ∀ text, Lexed text (tokenize text []) := by
  intro h
  exact h ['"', 'a']

end Tokenizer

end Ixion
