import Ixion.Lexer.Apart
import Ixion.Parser.Parse

/-!
# Printing formulas

The texts of the tokens of a formula are printed one after the other, without anything between them.
What is printed is parsed as the same formula if each of its tokens returns alone, and no two
neighbours run into each other: a name or a number has to be followed by something that begins with
an operator or a quote.
-/

namespace Ixion

open FormulaParser (Merges Spelt SpeltAs)
open Tokenizer (CutApart CutsOff Ends IsNumeral IsWord written)

/-! ## The printer -/

/-- When the sheet of a reference is displayed. -/
inductive DisplaySheet where
  | unspecified
  | never
  | always
  | onlyIfDifferent
deriving DecidableEq, Repr

/-- Whether the sheet of a reference is displayed. -/
def sheetToPrint (display : DisplaySheet) (pos : AbsAddress) (refAddr : Address) : Bool :=
  match display with
  | .always => true
  | .never => false
  | .onlyIfDifferent => (refAddr.toAbs pos).sheet ≠ pos.sheet
  | .unspecified => false

/-- The name of an error. -/
def FormulaError.name : FormulaError → String
  | noError => ""
  | refResultNotAvailable => "#REF!"
  | divisionByZero => "#DIV/0!"
  | invalidExpression => "#NUM!"
  | nameNotFound => "#NAME?"
  | noRangeIntersection => "#NULL!"
  | invalidValueType => "#VALUE!"
  | noValueAvailable => "#N/A"
  | noResultError | stackError | generalError => "#ERR!"

/-- The name of a function, empty if there is no such function. -/
def FormulaFunctions.getFunctionName (func : FormulaFunction) : String :=
  ((BuiltinFuncs.entries.find? (·.2 = func)).map (·.1)).getD ""

section Printer

variable (display : DisplaySheet) (pool : StringPool) (pos : AbsAddress) (r : FormulaNameResolver)

/-- Print a token. -/
def printToken : FormulaToken → Except Exn (List Char)
  | .arrayOpen => return ['\x7b']
  | .arrayClose => return ['\x7d']
  | .parenClose => return [')']
  | .divide => return ['/']
  | .minus => return ['-']
  | .multiply => return ['*']
  | .exponent => return ['^']
  | .concat => return ['&']
  | .parenOpen => return ['(']
  | .plus => return ['+']
  | .value v => return printValue v
  | .sep => return [sepArg]
  | .arrayRowSep => return [sepArrayRow]
  | .function func => return (FormulaFunctions.getFunctionName func).toList
  | .error e => return e.name.toList
  | .singleRef addr => r.getName addr pos (sheetToPrint display pos addr)
  | .rangeRef range => r.getRangeName range pos (sheetToPrint display pos range.first)
  | .tableRef table => return r.getTableName table
  | .string sid =>
    return match pool.getString sid with
    | some s => ['"'] ++ charsOf s ++ ['"']
    | none => []
  | .equal => return ['=']
  | .notEqual => return ['<', '>']
  | .less => return ['<']
  | .greater => return ['>']
  | .lessEqual => return ['<', '=']
  | .greaterEqual => return ['>', '=']
  | .namedExpression name => return name.toList
  | .invalidFormula | .unknown => return []

/-- The loop of `print_formula_tokens`. -/
def printTokens : List FormulaToken → Except Exn (List Char)
  | [] => return []
  | t :: tokens => do
    let s ← printToken display pool pos r t
    let rest ← printTokens tokens
    return s ++ rest

/-- Print a formula.  Nothing is printed of an invalid one. -/
def printFormulaTokens (tokens : List FormulaToken) : Except Exn (List Char) :=
  if tokens.head? = some .invalidFormula then return []
  else printTokens display pool pos r tokens

end Printer

/-! ## Neighbours -/

namespace FormulaToken

/-- A token that is printed as a name or a number. -/
def isWordy : FormulaToken → Bool
  | value _ | function _ | singleRef _ | rangeRef _ | tableRef _ | namedExpression _ => true
  | _ => false

/-- A token whose text ends names and numbers in front of it. -/
def endsWords : FormulaToken → Bool
  | value _ | function _ | singleRef _ | rangeRef _ | tableRef _ | namedExpression _ => false
  | arrayRowSep | error _ | invalidFormula | unknown => false
  | _ => true

/-- Two tokens that may be printed next to each other. -/
def Apart (t next : FormulaToken) : Prop :=
  (t.isWordy → next.endsWords) ∧ ¬ Merges t next

instance (t next : FormulaToken) : Decidable (Merges t next) :=
  inferInstanceAs (Decidable (_ ∨ _))

instance (t next : FormulaToken) : Decidable (t.Apart next) := inferInstanceAs (Decidable (_ ∧ _))

end FormulaToken

/-! ## Tokens that return -/

section Returns

variable (display : DisplaySheet) (r : FormulaNameResolver) (pos : AbsAddress) (pool : StringPool)

/-- What is printed of a token stands for that token, as long as the tokenizer does not go on with
it. -/
def FormulaToken.Returns : FormulaToken → Prop
  | .singleRef addr => ∃ s, r.getName addr pos (sheetToPrint display pos addr) = .ok s ∧
    IsWord s ∧ r.resolve s pos = .cellReference addr
  | .rangeRef range => ∃ s, r.getRangeName range pos (sheetToPrint display pos range.first) =
    .ok s ∧ IsWord s ∧ r.resolve s pos = .rangeReference range
  | .tableRef table => IsWord (r.getTableName table) ∧
    ∃ t, r.resolve (r.getTableName table) pos = .tableReference t ∧ table.areas = t.areas ∧
      pool.Interned t.name table.name ∧ pool.Interned t.columnFirst table.columnFirst ∧
      pool.Interned t.columnLast table.columnLast
  | .namedExpression name =>
    IsWord name.toList ∧ r.resolve name.toList pos = .namedExpression
  | .function func => IsWord (FormulaFunctions.getFunctionName func).toList ∧
    r.resolve (FormulaFunctions.getFunctionName func).toList pos = .function func
  | .value v => ∃ num, IsNumeral num ∧ printValue v = num.text ∧ num.value = v
  | .string sid => ∃ s, pool.Interned s sid ∧ AreBytes s ∧ '"' ∉ s
  | .error e => ∃ key, (key, e) ∈ errorEntries
  | .invalidFormula | .unknown => False
  | _ => True

/-- A token with the texts that are printed of it and the tokens that these are cut into. -/
structure Writes (t : FormulaToken) (l : List (List Char × LexerToken)) : Prop where
  print : printToken display pool pos r t = .ok (written l)
  spelt : Spelt r pos pool t (l.map (·.2))
  cutApart : ∀ rest, (t.isWordy = true → Ends rest) → CutApart l rest
  ends : t.endsWords = true → ∃ c cs, written l = c :: cs ∧ Tokenizer.isOp c = true

end Returns

section Writes

variable {display : DisplaySheet} {r : FormulaNameResolver} {pos : AbsAddress} {pool : StringPool}
  {t : FormulaToken}

/-- An operator of one character. -/
theorem writes_op {c : Char} {oc : LexerOpcode} (hoc : opcodeOf c = some oc)
    (hprint : printToken display pool pos r t = .ok [c]) (hspelt : FormulaParser.primitive oc = t)
    (hends : t.endsWords = true → Tokenizer.isOp c = true) :
    Writes display r pos pool t [([c], .op oc)] where
  print := hprint
  spelt := hspelt ▸ .primitive oc
  cutApart _ _ := ⟨Tokenizer.cutsOff_op hoc _, trivial⟩
  ends h := ⟨c, [], rfl, hends h⟩

/-- An operator of two characters. -/
theorem writes_op_op {c c' : Char} {oc oc' : LexerOpcode} (hoc : opcodeOf c = some oc)
    (hoc' : opcodeOf c' = some oc') (hprint : printToken display pool pos r t = .ok [c, c'])
    (hspelt : Spelt r pos pool t [.op oc, .op oc'])
    (hends : t.endsWords = true → Tokenizer.isOp c = true) :
    Writes display r pos pool t [([c], .op oc), ([c'], .op oc')] where
  print := hprint
  spelt := hspelt
  cutApart _ _ := ⟨Tokenizer.cutsOff_op hoc _, Tokenizer.cutsOff_op hoc' _, trivial⟩
  ends h := ⟨c, [c'], rfl, hends h⟩

/-- A token that is printed as a word. -/
theorem writes_word {s : List Char} (hword : IsWord s)
    (hprint : printToken display pool pos r t = .ok s) (hspelt : Spelt r pos pool t [.name s])
    (hwordy : t.isWordy = true) (hends : t.endsWords = false) :
    Writes display r pos pool t [(s, .name s)] where
  print := by rw [hprint, written, List.flatMap_singleton]
  spelt := hspelt
  cutApart rest hrest := ⟨hword.cutsOff (hrest hwordy), trivial⟩
  ends h := by
    rw [hends] at h
    cases h

theorem FormulaError.name_of_mem_errorEntries :
    ∀ p ∈ errorEntries, (p.2 : FormulaError).name.toList = '#' :: p.1 := by
  decide

theorem StringPool.Interned.getString {s : List Char} {sid : StringId}
    (h : pool.Interned s sid) : pool.getString sid = some (bytesOf s) := by
  have hget := pool.getString_addString (bytesOf s)
  rw [h] at hget
  exact hget

/-- Integers of up to six digits return. -/
theorem returns_natCast {n : ℕ} (hn : n < 10 ^ 6) :
    (FormulaToken.value n).Returns display r pos pool := by
  refine ⟨⟨none, Nat.toDigits 10 n, none, fun c hc ↦ isDigit_of_mem_toDigits hc, by simp, ?_⟩,
    ⟨rfl, Nat.toDigits_ne_nil⟩, ?_, ?_⟩
  · simp [Nat.toDigits_ne_nil]
  · rw [printValue, Lib.Format.format_natCast 6 hn, DecimalText.text]
    exact (List.append_nil _).symm
  · show (Lib.Strtod.mantissa 10 (Nat.toDigits 10 n) [] : ℚ) = n
    rw [Lib.Strtod.mantissa, List.append_nil, ofDigitList_toDigits]
    simp

/-- What is printed of a token that returns is cut into the tokens that it is written with. -/
theorem FormulaToken.Returns.writes (h : t.Returns display r pos pool) :
    ∃ l, Writes display r pos pool t l := by
  cases t with
  | singleRef addr =>
    obtain ⟨s, hprint, hword, hresolve⟩ := h
    exact ⟨_, writes_word hword hprint (.singleRef hresolve) rfl rfl⟩
  | rangeRef range =>
    obtain ⟨s, hprint, hword, hresolve⟩ := h
    exact ⟨_, writes_word hword hprint (.rangeRef hresolve) rfl rfl⟩
  | tableRef table =>
    obtain ⟨hword, t, hresolve, hareas, hname, hfirst, hlast⟩ := h
    obtain ⟨name, first, last, areas⟩ := table
    subst hareas
    exact ⟨_, writes_word hword rfl (.tableRef hresolve hname hfirst hlast) rfl rfl⟩
  | namedExpression name =>
    obtain ⟨hword, hresolve⟩ := h
    have hspelt : Spelt r pos pool (.namedExpression (String.ofList name.toList))
        [.name name.toList] := .namedExpression hresolve
    rw [String.ofList_toList] at hspelt
    exact ⟨_, writes_word hword rfl hspelt rfl rfl⟩
  | function func =>
    obtain ⟨hword, hresolve⟩ := h
    exact ⟨_, writes_word hword rfl (.function hresolve) rfl rfl⟩
  | value v =>
    obtain ⟨num, hnum, hprint, rfl⟩ := h
    refine ⟨[(num.text, .value (some num.value))], ?_, .value _, fun rest hrest ↦ ?_, nofun⟩
    · rw [written, List.flatMap_singleton, ← hprint]
      rfl
    · exact ⟨hnum.cutsOff (hrest rfl), trivial⟩
  | string sid =>
    obtain ⟨s, hs, hbytes, hquote⟩ := h
    have hprint : printToken display pool pos r (.string sid) = .ok ('"' :: (s ++ ['"'])) := by
      rw [printToken, hs.getString]
      show Except.ok (['"'] ++ charsOf (bytesOf s) ++ ['"']) = _
      rw [charsOf_bytesOf hbytes]
      rfl
    refine ⟨[('"' :: (s ++ ['"']), .string s)], ?_, .string hs, fun rest _ ↦ ?_, fun _ ↦ ?_⟩
    · rw [hprint, written, List.flatMap_singleton]
    · exact ⟨Tokenizer.cutsOff_string hquote _, trivial⟩
    · exact ⟨'"', s ++ ['"'], List.flatMap_singleton _ _, rfl⟩
  | error e =>
    obtain ⟨key, hkey⟩ := h
    refine ⟨[('#' :: key, .error e)], ?_, .error e, fun rest _ ↦ ?_, nofun⟩
    · rw [written, List.flatMap_singleton]
      exact congrArg Except.ok (FormulaError.name_of_mem_errorEntries _ hkey)
    · exact ⟨Tokenizer.cutsOff_error hkey _, trivial⟩
  | notEqual => exact ⟨_, writes_op_op rfl rfl rfl .notEqual fun _ ↦ rfl⟩
  | lessEqual => exact ⟨_, writes_op_op rfl rfl rfl .lessEqual fun _ ↦ rfl⟩
  | greaterEqual => exact ⟨_, writes_op_op rfl rfl rfl .greaterEqual fun _ ↦ rfl⟩
  | invalidFormula | unknown => exact h.elim
  | plus | minus | divide | multiply | exponent | concat | equal | less | greater | parenOpen
    | parenClose | sep | arrayOpen | arrayClose => exact ⟨_, writes_op rfl rfl rfl fun _ ↦ rfl⟩
  | arrayRowSep => exact ⟨_, writes_op rfl rfl rfl nofun⟩

/-! ## Formulas that return -/

/-- The texts of the tokens of a formula are printed one after the other, and cut apart where they
are not run into each other. -/
theorem writes_formula {l : List (FormulaToken × List (List Char × LexerToken))}
    (hl : ∀ p ∈ l, Writes display r pos pool p.1 p.2)
    (hapart : (l.map (·.1)).IsChain FormulaToken.Apart) :
    printTokens display pool pos r (l.map (·.1)) = .ok (written (l.flatMap (·.2))) ∧
      CutApart (l.flatMap (·.2)) [] ∧
      SpeltAs r pos pool (l.map (·.1)) ((l.flatMap (·.2)).map (·.2)) := by
  induction l with
  | nil => exact ⟨rfl, trivial, [], rfl, rfl, by simp, .nil⟩
  | cons p l ih =>
    have hp := hl p List.mem_cons_self
    have hl' : ∀ q ∈ l, Writes display r pos pool q.1 q.2 :=
      fun q hq ↦ hl q (List.mem_cons_of_mem p hq)
    obtain ⟨hprint, hcut, hspelt⟩ := ih hl' hapart.tail
    have hends : p.1.isWordy = true → Ends (written (l.flatMap (·.2)) ++ []) := by
      intro hwordy
      rw [List.append_nil]
      cases l with
      | nil => rintro c ⟨⟩
      | cons q l =>
        have hnext := (List.isChain_cons_cons.mp hapart).1.1 hwordy
        obtain ⟨c, cs, htext, hop⟩ := (hl' q List.mem_cons_self).ends hnext
        have hwritten :
            written ((q :: l).flatMap (·.2)) = written q.2 ++ written (l.flatMap (·.2)) :=
          List.flatMap_append
        rw [hwritten, htext]
        rintro c' ⟨⟩
        exact hop
    have hwritten : written ((p :: l).flatMap (·.2)) = written p.2 ++ written (l.flatMap (·.2)) :=
      List.flatMap_append
    refine ⟨?_, (hp.cutApart _ hends).append hcut, ?_⟩
    · rw [hwritten]
      show (printToken display pool pos r p.1 >>= fun s ↦
        printTokens display pool pos r (l.map (·.1)) >>= fun rest ↦ pure (s ++ rest)) = _
      rw [hp.print, hprint]
      rfl
    · rw [List.flatMap_cons, List.map_append]
      refine hspelt.cons hp.spelt fun t ht htakes ↦ ?_
      cases l with
      | nil => cases ht
      | cons q l =>
        have hq := (hl' q List.mem_cons_self).spelt
        rw [List.flatMap_cons, List.map_append, List.head?_append_of_ne_nil _ hq.ne_nil] at ht
        exact (List.isChain_cons_cons.mp hapart).1.2 (hq.takes_iff.mp ⟨t, ht, htakes⟩)

theorem isChain_and {α : Type} {R S : α → α → Prop} {l : List α} (hR : l.IsChain R)
    (hS : l.IsChain S) : l.IsChain fun a b ↦ R a b ∧ S a b := by
  rw [List.isChain_iff_getElem] at hR hS ⊢
  exact fun i hi ↦ ⟨hR i hi, hS i hi⟩

/-- What is printed of a formula is parsed as that formula if each token is cut into the tokens that
it is written with, and its neighbours are apart. -/
theorem parse_print {tokens : List FormulaToken}
    (hwrites : ∀ t ∈ tokens, t ≠ .invalidFormula ∧ ∃ l, Writes display r pos pool t l)
    (hapart : tokens.IsChain FormulaToken.Apart) :
    ∃ text, printFormulaTokens display pool pos r tokens = .ok text ∧
      parseFormulaString r pos text pool = .ok tokens pool := by
  have hvalid : tokens.head? ≠ some .invalidFormula :=
    fun hhead ↦ (hwrites _ (List.mem_of_mem_head? hhead)).1 rfl
  obtain ⟨l, rfl, hl⟩ : ∃ l : List (FormulaToken × List (List Char × LexerToken)),
      l.map (·.1) = tokens ∧ ∀ p ∈ l, Writes display r pos pool p.1 p.2 := by
    clear hapart hvalid
    induction tokens with
    | nil => exact ⟨[], rfl, by simp⟩
    | cons t tokens ih =>
      obtain ⟨-, chunks, hchunks⟩ := hwrites t List.mem_cons_self
      obtain ⟨l, rfl, hl⟩ := ih fun t' ht' ↦ hwrites t' (List.mem_cons_of_mem t ht')
      refine ⟨(t, chunks) :: l, rfl, fun p hp ↦ ?_⟩
      rcases List.mem_cons.mp hp with rfl | hp
      · exact hchunks
      · exact hl p hp
  obtain ⟨hprint, hcut, hspelt⟩ := writes_formula hl hapart
  refine ⟨_, (if_neg hvalid).trans hprint, ?_⟩
  rw [parseFormulaString, Tokenizer.tokens_written hcut]
  exact hspelt.parse

/-- What has been parsed of a text: its tokens, written with tokens of that text. -/
theorem speltAs_of_parseFormulaString {text : List Char} {tokens : List FormulaToken}
    {pool' : StringPool} (h : parseFormulaString r pos text pool = .ok tokens pool') :
    ∃ ts, Ixion.tokens text = .ok ts ∧ SpeltAs r pos pool' tokens ts := by
  cases hlex : Ixion.tokens text with
  | error e =>
    rw [parseFormulaString, hlex] at h
    cases e <;> cases h
  | ok ts =>
    rw [parseFormulaString, hlex] at h
    exact ⟨ts, rfl, (FormulaParser.speltAs_of_parse h).2⟩

theorem exists_of_spelt_function {func : FormulaFunction} {ls : List LexerToken}
    (h : Spelt r pos pool (.function func) ls) : ∃ s, r.resolve s pos = .function func := by
  generalize ht : FormulaToken.function func = t at h
  cases h with
  | primitive oc => cases oc <;> cases ht
  | function h =>
    cases ht
    exact ⟨_, h⟩
  | _ => cases ht

/-- A token that is neither a name nor a number returns if it has been parsed. -/
theorem returns_of_spelt {ls : List LexerToken} (h : Spelt r pos pool t ls) {text : List Char}
    (hbytes : AreBytes text) (hls : ∀ u ∈ ls, Tokenizer.MadeOf text u) (ht : t.isWordy = false) :
    t.Returns display r pos pool := by
  cases h with
  | primitive oc => cases oc <;> trivial
  | error e => exact hls _ List.mem_cons_self
  | string hs =>
    obtain ⟨hsub, hquote⟩ := hls _ List.mem_cons_self
    exact ⟨_, hs, fun c hc ↦ hbytes c (hsub hc), hquote⟩
  | lessEqual | notEqual | greaterEqual => trivial
  | singleRef | rangeRef | tableRef | function | namedExpression | value => cases ht

end Writes

/-! ## Excel's A1 syntax -/

section ExcelA1

variable {cxt : Option Workbook} {pos : AbsAddress} {f : ℕ → Char} {func : FormulaFunction}

theorem exists_of_resolveFunctionOrName {p : Pointer} {n : ℕ}
    (h : (resolveFunctionOrName p n).eval f = .function func) :
    ∃ s, FormulaFunctions.getFunctionOpcode s = some func := by
  rw [resolveFunctionOrName, Lib.Query.eval_bind, Lib.Query.eval_pure, resolveFunction] at h
  cases hfunction : FormulaFunctions.getFunctionOpcode ((p.readString n).eval f) with
  | none =>
    rw [hfunction] at h
    cases h
  | some func' =>
    rw [hfunction] at h
    cases h
    exact ⟨_, hfunction⟩

/-- A function that a name is resolved to is found by a name. -/
theorem exists_of_resolveExcelA1 {s : List Char}
    (h : (resolveExcelA1 cxt pos s).eval f = .function func) :
    ∃ s, FormulaFunctions.getFunctionOpcode s = some func := by
  rw [resolveExcelA1] at h
  split at h
  · cases h
  cases hfunction : resolveFunction s with
  | some name =>
    rw [hfunction] at h
    obtain ⟨func', hfunc, rfl⟩ := Option.map_eq_some_iff.mp hfunction
    cases h
    exact ⟨s, hfunc⟩
  | none =>
    rw [hfunction] at h
    dsimp only at h
    cases htable : resolveTable cxt s with
    | some name =>
      rw [htable] at h
      obtain ⟨t, rfl⟩ := exists_of_resolveTable htable
      cases h
    | none =>
      rw [htable] at h
      dsimp only at h
      split at h
      · cases h
      · rcases @eval_resolveAddressExcelA1_cases pos f cxt s.length (resolveSheets cxt s).1
            (resolveSheets cxt s).2 with href | heq | ⟨p, n, heq⟩
        · exact absurd h (href.ne_function func)
        · cases heq.symm.trans h
        · exact exists_of_resolveFunctionOrName (heq.symm.trans h)

/-! ### Functions -/

theorem all_entries_head :
    BuiltinFuncs.entries.all (fun e ↦ e.1.toList.head?.any Char.isUpper) = true := by
  decide +kernel

theorem eq_of_mem_handled :
    ∀ e ∈ BuiltinFuncs.handled, ∀ e' ∈ BuiltinFuncs.handled, e.2 = e'.2 → e = e' := by
  decide +kernel

theorem ne_unimplemented_of_mem_handled :
    ∀ e ∈ BuiltinFuncs.handled, ∀ name, e.2 ≠ .unimplemented name := by
  simp [BuiltinFuncs.handled]

/-- A function has one name. -/
theorem eq_of_mem_entries {name name' : String} (h : (name, func) ∈ BuiltinFuncs.entries)
    (h' : (name', func) ∈ BuiltinFuncs.entries) : name = name' := by
  rw [BuiltinFuncs.entries, List.mem_append, List.mem_map] at h h'
  rcases h with h | ⟨n, -, hn⟩
  · rcases h' with h' | ⟨n', -, hn'⟩
    · exact congrArg Prod.fst (eq_of_mem_handled _ h _ h' rfl)
    · cases hn'
      exact absurd rfl (ne_unimplemented_of_mem_handled _ h _)
  · rcases h' with h' | ⟨n', -, hn'⟩
    · cases hn
      exact absurd rfl (ne_unimplemented_of_mem_handled _ h' _)
    · cases hn
      cases hn'
      rfl

theorem toUpper_of_isNameChar {c : Char} (h : BuiltinFuncs.isNameChar c = true) :
    FormulaFunctions.toUpper c = c := by
  refine if_neg fun hc ↦ ?_
  rw [BuiltinFuncs.isNameChar, Bool.or_eq_true] at h
  have hlt : 90 < c.toNat := hc.1
  rcases h with h | h
  · have := (toNat_of_isUpper h).2
    omega
  · have := (toNat_of_isDigit h).2
    omega

theorem isOp_of_isNameChar {c : Char} (h : BuiltinFuncs.isNameChar c = true) :
    Tokenizer.isOp c = false ∧ c ≠ '[' ∧ c ≠ '\'' ∧ c ≠ '#' ∧ c ≠ sepArrayRow := by
  have hall : ∀ n < 91, 48 ≤ n → (n ≤ 57 ∨ 65 ≤ n) → Tokenizer.isOp (Char.ofNat n) = false ∧
      Char.ofNat n ≠ '[' ∧ Char.ofNat n ≠ '\'' ∧ Char.ofNat n ≠ '#' ∧
        Char.ofNat n ≠ sepArrayRow := by decide
  rw [BuiltinFuncs.isNameChar, Bool.or_eq_true] at h
  rw [← Char.ofNat_toNat c]
  rcases h with h | h
  · have := toNat_of_isUpper h
    exact hall _ (by omega) (by omega) (by omega)
  · have := toNat_of_isDigit h
    exact hall _ (by omega) (by omega) (by omega)

/-- The characters of names of functions open no scope. -/
theorem scopesAfter_of_isNameChar {s : List Char}
    (h : ∀ c ∈ s, BuiltinFuncs.isNameChar c = true) : Tokenizer.scopesAfter [] s = some [] := by
  induction s with
  | nil => rfl
  | cons c s ih =>
    obtain ⟨hop, hbracket, hquote, -, -⟩ := isOp_of_isNameChar (h c List.mem_cons_self)
    rw [Tokenizer.scopesAfter, if_neg (by rintro ⟨⟩), if_neg hbracket, if_neg hquote,
      if_neg (not_not.mpr rfl), if_neg (by simp [hop])]
    exact ih fun d hd ↦ h d (List.mem_cons_of_mem c hd)

/-- The name of a function is a word. -/
theorem isWord_of_mem_entries {name : String} (h : (name, func) ∈ BuiltinFuncs.entries) :
    IsWord name.toList where
  begins := by
    have hchars := BuiltinFuncs.isNameChar_of_mem_entries _ h
    have hhead := List.all_eq_true.mp all_entries_head _ h
    dsimp only at hchars hhead
    cases hs : name.toList with
    | nil =>
      rw [hs] at hhead
      cases hhead
    | cons c s =>
      rw [hs] at hchars hhead
      have hupper : c.isUpper = true := hhead
      obtain ⟨hop, -, -, hhash, hrow⟩ := isOp_of_isNameChar (hchars c List.mem_cons_self)
      have hdigit : c.isDigit ≠ true := by
        intro hdigit
        have h₁ := toNat_of_isUpper hupper
        have h₂ := toNat_of_isDigit hdigit
        omega
      simp only [Tokenizer.isOp, Bool.or_eq_false_iff, decide_eq_false_iff_not] at hop
      rw [Tokenizer.BeginsName, if_neg hdigit]
      refine ⟨Option.isNone_iff_eq_none.mp ?_, ?_⟩
      · rw [← Option.not_isSome, hop.1.1.2]
        rfl
      · simp only [List.mem_cons, List.not_mem_nil, or_false, not_or]
        exact ⟨hop.1.2, hop.2, hhash, hop.1.1.1, hrow⟩
  closed := scopesAfter_of_isNameChar (BuiltinFuncs.isNameChar_of_mem_entries _ h)

/-- The name of a function is found. -/
theorem getFunctionOpcode_getFunctionName {s : List Char}
    (h : FormulaFunctions.getFunctionOpcode s = some func) :
    (FormulaFunctions.getFunctionName func, func) ∈ BuiltinFuncs.entries ∧
      FormulaFunctions.getFunctionOpcode (FormulaFunctions.getFunctionName func).toList =
        some func := by
  have hmem : (String.ofList (s.map FormulaFunctions.toUpper), func) ∈ BuiltinFuncs.entries := by
    obtain ⟨l₁, l₂, heq, -⟩ := List.lookup_eq_some_iff.mp h
    rw [heq]
    exact List.mem_append_right _ List.mem_cons_self
  obtain ⟨e, hfind⟩ : ∃ e, BuiltinFuncs.entries.find? (·.2 = func) = some e := by
    rw [← Option.isSome_iff_exists, List.find?_isSome]
    exact ⟨_, hmem, decide_eq_true rfl⟩
  have he : (e.1, func) ∈ BuiltinFuncs.entries := by
    have hfunc : e.2 = func := by simpa using List.find?_some hfind
    rw [← hfunc]
    exact List.mem_of_find?_eq_some hfind
  have hname : FormulaFunctions.getFunctionName func = e.1 := by
    rw [FormulaFunctions.getFunctionName, hfind]
    rfl
  have hupper : e.1.toList.map FormulaFunctions.toUpper = e.1.toList :=
    (List.map_congr_left fun c hc ↦ toUpper_of_isNameChar
      (BuiltinFuncs.isNameChar_of_mem_entries _ he c hc)).trans (List.map_id _)
  rw [hname]
  refine ⟨he, ?_⟩
  rw [FormulaFunctions.getFunctionOpcode, hupper, String.ofList_toList, eq_of_mem_entries he hmem]
  exact h

/-- Functions return. -/
theorem returns_of_resolve_function {display : DisplaySheet} {pool : StringPool} {s : List Char}
    (h : (FormulaNameResolverType.excelA1.resolver cxt f).resolve s pos = .function func) :
    (FormulaToken.function func).Returns display (FormulaNameResolverType.excelA1.resolver cxt f)
      pos pool := by
  obtain ⟨s', hs'⟩ := exists_of_resolveExcelA1 h
  obtain ⟨hmem, hopcode⟩ := getFunctionOpcode_getFunctionName hs'
  refine ⟨isWord_of_mem_entries hmem, ?_⟩
  have hne : (FormulaFunctions.getFunctionName func).toList.isEmpty ≠ true :=
    fun hempty ↦ BuiltinFuncs.ne_empty_of_mem_entries _ hmem (List.isEmpty_iff.mp hempty)
  show (resolveExcelA1 cxt pos _).eval f = _
  rw [resolveExcelA1, if_neg hne, resolveFunction, hopcode]
  rfl

end ExcelA1

/-! ## A formula -/

/-- The resolver for Excel's A1 syntax in a workbook with one sheet. -/
def resolverA1 : FormulaNameResolver :=
  FormulaNameResolverType.excelA1.resolver (some (oneSheet "A")) fun _ ↦ '\x00'

/-- A pool with one string. -/
def poolX : StringPool := (StringPool.new.addString (bytesOf ['x'])).1

/-- The formula `SUM(B2,25)&"x"<>#N/A` in the first cell. -/
def sumFormula : List FormulaToken :=
  [.function .funcSum, .parenOpen, .singleRef ⟨0, 1, 1, true, false, false⟩, .sep, .value 25,
    .parenClose, .concat, .string (.index 0), .notEqual, .error .noValueAvailable]

/-- Every token of the formula returns. -/
theorem returns_sumFormula : ∀ t ∈ sumFormula,
    t.Returns .onlyIfDifferent resolverA1 ⟨0, 0, 0⟩ poolX := by
  have hfunction : (FormulaToken.function .funcSum).Returns .onlyIfDifferent resolverA1 ⟨0, 0, 0⟩
      poolX :=
    returns_of_resolve_function (s := ['S', 'U', 'M']) (by decide +kernel)
  have hcell : (FormulaToken.singleRef ⟨0, 1, 1, true, false, false⟩).Returns .onlyIfDifferent
      resolverA1 ⟨0, 0, 0⟩ poolX :=
    ⟨['B', '2'], rfl, ⟨by decide, by decide⟩, by decide +kernel⟩
  have hstring : (FormulaToken.string (.index 0)).Returns .onlyIfDifferent resolverA1 ⟨0, 0, 0⟩
      poolX := ⟨['x'], rfl, by decide, by decide⟩
  have herror : (FormulaToken.error .noValueAvailable).Returns .onlyIfDifferent resolverA1
      ⟨0, 0, 0⟩ poolX := ⟨"N/A".toList, by decide +kernel⟩
  intro t ht
  simp only [sumFormula, List.mem_cons, List.not_mem_nil, or_false] at ht
  rcases ht with rfl | rfl | rfl | rfl | rfl | rfl | rfl | rfl | rfl | rfl
  · exact hfunction
  · trivial
  · exact hcell
  · trivial
  · exact returns_natCast (n := 25) (by decide)
  · trivial
  · trivial
  · exact hstring
  · trivial
  · exact herror

end Ixion
