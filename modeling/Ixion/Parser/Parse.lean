import Ixion.Lexer.Apart
import Ixion.Lib.Exec
import Ixion.Resolver.TableName
import Mathlib.Data.List.Chain

/-!
# Parsing formulas

The parser goes through the tokens of the tokenizer and makes formula tokens of them.  Only `<` and
`>` need to know what comes next.  Strings and the names of tables are put into the string pool,
where they stay even if the parser throws in the end.
-/

namespace Ixion

open Lib

/-- A name resolver: what a name stands for at a position, and how references are named there. -/
structure FormulaNameResolver where
  resolve : List Char → AbsAddress → FormulaName
  getName : Address → AbsAddress → Bool → Except Exn (List Char)
  getRangeName : Range → AbsAddress → Bool → Except Exn (List Char)
  getTableName : Table → List Char

/-- A name resolver for a model context, given what is in memory behind the names. -/
def FormulaNameResolverType.resolver (type : FormulaNameResolverType) (cxt : Option Workbook)
    (behind : ℕ → Char) : FormulaNameResolver where
  resolve s pos := (type.resolve cxt pos s).eval behind
  getName := type.getName cxt
  getRangeName := type.getRangeName cxt
  getTableName := type.getTableName cxt

namespace FormulaParser

/-! ## The parser -/

section Parser

variable (r : FormulaNameResolver) (pos : AbsAddress)

/-- Operators that stand for themselves. -/
def primitive : LexerOpcode → FormulaToken
  | .plus => .plus
  | .minus => .minus
  | .divide => .divide
  | .multiply => .multiply
  | .exponent => .exponent
  | .concat => .concat
  | .equal => .equal
  | .less => .less
  | .greater => .greater
  | .parenOpen => .parenOpen
  | .parenClose => .parenClose
  | .sep => .sep
  | .arrayOpen => .arrayOpen
  | .arrayClose => .arrayClose
  | .arrayRowSep => .arrayRowSep

/-- Put a string into the pool. -/
def addString (s : List Char) : Exec StringPool StringId := do
  let p ← get
  set (p.addString (bytesOf s)).1
  return (p.addString (bytesOf s)).2

/-- A name. -/
def name (s : List Char) : Exec StringPool FormulaToken :=
  match r.resolve s pos with
  | .cellReference addr => return .singleRef addr
  | .rangeReference range => return .rangeRef range
  | .tableReference table => do
    let name ← addString table.name
    let columnFirst ← addString table.columnFirst
    let columnLast ← addString table.columnLast
    return .tableRef ⟨name, columnFirst, columnLast, table.areas⟩
  | .function func => return .function func
  | .namedExpression => return .namedExpression (String.ofList s)
  | .invalid =>
    throwExn (.parseError ("failed to resolve a name token '" ++ String.ofList s ++ "'."))

/-- A string. -/
def literal (s : List Char) : Exec StringPool FormulaToken := .string <$> addString s

/-- A number, which is finite since its digits are. -/
def value : Option ℚ → Exec StringPool FormulaToken
  | some v => return .value v
  | none => throw .undefined

/-- `<`, and whether the next token belongs to it. -/
def less : List LexerToken → FormulaToken × Bool
  | .op .equal :: _ => (.lessEqual, true)
  | .op .greater :: _ => (.notEqual, true)
  | _ => (.less, false)

/-- `>`, and whether the next token belongs to it. -/
def greater : List LexerToken → FormulaToken × Bool
  | .op .equal :: _ => (.greaterEqual, true)
  | _ => (.greater, false)

/-- The formula token that a token begins, given those that come next, and whether the next one
belongs to it. -/
def token (t : LexerToken) (rest : List LexerToken) : Exec StringPool (FormulaToken × Bool) :=
  match t with
  | .op .less => return less rest
  | .op .greater => return greater rest
  | .op oc => return (primitive oc, false)
  | .name s => (·, false) <$> name r pos s
  | .error e => return (.error e, false)
  | .string s => (·, false) <$> literal s
  | .value v => (·, false) <$> value v

/-- The loop of `parse`, which may have to step over a token. -/
def parseLoop : Bool → List LexerToken → Exec StringPool (List FormulaToken)
  | _, [] => return []
  | true, _ :: rest => parseLoop false rest
  | false, t :: rest => do
    let (ft, taken) ← token r pos t rest
    let fts ← parseLoop taken rest
    return ft :: fts

/-- Make formula tokens of tokens. -/
def parse (ts : List LexerToken) : Exec StringPool (List FormulaToken) := parseLoop r pos false ts

/-- How parsing fails if the tokenizer does. -/
def lexerFailure : LexFailure → Failure
  | .throws msg => .exception (.parseError (String.ofList msg))
  | .undefined | .running => .undefined

end Parser

end FormulaParser

/-- Parse a formula at a position. -/
def parseFormulaString (r : FormulaNameResolver) (pos : AbsAddress) (formula : List Char) :
    Exec StringPool (List FormulaToken) :=
  match tokens formula with
  | .ok ts => FormulaParser.parse r pos ts
  | .error f => throw (FormulaParser.lexerFailure f)

/-! ## Strings that stay in the pool -/

namespace StringPool

/-- A string is in the pool, with the number that it is given. -/
def Interned (p : StringPool) (s : List Char) (sid : StringId) : Prop :=
  p.addString (bytesOf s) = (p, sid)

/-- A pool has the strings of another one, with their numbers. -/
def Extends (p p' : StringPool) : Prop := ∀ s sid, p.Interned s sid → p'.Interned s sid

theorem Extends.refl (p : StringPool) : p.Extends p := fun _ _ h ↦ h

theorem Extends.trans {p p' p'' : StringPool} (h : p.Extends p') (h' : p'.Extends p'') :
    p.Extends p'' := fun s sid hs ↦ h' s sid (h s sid hs)

theorem addString_of_some {p : StringPool} {s : Text} {i : ℕ} (hempty : ¬ s.isEmpty = true)
    (hmap : p.stringMap s = some i) : p.addString s = (p, .index i) := by
  rw [addString, if_neg hempty, hmap]

theorem addString_of_none {p : StringPool} {s : Text} (hempty : ¬ s.isEmpty = true)
    (hmap : p.stringMap s = none) : p.addString s = p.appendString s := by
  rw [addString, if_neg hempty, hmap]

theorem interned_addString (p : StringPool) (s : List Char) :
    (p.addString (bytesOf s)).1.Interned s (p.addString (bytesOf s)).2 := by
  by_cases hempty : (bytesOf s).isEmpty = true
  · have hadd (p : StringPool) : p.addString (bytesOf s) = (p, .empty) := by
      rw [addString, if_pos hempty]
    rw [Interned, hadd, hadd]
  · cases hmap : p.stringMap (bytesOf s) with
    | some i => rw [Interned, addString_of_some hempty hmap, addString_of_some hempty hmap]
    | none =>
      have hmap' : (p.appendString (bytesOf s)).1.stringMap (bytesOf s) =
          some p.strings.length := if_pos ⟨rfl, hmap⟩
      rw [Interned, addString_of_none hempty hmap, addString_of_some hempty hmap']
      rfl

theorem extends_addString (p : StringPool) (t : Text) : p.Extends (p.addString t).1 := by
  intro s sid h
  rw [Interned] at h ⊢
  by_cases hempty : (bytesOf s).isEmpty = true
  · rw [addString, if_pos hempty] at h ⊢
    rw [Prod.mk.injEq] at h ⊢
    exact ⟨rfl, h.2⟩
  · cases hmap : p.stringMap (bytesOf s) with
    | none =>
      -- the string would have been stored
      rw [addString_of_none hempty hmap] at h
      have hlength := congrArg (fun a ↦ a.1.strings.length) h
      simp [appendString] at hlength
    | some i =>
      rw [addString_of_some hempty hmap, Prod.mk.injEq] at h
      have hkeeps : (p.addString t).1.stringMap (bytesOf s) = some i := by
        rw [addString]
        split
        · exact hmap
        · split
          · exact hmap
          case h_2 hnone =>
            refine (if_neg ?_).trans hmap
            rintro ⟨hs, -⟩
            rw [← hs, hmap] at hnone
            cases hnone
      rw [addString_of_some hempty hkeeps, h.2]

end StringPool

namespace FormulaParser

/-! ## How tokens are written -/

section Written

variable (r : FormulaNameResolver) (pos : AbsAddress) (pool : StringPool)

/-- How a formula token is written with tokens, given that its strings are in the pool. -/
inductive Spelt : FormulaToken → List LexerToken → Prop
  | primitive (oc : LexerOpcode) : Spelt (primitive oc) [.op oc]
  | lessEqual : Spelt .lessEqual [.op .less, .op .equal]
  | notEqual : Spelt .notEqual [.op .less, .op .greater]
  | greaterEqual : Spelt .greaterEqual [.op .greater, .op .equal]
  | singleRef {s : List Char} {addr : Address} (h : r.resolve s pos = .cellReference addr) :
    Spelt (.singleRef addr) [.name s]
  | rangeRef {s : List Char} {range : Range} (h : r.resolve s pos = .rangeReference range) :
    Spelt (.rangeRef range) [.name s]
  | tableRef {s : List Char} {t : TableName} {name first last : StringId}
    (h : r.resolve s pos = .tableReference t) (hname : pool.Interned t.name name)
    (hfirst : pool.Interned t.columnFirst first) (hlast : pool.Interned t.columnLast last) :
    Spelt (.tableRef ⟨name, first, last, t.areas⟩) [.name s]
  | function {s : List Char} {func : FormulaFunction} (h : r.resolve s pos = .function func) :
    Spelt (.function func) [.name s]
  | namedExpression {s : List Char} (h : r.resolve s pos = .namedExpression) :
    Spelt (.namedExpression (String.ofList s)) [.name s]
  | error (e : FormulaError) : Spelt (.error e) [.error e]
  | string {s : List Char} {sid : StringId} (h : pool.Interned s sid) :
    Spelt (.string sid) [.string s]
  | value (v : ℚ) : Spelt (.value v) [.value (some v)]

/-- What comes next belongs to a token. -/
def Takes (ft : FormulaToken) (t : LexerToken) : Prop :=
  ft = .less ∧ (t = .op .equal ∨ t = .op .greater) ∨ ft = .greater ∧ t = .op .equal

/-- Two tokens that are written like one, or like another one and the rest of the second. -/
def Merges (ft next : FormulaToken) : Prop :=
  ft = .less ∧ (next = .equal ∨ next = .greater ∨ next = .greaterEqual) ∨
    ft = .greater ∧ next = .equal

/-- The tokens that formula tokens are written with. -/
def spelling (l : List (FormulaToken × List LexerToken)) : List LexerToken := l.flatMap (·.2)

/-- Formula tokens are written with tokens, and no two neighbours merge. -/
def SpeltAs (fts : List FormulaToken) (ts : List LexerToken) : Prop :=
  ∃ l : List (FormulaToken × List LexerToken), l.map (·.1) = fts ∧ spelling l = ts ∧
    (∀ p ∈ l, Spelt r pos pool p.1 p.2) ∧ fts.IsChain fun ft next ↦ ¬ Merges ft next

end Written

section Spelling

variable {r : FormulaNameResolver} {pos : AbsAddress} {pool pool' : StringPool}
  {ft : FormulaToken} {ls rest : List LexerToken}

theorem Spelt.ne_nil (h : Spelt r pos pool ft ls) : ls ≠ [] := by
  cases h <;> exact List.cons_ne_nil _ _

theorem Spelt.extends (h : Spelt r pos pool ft ls) (hpool : pool.Extends pool') :
    Spelt r pos pool' ft ls := by
  cases h with
  | primitive oc => exact .primitive oc
  | lessEqual => exact .lessEqual
  | notEqual => exact .notEqual
  | greaterEqual => exact .greaterEqual
  | singleRef h => exact .singleRef h
  | rangeRef h => exact .rangeRef h
  | tableRef h hname hfirst hlast =>
    exact .tableRef h (hpool _ _ hname) (hpool _ _ hfirst) (hpool _ _ hlast)
  | function h => exact .function h
  | namedExpression h => exact .namedExpression h
  | error e => exact .error e
  | string h => exact .string (hpool _ _ h)
  | value v => exact .value v

/-- A token takes what the next one is written with if the two merge. -/
theorem Spelt.takes_iff {next : FormulaToken} (h : Spelt r pos pool next ls) :
    (∃ t ∈ ls.head?, Takes ft t) ↔ Merges ft next := by
  have hiff (hequal : next = .equal ↔ ls.head? = some (.op .equal))
      (hgreater : next = .greater ∨ next = .greaterEqual ↔ ls.head? = some (.op .greater)) :
      (∃ t ∈ ls.head?, Takes ft t) ↔ Merges ft next := by
    rw [Merges, hequal, hgreater]
    constructor
    · rintro ⟨t, ht, ⟨hft, rfl | rfl⟩ | ⟨hft, rfl⟩⟩
      · exact .inl ⟨hft, .inl ht⟩
      · exact .inl ⟨hft, .inr ht⟩
      · exact .inr ⟨hft, ht⟩
    · rintro (⟨hft, ht | ht⟩ | ⟨hft, ht⟩)
      · exact ⟨_, ht, .inl ⟨hft, .inl rfl⟩⟩
      · exact ⟨_, ht, .inl ⟨hft, .inr rfl⟩⟩
      · exact ⟨_, ht, .inr ⟨hft, rfl⟩⟩
  cases h with
  | primitive oc =>
    exact hiff (by cases oc <;> simp [FormulaParser.primitive])
      (by cases oc <;> simp [FormulaParser.primitive])
  | _ => exact hiff (by simp) (by simp)

theorem spelling_cons (p : FormulaToken × List LexerToken)
    (l : List (FormulaToken × List LexerToken)) : spelling (p :: l) = p.2 ++ spelling l := rfl

theorem head_spelling {p : FormulaToken × List LexerToken}
    {l : List (FormulaToken × List LexerToken)} (h : Spelt r pos pool p.1 p.2) :
    (spelling (p :: l)).head? = p.2.head? := by
  rw [spelling_cons, List.head?_append_of_ne_nil _ h.ne_nil]

/-- A token in front of others does not merge with the first of them if nothing that they are
written with belongs to it. -/
theorem SpeltAs.cons {fts : List FormulaToken} (h : SpeltAs r pos pool fts rest)
    (hft : Spelt r pos pool ft ls) (htakes : ∀ t ∈ rest.head?, ¬ Takes ft t) :
    SpeltAs r pos pool (ft :: fts) (ls ++ rest) := by
  obtain ⟨l, rfl, rfl, hl, hchain⟩ := h
  refine ⟨(ft, ls) :: l, rfl, rfl, ?_, ?_⟩
  · intro p hp
    rcases List.mem_cons.mp hp with rfl | hp
    · exact hft
    · exact hl p hp
  · cases l with
    | nil => exact .singleton _
    | cons q l =>
      refine List.isChain_cons_cons.mpr ⟨fun hmerges ↦ ?_, hchain⟩
      have hq := hl q List.mem_cons_self
      obtain ⟨t, ht, htaken⟩ := hq.takes_iff.mpr hmerges
      rw [head_spelling hq] at htakes
      exact htakes t ht htaken

theorem SpeltAs.extends {fts : List FormulaToken} (h : SpeltAs r pos pool fts rest)
    (hpool : pool.Extends pool') : SpeltAs r pos pool' fts rest := by
  obtain ⟨l, hfts, hrest, hl, hchain⟩ := h
  exact ⟨l, hfts, hrest, fun p hp ↦ (hl p hp).extends hpool, hchain⟩

end Spelling

/-! ## One round -/

section Rounds

variable {r : FormulaNameResolver} {pos : AbsAddress} {pool pool' : StringPool} {t : LexerToken}
  {rest : List LexerToken} {ft : FormulaToken} {taken : Bool}

theorem parseLoop_of_token (h : token r pos t rest pool = .ok (ft, taken) pool') :
    parseLoop r pos false (t :: rest) pool =
      ((ft :: ·) <$> parseLoop r pos taken rest) pool' := by
  rw [parseLoop, bind_apply, h]
  rfl

theorem addString_of_interned {s : List Char} {sid : StringId} (h : pool.Interned s sid) :
    addString s pool = .ok sid pool := by
  show EStateM.Result.ok (pool.addString (bytesOf s)).2 (pool.addString (bytesOf s)).1 = _
  rw [h]

theorem less_of_not_takes (h : ∀ t ∈ rest.head?, ¬ Takes .less t) :
    less rest = (.less, false) := by
  unfold less
  split
  · exact absurd (.inl ⟨rfl, .inl rfl⟩) (h _ rfl)
  · exact absurd (.inl ⟨rfl, .inr rfl⟩) (h _ rfl)
  · rfl

theorem greater_of_not_takes (h : ∀ t ∈ rest.head?, ¬ Takes .greater t) :
    greater rest = (.greater, false) := by
  unfold greater
  split
  · exact absurd (.inr ⟨rfl, rfl⟩) (h _ rfl)
  · rfl

/-- A token is parsed as it is written, unless what comes next belongs to it. -/
theorem Spelt.parseLoop {ls : List LexerToken} (h : Spelt r pos pool ft ls)
    (hrest : ∀ t ∈ rest.head?, ¬ Takes ft t) :
    parseLoop r pos false (ls ++ rest) pool =
      ((ft :: ·) <$> FormulaParser.parseLoop r pos false rest) pool := by
  have hname {s : List Char} (h : name r pos s pool = .ok ft pool) :
      FormulaParser.parseLoop r pos false ([.name s] ++ rest) pool =
        ((ft :: ·) <$> FormulaParser.parseLoop r pos false rest) pool := by
    refine parseLoop_of_token ?_
    show ((·, false) <$> FormulaParser.name r pos s) pool = _
    rw [map_apply, h]
  cases h with
  | primitive oc =>
    refine parseLoop_of_token ?_
    cases oc with
    | less =>
      show EStateM.Result.ok (FormulaParser.less rest) pool = _
      rw [less_of_not_takes hrest]
      rfl
    | greater =>
      show EStateM.Result.ok (FormulaParser.greater rest) pool = _
      rw [greater_of_not_takes hrest]
      rfl
    | _ => rfl
  | lessEqual =>
    have hless : token r pos (.op .less) (.op .equal :: rest) pool = .ok (.lessEqual, true) pool :=
      rfl
    exact parseLoop_of_token hless
  | notEqual =>
    have hless : token r pos (.op .less) (.op .greater :: rest) pool = .ok (.notEqual, true) pool :=
      rfl
    exact parseLoop_of_token hless
  | greaterEqual =>
    have hgreater : token r pos (.op .greater) (.op .equal :: rest) pool =
        .ok (.greaterEqual, true) pool := rfl
    exact parseLoop_of_token hgreater
  | tableRef h hname' hfirst hlast =>
    refine hname ?_
    rw [name, h]
    dsimp only
    rw [bind_apply, addString_of_interned hname']
    dsimp only
    rw [bind_apply, addString_of_interned hfirst]
    dsimp only
    rw [bind_apply, addString_of_interned hlast]
    rfl
  | singleRef h | rangeRef h | function h | namedExpression h =>
    refine hname ?_
    rw [name, h]
    rfl
  | error e => exact parseLoop_of_token rfl
  | @string s sid h =>
    refine parseLoop_of_token ?_
    show ((·, false) <$> literal s) pool = _
    rw [map_apply, literal, map_apply, addString_of_interned h]
  | value v => exact parseLoop_of_token rfl

/-- A round makes a formula token of what it is written with, and goes on behind that. -/
structure Round (r : FormulaNameResolver) (pos : AbsAddress) (pool pool' : StringPool)
    (ts : List LexerToken) (ft : FormulaToken) (rest : List LexerToken) : Prop where
  extends' : pool.Extends pool'
  spelt : ∃ ls, ts = ls ++ rest ∧ Spelt r pos pool' ft ls
  takes : ∀ t ∈ rest.head?, ¬ Takes ft t

theorem addString_eq (s : List Char) (pool : StringPool) :
    addString s pool = .ok (pool.addString (bytesOf s)).2 (pool.addString (bytesOf s)).1 := rfl

theorem Round.of_name {s : List Char} (h : name r pos s pool = .ok ft pool') :
    Round r pos pool pool' (.name s :: rest) ft rest := by
  have hnot (hft : ft ≠ .less ∧ ft ≠ .greater) : ∀ t ∈ rest.head?, ¬ Takes ft t := by
    rintro t - (⟨rfl, -⟩ | ⟨rfl, -⟩)
    · exact hft.1 rfl
    · exact hft.2 rfl
  rw [name] at h
  cases hname : r.resolve s pos with
  | invalid =>
    rw [hname] at h
    cases h
  | tableReference table =>
    rw [hname] at h
    dsimp only at h
    rw [bind_apply, addString_eq] at h
    dsimp only at h
    rw [bind_apply, addString_eq] at h
    dsimp only at h
    rw [bind_apply, addString_eq] at h
    cases h
    have h₁ := pool.extends_addString (bytesOf table.name)
    have h₂ := StringPool.extends_addString (pool.addString (bytesOf table.name)).1
      (bytesOf table.columnFirst)
    have h₃ := StringPool.extends_addString
      ((pool.addString (bytesOf table.name)).1.addString (bytesOf table.columnFirst)).1
      (bytesOf table.columnLast)
    refine ⟨h₁.trans (h₂.trans h₃), ⟨[.name s], rfl, .tableRef hname ?_ ?_ ?_⟩, hnot (by simp)⟩
    · exact h₂.trans h₃ _ _ (StringPool.interned_addString _ _)
    · exact h₃ _ _ (StringPool.interned_addString _ _)
    · exact StringPool.interned_addString _ _
  | cellReference addr =>
    rw [hname] at h
    cases h
    exact ⟨.refl pool, ⟨[.name s], rfl, .singleRef hname⟩, hnot (by simp)⟩
  | rangeReference range =>
    rw [hname] at h
    cases h
    exact ⟨.refl pool, ⟨[.name s], rfl, .rangeRef hname⟩, hnot (by simp)⟩
  | namedExpression =>
    rw [hname] at h
    cases h
    exact ⟨.refl pool, ⟨[.name s], rfl, .namedExpression hname⟩, hnot (by simp)⟩
  | function func =>
    rw [hname] at h
    cases h
    exact ⟨.refl pool, ⟨[.name s], rfl, .function hname⟩, hnot (by simp)⟩

/-- What comes next is looked at once: it belongs to the token and is stepped over, or it is where
the parser goes on. -/
theorem round_of_token (h : token r pos t rest pool = .ok (ft, taken) pool') :
    ∃ rest', Round r pos pool pool' (t :: rest) ft rest' ∧
      parseLoop r pos taken rest = parseLoop r pos false rest' ∧ rest'.length ≤ rest.length := by
  have hnot (hft : ft ≠ .less ∧ ft ≠ .greater) (rest : List LexerToken) :
      ∀ t ∈ rest.head?, ¬ Takes ft t := by
    rintro t - (⟨rfl, -⟩ | ⟨rfl, -⟩)
    · exact hft.1 rfl
    · exact hft.2 rfl
  cases t with
  | op oc =>
    cases oc with
    | less =>
      change EStateM.Result.ok (less rest) pool = _ at h
      by_cases htakes : ∀ t ∈ rest.head?, ¬ Takes .less t
      · rw [less_of_not_takes htakes] at h
        cases h
        exact ⟨rest, ⟨.refl pool, ⟨_, rfl, .primitive .less⟩, htakes⟩, rfl, le_rfl⟩
      · push Not at htakes
        obtain ⟨t, ht, ⟨-, rfl | rfl⟩ | ⟨⟨⟩, -⟩⟩ := htakes
        · obtain ⟨ts, rfl⟩ := List.head?_eq_some_iff.mp ht
          cases h
          exact ⟨ts, ⟨.refl pool, ⟨_, rfl, .lessEqual⟩, hnot (by simp) ts⟩, rfl, by simp⟩
        · obtain ⟨ts, rfl⟩ := List.head?_eq_some_iff.mp ht
          cases h
          exact ⟨ts, ⟨.refl pool, ⟨_, rfl, .notEqual⟩, hnot (by simp) ts⟩, rfl, by simp⟩
    | greater =>
      change EStateM.Result.ok (greater rest) pool = _ at h
      by_cases htakes : ∀ t ∈ rest.head?, ¬ Takes .greater t
      · rw [greater_of_not_takes htakes] at h
        cases h
        exact ⟨rest, ⟨.refl pool, ⟨_, rfl, .primitive .greater⟩, htakes⟩, rfl, le_rfl⟩
      · push Not at htakes
        obtain ⟨t, ht, ⟨⟨⟩, -⟩ | ⟨-, rfl⟩⟩ := htakes
        obtain ⟨ts, rfl⟩ := List.head?_eq_some_iff.mp ht
        cases h
        exact ⟨ts, ⟨.refl pool, ⟨_, rfl, .greaterEqual⟩, hnot (by simp) ts⟩, rfl, by simp⟩
    | _ =>
      cases h
      exact ⟨rest, ⟨.refl pool, ⟨_, rfl, .primitive _⟩, hnot (by simp [primitive]) rest⟩, rfl,
        le_rfl⟩
  | name s =>
    change ((·, false) <$> name r pos s) pool = _ at h
    rw [map_apply] at h
    cases hname : name r pos s pool with
    | error e pool₁ =>
      rw [hname] at h
      cases h
    | ok ft₁ pool₁ =>
      rw [hname] at h
      cases h
      exact ⟨rest, .of_name hname, rfl, le_rfl⟩
  | error e =>
    cases h
    exact ⟨rest, ⟨.refl pool, ⟨_, rfl, .error e⟩, hnot (by simp) rest⟩, rfl, le_rfl⟩
  | string s =>
    change EStateM.Result.ok (FormulaToken.string (pool.addString (bytesOf s)).2, false)
      (pool.addString (bytesOf s)).1 = _ at h
    cases h
    exact ⟨rest, ⟨pool.extends_addString _, ⟨_, rfl, .string (pool.interned_addString s)⟩,
      hnot (by simp) rest⟩, rfl, le_rfl⟩
  | value v =>
    cases v with
    | none => cases h
    | some v =>
      cases h
      exact ⟨rest, ⟨.refl pool, ⟨_, rfl, .value v⟩, hnot (by simp) rest⟩, rfl, le_rfl⟩

end Rounds

/-! ## All rounds -/

section Runs

variable {r : FormulaNameResolver} {pos : AbsAddress} {pool pool' : StringPool}
  {ts : List LexerToken} {fts : List FormulaToken}

theorem parseLoop_cons_eq_ok {t : LexerToken}
    (h : parseLoop r pos false (t :: ts) pool = .ok fts pool') :
    ∃ ft taken pool₁ fts', token r pos t ts pool = .ok (ft, taken) pool₁ ∧
      parseLoop r pos taken ts pool₁ = .ok fts' pool' ∧ fts = ft :: fts' := by
  cases htoken : token r pos t ts pool with
  | error e pool₁ =>
    rw [parseLoop, bind_apply, htoken] at h
    cases h
  | ok a pool₁ =>
    obtain ⟨ft, taken⟩ := a
    rw [parseLoop_of_token htoken, map_apply] at h
    cases hrest : parseLoop r pos taken ts pool₁ with
    | error e pool₂ =>
      rw [hrest] at h
      cases h
    | ok fts' pool₂ =>
      rw [hrest] at h
      cases h
      exact ⟨ft, taken, pool₁, fts', rfl, hrest, rfl⟩

/-- What the parser makes of tokens is written with these tokens. -/
theorem speltAs_of_parse (h : parse r pos ts pool = .ok fts pool') :
    pool.Extends pool' ∧ SpeltAs r pos pool' fts ts := by
  rw [parse] at h
  induction hn : ts.length using Nat.strong_induction_on generalizing ts pool fts with
  | _ n ih =>
    cases ts with
    | nil =>
      cases h
      exact ⟨.refl _, [], rfl, rfl, by simp, .nil⟩
    | cons t ts =>
      obtain ⟨ft, taken, pool₁, fts', htoken, hrest, rfl⟩ := parseLoop_cons_eq_ok h
      obtain ⟨rest, hround, hgoes, hlength⟩ := round_of_token htoken
      rw [hgoes] at hrest
      have hlt : rest.length < n := by
        rw [← hn, List.length_cons]
        omega
      obtain ⟨hextends, hspelt⟩ := ih _ hlt hrest rfl
      obtain ⟨ls, hts, hls⟩ := hround.spelt
      rw [hts]
      exact ⟨hround.extends'.trans hextends, hspelt.cons (hls.extends hextends) hround.takes⟩

/-- What is written without two tokens that merge is parsed. -/
theorem SpeltAs.parse (h : SpeltAs r pos pool fts ts) :
    parse r pos ts pool = .ok fts pool := by
  obtain ⟨l, rfl, rfl, hl, hchain⟩ := h
  induction l with
  | nil => rfl
  | cons p l ih =>
    have hl' : ∀ q ∈ l, Spelt r pos pool q.1 q.2 := fun q hq ↦ hl q (List.mem_cons_of_mem p hq)
    have ih := ih hl' hchain.tail
    have hrest : ∀ t ∈ (spelling l).head?, ¬ Takes p.1 t := by
      cases l with
      | nil => rintro t ⟨⟩
      | cons q l =>
        have hq := hl' q List.mem_cons_self
        rw [head_spelling hq]
        intro t ht htakes
        exact (List.isChain_cons_cons.mp hchain).1 (hq.takes_iff.mp ⟨t, ht, htakes⟩)
    rw [FormulaParser.parse] at ih ⊢
    rw [spelling_cons, (hl p List.mem_cons_self).parseLoop hrest, map_apply, ih]
    rfl

/-- What the parser throws at a name. -/
def nameFailure (s : List Char) : Failure :=
  .exception (.parseError ("failed to resolve a name token '" ++ String.ofList s ++ "'."))

/-- Every name is resolved. -/
def Resolves (r : FormulaNameResolver) (pos : AbsAddress) (ts : List LexerToken) : Prop :=
  ∀ s, .name s ∈ ts → r.resolve s pos ≠ .invalid

theorem Spelt.resolves {ft : FormulaToken} {ls : List LexerToken}
    (h : Spelt r pos pool ft ls) : Resolves r pos ls := by
  intro s hs hinvalid
  cases h with
  | singleRef h | rangeRef h | tableRef h | function h | namedExpression h =>
    cases List.mem_singleton.mp hs
    cases hinvalid.symm.trans h
  | _ => simp at hs

/-- A round fails at a name that is not resolved. -/
theorem token_eq_error {t : LexerToken} {e : Failure} (ht : t ≠ .value none)
    (h : token r pos t ts pool = .error e pool') :
    ∃ s, t = .name s ∧ r.resolve s pos = .invalid ∧ e = nameFailure s ∧ pool' = pool := by
  cases t with
  | op oc => cases oc <;> cases h
  | error e => cases h
  | string s => cases h
  | value v =>
    cases v with
    | none => exact absurd rfl ht
    | some v => cases h
  | name s =>
    change ((·, false) <$> name r pos s) pool = _ at h
    rw [map_apply] at h
    cases hresolve : r.resolve s pos with
    | invalid =>
      rw [name, hresolve] at h
      cases h
      exact ⟨s, rfl, hresolve, rfl, rfl⟩
    | tableReference table =>
      rw [name, hresolve] at h
      cases h
    | cellReference addr | rangeReference range | namedExpression | function func =>
      rw [name, hresolve] at h
      cases h

/-- The parser throws at the first name that is not resolved, if there is one. -/
theorem parse_eq_error {e : Failure} (hfinite : .value none ∉ ts)
    (h : parse r pos ts pool = .error e pool') :
    pool.Extends pool' ∧ ∃ ts₁ s ts₂, ts = ts₁ ++ .name s :: ts₂ ∧ r.resolve s pos = .invalid ∧
      Resolves r pos ts₁ ∧ e = nameFailure s := by
  rw [parse] at h
  induction hn : ts.length using Nat.strong_induction_on generalizing ts pool with
  | _ n ih =>
    cases ts with
    | nil => cases h
    | cons t ts =>
      rw [List.mem_cons, not_or] at hfinite
      cases htoken : token r pos t ts pool with
      | error e' pool₁ =>
        rw [parseLoop, bind_apply, htoken] at h
        cases h
        obtain ⟨s, rfl, hresolve, rfl, rfl⟩ := token_eq_error (Ne.symm hfinite.1) htoken
        exact ⟨.refl _, [], s, ts, rfl, hresolve, by rintro s' ⟨⟩, rfl⟩
      | ok a pool₁ =>
        obtain ⟨ft, taken⟩ := a
        obtain ⟨rest, hround, hgoes, hlength⟩ := round_of_token htoken
        obtain ⟨ls, hts, hls⟩ := hround.spelt
        rw [parseLoop_of_token htoken, map_apply, hgoes] at h
        cases hrest : parseLoop r pos false rest pool₁ with
        | ok fts pool₂ =>
          rw [hrest] at h
          cases h
        | error e' pool₂ =>
          rw [hrest] at h
          cases h
          have hlt : rest.length < n := by
            rw [← hn, List.length_cons]
            omega
          have hrest' : .value none ∉ rest := by
            intro hmem
            rcases List.mem_cons.mp (hts ▸ List.mem_append_right ls hmem) with hmem | hmem
            · exact hfinite.1 hmem
            · exact hfinite.2 hmem
          obtain ⟨hextends, ts₁, s, ts₂, rfl, hresolve, hts₁, he⟩ := ih _ hlt hrest' hrest rfl
          refine ⟨hround.extends'.trans hextends, ls ++ ts₁, s, ts₂, ?_, hresolve, ?_, he⟩
          · rw [hts, List.append_assoc]
          · intro s' hs'
            rcases List.mem_append.mp hs' with hs' | hs'
            · exact hls.resolves s' hs'
            · exact hts₁ s' hs'

/-- There is only one first name that is not resolved. -/
theorem Resolves.eq_of_append {ts₁ ts₂ ts₃ ts₄ : List LexerToken} {s s' : List Char}
    (hts₁ : Resolves r pos ts₁) (hts₃ : Resolves r pos ts₃) (hs : r.resolve s pos = .invalid)
    (hs' : r.resolve s' pos = .invalid)
    (h : ts₁ ++ .name s :: ts₂ = ts₃ ++ .name s' :: ts₄) : s = s' := by
  induction ts₁ generalizing ts₃ with
  | nil =>
    cases ts₃ with
    | nil =>
      cases h
      rfl
    | cons t ts₃ =>
      cases h
      exact absurd hs (hts₃ s List.mem_cons_self)
  | cons t ts₁ ih =>
    cases ts₃ with
    | nil =>
      cases h
      exact absurd hs' (hts₁ s' List.mem_cons_self)
    | cons t' ts₃ =>
      rw [List.cons_append, List.cons_append, List.cons.injEq] at h
      exact ih (fun s hs ↦ hts₁ s (List.mem_cons_of_mem t hs))
        (fun s hs ↦ hts₃ s (List.mem_cons_of_mem t' hs)) h.2

/-- If the parser returns, every name has been resolved. -/
theorem resolves_of_parse (h : parse r pos ts pool = .ok fts pool') : Resolves r pos ts := by
  obtain ⟨-, l, -, rfl, hl, -⟩ := speltAs_of_parse h
  intro s hs
  obtain ⟨p, hp, hs⟩ := List.mem_flatMap.mp hs
  exact (hl p hp).resolves s hs

end Runs

end FormulaParser

end Ixion
