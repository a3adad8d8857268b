import Mathlib.Data.Char
import Mathlib.Data.List.Destutter
import Mathlib.Data.List.Lex
import Ixion.DepthFirstSearch

/-!
# Sorting dependencies

The input of the sorter has one dependency on each line: a name, a colon, and the name of what it
depends on.  Names are views of the input, which is scanned up to its last character without
looking at that one.  A dependency is recorded at the end of its line, so that the one on the last
line never is.
-/

namespace Ixion

open Relation

/-! ## Scanning -/

/-- A view of the input: where it starts, and how long it is. -/
structure StringView where
  start : Nat
  size : Nat
deriving DecidableEq

namespace StringView

/-- The view of nothing. -/
def empty : StringView := ⟨0, 0⟩

/-- A view with one more character; one of nothing starts at that character. -/
def extend (v : StringView) (pos : Nat) : StringView :=
  if v.size = 0 then ⟨pos, 1⟩ else ⟨v.start, v.size + 1⟩

/-- The text that is viewed. -/
def text (v : StringView) (content : List Char) : List Char := (content.drop v.start).take v.size

end StringView

/-- The state of the parser: the names on the current line, whether the first of them is being
read, the dependencies, and the names in them. -/
structure SortInputParser where
  cell : StringView
  dep : StringView
  inName : Bool
  set : Relations (List Char)
  allCells : List (List Char)

namespace SortInputParser

/-- The state before the first line. -/
def new : SortInputParser := ⟨.empty, .empty, true, .new, []⟩

/-- Record a dependency. -/
def insertDepend (p : SortInputParser) (cell dep : List Char) : SortInputParser :=
  { p with set := p.set.insert cell dep, allCells := p.allCells ++ [cell, dep] }

/-- What is done at the end of a line. -/
def endLine (content : List Char) (p : SortInputParser) : Except String SortInputParser := do
  let p ← if p.cell.size = 0 then
      if p.dep.size ≠ 0 then throw "cell name is emtpy but dependency name isn't." else pure p
    else
      if p.dep.size = 0 then throw "dependency name is empty."
      else pure (p.insertDepend (p.cell.text content) (p.dep.text content))
  return { p with cell := .empty, dep := .empty, inName := true }

/-- What is done with the character at a position. -/
def scan (content : List Char) (p : SortInputParser) (pos : Nat) (c : Char) :
    Except String SortInputParser :=
  if c = ' ' then return p
  else if c = '\n' then p.endLine content
  else if c = ':' then
    if p.dep.size ≠ 0 then throw "more than one separator in a single line!"
    else if p.cell.size = 0 then throw "cell name is empty"
    else return { p with inName := false }
  else if p.inName then return { p with cell := p.cell.extend pos }
  else return { p with dep := p.dep.extend pos }

/-- Scan the characters from a position on. -/
def scanAll (content : List Char) : List Char → Nat → SortInputParser →
    Except String SortInputParser
  | [], _, p => return p
  | c :: cs, pos, p => do scanAll content cs (pos + 1) (← p.scan content pos c)

/-- Parse the input.  The pointer stops when it points to the last character. -/
def parse (content : List Char) : Except String SortInputParser :=
  if content.isEmpty then return new else scanAll content content.dropLast 0 new

/-! ## Printing -/

/-- The names in the dependencies, sorted, and each once. -/
def removeDuplicateCells (p : SortInputParser) : List (List Char) :=
  (p.allCells.mergeSort (· ≤ ·)).destutter (· ≠ ·)

theorem mem_destutter' {α : Type} [DecidableEq α] {a b : α} {l : List α} (h : a ∈ b :: l) :
    a ∈ l.destutter' (· ≠ ·) b := by
  induction l generalizing b with
  | nil => exact h
  | cons c l ih =>
    rw [List.destutter'_cons]
    by_cases hbc : b ≠ c
    · rw [if_pos hbc]
      rcases List.mem_cons.mp h with rfl | h
      · exact List.mem_cons_self
      · exact List.mem_cons_of_mem _ (ih h)
    · rw [if_neg hbc]
      obtain rfl : b = c := not_not.mp hbc
      refine ih ?_
      rcases List.mem_cons.mp h with rfl | h
      · exact List.mem_cons_self
      · exact h

/-- Only names are left out that are there already. -/
theorem mem_removeDuplicateCells {p : SortInputParser} {name : List Char} :
    name ∈ p.removeDuplicateCells ↔ name ∈ p.allCells := by
  rw [removeDuplicateCells, ← (List.mergeSort_perm p.allCells (· ≤ ·)).mem_iff]
  refine ⟨fun h ↦ (List.destutter_sublist _ _).subset h, fun h ↦ ?_⟩
  cases hsorted : p.allCells.mergeSort (· ≤ ·) with
  | nil =>
    rw [hsorted] at h
    exact absurd h List.not_mem_nil
  | cons a l =>
    rw [hsorted] at h
    exact mem_destutter' h

/-- Sorted names are next to each other if they are equal, and so each is left once. -/
theorem nodup_removeDuplicateCells (p : SortInputParser) : p.removeDuplicateCells.Nodup := by
  have hsorted : p.removeDuplicateCells.Pairwise (· ≤ ·) :=
    (List.pairwise_mergeSort' (· ≤ ·) p.allCells).sublist (List.destutter_sublist _ _)
  have hchain : p.removeDuplicateCells.IsChain (· ≠ ·) := List.isChain_destutter _ _
  have hlt : p.removeDuplicateCells.IsChain (· < ·) := by
    rw [List.isChain_iff_getElem] at hchain ⊢
    intro i hi
    exact lt_of_le_of_ne (List.isChain_iff_getElem.mp hsorted.isChain i hi) (hchain i hi)
  exact hlt.pairwise.imp fun h ↦ h.ne

/-- The search that sorts the names. -/
def dfs (p : SortInputParser) : DepthFirstSearch (List Char) where
  values := p.removeDuplicateCells
  nodup := p.nodup_removeDuplicateCells
  precedentMap := p.set

/-- The lines that are printed: the sorted names, after the message of a failed search. -/
def print (p : SortInputParser) : List (List Char) :=
  match p.dfs.run with
  | (none, sorted) => sorted
  | (some (.message msg), sorted) => ("dfs error: ".toList ++ msg.toList) :: sorted
  | (some .tooDeep, sorted) => sorted

end SortInputParser

/-! ## Lines -/

/-- Characters that are part of a name. -/
def DependLine.isNameChar (c : Char) : Bool := c ≠ ':' && c ≠ ' ' && c ≠ '\n'

/-- A line of the input: a name, and that of what it depends on. -/
structure DependLine where
  cell : List Char
  dep : List Char
  cell_ne_nil : cell ≠ []
  dep_ne_nil : dep ≠ []
  cell_chars : ∀ c ∈ cell, DependLine.isNameChar c = true
  dep_chars : ∀ c ∈ dep, DependLine.isNameChar c = true

namespace DependLine

/-- The text of a line without its line break. -/
def text (l : DependLine) : List Char := l.cell ++ ':' :: l.dep

/-- The text of lines, each with a line break. -/
def texts (lines : List DependLine) : List Char := lines.flatMap fun l ↦ l.text ++ ['\n']

/-- The input with these lines, whose final line break may be missing. -/
def file (lines : List DependLine) (finalBreak : Bool) : List Char :=
  if finalBreak then texts lines else (texts lines).dropLast

/-- A name depends on another one on one of the lines. -/
def DependsIn (lines : List DependLine) (a b : List Char) : Prop :=
  ∃ l ∈ lines, l.cell = a ∧ l.dep = b

/-- A name is on one of the lines. -/
def Mentioned (lines : List DependLine) (name : List Char) : Prop :=
  ∃ l ∈ lines, name = l.cell ∨ name = l.dep

end DependLine

namespace StringView

/-- A view with more characters; one of nothing starts at a position. -/
def grow (v : StringView) (pos n : Nat) : StringView :=
  if n = 0 then v else if v.size = 0 then ⟨pos, n⟩ else ⟨v.start, v.size + n⟩

theorem grow_extend (v : StringView) (pos n : Nat) :
    (v.extend pos).grow (pos + 1) n = v.grow pos (n + 1) := by
  unfold grow extend
  by_cases hsize : v.size = 0
  · by_cases hn : n = 0
    · simp [hsize, hn]
    · simp [hsize, hn, Nat.add_comm]
  · by_cases hn : n = 0
    · simp [hsize, hn]
    · simp [hsize, hn, Nat.add_assoc, Nat.add_comm 1]

theorem grow_empty (pos : Nat) {n : Nat} (h : n ≠ 0) : empty.grow pos n = ⟨pos, n⟩ := by
  rw [grow, if_neg h, if_pos (show empty.size = 0 from rfl)]

/-- The view of a part of the input is its text. -/
theorem text_of_drop {content text rest : List Char} {pos : Nat}
    (h : content.drop pos = text ++ rest) :
    (⟨pos, text.length⟩ : StringView).text content = text := by
  rw [StringView.text, h, List.take_left]

end StringView

namespace SortInputParser

open DependLine

variable {content : List Char} {p : SortInputParser}

theorem scanAll_append (cs cs' : List Char) (pos : Nat) (p : SortInputParser) :
    scanAll content (cs ++ cs') pos p =
      (scanAll content cs pos p).bind (scanAll content cs' (pos + cs.length)) := by
  induction cs generalizing pos p with
  | nil => rfl
  | cons c cs ih =>
    rw [List.cons_append, scanAll, scanAll, List.length_cons, ← Nat.add_assoc, Nat.add_right_comm]
    cases p.scan content pos c with
    | error e => rfl
    | ok p' => exact ih _ _

/-- The characters of a name are added to the name that is being read. -/
theorem scanAll_name {name : List Char} (h : ∀ c ∈ name, isNameChar c = true) (pos : Nat)
    (p : SortInputParser) :
    scanAll content name pos p =
      .ok (if p.inName then { p with cell := p.cell.grow pos name.length }
        else { p with dep := p.dep.grow pos name.length }) := by
  induction name generalizing pos p with
  | nil =>
    rw [scanAll, List.length_nil, StringView.grow, StringView.grow, if_pos rfl, if_pos rfl,
      ite_self]
    rfl
  | cons c cs ih =>
    have hc := h c List.mem_cons_self
    simp only [isNameChar, Bool.and_eq_true, decide_eq_true_eq] at hc
    obtain ⟨⟨hcolon, hblank⟩, hbreak⟩ := hc
    rw [scanAll, scan, if_neg hblank, if_neg hbreak, if_neg hcolon]
    have hcs : ∀ d ∈ cs, isNameChar d = true := fun d hd ↦ h d (List.mem_cons_of_mem c hd)
    by_cases hname : p.inName = true
    · rw [if_pos hname]
      refine (ih hcs (pos + 1) { p with cell := p.cell.extend pos }).trans ?_
      rw [if_pos hname, if_pos hname, StringView.grow_extend, List.length_cons]
    · rw [if_neg hname]
      refine (ih hcs (pos + 1) { p with dep := p.dep.extend pos }).trans ?_
      rw [if_neg hname, if_neg hname, StringView.grow_extend, List.length_cons]

/-- A line is read from the state in which no name has been read. -/
structure Clean (p : SortInputParser) : Prop where
  cell : p.cell = .empty
  dep : p.dep = .empty
  inName : p.inName = true

/-- Up to its line break, a line is read without recording anything, even if the last name is
not complete. -/
theorem scanAll_text (hclean : p.Clean) {cell dep : List Char} (hcell : cell ≠ [])
    (hcellChars : ∀ c ∈ cell, isNameChar c = true) (hdepChars : ∀ c ∈ dep, isNameChar c = true)
    (pos : Nat) :
    scanAll content (cell ++ ':' :: dep) pos p =
      .ok { p with
        cell := ⟨pos, cell.length⟩
        dep := StringView.empty.grow (pos + cell.length + 1) dep.length
        inName := false } := by
  obtain ⟨hemptyCell, hemptyDep, hname⟩ := hclean
  have hlength : cell.length ≠ 0 := fun h ↦ hcell (List.length_eq_zero_iff.mp h)
  rw [scanAll_append, scanAll_name hcellChars, hname, if_pos rfl, hemptyCell,
    StringView.grow_empty pos hlength]
  show scanAll content (':' :: dep) _ _ = _
  rw [scanAll, scan, if_neg (by decide), if_neg (by decide), if_pos rfl, hemptyDep,
    if_neg (by simp [StringView.empty]), if_neg hlength]
  refine (scanAll_name hdepChars _ _).trans ?_
  simp only [Bool.false_eq_true, if_false]

/-- Record the dependencies of lines. -/
def insertAll (p : SortInputParser) (lines : List DependLine) : SortInputParser :=
  lines.foldl (fun p l ↦ p.insertDepend l.cell l.dep) p

/-- At its line break, the dependency of a line is recorded. -/
theorem scanAll_line (hclean : p.Clean) (l : DependLine) {pos : Nat} {rest : List Char}
    (hcontent : content.drop pos = l.text ++ rest) :
    scanAll content (l.text ++ ['\n']) pos p = .ok (p.insertDepend l.cell l.dep) := by
  have hcell : l.cell.length ≠ 0 := fun h ↦ l.cell_ne_nil (List.length_eq_zero_iff.mp h)
  have hdep : l.dep.length ≠ 0 := fun h ↦ l.dep_ne_nil (List.length_eq_zero_iff.mp h)
  have hcellText : (⟨pos, l.cell.length⟩ : StringView).text content = l.cell := by
    refine @StringView.text_of_drop _ _ (':' :: l.dep ++ rest) _ ?_
    rw [hcontent, text, List.append_assoc]
  have hdepText : (⟨pos + l.cell.length + 1, l.dep.length⟩ : StringView).text content = l.dep := by
    refine @StringView.text_of_drop _ _ rest _ ?_
    rw [Nat.add_assoc, ← List.drop_drop, hcontent, text, List.append_assoc, ← List.drop_drop,
      List.drop_left, List.cons_append]
    rfl
  rw [scanAll_append, text, scanAll_text hclean l.cell_ne_nil l.cell_chars l.dep_chars,
    StringView.grow_empty _ hdep]
  show scanAll content ['\n'] _ _ = _
  rw [scanAll, scan, if_neg (by decide), if_pos rfl, endLine]
  simp only [hcell, hdep, if_false, hcellText, hdepText]
  obtain ⟨hemptyCell, hemptyDep, hname⟩ := hclean
  rw [insertDepend, insertDepend, hemptyCell, hemptyDep, hname]
  rfl

theorem Clean.insertDepend (hclean : p.Clean) (cell dep : List Char) :
    (p.insertDepend cell dep).Clean := ⟨hclean.cell, hclean.dep, hclean.inName⟩

theorem Clean.insertAll (hclean : p.Clean) (lines : List DependLine) :
    (p.insertAll lines).Clean := by
  induction lines generalizing p with
  | nil => exact hclean
  | cons l lines ih => exact ih (hclean.insertDepend l.cell l.dep)

/-- The dependencies of complete lines are recorded. -/
theorem scanAll_texts (hclean : p.Clean) (lines : List DependLine) {pos : Nat} {rest : List Char}
    (hcontent : content.drop pos = texts lines ++ rest) :
    scanAll content (texts lines) pos p = .ok (p.insertAll lines) := by
  induction lines generalizing pos p with
  | nil => rfl
  | cons l lines ih =>
    rw [texts, List.flatMap_cons, ← texts] at hcontent ⊢
    rw [List.append_assoc, List.append_assoc] at hcontent
    rw [scanAll_append, scanAll_line hclean l hcontent]
    refine ih (hclean.insertDepend ..) ?_
    rw [← List.drop_drop, hcontent, ← List.append_assoc, List.drop_left]

/-! ## The last line -/

theorem clean_new : new.Clean := ⟨rfl, rfl, rfl⟩

/-- The input without its last character ends within the last line. -/
theorem dropLast_file (lines : List DependLine) (l : DependLine) (finalBreak : Bool) :
    ∃ d : List Char, (∀ c ∈ d, isNameChar c = true) ∧
      (file (lines ++ [l]) finalBreak).dropLast = texts lines ++ (l.cell ++ ':' :: d) := by
  have htexts : texts (lines ++ [l]) = (texts lines ++ l.text) ++ ['\n'] := by
    rw [texts, texts, List.flatMap_append, List.flatMap_singleton, List.append_assoc]
  cases finalBreak with
  | true =>
    refine ⟨l.dep, l.dep_chars, ?_⟩
    rw [file, if_pos rfl, htexts, List.dropLast_concat, text]
  | false =>
    refine ⟨l.dep.dropLast, fun c hc ↦ l.dep_chars c (List.dropLast_subset _ hc), ?_⟩
    rw [file, if_neg (by simp), htexts, List.dropLast_concat,
      List.dropLast_append_of_ne_nil (by simp [text]), text,
      List.dropLast_append_of_ne_nil (by simp), List.dropLast_cons_of_ne_nil l.dep_ne_nil]

theorem file_ne_nil (lines : List DependLine) (l : DependLine) (finalBreak : Bool) :
    file (lines ++ [l]) finalBreak ≠ [] := by
  obtain ⟨d, -, hdrop⟩ := dropLast_file lines l finalBreak
  intro h
  rw [h] at hdrop
  exact absurd hdrop (by simp)

/-- All dependencies are recorded but the one on the last line. -/
theorem parse_file (lines : List DependLine) (finalBreak : Bool) :
    ∃ p, parse (file lines finalBreak) = .ok p ∧
      p.set = (new.insertAll lines.dropLast).set ∧
      p.allCells = (new.insertAll lines.dropLast).allCells := by
  rcases List.eq_nil_or_concat lines with rfl | ⟨init, l, rfl⟩
  · refine ⟨new, ?_, rfl, rfl⟩
    cases finalBreak <;> rfl
  · obtain ⟨d, hd, hdrop⟩ := dropLast_file init l finalBreak
    have hne := file_ne_nil init l finalBreak
    rw [List.concat_eq_append, List.dropLast_concat, parse,
      if_neg (by simpa using hne), hdrop, scanAll_append]
    have hcontent : ∃ rest, (file (init ++ [l]) finalBreak).drop 0 = texts init ++ rest := by
      refine ⟨l.cell ++ ':' :: d ++ [(file (init ++ [l]) finalBreak).getLast hne], ?_⟩
      rw [List.drop_zero, ← List.append_assoc, ← hdrop, List.dropLast_append_getLast]
    obtain ⟨rest, hrest⟩ := hcontent
    rw [scanAll_texts clean_new init hrest]
    exact ⟨_, scanAll_text (clean_new.insertAll init) l.cell_ne_nil l.cell_chars hd _, rfl, rfl⟩

/-! ## What is recorded -/

theorem depends_insertAll (lines : List DependLine) (p : SortInputParser) (a b : List Char) :
    (p.insertAll lines).set.Depends a b ↔ DependsIn lines a b ∨ p.set.Depends a b := by
  induction lines generalizing p with
  | nil => simp [insertAll, DependsIn]
  | cons l lines ih =>
    refine (ih (p.insertDepend l.cell l.dep)).trans ?_
    rw [insertDepend, Relations.depends_insert, DependsIn, DependsIn, List.exists_mem_cons_iff,
      @eq_comm _ a, @eq_comm _ b, ← or_assoc]
    refine or_congr_left or_comm

theorem mem_allCells_insertAll (lines : List DependLine) (p : SortInputParser)
    (name : List Char) :
    name ∈ (p.insertAll lines).allCells ↔ Mentioned lines name ∨ name ∈ p.allCells := by
  induction lines generalizing p with
  | nil => simp [insertAll, Mentioned]
  | cons l lines ih =>
    refine (ih (p.insertDepend l.cell l.dep)).trans ?_
    rw [insertDepend, Mentioned, Mentioned, List.exists_mem_cons_iff]
    simp only [List.mem_append, List.mem_cons, List.not_mem_nil, or_false]
    rw [← or_assoc, ← or_assoc, or_assoc, or_comm, ← or_assoc]

/-- No name depends on itself, directly or through others. -/
def Acyclic (lines : List DependLine) : Prop := ∀ a, ¬ TransGen (DependsIn lines) a a

/-- Every line is used: its dependency is recorded, and every name is printed once, after those it
depends on unless there are cycles. -/
structure UsesEveryLine (lines : List DependLine) (p : SortInputParser) : Prop where
  recorded : ∀ a b, p.set.Depends a b ↔ DependsIn lines a b
  nodup : p.print.Nodup
  printed : ∀ name, name ∈ p.print ↔ Mentioned lines name
  order : Acyclic lines → ∀ l ∈ lines, DepthFirstSearch.Before p.print l.dep l.cell

/-- What has been recorded is printed as it should be. -/
theorem usesEveryLine_of_recorded {lines : List DependLine}
    (hset : ∀ a b, p.set.Depends a b ↔ DependsIn lines a b)
    (hcells : ∀ name, name ∈ p.allCells ↔ Mentioned lines name) : p.UsesEveryLine lines := by
  have hclosed : p.dfs.Closed := by
    intro i b hb
    obtain ⟨l, hl, -, rfl⟩ := (hset _ _).mp hb
    exact mem_removeDuplicateCells.mpr ((hcells _).mpr ⟨l, hl, .inr rfl⟩)
  obtain ⟨hnone, hnodup, hmem, horder⟩ := p.dfs.run_spec hclosed
  have hprint : p.print = p.dfs.run.2 := by
    rw [print]
    cases hrun : p.dfs.run with
    | mk r sorted =>
      rw [hrun] at hnone
      obtain rfl : r = none := hnone
      rfl
  have hvalues : ∀ name, name ∈ p.dfs.values ↔ Mentioned lines name := fun name ↦
    mem_removeDuplicateCells.trans (hcells name)
  refine ⟨hset, ?_, ?_, ?_⟩
  · rw [hprint]
    exact hnodup
  · intro name
    rw [hprint, hmem, hvalues]
  · intro hacyclic l hl
    have hdepends : DependsIn lines l.cell l.dep := ⟨l, hl, rfl, rfl⟩
    rw [hprint]
    refine (horder l.cell ((hvalues _).mpr ⟨l, hl, .inl rfl⟩) l.dep
      ((hset _ _).mpr hdepends)).resolve_right fun hback ↦ ?_
    have hcycle : ReflTransGen (DependsIn lines) l.dep l.cell :=
      hback.lift id fun a b hab ↦ (hset a b).mp hab
    exact hacyclic l.cell (.head' hdepends hcycle)

/-! ## Result -/

/-- Every line is used exactly when there is none, or the dependency on the last one is on another
line, too. -/
theorem usesEveryLine_iff (lines : List DependLine) (finalBreak : Bool) :
    (∃ p, parse (file lines finalBreak) = .ok p ∧ p.UsesEveryLine lines) ↔
      ∀ l ∈ lines.getLast?, DependsIn lines.dropLast l.cell l.dep := by
  obtain ⟨p, hparse, hset, hcells⟩ := parse_file lines finalBreak
  have hrecorded : ∀ a b, p.set.Depends a b ↔ DependsIn lines.dropLast a b := by
    intro a b
    rw [hset, depends_insertAll]
    exact or_iff_left Relations.not_depends_new
  have hmentioned : ∀ name, name ∈ p.allCells ↔ Mentioned lines.dropLast name := by
    intro name
    rw [hcells, mem_allCells_insertAll]
    exact or_iff_left List.not_mem_nil
  constructor
  · rintro ⟨p', hparse', huses⟩ l hl
    obtain rfl : p = p' := Except.ok.inj (hparse.symm.trans hparse')
    exact (hrecorded _ _).mp ((huses.recorded _ _).mpr ⟨l, List.mem_of_mem_getLast? hl, rfl, rfl⟩)
  · intro hlast
    have hmem : ∀ l ∈ lines, ∃ l' ∈ lines.dropLast, l'.cell = l.cell ∧ l'.dep = l.dep := by
      intro l hl
      rcases List.eq_nil_or_concat lines with rfl | ⟨init, last, rfl⟩
      · exact absurd hl List.not_mem_nil
      · rw [List.concat_eq_append] at hl hlast ⊢
        rw [List.dropLast_concat] at hlast ⊢
        rcases List.mem_append.mp hl with hl | hl
        · exact ⟨l, hl, rfl, rfl⟩
        · rw [List.mem_singleton.mp hl]
          exact hlast last (by simp)
    refine ⟨p, hparse, usesEveryLine_of_recorded (fun a b ↦ ?_) (fun name ↦ ?_)⟩
    · rw [hrecorded]
      constructor
      · rintro ⟨l, hl, heq⟩
        exact ⟨l, List.dropLast_subset _ hl, heq⟩
      · rintro ⟨l, hl, rfl, rfl⟩
        exact hmem l hl
    · rw [hmentioned]
      constructor
      · rintro ⟨l, hl, heq⟩
        exact ⟨l, List.dropLast_subset _ hl, heq⟩
      · rintro ⟨l, hl, heq⟩
        obtain ⟨l', hl', hcell, hdep⟩ := hmem l hl
        exact ⟨l', hl', by rwa [hcell, hdep]⟩

/-- A single dependency is not recorded. -/
theorem not_usesEveryLine :
    ¬ ∀ (lines : List DependLine) (finalBreak : Bool),
      ∃ p, parse (file lines finalBreak) = .ok p ∧ p.UsesEveryLine lines := by
  intro h
  let l : DependLine := ⟨['A'], ['B'], by simp, by simp, by simp [isNameChar], by simp [isNameChar]⟩
  obtain ⟨p, hparse, huses⟩ := h [l] true
  obtain ⟨p', hparse', hset, -⟩ := parse_file [l] true
  obtain rfl : p = p' := Except.ok.inj (hparse.symm.trans hparse')
  have hdepends := (huses.recorded ['A'] ['B']).mpr ⟨l, List.mem_singleton.mpr rfl, rfl, rfl⟩
  rw [hset] at hdepends
  exact Relations.not_depends_new hdepends

end SortInputParser

end Ixion
