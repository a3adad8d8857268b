import Ixion.Column.Store

/-!
# Positions in a column

A position is where a cell is: in which block, and how far from its start.  The blocks of a
column are not empty, and neighbours are of different types (`Canonical`); so the first cell
after a block is of another type than the cells in it.
-/

namespace Ixion

open Lib

/-! ## Types of blocks -/

namespace Block

/-- The type of the cells in a block. -/
def type : Block → CellType
  | empty _ => .empty
  | boolean _ => .boolean
  | numeric _ => .numeric
  | string _ => .string
  | formula _ => .formula

theorem type_of_mem {b : Block} {c : Cell} (h : c ∈ b.cells) : c.type = b.type := by
  cases b with
  | empty size =>
    obtain rfl := List.eq_of_mem_replicate h
    rfl
  | boolean bs =>
    obtain ⟨v, -, rfl⟩ := List.mem_map.mp h
    rfl
  | numeric vs =>
    obtain ⟨v, -, rfl⟩ := List.mem_map.mp h
    rfl
  | string sids =>
    obtain ⟨v, -, rfl⟩ := List.mem_map.mp h
    rfl
  | formula cs =>
    obtain ⟨v, -, rfl⟩ := List.mem_map.mp h
    rfl

/-- A block is of empty cells exactly if it has one. -/
theorem type_eq_empty_iff {b : Block} {c : Cell} (h : c ∈ b.cells) :
    b.type = .empty ↔ c = .empty := by
  rw [← type_of_mem h]
  cases c with
  | empty => exact ⟨fun _ ↦ rfl, fun _ ↦ rfl⟩
  | _ => exact ⟨fun h ↦ (nomatch h), fun h ↦ (nomatch h)⟩

end Block

/-- The blocks of a column as it keeps them: each has a cell, and neighbours are of different
types. -/
structure Canonical (blocks : List Block) : Prop where
  size_pos : ∀ b ∈ blocks, 0 < b.size
  chain : blocks.IsChain fun b b' ↦ b.type ≠ b'.type

namespace Canonical

variable {b : Block} {blocks : List Block}

theorem tail (h : Canonical (b :: blocks)) : Canonical blocks where
  size_pos b' hb' := h.size_pos b' (List.mem_cons_of_mem b hb')
  chain := h.chain.tail

theorem head_pos (h : Canonical (b :: blocks)) : 0 < b.size := h.size_pos b List.mem_cons_self

/-- A part of the blocks up to the end. -/
theorem of_append {pre : List Block} (h : Canonical (pre ++ blocks)) : Canonical blocks where
  size_pos b hb := h.size_pos b (List.mem_append_right pre hb)
  chain := (List.isChain_append.mp h.chain).2.1

/-- The first cell after a block is of another type. -/
theorem exists_next (h : Canonical (b :: blocks)) (hne : blocks ≠ []) :
    ∃ c, (blocks.flatMap Block.cells).head? = some c ∧ c.type ≠ b.type := by
  obtain ⟨b', blocks, rfl⟩ := List.exists_cons_of_ne_nil hne
  have hpos := h.tail.head_pos
  rw [← Block.length_cells] at hpos
  obtain ⟨c, cs, hcs⟩ := List.exists_cons_of_length_pos hpos
  refine ⟨c, ?_, ?_⟩
  · rw [List.flatMap_cons, hcs]
    rfl
  · rw [Block.type_of_mem (hcs ▸ List.mem_cons_self)]
    exact ((List.isChain_cons_cons.mp h.chain).1).symm

end Canonical

/-! ## Positions -/

/-- Where a cell of a column is: the blocks from its own on, the row at which that one starts,
and how far from there the cell is. -/
structure ColumnPosition where
  rest : List Block
  start : Nat
  offset : Nat

namespace ColumnPosition

/-- The position of a row. -/
def ofRow (blocks : List Block) (row : Int) : Except Exn ColumnPosition := do
  let (rest, offset) ← ColumnStores.position blocks row
  return ⟨rest, toSize row - offset, offset⟩

/-- The row of a position. -/
def logicalPosition (p : ColumnPosition) : Nat := p.start + p.offset

/-- The next position.  Past the end there is none. -/
def nextPosition (p : ColumnPosition) : Except Failure ColumnPosition :=
  match p.rest with
  | [] => .error .undefined
  | b :: rest =>
    if p.offset + 1 < b.size then .ok { p with offset := p.offset + 1 }
    else .ok ⟨rest, p.start + b.size, 0⟩

/-- Whether two positions in a column are the same. -/
def same (p q : ColumnPosition) : Bool := p.rest.length = q.rest.length ∧ p.offset = q.offset

/-- The position is that of a row of a column. -/
structure At (blocks : List Block) (n : Nat) (p : ColumnPosition) : Prop where
  suffix : ∃ pre, blocks = pre ++ p.rest ∧ p.start = (pre.flatMap Block.cells).length
  row : p.start + p.offset = n
  offset_lt : ∀ b ∈ p.rest.head?, p.offset < b.size
  offset_end : p.rest = [] → p.offset = 0

section At

variable {blocks : List Block} {n : Nat} {p q : ColumnPosition}

/-- Up to the end of the column, each row has a position. -/
theorem exists_ofRow (blocks : List Block) (row : Int) (hrow : 0 ≤ row)
    (hle : row.toNat ≤ (blocks.flatMap Block.cells).length) (hmax : row ≤ rcMax) :
    ∃ p, ofRow blocks row = .ok p ∧ At blocks row.toNat p := by
  obtain ⟨rest, offset, hpos⟩ := exists_position hle
  obtain ⟨pre, hpre, hn⟩ := exists_append_of_position hpos
  refine ⟨⟨rest, row.toNat - offset, offset⟩, ?_, ⟨pre, hpre, ?_⟩, ?_, ?_, ?_⟩
  · rw [ofRow, ColumnStores.position, toSize_of_nonneg hrow hmax, hpos]
    rfl
  · dsimp only
    omega
  · dsimp only
    omega
  · rintro b hb
    obtain ⟨rest, rfl⟩ := List.head?_eq_some_iff.mp hb
    rw [← Block.length_cells]
    exact offset_lt_of_position hpos
  · rintro rfl
    exact offset_eq_zero_of_position hpos

/-- The cells from a position on are those from its row on. -/
theorem At.drop (h : At blocks n p) :
    (p.rest.flatMap Block.cells).drop p.offset = (blocks.flatMap Block.cells).drop n := by
  obtain ⟨pre, hpre, hstart⟩ := h.suffix
  have hle : (pre.flatMap Block.cells).length ≤ n := by
    rw [← hstart, ← h.row]
    exact Nat.le_add_right _ _
  rw [hpre, List.flatMap_append, List.drop_append, List.drop_eq_nil_of_le hle, List.nil_append,
    ← hstart, ← h.row, Nat.add_sub_cancel_left]

/-- Before the end there is a block at a position. -/
theorem At.exists_block (h : At blocks n p) (hn : n < (blocks.flatMap Block.cells).length) :
    ∃ b rest, p.rest = b :: rest ∧ p.offset < b.size := by
  cases hrest : p.rest with
  | nil =>
    have hdrop := congrArg List.length h.drop
    rw [hrest, List.flatMap_nil, List.drop_nil, List.length_drop, List.length_nil] at hdrop
    omega
  | cons b rest => exact ⟨b, rest, rfl, h.offset_lt b (by rw [hrest]; rfl)⟩

/-- The cell at a position. -/
theorem At.getElem (h : At blocks n p) {b : Block} {rest : List Block}
    (hrest : p.rest = b :: rest) :
    b.cells[p.offset]? = (blocks.flatMap Block.cells)[n]? := by
  have hlt := h.offset_lt b (by rw [hrest]; rfl)
  rw [← Block.length_cells] at hlt
  have hdrop := congrArg List.head? h.drop
  rw [List.head?_drop, List.head?_drop, hrest, List.flatMap_cons,
    List.getElem?_append_left hlt] at hdrop
  exact hdrop

/-- The next position is that of the next row. -/
theorem At.next (h : At blocks n p) (hcanonical : Canonical blocks)
    (hn : n < (blocks.flatMap Block.cells).length) :
    ∃ q, p.nextPosition = .ok q ∧ At blocks (n + 1) q := by
  obtain ⟨b, rest, hrest, hlt⟩ := h.exists_block hn
  obtain ⟨pre, hpre, hstart⟩ := h.suffix
  have hrow := h.row
  rw [nextPosition, hrest]
  dsimp only
  split
  case isTrue hlt' =>
    refine ⟨_, rfl, ⟨pre, hrest ▸ hpre, hstart⟩, ?_, ?_, ?_⟩
    · dsimp only
      omega
    · rintro b' hb'
      cases hb'
      exact hlt'
    · exact fun hnil ↦ nomatch hnil
  case isFalse hlt' =>
    refine ⟨_, rfl, ⟨pre ++ [b], ?_, ?_⟩, ?_, ?_, fun _ ↦ rfl⟩
    · rw [hpre, hrest, List.append_assoc, List.singleton_append]
    · dsimp only
      rw [List.flatMap_append, List.length_append, List.flatMap_singleton, Block.length_cells,
        hstart]
    · dsimp only
      omega
    · rintro b' hb'
      have hcanonical' : Canonical (b :: rest) := (hrest ▸ hpre ▸ hcanonical).of_append
      exact hcanonical'.tail.size_pos b' (List.mem_of_head? hb')

/-- A position comes before the start of a block that comes after its own. -/
theorem At.row_lt_start (hp : At blocks n p) {pre pre' : List Block}
    (hpre : blocks = pre ++ p.rest) (hpre' : blocks = pre' ++ q.rest)
    (hlt : pre.length < pre'.length) : n < (pre'.flatMap Block.cells).length := by
  obtain ⟨pre'', hpre'', hstart⟩ := hp.suffix
  obtain ⟨rfl, -⟩ := List.append_inj' (hpre''.symm.trans hpre) rfl
  obtain ⟨mid, rfl⟩ : ∃ mid, pre' = pre'' ++ mid :=
    (List.append_eq_append_iff.mp (hpre.symm.trans hpre')).elim
      (fun ⟨mid, h, _⟩ ↦ ⟨mid, h⟩) fun ⟨mid, h, _⟩ ↦ by
        rw [h, List.length_append] at hlt
        omega
  rw [List.length_append] at hlt
  obtain ⟨b, mid, rfl⟩ := List.exists_cons_of_length_pos (l := mid) (by omega)
  have hrest : p.rest = b :: (mid ++ q.rest) := by
    have heq : pre'' ++ p.rest = pre'' ++ (b :: (mid ++ q.rest)) := by
      rw [← hpre, hpre', List.append_assoc, List.cons_append]
    exact List.append_cancel_left heq
  have hoffset := hp.offset_lt b (by rw [hrest]; rfl)
  rw [List.flatMap_append, List.length_append, ← hstart, List.flatMap_cons, List.length_append,
    Block.length_cells, ← hp.row]
  omega

/-- Two positions of a column are the same exactly if their rows are. -/
theorem At.same_iff {m : Nat} (hp : At blocks n p) (hq : At blocks m q) :
    p.same q = true ↔ n = m := by
  obtain ⟨pre, hpre, hstart⟩ := hp.suffix
  obtain ⟨pre', hpre', hstart'⟩ := hq.suffix
  have hlen := congrArg List.length hpre
  have hlen' := congrArg List.length hpre'
  rw [List.length_append] at hlen hlen'
  rw [same, decide_eq_true_eq]
  constructor
  · rintro ⟨hrest, hoffset⟩
    obtain ⟨rfl, -⟩ := List.append_inj (hpre.symm.trans hpre') (by omega)
    rw [← hp.row, ← hq.row, hstart, hstart', hoffset]
  · rintro rfl
    have hrow := hp.row
    have hrow' := hq.row
    -- a block that is before one of the positions only would have to be empty
    rcases Nat.lt_trichotomy pre.length pre'.length with hlt | heq | hlt
    · have := hp.row_lt_start hpre hpre' hlt
      omega
    · obtain ⟨rfl, hrest⟩ := List.append_inj (hpre.symm.trans hpre') heq
      rw [hrest]
      omega
    · have := hq.row_lt_start hpre' hpre hlt
      omega

end At

end ColumnPosition

end Ixion
