import Ixion.Document.Recalculation

/-!
# Calculations keep results up to date

A calculation computes the results of the dirty formula cells in an order in which each cell comes
after those that it depends on, unless it is circular.  A cell that is listed is marked only if it
is circular, since what it refers to has been found safe by then, or was safe before; and a cell
that is not marked has the result of its formula when the calculation returns.  The results of the
cells that are not listed are not touched, whether or not it returns.
-/

namespace Ixion

open Lib UnorderedSet DirtyCellTracker Relation

namespace ModelContext

open Workbook

variable {S T : Type}

/-! ## What a calculation leaves alone -/

/-- Only the statuses with some numbers have changed. -/
def OnlyStatusesOf (K : Set Nat) (cxt cxt' : ModelContext S T) : Prop :=
  ∀ k, k ∉ K → cxt'.statuses k = cxt.statuses k

instance (K : Set Nat) : Std.Refl (OnlyStatusesOf (S := S) (T := T) K) := ⟨fun _ _ _ ↦ rfl⟩

instance (K : Set Nat) : IsTrans (ModelContext S T) (OnlyStatusesOf K) where
  trans _ _ _ h h' k hk := (h' k hk).trans (h k hk)

theorem onlyStatusesOf_setStatus {K : Set Nat} {cell : FormulaCell} (hcell : cell.status ∈ K)
    (cxt : ModelContext S T) (status : CalcStatus) :
    OnlyStatusesOf K cxt (cxt.setStatus cell status) := by
  intro k hk
  refine Function.update_of_ne ?_ _ _
  rintro rfl
  exact hk hcell

theorem respects_liftExcept_of (K : Set Nat) {α : Type} (x : Except Exn α) :
    Respects (OnlyStatusesOf K) (liftExcept x : Exec (ModelContext S T) α) := by
  cases x with
  | ok a => exact respects_pure a
  | error e => exact respects_throw _

theorem respects_reset {K : Set Nat} {cell : FormulaCell} (hcell : cell.status ∈ K) :
    Respects (OnlyStatusesOf K) (reset cell : Exec (ModelContext S T) Unit) :=
  fun cxt ↦ onlyStatusesOf_setStatus hcell cxt _

theorem respects_checkCells_of {K : Set Nat} {cell : FormulaCell} (hcell : cell.status ∈ K)
    (l : List AbsAddress) :
    Respects (OnlyStatusesOf K) (checkCells cell l : Exec (ModelContext S T) Unit) := by
  induction l with
  | nil => exact fun cxt ↦ onlyStatusesOf_setStatus hcell cxt _
  | cons a l ih =>
    rw [checkCells]
    refine respects_get.bind fun cxt ↦ (respects_liftExcept_of K _).bind fun p ↦ ?_
    cases p with
    | none => exact ih
    | some ref =>
      have hcheck : Respects (OnlyStatusesOf K) (checkRefForCircularSafety cell ref :
          Exec (ModelContext S T) Bool) := by
        intro cxt
        simp only [checkRefForCircularSafety, wp_bind, wp_get]
        cases (cxt.statusOf ref).circularSafe with
        | false => exact onlyStatusesOf_setStatus hcell cxt _
        | true => exact fun _ _ ↦ rfl
      refine hcheck.bind fun b ↦ ?_
      cases b with
      | false => exact respects_pure _
      | true => exact ih

theorem respects_interpret_of {K : Set Nat} {cell : FormulaCell} (hcell : cell.status ∈ K)
    (ev : Evaluator) (pos : AbsAddress) :
    Respects (OnlyStatusesOf K) (interpret ev cell pos : Exec (ModelContext S T) Unit) := by
  intro cxt
  refine (wp_interpret ev ⟨cell, pos⟩ cxt).mono ?_ ?_
  · rintro _ _ ⟨_, _ | _⟩
    · exact fun _ _ ↦ rfl
    · exact onlyStatusesOf_setStatus hcell cxt _
  · rintro _ _ (_ | _)
    · exact fun _ _ ↦ rfl
    · exact onlyStatusesOf_setStatus hcell cxt _

/-- The statuses of the formula cells of a list of ranges. -/
def keys (wb : Workbook) (v : List AbsRange) : Set Nat := {k | ∃ x ∈ wb.visits v, x.key = k}

theorem status_mem_keys {wb : Workbook} {v : List AbsRange} {entries : List QueueEntry}
    (h : wb.queueEntries v = .ok entries) {q : QueueEntry} (hq : q ∈ entries) {cell : FormulaCell}
    (hcell : q.p = some cell) : cell.status ∈ keys wb v := by
  obtain ⟨r, hr, bs, hbs, hmem⟩ := (mem_collectM h).mp hq
  cases hget : wb.getFormulaCell r.first with
  | error e =>
    rw [hget] at hbs
    exact absurd hbs (by rintro ⟨⟩)
  | ok p =>
    rw [hget] at hbs
    cases hbs
    rw [List.mem_singleton.mp hmem] at hcell
    obtain rfl : p = some cell := hcell
    exact ⟨⟨cell, r.first⟩, mem_visits.mpr ⟨r, hr, hget, rfl⟩, rfl⟩

/-- Something is done with each formula cell of the entries. -/
theorem respects_forM_deref {K : Set Nat} {entries : List QueueEntry}
    {f : QueueEntry → FormulaCell → Exec (ModelContext S T) Unit}
    (hentries : ∀ q ∈ entries, ∀ cell, q.p = some cell → cell.status ∈ K)
    (hf : ∀ q cell, cell.status ∈ K → Respects (OnlyStatusesOf K) (f q cell)) :
    Respects (OnlyStatusesOf K) (entries.forM fun q ↦ deref q.p >>= f q) := by
  refine respects_forM fun q hq ↦ ?_
  cases hp : q.p with
  | none => exact fun s _ _ ↦ rfl
  | some cell => exact hf q cell (hentries q hq cell hp)

/-- Whether it returns or fails, a calculation changes only the statuses of the cells that are
listed. -/
theorem wp_calculateSortedCells_of (ev : Evaluator) (v : List AbsRange) (cxt : ModelContext S T) :
    wp (calculateSortedCells ev v) (fun _ ↦ OnlyStatusesOf (keys cxt.toWorkbook v) cxt)
      (fun _ ↦ OnlyStatusesOf (keys cxt.toWorkbook v) cxt) cxt := by
  rw [calculateSortedCells, prepare]
  simp only [bind_assoc, pure_bind]
  rw [wp_bind, wp_get, wp_bind]
  cases hentries : cxt.queueEntries v with
  | error e => exact fun _ _ ↦ rfl
  | ok entries =>
    have hkeys : ∀ q ∈ entries, ∀ cell, q.p = some cell → cell.status ∈ keys cxt.toWorkbook v :=
      fun q hq cell hcell ↦ status_mem_keys hentries hq hcell
    have hrun : Respects (OnlyStatusesOf (keys cxt.toWorkbook v))
        (resetEntries entries >>= fun _ ↦ checkEntries entries >>= fun _ ↦
          interpretEntries ev entries : Exec (ModelContext S T) Unit) := by
      refine (respects_forM_deref hkeys fun q cell hcell ↦ ?_).bind fun _ ↦
        (respects_forM_deref hkeys fun q cell hcell ↦ ?_).bind fun _ ↦
          respects_forM_deref hkeys fun q cell hcell ↦ ?_
      · exact respects_reset hcell
      · exact respects_get.bind fun cxt ↦ respects_checkCells_of hcell _
      · exact respects_interpret_of hcell ev q.pos
    exact hrun cxt

/-! ## Calculations that return -/

/-- When the interpretation of a list of visits returns, it has settled them. -/
theorem settled_of_run {ev : Evaluator} {cxt₀ cxt₁ : ModelContext S T} {l : List Visit}
    (hapart : ∀ y ∈ l, ∀ z ∈ l, y.key = z.key → y = z)
    (hrun : l.forM (fun x ↦ interpret ev x.cell x.pos) cxt₀ = .ok ⟨⟩ cxt₁) :
    Settled ev l cxt₀ cxt₁ := by
  have hwp := wp_forM (l := l) (s := cxt₀) (E := fun _ _ ↦ True)
    (f := fun x ↦ (interpret ev x.cell x.pos : Exec (ModelContext S T) Unit))
    (I := fun rest cxt ↦ ∃ l₁, l = l₁ ++ rest ∧ Settled ev l₁ cxt₀ cxt)
    (by
      rintro x rest cxt ⟨l₁, hl, hsettled⟩
      refine (wp_interpret ev x cxt).mono (fun _ cxt' hx ↦ ⟨l₁ ++ [x], by rw [hl]; simp, ?_⟩)
        (fun _ _ _ ↦ trivial)
      have hx₁ : ∀ y ∈ l₁, y.key = x.key → y = x := fun y hy hkey ↦
        hapart y (by rw [hl]; exact List.mem_append_left _ hy) x (by rw [hl]; simp) hkey
      exact hsettled.step hx₁ hx.2)
    ⟨[], rfl, .refl ev cxt₀⟩
  obtain ⟨l₁, hl, hsettled⟩ := hwp.of_ok hrun
  rw [List.append_nil] at hl
  rwa [hl]

/-- What a calculation has done when it returns. -/
theorem prepared_of_calculate {ev : Evaluator} {v : List AbsRange} {cxt cxt' : ModelContext S T}
    (hwf : cxt.GroupsWF) (hheads : ∀ x ∈ cxt.visits v, cxt.Head x.pos x.cell)
    (hrun : calculateSortedCells ev v cxt = .ok () cxt') :
    ∃ cxt₀, Prepared v cxt cxt₀ ∧ Settled ev (cxt.visits v) cxt₀ cxt' := by
  rw [calculateSortedCells, bind_apply] at hrun
  cases hprepare : prepare v cxt with
  | error e cxt₀ =>
    rw [hprepare] at hrun
    exact absurd hrun (by rintro ⟨⟩)
  | ok entries cxt₀ =>
    rw [hprepare] at hrun
    obtain ⟨rfl, hprepared⟩ := (wp_prepare v cxt).of_ok hprepare
    refine ⟨cxt₀, hprepared, settled_of_run (fun y hy z hz hkey ↦ ?_) ?_⟩
    · exact hwf.visit_eq (hheads y hy) (hheads z hz) hkey
    · rw [← interpretEntries_map]
      exact hrun

end ModelContext

namespace Document

open ModelContext Workbook

variable {S T : Type} [UnorderedSet S AbsRange] [RTree T S]

/-! ## What is listed -/

/-- What has been set since the last calculation are single cells. -/
def ModifiedPoints (d : Document S T) : Prop :=
  ∀ s ∈ toList d.modifiedFormulaCells, ∃ a : AbsAddress, s = a.toRange

theorem Edits.modifiedPoints {depth : Nat} {evs : Set Evaluator} {l : List (Document S T × Op)}
    {d : Document S T} (hrun : Edits depth evs l d) : d.ModifiedPoints := by
  have hedit {addr : AbsAddress} {d d' : Document S T} (h : EditAt addr d d')
      (hd : d.ModifiedPoints) : d'.ModifiedPoints := by
    intro s hs
    rcases h.mem_modifiedFormulaCells s hs with rfl | hs
    · exact ⟨addr, rfl⟩
    · exact hd s hs
  induction hrun with
  | new => exact fun s hs ↦ absurd (toList_empty (S := S) ▸ hs) List.not_mem_nil
  | @returns l d d' op ev hrun _ hop ih =>
    cases returned_of_run hrun.tidy hop with
    | appendSheet heq =>
      rw [heq]
      exact ih
    | setCell h => exact hedit h ih
    | setFormulaCell h => exact hedit h ih
    | calculate hcalc =>
      obtain ⟨cxt, _, rfl, _⟩ := (wp_calculate_onlyStatuses ev d).of_ok hcalc
      exact fun s hs ↦ absurd (toList_empty (S := S) ▸ hs) List.not_mem_nil
  | @throws l d d' ev e _ _ hop ih =>
    obtain ⟨cxt, _, rfl, _⟩ := (wp_calculate_onlyStatuses ev d).of_error hop
    exact ih

/-- Single cells are listed. -/
theorem exists_eq_toRange {d : Document S T} (hs : d.cxt.Sound) (hpoints : d.ModifiedPoints)
    {r : AbsRange} (hr : r ∈ d.sortedCells) : ∃ a : AbsAddress, r = a.toRange := by
  rcases mem_queryAndSort.mp hr with hr | hr | ⟨m, _, hstep⟩
  · obtain ⟨a, _, _, _, heq⟩ := (hs.tracks.volatile r).mp hr
    exact ⟨a, heq⟩
  · exact hpoints r hr
  · obtain ⟨_, _, e, htracked, _⟩ := TransGen.tail'_iff.mp hstep
    obtain ⟨a, _, _, _, _, _, hp⟩ := (hs.tracks.tracked _ e r).mp htracked
    exact ⟨a, hp.1⟩

/-- The formula cells that are listed are the dirty ones. -/
theorem mem_visits_iff {d : Document S T} (hs : d.cxt.Sound) (hpoints : d.ModifiedPoints)
    {x : Visit} : x ∈ d.cxt.visits d.sortedCells ↔
      d.cxt.cells x.pos = .formula x.cell ∧ d.Stale x.pos := by
  rw [mem_visits]
  constructor
  · rintro ⟨r, hr, hcell, hpos⟩
    obtain ⟨a, rfl⟩ := exists_eq_toRange hs hpoints hr
    rw [AbsAddress.toRange_first] at hcell hpos
    subst hpos
    exact ⟨hs.tidy.getFormulaCell.mp hcell, mem_sortedCells.mp hr⟩
  · rintro ⟨hcell, hstale⟩
    exact ⟨_, mem_sortedCells.mpr hstale, hs.tidy.getFormulaCell.mpr hcell, rfl⟩

/-- Each cell comes after the dirty formula cells that it depends on, unless it is circular. -/
theorem mem_before_of_dependsOn {d : Document S T} (hs : d.cxt.Sound) (hpoints : d.ModifiedPoints)
    {l₁ : List Visit} {x : Visit} (hsplit : SplitAt (d.cxt.visits d.sortedCells) l₁ x)
    (hcirc : ¬ Circular d.cxt.DependsOn x.pos) {b : AbsAddress} {cb : FormulaCell}
    (hcb : d.cxt.cells b = .formula cb) (hdep : d.cxt.DependsOn x.pos b) (hstale : d.Stale b) :
    ⟨cb, b⟩ ∈ l₁ := by
  obtain ⟨hx, _⟩ := (mem_visits_iff hs hpoints).mp hsplit.mem
  have hstep : d.cxt.tracker.Step b.toRange x.pos.toRange := by
    obtain ⟨ca, _, hca, _, href⟩ := hs.dependsOn_iff.mp hdep
    exact step_of_references hs.tidy.noNames hs.noTables (hs.complete hca) href (hs.inWorkbook hcb)
  have hhead := hs.head_iff.mpr hx
  have hheadb := hs.head_iff.mpr hcb
  have hsrc := hs.srcRange hhead
  have hsrcb := hs.srcRange hheadb
  rcases before_queryAndSort hstep hstale with hbefore | hback
  · obtain ⟨v₁, r, hv₁, rfl, hvisit⟩ := splitAt_visits_iff.mp hsplit
    obtain ⟨a, rfl⟩ := exists_eq_toRange hs hpoints hv₁.mem
    obtain ⟨_, rfl⟩ := visitAt_eq_some_iff.mp hvisit
    have hmem := hv₁.mem_of_before (nodup_queryAndSort ..) hbefore
    exact mem_visits.mpr ⟨_, hmem, hs.tidy.getFormulaCell.mpr hcb, rfl⟩
  · refine absurd (circular_of_step_back (m := x.pos.toRange) hs.groupsWF (hs.registered 0)
      hs.groupsIntact ⟨x.pos, x.cell, hhead, .inl hsrc.symm⟩ hhead hheadb hheadb.hasStatus hdep ?_)
      hcirc
    rwa [hsrcb]

/-- What a listed cell refers to, unless that is circular, has been found safe when the check comes
to it. -/
theorem precedentsSafe {evs : Set Evaluator} {d : Document S T} (hs : d.cxt.Sound)
    (hpoints : d.ModifiedPoints) (hd : d.Consistent evs) {ev : Evaluator} (hev : ev ∈ evs) :
    d.cxt.PrecedentsSafe d.sortedCells := by
  intro l₁ x hsplit hcirc k hk
  have hx := ((mem_visits_iff hs hpoints).mp hsplit.mem).1
  obtain ⟨b, hb, hdep⟩ := dependsOn_of_mem_seen (hs.head_iff.mpr hx) hk
  obtain ⟨cb, hcb, rfl⟩ := hs.hasStatus_iff.mp hb
  by_cases hstale : d.Stale b
  · exact .inl ⟨⟨cb, b⟩, mem_before_of_dependsOn hs hpoints hsplit hcirc hcb hdep hstale, rfl⟩
  · refine .inr ⟨fun y hy hkey ↦ hstale ?_, ?_⟩
    · obtain ⟨hycell, hystale⟩ := (mem_visits_iff hs hpoints).mp hy
      rwa [hs.ownStatus y.pos b y.cell cb hycell hcb hkey] at hystale
    · exact (hd ev hev b cb hcb hstale).safe fun hc ↦ hcirc (hc.head hdep)

/-! ## What is listed is up to date -/

/-- A cell from which the check leads to a cycle is not found safe. -/
theorem not_mem_safe_of_circular {evs : Set Evaluator} {d : Document S T} (hs : d.cxt.Sound)
    (hpoints : d.ModifiedPoints) (hd : d.Consistent evs) {ev : Evaluator} (hev : ev ∈ evs)
    {l : List Visit} (hl : l ⊆ d.cxt.visits d.sortedCells) {a : AbsAddress} {c : FormulaCell}
    (hc : d.cxt.cells a = .formula c) (hcirc : Circular d.cxt.Looks a) :
    c.status ∉ (sweep Visit.key (Visit.seen d.cxt.toWorkbook)
      (resetState (d.cxt.visits d.sortedCells) d.cxt.sweepState) l).safe := by
  induction l using List.reverseRecOn generalizing a c with
  | nil =>
    rintro ⟨hsafe, hunlisted⟩
    have hstale : ¬ d.Stale a := fun hstale ↦
      hunlisted ⟨c, a⟩ ((mem_visits_iff hs hpoints).mpr ⟨hc, hstale⟩) rfl
    exact Bool.false_ne_true (((hd ev hev a c hc hstale).marked hcirc).1.symm.trans hsafe)
  | append_singleton l x ih =>
    have hl' : l ⊆ d.cxt.visits d.sortedCells := fun y hy ↦ hl (List.mem_append_left _ hy)
    rw [sweep_append]
    rintro (hsafe | ⟨hkey, hseen⟩)
    · exact ih hl' hc hcirc hsafe
    · have hx := ((mem_visits_iff hs hpoints).mp (hl List.mem_concat_self)).1
      obtain rfl : a = x.pos := hs.ownStatus a x.pos c x.cell hc hx hkey
      -- the cell that leads to the cycle from here has not been found safe before
      obtain ⟨b, ⟨cell, hcell, hmem, k, hk⟩, hb⟩ := circular_iff_exists.mp hcirc
      obtain rfl : cell = x.cell :=
        Cell.formula.inj ((hs.tidy.getFormulaCell.mp hcell).symm.trans hx)
      obtain ⟨cb, hcb, rfl⟩ := hs.hasStatus_iff.mp hk
      exact ih hl' hcb hb (hseen ⟨b, hmem, cb, hs.tidy.getFormulaCell.mpr hcb, rfl⟩)

/-- What has been interpreted is fresh when the calculation returns. -/
theorem fresh_of_listed {evs : Set Evaluator} {d : Document S T} (hs : d.cxt.Sound)
    (hpoints : d.ModifiedPoints) (hd : d.Consistent evs) {ev : Evaluator} (hev : ev ∈ evs)
    {cxt : ModelContext S T} (hrun : calculateSortedCells ev d.sortedCells d.cxt = .ok () cxt)
    {x : Visit} (hx : x ∈ d.cxt.visits d.sortedCells) : cxt.Fresh ev x := by
  have hheads : ∀ x ∈ d.cxt.visits d.sortedCells, d.cxt.Head x.pos x.cell := fun x hx ↦
    hs.head_iff.mpr ((mem_visits_iff hs hpoints).mp hx).1
  obtain ⟨cxt₀, hprepared, hsettled⟩ := prepared_of_calculate hs.groupsWF hheads hrun
  have hno := (hprepared.noFalseMark_iff_precedentsSafe hs.groupsWF hheads).mpr
    (precedentsSafe hs hpoints hd hev)
  have hwb : cxt.toWorkbook = d.cxt.toWorkbook := by
    rw [hsettled.toWorkbook, hprepared.eq]
    rfl
  obtain ⟨l₁, l₂, hsplit⟩ := List.append_of_mem hx
  have hat : SplitAt (d.cxt.visits d.sortedCells) l₁ x := ⟨l₂, hsplit⟩
  have hkept : (cxt.statuses x.key).circularSafe = (cxt₀.statuses x.key).circularSafe := by
    have hk := congrFun (congrArg ModelContext.statuses hsettled.withoutResults) x.key
    exact (congrArg CalcStatus.circularSafe hk).symm
  have hmarked (h : x.key ∈ cxt₀.sweepState.marked) :
      (cxt.statuses x.key).result = some (.error .refResultNotAvailable) := by
    have hresult : (cxt₀.statuses x.key).result = some (.error .refResultNotAvailable) := h
    rw [hsettled.unchanged x.key (.inl (by rw [hresult]; rfl)), hresult]
  refine ⟨?_, fun hn ↦ ?_, fun hc ↦ ?_⟩
  · rcases hprepared.listed x hx with hnone | hmark
    · obtain ⟨r, hr, heval⟩ := hsettled.evaluate x hx hnone
      exact ⟨r, hr, .inl heval⟩
    · refine ⟨_, hmarked hmark, .inr ⟨rfl, ?_⟩⟩
      rw [hwb]
      by_contra hn
      exact hno x hx hn hmark
  · rw [hwb] at hn
    rw [hkept]
    show x.key ∈ cxt₀.sweepState.safe
    rw [hprepared.sweep, mem_safe_sweep]
    refine .inr ⟨l₁, x, hat, rfl, ?_⟩
    by_contra hseen
    refine hno x hx hn ?_
    show x.key ∈ cxt₀.sweepState.marked
    rw [hprepared.sweep, mem_marked_sweep]
    exact .inr ⟨l₁, x, hat, rfl, hseen⟩
  · rw [hwb] at hc
    have hcell := ((mem_visits_iff hs hpoints).mp hx).1
    have hunsafe {l : List Visit} (hl : l ⊆ d.cxt.visits d.sortedCells) :=
      not_mem_safe_of_circular hs hpoints hd hev hl hcell hc
    constructor
    · rw [hkept]
      refine Bool.eq_false_iff.mpr fun hsafe ↦ ?_
      have hmem : x.key ∈ cxt₀.sweepState.safe := hsafe
      rw [hprepared.sweep] at hmem
      exact hunsafe (List.Subset.refl _) hmem
    · refine hmarked ?_
      rw [hprepared.sweep, mem_marked_sweep]
      refine .inr ⟨l₁, x, hat, rfl, fun hseen ↦ ?_⟩
      refine hunsafe (l := l₁ ++ [x]) (fun y hy ↦ ?_) ?_
      · rw [hsplit]
        rcases List.mem_append.mp hy with hy | hy
        · exact List.mem_append_left _ hy
        · obtain rfl := List.mem_singleton.mp hy
          exact List.mem_append_right _ List.mem_cons_self
      · rw [sweep_append]
        exact .inr ⟨rfl, hseen⟩

/-! ## What is not listed stays as it is -/

/-- The cells that the next calculation leaves alone. -/
def Unlisted (d : Document S T) (a : AbsAddress) : Prop :=
  ∀ cell, d.cxt.cells a = .formula cell → ¬ d.Stale a

/-- Whether a calculation returns or throws, the cells that are not dirty keep their results, and
those that they refer to are not dirty either. -/
theorem keptOn_of_onlyStatusesOf {d : Document S T} (hs : d.cxt.Sound) (hpoints : d.ModifiedPoints)
    {cxt : ModelContext S T} (hstatuses : OnlyStatuses d.cxt cxt)
    (hof : OnlyStatusesOf (keys d.cxt.toWorkbook d.sortedCells) d.cxt cxt) :
    KeptOn d.Unlisted d.cxt cxt := by
  have hwb : cxt.toWorkbook = d.cxt.toWorkbook := by
    rw [show cxt = d.cxt.withStatuses cxt.statuses from hstatuses]
    rfl
  have hcells : cxt.cells = d.cxt.cells := congrArg Workbook.cells hwb
  refine ⟨⟨?_, fun a _ ↦ ?_, fun a b c ha hc href hin cb hcb hb ↦ ?_⟩, fun a _ ↦ congrFun hcells a,
    fun a c ha hc ↦ hof _ ?_⟩
  · rw [hwb]
    exact ⟨rfl, rfl, rfl, rfl⟩
  · rw [hwb]
    exact .of_eq (fun _ _ ↦ rfl) fun _ _ ↦ rfl
  · have hstep : d.cxt.tracker.Step b.toRange a.toRange :=
      step_of_references hs.tidy.noNames hs.noTables (hs.complete hc) href hin
    exact ha c hc (hb.step hstep)
  · rintro ⟨x, hx, hkey⟩
    obtain ⟨hcell, hstale⟩ := (mem_visits_iff hs hpoints).mp hx
    rw [hs.ownStatus x.pos a x.cell c hcell hc hkey] at hstale
    exact ha c hc hstale

/-! ## Runs -/

/-- When a calculation returns, all formula cells are fresh. -/
theorem fresh_of_returns {evs : Set Evaluator} (hevs : Evaluators evs) {d : Document S T}
    (hs : d.cxt.Sound) (hpoints : d.ModifiedPoints) (hd : d.Consistent evs) {ev : Evaluator}
    (hev : ev ∈ evs) {cxt : ModelContext S T} (hstatuses : OnlyStatuses d.cxt cxt)
    (hrun : calculateSortedCells ev d.sortedCells d.cxt = .ok () cxt) {a : AbsAddress}
    {cell : FormulaCell} (hcell : cxt.cells a = .formula cell) : cxt.Fresh ev ⟨cell, a⟩ := by
  have hcell' : d.cxt.cells a = .formula cell := by
    rw [show cxt = d.cxt.withStatuses cxt.statuses from hstatuses] at hcell
    exact hcell
  by_cases hlisted : d.Stale a
  · exact fresh_of_listed hs hpoints hd hev hrun (x := ⟨cell, a⟩)
      ((mem_visits_iff hs hpoints).mpr ⟨hcell', hlisted⟩)
  · have hof := (wp_calculateSortedCells_of ev d.sortedCells d.cxt).of_ok hrun
    exact (keptOn_of_onlyStatusesOf hs hpoints hstatuses hof).fresh hs
      (sound_of_onlyStatuses hs hstatuses) (hevs.isLocal ev hev) (hevs.reads ev hev _)
      (x := ⟨cell, a⟩) (fun _ _ ↦ hlisted) hcell' (hd ev hev a cell hcell' hlisted)

omit [UnorderedSet S AbsRange] [RTree T S] in
/-- A cell whose formula is not volatile is fresh for all evaluators that agree on such formulas. -/
theorem fresh_of_agree {evs : Set Evaluator} (hevs : Evaluators evs) {ev ev' : Evaluator}
    (hev : ev ∈ evs) (hev' : ev' ∈ evs) {cxt : ModelContext S T} (hno : cxt.NoNames) {x : Visit}
    (hv : hasVolatile x.cell.tokens = false) (h : cxt.Fresh ev x) : cxt.Fresh ev' x where
  current := by
    obtain ⟨r, hr, heval⟩ := h.current
    refine ⟨r, hr, heval.imp_left fun heval ↦ ?_⟩
    rw [evaluate] at heval ⊢
    rwa [hevs.agree ev hev ev' hev' _ _ _ hno hv]
  safe := h.safe
  marked := h.marked

/-- A calculation that returns keeps the invariant. -/
theorem consistent_of_calculate {evs : Set Evaluator} (hevs : Evaluators evs) {d : Document S T}
    (hs : d.cxt.Sound) (hpoints : d.ModifiedPoints) (hd : d.Consistent evs) {ev : Evaluator}
    (hev : ev ∈ evs) {cxt : ModelContext S T} (hstatuses : OnlyStatuses d.cxt cxt)
    (hrun : calculateSortedCells ev d.sortedCells d.cxt = .ok () cxt) :
    (clearModified { d with cxt }).Consistent evs := by
  intro ev' hev' a cell hcell hstale
  have hs' := sound_of_onlyStatuses hs hstatuses
  have hv : hasVolatile cell.tokens = false :=
    Bool.eq_false_iff.mpr fun hv ↦ hstale (.inl ((hs'.complete hcell).volatile hv))
  exact fresh_of_agree hevs hev hev' hs'.tidy.noNames hv
    (fresh_of_returns hevs hs hpoints hd hev hstatuses hrun hcell)

/-- So does one that throws, since what it has interpreted is still dirty. -/
theorem consistent_of_throws {evs : Set Evaluator} (hevs : Evaluators evs) {d : Document S T}
    (hs : d.cxt.Sound) (hpoints : d.ModifiedPoints) (hd : d.Consistent evs) {ev : Evaluator}
    {e : Failure} {cxt : ModelContext S T} (hstatuses : OnlyStatuses d.cxt cxt)
    (hrun : calculateSortedCells ev d.sortedCells d.cxt = .error e cxt) :
    ({ d with cxt } : Document S T).Consistent evs := by
  intro ev' hev' a cell hcell hstale
  have hs' := sound_of_onlyStatuses hs hstatuses
  have hof := (wp_calculateSortedCells_of ev d.sortedCells d.cxt).of_error hrun
  have hkept := keptOn_of_onlyStatusesOf hs hpoints hstatuses hof
  have hwith := show cxt = d.cxt.withStatuses cxt.statuses from hstatuses
  have hcell' : d.cxt.cells a = .formula cell := by
    rw [hwith] at hcell
    exact hcell
  have hlisted : ¬ d.Stale a := by
    rw [hwith] at hstale
    exact hstale
  exact hkept.fresh hs hs' (hevs.isLocal ev' hev') (hevs.reads ev' hev' _) (x := ⟨cell, a⟩)
    (fun _ _ ↦ hlisted) hcell' (hd ev' hev' a cell hcell' hlisted)

/-- Formulas are entered once the sheets are there, and they name strings of the pool. -/
structure Ordinary (l : List (Document S T × Op)) : Prop where
  strings : ∀ p ∈ l, p.1.FormulaStrings
  sheets : ∀ p ∈ l, ∀ name, p.2 = .appendSheet name → ∀ a cell, p.1.cxt.cells a ≠ .formula cell

omit [UnorderedSet S AbsRange] [RTree T S] in
theorem Ordinary.init {l l' : List (Document S T × Op)} (h : Ordinary (l ++ l')) : Ordinary l where
  strings p hp := h.strings p (List.mem_append_left _ hp)
  sheets p hp := h.sheets p (List.mem_append_left _ hp)

/-- In every state of such a run, the formula cells that are not dirty are fresh. -/
theorem Edits.consistent {depth : Nat} {evs : Set Evaluator} (hevs : Evaluators evs)
    {l : List (Document S T × Op)} {d : Document S T} (hrun : Edits depth evs l d)
    (hl : Ordinary l) : d.Consistent evs := by
  induction hrun with
  | new => exact fun _ _ _ _ hcell ↦ absurd hcell (by rintro ⟨⟩)
  | @returns l d d' op ev hrun hev hop ih =>
    have hd := ih hl.init
    have hlast : (d, op) ∈ l ++ [(d, op)] := List.mem_concat_self
    cases returned_of_run hrun.tidy hop with
    | appendSheet heq =>
      rw [heq]
      exact fun _ _ a cell hcell ↦ absurd hcell (hl.sheets _ hlast _ rfl a cell)
    | setCell hedit =>
      exact hedit.consistent hevs hrun.sound (hrun.returns hev hop).sound (hl.strings _ hlast) hd
    | setFormulaCell hedit =>
      exact hedit.consistent hevs hrun.sound (hrun.returns hev hop).sound (hl.strings _ hlast) hd
    | calculate hcalc =>
      obtain ⟨cxt, hstatuses, rfl, hcells⟩ := (wp_calculate_onlyStatuses ev d).of_ok hcalc
      exact consistent_of_calculate hevs hrun.sound hrun.modifiedPoints hd hev hstatuses hcells
  | @throws l d d' ev e hrun _ hop ih =>
    obtain ⟨cxt, hstatuses, rfl, hcells⟩ := (wp_calculate_onlyStatuses ev d).of_error hop
    exact consistent_of_throws hevs hrun.sound hrun.modifiedPoints (ih hl.init) hstatuses hcells

/-- When a calculation returns, every formula cell of the document is fresh. -/
theorem Edits.fresh_of_calculate {depth : Nat} {evs : Set Evaluator} (hevs : Evaluators evs)
    {l : List (Document S T × Op)} {d d' : Document S T} (hrun : Edits depth evs l d)
    (hl : Ordinary l) {ev : Evaluator} (hev : ev ∈ evs) (hcalc : calculate ev d = .ok () d')
    {a : AbsAddress} {cell : FormulaCell} (hcell : d'.cxt.cells a = .formula cell) :
    d'.cxt.Fresh ev ⟨cell, a⟩ := by
  obtain ⟨cxt, hstatuses, rfl, hcells⟩ := (wp_calculate_onlyStatuses ev d).of_ok hcalc
  exact fresh_of_returns hevs hrun.sound hrun.modifiedPoints (hrun.consistent hevs hl) hev
    hstatuses hcells hcell

end Document

end Ixion
