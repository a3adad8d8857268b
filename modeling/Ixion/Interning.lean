import Ixion.StringPool

/-!
# Interning strings

What a string pool comes to over any sequence of calls.  Its map is the search for the first
occurrence of a string (`stringMap_runCalls`), and no number is ever given to another string
(`getString_runCalls`).  The empty string is the one that `addString` keeps out of the pool and
`appendString` does not, so that its number is found in the map after one and not after the other
(`interns_iff`).
-/

namespace Ixion

namespace StringPool

/-- The number of a string in the map, or the one of the empty string if there is none. -/
def getIdentifierFromString (p : StringPool) (s : Text) : StringId :=
  match p.stringMap s with
  | some i => .index i
  | none => .empty

/-! ## Calls -/

/-- A call that gives a number to a string. -/
inductive Call where
  | appendString (s : Text)
  | addString (s : Text)
deriving DecidableEq

/-- The string of a call. -/
def Call.arg : Call → Text
  | appendString s => s
  | addString s => s

/-- The pool after a call, and the number that the call returns. -/
def Call.run (p : StringPool) : Call → StringPool × StringId
  | appendString s => p.appendString s
  | addString s => p.addString s

/-- The pool after calls. -/
def runCalls (p : StringPool) (calls : List Call) : StringPool :=
  calls.foldl (fun p c ↦ (c.run p).1) p

theorem runCalls_cons (p : StringPool) (c : Call) (calls : List Call) :
    p.runCalls (c :: calls) = (c.run p).1.runCalls calls := rfl

theorem runCalls_append (p : StringPool) (pre post : List Call) :
    p.runCalls (pre ++ post) = (p.runCalls pre).runCalls post := List.foldl_append

/-! ## One call -/

variable {p : StringPool} {s t : Text} {i : Nat} {sid : StringId} {c : Call} {calls : List Call}

theorem getString_appendString_of_some (h : p.getString sid = some t) :
    (p.appendString s).1.getString sid = some t := by
  cases sid with
  | empty => exact h
  | index i =>
    change (p.strings ++ [s])[i]? = some t
    rw [List.getElem?_append_left (List.getElem?_eq_some_iff.mp h).1]
    exact h

theorem getString_appendString (p : StringPool) (s : Text) :
    (p.appendString s).1.getString (p.appendString s).2 = some s :=
  List.getElem?_concat_length

/-- A call keeps the numbers that have been given. -/
theorem Call.getString_of_some (h : p.getString sid = some t) :
    (c.run p).1.getString sid = some t := by
  cases c with
  | appendString s => exact getString_appendString_of_some h
  | addString s => exact getString_addString_of_some h

/-- A call gives a number to its string. -/
theorem Call.getString_run (c : Call) (p : StringPool) :
    (c.run p).1.getString (c.run p).2 = some c.arg := by
  cases c with
  | appendString s => exact getString_appendString p s
  | addString s => exact getString_addString p s

/-- A string that is added is in the map, or it is empty and the pool stays as it is. -/
theorem addString_cases (p : StringPool) (s : Text) :
    s = [] ∧ p.addString s = (p, .empty) ∨
      s ≠ [] ∧ (∃ i, p.stringMap s = some i ∧ p.addString s = (p, .index i)) ∨
      s ≠ [] ∧ p.stringMap s = none ∧ p.addString s = p.appendString s := by
  cases s with
  | nil => exact .inl ⟨rfl, rfl⟩
  | cons b s =>
    cases h : p.stringMap (b :: s) with
    | some i =>
      refine .inr (.inl ⟨List.cons_ne_nil _ _, i, rfl, ?_⟩)
      rw [addString, if_neg (by rintro ⟨⟩), h]
    | none =>
      refine .inr (.inr ⟨List.cons_ne_nil _ _, rfl, ?_⟩)
      rw [addString, if_neg (by rintro ⟨⟩), h]

theorem stringMap_appendString_of_some (h : p.stringMap t = some i) :
    (p.appendString s).1.stringMap t = some i := by
  change (if t = s ∧ p.stringMap s = none then some p.strings.length else p.stringMap t) = some i
  rw [if_neg, h]
  rintro ⟨rfl, hnone⟩
  exact nomatch h.symm.trans hnone

/-- A call takes nothing out of the map. -/
theorem Call.stringMap_of_some (h : p.stringMap t = some i) :
    (c.run p).1.stringMap t = some i := by
  cases c with
  | appendString s => exact stringMap_appendString_of_some h
  | addString s =>
    show (p.addString s).1.stringMap t = some i
    rcases addString_cases p s with ⟨-, heq⟩ | ⟨-, j, -, heq⟩ | ⟨-, -, heq⟩
    · rw [heq]
      exact h
    · rw [heq]
      exact h
    · rw [heq]
      exact stringMap_appendString_of_some h

/-- A string that has been added and is not empty is in the map with the number it was given. -/
theorem stringMap_addString (p : StringPool) (hs : s ≠ []) :
    ∃ i, (p.addString s).2 = .index i ∧ (p.addString s).1.stringMap s = some i := by
  rcases addString_cases p s with ⟨hnil, -⟩ | ⟨-, i, hi, heq⟩ | ⟨-, hnone, heq⟩
  · exact absurd hnil hs
  · rw [heq]
    exact ⟨i, rfl, hi⟩
  · rw [heq]
    refine ⟨p.strings.length, rfl, ?_⟩
    change (if s = s ∧ p.stringMap s = none then some p.strings.length else p.stringMap s) = _
    rw [if_pos ⟨rfl, hnone⟩]

/-- The map finds the first occurrence of each string in the pool. -/
def FindsFirst (p : StringPool) : Prop := ∀ s, p.stringMap s = p.strings.findIdx? (· = s)

theorem FindsFirst.appendString (h : p.FindsFirst) (s : Text) :
    (p.appendString s).1.FindsFirst := by
  intro t
  change (if t = s ∧ p.stringMap s = none then some p.strings.length else p.stringMap t) =
    (p.strings ++ [s]).findIdx? (· = t)
  rw [List.findIdx?_append, ← h t, List.findIdx?_singleton]
  by_cases hts : t = s
  · subst hts
    cases hmap : p.stringMap t with
    | none => rw [if_pos ⟨rfl, rfl⟩, Option.none_or, decide_eq_true rfl, if_pos rfl,
        Option.map_some, Nat.zero_add]
    | some i => rw [if_neg fun hno ↦ (nomatch hno.2), Option.some_or]
  · rw [if_neg fun hno ↦ hts hno.1, decide_eq_false (Ne.symm hts), if_neg Bool.false_ne_true,
      Option.map_none, Option.or_none]

theorem FindsFirst.run (h : p.FindsFirst) (c : Call) : (c.run p).1.FindsFirst := by
  cases c with
  | appendString s => exact h.appendString s
  | addString s =>
    show (p.addString s).1.FindsFirst
    rcases addString_cases p s with ⟨-, heq⟩ | ⟨-, j, -, heq⟩ | ⟨-, -, heq⟩
    · rw [heq]
      exact h
    · rw [heq]
      exact h
    · rw [heq]
      exact h.appendString s

/-- A call puts the empty string into the pool only if it appends it. -/
theorem Call.nil_mem_strings (c : Call) (p : StringPool) :
    [] ∈ (c.run p).1.strings ↔ [] ∈ p.strings ∨ c = .appendString [] := by
  have happend (s : Text) : [] ∈ (p.appendString s).1.strings ↔ [] ∈ p.strings ∨ s = [] := by
    show [] ∈ p.strings ++ [s] ↔ _
    rw [List.mem_append, List.mem_singleton, eq_comm (a := [])]
  cases c with
  | appendString s =>
    refine (happend s).trans (or_congr_right ?_)
    rw [Call.appendString.injEq]
  | addString s =>
    rw [or_iff_left nofun]
    show [] ∈ (p.addString s).1.strings ↔ _
    rcases addString_cases p s with ⟨-, heq⟩ | ⟨-, j, -, heq⟩ | ⟨hs, -, heq⟩
    · rw [heq]
    · rw [heq]
    · rw [heq, happend, or_iff_left hs]

/-! ## Runs -/

/-- What each call keeps is kept by calls. -/
theorem runCalls_of_forall (P : StringPool → Prop) (hcall : ∀ p c, P p → P (Call.run p c).1)
    (h : P p) (calls : List Call) : P (p.runCalls calls) := by
  induction calls generalizing p with
  | nil => exact h
  | cons c calls ih => exact ih (hcall p c h)

/-- Calls keep the numbers that have been given. -/
theorem getString_runCalls_of_some (h : p.getString sid = some t) (calls : List Call) :
    (p.runCalls calls).getString sid = some t :=
  runCalls_of_forall (fun p ↦ p.getString sid = some t) (fun _ _ ↦ Call.getString_of_some) h calls

theorem stringMap_runCalls_of_some (h : p.stringMap t = some i) (calls : List Call) :
    (p.runCalls calls).stringMap t = some i :=
  runCalls_of_forall (fun p ↦ p.stringMap t = some i) (fun _ _ ↦ Call.stringMap_of_some) h calls

theorem findsFirst_runCalls (calls : List Call) : (new.runCalls calls).FindsFirst :=
  runCalls_of_forall FindsFirst (fun _ c h ↦ h.run c) (fun _ ↦ rfl) calls

theorem nil_mem_strings_runCalls (p : StringPool) (calls : List Call) :
    [] ∈ (p.runCalls calls).strings ↔ [] ∈ p.strings ∨ .appendString [] ∈ calls := by
  induction calls generalizing p with
  | nil => exact (or_iff_left nofun).symm
  | cons c calls ih =>
    rw [runCalls_cons, ih, c.nil_mem_strings, List.mem_cons, or_assoc, eq_comm (a := c)]

/-! ## Interning -/

/-- A run of calls on an empty pool interns its strings. -/
structure Interns (calls : List Call) : Prop where
  /-- A number that has been given keeps denoting its string. -/
  denotes : ∀ pre c post, calls = pre ++ c :: post →
    (new.runCalls calls).getString (c.run (new.runCalls pre)).2 = some c.arg
  /-- The map leads to the first occurrence of each string. -/
  first : ∀ s i, (new.runCalls calls).stringMap s = some i →
    (new.runCalls calls).strings[i]? = some s ∧
      ∀ j < i, (new.runCalls calls).strings[j]? ≠ some s
  /-- A string that is added is found under its number. -/
  added : ∀ s, ((new.runCalls calls).addString s).1.getString
    ((new.runCalls calls).addString s).2 = some s
  /-- Strings that are added have the same number if and only if they are the same. -/
  same : ∀ pre s mid t post, calls = pre ++ .addString s :: mid ++ .addString t :: post →
    (((new.runCalls pre).addString s).2 =
      ((new.runCalls (pre ++ .addString s :: mid)).addString t).2 ↔ s = t)
  /-- What has been added is found by its string. -/
  found : ∀ s, .addString s ∈ calls →
    (new.runCalls calls).getIdentifierFromString s = ((new.runCalls calls).addString s).2

/-- The number that a call has given keeps denoting its string. -/
theorem getString_runCalls (pre : List Call) (c : Call) (post : List Call) :
    (new.runCalls (pre ++ c :: post)).getString (c.run (new.runCalls pre)).2 = some c.arg := by
  rw [runCalls_append, runCalls_cons]
  exact getString_runCalls_of_some (c.getString_run _) post

theorem FindsFirst.getElem? (h : p.FindsFirst) (hi : p.stringMap s = some i) :
    p.strings[i]? = some s ∧ ∀ j < i, p.strings[j]? ≠ some s := by
  rw [h s, List.findIdx?_eq_some_iff_getElem] at hi
  obtain ⟨hlt, hs, hbefore⟩ := hi
  refine ⟨?_, fun j hj hno ↦ ?_⟩
  · rw [List.getElem?_eq_getElem hlt, of_decide_eq_true hs]
  · obtain ⟨hlt', hs'⟩ := List.getElem?_eq_some_iff.mp hno
    exact hbefore j hj (decide_eq_true hs')

/-- A string gets the number again that it was given before. -/
theorem addString_runCalls (p : StringPool) (s : Text) (calls : List Call) :
    (((p.addString s).1.runCalls calls).addString s).2 = (p.addString s).2 := by
  rcases eq_or_ne s [] with rfl | hs
  · rfl
  · obtain ⟨i, hnumber, hmap⟩ := stringMap_addString p hs
    rcases addString_cases ((p.addString s).1.runCalls calls) s with
      ⟨hnil, -⟩ | ⟨-, j, hj, heq⟩ | ⟨-, hnone, -⟩
    · exact absurd hnil hs
    · rw [heq, hnumber]
      rw [stringMap_runCalls_of_some hmap calls] at hj
      rw [Option.some.inj hj]
    · exact nomatch hnone.symm.trans (stringMap_runCalls_of_some hmap calls)

/-- What has been added and is not empty is found by its string. -/
theorem getIdentifierFromString_of_ne_nil (hs : s ≠ []) (hadd : .addString s ∈ calls) :
    (new.runCalls calls).getIdentifierFromString s = ((new.runCalls calls).addString s).2 := by
  obtain ⟨pre, post, rfl⟩ := List.append_of_mem hadd
  obtain ⟨i, hnumber, hmap⟩ := stringMap_addString (new.runCalls pre) hs
  have hfound := stringMap_runCalls_of_some hmap post
  rw [runCalls_append, runCalls_cons]
  show getIdentifierFromString (((new.runCalls pre).addString s).1.runCalls post) s =
    ((((new.runCalls pre).addString s).1.runCalls post).addString s).2
  rw [addString_runCalls, hnumber, getIdentifierFromString, hfound]

/-- The empty string is found under its number unless it has been appended. -/
theorem getIdentifierFromString_nil :
    (new.runCalls calls).getIdentifierFromString [] = .empty ↔ .appendString [] ∉ calls := by
  have hmap := findsFirst_runCalls calls []
  have hmem := nil_mem_strings_runCalls new calls
  rw [or_iff_right nofun] at hmem
  rw [getIdentifierFromString, ← hmem]
  cases hfind : (new.runCalls calls).stringMap [] with
  | none =>
    rw [hfind, eq_comm, List.findIdx?_eq_none_iff] at hmap
    exact iff_of_true rfl fun hin ↦ of_decide_eq_false (hmap [] hin) rfl
  | some i =>
    refine iff_of_false nofun (not_not.mpr ?_)
    exact List.mem_of_getElem? ((findsFirst_runCalls calls).getElem? hfind).1

/-- A run of calls interns its strings if and only if it does not append the empty string as well as
add it. -/
theorem interns_iff (calls : List Call) :
    Interns calls ↔ ¬(.addString [] ∈ calls ∧ .appendString [] ∈ calls) := by
  constructor
  · rintro h ⟨hadd, happend⟩
    exact getIdentifierFromString_nil.mp (h.found [] hadd) happend
  · intro h
    refine ⟨?_, fun s i ↦ (findsFirst_runCalls calls).getElem?, fun s ↦ getString_addString _ s,
      ?_, fun s hadd ↦ ?_⟩
    · rintro pre c post rfl
      exact getString_runCalls pre c post
    · rintro pre s mid t post rfl
      constructor
      · intro heq
        have hs := getString_runCalls pre (.addString s) mid
        have hs' := getString_addString_of_some (s := t) hs
        have ht := getString_addString (new.runCalls (pre ++ .addString s :: mid)) t
        rw [← heq] at ht
        exact Option.some.inj (hs'.symm.trans ht)
      · rintro rfl
        rw [runCalls_append, runCalls_cons]
        exact (addString_runCalls _ s mid).symm
    · rcases eq_or_ne s [] with rfl | hs
      · exact getIdentifierFromString_nil.mpr fun happend ↦ h ⟨hadd, happend⟩
      · exact getIdentifierFromString_of_ne_nil hs hadd

/-- The empty string is appended and then added. -/
theorem not_interns_empty : ¬Interns [.appendString [], .addString []] := by
  intro h
  exact nomatch h.found [] (List.mem_cons_of_mem _ (List.mem_singleton_self _))

end StringPool

end Ixion
