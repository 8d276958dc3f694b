import Mathlib.Data.List.NodupEquivFin
import Mathlib.Data.List.Sort
import Mathlib.Order.WellFounded

/-!
# Windows of a sorted list

A stable sort with a skip and a bound on its result, and what becomes of it when elements
are dropped before the sort. The window is the same just when it was empty, or when
nothing up to its end was dropped: anything dropped earlier moves a later element in.
-/

namespace Semcast.Window

variable {α : Type*}

/-! ## Sorting -/

section Sorted

variable (r : α → α → Prop) [DecidableRel r] [Std.Total r] [IsTrans α r]

omit [Std.Total r] in
theorem filter_orderedInsert_of_pos {p : α → Bool} {a : α} (keeps : p a = true) {l : List α}
    (sorted : l.Pairwise r) :
    (l.orderedInsert r a).filter p = (l.filter p).orderedInsert r a := by
  induction l with
  | nil => simp [keeps]
  | cons b rest ih =>
    obtain ⟨below, sortedRest⟩ := List.pairwise_cons.mp sorted
    have ih := ih sortedRest
    by_cases first : r a b
    · rw [List.orderedInsert_cons_of_le _ _ first, List.filter_cons_of_pos keeps]
      cases kept : (b :: rest).filter p with
      | nil => simp
      | cons c others =>
        have member : c ∈ b :: rest := List.mem_of_mem_filter (kept ▸ List.mem_cons_self)
        have smallest : r a c := by
          rcases List.mem_cons.mp member with rfl | later
          · exact first
          · exact trans_of r first (below c later)
        rw [List.orderedInsert_cons_of_le _ _ smallest]
    · rw [List.orderedInsert_of_not_le _ _ first]
      by_cases kept : p b = true
      · rw [List.filter_cons_of_pos kept, List.filter_cons_of_pos kept, ih,
          List.orderedInsert_of_not_le _ _ first]
      · rw [List.filter_cons_of_neg kept, List.filter_cons_of_neg kept, ih]

omit [Std.Total r] [IsTrans α r] in
theorem filter_orderedInsert_of_neg {p : α → Bool} {a : α} (drops : ¬ p a = true) (l : List α) :
    (l.orderedInsert r a).filter p = l.filter p := by
  induction l with
  | nil => simp [drops]
  | cons b rest ih =>
    by_cases first : r a b
    · rw [List.orderedInsert_cons_of_le _ _ first, List.filter_cons_of_neg drops]
    · rw [List.orderedInsert_of_not_le _ _ first, List.filter_cons, List.filter_cons, ih]

/-- Dropping elements before a stable sort is dropping them after it. -/
theorem filter_insertionSort (p : α → Bool) (l : List α) :
    (l.insertionSort r).filter p = (l.filter p).insertionSort r := by
  induction l with
  | nil => rfl
  | cons a rest ih =>
    rw [List.insertionSort_cons]
    by_cases keeps : p a = true
    · rw [filter_orderedInsert_of_pos r keeps (List.pairwise_insertionSort r rest),
        List.filter_cons_of_pos keeps, List.insertionSort_cons, ih]
    · rw [filter_orderedInsert_of_neg r keeps, List.filter_cons_of_neg keeps, ih]

end Sorted

/-! ## Windows -/

/-- The first elements, all of them without a bound. -/
def first (bound : Option ℕ) (l : List α) : List α :=
  match bound with
  | none => l
  | some bound => l.take bound

/-- The first elements but for those skipped. -/
def window (skip : ℕ) (bound : Option ℕ) (l : List α) : List α :=
  (first bound l).drop skip

theorem first_sublist (bound : Option ℕ) (l : List α) : (first bound l).Sublist l := by
  cases bound with
  | none => exact List.Sublist.refl l
  | some bound => exact List.take_sublist bound l

/-- The tighter of two bounds. -/
def tighter : Option ℕ → Option ℕ → Option ℕ
  | none, bound => bound
  | some bound, none => some bound
  | some bound, some other => some (min bound other)

theorem first_first (bound other : Option ℕ) (l : List α) :
    first other (first bound l) = first (tighter bound other) l := by
  cases bound with
  | none => rfl
  | some bound =>
    cases other with
    | none => rfl
    | some other => simp [first, tighter, List.take_take, Nat.min_comm]

theorem map_first {β : Type*} (f : α → β) (bound : Option ℕ) (l : List α) :
    (first bound l).map f = first bound (l.map f) := by
  cases bound with
  | none => rfl
  | some bound => exact List.map_take

theorem map_window {β : Type*} (f : α → β) (skip : ℕ) (bound : Option ℕ) (l : List α) :
    (window skip bound l).map f = window skip bound (l.map f) := by
  unfold window
  rw [List.map_drop, map_first]

/-- An element does not come earlier in a list than in a part of it. -/
theorem le_of_sublist {part l : List α} (within : part.Sublist l) (nodup : l.Nodup) {i j : ℕ}
    {a : α} (inPart : part[i]? = some a) (inList : l[j]? = some a) : i ≤ j := by
  obtain ⟨place, same⟩ := List.sublist_iff_exists_orderEmbedding_getElem?_eq.mp within
  have later : i ≤ place i := StrictMono.le_apply (OrderEmbedding.strictMono place)
  have found : l[place i]? = some a := by rw [← same, inPart]
  have apart := List.nodup_iff_getElem?_ne_getElem?.mp nodup
  have unique : place i = j := by
    rcases lt_trichotomy (place i) j with less | equal | more
    · have bound := (List.getElem?_eq_some_iff.mp inList).1
      exact absurd (found.trans inList.symm) (apart _ _ less bound)
    · exact equal
    · have bound := (List.getElem?_eq_some_iff.mp found).1
      exact absurd (inList.trans found.symm) (apart _ _ more bound)
  omega

/-- The element that a window begins with. -/
theorem getElem?_of_drop_take {l rest : List α} {skip bound : ℕ} {a : α}
    (starts : (l.take bound).drop skip = a :: rest) : l[skip]? = some a := by
  have head : ((l.take bound).drop skip)[0]? = some a := by rw [starts]; rfl
  rw [List.getElem?_drop, List.getElem?_take] at head
  split at head
  · simpa using head
  · simp at head

/-- Where the first element is dropped, a window that is not empty changes. -/
theorem window_ne_of_dropped {part rest : List α} {a : α} (within : part.Sublist rest)
    (nodup : (a :: rest).Nodup) {skip bound : ℕ}
    (some : ((a :: rest).take bound).drop skip ≠ []) :
    (part.take bound).drop skip ≠ ((a :: rest).take bound).drop skip := by
  obtain ⟨fresh, nodup⟩ := List.nodup_cons.mp nodup
  intro same
  obtain ⟨b, others, starts⟩ := List.exists_cons_of_ne_nil some
  have inList := getElem?_of_drop_take starts
  have inPart := getElem?_of_drop_take (same.trans starts)
  cases skip with
  | zero =>
    have isFirst : a = b := by simpa using inList
    have member : a ∈ rest := within.subset (isFirst ▸ List.mem_of_getElem? inPart)
    exact fresh member
  | succ skip =>
    have inRest : rest[skip]? = Option.some b := by simpa using inList
    have early := le_of_sublist within nodup inPart inRest
    omega

/-- A window is the same after elements are dropped just when it is empty, or when none of
the first elements up to its end is dropped. -/
theorem take_filter_drop_eq_iff {p : α → Bool} {l : List α} (nodup : l.Nodup) (skip bound : ℕ) :
    ((l.filter p).take bound).drop skip = (l.take bound).drop skip ↔
      (l.take bound).drop skip = [] ∨ ∀ a ∈ l.take bound, p a = true := by
  induction l generalizing skip bound with
  | nil => simp
  | cons a rest ih =>
    have nodupRest := (List.nodup_cons.mp nodup).2
    cases bound with
    | zero => simp
    | succ bound =>
      by_cases keeps : p a = true
      · rw [List.filter_cons_of_pos keeps]
        cases skip with
        | zero =>
          have ih := ih nodupRest 0 bound
          simp only [List.drop_zero] at ih
          simp only [List.take_succ_cons, List.drop_zero, List.cons.injEq, true_and, ih,
            reduceCtorEq, false_or, List.forall_mem_cons, keeps]
          constructor
          · rintro (none | every)
            · simp [none]
            · exact every
          · exact .inr
        | succ skip => simp [List.take_succ_cons, ih nodupRest skip bound, keeps]
      · rw [List.filter_cons_of_neg keeps]
        have notEvery : ¬ ∀ b ∈ (a :: rest).take (bound + 1), p b = true := by
          intro every
          exact keeps (every a (by simp))
        simp only [notEvery, or_false]
        constructor
        · intro same
          by_contra some
          exact window_ne_of_dropped List.filter_sublist nodup some same
        · intro none
          have short : ((a :: rest).take (bound + 1)).length ≤ skip := by
            simpa [List.drop_eq_nil_iff] using none
          have fewer := List.length_filter_le p rest
          rw [none, List.drop_eq_nil_iff]
          simp only [List.length_take, List.length_cons] at short ⊢
          omega

/-- The same of any window. -/
theorem window_filter_eq_iff {p : α → Bool} {l : List α} (nodup : l.Nodup) (skip : ℕ)
    (bound : Option ℕ) :
    window skip bound (l.filter p) = window skip bound l ↔
      window skip bound l = [] ∨ ∀ a ∈ first bound l, p a = true := by
  cases bound with
  | some bound => exact take_filter_drop_eq_iff nodup skip bound
  | none =>
    have all := take_filter_drop_eq_iff (p := p) nodup skip l.length
    rw [List.take_length, List.take_of_length_le (List.length_filter_le p l)] at all
    exact all

end Semcast.Window
