import Mathlib.Data.List.Basic

/-!
# Sliding windows

The windows of a list, each a stride after the one before, up to the first that reaches
the end. With a stride that is positive and no wider than the window, they cover the list:
an overlap that is dropped from every window but the first leaves the list itself, and each
run that is no longer than the overlap and one item lies in a window.
-/

namespace Semcast.SlidingWindow

variable {α : Type*}

/-- The windows of a list; each round drops a stride, so `fuel` items are at most `fuel`
rounds. -/
def slide (window stride : Nat) : Nat → List α → List (List α)
  | 0, _ => []
  | fuel + 1, items =>
    items.take window ::
      if items.length ≤ window then [] else slide window stride fuel (items.drop stride)

/-- The windows of a list, by their places. -/
structure Slides (window stride : Nat) (items : List α) (slices : List (List α)) : Prop where
  slice : ∀ i slice, slices[i]? = some slice → slice = (items.drop (i * stride)).take window
  /-- Any window but the last ends before the end. -/
  before : ∀ i, i + 1 < slices.length → i * stride + window < items.length
  /-- The last window reaches the end. -/
  reaches : ∃ last, slices.length = last + 1 ∧ items.length ≤ last * stride + window

variable {window stride fuel : Nat} {items : List α}

theorem slides_slide (advances : 0 < stride) (wide : stride ≤ window)
    (enough : items.length ≤ fuel) (nonempty : items ≠ []) :
    Slides window stride items (slide window stride fuel items) := by
  induction fuel generalizing items with
  | zero => exact absurd (List.length_eq_zero_iff.mp (by omega)) nonempty
  | succ fuel ih =>
    rw [slide]
    by_cases last : items.length ≤ window
    · rw [if_pos last]
      refine ⟨?_, ?_, 0, rfl, by omega⟩
      · intro i slice found
        cases i with
        | zero =>
          cases found
          rw [Nat.zero_mul, List.drop_zero]
        | succ i => cases found
      · intro i within
        simp at within
    · rw [if_neg last]
      have left : (items.drop stride).length = items.length - stride := List.length_drop
      have more : items.drop stride ≠ [] := by
        rw [ne_eq, ← List.length_eq_zero_iff]
        omega
      have later := ih (by omega) more
      refine ⟨?_, ?_, ?_⟩
      · intro i slice found
        cases i with
        | zero =>
          cases found
          rw [Nat.zero_mul, List.drop_zero]
        | succ i =>
          rw [List.getElem?_cons_succ] at found
          rw [later.slice i slice found, List.drop_drop, Nat.succ_mul, Nat.add_comm]
      · intro i within
        cases i with
        | zero => omega
        | succ i =>
          have earlier := later.before i (by simpa using within)
          rw [Nat.succ_mul]
          omega
      · rcases later.reaches with ⟨count, length, reached⟩
        refine ⟨count + 1, by rw [List.length_cons, length], ?_⟩
        rw [Nat.succ_mul]
        omega

/-! ## Each window by its place -/

section Places

variable {slices : List (List α)} (slides : Slides window stride items slices)
include slides

/-- A window that there is begins before the end. -/
theorem Slides.start_lt (wide : stride ≤ window) (nonempty : items ≠ []) {i : Nat}
    (within : i < slices.length) : i * stride < items.length := by
  cases i with
  | zero =>
    have pos := List.length_pos_of_ne_nil nonempty
    omega
  | succ i =>
    have earlier := slides.before i within
    rw [Nat.succ_mul]
    omega

theorem Slides.length_slice {i : Nat} {slice : List α} (found : slices[i]? = some slice) :
    slice.length = min window (items.length - i * stride) := by
  rw [slides.slice i slice found, List.length_take, List.length_drop]

theorem Slides.slice_ne_nil (advances : 0 < stride) (wide : stride ≤ window)
    (nonempty : items ≠ []) {i : Nat} {slice : List α} (found : slices[i]? = some slice) :
    slice ≠ [] := by
  have start := slides.start_lt wide nonempty (List.getElem?_eq_some_iff.mp found).1
  have length := slides.length_slice found
  rw [ne_eq, ← List.length_eq_zero_iff]
  omega

/-- A window ends after the one before it. -/
theorem Slides.stop_lt (advances : 0 < stride) {i : Nat} {slice next : List α}
    (found : slices[i]? = some slice) (after : slices[i + 1]? = some next) :
    i * stride + slice.length < (i + 1) * stride + next.length := by
  have earlier := slides.before i (List.getElem?_eq_some_iff.mp after).1
  have length := slides.length_slice found
  have length' := slides.length_slice after
  rw [Nat.succ_mul] at length' ⊢
  omega

/-- A run that is no longer than the overlap and one item lies in a window. -/
theorem Slides.exists_covering (advances : 0 < stride) (wide : stride ≤ window)
    {first count : Nat} (pos : 0 < count) (short : count ≤ window - stride + 1)
    (within : first + count ≤ items.length) :
    ∃ i slice, slices[i]? = some slice ∧ i * stride ≤ first ∧
      first + count ≤ i * stride + slice.length := by
  rcases slides.reaches with ⟨last, length, reached⟩
  -- The last window that begins at or before the run.
  have start_le : min (first / stride) last * stride ≤ first :=
    Nat.le_trans (Nat.mul_le_mul_right _ (Nat.min_le_left _ _)) (Nat.div_mul_le_self _ _)
  obtain ⟨slice, found⟩ : ∃ slice, slices[min (first / stride) last]? = some slice :=
    ⟨_, List.getElem?_eq_getElem (by omega)⟩
  refine ⟨_, slice, found, start_le, ?_⟩
  rw [slides.length_slice found]
  by_cases inside : first / stride ≤ last
  · rw [Nat.min_eq_left inside] at start_le ⊢
    have next : first < first / stride * stride + stride := Nat.lt_div_mul_add advances
    omega
  · rw [Nat.min_eq_right (by omega)] at start_le ⊢
    omega

end Places

/-! ## The windows together -/

/-- The windows without what each shares with the one before. -/
theorem flatten_map_drop_slide (wide : stride ≤ window) (advances : 0 < stride)
    (enough : items.length ≤ fuel) (nonempty : items ≠ []) :
    ((slide window stride fuel items).map (List.drop (window - stride))).flatten =
      items.drop (window - stride) := by
  induction fuel generalizing items with
  | zero => exact absurd (List.length_eq_zero_iff.mp (by omega)) nonempty
  | succ fuel ih =>
    rw [slide]
    by_cases last : items.length ≤ window
    · rw [if_pos last, List.take_of_length_le last]
      simp
    · rw [if_neg last, List.map_cons, List.flatten_cons]
      have left : (items.drop stride).length = items.length - stride := List.length_drop
      have more : items.drop stride ≠ [] := by
        rw [ne_eq, ← List.length_eq_zero_iff]
        omega
      have whole : stride + (window - stride) = window := by omega
      rw [ih (by omega) more, List.drop_drop, whole, List.drop_take]
      have rest : items.drop window = (items.drop (window - stride)).drop stride := by
        rw [List.drop_drop, Nat.add_comm, whole]
      have width : window - (window - stride) = stride := by omega
      rw [rest, width, List.take_append_drop]

/-- The first window and what each further one adds are the list. -/
theorem slide_joined (wide : stride ≤ window) (advances : 0 < stride)
    (enough : items.length ≤ fuel) (nonempty : items ≠ []) :
    (slide window stride fuel items).headD [] ++
      ((slide window stride fuel items).tail.map (List.drop (window - stride))).flatten =
        items := by
  cases fuel with
  | zero => exact absurd (List.length_eq_zero_iff.mp (by omega)) nonempty
  | succ fuel =>
    rw [slide, List.headD_cons, List.tail_cons]
    by_cases last : items.length ≤ window
    · rw [if_pos last, List.take_of_length_le last]
      simp
    · have left : (items.drop stride).length = items.length - stride := List.length_drop
      have more : items.drop stride ≠ [] := by
        rw [ne_eq, ← List.length_eq_zero_iff]
        omega
      have whole : stride + (window - stride) = window := by omega
      rw [if_neg last, flatten_map_drop_slide wide advances (by omega) more, List.drop_drop, whole,
        List.take_append_drop]

end Semcast.SlidingWindow
