import Mathlib.Data.List.Nodup

/-!
# Occurrences

The items of a list beside the number of times each has occurred by then.
-/

namespace Semcast.Occurrences

variable {α : Type*} [DecidableEq α]

/-- The occurrences in `items`, after those in `done`. -/
def occurrencesAfter (done : List α) : List α → List (α × Nat)
  | [] => []
  | item :: rest => (item, done.count item + 1) :: occurrencesAfter (done ++ [item]) rest

/-- The occurrences of the items of a list, numbered from one. -/
def occurrences (items : List α) : List (α × Nat) := occurrencesAfter [] items

theorem mem_occurrencesAfter {done items : List α} {item : α} {number : Nat} :
    (item, number) ∈ occurrencesAfter done items ↔
      done.count item < number ∧ number ≤ done.count item + items.count item := by
  induction items generalizing done with
  | nil =>
    simp only [occurrencesAfter, List.not_mem_nil, List.count_nil, false_iff]
    omega
  | cons head rest ih =>
    simp only [occurrencesAfter, List.mem_cons, ih, List.count_append, List.count_cons,
      List.count_nil]
    by_cases same : item = head
    · subst same
      simp only [Prod.mk.injEq, true_and, beq_self_eq_true, if_true]
      omega
    · have other : (head == item) = false := by simpa using fun equal => same equal.symm
      simp only [Prod.mk.injEq, same, false_and, false_or, other, Bool.false_eq_true, if_false]
      omega

theorem mem_occurrences {items : List α} {item : α} {number : Nat} :
    (item, number) ∈ occurrences items ↔ 1 ≤ number ∧ number ≤ items.count item := by
  rw [occurrences, mem_occurrencesAfter, List.count_nil]
  omega

theorem nodup_occurrencesAfter (done items : List α) : (occurrencesAfter done items).Nodup := by
  induction items generalizing done with
  | nil => exact List.nodup_nil
  | cons head rest ih =>
    refine List.nodup_cons.mpr ⟨fun again => ?_, ih _⟩
    rw [mem_occurrencesAfter, List.count_append, List.count_singleton_self] at again
    omega

/-- Names made of the occurrences of some names, the first of each as it is, are distinct
if and only if no name that is made is one of the others. -/
theorem nodup_map_occurrences_iff {name : α → Nat → α} (plain : ∀ item, name item 1 = item)
    (apart : ∀ item item' number number', 2 ≤ number → 2 ≤ number' →
      name item number = name item' number' → item = item' ∧ number = number')
    (items : List α) :
    ((occurrences items).map fun occurrence => name occurrence.1 occurrence.2).Nodup ↔
      ∀ item number, 2 ≤ number → number ≤ items.count item → name item number ∉ items := by
  have once : (occurrences items).Nodup := nodup_occurrencesAfter [] items
  rw [List.nodup_map_iff_inj_on once]
  constructor
  · intro distinct item number again within taken
    have one : (name item number, 1) ∈ occurrences items :=
      mem_occurrences.mpr ⟨Nat.le_refl 1, List.one_le_count_iff.mpr taken⟩
    have same := distinct (item, number) (mem_occurrences.mpr ⟨by omega, within⟩)
      (name item number, 1) one (plain _).symm
    have number_one := congrArg Prod.snd same
    dsimp only at number_one
    omega
  · rintro free ⟨item, number⟩ here ⟨item', number'⟩ there same
    obtain ⟨some, within⟩ := mem_occurrences.mp here
    obtain ⟨some', within'⟩ := mem_occurrences.mp there
    dsimp only at same
    by_cases first : number = 1
    · subst first
      rw [plain] at same
      by_cases first' : number' = 1
      · subst first'
        rw [plain] at same
        rw [same]
      · have made : name item' number' ∈ items := same ▸ List.one_le_count_iff.mp within
        exact absurd made (free item' number' (by omega) within')
    · by_cases first' : number' = 1
      · subst first'
        rw [plain] at same
        have made : name item number ∈ items := same ▸ List.one_le_count_iff.mp within'
        exact absurd made (free item number (by omega) within)
      · obtain ⟨rfl, rfl⟩ := apart item item' number number' (by omega) (by omega) same
        rfl

end Semcast.Occurrences
