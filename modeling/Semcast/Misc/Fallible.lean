import Mathlib.Data.List.Forall2
import Mathlib.Tactic.TypeStar

/-!
# Computations that may fail

What a successful result of `Except` says of the computations it was made from.
-/

namespace Semcast.Fallible

section Monadic

universe u v

variable {ε : Type u} {α β : Type v} {attempt : Except ε α} {next : α → Except ε β} {result : β}

theorem bind_ok_iff : attempt >>= next = .ok result ↔
    ∃ value, attempt = .ok value ∧ next value = .ok result := by
  cases attempt <;> simp [bind, Except.bind]

theorem bind_error_iff {failure : ε} : attempt >>= next = .error failure ↔
    attempt = .error failure ∨ ∃ value, attempt = .ok value ∧ next value = .error failure := by
  cases attempt <;> simp [bind, Except.bind]

/-- Two steps that each succeed where a condition holds, with one result. -/
theorem bind_ok_iff_and {α β : Type v} {attempt : Except ε α} {next : α → Except ε β} {between : α}
    {last result : β} {first second : Prop}
    (attempt_iff : ∀ {value}, attempt = .ok value ↔ first ∧ between = value)
    (next_iff : first → ∀ {value}, next between = .ok value ↔ second ∧ last = value) :
    attempt >>= next = .ok result ↔ (second ∧ first) ∧ last = result := by
  rw [bind_ok_iff]
  constructor
  · rintro ⟨value, done, made⟩
    obtain ⟨holds, rfl⟩ := attempt_iff.mp done
    obtain ⟨own, same⟩ := (next_iff holds).mp made
    exact ⟨⟨own, holds⟩, same⟩
  · rintro ⟨⟨own, holds⟩, same⟩
    exact ⟨between, attempt_iff.mpr ⟨holds, rfl⟩, (next_iff holds).mpr ⟨own, same⟩⟩

/-- A list of computations succeeds where each of them does. -/
theorem mapM_ok_iff {α : Type*} {f : α → Except ε β} {items : List α} :
    (∃ results, items.mapM f = .ok results) ↔ ∀ item ∈ items, ∃ value, f item = .ok value := by
  induction items with
  | nil => simp [pure, Except.pure]
  | cons item rest ih =>
    rw [List.forall_mem_cons, ← ih, List.mapM_cons]
    constructor
    · rintro ⟨results, all⟩
      obtain ⟨value, first, all⟩ := bind_ok_iff.mp all
      obtain ⟨values, others, -⟩ := bind_ok_iff.mp all
      exact ⟨⟨value, first⟩, values, others⟩
    · rintro ⟨⟨value, first⟩, values, others⟩
      exact ⟨value :: values, bind_ok_iff.mpr ⟨value, first, bind_ok_iff.mpr ⟨values, others, rfl⟩⟩⟩

/-- What a list of computations that succeeds gives, one by one. -/
theorem mapM_eq_ok_iff {α : Type*} {f : α → Except ε β} {items : List α} {results : List β} :
    items.mapM f = .ok results ↔
      List.Forall₂ (fun item result => f item = .ok result) items results := by
  induction items generalizing results with
  | nil => simp [pure, Except.pure, eq_comm]
  | cons item rest ih =>
    rw [List.mapM_cons, List.forall₂_cons_left_iff]
    constructor
    · intro all
      obtain ⟨value, first, all⟩ := bind_ok_iff.mp all
      obtain ⟨values, others, all⟩ := bind_ok_iff.mp all
      cases all
      exact ⟨value, values, first, ih.mp others, rfl⟩
    · rintro ⟨value, values, first, others, rfl⟩
      exact bind_ok_iff.mpr ⟨value, first, bind_ok_iff.mpr ⟨values, ih.mpr others, rfl⟩⟩

/-- What an item gives is among the results. -/
theorem mem_of_mapM_ok {α : Type*} {f : α → Except ε β} {items : List α} {results : List β}
    (all : items.mapM f = .ok results) {item : α} (member : item ∈ items) :
    ∃ value ∈ results, f item = .ok value := by
  have each := mapM_eq_ok_iff.mp all
  clear all
  induction each with
  | nil => cases member
  | cons first _ ih =>
    rcases List.mem_cons.mp member with rfl | later
    · exact ⟨_, List.mem_cons_self, first⟩
    · obtain ⟨value, within, found⟩ := ih later
      exact ⟨value, List.mem_cons_of_mem _ within, found⟩

/-- A list of computations fails with the failure of one of them. -/
theorem exists_mem_of_mapM_error {α : Type*} {f : α → Except ε β} {items : List α} {failure : ε}
    (failed : items.mapM f = .error failure) : ∃ item ∈ items, f item = .error failure := by
  induction items with
  | nil => cases failed
  | cons item rest ih =>
    rw [List.mapM_cons] at failed
    rcases bind_error_iff.mp failed with first | ⟨value, -, failed⟩
    · exact ⟨item, List.mem_cons_self, first⟩
    · rcases bind_error_iff.mp failed with others | ⟨values, -, failed⟩
      · obtain ⟨later, member, stopped⟩ := ih others
        exact ⟨later, List.mem_cons_of_mem _ member, stopped⟩
      · cases failed

end Monadic

variable {ε α β : Type*}

theorem map_ok_iff {attempt : Except ε α} {f : α → β} {result : β} :
    attempt.map f = .ok result ↔ ∃ value, attempt = .ok value ∧ f value = result := by
  cases attempt <;> simp [Except.map]

/-- A check that fails otherwise has passed only where its condition holds. -/
theorem ite_ok_iff {condition : Prop} [Decidable condition] {value result : α} {failure : ε} :
    (if condition then Except.ok value else .error failure) = .ok result ↔
      condition ∧ value = result := by
  by_cases holds : condition <;> simp [holds]

end Semcast.Fallible
