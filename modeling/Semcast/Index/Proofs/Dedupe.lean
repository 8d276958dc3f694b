import Mathlib.Data.List.Basic
import Semcast.Index.Dedupe

/-!
# Greedy groups

Every point is in the group of a point that represents itself.
-/

namespace Semcast.Index

open Model

variable {α S : Type*} {arith : Similarity α S} {points : List (Embedding α)} {threshold : S}

theorem mem_of_maxBy {ι : Type*} {compare : ι → ι → Ordering} {items : List ι} {best : ι}
    (found : maxBy compare items = some best) : best ∈ items := by
  cases items with
  | nil => cases found
  | cons first rest =>
    cases Option.some.inj found
    clear found
    induction rest generalizing first with
    | nil => simp
    | cons item rest ih =>
      rw [List.foldl_cons]
      by_cases kept : compare first item = .gt
      · rw [if_pos kept]
        rcases List.mem_cons.mp (ih first) with same | later
        · rw [same]
          exact List.mem_cons_self
        · exact List.mem_cons_of_mem _ (List.mem_cons_of_mem _ later)
      · rw [if_neg kept]
        exact List.mem_cons_of_mem _ (ih item)

/-- The representatives are the points whose group is their own, and every group is one. -/
structure Greedy.Grouped (state : Greedy) : Prop where
  self : ∀ rep ∈ state.representatives, state.groups[rep]? = some rep
  groups : ∀ rep ∈ state.groups, rep ∈ state.representatives

theorem greedyRound_spec {state : Greedy} (grouped : state.Grouped) (point : Embedding α) :
    (greedyRound arith points threshold state point).Grouped ∧
      (greedyRound arith points threshold state point).groups.length =
        state.groups.length + 1 := by
  have still : ∀ rep ∈ state.representatives, ∀ new : Nat,
      (state.groups ++ [new])[rep]? = some rep := by
    intro rep member new
    have here := grouped.self rep member
    rw [List.getElem?_append_left (List.getElem?_eq_some_iff.mp here).1, here]
  unfold greedyRound
  dsimp only
  split
  · rename_i rep score found
    obtain ⟨scored, -⟩ := List.mem_filter.mp (mem_of_maxBy found)
    obtain ⟨known, member, same⟩ := List.mem_map.mp scored
    cases same
    refine ⟨⟨fun rep member => still rep member _, ?_⟩, by simp⟩
    exact List.forall_mem_append.mpr ⟨grouped.groups, by simpa using member⟩
  · refine ⟨⟨?_, ?_⟩, by simp⟩
    · exact List.forall_mem_append.mpr ⟨fun rep member => still rep member _, by simp⟩
    · intro rep member
      rcases List.mem_append.mp member with old | new
      · exact List.mem_append_left _ (grouped.groups rep old)
      · exact List.mem_append_right _ new

theorem foldl_greedyRound {state : Greedy} (grouped : state.Grouped)
    (remaining : List (Embedding α)) :
    (remaining.foldl (greedyRound arith points threshold) state).Grouped ∧
      (remaining.foldl (greedyRound arith points threshold) state).groups.length =
        state.groups.length + remaining.length := by
  induction remaining generalizing state with
  | nil => exact ⟨grouped, rfl⟩
  | cons point rest ih =>
    have round := @greedyRound_spec _ _ arith points threshold _ grouped point
    obtain ⟨all, length⟩ := ih round.1
    refine ⟨all, ?_⟩
    rw [List.foldl_cons, length, round.2, List.length_cons]
    omega

variable (arith points threshold)

theorem length_greedyGroups : (greedyGroups arith points threshold).length = points.length := by
  have start : (⟨[], []⟩ : Greedy).Grouped := ⟨by simp, by simp⟩
  exact (foldl_greedyRound start points).2.trans (Nat.zero_add _)

/-- A representative points at itself. -/
theorem greedyGroups_self :
    ∀ rep ∈ greedyGroups arith points threshold, (greedyGroups arith points threshold)[rep]? = some rep := by
  have start : (⟨[], []⟩ : Greedy).Grouped := ⟨by simp, by simp⟩
  have grouped := (@foldl_greedyRound _ _ arith points threshold _ start points).1
  exact fun rep member => grouped.self rep (grouped.groups rep member)

end Semcast.Index
