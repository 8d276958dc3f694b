import Mathlib.Order.Compare
import Mathlib.Order.Lattice
import Semcast.Index.Proofs.Dedupe

/-!
# What greedy groups are

With similarities in a linear order, the groups are determined by what each point sees of
the representatives before it: below the threshold with all of them it survives, otherwise
it joins the nearest.
-/

namespace Semcast.Index

open Model

variable {α S : Type*} [LinearOrder S]

/-- A similarity whose scores are compared as a linear order has it. -/
def Similarity.ofOrder (similarity : Embedding α → Embedding α → S) : Similarity α S where
  similarity
  atLeast score threshold := decide (threshold ≤ score)
  totalCmp := compare

/-- No item is greater than the one that is found. -/
theorem le_of_maxBy {ι : Type*} {key : ι → S} {items : List ι} {best : ι}
    (found : maxBy (fun left right => compare (key left) (key right)) items = some best)
    (item : ι) (member : item ∈ items) : key item ≤ key best := by
  cases items with
  | nil => cases found
  | cons first rest =>
    have above : ∀ other, other = first ∨ other ∈ rest → key other ≤ key best := by
      cases Option.some.inj found
      clear found member
      induction rest generalizing first with
      | nil =>
        intro other same
        rcases same with rfl | none
        · exact le_refl _
        · cases none
      | cons next rest ih =>
        intro other member
        rw [List.foldl_cons]
        have step := ih (if compare (key first) (key next) = .gt then first else next)
        by_cases kept : compare (key first) (key next) = .gt
        · rw [if_pos kept] at step ⊢
          rcases member with rfl | later
          · exact step _ (Or.inl rfl)
          · rcases List.mem_cons.mp later with rfl | later
            · exact le_trans (le_of_lt (compare_gt_iff_gt.mp kept)) (step first (Or.inl rfl))
            · exact step other (Or.inr later)
        · rw [if_neg kept] at step ⊢
          rcases member with rfl | later
          · have below : key other ≤ key next := not_lt.mp (mt compare_gt_iff_gt.mpr kept)
            exact le_trans below (step next (Or.inl rfl))
          · rcases List.mem_cons.mp later with rfl | later
            · exact step _ (Or.inl rfl)
            · exact step other (Or.inr later)
    exact above item (List.mem_cons.mp member)

theorem eq_nil_of_maxBy {ι : Type*} {compare : ι → ι → Ordering} {items : List ι}
    (nothing : maxBy compare items = none) : items = [] := by
  cases items with
  | nil => rfl
  | cons first rest => cases nothing

section Groups

variable (similarity : Embedding α → Embedding α → S) (points : List (Embedding α))

/-- The similarity of a point to another, by their places. -/
def similarityAt (i j : Nat) : S :=
  similarity (points.getD i []) (points.getD j [])

/-- What the representative of a point has to be. -/
structure Represents (threshold : S) (groups : List Nat) (i rep : Nat) : Prop where
  le : rep ≤ i
  self : groups[rep]? = some rep
  /-- A point survives just when no representative before it is similar. -/
  survives : rep = i ↔
    ∀ j < i, groups[j]? = some j → similarityAt similarity points i j < threshold
  similar : rep ≠ i → threshold ≤ similarityAt similarity points i rep
  nearest : rep ≠ i → ∀ j < i, groups[j]? = some j →
    ¬similarityAt similarity points i rep < similarityAt similarity points i j

/-- What the groups of some points have to be. -/
structure Grouping (threshold : S) (groups : List Nat) : Prop where
  length : groups.length = points.length
  represents : ∀ i rep, groups[i]? = some rep →
    Represents similarity points threshold groups i rep
  /-- Any two survivors are below the threshold. -/
  apart : ∀ i j, j < i → groups[i]? = some i → groups[j]? = some j →
    similarityAt similarity points i j < threshold

/-- What the loop of `greedy_groups` holds after some points. -/
structure Greedy.Represented (threshold : S) (state : Greedy) : Prop where
  mem_iff : ∀ rep, rep ∈ state.representatives ↔ state.groups[rep]? = some rep
  represents : ∀ i rep, state.groups[i]? = some rep →
    Represents similarity points threshold state.groups i rep

variable {similarity points} {threshold : S}

/-- What comes later changes nothing for a point. -/
theorem Represents.append {groups : List Nat} {i rep : Nat} (within : i < groups.length)
    (represents : Represents similarity points threshold groups i rep) (later : List Nat) :
    Represents similarity points threshold (groups ++ later) i rep := by
  have same : ∀ j ≤ i, (groups ++ later)[j]? = groups[j]? := fun j le =>
    List.getElem?_append_left (by omega)
  refine ⟨represents.le, ?_, ?_, represents.similar, ?_⟩
  · rw [same rep represents.le, represents.self]
  · rw [represents.survives]
    constructor
    · intro all j before survivor
      exact all j before (same j (by omega) ▸ survivor)
    · intro all j before survivor
      exact all j before ((same j (by omega)).trans survivor)
  · intro other j before survivor
    exact represents.nearest other j before (same j (by omega) ▸ survivor)

/-- The next point, represented as it has to be. -/
theorem Greedy.Represented.push {state : Greedy} {rep : Nat} {representatives : List Nat}
    (represented : state.Represented similarity points threshold)
    (known : ∀ other, other ∈ representatives ↔ (state.groups ++ [rep])[other]? = some other)
    (represents : Represents similarity points threshold (state.groups ++ [rep])
      state.groups.length rep) :
    (⟨state.groups ++ [rep], representatives⟩ : Greedy).Represented similarity points
      threshold := by
  refine ⟨known, ?_⟩
  intro i own found
  by_cases last : i < state.groups.length
  · rw [List.getElem?_append_left last] at found
    exact (represented.represents i own found).append last [rep]
  · have bound := (List.getElem?_eq_some_iff.mp found).1
    rw [List.length_append, List.length_singleton] at bound
    have here : i = state.groups.length := by omega
    subst here
    rw [List.getElem?_concat_length] at found
    cases found
    exact represents

/-- The points that represent themselves, once another is added. -/
theorem getElem?_concat_self {groups : List Nat} {rep other : Nat} :
    (groups ++ [rep])[other]? = some other ↔
      groups[other]? = some other ∨ (other = groups.length ∧ rep = groups.length) := by
  by_cases before : other < groups.length
  · rw [List.getElem?_append_left before]
    constructor
    · exact Or.inl
    · rintro (old | ⟨rfl, -⟩)
      · exact old
      · omega
  · rw [List.getElem?_append_right (by omega), List.getElem?_singleton,
      List.getElem?_eq_none (by omega)]
    by_cases last : other = groups.length
    · subst last
      simp
    · have beyond : other - groups.length ≠ 0 := by omega
      simp [beyond, last]

theorem Greedy.Represented.round {state : Greedy}
    (represented : state.Represented similarity points threshold) :
    (greedyRound (.ofOrder similarity) points threshold state
      (points.getD state.groups.length [])).Represented similarity points threshold := by
  unfold greedyRound
  dsimp only [Similarity.ofOrder]
  have bound : ∀ {j}, state.groups[j]? = some j → j < state.groups.length := fun survivor =>
    (List.getElem?_eq_some_iff.mp survivor).1
  split
  · rename_i rep score found
    obtain ⟨scored, above⟩ := List.mem_filter.mp (mem_of_maxBy found)
    obtain ⟨known, member, same⟩ := List.mem_map.mp scored
    cases same
    have survivor := (represented.mem_iff rep).mp member
    have before := bound survivor
    have above : threshold ≤ similarityAt similarity points state.groups.length rep :=
      of_decide_eq_true above
    have self : (state.groups ++ [rep])[rep]? = some rep :=
      getElem?_concat_self.mpr (Or.inl survivor)
    apply represented.push
    · intro other
      rw [represented.mem_iff, getElem?_concat_self]
      constructor
      · exact Or.inl
      · rintro (old | ⟨-, own⟩)
        · exact old
        · omega
    · refine ⟨Nat.le_of_lt before, self, ?_, fun _ => above, ?_⟩
      · constructor
        · intro own
          omega
        · intro all
          exact absurd (all rep before self) (not_lt.mpr above)
      · intro _ j earlier other
        rcases getElem?_concat_self.mp other with other | ⟨last, -⟩
        · by_cases near : threshold ≤ similarityAt similarity points state.groups.length j
          · -- The representative is among those that were compared.
            have among := le_of_maxBy found
              (j, similarityAt similarity points state.groups.length j)
            apply not_lt.mpr
            exact among (List.mem_filter.mpr
              ⟨List.mem_map.mpr ⟨j, (represented.mem_iff j).mpr other, rfl⟩, decide_eq_true near⟩)
          · exact not_lt.mpr (le_trans (le_of_lt (not_le.mp near)) above)
        · omega
  · rename_i nothing
    have none_near : ∀ j, state.groups[j]? = some j →
        similarityAt similarity points state.groups.length j < threshold := by
      intro j survivor
      by_contra near
      have empty := eq_nil_of_maxBy nothing
      rw [List.filter_eq_nil_iff] at empty
      exact empty (j, _) (List.mem_map.mpr ⟨j, (represented.mem_iff j).mpr survivor, rfl⟩)
        (decide_eq_true (not_lt.mp near))
    apply represented.push
    · intro other
      rw [List.mem_append, represented.mem_iff, getElem?_concat_self, List.mem_singleton]
      simp
    · refine ⟨Nat.le_refl _, getElem?_concat_self.mpr (Or.inr ⟨rfl, rfl⟩), ?_, ?_, ?_⟩
      · constructor
        · intro _ j before survivor
          rcases getElem?_concat_self.mp survivor with old | ⟨last, -⟩
          · exact none_near j old
          · omega
        · intro _
          rfl
      · intro other
        exact absurd rfl other
      · intro other
        exact absurd rfl other

/-- The invariant holds the one on groups alone. -/
theorem Greedy.Represented.grouped {state : Greedy}
    (represented : state.Represented similarity points threshold) : state.Grouped := by
  refine ⟨fun rep member => (represented.mem_iff rep).mp member, ?_⟩
  intro rep member
  rcases List.mem_iff_getElem?.mp member with ⟨i, found⟩
  exact (represented.mem_iff rep).mpr (represented.represents i rep found).self

theorem foldl_greedyRound_represented {state : Greedy} {remaining : List (Embedding α)}
    (represented : state.Represented similarity points threshold)
    (left : points.drop state.groups.length = remaining) :
    (remaining.foldl (greedyRound (.ofOrder similarity) points threshold) state).Represented
      similarity points threshold := by
  induction remaining generalizing state with
  | nil => exact represented
  | cons point rest ih =>
    have here : points.getD state.groups.length [] = point := by
      rw [List.getD_eq_getElem?_getD, ← List.head?_drop, left]
      rfl
    have round := represented.round
    rw [here] at round
    refine ih round ?_
    rw [(greedyRound_spec represented.grouped point).2, ← List.tail_drop, left, List.tail_cons]

variable (similarity points threshold)

/-- Every point has a representative, at or before its place, that represents itself. A
point represents itself just when it is below the threshold with each representative before
it, so that any two survivors are; any other point is at or above the threshold with its
representative, and no closer to another one before it. -/
theorem greedyGroups_grouping :
    Grouping similarity points threshold
      (greedyGroups (.ofOrder similarity) points threshold) := by
  have start : (⟨[], []⟩ : Greedy).Represented similarity points threshold :=
    ⟨by simp, by simp⟩
  have represented : (points.foldl (greedyRound (.ofOrder similarity) points threshold)
      ⟨[], []⟩).Represented similarity points threshold :=
    foldl_greedyRound_represented start rfl
  refine ⟨length_greedyGroups _ points threshold, represented.represents, ?_⟩
  intro i j before survivor earlier
  exact (represented.represents i i survivor).survives.mp rfl j before earlier

end Groups

end Semcast.Index
