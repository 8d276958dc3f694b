import Mathlib.Data.List.Nodup

/-!
# Numbered selections

What a loop collects of a list, when each item is picked by its number: who is
picked, that numbers are distinct, and what is picked when the numbers are dropped.
-/

namespace Semcast.Numbered

variable {α β γ : Type*} {pick pick' : Nat → α → Option β} {start : Nat} {items : List α}

/-- The picks among `items`, which are numbered from `start` on. -/
def collect (pick : Nat → α → Option β) : Nat → List α → List β
  | _, [] => []
  | start, item :: rest => (pick start item).toList ++ collect pick (start + 1) rest

@[simp] theorem collect_nil : collect pick start [] = [] := rfl

theorem collect_cons (item : α) (rest : List α) :
    collect pick start (item :: rest) =
      (pick start item).toList ++ collect pick (start + 1) rest := rfl

theorem mem_collect {picked : β} :
    picked ∈ collect pick start items ↔
      ∃ index item, items[index]? = some item ∧ pick (start + index) item = some picked := by
  induction items generalizing start with
  | nil => simp
  | cons item rest ih =>
    have next : ∀ index, start + 1 + index = start + (index + 1) := by
      intro index
      omega
    rw [collect_cons, List.mem_append, ih, Option.mem_toList]
    simp only [next]
    constructor
    · rintro (first | ⟨index, later, at_, picks⟩)
      · exact ⟨0, item, rfl, first⟩
      · exact ⟨index + 1, later, at_, picks⟩
    · rintro ⟨index, found, at_, picks⟩
      cases index with
      | zero =>
        cases at_
        exact Or.inl picks
      | succ index => exact Or.inr ⟨index, found, at_, picks⟩

theorem collect_congr (same : ∀ index, ∀ item ∈ items, pick index item = pick' index item) :
    collect pick start items = collect pick' start items := by
  induction items generalizing start with
  | nil => rfl
  | cons item rest ih =>
    rw [collect_cons, collect_cons, same _ item List.mem_cons_self,
      ih fun index later member => same index later (List.mem_cons_of_mem _ member)]

/-- Picks that keep their number are numbered apart. -/
theorem nodup_collect {number : β → Nat}
    (numbered : ∀ index item picked, pick index item = some picked → number picked = index) :
    ((collect pick start items).map number).Nodup := by
  induction items generalizing start with
  | nil => simp
  | cons item rest ih =>
    rw [collect_cons]
    cases picks : pick start item with
    | none => exact ih
    | some picked =>
      refine List.nodup_cons.mpr ⟨?_, ih⟩
      intro again
      obtain ⟨later, member, same⟩ := List.mem_map.mp again
      obtain ⟨index, item', -, picks'⟩ := mem_collect.mp member
      rw [numbered _ _ _ picks, numbered _ _ _ picks'] at same
      omega

/-- Dropping the numbers leaves a plain selection. -/
theorem map_collect {drop : β → γ} {select : α → Option γ}
    (dropped : ∀ index item, (pick index item).map drop = select item) :
    (collect pick start items).map drop = items.filterMap select := by
  induction items generalizing start with
  | nil => rfl
  | cons item rest ih =>
    rw [collect_cons, List.map_append, ih, List.filterMap_cons, ← dropped start item]
    cases pick start item <;> rfl

/-- Numbers that tell the items of a list apart tell its pairs with another apart. -/
theorem nodup_zip {κ : Type*} {number : α → κ} (distinct : (items.map number).Nodup) (others : List β) :
    ((items.zip others).map fun pair => number pair.1).Nodup := by
  induction items generalizing others with
  | nil => simp
  | cons item rest ih =>
    cases others with
    | nil => simp
    | cons other others =>
      rw [List.map_cons, List.nodup_cons] at distinct
      refine List.nodup_cons.mpr ⟨?_, ih distinct.2 others⟩
      intro again
      obtain ⟨pair, member, same⟩ := List.mem_map.mp again
      exact distinct.1 (List.mem_map.mpr ⟨pair.1, (List.of_mem_zip member).1, same⟩)

/-- An item is found by its number. -/
theorem find?_of_nodup {κ : Type*} [BEq κ] [LawfulBEq κ] {number : α → κ} (distinct : (items.map number).Nodup) {item : α}
    (member : item ∈ items) : items.find? (number · == number item) = some item := by
  induction items with
  | nil => cases member
  | cons first rest ih =>
    rw [List.map_cons, List.nodup_cons] at distinct
    rcases List.mem_cons.mp member with rfl | later
    · exact List.find?_cons_of_pos (by simp)
    · have differs : number first ≠ number item := by
        intro same
        exact distinct.1 (same ▸ List.mem_map_of_mem later)
      rw [List.find?_cons_of_neg (by simpa using differs)]
      exact ih distinct.2 later

/-- An item of a list without repetitions has one place. -/
theorem place_eq {i j : Nat} {item : α} (distinct : items.Nodup) (here : items[i]? = some item)
    (there : items[j]? = some item) : i = j :=
  (List.getElem?_inj (List.getElem?_eq_some_iff.mp here).1 distinct).mp (here.trans there.symm)

/-- What stands beside an item of a list without repetitions is found under it. -/
theorem lookup_zip_map [BEq α] [LawfulBEq α] {others : List β} {value : β → γ} {place : Nat}
    {item : α} {other : β} (distinct : items.Nodup) (here : items[place]? = some item)
    (beside : others[place]? = some other) :
    ((items.zip others).map fun pair => (pair.1, value pair.2)).lookup item =
      some (value other) := by
  induction items generalizing others place with
  | nil => simp at here
  | cons first rest ih =>
    obtain ⟨new, distinct⟩ := List.nodup_cons.mp distinct
    cases others with
    | nil => simp at beside
    | cons head others =>
      cases place with
      | zero =>
        cases here
        cases beside
        simp
      | succ place =>
        have differs : (item == first) = false := by
          rw [beq_eq_false_iff_ne]
          rintro rfl
          exact new (List.mem_of_getElem? here)
        rw [List.zip_cons_cons, List.map_cons, List.lookup_cons, differs]
        exact ih distinct here beside

end Semcast.Numbered
