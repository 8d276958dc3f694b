import Mathlib.Data.List.Induction
import Mathlib.Data.List.Nodup
import Mathlib.Data.List.Perm.Basic

/-!
# Order of first appearance

The distinct keys of a list in the order in which they first appear, as the items
arrive one by one, as a list is cut short, and when the items come best first.
-/

namespace Semcast.FirstSeen

variable {κ ι : Type*} [DecidableEq κ]

/-- A key that arrives is new, or changes nothing. -/
theorem eraseDups_concat (keys : List κ) (key : κ) :
    (keys ++ [key]).eraseDups =
      if key ∈ keys then keys.eraseDups else keys.eraseDups ++ [key] := by
  rw [List.eraseDups_append]
  by_cases seen : key ∈ keys
  · simp [List.removeAll, seen]
  · simp [List.removeAll, seen, List.eraseDups_cons]

/-- Keys collected one by one, each where it is not there yet. -/
theorem foldl_eq_eraseDups (keys : List κ) :
    keys.foldl (fun seen key => if seen.contains key then seen else seen ++ [key]) [] =
      keys.eraseDups := by
  induction keys using List.reverseRecOn with
  | nil => rfl
  | append_singleton keys key ih =>
    rw [List.foldl_append, ih, eraseDups_concat]
    simp

theorem nodup_eraseDups (keys : List κ) : keys.eraseDups.Nodup := by
  induction keys using List.reverseRecOn with
  | nil => simp
  | append_singleton keys key ih =>
    rw [eraseDups_concat]
    by_cases seen : key ∈ keys
    · rw [if_pos seen]
      exact ih
    · rw [if_neg seen]
      apply List.nodup_append.mpr
      refine ⟨ih, List.nodup_singleton key, ?_⟩
      rintro held early key' late rfl
      rw [List.mem_singleton] at late
      exact seen (late ▸ List.mem_eraseDups.mp early)

/-- A list that is cut short loses the keys that appear last. -/
theorem isPrefix_eraseDups_take (keys : List κ) (k : Nat) :
    (keys.take k).eraseDups <+: keys.eraseDups := by
  have whole : (keys.take k ++ keys.drop k).eraseDups = _ := List.eraseDups_append
  rw [List.take_append_drop] at whole
  exact ⟨_, whole.symm⟩

theorem length_eraseDups_of_perm {keys keys' : List κ} (perm : keys.Perm keys') :
    keys.eraseDups.length = keys'.eraseDups.length := by
  apply List.Perm.length_eq
  apply (List.perm_ext_iff_of_nodup (nodup_eraseDups keys) (nodup_eraseDups keys')).mpr
  intro key
  rw [List.mem_eraseDups, List.mem_eraseDups, perm.mem_iff]

omit [DecidableEq κ] in
/-- A prefix that is long enough has the same first elements. -/
theorem take_eq_of_prefix {front whole : List κ} {count : Nat} (isPrefix : front <+: whole)
    (enough : min count whole.length ≤ front.length) : front.take count = whole.take count := by
  obtain ⟨rest, rfl⟩ := isPrefix
  rw [List.length_append] at enough
  rw [List.take_append]
  by_cases short : count ≤ front.length
  · have none_left : count - front.length = 0 := by omega
    rw [none_left, List.take_zero, List.append_nil]
  · have nothing : rest.length = 0 := by omega
    rw [List.length_eq_zero_iff.mp nothing, List.take_nil, List.append_nil]

/-- When the items come best first, an item of a key that is not among the first ones
is no better than some item of any that is. -/
theorem exists_better_of_mem_take {key : ι → κ} {better : ι → ι → Prop} {count : Nat}
    {items : List ι} (sorted : items.Pairwise better) {first : κ}
    (among : first ∈ ((items.map key).eraseDups).take count) {item : ι} (member : item ∈ items)
    (beyond : key item ∉ ((items.map key).eraseDups).take count) :
    ∃ own ∈ items, key own = first ∧ better own item := by
  induction length : items.length using Nat.strongRecOn generalizing items count with
  | ind n ih =>
    cases items with
    | nil => simp at member
    | cons head rest =>
      cases count with
      | zero => simp at among
      | succ count =>
        rw [List.map_cons, List.eraseDups_cons, List.take_succ_cons, List.mem_cons] at among beyond
        obtain ⟨ahead, sorted⟩ := List.pairwise_cons.mp sorted
        rw [not_or] at beyond
        have later : item ∈ rest := by
          rcases List.mem_cons.mp member with rfl | later
          · exact absurd rfl beyond.1
          · exact later
        by_cases own : first = key head
        · exact ⟨head, List.mem_cons_self, own.symm, ahead item later⟩
        · -- The items with another key than the first one.
          have others : (rest.map key).filter (fun k => !k == key head) =
              (rest.filter fun item => !key item == key head).map key := by
            rw [List.filter_map]
            rfl
          rw [others] at among beyond
          have kept : item ∈ rest.filter fun item => !key item == key head := by
            simpa [later] using beyond.1
          obtain ⟨found, mem, same, best⟩ := ih _
            (by rw [← length]; exact Nat.lt_succ_of_le (List.length_filter_le _ _))
            (sorted.filter _) (among.resolve_left own) kept beyond.2 rfl
          exact ⟨found, List.mem_cons_of_mem _ (List.mem_filter.mp mem).1, same, best⟩

end Semcast.FirstSeen
