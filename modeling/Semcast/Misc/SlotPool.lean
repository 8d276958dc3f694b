import Mathlib.Data.Finset.Card

/-!
# A pool of slots

A number of slots, some of them free, the others with the keys that hold one. A key
takes a slot or gives it back; none is lost or made, so that no more keys ever hold a
slot than there are slots.
-/

namespace Semcast.SlotPool

variable {κ : Type*}

/-- The free slots and the keys that hold one make up all slots. -/
def Pooled (total free : Nat) (holds : κ → Bool) : Prop :=
  ∃ holders : Finset κ, (∀ key, key ∈ holders ↔ holds key = true) ∧ free + holders.card = total

theorem pooled_all (total : Nat) : Pooled total total fun _ : κ => false :=
  ⟨∅, by simp, by simp⟩

variable {total free : Nat} {holds : κ → Bool} {key : κ}

section Moves

variable [DecidableEq κ]

/-- A key that holds none takes a free slot. -/
theorem Pooled.take (pooled : Pooled total free holds) (without : holds key = false)
    (some_free : 0 < free) : Pooled total (free - 1) (Function.update holds key true) := by
  obtain ⟨holders, member, count⟩ := pooled
  have absent : key ∉ holders := by
    rw [member, without]
    exact Bool.false_ne_true
  refine ⟨insert key holders, fun other => ?_, ?_⟩
  · rw [Finset.mem_insert, member, Function.update_apply]
    by_cases same : other = key <;> simp [same]
  · rw [Finset.card_insert_of_notMem absent]
    omega

/-- A key gives its slot back. -/
theorem Pooled.give (pooled : Pooled total free holds) (holding : holds key = true) :
    Pooled total (free + 1) (Function.update holds key false) := by
  obtain ⟨holders, member, count⟩ := pooled
  have present : key ∈ holders := (member key).mpr holding
  refine ⟨holders.erase key, fun other => ?_, ?_⟩
  · rw [Finset.mem_erase, member, Function.update_apply]
    by_cases same : other = key <;> simp [same]
  · have positive : 0 < holders.card := Finset.card_pos.mpr ⟨key, present⟩
    rw [Finset.card_erase_of_mem present]
    omega

/-- A key changes, and goes on holding a slot, or none. -/
theorem Pooled.keep (pooled : Pooled total free holds) {held : Bool} (same : holds key = held) :
    Pooled total free (Function.update holds key held) := by
  rw [← same, Function.update_eq_self]
  exact pooled

end Moves

/-- No more keys hold a slot than there are slots. -/
theorem Pooled.length_le (pooled : Pooled total free holds) {keys : List κ} (distinct : keys.Nodup)
    (all : ∀ key ∈ keys, holds key = true) : free + keys.length ≤ total := by
  classical
  obtain ⟨holders, member, count⟩ := pooled
  have subset : keys.toFinset ⊆ holders := by
    intro key found
    exact (member key).mpr (all key (List.mem_toFinset.mp found))
  have counted := Finset.card_le_card subset
  rw [List.toFinset_card_of_nodup distinct] at counted
  omega

/-- Where no slot is free, some key holds one. -/
theorem Pooled.exists_holder (pooled : Pooled total 0 holds) (slots : 0 < total) :
    ∃ key, holds key = true := by
  obtain ⟨holders, member, count⟩ := pooled
  obtain ⟨key, present⟩ := Finset.card_pos.mp (by omega : 0 < holders.card)
  exact ⟨key, (member key).mp present⟩

end Semcast.SlotPool
