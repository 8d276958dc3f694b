import Mathlib.Data.Option.Basic
import Mathlib.Logic.Function.Basic
import Mathlib.Order.Defs.PartialOrder

/-!
# First-write-wins maps

Partial maps `K → Option V` that only ever grow: inserting under a key that is
taken changes nothing. Inserting a list of entries reads as the map before, and
elsewhere as the first entry of the list.
-/

namespace Semcast.FirstWrite

variable {K V : Type*} [DecidableEq K]

/-- Insert a value unless its key is taken. -/
def insertNew (map : K → Option V) (key : K) (value : V) : K → Option V :=
  if (map key).isSome then map else Function.update map key (some value)

/-- Insert entries one after the other. -/
def insertAllNew (map : K → Option V) (entries : List (K × V)) : K → Option V :=
  entries.foldl (fun map entry => insertNew map entry.1 entry.2) map

theorem insertNew_of_isSome {map : K → Option V} {key : K} (taken : (map key).isSome) (value : V) :
    insertNew map key value = map :=
  if_pos taken

theorem insertNew_of_eq_none {map : K → Option V} {key : K} (missing : map key = none) (value : V) :
    insertNew map key value = Function.update map key (some value) := by
  simp [insertNew, missing]

theorem insertNew_self (map : K → Option V) (key : K) (value : V) :
    insertNew map key value key = some ((map key).getD value) := by
  cases found : map key with
  | none => simp [insertNew_of_eq_none found]
  | some held => simp [insertNew, found]

theorem insertNew_of_ne {map : K → Option V} {key other : K} (different : other ≠ key) (value : V) :
    insertNew map key value other = map other := by
  unfold insertNew
  split
  · rfl
  · exact Function.update_of_ne different _ _

@[simp] theorem insertAllNew_nil (map : K → Option V) : insertAllNew map [] = map := rfl

@[simp] theorem insertAllNew_cons (map : K → Option V) (entry : K × V) (rest : List (K × V)) :
    insertAllNew map (entry :: rest) = insertAllNew (insertNew map entry.1 entry.2) rest := rfl

theorem insertAllNew_append (map : K → Option V) (first second : List (K × V)) :
    insertAllNew map (first ++ second) = insertAllNew (insertAllNew map first) second :=
  List.foldl_append

/-- A map after insertions: what it held, and the first entry of a new key. -/
theorem insertAllNew_apply [BEq K] [LawfulBEq K] (map : K → Option V) (entries : List (K × V))
    (key : K) :
    insertAllNew map entries key = (map key).or (entries.lookup key) := by
  induction entries generalizing map with
  | nil => simp
  | cons entry rest ih =>
    rw [insertAllNew_cons, ih]
    by_cases same : key = entry.1
    · subst same
      rw [insertNew_self, List.lookup_cons_self]
      cases map entry.1 <;> simp
    · rw [insertNew_of_ne same, List.lookup_cons, beq_eq_false_iff_ne.mpr same]

/-- Every entry of `before` is kept in `after`. -/
def Extends (before after : K → Option V) : Prop :=
  ∀ key value, before key = some value → after key = some value

omit [DecidableEq K] in
theorem Extends.refl (map : K → Option V) : Extends map map :=
  fun _ _ held => held

omit [DecidableEq K] in
theorem Extends.trans {first second third : K → Option V} (begins : Extends first second)
    (ends : Extends second third) : Extends first third :=
  fun key value held => ends key value (begins key value held)

theorem insertAllNew_extends (map : K → Option V) (entries : List (K × V)) :
    Extends map (insertAllNew map entries) := by
  intro key value held
  rw [insertAllNew_apply, held, Option.some_or]

theorem insertNew_extends (map : K → Option V) (key : K) (value : V) :
    Extends map (insertNew map key value) :=
  insertAllNew_extends map [(key, value)]

/-- What an insertion of entries adds comes from the entries. -/
theorem insertAllNew_eq_some {map : K → Option V} {entries : List (K × V)} {key : K} {value : V}
    (held : insertAllNew map entries key = some value) :
    map key = some value ∨ (map key = none ∧ (key, value) ∈ entries) := by
  rw [insertAllNew_apply] at held
  cases found : map key with
  | some kept =>
    rw [found, Option.some_or] at held
    exact Or.inl held
  | none =>
    rw [found, Option.none_or] at held
    obtain ⟨before, after, rfl, -⟩ := List.lookup_eq_some_iff.mp held
    exact Or.inr ⟨rfl, by simp⟩

/-- Entries under taken keys change nothing. -/
theorem insertAllNew_of_taken {map : K → Option V} {entries : List (K × V)}
    (taken : ∀ entry ∈ entries, (map entry.1).isSome) : insertAllNew map entries = map := by
  induction entries with
  | nil => rfl
  | cons entry rest ih =>
    obtain ⟨first, others⟩ := List.forall_mem_cons.mp taken
    rw [insertAllNew_cons, insertNew_of_isSome first, ih others]

omit [DecidableEq K] in
/-- Under distinct keys every entry is found. -/
theorem lookup_of_nodup [BEq K] [LawfulBEq K] {entries : List (K × V)}
    (distinct : (entries.map Prod.fst).Nodup) {entry : K × V} (member : entry ∈ entries) :
    entries.lookup entry.1 = some entry.2 := by
  induction entries with
  | nil => cases member
  | cons first rest ih =>
    obtain ⟨apart, nodup⟩ := List.nodup_cons.mp distinct
    rcases List.mem_cons.mp member with rfl | member
    · exact List.lookup_cons_self
    · have different : entry.1 ≠ first.1 :=
        fun same => apart (same ▸ List.mem_map_of_mem member)
      rw [List.lookup_cons, beq_eq_false_iff_ne.mpr different]
      exact ih nodup member

/-- Entries under new and distinct keys are all inserted. -/
theorem insertAllNew_of_new {map : K → Option V} {entries : List (K × V)}
    (missing : ∀ entry ∈ entries, map entry.1 = none) (distinct : (entries.map Prod.fst).Nodup) :
    ∀ entry ∈ entries, insertAllNew map entries entry.1 = some entry.2 := by
  intro entry member
  rw [insertAllNew_apply, missing entry member, Option.none_or, lookup_of_nodup distinct member]

/-- Entries leave the other keys alone. -/
theorem insertAllNew_of_ne {map : K → Option V} {entries : List (K × V)} {key : K}
    (others : ∀ entry ∈ entries, entry.1 ≠ key) : insertAllNew map entries key = map key := by
  induction entries generalizing map with
  | nil => rfl
  | cons entry rest ih =>
    obtain ⟨first, rest⟩ := List.forall_mem_cons.mp others
    rw [insertAllNew_cons, ih rest, insertNew_of_ne first.symm]

end Semcast.FirstWrite
