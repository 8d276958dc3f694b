import Mathlib.Data.List.Basic
import Mathlib.Data.List.Nodup

/-!
# Rows with named fields

A row of values is read by a reference to one of its fields, and the first field that
the reference fits is the one read. Fields appended at the end never change what was
read before, and where no field is taken for another, a row is its fields read one by
one.
-/

namespace Semcast.NamedRow

variable {R α : Type*} (refers : R → R → Bool)

/-- The value of the first field that `reference` fits. -/
def read (fields : List R) (row : List α) (reference : R) : Option α :=
  ((fields.zip row).find? fun entry => refers reference entry.1).map Prod.snd

/-- No field is taken for another. -/
def Apart (fields : List R) : Prop :=
  fields.Pairwise fun left right => refers left right = false ∧ refers right left = false

instance (fields : List R) : Decidable (Apart refers fields) :=
  inferInstanceAs (Decidable (fields.Pairwise _))

variable {refers} {fields added : List R} {row values : List α} {reference : R}

theorem read_cons (field : R) (value : α) :
    read refers (field :: fields) (value :: row) reference =
      if refers reference field then some value else read refers fields row reference := by
  unfold read
  rw [List.zip_cons_cons, List.find?_cons]
  cases refers reference field <;> rfl

theorem read_append_of_refers (same : row.length = fields.length)
    (found : ∃ field ∈ fields, refers reference field = true) :
    read refers (fields ++ added) (row ++ values) reference = read refers fields row reference := by
  induction fields generalizing row with
  | nil =>
    obtain ⟨field, member, -⟩ := found
    cases member
  | cons field rest ih =>
    cases row with
    | nil => cases same
    | cons value row =>
      rw [List.cons_append, List.cons_append, read_cons, read_cons]
      by_cases here : refers reference field = true
      · rw [if_pos here, if_pos here]
      · rw [if_neg here, if_neg here]
        apply ih (Nat.succ.inj same)
        obtain ⟨other, member, fits⟩ := found
        rcases List.mem_cons.mp member with rfl | later
        · exact absurd fits here
        · exact ⟨other, later, fits⟩

/-- A field that nothing before it is taken for is the one its own name reads. -/
theorem read_getElem (own : ∀ field, refers field field = true) (apart : Apart refers fields)
    (same : row.length = fields.length) {index : ℕ} (at_ : fields[index]? = some reference) :
    read refers fields row reference = row[index]? := by
  induction fields generalizing row index with
  | nil => simp at at_
  | cons field rest ih =>
    cases row with
    | nil => cases same
    | cons value row =>
      obtain ⟨others, apart⟩ := List.pairwise_cons.mp apart
      rw [read_cons]
      cases index with
      | zero =>
        cases at_
        rw [if_pos (own _)]
        rfl
      | succ index =>
        rw [List.getElem?_cons_succ] at at_ ⊢
        rw [(others reference (List.mem_of_getElem? at_)).2, if_neg (by simp)]
        exact ih apart (Nat.succ.inj same) at_

/-- A field's own name reads what stands with it. -/
theorem read_of_mem_zip (own : ∀ field, refers field field = true) (apart : Apart refers fields)
    (same : row.length = fields.length) {value : α} (member : (reference, value) ∈ fields.zip row) :
    read refers fields row reference = some value := by
  obtain ⟨index, at_⟩ := List.mem_iff_getElem?.mp member
  obtain ⟨at_field, at_value⟩ := List.getElem?_zip_eq_some.mp at_
  rw [read_getElem own apart same at_field, at_value]

/-- Reading the fields one by one gives the row back. -/
theorem map_read_eq (own : ∀ field, refers field field = true) (apart : Apart refers fields)
    (same : row.length = fields.length) : fields.map (read refers fields row) = row.map some := by
  apply List.ext_getElem?
  intro index
  rw [List.getElem?_map, List.getElem?_map]
  cases at_ : fields[index]? with
  | none =>
    rw [List.getElem?_eq_none_iff, ← same, ← List.getElem?_eq_none_iff] at at_
    rw [at_]
    rfl
  | some field =>
    have within : index < row.length := same ▸ (List.getElem?_eq_some_iff.mp at_).1
    rw [Option.map_some, read_getElem own apart same at_, List.getElem?_eq_getElem within]
    rfl

/-- Rows that are extended, filtered by what they were extended with and cut back. -/
theorem map_filter_map_eq {β : Type*} {rows : List α} {extend : α → β} {drop : β → α}
    {keep : β → Bool} {test : α → Bool} (kept : ∀ row ∈ rows, keep (extend row) = test row)
    (back : ∀ row ∈ rows, drop (extend row) = row) :
    ((rows.map extend).filter keep).map drop = rows.filter test := by
  induction rows with
  | nil => rfl
  | cons row rest ih =>
    rw [List.forall_mem_cons] at kept back
    rw [List.map_cons, List.filter_cons, List.filter_cons, kept.1]
    by_cases holds : test row = true
    · rw [if_pos holds, if_pos holds, List.map_cons, back.1, ih kept.2 back.2]
    · rw [if_neg holds, if_neg holds, ih kept.2 back.2]

end Semcast.NamedRow
