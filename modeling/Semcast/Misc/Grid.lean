import Mathlib.Data.List.Basic
import Mathlib.Logic.Function.Basic

/-!
# Columns filled cell by cell

The columns of a table by their names, with a cell for each row that stays empty until it
is written. Writes may come in any order: a column ends up as a function of its rows
wherever the writes say for each row what that function does.
-/

namespace Semcast.Grid

/-- A cell for each row. -/
abbrev Column (V : Type*) := List (Option V)

/-- The columns that there are. -/
abbrev Columns (K V : Type*) := K → Option (Column V)

/-- A cell and what goes into it. -/
structure Write (K V : Type*) where
  row : Nat
  name : K
  value : V

variable {K V : Type*} [DecidableEq K]

/-- Write a cell of a column that is there. -/
def write (columns : Columns K V) (write : Write K V) : Columns K V :=
  Function.update columns write.name
    ((columns write.name).map (·.set write.row (some write.value)))

/-- Write one cell after the other. -/
def writeAll (columns : Columns K V) (writes : List (Write K V)) : Columns K V :=
  writes.foldl write columns

@[simp] theorem writeAll_nil (columns : Columns K V) : writeAll columns [] = columns := rfl

@[simp] theorem writeAll_cons (columns : Columns K V) (first : Write K V)
    (rest : List (Write K V)) :
    writeAll columns (first :: rest) = writeAll (write columns first) rest := rfl

theorem writeAll_append (columns : Columns K V) (first second : List (Write K V)) :
    writeAll columns (first ++ second) = writeAll (writeAll columns first) second :=
  List.foldl_append

/-- What a write makes of a column. -/
def put (name : K) (column : Column V) (write : Write K V) : Column V :=
  if write.name = name then column.set write.row (some write.value) else column

theorem write_apply {columns : Columns K V} {name : K} {column : Column V}
    (there : columns name = some column) (cell : Write K V) :
    write columns cell name = some (put name column cell) := by
  unfold write put
  by_cases same : cell.name = name
  · subst same
    rw [Function.update_self, there, Option.map_some, if_pos rfl]
  · rw [Function.update_of_ne (Ne.symm same), there, if_neg same]

theorem writeAll_apply {columns : Columns K V} {name : K} {column : Column V}
    (there : columns name = some column) (writes : List (Write K V)) :
    writeAll columns writes name = some (writes.foldl (put name) column) := by
  induction writes generalizing columns column with
  | nil => exact there
  | cons first rest ih => exact ih (write_apply there first)

@[simp] theorem length_put (name : K) (column : Column V) (write : Write K V) :
    (put name column write).length = column.length := by
  unfold put
  split
  · exact List.length_set
  · rfl

@[simp] theorem length_foldl_put (name : K) (column : Column V) (writes : List (Write K V)) :
    (writes.foldl (put name) column).length = column.length := by
  induction writes generalizing column with
  | nil => rfl
  | cons first rest ih => rw [List.foldl_cons, ih, length_put]

/-- A cell that no write is for stays as it is. -/
theorem getElem?_of_unwritten {name : K} {row : Nat} {writes : List (Write K V)}
    (apart : ∀ write ∈ writes, write.name = name → write.row ≠ row) (column : Column V) :
    (writes.foldl (put name) column)[row]? = column[row]? := by
  induction writes generalizing column with
  | nil => rfl
  | cons first rest ih =>
    obtain ⟨here, others⟩ := List.forall_mem_cons.mp apart
    rw [List.foldl_cons, ih others, put]
    split
    · rename_i same
      exact List.getElem?_set_ne (here same)
    · rfl

/-- A cell that is written holds what every write for it says. -/
theorem getElem?_of_written {writes : List (Write K V)} {cell : Write K V} (member : cell ∈ writes)
    (agree : ∀ write ∈ writes, write.name = cell.name → write.row = cell.row →
      write.value = cell.value)
    {column : Column V} (within : cell.row < column.length) :
    (writes.foldl (put cell.name) column)[cell.row]? = some (some cell.value) := by
  induction writes generalizing column with
  | nil => cases member
  | cons first rest ih =>
    obtain ⟨here, others⟩ := List.forall_mem_cons.mp agree
    rw [List.foldl_cons]
    by_cases later : ∃ write ∈ rest, write.name = cell.name ∧ write.row = cell.row
    · obtain ⟨write, inside, named, placed⟩ := later
      obtain ⟨row, name, value⟩ := cell
      obtain ⟨row', name', value'⟩ := write
      obtain rfl : name' = name := named
      obtain rfl : row' = row := placed
      obtain rfl : value' = value := others _ inside rfl rfl
      exact ih inside others (by rwa [length_put])
    · have first_is : cell = first := by
        rcases List.mem_cons.mp member with same | inside
        · exact same
        · exact absurd ⟨cell, inside, rfl, rfl⟩ later
      rw [getElem?_of_unwritten fun write inside named placed =>
        later ⟨write, inside, named, placed⟩]
      rw [put, ← first_is, if_pos rfl, List.getElem?_set_self within]

/-- An empty column ends up as the function of its rows that the writes for it are. -/
theorem writeAll_empty {columns : Columns K V} {name : K} {rows : Nat}
    (empty : columns name = some (.replicate rows none)) {writes : List (Write K V)}
    {cell : Nat → Option V}
    (written : ∀ row < rows, ∀ value, cell row = some value ↔ ⟨row, name, value⟩ ∈ writes) :
    writeAll columns writes name = some ((List.range rows).map cell) := by
  rw [writeAll_apply empty, Option.some.injEq]
  refine List.ext_getElem? fun row => ?_
  by_cases within : row < rows
  · rw [List.getElem?_map, List.getElem?_range within, Option.map_some]
    cases holds : cell row with
    | some value =>
      have holding := getElem?_of_written ((written row within value).mp holds)
      refine holding ?_ (by simpa using within)
      rintro ⟨row', name', value'⟩ inside rfl rfl
      have other := (written _ within value').mpr inside
      rw [holds] at other
      exact (Option.some.inj other).symm
    | none =>
      rw [getElem?_of_unwritten, List.getElem?_replicate_of_lt within]
      rintro ⟨row', name', value'⟩ inside rfl rfl
      have other := (written _ within value').mpr inside
      rw [holds] at other
      cases other
  · have beyond : rows ≤ row := Nat.le_of_not_lt within
    rw [List.getElem?_eq_none (by simpa using beyond),
      List.getElem?_eq_none (by simpa using beyond)]

end Semcast.Grid
