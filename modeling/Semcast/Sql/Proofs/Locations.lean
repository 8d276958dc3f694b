import Mathlib.Data.List.Induction
import Semcast.Sql.Head

/-!
# Locations and bytes

The tokenizer counts lines and columns in characters. `byte_offset` finds the byte at which
a location stands, for every place of a text: the line by the table of `line_offsets`, the
column by a walk along the characters.
-/

namespace Semcast.Head

open Utf8

/-- The location after one more character, as the tokenizer counts. -/
def Location.after (location : Location) (c : Char) : Location :=
  if c = '\n' then ⟨location.line + 1, 1⟩ else ⟨location.line, location.column + 1⟩

/-- The location of the place that these characters stand before. -/
def locate (before : List Char) : Location :=
  before.foldl Location.after ⟨1, 1⟩

theorem locate_concat (before : List Char) (c : Char) :
    locate (before ++ [c]) = (locate before).after c :=
  List.foldl_concat ..

/-! ## Lines -/

/-- The line starts that these bytes end in front of, from an offset on. -/
def lineEnds (start : Nat) (bytes : List UInt8) : List Nat :=
  (bytes.zipIdx start).filterMap fun place =>
    if place.1 = byte '\n' then some (place.2 + 1) else none

theorem lineEnds_append (start : Nat) (bytes later : List UInt8) :
    lineEnds start (bytes ++ later) =
      lineEnds start bytes ++ lineEnds (start + bytes.length) later := by
  rw [lineEnds, List.zipIdx_append, List.filterMap_append]
  rfl

theorem newline_ascii : '\n'.toNat < 128 := by
  decide

theorem lineEnds_char (start : Nat) (c : Char) :
    lineEnds start (String.utf8EncodeChar c) = if c = '\n' then [start + 1] else [] := by
  by_cases newline : c = '\n'
  · rw [if_pos newline, newline, encodeChar_of_ascii newline_ascii]
    simp [lineEnds]
  · rw [if_neg newline, lineEnds, List.filterMap_eq_nil_iff]
    intro place member
    have within : place.1 ∈ String.utf8EncodeChar c := (List.mem_zipIdx member).2.2 ▸
      List.getElem_mem _
    rw [if_neg (ne_byte newline_ascii newline within)]

/-- The table of a text, with one more character. -/
theorem lineOffsets_concat (text : List Char) (c : Char) :
    lineOffsets (text ++ [c]) =
      lineOffsets text ++ if c = '\n' then [size (text ++ [c])] else [] := by
  show 0 :: lineEnds 0 (encode (text ++ [c])) = 0 :: lineEnds 0 (encode text) ++ _
  rw [encode_append, lineEnds_append, encode_cons, encode_nil, List.append_nil, lineEnds_char,
    Nat.zero_add, List.cons_append]
  by_cases newline : c = '\n'
  · rw [if_pos newline, if_pos newline, size_append, newline, size_cons, size_of_ascii newline_ascii]
    rfl
  · rw [if_neg newline, if_neg newline]

theorem lineOffsets_prefix (text later : List Char) :
    lineOffsets text <+: lineOffsets (text ++ later) := by
  show 0 :: lineEnds 0 (encode text) <+: 0 :: lineEnds 0 (encode (text ++ later))
  rw [encode_append, lineEnds_append]
  exact List.prefix_append (0 :: lineEnds 0 (encode text)) _

/-- The last line of a text: what stands before it, and its characters, with the table. -/
theorem exists_last_line (text : List Char) :
    ∃ before last, text = before ++ last ∧ (locate text).column = last.length + 1 ∧
      (lineOffsets text).length = (locate text).line ∧
      (lineOffsets text)[(locate text).line - 1]? = some (size before) := by
  induction text using List.reverseRecOn with
  | nil => exact ⟨[], [], rfl, rfl, rfl, rfl⟩
  | append_singleton text c ih =>
    obtain ⟨before, last, whole, column, lines, start⟩ := ih
    rw [locate_concat, lineOffsets_concat]
    unfold Location.after
    by_cases newline : c = '\n'
    · refine ⟨text ++ [c], [], (List.append_nil _).symm, ?_, ?_, ?_⟩
      · rw [if_pos newline]
        rfl
      · rw [if_pos newline, if_pos newline, List.length_append, lines, List.length_singleton]
      · rw [if_pos newline, if_pos newline]
        show (lineOffsets text ++ [size (text ++ [c])])[(locate text).line]? = _
        rw [← lines, List.getElem?_concat_length]
    · refine ⟨before, last ++ [c], ?_, ?_, ?_, ?_⟩
      · rw [whole, List.append_assoc]
      · rw [if_neg newline, List.length_append, List.length_singleton]
        show (locate text).column + 1 = _
        rw [column]
      · rw [if_neg newline, if_neg newline, List.append_nil]
        exact lines
      · rw [if_neg newline, if_neg newline, List.append_nil]
        exact start

/-! ## Columns -/

theorem charIndices_append (start : Nat) (text later : List Char) :
    charIndices start (text ++ later) =
      charIndices start text ++ charIndices (start + size text) later := by
  induction text generalizing start with
  | nil => rfl
  | cons c text ih =>
    rw [List.cons_append, charIndices, charIndices, List.cons_append, ih, size_cons, Nat.add_assoc]

theorem length_charIndices (start : Nat) (text : List Char) :
    (charIndices start text).length = text.length := by
  induction text generalizing start with
  | nil => rfl
  | cons c text ih => rw [charIndices, List.length_cons, List.length_cons, ih]

/-- The character after some, if there is one. -/
theorem getElem?_charIndices (text later : List Char) :
    (charIndices 0 (text ++ later))[text.length]? = later.head?.map (size text, ·) := by
  rw [charIndices_append, List.getElem?_append_right (Nat.le_of_eq (length_charIndices 0 text)),
    length_charIndices, Nat.sub_self, Nat.zero_add]
  cases later <;> rfl

/-- The offset in a line that there is. -/
theorem byteOffset_of_line {sql rest : List Char} {offsets : List Nat} {line column start : Nat}
    (line_pos : 1 ≤ line) (column_pos : 1 ≤ column) (found : offsets[line - 1]? = some start)
    (slice : getFrom sql start = some rest) :
    byteOffset sql offsets line column =
      some (((charIndices 0 rest)[column - 1]?).elim (size sql) fun place => start + place.1) := by
  unfold byteOffset checkedSub
  rw [if_pos line_pos, if_pos column_pos]
  simp only [Option.bind_eq_bind, Option.bind_some, found, slice]
  cases (charIndices 0 rest)[column - 1]? <;> rfl

/-- The byte offset of a location is that of the place it is the location of. -/
theorem byteOffset_locate (before later : List Char) :
    byteOffset (before ++ later) (lineOffsets (before ++ later)) (locate before).line
      (locate before).column = some (size before) := by
  obtain ⟨lines, last, whole, column, count, start⟩ := exists_last_line before
  have line_pos : 1 ≤ (locate before).line := by
    rw [← count]
    exact Nat.succ_le_of_lt (Nat.succ_pos _)
  have found : (lineOffsets (before ++ later))[(locate before).line - 1]? = some (size lines) := by
    rcases lineOffsets_prefix before later with ⟨rest, table⟩
    rw [← table, List.getElem?_append_left (by omega), start]
  have slice : getFrom (before ++ later) (size lines) = some (last ++ later) := by
    rw [whole, List.append_assoc, getFrom_append]
  rw [column, byteOffset_of_line line_pos (Nat.le_add_left 1 _) found slice, Nat.add_sub_cancel,
    getElem?_charIndices]
  cases later with
  | nil =>
    rw [List.append_nil]
    rfl
  | cons c later =>
    show some (size lines + size last) = _
    rw [whole, size_append]

end Semcast.Head
