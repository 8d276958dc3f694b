import Mathlib.Data.List.Basic
import Mathlib.Tactic.TypeStar

/-!
# Texts as bytes

A text is a list of characters, and its bytes are their UTF-8 encodings one after another.
A byte offset into a text is a boundary of its characters or lies inside one; slices are
taken at boundaries only. An ASCII byte is never part of another character.
-/

namespace Semcast.Utf8

/-- The bytes of a text. -/
def encode (text : List Char) : List UInt8 :=
  text.flatMap String.utf8EncodeChar

/-- The number of bytes of a text. -/
def size (text : List Char) : Nat :=
  (encode text).length

@[simp] theorem encode_nil : encode [] = [] := rfl

@[simp] theorem encode_cons (c : Char) (text : List Char) :
    encode (c :: text) = String.utf8EncodeChar c ++ encode text := rfl

@[simp] theorem encode_append (text later : List Char) :
    encode (text ++ later) = encode text ++ encode later := List.flatMap_append

@[simp] theorem size_nil : size [] = 0 := rfl

@[simp] theorem size_cons (c : Char) (text : List Char) :
    size (c :: text) = c.utf8Size + size text := by
  rw [size, encode_cons, List.length_append, String.length_utf8EncodeChar, size]

@[simp] theorem size_append (text later : List Char) :
    size (text ++ later) = size text + size later := by
  rw [size, encode_append, List.length_append, size, size]

/-! ## ASCII -/

/-- The byte of an ASCII character. -/
def byte (c : Char) : UInt8 :=
  UInt8.ofNat c.toNat

theorem encodeChar_of_ascii {c : Char} (ascii : c.toNat < 128) :
    String.utf8EncodeChar c = [byte c] :=
  if_pos (Nat.le_of_lt_succ ascii)

theorem size_of_ascii {c : Char} (ascii : c.toNat < 128) : c.utf8Size = 1 := by
  rw [← String.length_utf8EncodeChar, encodeChar_of_ascii ascii, List.length_singleton]

/-- The bytes of any other character are not ASCII. -/
theorem le_of_mem_encodeChar {c : Char} (other : 128 ≤ c.toNat) {b : UInt8}
    (member : b ∈ String.utf8EncodeChar c) : 128 ≤ b.toNat := by
  have beyond : ¬c.val.toNat ≤ 127 := Nat.not_le_of_lt other
  unfold String.utf8EncodeChar at member
  dsimp only at member
  rw [if_neg beyond] at member
  split at member
  · simp only [List.mem_cons, List.not_mem_nil, or_false] at member
    rcases member with rfl | rfl <;> simp only [UInt8.toNat_ofNat'] <;> omega
  · split at member
    · simp only [List.mem_cons, List.not_mem_nil, or_false] at member
      rcases member with rfl | rfl | rfl <;> simp only [UInt8.toNat_ofNat'] <;> omega
    · simp only [List.mem_cons, List.not_mem_nil, or_false] at member
      rcases member with rfl | rfl | rfl | rfl <;> simp only [UInt8.toNat_ofNat'] <;> omega

theorem toNat_byte {c : Char} (ascii : c.toNat < 128) : (byte c).toNat = c.toNat := by
  rw [byte, UInt8.toNat_ofNat']
  omega

/-- An ASCII byte of a character is the whole of it. -/
theorem eq_of_byte_mem {c d : Char} (ascii : d.toNat < 128)
    (member : byte d ∈ String.utf8EncodeChar c) : c = d := by
  by_cases other : 128 ≤ c.toNat
  · have large := le_of_mem_encodeChar other member
    rw [toNat_byte ascii] at large
    omega
  · rw [encodeChar_of_ascii (Nat.lt_of_not_le other), List.mem_singleton] at member
    have same := congrArg UInt8.toNat member
    rw [toNat_byte ascii, toNat_byte (Nat.lt_of_not_le other)] at same
    exact Char.toNat_inj.mp same.symm

theorem byte_inj {c d : Char} (ascii : c.toNat < 128) (ascii' : d.toNat < 128) :
    byte c = byte d ↔ c = d := by
  constructor
  · intro same
    apply eq_of_byte_mem ascii'
    rw [encodeChar_of_ascii ascii, same]
    exact List.mem_cons_self
  · exact congrArg byte

/-- No byte of a character is the byte of another one that is ASCII. -/
theorem ne_byte {c d : Char} (ascii : d.toNat < 128) (other : c ≠ d) {b : UInt8}
    (member : b ∈ String.utf8EncodeChar c) : b ≠ byte d := by
  rintro rfl
  exact other (eq_of_byte_mem ascii member)

theorem head?_encode_eq_iff {d : Char} (ascii : d.toNat < 128) (text : List Char) :
    (encode text).head? = some (byte d) ↔ text.head? = some d := by
  cases text with
  | nil => simp
  | cons c rest =>
    have nonempty : String.utf8EncodeChar c ≠ [] := String.utf8EncodeChar_ne_nil
    rw [encode_cons, List.head?_append_of_ne_nil _ nonempty, List.head?_cons, Option.some.injEq]
    constructor
    · intro first
      exact eq_of_byte_mem ascii (List.mem_of_head? first)
    · rintro rfl
      rw [encodeChar_of_ascii ascii, List.head?_cons]

/-- The bytes up to an ASCII byte are those of the characters up to its character. -/
theorem takeWhile_encode {d : Char} (ascii : d.toNat < 128) (text : List Char) :
    (encode text).takeWhile (· ≠ byte d) = encode (text.takeWhile (· ≠ d)) := by
  induction text with
  | nil => rfl
  | cons c text ih =>
    by_cases same : c = d
    · rw [same, encode_cons, encodeChar_of_ascii ascii]
      simp
    · have other : ∀ b ∈ String.utf8EncodeChar c, decide (b ≠ byte d) = true :=
        fun b member => decide_eq_true (ne_byte ascii same member)
      rw [encode_cons, List.takeWhile_append_of_pos other, ih, List.takeWhile_cons,
        if_pos (decide_eq_true same), encode_cons]

theorem drop_encode (before text : List Char) :
    (encode (before ++ text)).drop (size before) = encode text := by
  rw [encode_append, size, List.drop_left]

theorem getElem?_encode (before text : List Char) :
    (encode (before ++ text))[size before]? = (encode text).head? := by
  rw [← drop_encode before text, List.head?_drop]

/-! ## Slices -/

/-- `str::get(offset..)`: nothing inside a character or past the end. -/
def getFrom : List Char → Nat → Option (List Char)
  | text, 0 => some text
  | [], _ + 1 => none
  | c :: text, offset + 1 =>
    if c.utf8Size ≤ offset + 1 then getFrom text (offset + 1 - c.utf8Size) else none

/-- `str::get(..offset)`. -/
def getTo : List Char → Nat → Option (List Char)
  | _, 0 => some []
  | [], _ + 1 => none
  | c :: text, offset + 1 =>
    if c.utf8Size ≤ offset + 1 then (getTo text (offset + 1 - c.utf8Size)).map (c :: ·)
    else none

/-- `str::get(start..stop)`. -/
def get (text : List Char) (start stop : Nat) : Option (List Char) :=
  if start ≤ stop then (getFrom text start).bind (getTo · (stop - start)) else none

/-- The first character of a text ends before the text does. -/
theorem size_cons_eq_succ (c : Char) (text : List Char) :
    ∃ offset, size (c :: text) = offset + 1 ∧ c.utf8Size ≤ offset + 1 ∧
      offset + 1 - c.utf8Size = size text := by
  have pos := c.utf8Size_pos
  refine ⟨size (c :: text) - 1, ?_⟩
  rw [size_cons]
  omega

theorem getFrom_append (text later : List Char) :
    getFrom (text ++ later) (size text) = some later := by
  induction text with
  | nil => cases later <;> rfl
  | cons c text ih =>
    obtain ⟨offset, total, fits, rest⟩ := size_cons_eq_succ c text
    rw [total, List.cons_append, getFrom, if_pos fits, rest, ih]

theorem getTo_append (text later : List Char) : getTo (text ++ later) (size text) = some text := by
  induction text with
  | nil => cases later <;> rfl
  | cons c text ih =>
    obtain ⟨offset, total, fits, rest⟩ := size_cons_eq_succ c text
    rw [total, List.cons_append, getTo, if_pos fits, rest, ih, Option.map_some]

/-- A slice between two boundaries. -/
theorem get_append (before text later : List Char) :
    get (before ++ text ++ later) (size before) (size (before ++ text)) = some text := by
  have ordered : size before ≤ size (before ++ text) := by
    rw [size_append]
    omega
  have width : size (before ++ text) - size before = size text := by
    rw [size_append]
    omega
  rw [get, if_pos ordered, List.append_assoc, getFrom_append, Option.bind_some, width, getTo_append]

end Semcast.Utf8
