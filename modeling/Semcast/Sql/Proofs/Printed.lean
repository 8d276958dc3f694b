import Semcast.Misc.Delimited
import Semcast.Sql.Proofs.Accepted

/-!
# Field types in print

Two types of the grammar print the same text exactly when they are alike: they are
equal but for variants that contain the comma that joins them, and for the bits of
a NaN.
-/

namespace Semcast.Ddl

open Semcast.Types Json Delimited

variable {F : Type}

/-- What is documented of `Display` and `parse` of `f64`. NaN alone is not `<=` itself. -/
structure PrintedFloats (floats : Floats F) (parseF64 : String → Option F) : Prop where
  parses : ∀ x, floats.le x x = true → parseF64 (floats.display x) = some x
  nan : ∀ x, floats.le x x = false → floats.display x = "NaN"
  parsesNan : ∀ x, parseF64 "NaN" = some x → floats.le x x = false
  /-- No digits, sign or fraction ends in a point, nor holds two in a row. -/
  noRange : ∀ x, ¬ ['.', '.'] <:+: (floats.display x).toList ++ ['.']

/-- Bounds that are equal, or both NaN. -/
def AlikeBound (floats : Floats F) (x y : F) : Prop :=
  x = y ∨ floats.le x x = false ∧ floats.le y y = false

/-- Types that differ at most in the bits of NaN bounds, and in variants that make
the same text once joined with commas. -/
def Alike (floats : Floats F) : FieldType F → FieldType F → Prop
  | .realBounded min max, .realBounded min' max' =>
    AlikeBound floats min min' ∧ AlikeBound floats max max'
  | .oneOf variants, .oneOf variants' => ",".intercalate variants = ",".intercalate variants'
  | .level variants, .level variants' => ",".intercalate variants = ",".intercalate variants'
  | .list inner, .list inner' => Alike floats inner inner'
  | ty, ty' => ty = ty'

variable {floats : Floats F} {parseF64 : String → Option F}

theorem Alike.refl (ty : FieldType F) : Alike floats ty ty := by
  induction ty with
  | realBounded min max => exact ⟨Or.inl rfl, Or.inl rfl⟩
  | list inner ih => exact ih
  | text | int | real | bool | oneOf | level | nested => rfl

theorem PrintedFloats.display_eq_iff (printed : PrintedFloats floats parseF64) {x y : F} :
    floats.display x = floats.display y ↔ AlikeBound floats x y := by
  constructor
  · intro same
    cases number : floats.le x x with
    | true =>
      have parsed := printed.parses x number
      cases number' : floats.le y y with
      | true =>
        rw [same, printed.parses y number', Option.some.injEq] at parsed
        exact Or.inl parsed.symm
      | false =>
        rw [same, printed.nan y number'] at parsed
        rw [printed.parsesNan x parsed] at number
        cases number
    | false =>
      cases number' : floats.le y y with
      | true =>
        have parsed := printed.parses y number'
        rw [← same, printed.nan x number] at parsed
        rw [printed.parsesNan y parsed] at number'
        cases number'
      | false => exact Or.inr ⟨number, number'⟩
  · rintro (rfl | ⟨nan, nan'⟩)
    · rfl
    · rw [printed.nan x nan, printed.nan y nan']

/-- No `..` starts inside a text that a `..` follows, unless it is in the text or
across its last point. -/
theorem range_start {middle hi hi' : List Char} (free : ¬ ['.', '.'] <:+: middle ++ ['.'])
    (same : '.' :: '.' :: hi = middle ++ '.' :: '.' :: hi') : middle = [] := by
  match middle with
  | [] => rfl
  | [c] =>
    obtain ⟨rfl, -⟩ := List.cons.inj same
    exact absurd (List.infix_refl _) free
  | c :: d :: rest =>
    obtain ⟨rfl, tails⟩ := List.cons.inj same
    obtain ⟨rfl, -⟩ := List.cons.inj tails
    exact absurd ⟨[], rest ++ ['.'], by simp⟩ free

/-- The first `..` ends the lower bound. -/
theorem range_inj {lo lo' hi hi' : List Char} (free : ¬ ['.', '.'] <:+: lo ++ ['.'])
    (free' : ¬ ['.', '.'] <:+: lo' ++ ['.'])
    (same : lo ++ '.' :: '.' :: hi = lo' ++ '.' :: '.' :: hi') : lo = lo' ∧ hi = hi' := by
  rcases List.append_eq_append_iff.mp same with ⟨middle, rfl, rest⟩ | ⟨middle, rfl, rest⟩
  · have shorter : ¬ ['.', '.'] <:+: middle ++ ['.'] := by
      intro inside
      apply free'
      rw [List.append_assoc]
      exact inside.trans (List.suffix_append lo _).isInfix
    cases range_start shorter rest
    simpa using rest
  · have shorter : ¬ ['.', '.'] <:+: middle ++ ['.'] := by
      intro inside
      apply free
      rw [List.append_assoc]
      exact inside.trans (List.suffix_append lo' _).isInfix
    cases range_start shorter rest
    simpa using rest.symm

/-- Bounds print alike exactly when they are. -/
theorem display_realBounded_iff (printed : PrintedFloats floats parseF64) {min min' max max' : F} :
    (FieldType.realBounded min max).display floats = (FieldType.realBounded min' max').display floats
      ↔ AlikeBound floats min min' ∧ AlikeBound floats max max' := by
  rw [← printed.display_eq_iff, ← printed.display_eq_iff]
  constructor
  · intro same
    have characters := congrArg String.toList same
    simp only [FieldType.display, String.toList_append, List.append_assoc] at characters
    have ranges := List.append_cancel_left characters
    obtain ⟨mins, rest⟩ := range_inj (printed.noRange min) (printed.noRange min') ranges
    exact ⟨String.toList_inj.mp mins, String.toList_inj.mp (List.append_cancel_right rest)⟩
  · rintro ⟨mins, maxs⟩
    rw [FieldType.display, FieldType.display, mins, maxs]

/-- No base type prints like a list. -/
theorem IsBase.display_ne_list {base inner : FieldType F} (is : IsBase base) :
    base.display floats ≠ (FieldType.list inner).display floats := by
  intro same
  have reversed := congrArg (fun text => text.toList.reverse) same
  cases base with
  | list | nested => exact is
  | text | int | real | realBounded | bool | oneOf | level =>
    simp [FieldType.display, String.toList_append] at reversed

/-- Base types print alike exactly when they are. -/
theorem IsBase.display_eq_iff (printed : PrintedFloats floats parseF64) {base base' : FieldType F}
    (is : IsBase base) (is' : IsBase base') :
    base.display floats = base'.display floats ↔ Alike floats base base' := by
  cases base with
  | list | nested => exact is.elim
  | realBounded min max =>
    cases base' with
    | list | nested => exact is'.elim
    | realBounded min' max' => exact display_realBounded_iff printed
    | text | int | real | bool | oneOf | level =>
      simp [FieldType.display, Alike, ← String.toList_inj, String.toList_append]
  | text | int | real | bool | oneOf | level =>
    cases base' with
    | list | nested => exact is'.elim
    | text | int | real | realBounded | bool | oneOf | level =>
      simp [FieldType.display, Alike, ← String.toList_inj, String.toList_append]

theorem IsBase.not_alike_list {base inner : FieldType F} (is : IsBase base) :
    ¬ Alike floats base (.list inner) ∧ ¬ Alike floats (.list inner) base := by
  cases base with
  | list | nested => exact is.elim
  | text | int | real | realBounded | bool | oneOf | level => simp [Alike]

/-- Types of the grammar print alike exactly when they are. -/
theorem display_eq_iff (printed : PrintedFloats floats parseF64) {ty ty' : FieldType F}
    (is : IsFieldType ty) (is' : IsFieldType ty') :
    ty.display floats = ty'.display floats ↔ Alike floats ty ty' := by
  rcases is.base_or_list with base | ⟨inner, rfl, base⟩
  · rcases is'.base_or_list with base' | ⟨inner', rfl, base'⟩
    · exact base.display_eq_iff printed base'
    · exact iff_of_false base.display_ne_list base.not_alike_list.1
  · rcases is'.base_or_list with base' | ⟨inner', rfl, base'⟩
    · exact iff_of_false base'.display_ne_list.symm base'.not_alike_list.2
    · rw [Alike, ← base.display_eq_iff printed base']
      constructor
      · intro same
        have characters := congrArg String.toList same
        simp only [FieldType.display, String.toList_append] at characters
        exact String.toList_inj.mp (List.append_cancel_right characters)
      · intro same
        rw [FieldType.display, FieldType.display, same]

/-- Variants without commas are told apart once joined. -/
theorem variants_inj {variants variants' : List String} (nonempty : variants ≠ [])
    (nonempty' : variants' ≠ []) (free : ∀ variant ∈ variants, ',' ∉ variant.toList)
    (free' : ∀ variant ∈ variants', ',' ∉ variant.toList)
    (same : ",".intercalate variants = ",".intercalate variants') : variants = variants' := by
  have characters := congrArg String.toList same
  rw [String.toList_intercalate, String.toList_intercalate] at characters
  have lists : variants.map String.toList = variants'.map String.toList := by
    apply intercalate_inj (by simpa using nonempty) (by simpa using nonempty') _ _ characters
    · exact List.forall_mem_map.mpr free
    · exact List.forall_mem_map.mpr free'
  exact List.map_injective_iff.mpr (fun _ _ => String.toList_inj.mp) lists

/-- Types with no comma in a variant, and no NaN for a bound. -/
def Plain (floats : Floats F) : FieldType F → Prop
  | .realBounded min max => floats.le min min = true ∧ floats.le max max = true
  | .oneOf variants | .level variants => ∀ variant ∈ variants, ',' ∉ variant.toList
  | .list inner => Plain floats inner
  | _ => True

theorem AlikeBound.eq {x y : F} (number : floats.le x x = true) (alike : AlikeBound floats x y) :
    x = y := by
  rcases alike with same | ⟨nan, -⟩
  · exact same
  · rw [number] at nan
    cases nan

theorem IsBase.eq_of_alike {base base' : FieldType F} (is : IsBase base) (is' : IsBase base')
    (plain : Plain floats base) (plain' : Plain floats base') (alike : Alike floats base base') :
    base = base' := by
  cases base with
  | list | nested => exact is.elim
  | realBounded min max =>
    cases base' with
    | realBounded min' max' => rw [alike.1.eq plain.1, alike.2.eq plain.2]
    | text | int | real | bool | oneOf | level | list | nested => exact alike
  | oneOf variants =>
    cases base' with
    | oneOf variants' => rw [variants_inj is.1 is'.1 plain plain' alike]
    | text | int | real | realBounded | bool | level | list | nested => exact alike
  | level variants =>
    cases base' with
    | level variants' => rw [variants_inj is.1 is'.1 plain plain' alike]
    | text | int | real | realBounded | bool | oneOf | list | nested => exact alike
  | text | int | real | bool => exact alike

/-- Plain types that are alike are equal. -/
theorem IsFieldType.eq_of_alike {ty ty' : FieldType F} (is : IsFieldType ty)
    (is' : IsFieldType ty') (plain : Plain floats ty) (plain' : Plain floats ty')
    (alike : Alike floats ty ty') : ty = ty' := by
  rcases is.base_or_list with base | ⟨inner, rfl, base⟩
  · rcases is'.base_or_list with base' | ⟨inner', rfl, base'⟩
    · exact base.eq_of_alike base' plain plain' alike
    · exact absurd alike base.not_alike_list.1
  · rcases is'.base_or_list with base' | ⟨inner', rfl, base'⟩
    · exact absurd alike base'.not_alike_list.2
    · rw [base.eq_of_alike base' plain plain' alike]

end Semcast.Ddl
