import Mathlib.Data.List.Nodup
import Semcast.Sql.Ddl
import Semcast.Types.Proofs.Units

/-!
# What the type grammar accepts

Every type that `parse_create_type` returns lists its fields unit by unit under
distinct names, and every field type is a base type or a list of one, its variants
distinct.
-/

namespace Semcast.Ddl

open Semcast.Types Fallible

variable {F : Type} {sql : SqlText F}

/-- The base types of the grammar. -/
def IsBase : FieldType F → Prop
  | .text | .int | .real | .realBounded _ _ | .bool => True
  | .oneOf variants | .level variants => variants ≠ [] ∧ variants.Nodup
  | .list _ | .nested _ => False

/-- The types of the grammar. -/
def IsFieldType : FieldType F → Prop
  | .list inner => IsBase inner
  | base => IsBase base

theorem IsBase.isFieldType {base : FieldType F} (is : IsBase base) : IsFieldType base := by
  cases base <;> first | exact is | exact is.elim

theorem IsFieldType.base_or_list {ty : FieldType F} (is : IsFieldType ty) :
    IsBase ty ∨ ∃ inner, ty = .list inner ∧ IsBase inner := by
  cases ty with
  | list inner => exact Or.inr ⟨inner, rfl, is⟩
  | text | int | real | realBounded | bool | oneOf | level | nested => exact Or.inl is

/-- The types of the grammar have a column type. -/
theorem IsFieldType.arrowType {ty : FieldType F} (is : IsFieldType ty) :
    ∃ arrow, ty.arrowType = .ok arrow := by
  have of_base : ∀ base : FieldType F, IsBase base → ∃ arrow, base.arrowType = .ok arrow := by
    intro base is
    cases base with
    | list | nested => exact is.elim
    | text | int | real | realBounded | bool | oneOf | level => exact ⟨_, rfl⟩
  rcases is.base_or_list with base | ⟨inner, rfl, base⟩
  · exact of_base ty base
  · obtain ⟨arrow, typed⟩ := of_base inner base
    exact ⟨.list arrow, by rw [FieldType.arrowType, typed]; rfl⟩

theorem firstDuplicate_eq_none {before items : List String}
    (none : firstDuplicate before items = none) :
    items.Nodup ∧ ∀ item ∈ items, item ∉ before := by
  induction items generalizing before with
  | nil => simp
  | cons item rest ih =>
    rw [firstDuplicate] at none
    by_cases seen : item ∈ before
    · simp [seen] at none
    · obtain ⟨nodup, new⟩ := ih (by simpa [seen] using none)
      have notLater : item ∉ rest := fun later => new item later (by simp)
      refine ⟨List.nodup_cons.mpr ⟨notLater, nodup⟩, ?_⟩
      rw [List.forall_mem_cons]
      refine ⟨seen, ?_⟩
      intro other later earlier
      exact new other later (List.mem_append_left _ earlier)

theorem parseVariants_ne_nil {tokens rest : List Token} {variants : List String}
    (parsed : parseVariants sql tokens = .ok (variants, rest)) : variants ≠ [] := by
  fun_induction parseVariants sql tokens with
  | case1 value quote others =>
    obtain ⟨⟨values, left⟩, -, same⟩ := map_ok_iff.mp parsed
    cases same
    simp
  | case2 =>
    cases parsed
    simp
  | case3 | case4 => cases parsed

theorem parseVariantList_spec {tokens rest : List Token} {variants : List String}
    (parsed : parseVariantList sql tokens = .ok (variants, rest)) :
    variants ≠ [] ∧ variants.Nodup := by
  obtain ⟨opened, -, parsed⟩ := bind_ok_iff.mp parsed
  obtain ⟨⟨values, left⟩, inner, parsed⟩ := bind_ok_iff.mp parsed
  dsimp only at parsed
  split at parsed
  · cases parsed
  · rename_i unique
    cases parsed
    exact ⟨parseVariants_ne_nil inner, (firstDuplicate_eq_none unique).1⟩

theorem parseBaseType_isBase {tokens rest : List Token} {base : FieldType F}
    (parsed : parseBaseType sql tokens = .ok (base, rest)) : IsBase base := by
  unfold parseBaseType at parsed
  split at parsed
  · split at parsed
    · cases parsed
      trivial
    · cases parsed
      trivial
    · cases parsed
      trivial
    · split at parsed
      · obtain ⟨⟨bounds, left⟩, -, same⟩ := map_ok_iff.mp parsed
        cases same
        trivial
      · cases parsed
        trivial
    · obtain ⟨⟨variants, left⟩, inner, same⟩ := map_ok_iff.mp parsed
      cases same
      exact parseVariantList_spec inner
    · obtain ⟨⟨variants, left⟩, inner, same⟩ := map_ok_iff.mp parsed
      cases same
      exact parseVariantList_spec inner
    · cases parsed
  · cases parsed

theorem parseFieldType_isFieldType {tokens rest : List Token} {ty : FieldType F}
    (parsed : parseFieldType sql tokens = .ok (ty, rest)) : IsFieldType ty := by
  unfold parseFieldType at parsed
  split at parsed
  · cases parsed
  · rename_i base others inner
    obtain ⟨left, -, same⟩ := map_ok_iff.mp parsed
    cases same
    exact parseBaseType_isBase inner
  · rename_i inner
    cases parsed
    exact (parseBaseType_isBase inner).isFieldType

theorem parseFieldTypeStr_isFieldType {spec : String} {tokens : List Token} {ty : FieldType F}
    (parsed : parseFieldTypeStr sql spec tokens = .ok ty) : IsFieldType ty := by
  unfold parseFieldTypeStr at parsed
  split at parsed
  · cases parsed
  · rename_i inner
    cases parsed
    exact parseFieldType_isFieldType inner
  · cases parsed

theorem parseFieldDef_isFieldType {tokens rest : List Token} {spec : FieldSpec F}
    (parsed : parseFieldDef sql tokens = .ok (spec, rest)) : IsFieldType spec.ty := by
  obtain ⟨⟨name, named⟩, -, parsed⟩ := bind_ok_iff.mp parsed
  obtain ⟨⟨ty, typed⟩, inner, parsed⟩ := bind_ok_iff.mp parsed
  dsimp only at parsed
  split at parsed
  · cases parsed
    exact parseFieldType_isFieldType inner
  · cases parsed

theorem parseGroup_spec {tokens rest : List Token} {specs : List (FieldSpec F)}
    (parsed : parseGroup sql tokens = .ok (specs, rest)) :
    ∀ spec ∈ specs, IsFieldType spec.ty := by
  fun_induction parseGroup sql tokens generalizing specs rest with
  | case1 | case4 => cases parsed
  | case2 tokens spec others field ih =>
    obtain ⟨⟨specs, left⟩, inner, same⟩ := map_ok_iff.mp parsed
    cases same
    rw [List.forall_mem_cons]
    exact ⟨parseFieldDef_isFieldType field, ih inner⟩
  | case3 tokens spec others field =>
    cases parsed
    simpa using parseFieldDef_isFieldType field

/-- Fields and groups are those of `units`, in order. -/
structure Listed (units : List (List (FieldSpec F))) (fields : List (FieldSpec F))
    (together : List (List String)) : Prop where
  flat : fields = units.flatten
  groups : together =
    (units.filter fun unit => 2 ≤ unit.length).map fun unit => unit.map (·.name)
  nonempty : ∀ unit ∈ units, unit ≠ []
  types : ∀ spec ∈ fields, IsFieldType spec.ty

theorem Listed.append {units units' : List (List (FieldSpec F))}
    {fields fields' : List (FieldSpec F)} {together together' : List (List String)}
    (first : Listed units fields together) (second : Listed units' fields' together') :
    Listed (units ++ units') (fields ++ fields') (together ++ together') := by
  refine ⟨?_, ?_, ?_, ?_⟩
  · rw [first.flat, second.flat, List.flatten_append]
  · rw [first.groups, second.groups, List.filter_append, List.map_append]
  · rw [List.forall_mem_append]
    exact ⟨first.nonempty, second.nonempty⟩
  · rw [List.forall_mem_append]
    exact ⟨first.types, second.types⟩

/-- An entry is one unit: a field, or a group of at least two. -/
theorem parseEntry_listed {tokens rest : List Token}
    {entry : List (FieldSpec F) × List (List String)}
    (parsed : parseEntry sql tokens = .ok (entry, rest)) : Listed [entry.1] entry.1 entry.2 := by
  unfold parseEntry at parsed
  split at parsed
  · obtain ⟨opened, -, parsed⟩ := bind_ok_iff.mp parsed
    obtain ⟨⟨specs, left⟩, inner, parsed⟩ := bind_ok_iff.mp parsed
    obtain ⟨several, same⟩ := ite_ok_iff.mp parsed
    cases same
    refine ⟨by simp, ?_, ?_, parseGroup_spec inner⟩
    · simp [several]
    · rw [List.forall_mem_singleton]
      rintro rfl
      simp at several
  · obtain ⟨⟨spec, left⟩, inner, same⟩ := map_ok_iff.mp parsed
    cases same
    refine ⟨by simp, by simp, by simp, ?_⟩
    simpa using parseFieldDef_isFieldType inner

theorem parseEntries_listed {tokens rest : List Token}
    {found : List (FieldSpec F) × List (List String)}
    (parsed : parseEntries sql tokens = .ok (found, rest)) :
    ∃ units, Listed units found.1 found.2 := by
  fun_induction parseEntries sql tokens generalizing found rest with
  | case1 | case4 => cases parsed
  | case2 tokens fields together others entry ih =>
    obtain ⟨⟨⟨fields', together'⟩, left⟩, inner, same⟩ := map_ok_iff.mp parsed
    cases same
    obtain ⟨units, listed⟩ := ih inner
    exact ⟨_, (parseEntry_listed entry).append listed⟩
  | case3 tokens entry others inner =>
    cases parsed
    exact ⟨_, parseEntry_listed inner⟩

/-- What `parse_create_type` has read and checked before it returns a type. -/
theorem parseCreateType_entries {floats : Json.Floats F} {tokens : List Token}
    {ty : SemanticType F} (accepted : parseCreateType sql floats tokens = .ok ty) :
    (∃ entries rest, parseEntries sql entries = .ok ((ty.fields, ty.together), rest)) ∧
      ty.fields ≠ [] ∧ firstDuplicate [] (ty.fields.map (·.name)) = none := by
  obtain ⟨⟨name, tokens₁⟩, -, accepted⟩ := bind_ok_iff.mp accepted
  obtain ⟨tokens₂, -, accepted⟩ := bind_ok_iff.mp accepted
  obtain ⟨tokens₃, -, accepted⟩ := bind_ok_iff.mp accepted
  obtain ⟨⟨⟨fields, together⟩, tokens₄⟩, entries, accepted⟩ := bind_ok_iff.mp accepted
  obtain ⟨tokens₅, -, accepted⟩ := bind_ok_iff.mp accepted
  dsimp only at accepted
  split at accepted
  · cases accepted
  · rename_i some_field
    split at accepted
    · cases accepted
    · rename_i unique
      cases accepted
      exact ⟨⟨tokens₃, tokens₄, entries⟩, by simpa using some_field, unique⟩

/-- The types that `CREATE SEMANTIC TYPE` declares. -/
theorem parseCreateType_layout {floats : Json.Floats F} {tokens : List Token}
    {ty : SemanticType F} (accepted : parseCreateType sql floats tokens = .ok ty) :
    (∃ units, Layout ty units) ∧ ∀ spec ∈ ty.fields, IsFieldType spec.ty := by
  obtain ⟨⟨read, rest, entries⟩, -, unique⟩ := parseCreateType_entries accepted
  obtain ⟨units, listed⟩ := parseEntries_listed entries
  refine ⟨⟨units, listed.flat, listed.groups, listed.nonempty, ?_⟩, listed.types⟩
  exact (firstDuplicate_eq_none unique).1

theorem parseCreateType_fields_ne_nil {floats : Json.Floats F} {tokens : List Token}
    {ty : SemanticType F} (accepted : parseCreateType sql floats tokens = .ok ty) :
    ty.fields ≠ [] :=
  (parseCreateType_entries accepted).2.1

end Semcast.Ddl
