import Semcast.Cache.Proofs.Lawful
import Semcast.Physical.Extract

/-!
# Validation and decoding

What `validate_field` lets through is what `scalar_from_normalized` reads: a normalized value is
its own normal form, decodes into a scalar of the type of its column, and keeps to the variants
and the bounds of its field, down to the items of its lists.
-/

namespace Semcast.Extract

open Model Cache Json Semcast.Types Verify

variable {F : Type*} {floats : Floats F}

/-! ## What a model may answer -/

/-- A value that `serde_json` can return: integers of 64 bits and finite floats. -/
inductive WellFormed (floats : Floats F) : Value F → Prop
  | null : WellFormed floats .null
  | bool (b : Bool) : WellFormed floats (.bool b)
  | int (n : Int) (low : -2 ^ 63 ≤ n) (high : n < 2 ^ 64) : WellFormed floats (.number (.int n))
  | float (x : F) (finite : floats.isFinite x = true) : WellFormed floats (.number (.float x))
  | string (s : String) : WellFormed floats (.string s)
  | array (items : List (Value F)) (each : ∀ item ∈ items, WellFormed floats item) :
    WellFormed floats (.array items)
  | object (fields : List (String × Value F)) (each : ∀ field ∈ fields, WellFormed floats field.2) :
    WellFormed floats (.object fields)

/-- Every 64-bit integer is finite as an `f64`. -/
def FiniteInts (floats : Floats F) : Prop :=
  ∀ n : Int, -2 ^ 63 ≤ n → n < 2 ^ 64 → floats.isFinite (floats.ofInt n) = true

/-- Field types without a nested semantic type. -/
def NoNested : FieldType F → Prop
  | .list inner => NoNested inner
  | .nested _ => False
  | .text | .int | .real | .realBounded _ _ | .bool | .oneOf _ | .level _ => True

/-! ## What decoding needs -/

/-- A scalar of an Arrow type that is not NULL, nor any of its items. -/
def ScalarValue.HasType : ScalarValue F → DataType → Prop
  | .utf8 (some _), .utf8 | .int64 (some _), .int64 | .float64 (some _), .float64
  | .boolean (some _), .boolean => True
  | .list items item, .list ty => item = ty ∧ ∀ scalar ∈ items, scalar.HasType ty
  | _, _ => False

/-- The declared variants and the bounds of a field hold of a value, at every depth. -/
def Fits (floats : Floats F) : FieldType F → Value F → Prop
  | .realBounded min max, value =>
    ∃ x, value = .number (.float x) ∧ floats.le min x = true ∧ floats.le x max = true
  | .oneOf variants, value | .level variants, value => ∃ variant ∈ variants, value = .string variant
  | .list inner, value => ∃ items, value = .array items ∧ ∀ item ∈ items, Fits floats inner item
  | .text, _ | .int, _ | .real, _ | .bool, _ | .nested _, _ => True

/-- The first variant that a text names, whatever its case. -/
def namedVariant (variants : List String) (got : String) : Option String :=
  variants.find? fun variant => eqIgnoreAsciiCase variant.toList got.toList

/-- The normal forms of a field. -/
def IsNormal (floats : Floats F) : FieldType F → Value F → Prop
  | .text, value => ∃ s, value = .string s
  | .int, value => ∃ n ≤ maxInt64, value = .number (.int n)
  | .real, value => ∃ x, value = .number (.float x) ∧ floats.isFinite x = true
  | .realBounded min max, value =>
    ∃ x, value = .number (.float x) ∧ floats.isFinite x = true ∧
      floats.le min x = true ∧ floats.le x max = true
  | .bool, value => ∃ b, value = .bool b
  | .oneOf variants, value | .level variants, value =>
    ∃ variant, value = .string variant ∧ namedVariant variants variant = some variant
  | .list inner, value => ∃ items, value = .array items ∧ ∀ item ∈ items, IsNormal floats inner item
  | .nested _, _ => False

theorem eqIgnoreAsciiCase_iff {left right : List Char} :
    eqIgnoreAsciiCase left right = true ↔ left.map Char.toLower = right.map Char.toLower := by
  rw [eqIgnoreAsciiCase, beq_iff_eq]

/-- What a text names, its variant names. -/
theorem namedVariant_self {variants : List String} {got variant : String}
    (named : namedVariant variants got = some variant) :
    namedVariant variants variant = some variant := by
  have alike := eqIgnoreAsciiCase_iff.mp
    (List.find?_some (p := fun other : String => eqIgnoreAsciiCase other.toList got.toList) named)
  have same : (fun other : String => eqIgnoreAsciiCase other.toList variant.toList) =
      fun other => eqIgnoreAsciiCase other.toList got.toList := by
    funext other
    rw [eqIgnoreAsciiCase, eqIgnoreAsciiCase, alike]
  rw [namedVariant, same]
  exact named

theorem ofF64_asF64 (finite : FiniteInts floats) {value : Value F} (well : WellFormed floats value)
    {x : F} (read : value.asF64 floats = some x) :
    Value.ofF64 floats x = .number (.float x) ∧ floats.isFinite x = true := by
  have isFinite : floats.isFinite x = true := by
    cases well with
    | int n low high =>
      cases read
      exact finite n low high
    | float y isFinite =>
      cases read
      exact isFinite
    | null | bool | string | array | object => cases read
  exact ⟨if_pos isFinite, isFinite⟩

/-- Validation returns normal forms. -/
theorem validateField_isNormal (finite : FiniteInts floats) {ty : FieldType F}
    {value normalized : Value F} (well : WellFormed floats value)
    (validated : validateField floats ty value = some normalized) :
    IsNormal floats ty normalized := by
  induction ty generalizing value normalized with
  | text =>
    obtain ⟨s, -, rfl⟩ := Option.map_eq_some_iff.mp validated
    exact ⟨s, rfl⟩
  | int =>
    obtain ⟨n, read, rfl⟩ := Option.map_eq_some_iff.mp validated
    refine ⟨n, ?_, rfl⟩
    unfold Value.asI64 at read
    split at read
    · obtain ⟨small, same⟩ := Option.ite_none_right_eq_some.mp read
      cases same
      exact small
    · cases read
  | real =>
    obtain ⟨x, read, rfl⟩ := Option.map_eq_some_iff.mp validated
    obtain ⟨same, isFinite⟩ := ofF64_asF64 finite well read
    exact ⟨x, same, isFinite⟩
  | realBounded min max =>
    obtain ⟨x, read, checked⟩ := Option.bind_eq_some_iff.mp validated
    obtain ⟨bounds, kept⟩ := Option.ite_none_right_eq_some.mp checked
    cases kept
    obtain ⟨same, isFinite⟩ := ofF64_asF64 finite well read
    rw [Bool.and_eq_true] at bounds
    exact ⟨x, same, isFinite, bounds⟩
  | bool =>
    obtain ⟨b, -, rfl⟩ := Option.map_eq_some_iff.mp validated
    exact ⟨b, rfl⟩
  | oneOf variants | level variants =>
    obtain ⟨got, -, found⟩ := Option.bind_eq_some_iff.mp validated
    obtain ⟨variant, named, rfl⟩ := Option.map_eq_some_iff.mp found
    exact ⟨variant, rfl, namedVariant_self named⟩
  | list inner ih =>
    obtain ⟨items, read, rfl⟩ := Option.map_eq_some_iff.mp validated
    refine ⟨_, rfl, ?_⟩
    intro item kept
    obtain ⟨raw, member, fits⟩ := List.mem_filterMap.mp kept
    cases well with
    | array _ each =>
      cases read
      exact ih (each raw member) fits
    | null | bool | int | float | string | object => cases read
  | nested name => cases validated

/-- A normal form is its own. -/
theorem IsNormal.validateField {ty : FieldType F} {value : Value F}
    (normal : IsNormal floats ty value) :
    Extract.validateField floats ty value = some value := by
  induction ty generalizing value with
  | text =>
    obtain ⟨s, rfl⟩ := normal
    rfl
  | int =>
    obtain ⟨n, small, rfl⟩ := normal
    simp [Extract.validateField, Value.asI64, small]
  | real =>
    obtain ⟨x, rfl, isFinite⟩ := normal
    simp [Extract.validateField, Value.asF64, Value.ofF64, isFinite]
  | realBounded min max =>
    obtain ⟨x, rfl, isFinite, low, high⟩ := normal
    simp [Extract.validateField, Value.asF64, Value.ofF64, isFinite, low, high]
  | bool =>
    obtain ⟨b, rfl⟩ := normal
    rfl
  | oneOf variants | level variants =>
    obtain ⟨variant, rfl, named⟩ := normal
    show (namedVariant variants variant).map Value.string = _
    rw [named]
    rfl
  | list inner ih =>
    obtain ⟨items, rfl, each⟩ := normal
    have kept : items.filterMap (Extract.validateField floats inner) = items := by
      rw [List.filterMap_congr fun item member => ih (each item member), List.filterMap_some]
    show some (Value.array (items.filterMap (Extract.validateField floats inner))) = _
    rw [kept]
  | nested name => exact normal.elim

/-- A normal form keeps to its field. -/
theorem IsNormal.fits {ty : FieldType F} {value : Value F} (normal : IsNormal floats ty value) :
    Fits floats ty value := by
  induction ty generalizing value with
  | text | int | real | bool | nested => trivial
  | realBounded min max =>
    obtain ⟨x, rfl, -, bounds⟩ := normal
    exact ⟨x, rfl, bounds⟩
  | oneOf variants | level variants =>
    obtain ⟨variant, rfl, named⟩ := normal
    exact ⟨variant, List.mem_of_find?_eq_some named, rfl⟩
  | list inner ih =>
    obtain ⟨items, rfl, each⟩ := normal
    exact ⟨items, rfl, fun item member => ih (each item member)⟩

theorem NoNested.arrowType {ty : FieldType F} (noNested : NoNested ty) :
    ∃ arrow, ty.arrowType = .ok arrow := by
  induction ty with
  | text | int | real | realBounded | bool | oneOf | level => exact ⟨_, rfl⟩
  | list inner ih =>
    obtain ⟨arrow, typed⟩ := ih noNested
    exact ⟨.list arrow, by rw [FieldType.arrowType, typed]; rfl⟩
  | nested name => exact noNested.elim

/-- A normal form decodes into a scalar of its field's column. -/
theorem IsNormal.hasType {ty : FieldType F} (noNested : NoNested ty) {value : Value F}
    (normal : IsNormal floats ty value) :
    ∃ arrow, ty.arrowType = .ok arrow ∧ (scalarFromNormalized floats ty value).HasType arrow := by
  induction ty generalizing value with
  | text =>
    obtain ⟨s, rfl⟩ := normal
    exact ⟨.utf8, rfl, trivial⟩
  | int =>
    obtain ⟨n, small, rfl⟩ := normal
    refine ⟨.int64, rfl, ?_⟩
    simp [scalarFromNormalized, Value.asI64, small, ScalarValue.HasType]
  | real =>
    obtain ⟨x, rfl, -⟩ := normal
    exact ⟨.float64, rfl, trivial⟩
  | realBounded min max =>
    obtain ⟨x, rfl, -⟩ := normal
    exact ⟨.float64, rfl, trivial⟩
  | bool =>
    obtain ⟨b, rfl⟩ := normal
    exact ⟨.boolean, rfl, trivial⟩
  | oneOf variants | level variants =>
    obtain ⟨variant, rfl, -⟩ := normal
    exact ⟨.utf8, rfl, trivial⟩
  | list inner ih =>
    obtain ⟨items, rfl, each⟩ := normal
    have innerNoNested : NoNested inner := noNested
    obtain ⟨arrow, typed⟩ := innerNoNested.arrowType
    refine ⟨.list arrow, by rw [FieldType.arrowType, typed]; rfl, ?_⟩
    show ScalarValue.HasType (.list (items.map (scalarFromNormalized floats inner))
      (inner.arrowType.toOption.getD .utf8)) (.list arrow)
    rw [typed]
    refine ⟨rfl, ?_⟩
    intro scalar member
    obtain ⟨item, inside, rfl⟩ := List.mem_map.mp member
    obtain ⟨arrow', typed', has⟩ := ih noNested (each item inside)
    rw [typed, Except.ok.injEq] at typed'
    rw [typed']
    exact has
  | nested name => exact normal.elim

/-! ## Back from the cache -/

section Cached

variable {C : Type*} [SemanticCache C] [LawfulSemanticCache C] {libraries : Libraries F}
  {extractor : Extractor}

/-- Fields whose values are cached read back as they were decoded. -/
theorem readFields_of_stored {unit : List (FieldSpec F)} {object : List (String × Value F)}
    {text : String} {specs : List (FieldSpec F)} {cache : C}
    (valid : ∀ spec ∈ specs, (decodeField libraries object spec).isSome)
    (inverse : ∀ decoded ∈ specs.filterMap (decodeField libraries object),
      libraries.json.fromStr (libraries.json.toString decoded.2) = some decoded.2)
    (stored : ∀ decoded ∈ specs.filterMap (decodeField libraries object),
      answer cache (cacheKey libraries extractor unit decoded.1.name text) =
        some (.value (libraries.json.toString decoded.2))) :
    (readFields libraries extractor unit text specs cache).1 =
      some ((specs.filterMap (decodeField libraries object)).map fun decoded =>
        (decoded.1.name, scalarFromNormalized libraries.floats decoded.1.ty decoded.2)) := by
  induction specs generalizing cache with
  | nil => rfl
  | cons spec rest ih =>
    obtain ⟨first, others⟩ := List.forall_mem_cons.mp valid
    obtain ⟨decoded, found⟩ := Option.isSome_iff_exists.mp first
    obtain ⟨normalized, -, rfl⟩ := Option.map_eq_some_iff.mp found
    rw [List.filterMap_cons_some found] at inverse stored ⊢
    obtain ⟨back, inverse⟩ := List.forall_mem_cons.mp inverse
    obtain ⟨here, stored⟩ := List.forall_mem_cons.mp stored
    dsimp only at back here
    have got : (SemanticCache.get cache (cacheKey libraries extractor unit spec.name text)).1 =
        some (.value (libraries.json.toString normalized)) := (answer_get cache _).trans here
    have later := ih others inverse fun decoded member =>
      (answer_after_get cache (cacheKey libraries extractor unit spec.name text) _).trans
        (stored decoded member)
    simp only [readFields, got, back, later, List.map_cons, Option.map_some]

/-- A unit that `apply_unit` cached reads back as it returned it. -/
theorem readUnit_of_applyUnit {unit : List (FieldSpec F)} {object : List (String × Value F)}
    {text : String} {entries : List (CacheKey × CachedValue)}
    (put : unitEntries libraries extractor unit object text = some entries)
    (inverse : ∀ decoded ∈ unit.filterMap (decodeField libraries object),
      libraries.json.fromStr (libraries.json.toString decoded.2) = some decoded.2)
    {cache : C} (stored : ∀ entry ∈ entries, answer cache entry.1 = some entry.2) (before : C) :
    (readUnit libraries extractor unit text cache).1 =
      some (applyUnit libraries extractor unit object text before).1 := by
  unfold unitEntries at put
  obtain ⟨valid, same⟩ := Option.ite_none_right_eq_some.mp put
  cases same
  rw [List.all_eq_true] at valid
  refine readFields_of_stored valid inverse ?_
  intro decoded member
  exact stored _ (List.mem_map_of_mem member)

/-- What validation accepts is a normal form: validation keeps it, it decodes into a scalar of
its field's column that is not NULL, and it keeps to the field. A unit of such values reads back
from the cache as it was decoded. -/
theorem validation_serves_decoding (libraries : Libraries F) (extractor : Extractor)
    (finite : FiniteInts libraries.floats) :
    (∀ {ty : FieldType F} {value normalized : Value F}, NoNested ty →
      WellFormed libraries.floats value →
      validateField libraries.floats ty value = some normalized →
        validateField libraries.floats ty normalized = some normalized ∧
          (∃ arrow, ty.arrowType = .ok arrow ∧
            (scalarFromNormalized libraries.floats ty normalized).HasType arrow) ∧
              Fits libraries.floats ty normalized) ∧
      ∀ {unit : List (FieldSpec F)} {object : List (String × Value F)} {text : String}
        {entries : List (CacheKey × CachedValue)},
        unitEntries libraries extractor unit object text = some entries →
        (∀ decoded ∈ unit.filterMap (decodeField libraries object),
          libraries.json.fromStr (libraries.json.toString decoded.2) = some decoded.2) →
        ∀ cache : C, (∀ entry ∈ entries, answer cache entry.1 = some entry.2) → ∀ before : C,
          (readUnit libraries extractor unit text cache).1 =
            some (applyUnit libraries extractor unit object text before).1 := by
  constructor
  · intro ty value normalized noNested well validated
    have normal := validateField_isNormal finite well validated
    exact ⟨normal.validateField, normal.hasType noNested, normal.fits⟩
  · intro unit object text entries put inverse cache stored before
    exact readUnit_of_applyUnit put inverse stored before

end Cached

section Example

/-- Quotes around a text without escapes. -/
def quotedText : Text Int where
  fromStr text :=
    match text.toList with
    | '"' :: rest => some (.string (String.ofList rest.dropLast))
    | _ => none
  toString value := "\"" ++ value.asStr.getD "" ++ "\""

def moodLibraries : Libraries Int :=
  ⟨id, ⟨id, fun x y => decide (x ≤ y), fun _ => true, toString⟩, quotedText⟩

def moodUnit : List (FieldSpec Int) :=
  [⟨"mood", .level ["low", "high"], "how it ended"⟩]

def moodExtractor : Extractor :=
  ⟨"Notes", ⟨"model"⟩⟩

/-- The key of the mood of `minutes`. -/
def moodKey : CacheKey :=
  cacheKey moodLibraries moodExtractor moodUnit "mood" "minutes"

/-- A level answered in capitals, the unit that caches it, and a bounded list that drops an item. -/
theorem mood_serves_decoding :
    (validateField moodLibraries.floats (.level ["low", "high"]) (.string "high") =
        some (.string "high") ∧
      Fits moodLibraries.floats (.list (.realBounded 0 10)) (.array [.number (.float 3)])) ∧
    (readUnit moodLibraries moodExtractor moodUnit "minutes"
        (applyUnit moodLibraries moodExtractor moodUnit [("mood", .string "HIGH")]
          "minutes" InMemoryCache.default).2).1 =
      some [("mood", .utf8 (some "high"))] := by
  obtain ⟨serves, reads⟩ := validation_serves_decoding (C := InMemoryCache) moodLibraries
    moodExtractor (fun _ _ _ => rfl)
  have level : validateField moodLibraries.floats (.level ["low", "high"]) (.string "HIGH") =
      some (.string "high") := rfl
  have items : validateField moodLibraries.floats (.list (.realBounded 0 10))
      (.array [.number (.float 3), .string "ten"]) = some (.array [.number (.float 3)]) := rfl
  have answers : WellFormed moodLibraries.floats (.array [.number (.float 3), .string "ten"]) := by
    apply WellFormed.array
    simp only [List.forall_mem_cons]
    exact ⟨.float 3 rfl, .string "ten", fun _ none => absurd none List.not_mem_nil⟩
  have put : unitEntries moodLibraries moodExtractor moodUnit [("mood", .string "HIGH")]
      "minutes" = some [(moodKey, .value "\"high\"")] := rfl
  have plain : NoNested (FieldType.level ["low", "high"] : FieldType Int) := trivial
  have plain' : NoNested (FieldType.list (.realBounded 0 10) : FieldType Int) := trivial
  refine ⟨⟨(serves plain (.string "HIGH") level).1, (serves plain' answers items).2.2⟩, ?_⟩
  refine reads put ?_ _ ?_ InMemoryCache.default
  · intro decoded member
    change decoded ∈ [(moodUnit.head (by decide), Value.string "high")] at member
    cases List.mem_singleton.mp member
    rfl
  · intro entry member
    cases List.mem_singleton.mp member
    have stored : (applyUnit moodLibraries moodExtractor moodUnit
        [("mood", .string "HIGH")] "minutes" InMemoryCache.default).2 =
        InMemoryCache.default.put moodKey (.value "\"high\"") := by
      simp only [applyUnit, put]
      rfl
    rw [stored]
    exact Function.update_self moodKey (some (.value "\"high\"")) InMemoryCache.default.entries

end Example

end Semcast.Extract
