import Semcast.Physical.Proofs.Decoding
import Semcast.Physical.Proofs.Pushdown

/-!
# The variant an answer is recorded as

Validation takes the first variant that an answer names, whatever the case of its letters, while
the grammar keeps variants apart by their exact letters. A variant is recorded as itself unless
one declared before it differs from it in case alone.
-/

namespace Semcast.Extract

open Model Cache Json Semcast.Types Verify Ddl

/-- No variant declared before it is the same but for case. -/
def Unshadowed (variants : List String) (variant : String) : Prop :=
  ∀ earlier ∈ variants.takeWhile (· ≠ variant),
    eqIgnoreAsciiCase earlier.toList variant.toList = false

theorem namedVariant_self_iff {variants : List String} {variant : String}
    (declared : variant ∈ variants) :
    namedVariant variants variant = some variant ↔ Unshadowed variants variant := by
  induction variants with
  | nil => cases declared
  | cons first rest ih =>
    rw [namedVariant, Unshadowed, List.find?_cons]
    by_cases here : first = variant
    · subst here
      simp [eqIgnoreAsciiCase]
    · have later : variant ∈ rest := (List.mem_cons.mp declared).resolve_left (Ne.symm here)
      rw [List.takeWhile_cons_of_pos (by simpa using here), List.forall_mem_cons]
      cases alike : eqIgnoreAsciiCase first.toList variant.toList with
      | true => simpa using here
      | false => simpa [namedVariant, Unshadowed] using ih later

/-- Among distinct variants each is recorded as itself exactly where no two differ in case
alone. -/
theorem forall_unshadowed_iff {variants : List String} (distinct : variants.Nodup) :
    (∀ variant ∈ variants, Unshadowed variants variant) ↔
      variants.Pairwise fun earlier later =>
        eqIgnoreAsciiCase earlier.toList later.toList = false := by
  induction variants with
  | nil => simp
  | cons first rest ih =>
    obtain ⟨new, distinct⟩ := List.nodup_cons.mp distinct
    rw [List.forall_mem_cons, List.pairwise_cons, ← ih distinct]
    have alone : Unshadowed (first :: rest) first := by
      simp [Unshadowed]
    have shifted : ∀ variant ∈ rest, (Unshadowed (first :: rest) variant ↔
        eqIgnoreAsciiCase first.toList variant.toList = false ∧ Unshadowed rest variant) := by
      intro variant member
      have different : first ≠ variant := by
        rintro rfl
        exact new member
      rw [Unshadowed, List.takeWhile_cons_of_pos (by simpa using different), List.forall_mem_cons]
      rfl
    constructor
    · rintro ⟨-, each⟩
      exact ⟨fun variant member => ((shifted variant member).mp (each variant member)).1,
        fun variant member => ((shifted variant member).mp (each variant member)).2⟩
    · rintro ⟨apart, each⟩
      exact ⟨alone, fun variant member =>
        (shifted variant member).mpr ⟨apart variant member, each variant member⟩⟩

section Recorded

variable {F : Type} {C : Type*} [SemanticCache C] {libraries : Libraries F}
  {extractor : Extractor} {cache : C} {spec : FieldSpec F} {variants : List String}

/-- A model's answer to a field is returned as it stands, and cached so wherever its unit is. -/
def Records (libraries : Libraries F) (extractor : Extractor) (cache : C) (spec : FieldSpec F)
    (got : String) : Prop :=
  ∀ unit object text, spec ∈ unit → object.lookup spec.name = some (.string got) →
    (spec.name, .utf8 (some got)) ∈ (applyUnit libraries extractor unit object text cache).1 ∧
      ∀ entries, unitEntries libraries extractor unit object text = some entries →
        (cacheKey libraries extractor unit spec.name text,
          .value (libraries.json.toString (.string got))) ∈ entries

theorem decodeField_variants (typed : spec.ty = .oneOf variants ∨ spec.ty = .level variants)
    {object : List (String × Value F)} {got : String}
    (answered : object.lookup spec.name = some (.string got)) :
    decodeField libraries object spec =
      (namedVariant variants got).map fun variant => (spec, .string variant) := by
  have validated : validateField libraries.floats spec.ty (.string got) =
      (namedVariant variants got).map Value.string := by
    rcases typed with typed | typed <;> rw [typed] <;> rfl
  rw [decodeField, answered, Option.bind_some, validated, Option.map_map]
  rfl

theorem scalar_variants (typed : spec.ty = .oneOf variants ∨ spec.ty = .level variants)
    (variant : String) :
    scalarFromNormalized libraries.floats spec.ty (.string variant) = .utf8 (some variant) := by
  rcases typed with typed | typed <;> rw [typed] <;> rfl

/-- An answer is recorded as it stands exactly where it names itself. -/
theorem records_iff (typed : spec.ty = .oneOf variants ∨ spec.ty = .level variants)
    {got : String} : Records libraries extractor cache spec got ↔
      namedVariant variants got = some got := by
  constructor
  · intro records
    -- The unit of the field alone returns what the answer names.
    have answered : List.lookup spec.name [(spec.name, (Value.string got : Value F))] =
        some (.string got) := by
      simp
    obtain ⟨returned, -⟩ := records [spec] _ "" List.mem_cons_self answered
    rw [applyUnit] at returned
    obtain ⟨decoded, member, same⟩ := List.mem_map.mp returned
    obtain ⟨spec', alone, found⟩ := List.mem_filterMap.mp member
    cases List.mem_singleton.mp alone
    rw [decodeField_variants typed answered] at found
    obtain ⟨variant, named, rfl⟩ := Option.map_eq_some_iff.mp found
    have value := (Prod.mk.inj same).2
    dsimp only at value
    rw [scalar_variants typed, ScalarValue.utf8.injEq, Option.some.injEq] at value
    rw [named, value]
  · intro named unit object text inside answered
    have decoded : decodeField libraries object spec = some (spec, .string got) := by
      rw [decodeField_variants typed answered, named]
      rfl
    have kept : (spec, .string got) ∈ unit.filterMap (decodeField libraries object) :=
      List.mem_filterMap.mpr ⟨spec, inside, decoded⟩
    constructor
    · refine List.mem_map.mpr ⟨_, kept, ?_⟩
      rw [scalar_variants typed]
    · intro entries put
      unfold unitEntries at put
      obtain ⟨-, same⟩ := Option.ite_none_right_eq_some.mp put
      cases same
      exact List.mem_map.mpr ⟨_, kept, rfl⟩

/-- Of a list of variants that the grammar accepts, one is recorded as itself exactly where none
before it differs in case alone; all of them are where no two do. -/
theorem records_variant_iff (libraries : Libraries F) (extractor : Extractor) (cache : C)
    {sql : SqlText F} {tokens rest : List Token}
    (parsed : parseVariantList sql tokens = .ok (variants, rest))
    (typed : spec.ty = .oneOf variants ∨ spec.ty = .level variants) :
    (∀ variant ∈ variants, (Records libraries extractor cache spec variant ↔
      Unshadowed variants variant)) ∧
    ((∀ variant ∈ variants, Records libraries extractor cache spec variant) ↔
      variants.Pairwise fun earlier later =>
        eqIgnoreAsciiCase earlier.toList later.toList = false) := by
  have each : ∀ variant ∈ variants, (Records libraries extractor cache spec variant ↔
      Unshadowed variants variant) := by
    intro variant declared
    rw [records_iff typed, namedVariant_self_iff declared]
  refine ⟨each, ?_⟩
  rw [← forall_unshadowed_iff (parseVariantList_spec parsed).2]
  exact forall₂_congr each

end Recorded

section Example

/-- `ONEOF(US, us)`: the country, and everyone present. -/
def whoTokens : List Token :=
  [.lParen, .word "US" none, .comma, .word "us" none, .rParen]

def whoField (variants : List String) : FieldSpec Int :=
  ⟨"who", .oneOf variants, "who it is about"⟩

/-- The answer `us` is recorded as the country. -/
theorem country_shadows_us :
    parseVariantList asciiSql whoTokens = .ok (["US", "us"], []) ∧
      (applyUnit moodLibraries moodExtractor [whoField ["US", "us"]] [("who", .string "us")]
        "minutes" InMemoryCache.default).1 = [("who", .utf8 (some "US"))] ∧
      ¬ Records moodLibraries moodExtractor InMemoryCache.default (whoField ["US", "us"]) "us" := by
  refine ⟨by decide +kernel, rfl, ?_⟩
  intro records
  exact absurd ((records_iff (Or.inl rfl)).mp records) (by decide +kernel)

/-- `ONEOF(US, them)`. -/
theorem them_unshadowed :
    Records moodLibraries moodExtractor InMemoryCache.default (whoField ["US", "them"]) "them" := by
  have parsed : parseVariantList asciiSql
      [.lParen, .word "US" none, .comma, .word "them" none, .rParen] = .ok (["US", "them"], []) := by
    decide +kernel
  have typed : (whoField ["US", "them"]).ty = .oneOf ["US", "them"] := rfl
  exact (records_variant_iff moodLibraries moodExtractor InMemoryCache.default parsed
    (Or.inl typed)).2.mpr (by decide +kernel) "them" (by decide)

end Example

end Semcast.Extract
