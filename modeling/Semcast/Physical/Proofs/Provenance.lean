import Std.Data.String.ToInt
import Mathlib.Data.Set.Function
import Semcast.Physical.Classify
import Semcast.Physical.IndexScan
import Semcast.Physical.Rank
import Semcast.Physical.Proofs.Pushdown
import Semcast.Sql.Proofs.Printed

/-!
# Provenance of a cached answer

What a cache key says about the question whose answer it holds. Two questions with
one key are one question, but for generation units whose field types print alike.
-/

namespace Semcast.Questions

open Model Cache Json Verify Classify Semcast.Types Extract Ddl Rank Delimited

variable {ρ ε F : Type}

/-- The question one answer in the cache is for, by the operator that asks it. -/
inductive Question (ρ ε F : Type) where
  /-- A label of the pre-filter's calibration sample. -/
  | label (condition text : String) (modelId : ModelId)
  /-- A verdict over what a row sends, which may be chunk evidence. -/
  | verify (verifier : Verifier ρ ε) (input : String) (chunked : Bool)
  /-- A condition in a request that carries `asked` of them. -/
  | classify (classifier : Classifier ρ ε) (condition text : String) (asked : Nat)
  /-- A score. -/
  | relevance (query input : String) (modelId : ModelId)
  /-- One field of an extraction unit. -/
  | extract (extractor : Extractor) (unit : List (FieldSpec F)) (field text : String)

/-- The key the operator caches the answer under. -/
def Question.key (libraries : Libraries F) : Question ρ ε F → CacheKey
  | .label condition text modelId => IndexScan.labelKey libraries.blake3 condition modelId text
  | .verify verifier input chunked => verifier.cacheKey libraries.blake3 input chunked
  | .classify classifier condition text asked =>
    classifier.cacheKey libraries.blake3 condition text asked
  | .relevance query input modelId => relevanceCacheKey libraries.blake3 query input modelId
  | .extract extractor unit field text => cacheKey libraries extractor unit field text

/-- The prompts of a `MEANS` verdict. -/
inductive MeansScheme where
  | fullText
  | chunked
  | fused
  deriving DecidableEq

/-- What an answer depends on: operator and prompt scheme, the condition, query or
unit, the model, and the input text. -/
inductive Provenance (F : Type) where
  | means (scheme : MeansScheme) (condition : String) (modelId : ModelId) (input : String)
  | relevance (query : String) (modelId : ModelId) (input : String)
  | unit (extractor : Extractor) (specs : List (FieldSpec F)) (field input : String)

/-- What a question asks. A classification of one condition sends the request of a
full-text verdict. -/
def Question.provenance : Question ρ ε F → Provenance F
  | .label condition text modelId => .means .fullText condition modelId text
  | .verify verifier input chunked =>
    .means (if chunked then .chunked else .fullText) verifier.condition verifier.model.id input
  | .classify classifier condition text asked =>
    .means (if asked = 1 then .fullText else .fused) condition classifier.model.id text
  | .relevance query input modelId => .relevance query modelId input
  | .extract extractor unit field text => .unit extractor unit field text

/-- A generation unit of a declared type, or of the type a query was pruned to. -/
def DeclaredUnit (sql : SqlText F) (floats : Floats F) (name : String)
    (unit : List (FieldSpec F)) : Prop :=
  ∃ tokens ty, parseCreateType sql floats tokens = .ok ty ∧ name = ty.name ∧
    ∃ kept : SemanticType F, (kept = ty ∨ ∃ requested, ty.pruned requested = .ok kept) ∧
      unit ∈ kept.generationUnits

/-- The unit of an inline `EXTRACT`. -/
def InlineUnit (sql : SqlText F) (name : String) (unit : List (FieldSpec F)) : Prop :=
  ∃ spec tokens ty field doc, parseFieldTypeStr sql spec tokens = .ok ty ∧
    name = "__extract_" ++ field ∧ unit = [⟨field, ty, doc⟩]

/-- The questions the operators ask: the units of an extraction are accepted ones. -/
def Question.Asked (sql : SqlText F) (floats : Floats F) : Question ρ ε F → Prop
  | .extract extractor unit field _ =>
    (DeclaredUnit sql floats extractor.targetName unit ∨
      InlineUnit sql extractor.targetName unit) ∧ field ∈ unit.map (·.name)
  | _ => True

section Keys

variable (libraries : Libraries F)

def MeansScheme.promptVersion : MeansScheme → String
  | .fullText => meansPromptVersion
  | .chunked => meansChunkedPromptVersion
  | .fused => classifyPromptVersion

theorem MeansScheme.promptVersion_inj {scheme scheme' : MeansScheme}
    (same : scheme.promptVersion = scheme'.promptVersion) : scheme = scheme' := by
  cases scheme <;> cases scheme' <;> first | rfl | exact absurd same (by decide)

/-- The key, from what the question asks. -/
def Provenance.key : Provenance F → CacheKey
  | .means scheme condition modelId input =>
    meansCacheKey libraries.blake3 condition input modelId scheme.promptVersion
  | .relevance query modelId input => relevanceCacheKey libraries.blake3 query input modelId
  | .unit extractor specs field input => cacheKey libraries extractor specs field input

theorem Question.key_eq (question : Question ρ ε F) :
    question.key libraries = question.provenance.key libraries := by
  cases question with
  | label | relevance | extract => rfl
  | verify verifier input chunked => cases chunked <;> rfl
  | classify classifier condition text asked =>
    by_cases one : asked = 1 <;>
      simp [key, Classifier.cacheKey, provenance, Provenance.key, one, MeansScheme.promptVersion]

/-- The parts of a generation unit that `unit_hash` digests. -/
def unitParts (floats : Floats F) (specs : List (FieldSpec F)) : List (List UInt8) :=
  (specs.flatMap fun spec => [spec.name, spec.ty.display floats, spec.doc]).map asBytes

/-- The part lists that the key digests. -/
def Provenance.digested (floats : Floats F) : Provenance F → Set (List (List UInt8))
  | .means _ _ _ input | .relevance _ _ input => {[asBytes input]}
  | .unit _ specs _ input => {[asBytes input], unitParts floats specs}

/-- The units are made of field types of the grammar. -/
def Provenance.Typed : Provenance F → Prop
  | .unit _ specs _ _ => ∀ spec ∈ specs, IsFieldType spec.ty
  | _ => True

/-- Accepted units are made of the types of the grammar. -/
theorem Question.Asked.typed {sql : SqlText F} {floats : Floats F} {question : Question ρ ε F}
    (asked : question.Asked sql floats) : question.provenance.Typed := by
  cases question with
  | label | verify | classify | relevance => trivial
  | extract extractor unit field text =>
    intro spec member
    rcases asked.1 with ⟨tokens, ty, accepted, -, kept, pruned, unit_mem⟩ |
      ⟨text, tokens, ty, field, doc, parsed, -, rfl⟩
    · obtain ⟨⟨units, layout⟩, types⟩ := parseCreateType_layout accepted
      apply types
      rw [layout.fields]
      rcases pruned with rfl | ⟨requested, pruned⟩
      · rw [layout.generationUnits_eq] at unit_mem
        exact List.mem_flatten.mpr ⟨unit, unit_mem, member⟩
      · rw [(layout.pruned pruned).2.generationUnits_eq] at unit_mem
        exact List.mem_flatten.mpr ⟨unit, List.mem_of_mem_filter unit_mem, member⟩
    · rw [List.mem_singleton] at member
      subst member
      exact parseFieldTypeStr_isFieldType parsed

/-- Units whose fields differ at most in types that are alike. -/
def AlikeUnits (floats : Floats F) : List (FieldSpec F) → List (FieldSpec F) → Prop :=
  List.Forall₂ fun spec spec' =>
    spec.name = spec'.name ∧ Alike floats spec.ty spec'.ty ∧ spec.doc = spec'.doc

/-- Two extractions of units that differ, but only in types that are alike. -/
def Provenance.Twins (floats : Floats F) : Provenance F → Provenance F → Prop
  | .unit extractor specs field input, .unit extractor' specs' field' input' =>
    specs ≠ specs' ∧ AlikeUnits floats specs specs' ∧
      extractor = extractor' ∧ field = field' ∧ input = input'
  | _, _ => False

/-- No unit has a comma in a variant, or a NaN for a bound. -/
def Provenance.Plain (floats : Floats F) : Provenance F → Prop
  | .unit _ specs _ _ => ∀ spec ∈ specs, Ddl.Plain floats spec.ty
  | _ => True

theorem AlikeUnits.eq {floats : Floats F} {specs specs' : List (FieldSpec F)}
    (alike : AlikeUnits floats specs specs') (types : ∀ spec ∈ specs, IsFieldType spec.ty)
    (types' : ∀ spec ∈ specs', IsFieldType spec.ty)
    (plain : ∀ spec ∈ specs, Ddl.Plain floats spec.ty)
    (plain' : ∀ spec ∈ specs', Ddl.Plain floats spec.ty) : specs = specs' := by
  induction alike with
  | nil => rfl
  | @cons spec spec' rest rest' first _ ih =>
    rw [List.forall_mem_cons] at types types' plain plain'
    obtain ⟨names, alike, docs⟩ := first
    have tys := types.1.eq_of_alike types'.1 plain.1 plain'.1 alike
    rw [ih types.2 types'.2 plain.2 plain'.2]
    cases spec
    cases spec'
    simp_all

theorem Provenance.not_twins_of_plain {floats : Floats F} {asks asks' : Provenance F}
    (typed : asks.Typed) (typed' : asks'.Typed) (plain : asks.Plain floats)
    (plain' : asks'.Plain floats) : ¬ asks.Twins floats asks' := by
  intro twins
  cases asks with
  | means | relevance => exact twins
  | unit extractor specs field input =>
    cases asks' with
    | means | relevance => exact twins
    | unit extractor' specs' field' input' =>
      exact twins.1 (twins.2.1.eq typed typed' plain plain')

theorem Provenance.Twins.provenance_ne {floats : Floats F} {asks asks' : Provenance F}
    (twins : asks.Twins floats asks') : asks ≠ asks' := by
  rintro rfl
  cases asks with
  | means | relevance => exact twins
  | unit => exact twins.1 rfl

end Keys

section Injective

variable {libraries : Libraries F} {parseF64 : String → Option F}

theorem asBytes_inj {text text' : String} : asBytes text = asBytes text' ↔ text = text' := by
  constructor
  · intro same
    apply String.toByteArray_inj.mp
    exact ByteArray.ext (Array.toList_inj.mp same)
  · intro same
    rw [same]

theorem record_eq_iff {floats : Floats F} (printed : PrintedFloats floats parseF64)
    {spec spec' : FieldSpec F} (is : IsFieldType spec.ty) (is' : IsFieldType spec'.ty) :
    [spec.name, spec.ty.display floats, spec.doc] = [spec'.name, spec'.ty.display floats, spec'.doc] ↔
      spec.name = spec'.name ∧ Alike floats spec.ty spec'.ty ∧ spec.doc = spec'.doc := by
  rw [← display_eq_iff printed is is']
  simp

/-- Units digest the same parts exactly when they are alike. -/
theorem unitParts_eq_iff {floats : Floats F} (printed : PrintedFloats floats parseF64)
    {specs specs' : List (FieldSpec F)} (types : ∀ spec ∈ specs, IsFieldType spec.ty)
    (types' : ∀ spec ∈ specs', IsFieldType spec.ty) :
    unitParts floats specs = unitParts floats specs' ↔ AlikeUnits floats specs specs' := by
  have bytes : Function.Injective asBytes := fun _ _ => asBytes_inj.mp
  have sized : ∀ spec : FieldSpec F, [spec.name, spec.ty.display floats, spec.doc].length = 3 :=
    fun _ => rfl
  rw [unitParts, unitParts, (List.map_injective_iff.mpr bytes).eq_iff,
    flatMap_eq_flatMap_iff sized (by decide)]
  induction specs generalizing specs' with
  | nil => cases specs' <;> simp [AlikeUnits]
  | cons spec rest ih =>
    cases specs' with
    | nil => simp [AlikeUnits]
    | cons spec' rest' =>
      obtain ⟨is, rest_types⟩ := List.forall_mem_cons.mp types
      obtain ⟨is', rest_types'⟩ := List.forall_mem_cons.mp types'
      rw [List.forall₂_cons, record_eq_iff printed is is', AlikeUnits, List.forall₂_cons]
      exact and_congr_right fun _ => ih rest_types rest_types'

theorem name_hash_inj {name name' : String} {hash hash' : BitVec 128}
    (same : name ++ "@" ++ String.ofList (Nat.toDigits 16 hash.toNat) =
      name' ++ "@" ++ String.ofList (Nat.toDigits 16 hash'.toNat)) : name = name' ∧ hash = hash' := by
  have free : ∀ n, '@' ∉ Nat.toDigits 16 n := by
    intro n digit
    obtain ⟨d, small, same⟩ := exists_digitChar_of_mem_toDigits (by decide) digit
    revert same
    have every : ∀ d < 16, '@' ≠ Nat.digitChar d := by decide
    exact every d small
  have characters := congrArg String.toList same
  simp only [String.toList_append, String.toList_ofList, List.append_assoc] at characters
  obtain ⟨names, digits⟩ := append_cons_inj_of_last (free _) (free _) characters
  exact ⟨String.toList_inj.mp names,
    BitVec.eq_of_toNat_eq (toDigits_inj (by decide) (by decide) digits)⟩

/-- The key of a `MEANS` verdict tells everything about it. -/
theorem meansCacheKey_inj {condition condition' input input' : String} {modelId modelId' : ModelId}
    {scheme scheme' : MeansScheme}
    (injective : Set.InjOn (stableDigest libraries.blake3) ({[asBytes input]} ∪ {[asBytes input']}))
    (same : meansCacheKey libraries.blake3 condition input modelId scheme.promptVersion =
      meansCacheKey libraries.blake3 condition' input' modelId' scheme'.promptVersion) :
    scheme = scheme' ∧ condition = condition' ∧ modelId = modelId' ∧ input = input' := by
  simp only [meansCacheKey, CacheKey.mk.injEq, true_and] at same
  obtain ⟨conditions, digests, models, versions⟩ := same
  have inputs := injective (Or.inl rfl) (Or.inr rfl) digests
  exact ⟨MeansScheme.promptVersion_inj versions, conditions, models,
    asBytes_inj.mp (List.cons.inj inputs).1⟩

/-- The key of a score tells everything about it. -/
theorem relevanceCacheKey_inj {query query' input input' : String} {modelId modelId' : ModelId}
    (injective : Set.InjOn (stableDigest libraries.blake3) ({[asBytes input]} ∪ {[asBytes input']}))
    (same : relevanceCacheKey libraries.blake3 query input modelId =
      relevanceCacheKey libraries.blake3 query' input' modelId') :
    query = query' ∧ modelId = modelId' ∧ input = input' := by
  simp only [relevanceCacheKey, CacheKey.mk.injEq, true_and, and_true] at same
  obtain ⟨queries, digests, models⟩ := same
  have inputs := injective (Or.inl rfl) (Or.inr rfl) digests
  exact ⟨queries, models, asBytes_inj.mp (List.cons.inj inputs).1⟩

/-- The key of an extracted field tells all but the types that are alike. -/
theorem cacheKey_eq_iff (printed : PrintedFloats libraries.floats parseF64)
    {extractor extractor' : Extractor} {specs specs' : List (FieldSpec F)}
    {field field' input input' : String} (types : ∀ spec ∈ specs, IsFieldType spec.ty)
    (types' : ∀ spec ∈ specs', IsFieldType spec.ty)
    (injective : Set.InjOn (stableDigest libraries.blake3)
      ({[asBytes input], unitParts libraries.floats specs} ∪
        {[asBytes input'], unitParts libraries.floats specs'})) :
    cacheKey libraries extractor specs field input =
        cacheKey libraries extractor' specs' field' input' ↔
      AlikeUnits libraries.floats specs specs' ∧
        extractor = extractor' ∧ field = field' ∧ input = input' := by
  constructor
  · intro same
    simp only [cacheKey, CacheKey.mk.injEq, and_true] at same
    obtain ⟨versions, fields, digests, models⟩ := same
    obtain ⟨names, hashes⟩ := name_hash_inj versions
    have parts := injective (Or.inl (Or.inr rfl)) (Or.inr (Or.inr rfl)) hashes
    have inputs := injective (Or.inl (Or.inl rfl)) (Or.inr (Or.inl rfl)) digests
    refine ⟨(unitParts_eq_iff printed types types').mp parts, ?_, fields,
      asBytes_inj.mp (List.cons.inj inputs).1⟩
    cases extractor
    cases extractor'
    simp_all
  · rintro ⟨alike, rfl, rfl, rfl⟩
    have parts := (unitParts_eq_iff printed types types').mpr alike
    have hashes : unitHash libraries.blake3 libraries.floats specs =
        unitHash libraries.blake3 libraries.floats specs' :=
      congrArg (stableDigest libraries.blake3) parts
    rw [cacheKey, cacheKey, hashes]

theorem alikeUnits_refl {floats : Floats F} (specs : List (FieldSpec F)) :
    AlikeUnits floats specs specs :=
  List.forall₂_same.mpr fun spec _ => ⟨rfl, Alike.refl spec.ty, rfl⟩

/-- Two questions have one key exactly when they have one provenance, or are twins. -/
theorem Provenance.key_eq_iff (printed : PrintedFloats libraries.floats parseF64)
    {asks asks' : Provenance F} (typed : asks.Typed) (typed' : asks'.Typed)
    (injective : Set.InjOn (stableDigest libraries.blake3)
      (asks.digested libraries.floats ∪ asks'.digested libraries.floats)) :
    asks.key libraries = asks'.key libraries ↔ asks = asks' ∨ asks.Twins libraries.floats asks' := by
  cases asks with
  | means scheme condition modelId input =>
    cases asks' with
    | means scheme' condition' modelId' input' =>
      constructor
      · intro same
        obtain ⟨rfl, rfl, rfl, rfl⟩ := meansCacheKey_inj injective same
        exact Or.inl rfl
      · rintro (same | twins)
        · rw [same]
        · exact twins.elim
    | relevance query' modelId' input' =>
      simp [key, meansCacheKey, relevanceCacheKey, Twins]
    | unit extractor' specs' field' input' =>
      cases scheme <;> simp [key, meansCacheKey, cacheKey, Twins, MeansScheme.promptVersion,
        meansPromptVersion, meansChunkedPromptVersion, classifyPromptVersion, extractPromptVersion]
  | relevance query modelId input =>
    cases asks' with
    | means scheme' condition' modelId' input' =>
      simp [key, meansCacheKey, relevanceCacheKey, Twins]
    | relevance query' modelId' input' =>
      constructor
      · intro same
        obtain ⟨rfl, rfl, rfl⟩ := relevanceCacheKey_inj injective same
        exact Or.inl rfl
      · rintro (same | twins)
        · rw [same]
        · exact twins.elim
    | unit extractor' specs' field' input' =>
      simp [key, relevanceCacheKey, cacheKey, Twins, relevancePromptVersion, extractPromptVersion]
  | unit extractor specs field input =>
    cases asks' with
    | means scheme' condition' modelId' input' =>
      cases scheme' <;> simp [key, meansCacheKey, cacheKey, Twins, MeansScheme.promptVersion,
        meansPromptVersion, meansChunkedPromptVersion, classifyPromptVersion, extractPromptVersion]
    | relevance query' modelId' input' =>
      simp [key, relevanceCacheKey, cacheKey, Twins, relevancePromptVersion, extractPromptVersion]
    | unit extractor' specs' field' input' =>
      rw [key, key, cacheKey_eq_iff printed typed typed' injective]
      by_cases same : specs = specs'
      · subst same
        simp [Twins, alikeUnits_refl]
      · simp [Twins, same]

end Injective

/-- The key of a question tells what it asks, unless another asks for a unit whose
types print alike. -/
theorem key_provenance_iff {sql : SqlText F} {libraries : Libraries F}
    (printed : PrintedFloats libraries.floats sql.parseF64) {question question' : Question ρ ε F}
    (asked : question.Asked sql libraries.floats) (asked' : question'.Asked sql libraries.floats)
    (injective : Set.InjOn (stableDigest libraries.blake3)
      (question.provenance.digested libraries.floats ∪
        question'.provenance.digested libraries.floats)) :
    (question.key libraries = question'.key libraries →
        question.provenance = question'.provenance) ↔
      ¬ question.provenance.Twins libraries.floats question'.provenance := by
  rw [question.key_eq, question'.key_eq,
    Provenance.key_eq_iff printed asked.typed asked'.typed injective]
  constructor
  · intro told twins
    exact twins.provenance_ne (told (Or.inr twins))
  · rintro apart (same | twins)
    · exact same
    · exact absurd twins apart

/-- Without commas in variants and NaN bounds, one key is one question. -/
theorem provenance_of_key {libraries : Libraries F} {parseF64 : String → Option F}
    (printed : PrintedFloats libraries.floats parseF64) {asks asks' : Provenance F}
    (typed : asks.Typed) (typed' : asks'.Typed) (plain : asks.Plain libraries.floats)
    (plain' : asks'.Plain libraries.floats)
    (injective : Set.InjOn (stableDigest libraries.blake3)
      (asks.digested libraries.floats ∪ asks'.digested libraries.floats))
    (same : asks.key libraries = asks'.key libraries) : asks = asks' := by
  rcases (Provenance.key_eq_iff printed typed typed' injective).mp same with same | twins
  · exact same
  · exact absurd twins (Provenance.not_twins_of_plain typed typed' plain plain')

section Example

/-- The key of a verdict does not depend on JSON; the hash is the text itself. -/
def textLibraries : Libraries Int where
  blake3 := id
  floats := wholeFloats
  json := ⟨fun _ => none, fun _ => ""⟩

/-- The digits of a whole number have no point among them. -/
theorem point_notMem_display (n : Int) : '.' ∉ (wholeFloats.display n).toList := by
  have digits : ∀ n : Nat, '.' ∉ Nat.toDigits 10 n := by
    intro n point
    exact absurd (Nat.isDigit_of_mem_toDigits (by decide) (by decide) point) (by decide)
  change '.' ∉ n.repr.toList
  rw [Int.repr_eq_if]
  split
  · rw [Nat.toList_repr]
    exact digits _
  · rw [String.toList_append, Nat.toList_repr, List.mem_append]
    rintro (sign | digit)
    · exact absurd sign (by decide)
    · exact digits _ digit

theorem wholeFloats_printed : PrintedFloats wholeFloats asciiSql.parseF64 where
  parses x _ := Int.toInt?_repr x
  nan x odd := by simp [wholeFloats] at odd
  parsesNan x parsed := by
    change String.toInt? "NaN" = some x at parsed
    have digits := String.isInt_of_toInt?_eq_some parsed
    rw [String.isInt_iff] at digits
    rcases digits with digits | ⟨rest, signed, -⟩
    · exact absurd ((String.isNat_iff.mp digits).2.1 'N' (by decide)) (by decide)
    · have sign := congrArg String.toList signed
      simp [String.toList_append] at sign
  noRange x range := by
    have points := range.sublist.count_le '.'
    rw [List.count_append, List.count_eq_zero.mpr (point_notMem_display x)] at points
    exact absurd points (by decide)

/-- `Tags AS (tag ONEOF(..) 'the kind')`. -/
def tagsTokens (variants : List Token) : List Token :=
  [.word "Tags" none, .word "AS" none, .lParen, .word "tag" none, .word "ONEOF" none, .lParen] ++
    variants ++ [.rParen, .singleQuotedString "the kind", .rParen]

def tagUnit (variants : List String) : List (FieldSpec Int) :=
  [⟨"tag", .oneOf variants, "the kind"⟩]

def tagQuestion (variants : List String) : Question Unit Unit Int :=
  .extract ⟨"Tags", ⟨"haiku"⟩⟩ (tagUnit variants) "tag" "minutes"

/-- One variant, which is quoted: `ONEOF("spam,ham")`. -/
theorem quoted_asked : (tagQuestion ["spam,ham"]).Asked asciiSql wholeFloats := by
  refine ⟨Or.inl ⟨tagsTokens [.word "spam,ham" (some '"')],
    ⟨"Tags", "0", tagUnit ["spam,ham"], []⟩, by decide +kernel, rfl, _, Or.inl rfl, ?_⟩, by decide⟩
  decide

/-- Two variants: `ONEOF(spam, ham)`. -/
theorem listed_asked : (tagQuestion ["spam", "ham"]).Asked asciiSql wholeFloats := by
  refine ⟨Or.inl ⟨tagsTokens [.word "spam" none, .comma, .word "ham" none],
    ⟨"Tags", "0", tagUnit ["spam", "ham"], []⟩, by decide +kernel, rfl, _, Or.inl rfl, ?_⟩,
    by decide⟩
  decide

theorem tags_digest_injective :
    Set.InjOn (stableDigest textLibraries.blake3)
      ((tagQuestion ["spam,ham"]).provenance.digested wholeFloats ∪
        (tagQuestion ["spam", "ham"]).provenance.digested wholeFloats) := by
  have parts : unitParts wholeFloats (tagUnit ["spam,ham"]) =
      unitParts wholeFloats (tagUnit ["spam", "ham"]) := by decide +kernel
  have apart : stableDigest textLibraries.blake3 [asBytes "minutes"] ≠
      stableDigest textLibraries.blake3 (unitParts wholeFloats (tagUnit ["spam", "ham"])) := by
    decide +kernel
  change Set.InjOn _ ({[asBytes "minutes"], unitParts wholeFloats (tagUnit ["spam,ham"])} ∪
    {[asBytes "minutes"], unitParts wholeFloats (tagUnit ["spam", "ham"])})
  rw [parts, Set.union_self]
  rintro first (rfl | rfl) second (rfl | rfl) same
  · rfl
  · exact absurd same apart
  · exact absurd same.symm apart
  · rfl

/-- The two declarations share their answers. -/
theorem tags_share_key :
    (tagQuestion ["spam,ham"]).Asked asciiSql wholeFloats ∧
      (tagQuestion ["spam", "ham"]).Asked asciiSql wholeFloats ∧
      Set.InjOn (stableDigest textLibraries.blake3)
        ((tagQuestion ["spam,ham"]).provenance.digested wholeFloats ∪
          (tagQuestion ["spam", "ham"]).provenance.digested wholeFloats) ∧
      (tagQuestion ["spam,ham"]).key textLibraries = (tagQuestion ["spam", "ham"]).key textLibraries ∧
      (tagQuestion ["spam,ham"]).provenance ≠ (tagQuestion ["spam", "ham"]).provenance := by
  refine ⟨quoted_asked, listed_asked, tags_digest_injective, by decide +kernel, ?_⟩
  intro same
  have units := (Provenance.unit.inj same).2.1
  exact absurd units (by decide)

/-- The declarations are twins, so their keys do not tell them apart. -/
theorem tags_not_told_apart :
    ¬ ((tagQuestion ["spam,ham"]).key textLibraries = (tagQuestion ["spam", "ham"]).key textLibraries →
      (tagQuestion ["spam,ham"]).provenance = (tagQuestion ["spam", "ham"]).provenance) := by
  rw [key_provenance_iff wholeFloats_printed quoted_asked listed_asked tags_digest_injective,
    not_not]
  refine ⟨by decide, List.Forall₂.cons ⟨rfl, ?_, rfl⟩ List.Forall₂.nil, rfl, rfl, rfl⟩
  change ",".intercalate ["spam,ham"] = ",".intercalate ["spam", "ham"]
  decide +kernel

end Example

end Semcast.Questions
