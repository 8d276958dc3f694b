import Semcast.Physical.Extract
import Semcast.Sql.Proofs.Accepted

/-!
# Field pushdown

A query that asks for some fields of a type extracts a pruned type. Its generation
units are whole units of the full type, so what one query caches another reads.
-/

namespace Semcast.Extract

open Model Json Semcast.Types Ddl

variable {F : Type}

/-- Units partition the fields of a declared type, and pruning it selects the units
with a requested field: it fails where there is no such field, and changes neither
the specs of a unit nor the keys it is cached under. -/
theorem pruned_generationUnits {sql : SqlText F} {floats : Floats F} {tokens : List Token}
    {ty : SemanticType F} (accepted : parseCreateType sql floats tokens = .ok ty) :
    (ty.generationUnits.flatten = ty.fields ∧ (ty.fields.map (·.name)).Nodup ∧
      ∀ unit ∈ ty.generationUnits, unit ≠ []) ∧
    ∀ requested : List String,
      ((∃ message, ty.pruned requested = .error message) ↔
        ∃ name ∈ requested, name ∉ ty.fields.map (·.name)) ∧
      ∀ kept, ty.pruned requested = .ok kept →
        kept.generationUnits = ty.generationUnits.filter (reaches requested) ∧
        ∀ (libraries : Libraries F) (modelId : ModelId), ∀ unit ∈ kept.generationUnits,
          ∀ field text, cacheKey libraries ⟨kept.name, modelId⟩ unit field text =
            cacheKey libraries ⟨ty.name, modelId⟩ unit field text := by
  obtain ⟨⟨units, layout⟩, -⟩ := parseCreateType_layout accepted
  rw [layout.generationUnits_eq]
  refine ⟨⟨layout.fields.symm, layout.distinct, layout.nonempty⟩, fun requested => ⟨?_, ?_⟩⟩
  · have succeeds : (∃ kept, ty.pruned requested = .ok kept) ↔ _ := pruned_ok_iff
    cases result : ty.pruned requested with
    | error message =>
      rw [result] at succeeds
      simpa using succeeds
    | ok kept =>
      rw [result] at succeeds
      simpa using succeeds
  · intro kept result
    obtain ⟨sameName, layout'⟩ := layout.pruned result
    refine ⟨layout'.generationUnits_eq, ?_⟩
    intro libraries modelId unit _ field text
    rw [sameName]

section Example

/-- `Display` of the tokens of an ASCII statement. -/
def asciiText : Token → String
  | .word value none => value
  | .word value (some quote) => String.ofList (quote :: value.toList ++ [quote])
  | .singleQuotedString value => "'" ++ value ++ "'"
  | .doubleQuotedString value => "\"" ++ value ++ "\""
  | .comma => ","
  | .lParen => "("
  | .rParen => ")"
  | .lBracket => "["
  | .rBracket => "]"
  | .semiColon => ";"
  | .other text => text
  | .eof => "EOF"

/-- The calls of the grammar on ASCII statements without fractions. The hash stands
for that of any release of the standard library. -/
def asciiSql : SqlText Int where
  display := asciiText
  expected := fun expected found =>
    "sql parser error: Expected: " ++ expected ++ ", found: " ++ asciiText found
  parseF64 := String.toInt?
  toUppercase := fun text => String.ofList (text.toList.map Char.toUpper)
  hash := fun _ _ => 0

/-- The whole numbers among the `f64`. -/
def wholeFloats : Floats Int where
  ofInt := id
  le := fun x y => decide (x ≤ y)
  isFinite := fun _ => true
  display := toString

/-- `MeetingFacts AS (products TEXT[] 'p', TOGETHER (stage ONEOF(idea, shipped) 's',
quote TEXT 'q'))`. -/
def declaredTokens : List Token :=
  [.word "MeetingFacts" none, .word "AS" none, .lParen,
    .word "products" none, .word "TEXT" none, .lBracket, .rBracket, .singleQuotedString "p", .comma,
    .word "TOGETHER" none, .lParen,
    .word "stage" none, .word "ONEOF" none, .lParen, .word "idea" none, .comma,
    .word "shipped" none, .rParen, .singleQuotedString "s", .comma,
    .word "quote" none, .word "TEXT" none, .singleQuotedString "q", .rParen, .rParen]

def declaredFacts : SemanticType Int where
  name := "MeetingFacts"
  version := "0"
  fields := [⟨"products", .list .text, "p"⟩, ⟨"stage", .oneOf ["idea", "shipped"], "s"⟩,
    ⟨"quote", .text, "q"⟩]
  together := [["stage", "quote"]]

theorem declaredFacts_accepted :
    parseCreateType asciiSql wholeFloats declaredTokens = .ok declaredFacts := by
  decide +kernel

/-- Asking for the quote extracts the group it is in, and that alone. -/
theorem declaredFacts_pruned :
    declaredFacts.generationUnits.flatten = declaredFacts.fields ∧
      (∃ message, declaredFacts.pruned ["quote", "owner"] = .error message) ∧
      ∃ kept, declaredFacts.pruned ["quote"] = .ok kept ∧
        kept.generationUnits =
          [[⟨"stage", .oneOf ["idea", "shipped"], "s"⟩, ⟨"quote", .text, "q"⟩]] := by
  obtain ⟨⟨partitions, -, -⟩, prunes⟩ := pruned_generationUnits declaredFacts_accepted
  refine ⟨partitions, ?_, ?_⟩
  · apply (prunes _).1.mpr
    exact ⟨"owner", by decide, by decide⟩
  · cases result : declaredFacts.pruned ["quote"] with
    | error message =>
      obtain ⟨name, asked, missing⟩ := (prunes _).1.mp ⟨message, result⟩
      cases List.mem_singleton.mp asked
      exact absurd (by decide) missing
    | ok kept =>
      refine ⟨kept, rfl, ?_⟩
      rw [((prunes _).2 kept result).1]
      decide

end Example

end Semcast.Extract
