import Semcast.Misc.Fallible
import Semcast.Physical.Verify

/-!
# Trailing clauses

Rendering of `src/sql/recall.rs`: the `WITH <knob> <value>` clauses after a statement, read
off the tokens that are left where the statement ends. Tokens come from the `sqlparser`
crate, without its whitespace tokens; no token is the end of the statement.
-/

namespace Semcast.Recall

open Verify

/-- `Token`, as far as `trailing_clauses` tells tokens apart. -/
inductive Token where
  | word (value : String) (quoteStyle : Option Char)
  | number (text : String)
  | semiColon
  /-- Any other token, by its text. -/
  | other (text : String)
  deriving DecidableEq

/-- What the parser of the clauses calls outside the repository, with numbers in `F`. -/
structure ClauseText (F : Type) where
  /-- `Display` of a token, `EOF` for none. -/
  display : Option Token → String
  /-- The error of `expect_token(&Token::EOF)` where this token is found. -/
  unexpected : Token → String
  /-- `str::parse::<f64>`. -/
  parseF64 : String → Except String F
  /-- `Display` of an `f64`. -/
  displayF64 : F → String
  /-- `str::to_lowercase`. -/
  toLowercase : String → String
  /-- `str::to_uppercase`. -/
  toUppercase : String → String

/-- The fields of `TrailingClauses`. -/
inductive Knob where
  | recall
  | confidence
  | similarity
  deriving DecidableEq

variable {F : Type}

/-- `TrailingClauses` (`src/sql/recall.rs:22-30`). -/
structure TrailingClauses (F : Type) where
  «recall» : Option F
  confidence : Option F
  similarity : Option F
  deriving DecidableEq

namespace TrailingClauses

/-- `TrailingClauses::default`. -/
def default : TrailingClauses F :=
  ⟨none, none, none⟩

/-- The `slot` of a knob. -/
def slot (clauses : TrailingClauses F) : Knob → Option F
  | .recall => clauses.recall
  | .confidence => clauses.confidence
  | .similarity => clauses.similarity

/-- The clauses with a value in this slot. -/
def setSlot (clauses : TrailingClauses F) (value : F) : Knob → TrailingClauses F
  | .recall => { clauses with «recall» := some value }
  | .confidence => { clauses with confidence := some value }
  | .similarity => { clauses with similarity := some value }

@[ext]
theorem ext_slot {clauses other : TrailingClauses F}
    (same : ∀ knob, clauses.slot knob = other.slot knob) : clauses = other := by
  cases clauses
  cases other
  simp only [mk.injEq]
  exact ⟨same .recall, same .confidence, same .similarity⟩

@[simp]
theorem slot_default (knob : Knob) : (default : TrailingClauses F).slot knob = none := by
  cases knob <;> rfl

@[simp]
theorem slot_setSlot_self (clauses : TrailingClauses F) (value : F) (knob : Knob) :
    (clauses.setSlot value knob).slot knob = some value := by
  cases knob <;> rfl

@[simp]
theorem slot_setSlot_of_ne (clauses : TrailingClauses F) (value : F) {knob other : Knob}
    (apart : other ≠ knob) : (clauses.setSlot value knob).slot other = clauses.slot other := by
  cases knob <;> cases other <;> first | rfl | exact absurd rfl apart

end TrailingClauses

/-- The keyword `WITH`; a word in quotes is none. -/
def Token.isWith : Token → Bool
  | .word value quoteStyle => quoteStyle.isNone && eqIgnoreAsciiCase value.toList "WITH".toList
  | _ => false

/-- The knob that a word in small letters names. -/
def knobOf (word : String) : Option Knob :=
  if word = "recall" then some .recall
  else if word = "confidence" then some .confidence
  else if word = "similarity" then some .similarity
  else none

/-- `EXPECTED_KNOB` (`src/sql/recall.rs:70`). -/
def expectedKnob : String :=
  "expected RECALL, CONFIDENCE or SIMILARITY after trailing WITH"

section Parser

variable (sql : ClauseText F)

/-- The slot that the token after `WITH` names, and how an error spells it. -/
def readKnob (token : Option Token) : Except String (Knob × String) :=
  match token with
  | some (.word value _) =>
    let knob := sql.toLowercase value
    match knobOf knob with
    | some slot => .ok (slot, sql.toUppercase knob)
    | none => .error (expectedKnob ++ ", got " ++ knob)
  | other => .error (expectedKnob ++ ", got " ++ sql.display other)

variable [Zero F] [One F] [LT F] [LE F] [DecidableLT F] [DecidableLE F]

/-- `parse_fraction` (`src/sql/recall.rs:75-92`). -/
def parseFraction (knob : String) (token : Option Token) : Except String F :=
  match token with
  | some (.number number) =>
    match sql.parseF64 number with
    | .ok target =>
      if 0 < target ∧ target ≤ 1 then .ok target
      else .error ("WITH " ++ knob ++ " must be in (0, 1], got " ++ sql.displayF64 target)
    | .error error =>
      .error ("WITH " ++ knob ++ " expects a number, got " ++ number ++ ": " ++ error)
  | other =>
    .error ("WITH " ++ knob ++ " expects a number in (0, 1], got " ++ sql.display other)

/-- What the loop of `trailing_clauses` does with the two tokens after a `WITH`. -/
def readClause (clauses : TrailingClauses F) (first second : Option Token) :
    Except String (TrailingClauses F) := do
  let (knob, name) ← readKnob sql first
  if (clauses.slot knob).isSome then .error ("WITH " ++ name ++ " given twice")
  else do
    let value ← parseFraction sql name second
    return clauses.setSlot value knob

/-- The loop of `trailing_clauses`, and the tokens that it leaves. -/
def clausesFrom (clauses : TrailingClauses F) :
    List Token → Except String (TrailingClauses F × List Token)
  | [] => .ok (clauses, [])
  | token :: rest =>
    if token.isWith then
      match rest with
      | first :: second :: rest => do
        let clauses ← readClause sql clauses (some first) (some second)
        clausesFrom clauses rest
      -- A clause that the statement ends in is none: no number is left for it.
      | [first] => (readClause sql clauses (some first) none).map fun clauses => (clauses, [])
      | [] => (readClause sql clauses none none).map fun clauses => (clauses, [])
    else .ok (clauses, token :: rest)

/-- `Parser::consume_token` of a semicolon. -/
def consumeSemiColon : List Token → List Token
  | .semiColon :: rest => rest
  | tokens => tokens

/-- `trailing_clauses` (`src/sql/recall.rs:34-68`). -/
def trailingClauses (tokens : List Token) : Except String (TrailingClauses F) := do
  let (clauses, rest) ← clausesFrom sql .default tokens
  match consumeSemiColon rest with
  | [] => return clauses
  | token :: _ => .error ("unexpected trailing input: " ++ sql.unexpected token)

end Parser

end Semcast.Recall
