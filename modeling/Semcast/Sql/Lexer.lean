import Mathlib.Data.List.Basic
import Semcast.Sql.Proofs.Printed
import Semcast.Types.Registry

/-!
# Field types as text

What the grammar of field types relies on when it reads a printed type: the tokenizer of the
`sqlparser` crate, which is outside the repository, taken by the tokens it finds. Its laws say
where a word without quotes ends and how much text a word takes up.
-/

namespace Semcast.Ddl

open Semcast.Types Verify

/-- The tokens of a text. -/
def Lexes (tokenize : String → Except String (List Token)) (text : List Char)
    (tokens : List Token) : Prop :=
  tokenize (String.ofList text) = .ok tokens

/-- A word that the tokenizer reads without quotes. -/
def Bare (tokenize : String → Except String (List Token)) (word : String) : Prop :=
  Lexes tokenize word.toList [.word word none]

/-- The tokens of one character that the grammar puts between words. -/
def separators : List (Char × Token) :=
  [('(', .lParen), (')', .rParen), ('[', .lBracket), (']', .rBracket), (',', .comma)]

/-- A text that does not go on with a word before it. -/
def Stops : List Char → Prop
  | [] => True
  | c :: _ => c = ' ' ∨ ∃ token, (c, token) ∈ separators

theorem stops_blank (text : List Char) : Stops (' ' :: text) :=
  Or.inl rfl

theorem stops_cons {c : Char} (token : Token) (known : (c, token) ∈ separators)
    (text : List Char) : Stops (c :: text) :=
  Or.inr ⟨token, known⟩

/-- How the tokenizer reads from left to right. -/
structure LawfulTokenizer (tokenize : String → Except String (List Token)) : Prop where
  empty : ∀ {tokens}, Lexes tokenize [] tokens ↔ tokens = []
  blank : ∀ {text tokens}, Lexes tokenize (' ' :: text) tokens ↔ Lexes tokenize text tokens
  separator : ∀ {c token}, (c, token) ∈ separators → ∀ {text tokens},
    Lexes tokenize (c :: text) tokens ↔
      ∃ rest, tokens = token :: rest ∧ Lexes tokenize text rest
  /-- A word takes all it can. -/
  word : ∀ {word}, Bare tokenize word → ∀ {text}, Stops text → ∀ {tokens},
    Lexes tokenize (word.toList ++ text) tokens ↔
      ∃ rest, tokens = .word word none :: rest ∧ Lexes tokenize text rest
  /-- A separator stands for its character; white space and comments may be skipped. -/
  ofSeparator : ∀ {c token}, (c, token) ∈ separators → ∀ {text rest},
    Lexes tokenize text (token :: rest) →
      ∃ skipped later, text = skipped ++ c :: later ∧ Lexes tokenize later rest
  /-- A word without quotes stands for itself, and one in quotes for less than its text. -/
  ofWord : ∀ {c token}, (c, token) ∈ separators → ∀ {text word quote rest},
    Lexes tokenize text (.word word quote :: token :: rest) →
      ∃ skipped written later, text = skipped ++ written ++ later ∧
        Lexes tokenize later (token :: rest) ∧
          (quote = none → written = word.toList ∧ Bare tokenize word) ∧
            (quote ≠ none → word.length + 2 ≤ written.length)

/-- The words of the grammar. -/
def keywords : List String := ["TEXT", "INT", "BOOL", "REAL", "ONEOF", "LEVEL", "CHECK"]

/-- What is documented of the calls that read a printed type: the tokenizer, the case of the
keywords, and the texts of numbers. -/
structure ReadsPrint {F : Type} (registry : TypeRegistry F)
    (tokenize : String → Except String (List Token)) : Prop where
  lawful : LawfulTokenizer tokenize
  bare : ∀ word ∈ keywords, Bare tokenize word
  uppercase : ∀ word ∈ keywords, registry.sql.toUppercase word = word
  printed : PrintedFloats registry.floats registry.sql.parseF64
  trimmed : ∀ x, trimMatches isWhitespace (registry.floats.display x).toList =
    (registry.floats.display x).toList
  /-- The tokens of a range print its text, wherever they are cut. -/
  range : ∀ min max {text rest}, Lexes tokenize text rest →
    ∃ range : List Token,
      Lexes tokenize ((registry.floats.display min).toList ++ '.' :: '.' ::
        (registry.floats.display max).toList ++ ')' :: text) (range ++ .rParen :: rest) ∧
      (∀ token ∈ range, token ≠ .rParen ∧ token ≠ .eof) ∧
      String.join (range.map registry.sql.display) =
        registry.floats.display min ++ ".." ++ registry.floats.display max

variable {F : Type} {tokenize : String → Except String (List Token)} {text : List Char}

theorem Lexes.unique {tokens tokens' : List Token} (lexes : Lexes tokenize text tokens)
    (lexes' : Lexes tokenize text tokens') : tokens = tokens' :=
  Except.ok.inj (lexes.symm.trans lexes')

end Semcast.Ddl
