import Semcast.Sql.Visit

/-!
# `SELECT SEMANTIC DISTINCT ON`

Rendering of `src/sql/distinct.rs`, with the part of `sql` of `src/lib.rs` that calls it.
The tokenizer and the parser are parameters. A token comes with the text it was cut from,
and the texts of all tokens make up the query.
-/

namespace Semcast.SemanticDistinct

open Ast

/-- The keyword that a word is. -/
inductive Keyword where
  | distinct
  | other
  deriving DecidableEq

/-- `Word`. No spelling of `SEMANTIC` is the keyword `DISTINCT`. -/
structure Word where
  value : String
  quoteStyle : Option Char
  keyword : Keyword
  keyword_ne : keyword = .distinct →
    Verify.eqIgnoreAsciiCase value.toList "SEMANTIC".toList = false

/-- `Token`, as far as `strip_semantic_distinct` tells tokens apart. Comments are
whitespace. -/
inductive Token where
  | word (word : Word)
  | whitespace
  | other

/-- `TokenWithSpan`: the token with the text in its span. -/
structure TokenWithSpan where
  token : Token
  text : String

/-- `Token::Whitespace`. -/
def Token.isWhitespace : Token → Bool
  | .whitespace => true
  | _ => false

/-- The word `SEMANTIC`. -/
def Token.isSemantic : Token → Bool
  | .word w => w.quoteStyle.isNone && Verify.eqIgnoreAsciiCase w.value.toList "SEMANTIC".toList
  | _ => false

/-- The keyword `DISTINCT`. -/
def Token.isDistinct : Token → Bool
  | .word w => w.keyword = .distinct
  | _ => false

/-- The first token that is no whitespace is a `DISTINCT`. -/
def distinctNext : List TokenWithSpan → Bool
  | [] => false
  | token :: rest =>
    if token.token.isWhitespace then distinctNext rest else token.token.isDistinct

/-- Whether a token is one of the `cuts`, with those after it. -/
def isCut (token : TokenWithSpan) (rest : List TokenWithSpan) : Bool :=
  token.token.isSemantic && distinctNext rest

/-- The tokens without the `cuts`. -/
def withoutCuts : List TokenWithSpan → List TokenWithSpan
  | [] => []
  | token :: rest => if isCut token rest then withoutCuts rest else token :: withoutCuts rest

/-- Whether there are `cuts`. -/
def hasCuts : List TokenWithSpan → Bool
  | [] => false
  | token :: rest => isCut token rest || hasCuts rest

/-- `strip_semantic_distinct` (`src/sql/distinct.rs:40-81`). -/
def stripSemanticDistinct (tokenize : String → Option (List TokenWithSpan)) (sql : String) :
    String × Bool :=
  match tokenize sql with
  | none => (sql, false)
  | some tokens =>
    if hasCuts tokens then (String.join ((withoutCuts tokens).map TokenWithSpan.text), true)
    else (sql, false)

/-- `SEMANTIC_KEY_UDF_NAME`. -/
def semanticKeyUdfName : String := "semantic_key"

/-- `key_call` (`src/sql/distinct.rs:114-129`). -/
def keyCall (arg : Expr) : Expr :=
  .function [.new semanticKeyUdfName] [arg] []

/-- `MarkDistinct` (`src/sql/distinct.rs:94-96`, `src/sql/distinct.rs:101-111`), which looks at
the bodies of queries. -/
def markDistinct : Pass where
  identifier _ ident := .identifier ident
  wrap isBody _ expr := if isBody then keyCall expr else expr

/-- What a `DISTINCT ON` sets `marked` by. -/
def marks : Site → Bool
  | .distinctOn isBody _ _ => isBody
  | .identifier _ _ => false

/-- `mark_semantic_distinct` (`src/sql/distinct.rs:85-92`): the statement it leaves, and what it
returns. -/
def markSemanticDistinct (statement : Statement) : Statement × Bool :=
  (statement.rewrite (fun _ => []) markDistinct, (statement.sites fun _ => []).any marks)

/-- `SemcastStatement` (`src/sql/statement.rs:40-45`), without the trailing clauses. -/
inductive SemcastStatement (D : Type) where
  | ddl (ddl : D)
  | sql (statement : Statement)

/-- The message of a `SEMANTIC` that qualifies nothing. -/
def unqualifiedMessage : String :=
  "SEMANTIC only qualifies DISTINCT ON (<column>); a plain SEMANTIC DISTINCT has no column to " ++
    "compare"

/-- The start of `sql`, up to the statement with its `DISTINCT ON`s marked. Counterpart of
`parse_semcast_statement` (`src/sql/statement.rs:48-67`), `parse_statement_with_recall`
(`src/sql/statement.rs:71-79`). -/
def parseMarked {D : Type} (tokenize : String → Option (List TokenWithSpan))
    (parse : String → Except String (SemcastStatement D)) (sql : String) :
    Except String (SemcastStatement D) :=
  let (query, semanticDistinct) := stripSemanticDistinct tokenize sql
  match parse query with
  | .error message => .error message
  | .ok (.ddl ddl) => .ok (.ddl ddl)
  | .ok (.sql statement) =>
    if semanticDistinct then
      let (statement, marked) := markSemanticDistinct statement
      if marked then .ok (.sql statement) else .error unqualifiedMessage
    else .ok (.sql statement)

end Semcast.SemanticDistinct
