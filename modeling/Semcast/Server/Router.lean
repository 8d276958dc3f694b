import Semcast.Physical.Verify

/-!
# Splitting a query string

Rendering of `split_statements` of `src/server/router.rs`. The source walks the bytes of
the text; every byte it looks for is an ASCII character, so the characters are walked
here. `char::is_alphanumeric` is a parameter.
-/

namespace Semcast.Router

open Verify

/-- What is skipped of a text, and what is left of it. -/
structure Skipped where
  run : List Char
  left : List Char
  deriving DecidableEq

/-- The run goes on with these characters before. -/
def Skipped.after (start : List Char) (skipped : Skipped) : Skipped :=
  { skipped with run := start ++ skipped.run }

/-- `skip_quoted`, past the opening quote. Doubling the delimiter escapes it. -/
def skipQuoted (quote : Char) : List Char → Skipped
  | [] => ⟨[], []⟩
  | c :: rest =>
    if c = quote then
      match rest with
      | [] => ⟨[c], []⟩
      | next :: later =>
        if next = quote then (skipQuoted quote later).after [c, next] else ⟨[c], rest⟩
    else (skipQuoted quote rest).after [c]

/-- `str::find`: what stands before the first occurrence of `delim`. -/
def findBefore (delim : List Char) : List Char → Option (List Char)
  | [] => if delim.isEmpty then some [] else none
  | c :: rest =>
    if delim.isPrefixOf (c :: rest) then some []
    else (findBefore delim rest).map (c :: ·)

/-- The tag between this `$`, which is dropped, and the next, where these open a quote. -/
def dollarTag (isAlphanumeric : Char → Bool) (rest : List Char) : Option (List Char) :=
  let tag := rest.takeWhile (· ≠ '$')
  if tag.length < rest.length && tag.all (fun c => isAlphanumeric c || c == '_') then some tag
  else none

/-- `skip_dollar_quoted`, past the first `$`; only this `$` where it opens no quote. -/
def skipDollarQuoted (isAlphanumeric : Char → Bool) (rest : List Char) : Skipped :=
  match dollarTag isAlphanumeric rest with
  | none => ⟨['$'], rest⟩
  | some tag =>
    let delim := '$' :: tag ++ ['$']
    let body := rest.drop (tag.length + 1)
    match findBefore delim body with
    | some before =>
      ⟨delim ++ before ++ delim, body.drop (before.length + delim.length)⟩
    | none => ⟨'$' :: rest, []⟩

/-- `skip_block_comment`, at this depth. -/
def skipBlockComment : Int → List Char → Skipped
  | depth, '/' :: '*' :: rest => (skipBlockComment (depth + 1) rest).after ['/', '*']
  | depth, '*' :: '/' :: rest =>
    if depth - 1 = 0 then ⟨['*', '/'], rest⟩
    else (skipBlockComment (depth - 1) rest).after ['*', '/']
  | depth, c :: rest => (skipBlockComment depth rest).after [c]
  | _, [] => ⟨[], []⟩

/-- One round of the loop of `split_statements`, at a character that is no semicolon. -/
def skip (isAlphanumeric : Char → Bool) (c : Char) (rest : List Char) : Skipped :=
  if c = '\'' ∨ c = '"' then (skipQuoted c rest).after [c]
  else if c = '$' then skipDollarQuoted isAlphanumeric rest
  else if c = '-' ∧ rest.head? = some '-' then
    ⟨c :: rest.takeWhile (· ≠ '\n'), rest.dropWhile (· ≠ '\n')⟩
  else if c = '/' ∧ rest.head? = some '*' then skipBlockComment 0 (c :: rest)
  else ⟨[c], rest⟩

/-- The loop of `split_statements`: the texts between the cuts, the one under way being
`current`. Each round takes a character at least, so `fuel` is the length of the text. -/
def piecesFrom (isAlphanumeric : Char → Bool) : Nat → List Char → List Char → List (List Char)
  | _, current, [] => [current]
  | 0, current, _ => [current]
  | fuel + 1, current, c :: rest =>
    if c = ';' then current :: piecesFrom isAlphanumeric fuel [] rest
    else
      let skipped := skip isAlphanumeric c rest
      piecesFrom isAlphanumeric fuel (current ++ skipped.run) skipped.left

/-- The texts that `split_statements` cuts its input into. -/
def pieces (isAlphanumeric : Char → Bool) (input : List Char) : List (List Char) :=
  piecesFrom isAlphanumeric input.length [] input

/-- The statement that a piece makes: trimmed, and dropped if nothing is left. -/
def statement (piece : List Char) : Option String :=
  let stmt := trimMatches isWhitespace piece
  if stmt.isEmpty then none else some (String.ofList stmt)

/-- `split_statements` (`src/server/router.rs:39-70`). -/
def splitStatements (isAlphanumeric : Char → Bool) (input : String) : List String :=
  (pieces isAlphanumeric input.toList).filterMap statement

example : splitStatements Char.isAlphanum "SELECT $q$a; b$q$; SELECT 'it''s; fine' -- c;\n; ;" =
    ["SELECT $q$a; b$q$", "SELECT 'it''s; fine' -- c;"] := by decide +kernel

end Semcast.Router
