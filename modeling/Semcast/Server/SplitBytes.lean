import Semcast.Misc.Utf8
import Semcast.Server.Router

/-!
# Splitting a query string by its bytes

Rendering of `split_statements` of `src/server/router.rs` with its indices into the bytes
of the text. A slice of the text that is not at character boundaries is a panic, `none`.
-/

namespace Semcast.Router.Bytes

open Utf8

/-- The loop of `skip_quoted`, at the index `i` and with these bytes from there on. -/
def skipQuotedFrom (quote : UInt8) (i : Nat) : List UInt8 → Nat
  | [] => i
  | b :: rest =>
    if b = quote then
      match rest with
      | [] => i + 1
      | next :: later => if next = quote then skipQuotedFrom quote (i + 2) later else i + 1
    else skipQuotedFrom quote (i + 1) rest

/-- `skip_quoted`. -/
def skipQuoted (bytes : List UInt8) (start : Nat) : Option Nat :=
  bytes[start]?.map fun quote => skipQuotedFrom quote (start + 1) (bytes.drop (start + 1))

/-- `str::find`: the offset of the first occurrence. -/
def find (delim text : List Char) : Option Nat :=
  (findBefore delim text).map size

/-- `skip_dollar_quoted`. -/
def skipDollarQuoted (isAlphanumeric : Char → Bool) (input : List Char) (start : Nat) :
    Option Nat := do
  let rest ← getFrom input (start + 1)
  match find ['$'] rest with
  | none => return start + 1
  | some tagLen =>
    let tag ← getTo rest tagLen
    if tag.all fun c => isAlphanumeric c || c == '_' then
      let delim ← get input start (start + tagLen + 2)
      let body ← getFrom input (start + size delim)
      match find delim body with
      | some n => return start + size delim + n + size delim
      | none => return size input
    else return start + 1

/-- The loop over a line comment. -/
def skipLine (bytes : List UInt8) (start : Nat) : Nat :=
  start + ((bytes.drop start).takeWhile (· ≠ byte '\n')).length

/-- The loop of `skip_block_comment`, at the index `i` and with these bytes from there on. -/
def skipBlockCommentFrom (depth : Int) (i : Nat) : List UInt8 → Nat
  | [] => i
  | [_] => i + 1
  | b :: next :: rest =>
    if b = byte '/' ∧ next = byte '*' then skipBlockCommentFrom (depth + 1) (i + 2) rest
    else if b = byte '*' ∧ next = byte '/' then
      if depth - 1 = 0 then i + 2 else skipBlockCommentFrom (depth - 1) (i + 2) rest
    else skipBlockCommentFrom depth (i + 1) (next :: rest)

/-- `skip_block_comment`. -/
def skipBlockComment (bytes : List UInt8) (start : Nat) : Nat :=
  skipBlockCommentFrom 0 start (bytes.drop start)

/-- One round of the loop of `split_statements`, at a byte that is no semicolon. -/
def skip (isAlphanumeric : Char → Bool) (input : List Char) (i : Nat) (b : UInt8) : Option Nat :=
  let bytes := encode input
  if b = byte '\'' ∨ b = byte '"' then skipQuoted bytes i
  else if b = byte '$' then skipDollarQuoted isAlphanumeric input i
  else if b = byte '-' ∧ bytes[i + 1]? = some (byte '-') then some (skipLine bytes i)
  else if b = byte '/' ∧ bytes[i + 1]? = some (byte '*') then some (skipBlockComment bytes i)
  else some (i + 1)

/-- The loop of `split_statements`. Each round takes a byte at least, so `fuel` is the
number of bytes. -/
def splitFrom (isAlphanumeric : Char → Bool) (input : List Char) :
    Nat → Nat → Nat → Option (List String)
  | 0, start, _ => (getFrom input start).map fun piece => (statement piece).toList
  | fuel + 1, start, i =>
    match (encode input)[i]? with
    | none => (getFrom input start).map fun piece => (statement piece).toList
    | some b =>
      if b = byte ';' then do
        let piece ← get input start i
        let stmts ← splitFrom isAlphanumeric input fuel (i + 1) (i + 1)
        return (statement piece).toList ++ stmts
      else (skip isAlphanumeric input i b).bind (splitFrom isAlphanumeric input fuel start)

/-- `split_statements`. -/
def splitStatements (isAlphanumeric : Char → Bool) (input : String) : Option (List String) :=
  splitFrom isAlphanumeric input.toList (size input.toList) 0 0

end Semcast.Router.Bytes
