import Semcast.Misc.Utf8
import Semcast.Sql.Distinct

/-!
# Cutting a statement at its tokens

Rendering of `src/sql/head.rs`, as far as it reads texts, and of the cuts of
`strip_semantic_distinct` by the spans of the tokens. The tokenizer is a parameter. A text
is a list of characters; a slice of it that is not at character boundaries is a panic.
-/

namespace Semcast.Head

open Utf8 SemanticDistinct

/-- `Location`, both from one on. -/
structure Location where
  line : Nat
  column : Nat
  deriving DecidableEq

/-- `Span`. -/
structure Span where
  start : Location
  stop : Location
  deriving DecidableEq

/-- `TokenWithSpan`. -/
structure TokenWithSpan where
  token : Token
  span : Span

/-- `line_offsets` (`src/sql/head.rs:99-107`): the byte offset of the start of each line. -/
def lineOffsets (sql : List Char) : List Nat :=
  0 :: (encode sql).zipIdx.filterMap fun place =>
    if place.1 = byte '\n' then some (place.2 + 1) else none

/-- `str::char_indices`, from this offset on. -/
def charIndices (start : Nat) : List Char → List (Nat × Char)
  | [] => []
  | c :: text => (start, c) :: charIndices (start + c.utf8Size) text

/-- `checked_sub`. -/
def checkedSub (a b : Nat) : Option Nat :=
  if b ≤ a then some (a - b) else none

/-- `byte_offset` (`src/sql/head.rs:112-121`). -/
def byteOffset (sql : List Char) (offsets : List Nat) (line column : Nat) : Option Nat := do
  let line ← checkedSub line 1
  let lineStart ← offsets[line]?
  let column ← checkedSub column 1
  let rest ← getFrom sql lineStart
  match (charIndices 0 rest)[column]? with
  | some place => return lineStart + place.1
  -- The location is the end of the text.
  | none => return size sql

/-- The unquoted word `keyword`. -/
def isKeyword (keyword : String) : Token → Bool
  | .word w => w.quoteStyle.isNone && Verify.eqIgnoreAsciiCase w.value.toList keyword.toList
  | _ => false

/-- `str::trim`. -/
def trim (text : List Char) : String :=
  String.ofList (Verify.trimMatches Verify.isWhitespace text)

variable (tokenize : String → Option (List TokenWithSpan))

/-- The unquoted word that a token is, in capitals. -/
def unquotedWord : Token → Option String
  | .word w => if w.quoteStyle.isNone then some (w.value.map Char.toUpper) else none
  | _ => none

/-- `Iterator::map_while`. -/
def mapWhile {α β : Type*} (f : α → Option β) : List α → List β
  | [] => []
  | item :: rest =>
    match f item with
    | some value => value :: mapWhile f rest
    | none => []

/-- `leading_words` (`src/sql/head.rs:33-48`): the first `n` significant words, up to one that is
no unquoted word. -/
def leadingWords (sql : String) (n : Nat) : List String :=
  match tokenize sql with
  | none => []
  | some tokens =>
    mapWhile (fun token => unquotedWord token.token)
      ((tokens.filter (!·.token.isWhitespace)).take n)

/-- `strip_leading_keyword` (`src/sql/head.rs:56-79`); the outer `none` is a panic. -/
def stripLeadingKeyword (sql keyword : String) : Option (Option String) :=
  match tokenize sql with
  | none => some none
  | some tokens =>
    match tokens.filter (!·.token.isWhitespace) with
    | [] => some none
    | first :: rest =>
      if isKeyword keyword first.token then
        match rest with
        | next :: _ =>
          let start := next.span.start
          match byteOffset sql.toList (lineOffsets sql.toList) start.line start.column with
          | some offset => (getFrom sql.toList offset).map fun rest => some (trim rest)
          | none => some none
        | [] => (getFrom sql.toList (size sql.toList)).map fun rest => some (trim rest)
      else some none

/-- The loop of `strip_semantic_distinct` over the tokens that are no whitespace, after
this one. -/
def cutsFrom (sql : List Char) (offsets : List Nat) :
    TokenWithSpan → List TokenWithSpan → List (Nat × Nat)
  | _, [] => []
  | previous, token :: rest =>
    let span := previous.span
    let cut :=
      if previous.token.isSemantic && token.token.isDistinct then
        match byteOffset sql offsets span.start.line span.start.column,
          byteOffset sql offsets span.stop.line span.stop.column with
        | some start, some stop => [(start, stop)]
        | _, _ => []
      else []
    cut ++ cutsFrom sql offsets token rest

/-- The `cuts` of `strip_semantic_distinct`. -/
def cuts (sql : List Char) (tokens : List TokenWithSpan) : List (Nat × Nat) :=
  match tokens.filter (!·.token.isWhitespace) with
  | [] => []
  | first :: rest => cutsFrom sql (lineOffsets sql) first rest

/-- What `strip_semantic_distinct` keeps, from the cursor on. -/
def keptFrom (sql : List Char) : Nat → List (Nat × Nat) → Option (List Char)
  | cursor, [] => getFrom sql cursor
  | cursor, cut :: cuts => do
    let kept ← get sql cursor cut.1
    let rest ← keptFrom sql cut.2 cuts
    return kept ++ rest

/-- `strip_semantic_distinct` by spans; `none` is a panic. -/
def stripBySpans (sql : String) : Option (String × Bool) :=
  match tokenize sql with
  | none => some (sql, false)
  | some tokens =>
    let cuts := cuts sql.toList tokens
    if cuts.isEmpty then some (sql, false)
    else (keptFrom sql.toList 0 cuts).map fun stripped => (String.ofList stripped, true)

end Semcast.Head
