import Semcast.Misc.Fallible
import Semcast.Physical.Verify
import Semcast.Types.Basic

/-!
# `CREATE SEMANTIC TYPE`

Rendering of the type grammar of `src/sql/ddl.rs`, over the tokens that are left
to parse. Tokens come from the `sqlparser` crate, without its whitespace tokens;
the texts it prints, and the `f64` and Unicode functions of the standard library,
are the fields of `SqlText`.
-/

namespace Semcast.Ddl

open Semcast.Types Verify Fallible

/-- `sqlparser`'s `Token`, as far as the grammar tells tokens apart. -/
inductive Token where
  | word (value : String) (quoteStyle : Option Char)
  | singleQuotedString (value : String)
  | doubleQuotedString (value : String)
  | comma
  | lParen
  | rParen
  | lBracket
  | rBracket
  | semiColon
  /-- Any other token, by its text. -/
  | other (text : String)
  | eof
  deriving DecidableEq

/-- What the grammar calls outside the repository. -/
structure SqlText (F : Type) where
  /-- `Display` of a `Token`. -/
  display : Token → String
  /-- The text of the `ParserError` for one token expected and another found. -/
  expected : String → Token → String
  /-- `str::parse::<f64>`. -/
  parseF64 : String → Option F
  /-- `str::to_uppercase`. -/
  toUppercase : String → String
  /-- The `DefaultHasher` of `canonical_version`. -/
  hash : List (String × String × String) → List (List String) → UInt64

variable {F : Type}

/-- `type_error` (`src/sql/ddl.rs:347-352`). -/
def typeError (message : String) : String :=
  "invalid CREATE SEMANTIC TYPE statement: " ++ message

/-- `Parser::next_token`, and the tokens after it. -/
def nextToken : List Token → Token × List Token
  | [] => (.eof, [])
  | token :: rest => (token, rest)

/-- `peek_word` (`src/sql/ddl.rs:335-337`). -/
def peekWord (word : String) : List Token → Bool
  | .word value _ :: _ => eqIgnoreAsciiCase value.toList word.toList
  | _ => false

section Grammar

variable (sql : SqlText F)

/-- `Parser::expect_token`, its error as a `type_error`. -/
def expectToken (token : Token) (tokens : List Token) : Except String (List Token) :=
  let (found, rest) := nextToken tokens
  if found = token then .ok rest
  else .error (typeError (sql.expected (sql.display token) found))

/-- `expect_word` (`src/sql/ddl.rs:327-332`). -/
def expectWord (word : String) (tokens : List Token) : Except String (List Token) :=
  if peekWord word tokens then .ok tokens.tail
  else .error (typeError
    ("expected " ++ word ++ ", got " ++ sql.display (nextToken tokens).1))

/-- `Parser::parse_identifier`. -/
def parseIdentifier : List Token → Except String (String × List Token)
  | .word value _ :: rest | .singleQuotedString value :: rest
  | .doubleQuotedString value :: rest => .ok (value, rest)
  | tokens => .error (typeError (sql.expected "identifier" (nextToken tokens).1))

/-- The first item that equals one before it. -/
def firstDuplicate : List String → List String → Option String
  | _, [] => none
  | before, item :: rest =>
    if before.contains item then some item else firstDuplicate (before ++ [item]) rest

/-- The loop of `parse_variant_list`. -/
def parseVariants : List Token → Except String (List String × List Token)
  | .word value _ :: .comma :: rest =>
    (parseVariants rest).map fun (variants, rest) => (value :: variants, rest)
  | .word value _ :: .rParen :: rest => .ok ([value], rest)
  | .word _ _ :: tokens =>
    .error (typeError
      ("expected , or ) in the variant list, got " ++ sql.display (nextToken tokens).1))
  | tokens =>
    .error (typeError ("expected a variant name, got " ++ sql.display (nextToken tokens).1))

/-- `parse_variant_list` (`src/sql/ddl.rs:249-275`). -/
def parseVariantList (tokens : List Token) : Except String (List String × List Token) := do
  let tokens ← expectToken sql .lParen tokens
  let (variants, rest) ← parseVariants sql tokens
  match firstDuplicate [] variants with
  | some variant => .error (typeError ("duplicate variant " ++ variant))
  | none => return (variants, rest)

/-- The text `parse_check_range` renders of the tokens up to the closing parenthesis. -/
def rangeText : List Token → Except String (String × List Token)
  | .rParen :: rest => .ok ("", rest)
  | [] | .eof :: _ => .error (typeError "unterminated CHECK range")
  | token :: rest =>
    (rangeText rest).map fun (rendered, rest) => (sql.display token ++ rendered, rest)

/-- `str::split_once("..")`. -/
def splitRange : List Char → Option (List Char × List Char)
  | '.' :: '.' :: rest => some ([], rest)
  | c :: rest => (splitRange rest).map fun (before, after) => (c :: before, after)
  | [] => none

/-- One bound of `parse_check_range`: `trim` and `parse`. -/
def parseBound (side : String) (bound : List Char) : Except String F :=
  match sql.parseF64 (String.ofList (trimMatches isWhitespace bound)) with
  | some x => .ok x
  | none => .error (typeError
      ("invalid CHECK " ++ side ++ " bound `" ++ String.ofList bound ++ "`"))

/-- `parse_check_range` (`src/sql/ddl.rs:280-310`). -/
def parseCheckRange (tokens : List Token) : Except String ((F × F) × List Token) := do
  let tokens ← expectToken sql .lParen tokens
  let (rendered, rest) ← rangeText sql tokens
  match splitRange rendered.toList with
  | none => .error (typeError ("expected `a..b` in CHECK, got `" ++ rendered ++ "`"))
  | some (lo, hi) =>
    let lo ← parseBound sql "lower" lo
    let hi ← parseBound sql "upper" hi
    return ((lo, hi), rest)

/-- The base of `parse_field_type`, before a `[]`. -/
def parseBaseType : List Token → Except String (FieldType F × List Token)
  | .word value _ :: rest =>
    match sql.toUppercase value with
    | "TEXT" => .ok (.text, rest)
    | "INT" => .ok (.int, rest)
    | "BOOL" => .ok (.bool, rest)
    | "REAL" =>
      if peekWord "CHECK" rest then
        (parseCheckRange sql rest.tail).map fun ((min, max), rest) => (.realBounded min max, rest)
      else .ok (.real, rest)
    | "ONEOF" =>
      (parseVariantList sql rest).map fun (variants, rest) => (.oneOf variants, rest)
    | "LEVEL" =>
      (parseVariantList sql rest).map fun (variants, rest) => (.level variants, rest)
    | other => .error (typeError
        ("nested semantic types are not implemented yet (field type " ++ other ++ ")"))
  | tokens =>
    .error (typeError ("expected a field type, got " ++ sql.display (nextToken tokens).1))

/-- `parse_field_type` (`src/sql/ddl.rs:208-247`): a base type, or with `[]` a list of it. -/
def parseFieldType (tokens : List Token) : Except String (FieldType F × List Token) :=
  match parseBaseType sql tokens with
  | .error message => .error message
  | .ok (base, .lBracket :: rest) =>
    (expectToken sql .rBracket rest).map fun rest => (.list base, rest)
  | .ok (base, rest) => .ok (base, rest)

/-- `parse_field_type_str` (`src/sql/ddl.rs:195-204`), over the tokens of its text. -/
def parseFieldTypeStr (spec : String) (tokens : List Token) : Except String (FieldType F) :=
  match parseFieldType sql tokens with
  | .error message => .error message
  | .ok (ty, []) => .ok ty
  | .ok (_, rest) =>
    .error (typeError ("trailing input after field type `" ++ spec ++ "`: " ++
      sql.expected (sql.display .eof) (nextToken rest).1))

/-- The name `parse_field_def` reads. -/
def parseFieldName : List Token → Except String (String × List Token)
  | .word name _ :: rest | .doubleQuotedString name :: rest => .ok (name, rest)
  | tokens =>
    .error (typeError ("expected a field name, got " ++ sql.display (nextToken tokens).1))

/-- `parse_field_def` (`src/sql/ddl.rs:174-190`). -/
def parseFieldDef (tokens : List Token) : Except String (FieldSpec F × List Token) := do
  let (name, rest) ← parseFieldName sql tokens
  let (ty, rest) ← parseFieldType sql rest
  match rest with
  | .singleQuotedString doc :: rest => return ({ name, ty, doc }, rest)
  | rest => .error (typeError
      ("expected a single-quoted doc string after field " ++ name ++ ", got " ++
        sql.display (nextToken rest).1))

end Grammar

/-! What the loops over fields rely on to end: the grammar never reads past the
tokens it leaves, and a field takes at least one. -/

section Progress

variable {sql : SqlText F} {tokens rest : List Token}

theorem nextToken_length : (nextToken tokens).2.length ≤ tokens.length := by
  cases tokens <;> simp [nextToken]

theorem expectToken_length {token : Token} (parsed : expectToken sql token tokens = .ok rest) :
    rest.length ≤ tokens.length := by
  obtain ⟨-, rfl⟩ := ite_ok_iff.mp parsed
  exact nextToken_length

theorem parseVariants_length {variants : List String}
    (parsed : parseVariants sql tokens = .ok (variants, rest)) : rest.length ≤ tokens.length := by
  fun_induction parseVariants sql tokens generalizing variants rest with
  | case1 value quote others ih =>
    obtain ⟨⟨values, left⟩, inner, same⟩ := map_ok_iff.mp parsed
    cases same
    have shorter := ih inner
    simp only [List.length_cons]
    omega
  | case2 value quote others =>
    cases parsed
    simp only [List.length_cons]
    omega
  | case3 | case4 => cases parsed

theorem parseVariantList_length {variants : List String}
    (parsed : parseVariantList sql tokens = .ok (variants, rest)) :
    rest.length ≤ tokens.length := by
  obtain ⟨opened, first, parsed⟩ := bind_ok_iff.mp parsed
  obtain ⟨⟨values, left⟩, inner, parsed⟩ := bind_ok_iff.mp parsed
  dsimp only at parsed
  split at parsed
  · cases parsed
  · cases parsed
    exact Nat.le_trans (parseVariants_length inner) (expectToken_length first)

theorem rangeText_length {rendered : String}
    (parsed : rangeText sql tokens = .ok (rendered, rest)) : rest.length ≤ tokens.length := by
  fun_induction rangeText sql tokens generalizing rendered rest with
  | case1 others =>
    cases parsed
    simp only [List.length_cons]
    omega
  | case2 | case3 => cases parsed
  | case4 token others _ _ ih =>
    obtain ⟨⟨text, left⟩, inner, same⟩ := map_ok_iff.mp parsed
    cases same
    have shorter := ih inner
    simp only [List.length_cons]
    omega

theorem parseCheckRange_length {bounds : F × F}
    (parsed : parseCheckRange sql tokens = .ok (bounds, rest)) : rest.length ≤ tokens.length := by
  obtain ⟨opened, first, parsed⟩ := bind_ok_iff.mp parsed
  obtain ⟨⟨text, left⟩, inner, parsed⟩ := bind_ok_iff.mp parsed
  dsimp only at parsed
  split at parsed
  · cases parsed
  · obtain ⟨lo, -, parsed⟩ := bind_ok_iff.mp parsed
    obtain ⟨hi, -, parsed⟩ := bind_ok_iff.mp parsed
    cases parsed
    exact Nat.le_trans (rangeText_length inner) (expectToken_length first)

theorem parseBaseType_length {base : FieldType F}
    (parsed : parseBaseType sql tokens = .ok (base, rest)) : rest.length < tokens.length := by
  unfold parseBaseType at parsed
  split at parsed
  · rename_i value quote others
    split at parsed
    · cases parsed
      simp
    · cases parsed
      simp
    · cases parsed
      simp
    · split at parsed
      · obtain ⟨⟨bounds, left⟩, inner, same⟩ := map_ok_iff.mp parsed
        cases same
        have shorter := parseCheckRange_length inner
        simp only [List.length_cons, List.length_tail] at shorter ⊢
        omega
      · cases parsed
        simp
    · obtain ⟨⟨variants, left⟩, inner, same⟩ := map_ok_iff.mp parsed
      cases same
      exact Nat.lt_succ_of_le (parseVariantList_length inner)
    · obtain ⟨⟨variants, left⟩, inner, same⟩ := map_ok_iff.mp parsed
      cases same
      exact Nat.lt_succ_of_le (parseVariantList_length inner)
    · cases parsed
  · cases parsed

theorem parseFieldType_length {ty : FieldType F}
    (parsed : parseFieldType sql tokens = .ok (ty, rest)) : rest.length < tokens.length := by
  unfold parseFieldType at parsed
  split at parsed
  · cases parsed
  · rename_i base others inner
    obtain ⟨left, closed, same⟩ := map_ok_iff.mp parsed
    cases same
    have shorter := parseBaseType_length inner
    have closing := expectToken_length closed
    simp only [List.length_cons] at shorter
    omega
  · rename_i inner
    cases parsed
    exact parseBaseType_length inner

theorem parseFieldName_length {name : String}
    (parsed : parseFieldName sql tokens = .ok (name, rest)) : rest.length < tokens.length := by
  unfold parseFieldName at parsed
  split at parsed <;> cases parsed <;> simp

theorem parseFieldDef_length {spec : FieldSpec F}
    (parsed : parseFieldDef sql tokens = .ok (spec, rest)) : rest.length < tokens.length := by
  obtain ⟨⟨name, named⟩, first, parsed⟩ := bind_ok_iff.mp parsed
  obtain ⟨⟨ty, typed⟩, second, parsed⟩ := bind_ok_iff.mp parsed
  have naming := parseFieldName_length first
  have typing := parseFieldType_length second
  dsimp only at parsed
  split at parsed
  · cases parsed
    simp only [List.length_cons] at typing
    omega
  · cases parsed

end Progress

section Entries

variable (sql : SqlText F)

/-- The fields of a `TOGETHER` group, up to its closing parenthesis. -/
def parseGroup (tokens : List Token) : Except String (List (FieldSpec F) × List Token) :=
  match _field : parseFieldDef sql tokens with
  | .error message => .error message
  | .ok (spec, .comma :: rest) =>
    (parseGroup rest).map fun (specs, rest) => (spec :: specs, rest)
  | .ok (spec, .rParen :: rest) => .ok ([spec], rest)
  | .ok (_, rest) => .error (typeError
      ("expected , or ) in TOGETHER, got " ++ sql.display (nextToken rest).1))
termination_by tokens.length
decreasing_by
  have shorter := parseFieldDef_length _field
  simp only [List.length_cons] at shorter
  omega

theorem parseGroup_length {tokens rest : List Token} {specs : List (FieldSpec F)}
    (parsed : parseGroup sql tokens = .ok (specs, rest)) : rest.length < tokens.length := by
  fun_induction parseGroup sql tokens generalizing specs rest with
  | case1 | case4 => cases parsed
  | case2 tokens spec others field ih =>
    obtain ⟨⟨specs, left⟩, inner, same⟩ := map_ok_iff.mp parsed
    cases same
    have shorter := parseFieldDef_length field
    have ends := ih inner
    simp only [List.length_cons] at shorter
    omega
  | case3 tokens spec others field =>
    cases parsed
    have shorter := parseFieldDef_length field
    simp only [List.length_cons] at shorter
    omega

/-- One entry of a semantic type: the fields it declares, and its group if it is a
`TOGETHER`. -/
def parseEntry (tokens : List Token) :
    Except String ((List (FieldSpec F) × List (List String)) × List Token) :=
  if peekWord "TOGETHER" tokens then do
    let rest ← expectToken sql .lParen tokens.tail
    let (specs, rest) ← parseGroup sql rest
    if 2 ≤ specs.length then return ((specs, [specs.map (·.name)]), rest)
    else .error (typeError "a TOGETHER group needs at least two fields")
  else
    (parseFieldDef sql tokens).map fun (spec, rest) => (([spec], []), rest)

theorem parseEntry_length {tokens rest : List Token}
    {entry : List (FieldSpec F) × List (List String)}
    (parsed : parseEntry sql tokens = .ok (entry, rest)) : rest.length < tokens.length := by
  unfold parseEntry at parsed
  split at parsed
  · obtain ⟨opened, first, parsed⟩ := bind_ok_iff.mp parsed
    obtain ⟨⟨specs, left⟩, inner, parsed⟩ := bind_ok_iff.mp parsed
    obtain ⟨-, same⟩ := ite_ok_iff.mp parsed
    cases same
    have opening := expectToken_length first
    have shorter := parseGroup_length sql inner
    rw [List.length_tail] at opening
    omega
  · obtain ⟨⟨spec, left⟩, inner, same⟩ := map_ok_iff.mp parsed
    cases same
    exact parseFieldDef_length inner

/-- The loop of `parse_create_type`, up to the closing parenthesis: all the fields,
and the groups. -/
def parseEntries (tokens : List Token) :
    Except String ((List (FieldSpec F) × List (List String)) × List Token) :=
  match _entry : parseEntry sql tokens with
  | .error message => .error message
  | .ok ((fields, together), .comma :: rest) =>
    (parseEntries rest).map fun ((fields', together'), rest) =>
      ((fields ++ fields', together ++ together'), rest)
  | .ok (found, .rParen :: rest) => .ok (found, rest)
  | .ok (_, rest) => .error (typeError
      ("expected , or ) between fields, got " ++ sql.display (nextToken rest).1))
termination_by tokens.length
decreasing_by
  have shorter := parseEntry_length sql _entry
  simp only [List.length_cons] at shorter
  omega

/-- `canonical_version` (`src/sql/ddl.rs:314-323`). -/
def canonicalVersion (floats : Json.Floats F) (fields : List (FieldSpec F))
    (together : List (List String)) : String :=
  let rendered := fields.map fun spec => (spec.name, spec.ty.display floats, spec.doc)
  String.ofList (Nat.toDigits 16 (sql.hash rendered together).toNat)

/-- `parse_create_type` (`src/sql/ddl.rs:96-172`), on the tokens after `CREATE SEMANTIC TYPE`. -/
def parseCreateType (floats : Json.Floats F) (tokens : List Token) :
    Except String (SemanticType F) := do
  let (name, tokens) ← parseIdentifier sql tokens
  let tokens ← expectWord sql "AS" tokens
  let tokens ← expectToken sql .lParen tokens
  let ((fields, together), tokens) ← parseEntries sql tokens
  let tokens := if (nextToken tokens).1 = .semiColon then tokens.tail else tokens
  let _ ← expectToken sql .eof tokens
  if fields.isEmpty then .error (typeError "a semantic type needs at least one field")
  else
    match firstDuplicate [] (fields.map (·.name)) with
    | some name => .error (typeError ("duplicate field name " ++ name))
    | none =>
      let version := canonicalVersion sql floats fields together
      return { name, version, fields, together }

end Entries

end Semcast.Ddl
