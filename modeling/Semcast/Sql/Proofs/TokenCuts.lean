import Semcast.Sql.Proofs.DistinctMarks
import Semcast.Sql.Proofs.Locations

/-!
# Cuts at tokens

The tokenizer counts locations in characters, so a statement that is cut at them by byte
offsets is cut between its tokens.
-/

namespace Semcast.Head

open Utf8 SemanticDistinct

/-- The characters of some tokens. -/
def chars (tokens : List SemanticDistinct.TokenWithSpan) : List Char :=
  tokens.flatMap (·.text.toList)

theorem ofList_chars (tokens : List SemanticDistinct.TokenWithSpan) :
    String.ofList (chars tokens) = String.join (tokens.map (·.text)) := by
  apply String.toList_inj.mp
  rw [String.toList_ofList, String.toList_join, List.flatMap_map]
  rfl

theorem chars_cons (token : SemanticDistinct.TokenWithSpan)
    (rest : List SemanticDistinct.TokenWithSpan) :
    chars (token :: rest) = token.text.toList ++ chars rest := rfl

/-- Tokens with their spans, after these characters. -/
def located (before : List Char) : List SemanticDistinct.TokenWithSpan → List TokenWithSpan
  | [] => []
  | token :: rest =>
    let after := before ++ token.text.toList
    ⟨token.token, ⟨locate before, locate after⟩⟩ :: located after rest

/-- A tokenizer cuts a text into tokens that make up the text, and counts lines and columns
in characters. -/
structure Tokenizer where
  cut : String → Option (List SemanticDistinct.TokenWithSpan)
  joined : ∀ sql tokens, cut sql = some tokens →
    String.join (tokens.map (·.text)) = sql

/-- `Tokenizer::tokenize_with_location`. -/
def Tokenizer.tokenize (tokenizer : Tokenizer) (sql : String) : Option (List TokenWithSpan) :=
  (tokenizer.cut sql).map (located [])

theorem Tokenizer.toList_eq {tokenizer : Tokenizer} {sql : String}
    {tokens : List SemanticDistinct.TokenWithSpan} (cut : tokenizer.cut sql = some tokens) :
    sql.toList = chars tokens := by
  rw [← tokenizer.joined sql tokens cut, ← ofList_chars, String.toList_ofList]

/-- The first token that is no whitespace, by its place. -/
theorem located_significant (before : List Char)
    (tokens : List SemanticDistinct.TokenWithSpan) :
    ∃ blank, before ++ chars tokens =
        before ++ blank ++ chars (tokens.dropWhile (·.token.isWhitespace)) ∧
      (located before tokens).filter (!·.token.isWhitespace) =
        (located (before ++ blank) (tokens.dropWhile (·.token.isWhitespace))).filter
          (!·.token.isWhitespace) := by
  induction tokens generalizing before with
  | nil => exact ⟨[], by rw [List.append_nil]; rfl, by rw [List.append_nil]; rfl⟩
  | cons token rest ih =>
    by_cases space : token.token.isWhitespace = true
    · obtain ⟨blank, text, same⟩ := ih (before ++ token.text.toList)
      have dropped : (token :: rest).dropWhile (·.token.isWhitespace) =
          rest.dropWhile (·.token.isWhitespace) := List.dropWhile_cons_of_pos space
      rw [dropped]
      refine ⟨token.text.toList ++ blank, ?_, ?_⟩
      · rw [chars_cons, ← List.append_assoc, ← List.append_assoc, text]
      · rw [located, List.filter_cons_of_neg (by simp [space]), same, List.append_assoc]
    · have kept : (token :: rest).dropWhile (·.token.isWhitespace) = token :: rest :=
        List.dropWhile_cons_of_neg space
      rw [kept]
      exact ⟨[], by rw [List.append_nil], by rw [List.append_nil]⟩

/-! ## A leading keyword -/

/-- The tokens after a leading keyword, from the next one on that is no whitespace. -/
def afterKeyword (keyword : String) (tokens : List SemanticDistinct.TokenWithSpan) :
    Option (List SemanticDistinct.TokenWithSpan) :=
  match tokens.dropWhile (·.token.isWhitespace) with
  | [] => none
  | first :: rest =>
    if isKeyword keyword first.token then some (rest.dropWhile (·.token.isWhitespace)) else none

theorem filter_dropWhile_eq_nil {tokens : List SemanticDistinct.TokenWithSpan}
    {before : List Char} (none_left : tokens.dropWhile (·.token.isWhitespace) = []) :
    (located before tokens).filter (!·.token.isWhitespace) = [] := by
  obtain ⟨blank, -, same⟩ := located_significant before tokens
  rw [same, none_left]
  rfl

theorem filter_dropWhile_eq_cons {tokens rest : List SemanticDistinct.TokenWithSpan}
    {token : SemanticDistinct.TokenWithSpan} {before : List Char}
    (left : tokens.dropWhile (·.token.isWhitespace) = token :: rest) :
    ∃ blank, before ++ chars tokens = before ++ blank ++ chars (token :: rest) ∧
      (located before tokens).filter (!·.token.isWhitespace) =
        ⟨token.token, ⟨locate (before ++ blank), locate (before ++ blank ++ token.text.toList)⟩⟩ ::
          (located (before ++ blank ++ token.text.toList) rest).filter
            (!·.token.isWhitespace) := by
  obtain ⟨blank, text, same⟩ := located_significant before tokens
  rw [left] at text same
  have solid : token.token.isWhitespace = false := by
    have head := List.head?_dropWhile_not (·.token.isWhitespace) tokens
    rw [left] at head
    simpa using head
  refine ⟨blank, text, ?_⟩
  rw [same, located, List.filter_cons_of_pos (by simp [solid])]

/-- The statement is cut between the keyword and the token after it, and what is left is
trimmed. -/
theorem stripLeadingKeyword_eq (tokenizer : Tokenizer) (sql keyword : String) :
    stripLeadingKeyword tokenizer.tokenize sql keyword =
      some (((tokenizer.cut sql).bind (afterKeyword keyword)).map fun rest => trim (chars rest)) := by
  unfold stripLeadingKeyword Tokenizer.tokenize
  cases cut : tokenizer.cut sql with
  | none => rfl
  | some tokens =>
    have whole := tokenizer.toList_eq cut
    rw [Option.map_some, Option.bind_some]
    dsimp only
    unfold afterKeyword
    cases left : tokens.dropWhile (·.token.isWhitespace) with
    | nil =>
      rw [filter_dropWhile_eq_nil left]
      rfl
    | cons first rest =>
      obtain ⟨blank, text, same⟩ := @filter_dropWhile_eq_cons _ _ _ [] left
      simp only [List.nil_append] at text same
      rw [same]
      dsimp only
      by_cases isKey : isKeyword keyword first.token = true
      · rw [if_pos isKey, if_pos isKey]
        rw [chars_cons, ← List.append_assoc] at text
        cases later : rest.dropWhile (·.token.isWhitespace) with
        | nil =>
          have nothing := @getFrom_append (sql.toList) []
          rw [List.append_nil] at nothing
          rw [filter_dropWhile_eq_nil later]
          dsimp only
          rw [nothing]
          rfl
        | cons next after =>
          obtain ⟨gap, text', same'⟩ := @filter_dropWhile_eq_cons _ _ _
            (blank ++ first.text.toList) later
          have place : sql.toList =
              blank ++ first.text.toList ++ gap ++ chars (next :: after) := by
            rw [whole, ← text', ← text]
          rw [same']
          dsimp only
          rw [place, byteOffset_locate]
          dsimp only
          rw [getFrom_append]
          rfl
      · rw [if_neg isKey, if_neg isKey]
        rfl

/-! ## The cuts of a semantic distinct -/

/-- The byte offsets of the cut tokens, after these characters. -/
def cutPlaces (before : List Char) : List SemanticDistinct.TokenWithSpan → List (Nat × Nat)
  | [] => []
  | token :: rest =>
    let after := before ++ token.text.toList
    (if isCut token rest then [(size before, size after)] else []) ++ cutPlaces after rest

/-- The cut of a token, once the tokens after it are known. -/
theorem cutsFrom_eq {sql before : List Char} {token : SemanticDistinct.TokenWithSpan}
    (rest : List SemanticDistinct.TokenWithSpan) {between : List Char}
    (whole : sql = before ++ token.text.toList ++ between ++ chars rest) :
    cutsFrom sql (lineOffsets sql)
        ⟨token.token, ⟨locate before, locate (before ++ token.text.toList)⟩⟩
        ((located (before ++ token.text.toList ++ between) rest).filter
          (!·.token.isWhitespace)) =
      (if isCut token rest then [(size before, size (before ++ token.text.toList))] else []) ++
        cutPlaces (before ++ token.text.toList ++ between) rest := by
  induction rest generalizing before token between with
  | nil =>
    have uncut : isCut token [] = false := Bool.and_false _
    rw [uncut]
    rfl
  | cons next rest ih =>
    rw [located, cutPlaces]
    rw [chars_cons, ← List.append_assoc] at whole
    by_cases blank : next.token.isWhitespace = true
    · -- White space is passed over, and is no cut.
      have plain : isCut next rest = false := by
        rw [isCut, isSemantic_of_isWhitespace blank, Bool.false_and]
      have same : isCut token (next :: rest) = isCut token rest := by
        rw [isCut, isCut, distinctNext, if_pos blank]
      rw [List.filter_cons_of_neg (by simp [blank]), plain, same]
      rw [List.append_assoc (before ++ token.text.toList)] at whole ⊢
      exact ih whole
    · have start : byteOffset sql (lineOffsets sql) (locate before).line (locate before).column =
          some (size before) := by
        rw [whole, List.append_assoc, List.append_assoc, List.append_assoc, byteOffset_locate]
      have stop : byteOffset sql (lineOffsets sql) (locate (before ++ token.text.toList)).line
          (locate (before ++ token.text.toList)).column =
            some (size (before ++ token.text.toList)) := by
        rw [whole, List.append_assoc, List.append_assoc, byteOffset_locate]
      have same : isCut token (next :: rest) =
          (token.token.isSemantic && next.token.isDistinct) := by
        rw [isCut, distinctNext, if_neg blank]
      have later := @ih (before ++ token.text.toList ++ between) next [] (by
        rw [List.append_nil]
        exact whole)
      rw [List.append_nil] at later
      rw [List.filter_cons_of_pos (by simp [blank]), cutsFrom, later, same, start, stop]

theorem cuts_eq {sql before : List Char} {tokens : List SemanticDistinct.TokenWithSpan}
    (whole : sql = before ++ chars tokens) :
    cuts sql (located before tokens) = cutPlaces before tokens := by
  induction tokens generalizing before with
  | nil => rfl
  | cons token rest ih =>
    rw [chars_cons, ← List.append_assoc] at whole
    rw [cuts, located]
    by_cases blank : token.token.isWhitespace = true
    · have plain : isCut token rest = false := by
        rw [isCut, isSemantic_of_isWhitespace blank, Bool.false_and]
      rw [List.filter_cons_of_neg (by simp [blank]), cutPlaces, plain]
      exact ih whole
    · have first := @cutsFrom_eq sql before token rest [] (by
        rw [List.append_nil]
        exact whole)
      rw [List.append_nil] at first
      rw [List.filter_cons_of_pos (by simp [blank])]
      exact first

theorem isEmpty_cutPlaces (before : List Char) (tokens : List SemanticDistinct.TokenWithSpan) :
    (cutPlaces before tokens).isEmpty = !hasCuts tokens := by
  induction tokens generalizing before with
  | nil => rfl
  | cons token rest ih =>
    rw [cutPlaces, hasCuts]
    by_cases cut : isCut token rest = true
    · simp [cut]
    · simp [cut, ih]

/-- What is kept between the cuts are the other tokens. -/
theorem keptFrom_eq {sql done kept : List Char} (tokens : List SemanticDistinct.TokenWithSpan)
    (whole : sql = done ++ kept ++ chars tokens) :
    keptFrom sql (size done) (cutPlaces (done ++ kept) tokens) =
      some (kept ++ chars (withoutCuts tokens)) := by
  induction tokens generalizing done kept with
  | nil =>
    rw [cutPlaces, keptFrom, whole, List.append_assoc, getFrom_append]
    rfl
  | cons token rest ih =>
    rw [cutPlaces, withoutCuts]
    rw [chars_cons, ← List.append_assoc] at whole
    by_cases cut : isCut token rest = true
    · have later := @ih (done ++ kept ++ token.text.toList) [] (by
        rw [List.append_nil]
        exact whole)
      rw [List.append_nil] at later
      have slice : get sql (size done) (size (done ++ kept)) = some kept := by
        rw [whole, List.append_assoc, get_append]
      rw [if_pos cut, if_pos cut, List.singleton_append, keptFrom, slice, later]
      rfl
    · have later := @ih done (kept ++ token.text.toList) (by
        rw [← List.append_assoc]
        exact whole)
      rw [if_neg cut, if_neg cut, List.nil_append, chars_cons, ← List.append_assoc]
      rw [← List.append_assoc] at later
      exact later

/-- The cuts of `strip_semantic_distinct` are at tokens: those that it takes out are whole,
and the others stay as they are. -/
theorem stripBySpans_eq (tokenizer : Tokenizer) (sql : String) :
    stripBySpans tokenizer.tokenize sql = some (stripSemanticDistinct tokenizer.cut sql) := by
  unfold stripBySpans stripSemanticDistinct Tokenizer.tokenize
  cases cut : tokenizer.cut sql with
  | none => rfl
  | some tokens =>
    have whole := tokenizer.toList_eq cut
    rw [Option.map_some]
    dsimp only
    have places := @cuts_eq sql.toList [] tokens whole
    rw [places, isEmpty_cutPlaces]
    by_cases any : hasCuts tokens = true
    · have kept := @keptFrom_eq sql.toList [] [] tokens whole
      rw [List.nil_append, List.nil_append] at kept
      rw [any, if_neg (by simp), if_pos rfl]
      show (keptFrom sql.toList (size []) (cutPlaces [] tokens)).map _ = _
      rw [kept, Option.map_some, ofList_chars]
    · rw [if_neg any, if_pos (by simp [any])]

/-- Locations are the bytes that they stand for, so a leading keyword is cut off in front
of a token, whatever is left being trimmed, and the cuts of a semantic distinct take out
whole tokens and nothing else. -/
theorem cut_at_tokens :
    (∀ before later, byteOffset (before ++ later) (lineOffsets (before ++ later))
      (locate before).line (locate before).column = some (size before)) ∧
    ∀ (tokenizer : Tokenizer) (sql : String),
      (∀ keyword, stripLeadingKeyword tokenizer.tokenize sql keyword =
        some (((tokenizer.cut sql).bind (afterKeyword keyword)).map
          fun rest => trim (chars rest))) ∧
      stripBySpans tokenizer.tokenize sql = some (stripSemanticDistinct tokenizer.cut sql) :=
  ⟨byteOffset_locate, fun tokenizer sql =>
    ⟨stripLeadingKeyword_eq tokenizer sql, stripBySpans_eq tokenizer sql⟩⟩

/-! ## A trailing comment -/

/-- The tokens of a statement that ends with a comment, and a blank in it. -/
def commented : List SemanticDistinct.TokenWithSpan :=
  [⟨.word ⟨"submit", none, .other, by simp⟩, "submit"⟩, ⟨.whitespace, " "⟩, ⟨.other, "1"⟩,
    ⟨.whitespace, " "⟩, ⟨.whitespace, "--b "⟩]

/-- A tokenizer that knows this statement. -/
def commentTokenizer : Tokenizer where
  cut sql := if sql = "submit 1 --b " then some commented else none
  joined sql tokens found := by
    by_cases same : sql = "submit 1 --b "
    · rw [if_pos same] at found
      cases found
      rw [same]
      decide +kernel
    · rw [if_neg same] at found
      cases found

/-- The text that is left ends inside its last token. -/
theorem comment_trimmed :
    stripLeadingKeyword commentTokenizer.tokenize "submit 1 --b " "submit" = some (some "1 --b") ∧
      afterKeyword "submit" commented = some (commented.drop 2) ∧
      ∀ n, String.join (((commented.drop 2).take n).map (·.text)) ≠ "1 --b" := by
  refine ⟨by decide +kernel, by rfl, ?_⟩
  intro n
  by_cases short : n < 3
  · have prefixes : ∀ n < 3, String.join (((commented.drop 2).take n).map (·.text)) ≠ "1 --b" := by
      decide +kernel
    exact prefixes n short
  · have all : (commented.drop 2).take n = commented.drop 2 :=
      List.take_of_length_le (Nat.le_of_not_lt short)
    rw [all]
    decide +kernel

end Semcast.Head
