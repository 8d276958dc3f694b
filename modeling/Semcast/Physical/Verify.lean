import Semcast.Cache.Basic
import Semcast.Index.Basic

/-!
# The verify stage

Rendering of `src/physical/verify.rs`: the prompts, the cache key of a `MEANS`
verdict, how an answer is read, and the filter over a batch of rows. A record batch
is a list of rows, and `text` evaluates the text column of a row (`none` is SQL
NULL). The verdict cache is passed on explicitly.
-/

namespace Semcast.Verify

open Model Cache Index

/-- `MEANS_PROMPT_VERSION` (`src/physical/verify.rs:33`). -/
def meansPromptVersion : String := "means-v2"

/-- `MEANS_CHUNKED_PROMPT_VERSION` (`src/physical/verify.rs:39`): the prompt that shows chunks of
a document. -/
def meansChunkedPromptVersion : String := "means-v2-chunked"

/-- `CHUNK_SEPARATOR` (`src/physical/verify.rs:43`). -/
def chunkSeparator : String := "\n---\n"

/-- `synthesize_means_prompt` (`src/physical/verify.rs:46-53`): the instruction the verify model
sees. -/
def synthesizeMeansPrompt (condition : String) : String :=
  "You are evaluating a predicate over a document. " ++
    "Answer with exactly one word: yes or no.\n\n" ++
    "Predicate: " ++ condition ++ "\n\n" ++
    "Does the document satisfy the predicate?"

/-- `synthesize_means_prompt_chunked` (`src/physical/verify.rs:57-65`): the model sees excerpts,
not the whole text. -/
def synthesizeMeansPromptChunked (condition : String) : String :=
  "You are evaluating a predicate over excerpts from a document, " ++
    "separated by `---`. The excerpts may be partial. " ++
    "Answer with exactly one word: yes or no.\n\n" ++
    "Predicate: " ++ condition ++ "\n\n" ++
    "Do the excerpts show the document satisfies the predicate?"

/-- `means_cache_key` (`src/physical/verify.rs:354-367`). -/
def meansCacheKey (blake3 : List UInt8 → List UInt8) (condition input : String)
    (modelId : ModelId) (promptVersion : String) : CacheKey :=
  { typeVersion := condition
    field := "means"
    inputDigest := stableDigest blake3 [asBytes input]
    modelId
    promptVersion }

/-- `char::is_whitespace`: the Unicode property `White_Space`. -/
def isWhitespace (c : Char) : Bool :=
  let code := c.toNat
  (0x9 ≤ code && code ≤ 0xd) || code == 0x20 || code == 0x85 || code == 0xa0 ||
    code == 0x1680 || (0x2000 ≤ code && code ≤ 0x200a) || code == 0x2028 || code == 0x2029 ||
    code == 0x202f || code == 0x205f || code == 0x3000

/-- `char::is_ascii_punctuation`. -/
def isAsciiPunctuation (c : Char) : Bool :=
  let code := c.toNat
  (0x21 ≤ code && code ≤ 0x2f) || (0x3a ≤ code && code ≤ 0x40) ||
    (0x5b ≤ code && code ≤ 0x60) || (0x7b ≤ code && code ≤ 0x7e)

/-- `str::trim_matches`. -/
def trimMatches (matches_ : Char → Bool) (text : List Char) : List Char :=
  ((text.dropWhile matches_).reverse.dropWhile matches_).reverse

/-- `str::eq_ignore_ascii_case`. -/
def eqIgnoreAsciiCase (left right : List Char) : Bool :=
  left.map Char.toLower == right.map Char.toLower

/-- `parse_verdict` (`src/physical/verify.rs:370-379`): `none` means the model did not give a
usable yes or no. -/
def parseVerdict (text : String) : Option Bool :=
  let normalized := trimMatches isAsciiPunctuation (trimMatches isWhitespace text.toList)
  if eqIgnoreAsciiCase normalized "yes".toList then some true
  else if eqIgnoreAsciiCase normalized "no".toList then some false
  else none

/-- The text `label_sample` and `verify_batch` store for a verdict. -/
def verdictText (matched : Bool) : String :=
  if matched then "yes" else "no"

theorem verdictText_eq_yes (matched : Bool) : (verdictText matched == "yes") = matched := by
  cases matched <;> decide

/-- `Verifier` (`src/physical/verify.rs:248-260`, `src/physical/index_scan.rs:131-133`,
`src/physical/index_scan.rs:138-143`), for rows `ρ`, less its cache and metrics. `evidence` is
what an index stage upstream left of each document. -/
structure Verifier (ρ ε : Type*) where
  text : ρ → Option String
  condition : String
  model : ModelProvider ε
  evidence : Option (DocMap (List String))

section Batch

variable {ρ ε C : Type*} (blake3 : List UInt8 → List UInt8)

/-- What a row sends for its text: the input, and whether it is chunk evidence. -/
def Verifier.sent (verifier : Verifier ρ ε) (text : String) : String × Bool :=
  match verifier.evidence.bind (·[docHash text]?) with
  | some chunks => (chunkSeparator.intercalate chunks, true)
  | none => (text, false)

/-- `Verifier::cache_key` (`src/physical/verify.rs:334-341`). -/
def Verifier.cacheKey (verifier : Verifier ρ ε) (input : String) (chunked : Bool) : CacheKey :=
  let promptVersion := if chunked then meansChunkedPromptVersion else meansPromptVersion
  meansCacheKey blake3 verifier.condition input verifier.model.id promptVersion

/-- The request `verify_batch` sends for an input. -/
def Verifier.request (verifier : Verifier ρ ε) (input : String) (chunked : Bool) :
    CompletionRequest :=
  { system :=
      if chunked then synthesizeMeansPromptChunked verifier.condition
      else synthesizeMeansPrompt verifier.condition
    input
    maxTokens := 8
    schema := none }

/-- A row that waits for the model: where it is, its input, and whether that is
chunk evidence. -/
structure Pending where
  row : Nat
  input : String
  chunked : Bool
  deriving DecidableEq

/-- The variables of `verify_batch`. -/
structure VerifyState (C : Type*) where
  keep : List Bool
  pending : List Pending
  cacheHits : Nat
  rowsDropped : Nat
  cache : C

/-- One round of the first loop of `verify_batch`: NULL texts match nothing, and
cached verdicts are not asked again. -/
def Verifier.lookUp [SemanticCache C] (verifier : Verifier ρ ε) (state : VerifyState C) (row : ρ) :
    VerifyState C :=
  match verifier.text row with
  | none => { state with keep := state.keep ++ [false] }
  | some text =>
    let (input, chunked) := verifier.sent text
    let found := SemanticCache.get state.cache (verifier.cacheKey blake3 input chunked)
    match found.1 with
    | some (.value verdict) =>
      { state with
        keep := state.keep ++ [verdict == "yes"]
        cacheHits := state.cacheHits + 1
        cache := found.2 }
    | _ =>
      { state with
        keep := state.keep ++ [false]
        pending := state.pending ++ [⟨state.keep.length, input, chunked⟩]
        cache := found.2 }

/-- One round of the second loop of `verify_batch`: only a usable verdict is kept
and cached. -/
def Verifier.applyVerdict [SemanticCache C] (verifier : Verifier ρ ε) (state : VerifyState C)
    (answer : Pending × Except ε Completion) : VerifyState C :=
  let ⟨row, input, chunked⟩ := answer.1
  match answer.2.toOption.bind fun completion => parseVerdict completion.text with
  | some matched =>
    { state with
      keep := state.keep.set row matched
      cache := SemanticCache.put state.cache (verifier.cacheKey blake3 input chunked)
        (.value (verdictText matched)) }
  | none => { state with rowsDropped := state.rowsDropped + 1 }

/-- The first loop of `verify_batch`. -/
def Verifier.lookUpAll [SemanticCache C] (verifier : Verifier ρ ε) (batch : List ρ) (cache : C) :
    VerifyState C :=
  batch.foldl (verifier.lookUp blake3) ⟨[], [], 0, 0, cache⟩

/-- The requests `verify_batch` sends, one for each row that waits. -/
def Verifier.requests (verifier : Verifier ρ ε) (state : VerifyState C) : List CompletionRequest :=
  state.pending.map fun pending => verifier.request pending.input pending.chunked

/-- The state of `verify_batch` at its end; `pending` still lists the calls made. -/
def Verifier.verifyState [SemanticCache C] (verifier : Verifier ρ ε) (batch : List ρ) (cache : C) :
    VerifyState C :=
  let looked := verifier.lookUpAll blake3 batch cache
  (looked.pending.zip (verifier.model.complete (verifier.requests looked))).foldl
    (verifier.applyVerdict blake3) looked

/-- `filter_record_batch`. -/
def filterRecordBatch (batch : List ρ) (keep : List Bool) : List ρ :=
  ((batch.zip keep).filter (·.2)).map (·.1)

/-- `verify_batch` (`src/physical/verify.rs:263-332`): the rows it keeps. An empty batch is
returned as it is. -/
def Verifier.verifyBatch [SemanticCache C] (verifier : Verifier ρ ε) (batch : List ρ) (cache : C) :
    List ρ × VerifyState C :=
  let state := verifier.verifyState blake3 batch cache
  (filterRecordBatch batch state.keep, state)

end Batch

end Semcast.Verify
