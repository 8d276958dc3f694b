import Semcast.Physical.Verify

/-!
# Document chunking

Rendering of `src/index/chunk.rs`: sliding windows of words.
-/

namespace Semcast.Index

/-- `ChunkConfig` (`src/index/chunk.rs:4-10`). -/
structure ChunkConfig where
  maxTokens : Nat
  overlapTokens : Nat
  deriving DecidableEq

/-- `ChunkConfig::default` (`src/index/chunk.rs:13-18`). -/
def ChunkConfig.default : ChunkConfig := ⟨512, 64⟩

/-- `ChunkConfig::words_per_chunk` (`src/index/chunk.rs:23-25`). -/
def ChunkConfig.wordsPerChunk (config : ChunkConfig) : Nat :=
  max (config.maxTokens * 3 / 4) 1

/-- `ChunkConfig::overlap_words` (`src/index/chunk.rs:28-30`), clamped so that every window
advances. -/
def ChunkConfig.overlapWords (config : ChunkConfig) : Nat :=
  min (config.overlapTokens * 3 / 4) (config.wordsPerChunk - 1)

/-- `str::split_whitespace`: the words between the white space, none of them empty. -/
def splitWhitespace (text : String) : List String :=
  ((text.toList.splitOnP Verify.isWhitespace).filter (!·.isEmpty)).map String.ofList

/-- The loop of `chunk_text` over the words from `start` on; each round drops a stride, so
`fuel` words are at most `fuel` rounds. -/
def windows (window stride : Nat) : Nat → List String → List String
  | 0, _ => []
  | fuel + 1, words =>
    " ".intercalate (words.take window) ::
      if words.length ≤ window then [] else windows window stride fuel (words.drop stride)

/-- `chunk_text` (`src/index/chunk.rs:37-54`). -/
def chunkText (text : String) (config : ChunkConfig) : List String :=
  let words := splitWhitespace text
  if words.isEmpty then []
  else
    let window := config.wordsPerChunk
    windows window (window - config.overlapWords) words.length words

/-- `words[start..stop]`, which panics out of range. -/
def slice (words : List String) (start stop : Nat) : Option (List String) :=
  if start ≤ stop ∧ stop ≤ words.length then some ((words.take stop).drop start) else none

/-- The loop of `chunk_text` by the index of its first word, with the chunks so far. It is
`none` where a slice panics, and where `fuel` rounds do not end it. -/
def chunkLoop (words : List String) (window stride : Nat) :
    Nat → Nat → List String → Option (List String)
  | 0, _, _ => none
  | fuel + 1, start, chunks => do
    let stop := min (start + window) words.length
    let run ← slice words start stop
    let chunks := chunks ++ [" ".intercalate run]
    if stop = words.length then return chunks
    else chunkLoop words window stride fuel (start + stride) chunks

/-- `chunk_text` by indices. -/
def chunkTextLoop (fuel : Nat) (text : String) (config : ChunkConfig) : Option (List String) :=
  let words := splitWhitespace text
  if words.isEmpty then some []
  else
    let window := config.wordsPerChunk
    chunkLoop words window (window - config.overlapWords) fuel 0 []

/-- The windows advance, so the loop ends at the last word and never for want of fuel. -/
theorem windows_fuel {window stride : Nat} (wide : stride ≤ window) (advances : 0 < stride)
    {fuel fuel' : Nat} {words : List String} (enough : words.length ≤ fuel)
    (enough' : words.length ≤ fuel') (nonempty : words ≠ []) :
    windows window stride fuel words = windows window stride fuel' words := by
  induction fuel generalizing fuel' words with
  | zero => exact absurd (List.length_eq_zero_iff.mp (by omega)) nonempty
  | succ fuel ih =>
    cases fuel' with
    | zero => exact absurd (List.length_eq_zero_iff.mp (by omega)) nonempty
    | succ fuel' =>
      rw [windows, windows]
      by_cases last : words.length ≤ window
      · rw [if_pos last, if_pos last]
      · rw [if_neg last, if_neg last]
        have shorter : (words.drop stride).length = words.length - stride := List.length_drop
        have left : words.drop stride ≠ [] := by
          rw [ne_eq, ← List.length_eq_zero_iff]
          omega
        exact congrArg _ (ih (by omega) (by omega) left)

end Semcast.Index
