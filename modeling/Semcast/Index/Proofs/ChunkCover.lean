import Semcast.Index.Chunk
import Semcast.Misc.SlidingWindow

/-!
# Chunks cover their text

The loop of `chunk_text` ends, and its chunks are the sliding windows of the words of the
text: together they hold every word and nothing else.
-/

namespace Semcast.Index

open SlidingWindow

variable {window stride : Nat}

theorem windows_eq_map_slide (fuel : Nat) (words : List String) :
    windows window stride fuel words =
      (slide window stride fuel words).map (String.intercalate " ") := by
  induction fuel generalizing words with
  | zero => rfl
  | succ fuel ih =>
    rw [windows, slide, List.map_cons]
    by_cases last : words.length ≤ window
    · rw [if_pos last, if_pos last, List.map_nil]
    · rw [if_neg last, if_neg last, ih]

/-- The loop by indices makes the windows of the words that are left, with no slice out of
range. -/
theorem chunkLoop_eq (wide : stride ≤ window) (advances : 0 < stride) {words : List String}
    {fuel start : Nat} (left : start < words.length) (enough : words.length - start ≤ fuel)
    (chunks : List String) :
    chunkLoop words window stride fuel start chunks =
      some (chunks ++ windows window stride fuel (words.drop start)) := by
  induction fuel generalizing start chunks with
  | zero => omega
  | succ fuel ih =>
    have length : (words.drop start).length = words.length - start := List.length_drop
    rw [chunkLoop, windows]
    by_cases last : (words.drop start).length ≤ window
    · have stop : min (start + window) words.length = words.length := by omega
      have inside : start ≤ words.length ∧ words.length ≤ words.length := by omega
      rw [stop, slice, if_pos inside, if_pos last, List.take_length, List.take_of_length_le last]
      simp
    · have stop : min (start + window) words.length = start + window := by omega
      have inside : start ≤ start + window ∧ start + window ≤ words.length := by omega
      have more : ¬start + window = words.length := by omega
      have next := @ih (start + stride) (by omega) (by omega)
      rw [stop, slice, if_pos inside, if_neg last, ← List.take_drop, List.drop_drop]
      simp [more, next]

variable (text : String) (config : ChunkConfig)

/-- What the chunks of a text are, for its words and a configuration: `runs` of consecutive
words, by the places where they begin and end. -/
structure Covers (words : List String) (window overlap : Nat) (runs : List (List String)) :
    Prop where
  /-- The runs start one stride apart. -/
  run : ∀ i run, runs[i]? = some run → run = (words.drop (i * (window - overlap))).take window
  nonempty : ∀ run ∈ runs, run ≠ []
  /-- A run goes on past the end of the one before it. -/
  advances : ∀ i run next, runs[i]? = some run → runs[i + 1]? = some next →
    i * (window - overlap) + run.length < (i + 1) * (window - overlap) + next.length
  /-- Without what they share with the one before, the runs are the words. -/
  joined : runs.headD [] ++ (runs.tail.map (List.drop overlap)).flatten = words
  /-- Words next to each other, no more of them than the overlap and one, lie in a run. -/
  together : ∀ first count, 0 < count → count ≤ overlap + 1 → first + count ≤ words.length →
    ∃ i run, runs[i]? = some run ∧ i * (window - overlap) ≤ first ∧
      first + count ≤ i * (window - overlap) + run.length

theorem ChunkConfig.overlapWords_lt : config.overlapWords < config.wordsPerChunk := by
  have pos : 1 ≤ config.wordsPerChunk := Nat.le_max_right _ _
  have clamped : config.overlapWords ≤ config.wordsPerChunk - 1 := Nat.min_le_right _ _
  omega

/-- The chunks of a text cover its words and nothing else, and the loop that makes them
ends, with no slice out of range. A window is three words for four tokens, one at least, and
the overlap is counted the same way and stays below the window. -/
theorem chunkText_covers :
    (∀ fuel, (splitWhitespace text).length ≤ fuel →
      chunkTextLoop fuel text config = some (chunkText text config)) ∧
    ∃ runs, chunkText text config = runs.map (String.intercalate " ") ∧
      Covers (splitWhitespace text) (max (config.maxTokens * 3 / 4) 1)
        (min (config.overlapTokens * 3 / 4) (max (config.maxTokens * 3 / 4) 1 - 1)) runs := by
  have window : max (config.maxTokens * 3 / 4) 1 = config.wordsPerChunk := rfl
  have clamp : min (config.overlapTokens * 3 / 4) (config.wordsPerChunk - 1) =
      config.overlapWords := rfl
  rw [window, clamp]
  set words := splitWhitespace text
  have clamped := config.overlapWords_lt
  have wide : config.wordsPerChunk - config.overlapWords ≤ config.wordsPerChunk := by omega
  have advances : 0 < config.wordsPerChunk - config.overlapWords := by omega
  have overlap : config.wordsPerChunk - (config.wordsPerChunk - config.overlapWords) =
      config.overlapWords := by omega
  by_cases empty : words = []
  · have none_left : (splitWhitespace text).isEmpty = true := List.isEmpty_iff.mpr empty
    have chunks : chunkText text config = [] := by rw [chunkText, if_pos none_left]
    refine ⟨?_, [], chunks, ?_⟩
    · intro fuel _
      rw [chunkTextLoop, if_pos none_left, chunks]
    · rw [empty]
      refine ⟨by simp, by simp, by simp, rfl, ?_⟩
      intro first count pos _ within
      simp at within
      omega
  · have some_left : ¬(splitWhitespace text).isEmpty = true := mt List.isEmpty_iff.mp empty
    have chunks : chunkText text config =
        windows config.wordsPerChunk (config.wordsPerChunk - config.overlapWords) words.length
          words := by rw [chunkText, if_neg some_left]
    refine ⟨?_, slide config.wordsPerChunk (config.wordsPerChunk - config.overlapWords)
      words.length words, by rw [chunks, windows_eq_map_slide], ?_⟩
    · intro fuel enough
      rw [chunkTextLoop, if_neg some_left, chunks,
        chunkLoop_eq wide advances (List.length_pos_of_ne_nil empty) enough,
        List.drop_zero, List.nil_append]
      exact congrArg some (windows_fuel wide advances enough (Nat.le_refl _) empty)
    · have slides := slides_slide advances wide (Nat.le_refl words.length) empty
      refine ⟨slides.slice, ?_, fun i run next => slides.stop_lt advances, ?_, ?_⟩
      · intro run member
        rcases List.mem_iff_getElem?.mp member with ⟨i, found⟩
        exact slides.slice_ne_nil advances wide empty found
      · have joined := slide_joined wide advances (Nat.le_refl words.length) empty
        rwa [overlap] at joined
      · intro first count pos short within
        exact slides.exists_covering advances wide pos (by omega) within

end Semcast.Index
