import Mathlib.Data.List.Perm.Subperm
import Semcast.Cache.Proofs.Groups
import Semcast.Misc.Fallible
import Semcast.Misc.Numbered
import Semcast.Physical.Proofs.Candidates
import Semcast.Physical.RankScore

/-!
# What a ranking pays and gives

The second stage of a ranking asks the model once for each distinct candidate document that the
cache has no score for, so at most as often as there are candidates, however many rows there are.
Each row gets the score of its own document.
-/

namespace Semcast.Rank

open Std Model Cache Json Index Extract FirstSeen LawfulSemanticCache

namespace Ranker

variable {ρ ε α F C : Type*} (libraries : ScoreLibraries F) (ranker : Ranker ρ ε α)

/-! ## Documents and their scores -/

/-- The documents of some rows, in the order in which they first appear. -/
def documents (rows : List ρ) : List UInt64 :=
  ((rows.filterMap ranker.text).map docHash).eraseDups

/-- What is sent to score a document. -/
def inputOf (evidence : DocMap (List String)) (hash : UInt64) : Option String :=
  evidence[hash]?.map Verify.chunkSeparator.intercalate

/-- The score in an answer. -/
def usable (answer : (UInt64 × String) × Except ε Completion) : Option F :=
  answer.2.toOption.bind fun completion => parseScore libraries completion.text

section Cached

variable [SemanticCache C] [LawfulSemanticCache C]

/-- The text of the score that the cache has for an input. -/
def stored (cache : C) (input : String) : Option String :=
  valueOf cache (ranker.cacheKey libraries input)

/-- A document as it waits for the model, if it does. -/
def asks (cache : C) (evidence : DocMap (List String)) (hash : UInt64) :
    Option (UInt64 × String) :=
  (inputOf evidence hash).bind fun input =>
    if (ranker.stored libraries cache input).isNone then some (hash, input) else none

/-- The documents that wait for the model. -/
def asked (cache : C) (evidence : DocMap (List String)) (rows : List ρ) : List (UInt64 × String) :=
  (ranker.documents rows).filterMap (ranker.asks libraries cache evidence)

/-- The score that a document has in the cache. -/
def cachedScore (cache : C) (evidence : DocMap (List String)) (hash : UInt64) : Option F :=
  ((inputOf evidence hash).bind (ranker.stored libraries cache)).bind libraries.parse

/-- The score of a document: the cached one, else that of its own answer. -/
def docScore (cache : C) (answers : List ((UInt64 × String) × Except ε Completion))
    (evidence : DocMap (List String)) (hash : UInt64) : Option F :=
  match (inputOf evidence hash).bind (ranker.stored libraries cache) with
  | some score => libraries.parse score
  | none => (answers.find? (·.1.1 == hash)).bind (usable libraries)

end Cached

variable {libraries ranker}

theorem documents_concat (rows : List ρ) (row : ρ) :
    ranker.documents (rows ++ [row]) =
      match ranker.text row with
      | none => ranker.documents rows
      | some text =>
        if docHash text ∈ ranker.documents rows then ranker.documents rows
        else ranker.documents rows ++ [docHash text] := by
  unfold documents
  cases sent : ranker.text row with
  | none => simp [sent]
  | some text =>
    rw [List.filterMap_append, List.filterMap_cons_some sent, List.map_append]
    simp only [List.filterMap_nil, List.map_cons, List.map_nil, eraseDups_concat,
      List.mem_eraseDups]

/-! ## The first loop -/

section FirstLoop

variable [SemanticCache C] [LawfulSemanticCache C]

/-- What the first loop holds after some rows. -/
structure Looked (libraries : ScoreLibraries F) (ranker : Ranker ρ ε α) (cache : C)
    (evidence : DocMap (List String)) (rows : List ρ) (state : ScoreState F C) : Prop where
  scores : ∀ hash : UInt64, state.scores[hash]? =
    if hash ∈ ranker.documents rows then ranker.cachedScore libraries cache evidence hash else none
  seen : ∀ hash, hash ∈ state.seen ↔ hash ∈ ranker.documents rows
  pending : state.pending = ranker.asked libraries cache evidence rows
  requests : state.requests = state.pending.map fun asked => ranker.request libraries asked.2
  rowsFailed : state.rowsFailed = 0
  cache : Reads cache state.cache

variable (libraries) in
/-- A round over a row whose document is new. -/
theorem lookUpScore_new {cache : C} (evidence : DocMap (List String)) {state : ScoreState F C}
    (same : lookup state.cache = lookup cache) {row : ρ} {text : String}
    (sent : ranker.text row = some text) (new : state.seen.contains (docHash text) = false) :
    ∃ hits after, Reads state.cache after ∧
      ranker.lookUpScore libraries evidence state row =
        { state with
          seen := state.seen.insert (docHash text)
          scores :=
            match ranker.cachedScore libraries cache evidence (docHash text) with
            | some score => state.scores.insert (docHash text) score
            | none => state.scores
          requests := state.requests ++ ((ranker.asks libraries cache evidence
            (docHash text)).toList.map fun asked => ranker.request libraries asked.2)
          pending := state.pending ++ (ranker.asks libraries cache evidence (docHash text)).toList
          cacheHits := hits
          cache := after } := by
  unfold lookUpScore
  rw [sent]
  dsimp only
  rw [if_neg (by simp [new])]
  cases chunks : evidence[docHash text]? with
  | none =>
    exact ⟨state.cacheHits, state.cache, .refl _, by simp [cachedScore, asks, inputOf, chunks]⟩
  | some chunks' =>
    dsimp only
    have input : inputOf evidence (docHash text) =
        some (Verify.chunkSeparator.intercalate chunks') := by rw [inputOf, chunks, Option.map_some]
    generalize Verify.chunkSeparator.intercalate chunks' = excerpts at input ⊢
    have got : (SemanticCache.get state.cache (ranker.cacheKey libraries excerpts)).1 =
        answer cache (ranker.cacheKey libraries excerpts) := by
      rw [answer_get, answer, same, answer]
    have reads := Reads.get state.cache (ranker.cacheKey libraries excerpts)
    have asking : ranker.stored libraries cache excerpts = none →
        ranker.asks libraries cache evidence (docHash text) = some (docHash text, excerpts) ∧
          ranker.cachedScore libraries cache evidence (docHash text) = none := by
      intro missing
      simp [asks, cachedScore, input, missing]
    rw [got]
    cases held : answer cache (ranker.cacheKey libraries excerpts) with
    | none =>
      obtain ⟨waits, unscored⟩ := asking (by rw [stored, valueOf, held])
      exact ⟨_, _, reads, by rw [waits, unscored]; rfl⟩
    | some entry =>
      cases entry with
      | error message =>
        obtain ⟨waits, unscored⟩ := asking (by rw [stored, valueOf, held])
        exact ⟨_, _, reads, by rw [waits, unscored]; rfl⟩
      | value score =>
        have has : ranker.stored libraries cache excerpts = some score := by
          rw [stored, valueOf, held]
        have quiet : ranker.asks libraries cache evidence (docHash text) = none := by
          simp [asks, input, has]
        have scored : ranker.cachedScore libraries cache evidence (docHash text) =
            libraries.parse score := by
          simp [cachedScore, input, has]
        refine ⟨state.cacheHits + 1, _, reads, ?_⟩
        rw [quiet, scored]
        cases parsed : libraries.parse score <;> simp [parsed]

theorem Looked.step {cache : C} {evidence : DocMap (List String)} {rows : List ρ}
    {state : ScoreState F C} (looked : Looked libraries ranker cache evidence rows state)
    (row : ρ) :
    Looked libraries ranker cache evidence (rows ++ [row])
      (ranker.lookUpScore libraries evidence state row) := by
  have grown := ranker.documents_concat rows row
  cases sent : ranker.text row with
  | none =>
    rw [sent] at grown
    unfold lookUpScore
    rw [sent]
    exact ⟨grown ▸ looked.scores, grown ▸ looked.seen, by
      rw [looked.pending, asked, asked, grown], looked.requests, looked.rowsFailed, looked.cache⟩
  | some text =>
    rw [sent] at grown
    dsimp only at grown
    have member : state.seen.contains (docHash text) = true ↔
        docHash text ∈ ranker.documents rows := TreeSet.contains_iff_mem.trans (looked.seen _)
    by_cases old : docHash text ∈ ranker.documents rows
    · rw [if_pos old] at grown
      unfold lookUpScore
      rw [sent]
      dsimp only
      rw [if_pos (member.mpr old)]
      exact ⟨grown ▸ looked.scores, grown ▸ looked.seen, by
        rw [looked.pending, asked, asked, grown], looked.requests, looked.rowsFailed, looked.cache⟩
    · rw [if_neg old] at grown
      have new : state.seen.contains (docHash text) = false := by
        rw [← Bool.not_eq_true]
        exact fun held => old (member.mp held)
      obtain ⟨hits, after, reads, round⟩ :=
        lookUpScore_new libraries evidence looked.cache.lookup_eq sent new
      rw [round]
      refine ⟨fun hash => ?_, fun hash => ?_, ?_, ?_, looked.rowsFailed, looked.cache.trans reads⟩
      · by_cases same : hash = docHash text
        · subst same
          rw [if_pos (by simp [grown])]
          cases scored : ranker.cachedScore libraries cache evidence (docHash text) with
          | some score => simp
          | none => simp [looked.scores, old]
        · have kept := looked.scores hash
          simp only [grown, List.mem_append, List.mem_singleton, same, or_false]
          rw [← kept]
          cases ranker.cachedScore libraries cache evidence (docHash text) with
          | some score =>
            exact TreeMap.getElem?_insert.trans (if_neg fun equal =>
              same (Std.compare_eq_iff_eq.mp equal).symm)
          | none => rfl
      · rw [grown, TreeSet.mem_insert, looked.seen, List.mem_append, List.mem_singleton,
          Std.compare_eq_iff_eq, or_comm, eq_comm]
      · rw [asked, grown, List.filterMap_append, looked.pending, asked]
        cases found : ranker.asks libraries cache evidence (docHash text) <;> simp [found]
      · rw [List.map_append, looked.requests]

/-- The first loop. -/
theorem looked_foldl {cache : C} {evidence : DocMap (List String)} {before : List ρ}
    {state : ScoreState F C} (looked : Looked libraries ranker cache evidence before state)
    (rows : List ρ) :
    Looked libraries ranker cache evidence (before ++ rows)
      (rows.foldl (ranker.lookUpScore libraries evidence) state) := by
  induction rows generalizing before state with
  | nil => simpa using looked
  | cons row rest ih =>
    have shifted : before ++ row :: rest = before ++ [row] ++ rest := by simp
    rw [List.foldl_cons, shifted]
    exact ih (looked.step row)

variable (libraries ranker) in
theorem looked_start (cache : C) (evidence : DocMap (List String)) :
    Looked libraries ranker cache evidence [] ⟨∅, ∅, [], [], 0, 0, cache⟩ where
  scores hash := by simp [documents]
  seen hash := by simp [documents]
  pending := by simp [asked, documents]
  requests := rfl
  rowsFailed := rfl
  cache := .refl cache

end FirstLoop

/-! ## The second loop -/

section SecondLoop

variable [SemanticCache C]

/-- What an answer puts. -/
def scorePut (libraries : ScoreLibraries F) (ranker : Ranker ρ ε α)
    (answer : (UInt64 × String) × Except ε Completion) : Option (CacheKey × String) :=
  (usable libraries answer).map fun score =>
    (ranker.cacheKey libraries answer.1.2, libraries.floats.display score)

theorem applyScore_eq (state : ScoreState F C)
    (answer : (UInt64 × String) × Except ε Completion) :
    ranker.applyScore libraries state answer =
      match usable libraries answer with
      | some score =>
        { state with
          scores := state.scores.insert answer.1.1 score
          cache := putAll state.cache ((scorePut libraries ranker answer).toList.map valueEntry) }
      | none => { state with rowsFailed := state.rowsFailed + 1 } := by
  unfold applyScore scorePut
  cases found : usable libraries answer with
  | none =>
    unfold usable at found
    rw [found]
  | some score =>
    have found' := found
    unfold usable at found'
    rw [found']
    rfl

variable (libraries ranker) in
/-- What the second loop leaves alone, puts and counts. -/
theorem foldl_applyScore (state : ScoreState F C)
    (answers : List ((UInt64 × String) × Except ε Completion)) :
    let final := answers.foldl (ranker.applyScore libraries) state
    final.requests = state.requests ∧ final.pending = state.pending ∧
      final.rowsFailed = state.rowsFailed +
        (answers.countP fun answer => (usable libraries answer).isNone) ∧
      final.cache =
        putAll state.cache ((answers.filterMap (scorePut libraries ranker)).map valueEntry) := by
  induction answers generalizing state with
  | nil => exact ⟨rfl, rfl, rfl, rfl⟩
  | cons answer rest ih =>
    obtain ⟨requests, pending, failed, cache⟩ := ih (ranker.applyScore libraries state answer)
    rw [applyScore_eq] at requests pending failed cache
    rw [List.foldl_cons, applyScore_eq]
    cases found : usable libraries answer with
    | some score =>
      rw [found] at requests pending failed cache
      refine ⟨requests, pending, ?_, ?_⟩
      · rw [failed, List.countP_cons]
        simp [found]
      · have put : scorePut libraries ranker answer = some (_, _) := congrArg (Option.map _) found
        rw [cache, List.filterMap_cons_some put, put]
        rfl
    | none =>
      rw [found] at requests pending failed cache
      refine ⟨requests, pending, ?_, ?_⟩
      · rw [failed, List.countP_cons]
        simp [found, Nat.add_assoc, Nat.add_comm]
      · have put : scorePut libraries ranker answer = none := congrArg (Option.map _) found
        rw [cache, List.filterMap_cons_none put]

/-- A document gets the score of its answer. -/
theorem foldl_applyScore_scores {answers : List ((UInt64 × String) × Except ε Completion)}
    (distinct : (answers.map fun answer => answer.1.1).Nodup) (state : ScoreState F C)
    (hash : UInt64) :
    (answers.foldl (ranker.applyScore libraries) state).scores[hash]? =
      ((answers.find? (·.1.1 == hash)).bind (usable libraries)).or state.scores[hash]? := by
  induction answers generalizing state with
  | nil => rfl
  | cons answer rest ih =>
    rw [List.map_cons, List.nodup_cons] at distinct
    rw [List.foldl_cons, ih distinct.2, applyScore_eq]
    by_cases same : answer.1.1 = hash
    · subst same
      have later : rest.find? (·.1.1 == answer.1.1) = none := by
        rw [List.find?_eq_none]
        intro other member equal
        exact distinct.1 (List.mem_map.mpr ⟨other, member, beq_iff_eq.mp equal⟩)
      rw [later, List.find?_cons_of_pos (by simp), Option.bind_some, Option.bind_none,
        Option.none_or]
      cases usable libraries answer with
      | some score => simp
      | none => rfl
    · rw [List.find?_cons_of_neg (by simpa using same)]
      congr 1
      cases usable libraries answer with
      | some score =>
        exact TreeMap.getElem?_insert.trans
          (if_neg fun equal => same (Std.compare_eq_iff_eq.mp equal))
      | none => rfl

end SecondLoop

/-! ## The stage -/

section Stage

variable [SemanticCache C] [LawfulSemanticCache C]

/-- The answers that the waiting documents get. -/
def answers (libraries : ScoreLibraries F) (ranker : Ranker ρ ε α) (cache : C)
    (evidence : DocMap (List String)) (rows : List ρ) :
    List ((UInt64 × String) × Except ε Completion) :=
  (ranker.asked libraries cache evidence rows).zip (ranker.model.complete
    ((ranker.asked libraries cache evidence rows).map fun asked =>
      ranker.request libraries asked.2))

theorem fst_of_asks {cache : C} {evidence : DocMap (List String)} {hash : UInt64}
    {asked : UInt64 × String} (asks : ranker.asks libraries cache evidence hash = some asked) :
    asked.1 = hash ∧ inputOf evidence hash = some asked.2 ∧
      ranker.stored libraries cache asked.2 = none := by
  obtain ⟨input, sent, asks⟩ := Option.bind_eq_some_iff.mp asks
  obtain ⟨missing, same⟩ := Option.ite_none_right_eq_some.mp asks
  cases same
  exact ⟨rfl, sent, Option.isNone_iff_eq_none.mp missing⟩

variable (libraries ranker) in
/-- A document waits once. -/
theorem nodup_asked (cache : C) (evidence : DocMap (List String)) (rows : List ρ) :
    ((ranker.asked libraries cache evidence rows).map Prod.fst).Nodup := by
  refine List.Nodup.sublist ?_ (nodup_eraseDups ((rows.filterMap ranker.text).map docHash))
  unfold asked documents
  induction ((rows.filterMap ranker.text).map docHash).eraseDups with
  | nil => exact .slnil
  | cons hash rest ih =>
    cases found : ranker.asks libraries cache evidence hash with
    | none =>
      rw [List.filterMap_cons_none found]
      exact ih.cons _
    | some asked =>
      rw [List.filterMap_cons_some found, List.map_cons, (fst_of_asks found).1]
      exact ih.cons_cons _

theorem nodup_answers (cache : C) (evidence : DocMap (List String)) (rows : List ρ) :
    ((answers libraries ranker cache evidence rows).map fun answer => answer.1.1).Nodup := by
  have distinct := nodup_asked libraries ranker cache evidence rows
  exact Numbered.nodup_zip distinct _

/-- What `score` has at its end. -/
structure Scored (libraries : ScoreLibraries F) (ranker : Ranker ρ ε α) (cache : C)
    (evidence : DocMap (List String)) (rows : List ρ) (final : ScoreState F C) : Prop where
  scores : ∀ hash ∈ ranker.documents rows, final.scores[hash]? =
    ranker.docScore libraries cache (answers libraries ranker cache evidence rows) evidence hash
  pending : final.pending = ranker.asked libraries cache evidence rows
  requests : final.requests = final.pending.map fun asked => ranker.request libraries asked.2
  rowsFailed : final.rowsFailed =
    (answers libraries ranker cache evidence rows).countP fun answer =>
      (usable libraries answer).isNone
  cache : Filled cache final.cache
    ((answers libraries ranker cache evidence rows).filterMap (scorePut libraries ranker))

/-- A document with a cached score has no answer. -/
theorem find?_answers_of_stored {cache : C} {evidence : DocMap (List String)} {rows : List ρ}
    {hash : UInt64} {input score : String} (sent : inputOf evidence hash = some input)
    (has : ranker.stored libraries cache input = some score) :
    (answers libraries ranker cache evidence rows).find? (·.1.1 == hash) = none := by
  rw [List.find?_eq_none]
  intro answer member equal
  obtain ⟨hash', -, asks⟩ := List.mem_filterMap.mp (List.of_mem_zip member).1
  obtain ⟨named, sent', missing⟩ := fst_of_asks asks
  obtain rfl : hash' = hash := named.symm.trans (beq_iff_eq.mp equal)
  rw [sent, Option.some.injEq] at sent'
  rw [sent', missing] at has
  cases has

variable (libraries ranker) in
theorem score_scored (cache : C) (evidence : DocMap (List String)) (kept : List (List ρ)) :
    Scored libraries ranker cache evidence kept.flatten
      (ranker.score libraries evidence kept cache) := by
  have looked := looked_foldl (looked_start libraries ranker cache evidence) kept.flatten
  rw [List.nil_append] at looked
  unfold score
  dsimp only
  set state := kept.flatten.foldl (ranker.lookUpScore libraries evidence)
    ⟨∅, ∅, [], [], 0, 0, cache⟩
  have answered : state.pending.zip (ranker.model.complete state.requests) =
      answers libraries ranker cache evidence kept.flatten := by
    rw [looked.requests, looked.pending, answers]
  rw [answered]
  obtain ⟨requests, pending, failed, puts⟩ := foldl_applyScore libraries ranker state
    (answers libraries ranker cache evidence kept.flatten)
  refine ⟨fun hash member => ?_, pending.trans looked.pending, ?_, ?_, state.cache, looked.cache,
    puts⟩
  · rw [foldl_applyScore_scores (nodup_answers cache evidence kept.flatten), looked.scores,
      if_pos member, docScore, cachedScore]
    cases sent : inputOf evidence hash with
    | none =>
      simp
    | some input =>
      cases has : ranker.stored libraries cache input with
      | some score =>
        rw [find?_answers_of_stored sent has]
        simp [has]
      | none => simp [has]
  · rw [requests, pending]
    exact looked.requests
  · rw [failed, looked.rowsFailed, Nat.zero_add]

/-- The rows of candidate documents, over all batches. -/
def kept (ranker : Ranker ρ ε α) (candidates : Candidates) (batches : List (List ρ)) : List ρ :=
  batches.flatten.filter fun row => candidates.keeps (ranker.text row)

theorem flatten_kept (candidates : Candidates) (batches : List (List ρ)) :
    ((batches.map fun batch => batch.filter fun row =>
      candidates.keeps (ranker.text row)).filter (!·.isEmpty)).flatten =
        ranker.kept candidates batches := by
  rw [List.flatten_filter_not_isEmpty, kept, List.filter_flatten]

theorem mem_documents_of_kept {candidates : Candidates} {batches : List (List ρ)} {row : ρ}
    (member : row ∈ ranker.kept candidates batches) {text : String}
    (sent : ranker.text row = some text) :
    docHash text ∈ ranker.documents (ranker.kept candidates batches) :=
  List.mem_eraseDups.mpr (List.mem_map_of_mem (List.mem_filterMap.mpr ⟨row, member, sent⟩))

/-- There are at most as many documents to ask about as there are candidates. -/
theorem length_asked_le [LE α] [OrderBot α] {candidates : Candidates}
    (staged : ranker.exec.candidateStage = .ok candidates) (cache : C) (rows : List ρ) :
    (ranker.asked libraries cache candidates.evidence rows).length ≤ ranker.exec.candidates := by
  unfold SemRankExec.candidateStage at staged
  split at staged
  · cases staged
  · rename_i hits _
    obtain ⟨indexed, -, rfl⟩ := Fallible.map_ok_iff.mp staged
    have bucketed := bucketed_bucketCandidates hits ranker.exec.candidates
      ranker.exec.searchParams.chunksPerDoc
    rw [← List.length_map (f := Prod.fst)]
    refine Nat.le_trans (List.Subperm.length_le (List.Nodup.subperm
      (nodup_asked libraries ranker cache _ rows) fun hash member => ?_))
      (List.length_take_le ranker.exec.candidates (docsOf hits))
    obtain ⟨asked, waits, rfl⟩ := List.mem_map.mp member
    obtain ⟨hash, -, asks⟩ := List.mem_filterMap.mp waits
    obtain ⟨named, sent, -⟩ := fst_of_asks asks
    rw [named, ← bucketed.mem_iff, TreeMap.mem_iff_isSome_getElem?]
    obtain ⟨chunks, found, -⟩ := Option.map_eq_some_iff.mp sent
    rw [found, Option.isSome_some]

variable (libraries) in
/-- A run and what it leaves behind. -/
theorem run_eq [LE α] [OrderBot α] {candidates : Candidates}
    (staged : ranker.exec.candidateStage = .ok candidates) (batches : List (List ρ)) (cache : C) :
    ∃ output final, ranker.run libraries batches cache = .ok (output, final) ∧
      output.flatten = (ranker.kept candidates batches).map
        (fun row => (row, ranker.scoreOf final.scores row)) ∧
      Scored libraries ranker cache candidates.evidence (ranker.kept candidates batches) final := by
  have scored := score_scored libraries ranker cache candidates.evidence
    ((batches.map fun batch => batch.filter fun row =>
      candidates.keeps (ranker.text row)).filter (!·.isEmpty))
  rw [flatten_kept] at scored
  refine ⟨_, _, congrArg (Except.map _) staged, ?_, scored⟩
  rw [← flatten_kept, List.map_flatten]

variable (libraries) in
/-- A ranking gives each candidate row the score of its document: the cached one, or that of the
document's own answer. It asks once for each candidate document that the cache has no score for,
so at most as often as there are candidates. -/
theorem run_scores [LE α] [OrderBot α] {candidates : Candidates}
    (staged : ranker.exec.candidateStage = .ok candidates) (batches : List (List ρ)) (cache : C) :
    ∃ output final, ranker.run libraries batches cache = .ok (output, final) ∧
      output.flatten = (ranker.kept candidates batches).map (fun row =>
        (row, (ranker.text row).bind fun text => ranker.docScore libraries cache
          (answers libraries ranker cache candidates.evidence (ranker.kept candidates batches))
          candidates.evidence (docHash text))) ∧
      final.requests = (ranker.asked libraries cache candidates.evidence
        (ranker.kept candidates batches)).map (fun asked => ranker.request libraries asked.2) ∧
      ((ranker.asked libraries cache candidates.evidence
        (ranker.kept candidates batches)).map Prod.fst).Nodup ∧
      final.requests.length ≤ ranker.exec.candidates ∧
      ranker.exec.run ranker.text (fun _ _ => final.scores) batches.flatten =
        .ok output.flatten := by
  obtain ⟨output, final, ran, rows, scored⟩ := run_eq libraries staged batches cache
  have requests := scored.requests
  rw [scored.pending] at requests
  refine ⟨output, final, ran, ?_, requests, nodup_asked libraries ranker cache _ _, ?_, ?_⟩
  · rw [rows]
    refine List.map_congr_left fun row member => ?_
    rw [scoreOf]
    cases sent : ranker.text row with
    | none => rfl
    | some text =>
      rw [Option.bind_some, Option.bind_some,
        scored.scores _ (mem_documents_of_kept member sent)]
  · rw [requests, List.length_map]
    exact length_asked_le staged cache _
  · rw [SemRankExec.run, staged, rows]
    rfl

end Stage

/-! ## A second ranking -/

section Again

variable [SemanticCache C] [WritePolicy C] {cache : C} {evidence : DocMap (List String)}
  {rows : List ρ} {final : ScoreState F C}

/-- The slot of a score. -/
def inputSlot (libraries : ScoreLibraries F) (ranker : Ranker ρ ε α) (input : String) : Slot C :=
  slot (ranker.cacheKey libraries input)

/-- The cache has the score, or an answer for excerpts of the same slot has one. -/
def Settled (libraries : ScoreLibraries F) (ranker : Ranker ρ ε α) (cache : C)
    (answers : List ((UInt64 × String) × Except ε Completion)) (input : String) : Prop :=
  ranker.stored libraries cache input ≠ none ∨ ∃ answer ∈ answers,
    (ranker.inputSlot libraries answer.1.2 : Slot C) = ranker.inputSlot libraries input ∧
      usable libraries answer ≠ none

/-- Answers that go into one slot are alike. -/
def AnsweredAlike (C : Type*) [SemanticCache C] [WritePolicy C] (libraries : ScoreLibraries F)
    (ranker : Ranker ρ ε α) (answers : List ((UInt64 × String) × Except ε Completion)) : Prop :=
  ∀ answer ∈ answers, ∀ answer' ∈ answers,
    (ranker.inputSlot libraries answer.1.2 : Slot C) = ranker.inputSlot libraries answer'.1.2 →
      usable libraries answer = usable libraries answer'

theorem mem_scorePuts {answers : List ((UInt64 × String) × Except ε Completion)}
    {put : CacheKey × String} :
    put ∈ answers.filterMap (scorePut libraries ranker) ↔
      ∃ answer ∈ answers, ∃ score, usable libraries answer = some score ∧
        put = (ranker.cacheKey libraries answer.1.2, libraries.floats.display score) := by
  rw [List.mem_filterMap]
  constructor
  · rintro ⟨answer, member, put⟩
    obtain ⟨score, found, rfl⟩ := Option.map_eq_some_iff.mp put
    exact ⟨answer, member, score, found, rfl⟩
  · rintro ⟨answer, member, score, found, rfl⟩
    exact ⟨answer, member, Option.map_eq_some_iff.mpr ⟨score, found, rfl⟩⟩

theorem stored_of_answers {answer : (UInt64 × String) × Except ε Completion}
    (member : answer ∈ answers libraries ranker cache evidence rows) :
    ranker.stored libraries cache answer.1.2 = none := by
  obtain ⟨_, -, asks⟩ := List.mem_filterMap.mp (List.of_mem_zip member).1
  exact (fst_of_asks asks).2.2

/-- A score that the cache has, or that no answer has, stays as it is. -/
theorem Scored.stored_kept (scored : Scored libraries ranker cache evidence rows final)
    {input : String} (kept : ranker.stored libraries cache input ≠ none ∨ ¬ Settled libraries ranker
      cache (answers libraries ranker cache evidence rows) input) :
    ranker.stored libraries final.cache input = ranker.stored libraries cache input := by
  refine scored.cache.valueOf_kept fun put among same => ?_
  obtain ⟨answer, member, score, found, rfl⟩ := mem_scorePuts.mp among
  rcases kept with has | unsettled
  · refine has (Eq.trans (valueOf_congr ?_) (stored_of_answers member))
    rw [Cache.answer, Cache.answer, same]
  · exact unsettled (Or.inr ⟨answer, member, same, by simp [found]⟩)

/-- An answer with a score leaves one in the cache. -/
theorem Scored.stored_put (scored : Scored libraries ranker cache evidence rows final)
    {input : String} (isOpen : Open cache (ranker.inputSlot libraries input))
    (settled : ∃ answer ∈ answers libraries ranker cache evidence rows,
      (ranker.inputSlot libraries answer.1.2 : Slot C) = ranker.inputSlot libraries input ∧
        usable libraries answer ≠ none) :
    ∃ answer ∈ answers libraries ranker cache evidence rows, ∃ score,
      (ranker.inputSlot libraries answer.1.2 : Slot C) = ranker.inputSlot libraries input ∧
        usable libraries answer = some score ∧
        ranker.stored libraries final.cache input = some (libraries.floats.display score) := by
  obtain ⟨answer, member, there, some_⟩ := settled
  obtain ⟨score, found⟩ := Option.ne_none_iff_exists'.mp some_
  obtain ⟨put, among, into, held⟩ := scored.cache.valueOf_put isOpen
    ⟨_, mem_scorePuts.mpr ⟨answer, member, score, found, rfl⟩, there⟩
  obtain ⟨answer', member', score', found', rfl⟩ := mem_scorePuts.mp among
  exact ⟨answer', member', score', into, found', held⟩

variable {ρ' ε' : Type*} {again : Ranker ρ' ε' α}

theorem stored_again (sameQuery : again.exec.query = ranker.exec.query)
    (sameModel : again.model.id = ranker.model.id) (cache : C) (input : String) :
    again.stored libraries cache input = ranker.stored libraries cache input := by
  rw [stored, stored, cacheKey, cacheKey, sameQuery, sameModel]

/-- What the cache has of a score after a ranking. -/
theorem Scored.stored_iff (scored : Scored libraries ranker cache evidence rows final)
    (unobstructed : ∀ asked ∈ ranker.asked libraries cache evidence rows,
      Open cache (ranker.inputSlot libraries asked.2 : Slot C)) (input : String) :
    ranker.stored libraries final.cache input ≠ none ↔
      Settled libraries ranker cache (answers libraries ranker cache evidence rows) input := by
  by_cases has : ranker.stored libraries cache input = none
  · by_cases settled : Settled libraries ranker cache
        (answers libraries ranker cache evidence rows) input
    · obtain ⟨answer, member, there, some_⟩ := settled.resolve_left (not_not_intro has)
      have isOpen : Open cache (ranker.inputSlot libraries input : Slot C) :=
        there ▸ unobstructed answer.1 (List.of_mem_zip member).1
      obtain ⟨-, -, score, -, -, held⟩ := scored.stored_put isOpen ⟨answer, member, there, some_⟩
      simp [held, settled]
    · rw [scored.stored_kept (Or.inr settled)]
      simp [has, settled]
  · rw [scored.stored_kept (Or.inl has)]
    simp [has, Settled]

/-- A document whose score is settled has the same one in the cache afterwards, where answers that
share a slot are alike. -/
theorem Scored.parse_stored (scored : Scored libraries ranker cache evidence rows final)
    (unobstructed : ∀ asked ∈ ranker.asked libraries cache evidence rows,
      Open cache (ranker.inputSlot libraries asked.2 : Slot C))
    (complete : (ranker.model.complete final.requests).length = final.requests.length)
    (alike : AnsweredAlike C libraries ranker (answers libraries ranker cache evidence rows))
    (reparses : ∀ answer ∈ answers libraries ranker cache evidence rows, ∀ score,
      usable libraries answer = some score →
        libraries.parse (libraries.floats.display score) = some score)
    {hash : UInt64} (member : hash ∈ ranker.documents rows) {input : String}
    (sent : inputOf evidence hash = some input)
    (settled : Settled libraries ranker cache (answers libraries ranker cache evidence rows) input) :
    (ranker.stored libraries final.cache input).bind libraries.parse =
      ranker.docScore libraries cache (answers libraries ranker cache evidence rows) evidence
        hash := by
  rw [docScore, sent, Option.bind_some]
  cases has : ranker.stored libraries cache input with
  | some score =>
    rw [scored.stored_kept (Or.inl (by simp [has])), has, Option.bind_some]
  | none =>
    obtain ⟨answer, answered, there, some_⟩ := settled.resolve_left (not_not_intro has)
    have isOpen : Open cache (ranker.inputSlot libraries input : Slot C) :=
      there ▸ unobstructed answer.1 (List.of_mem_zip answered).1
    obtain ⟨answer', answered', score, there', found, held⟩ :=
      scored.stored_put isOpen ⟨answer, answered, there, some_⟩
    rw [held, Option.bind_some, reparses answer' answered' score found]
    -- The document asked itself, and its own answer is like the one that was put.
    have waits : (hash, input) ∈ ranker.asked libraries cache evidence rows :=
      List.mem_filterMap.mpr ⟨hash, member, by simp [asks, sent, has]⟩
    obtain ⟨place, place_is⟩ := List.getElem?_of_mem waits
    have requests := scored.requests
    rw [scored.pending] at requests
    have within : place < (ranker.model.complete final.requests).length := by
      rw [complete, requests, List.length_map]
      exact (List.getElem?_eq_some_iff.mp place_is).1
    have placed : (answers libraries ranker cache evidence rows)[place]? =
        some ((hash, input), (ranker.model.complete final.requests)[place]) := by
      rw [answers, ← requests]
      exact List.getElem?_zip_eq_some.mpr ⟨place_is, List.getElem?_eq_getElem within⟩
    have own := List.mem_of_getElem? placed
    have like := alike _ answered' _ own there'
    have named := Numbered.find?_of_nodup (nodup_answers cache evidence rows) own
    dsimp only at named
    rw [named, Option.bind_some, ← like, found]

/-- A second ranking by the same query and model over the documents of the first asks nothing
exactly where the cache had each score or an answer gave it. Where answers that share a slot are
alike, rows of one text get the score that they had. -/
theorem rank_again [LE α] [OrderBot α] {candidates candidates' : Candidates}
    {batches : List (List ρ)} {batches' : List (List ρ')}
    (staged : ranker.exec.candidateStage = .ok candidates)
    (staged' : again.exec.candidateStage = .ok candidates')
    (sameQuery : again.exec.query = ranker.exec.query)
    (sameModel : again.model.id = ranker.model.id)
    (known : ∀ hash ∈ again.documents (again.kept candidates' batches'),
      hash ∈ ranker.documents (ranker.kept candidates batches) ∧
        inputOf candidates'.evidence hash = inputOf candidates.evidence hash)
    (unobstructed : ∀ asked ∈ ranker.asked libraries cache candidates.evidence
      (ranker.kept candidates batches), Open cache (ranker.inputSlot libraries asked.2 : Slot C))
    {output : List (List (ρ × Option F))} {output' : List (List (ρ' × Option F))}
    {final' : ScoreState F C}
    (first : ranker.run libraries batches cache = .ok (output, final))
    (second : again.run libraries batches' final.cache = .ok (output', final')) :
    (final'.requests = [] ↔ ∀ hash ∈ again.documents (again.kept candidates' batches'),
      ∀ input, inputOf candidates'.evidence hash = some input →
        Settled libraries ranker cache (answers libraries ranker cache candidates.evidence
          (ranker.kept candidates batches)) input) ∧
    ((ranker.model.complete final.requests).length = final.requests.length →
      AnsweredAlike C libraries ranker (answers libraries ranker cache candidates.evidence
        (ranker.kept candidates batches)) →
      (∀ answer ∈ answers libraries ranker cache candidates.evidence
        (ranker.kept candidates batches), ∀ score, usable libraries answer = some score →
          libraries.parse (libraries.floats.display score) = some score) →
      ∀ scored ∈ output.flatten, ∀ scored' ∈ output'.flatten, ∀ text input,
        ranker.text scored.1 = some text → again.text scored'.1 = some text →
        inputOf candidates.evidence (docHash text) = some input →
        Settled libraries ranker cache (answers libraries ranker cache candidates.evidence
          (ranker.kept candidates batches)) input → scored'.2 = scored.2) := by
  obtain ⟨_, _, ran, rows, done⟩ := run_eq libraries staged batches cache
  rw [first] at ran
  cases ran
  obtain ⟨_, _, ran, rows', done'⟩ := run_eq libraries staged' batches' final.cache
  rw [second] at ran
  cases ran
  constructor
  · rw [done'.requests, done'.pending, List.map_eq_nil_iff, asked, List.filterMap_eq_nil_iff]
    refine forall₂_congr fun hash member => ?_
    rw [asks]
    cases sent : inputOf candidates'.evidence hash with
    | none => simp
    | some input =>
      rw [Option.bind_some, stored_again sameQuery sameModel]
      simp only [Option.some.injEq, forall_eq', ← done.stored_iff unobstructed input]
      simp
  · intro complete alike reparses scored member scored' member' text input sent sent' excerpts
      settled
    rw [rows] at member
    rw [rows'] at member'
    obtain ⟨row, kept, rfl⟩ := List.mem_map.mp member
    obtain ⟨row', kept', rfl⟩ := List.mem_map.mp member'
    dsimp only at sent sent' ⊢
    have document := mem_documents_of_kept kept sent
    have document' := mem_documents_of_kept kept' sent'
    obtain ⟨-, sameInput⟩ := known _ document'
    rw [excerpts] at sameInput
    have has := (done.stored_iff unobstructed input).mpr settled
    obtain ⟨score, held⟩ := Option.ne_none_iff_exists'.mp has
    have read := done.parse_stored unobstructed complete alike reparses document excerpts settled
    rw [held, Option.bind_some] at read
    rw [scoreOf, scoreOf, sent, sent', Option.bind_some, Option.bind_some, done.scores _ document,
      done'.scores _ document', ← read, docScore, sameInput, Option.bind_some,
      stored_again sameQuery sameModel, held]

end Again

section Example

/-- Whole scores, and one object. -/
def wholeScores : ScoreLibraries Int where
  blake3 := id
  floats := ⟨id, fun x y => decide (x ≤ y), fun _ => true, toString⟩
  json :=
    { fromStr := fun text =>
        if text = "one" then some (.object [("score", .number (.int 1))]) else none
      toString := fun _ => "" }
  parse := String.toInt?
  isNan _ := false
  clamp := id

def budgetHits : List (ChunkHit ℕ) :=
  [⟨docHash "budget", 0, 9, "budget"⟩]

/-- One indexed document, by a model that gives it the best score. -/
def budgetRanker : Ranker (Option String) Unit ℕ where
  text := id
  exec :=
    { query := "money"
      candidates := 2
      index := rankedIndex budgetHits
      chunksPerDoc := 1 }
  model := ⟨⟨"model"⟩, fun requests => requests.map fun _ => .ok ⟨"one", 0, 0⟩⟩

def budgetCandidates : Candidates :=
  ⟨bucketCandidates budgetHits 2 1, TreeSet.ofList (docsOf budgetHits)⟩

theorem budget_staged : budgetRanker.exec.candidateStage = .ok budgetCandidates := rfl

/-- A ranking with two candidates sends two requests at most. -/
theorem budget_scores : ∃ output final,
    budgetRanker.run wholeScores [[some "budget"], [none, some "budget"]] InMemoryCache.default =
      .ok (output, final) ∧ final.requests.length ≤ 2 := by
  obtain ⟨output, final, ran, -, -, -, few, -⟩ := run_scores wholeScores budget_staged
    [[some "budget"], [none, some "budget"]] InMemoryCache.default
  exact ⟨output, final, ran, few⟩

/-- Ranking them again costs nothing. -/
theorem budget_again_free : ∃ output final output' final',
    budgetRanker.run wholeScores [[some "budget"], [none, some "budget"]] InMemoryCache.default =
      .ok (output, final) ∧
    budgetRanker.run wholeScores [[some "budget", none]] final.cache = .ok (output', final') ∧
      final'.requests = [] := by
  obtain ⟨output, final, first, -⟩ := run_eq wholeScores budget_staged
    [[some "budget"], [none, some "budget"]] InMemoryCache.default
  obtain ⟨output', final', second, -⟩ := run_eq wholeScores budget_staged [[some "budget", none]]
    final.cache
  have documents : budgetRanker.documents (budgetRanker.kept budgetCandidates
      [[some "budget"], [none, some "budget"]]) = [docHash "budget"] := by decide +kernel
  have documents' : budgetRanker.documents (budgetRanker.kept budgetCandidates
      [[some "budget", none]]) = [docHash "budget"] := by decide +kernel
  refine ⟨output, final, output', final', first, second, (rank_again budget_staged budget_staged
    rfl rfl ?_ (fun _ _ => Or.inl rfl) first second).1.mpr ?_⟩
  · intro hash member
    rw [documents'] at member
    rw [documents]
    exact ⟨member, rfl⟩
  · intro hash member input sent
    rw [documents', List.mem_singleton] at member
    subst member
    have waits : budgetRanker.asked wholeScores InMemoryCache.default budgetCandidates.evidence
        (budgetRanker.kept budgetCandidates [[some "budget"], [none, some "budget"]]) =
        [(docHash "budget", "budget")] := by decide +kernel
    have input_is : input = "budget" := by
      have excerpts : inputOf budgetCandidates.evidence (docHash "budget") = some "budget" := by
        decide +kernel
      exact Option.some.inj (sent.symm.trans excerpts)
    subst input_is
    refine Or.inr ⟨((docHash "budget", "budget"), .ok ⟨"one", 0, 0⟩), ?_, rfl, by decide +kernel⟩
    rw [answers, waits]
    exact List.mem_cons_self

end Example

end Ranker

end Semcast.Rank
