import Mathlib.Order.Lattice
import Mathlib.Order.Nat
import Semcast.Misc.FirstSeen
import Semcast.Physical.Rank

/-!
# The candidates of a ranking

What `bucket_candidates` makes of the hits it is given, and when the fixed budget of
chunks that the candidate stage fetches is enough for the documents it is to find.
-/

namespace Semcast.Rank

open Std Index FirstSeen

variable {ε α : Type*}

/-- The documents of the hits, in the order in which they first appear. -/
def docsOf (hits : List (ChunkHit α)) : List UInt64 :=
  (hits.map ChunkHit.docHash).eraseDups

/-- The chunks of one document among the hits. -/
def chunksOf (hash : UInt64) (hits : List (ChunkHit α)) : List (ChunkHit α) :=
  hits.filter fun hit => hit.docHash = hash

/-! ## Bucketing -/

theorem docsOf_concat (hits : List (ChunkHit α)) (hit : ChunkHit α) :
    docsOf (hits ++ [hit]) =
      if hit.docHash ∈ docsOf hits then docsOf hits else docsOf hits ++ [hit.docHash] := by
  simp only [docsOf, List.map_append, List.map_cons, List.map_nil, eraseDups_concat,
    List.mem_eraseDups]

theorem mem_docsOf {hits : List (ChunkHit α)} {hash : UInt64} :
    hash ∈ docsOf hits ↔ ∃ hit ∈ hits, hit.docHash = hash := by
  rw [docsOf, List.mem_eraseDups, List.mem_map]

theorem chunksOf_concat_self (hits : List (ChunkHit α)) (hit : ChunkHit α) :
    chunksOf hit.docHash (hits ++ [hit]) = chunksOf hit.docHash hits ++ [hit] := by
  simp [chunksOf]

theorem chunksOf_concat_of_ne {hits : List (ChunkHit α)} {hit : ChunkHit α} {hash : UInt64}
    (other : hit.docHash ≠ hash) : chunksOf hash (hits ++ [hit]) = chunksOf hash hits := by
  simp [chunksOf, other]

theorem chunksOf_eq_nil {hits : List (ChunkHit α)} {hash : UInt64} (new : hash ∉ docsOf hits) :
    chunksOf hash hits = [] := by
  rw [chunksOf, List.filter_eq_nil_iff]
  intro hit member same
  exact new (mem_docsOf.mpr ⟨hit, member, by simpa using same⟩)

/-- A document that comes after the last one that is let in. -/
theorem take_docsOf_concat {hits : List (ChunkHit α)} {hit : ChunkHit α} {candidates : Nat}
    (known : hit.docHash ∈ docsOf hits ∨ candidates ≤ (docsOf hits).length) :
    (docsOf (hits ++ [hit])).take candidates = (docsOf hits).take candidates := by
  rw [docsOf_concat]
  by_cases seen : hit.docHash ∈ docsOf hits
  · rw [if_pos seen]
  · rw [if_neg seen, List.take_append_of_le_length (known.resolve_left seen)]

/-- What `bucket_candidates` holds after some hits. -/
structure Bucketed (candidates chunksPerDoc : Nat) (hits : List (ChunkHit α))
    (chunks : DocMap (List String)) : Prop where
  size : chunks.size = ((docsOf hits).take candidates).length
  get : ∀ hash : UInt64, chunks[hash]? =
    if hash ∈ (docsOf hits).take candidates then
      some (((chunksOf hash hits).take chunksPerDoc).map ChunkHit.text)
    else none

variable {candidates chunksPerDoc : Nat}

theorem Bucketed.mem_iff {hits : List (ChunkHit α)} {chunks : DocMap (List String)}
    (bucketed : Bucketed candidates chunksPerDoc hits chunks) {hash : UInt64} :
    hash ∈ chunks ↔ hash ∈ (docsOf hits).take candidates := by
  rw [TreeMap.mem_iff_isSome_getElem?, bucketed.get]
  by_cases among : hash ∈ (docsOf hits).take candidates
  · simp [among]
  · simp [among]

/-- A chunk is added while its document has room for it. -/
theorem take_text_concat (own : List (ChunkHit α)) (hit : ChunkHit α) :
    (if ((own.take chunksPerDoc).map ChunkHit.text).length < chunksPerDoc then
      (own.take chunksPerDoc).map ChunkHit.text ++ [hit.text]
    else (own.take chunksPerDoc).map ChunkHit.text) =
      ((own ++ [hit]).take chunksPerDoc).map ChunkHit.text := by
  rw [List.length_map, List.length_take]
  by_cases room : own.length < chunksPerDoc
  · have short : min chunksPerDoc own.length < chunksPerDoc := by omega
    have fits : (own ++ [hit]).length ≤ chunksPerDoc := by
      rw [List.length_append, List.length_singleton]
      omega
    rw [if_pos short, List.take_of_length_le (Nat.le_of_lt room), List.take_of_length_le fits,
      List.map_append, List.map_singleton]
  · have full : ¬min chunksPerDoc own.length < chunksPerDoc := by omega
    rw [if_neg full, List.take_append_of_le_length (by omega)]

/-- A document that has no bucket yet, while there is room, is new. -/
theorem Bucketed.not_mem_docsOf {hits : List (ChunkHit α)} {chunks : DocMap (List String)}
    (bucketed : Bucketed candidates chunksPerDoc hits chunks) {hash : UInt64}
    (absent : hash ∉ chunks) (room : chunks.size < candidates) :
    hash ∉ docsOf hits ∧ (docsOf hits).length < candidates := by
  have size := bucketed.size
  rw [List.length_take] at size
  have short : (docsOf hits).length < candidates := by omega
  rw [bucketed.mem_iff, List.take_of_length_le (Nat.le_of_lt short)] at absent
  exact ⟨absent, short⟩

/-- The bucket of a hit that is let in. -/
theorem Bucketed.getD {hits : List (ChunkHit α)} {chunks : DocMap (List String)}
    (bucketed : Bucketed candidates chunksPerDoc hits chunks) {hash : UInt64}
    (letIn : hash ∈ chunks ∨ chunks.size < candidates) :
    chunks.getD hash [] = ((chunksOf hash hits).take chunksPerDoc).map ChunkHit.text := by
  rw [TreeMap.getD_eq_getD_getElem?, bucketed.get]
  by_cases among : hash ∈ (docsOf hits).take candidates
  · rw [if_pos among, Option.getD_some]
  · have absent : hash ∉ chunks := fun member => among (bucketed.mem_iff.mp member)
    have new := (bucketed.not_mem_docsOf absent (letIn.resolve_left absent)).1
    rw [if_neg among, chunksOf_eq_nil new]
    simp

/-- The first documents after a hit that is let in. -/
theorem Bucketed.take_docsOf_concat {hits : List (ChunkHit α)} {chunks : DocMap (List String)}
    (bucketed : Bucketed candidates chunksPerDoc hits chunks) {hit : ChunkHit α}
    (letIn : hit.docHash ∈ chunks ∨ chunks.size < candidates) :
    (docsOf (hits ++ [hit])).take candidates =
      if hit.docHash ∈ chunks then (docsOf hits).take candidates
      else (docsOf hits).take candidates ++ [hit.docHash] := by
  by_cases present : hit.docHash ∈ chunks
  · rw [if_pos present]
    exact Rank.take_docsOf_concat (Or.inl (List.mem_of_mem_take (bucketed.mem_iff.mp present)))
  · obtain ⟨new, short⟩ := bucketed.not_mem_docsOf present (letIn.resolve_left present)
    have fits : (docsOf hits ++ [hit.docHash]).length ≤ candidates := by
      rw [List.length_append, List.length_singleton]
      omega
    rw [if_neg present, docsOf_concat, if_neg new, List.take_of_length_le fits,
      List.take_of_length_le (Nat.le_of_lt short)]

/-- Every round keeps to the first documents and to their first chunks. -/
theorem Bucketed.step {hits : List (ChunkHit α)} {chunks : DocMap (List String)}
    (bucketed : Bucketed candidates chunksPerDoc hits chunks) (hit : ChunkHit α) :
    Bucketed candidates chunksPerDoc (hits ++ [hit])
      (bucketCandidate candidates chunksPerDoc chunks hit) := by
  have size := bucketed.size
  unfold bucketCandidate
  by_cases turned : hit.docHash ∉ chunks ∧ candidates ≤ chunks.size
  · rw [if_pos turned]
    rw [List.length_take] at size
    have same : (docsOf (hits ++ [hit])).take candidates = (docsOf hits).take candidates :=
      Rank.take_docsOf_concat (Or.inr (by omega))
    refine ⟨by rw [same, bucketed.size], fun hash => ?_⟩
    rw [same, bucketed.get]
    by_cases among : hash ∈ (docsOf hits).take candidates
    · have other : hit.docHash ≠ hash := by
        rintro rfl
        exact turned.1 (bucketed.mem_iff.mpr among)
      rw [if_pos among, if_pos among, chunksOf_concat_of_ne other]
    · rw [if_neg among, if_neg among]
  · have letIn : hit.docHash ∈ chunks ∨ chunks.size < candidates := by
      by_cases present : hit.docHash ∈ chunks
      · exact Or.inl present
      · exact Or.inr (Nat.lt_of_not_le fun full => turned ⟨present, full⟩)
    have first := bucketed.take_docsOf_concat letIn
    rw [if_neg turned]
    simp only [bucketed.getD letIn, take_text_concat]
    rw [← chunksOf_concat_self]
    constructor
    · rw [TreeMap.size_insert, first]
      by_cases present : hit.docHash ∈ chunks
      · simp only [TreeMap.contains_iff_mem, if_pos present, size]
      · simp only [TreeMap.contains_iff_mem, if_neg present, List.length_append, size,
          List.length_singleton]
    · intro hash
      rw [TreeMap.getElem?_insert, first]
      simp only [Std.compare_eq_iff_eq]
      by_cases same : hit.docHash = hash
      · subst same
        by_cases present : hit.docHash ∈ chunks
        · simp [present, bucketed.mem_iff.mp present]
        · simp [present]
      · rw [if_neg same, bucketed.get, chunksOf_concat_of_ne same]
        by_cases present : hit.docHash ∈ chunks
        · rw [if_pos present]
        · rw [if_neg present]
          simp [Ne.symm same]

theorem bucketed_bucketCandidates (hits : List (ChunkHit α)) (candidates chunksPerDoc : Nat) :
    Bucketed candidates chunksPerDoc hits (bucketCandidates hits candidates chunksPerDoc) := by
  induction hits using List.reverseRecOn with
  | nil =>
    refine ⟨by simp [bucketCandidates, docsOf], fun hash => ?_⟩
    simp [bucketCandidates, docsOf]
  | append_singleton hits hit ih =>
    rw [bucketCandidates, List.foldl_concat]
    exact ih.step hit

/-! ## The candidates of a content -/

/-- The hits come best first. -/
def BestFirst [LE α] (hits : List (ChunkHit α)) : Prop :=
  hits.Pairwise fun hit later => later.score ≤ hit.score

/-- The documents with the best best-chunk scores of a content, each with its best
chunks. -/
structure TopCandidates [LE α] (content : List (ChunkHit α)) (candidates chunksPerDoc : Nat)
    (evidence : DocMap (List String)) : Prop where
  /-- There are as many as asked for, or as there are documents. -/
  count : evidence.size = min candidates (docsOf content).length
  known : ∀ hash ∈ evidence, hash ∈ docsOf content
  /-- A chunk of another document is no better than the best one of a candidate. -/
  best : ∀ hash ∈ evidence, ∀ hit ∈ content, hit.docHash ∉ evidence →
    ∃ own ∈ content, own.docHash = hash ∧ hit.score ≤ own.score
  /-- The evidence of a document are its first chunks, when they stand best first. -/
  chunks : ∀ (hash : UInt64) (texts : List String), evidence[hash]? = some texts →
    ∃ own : List (ChunkHit α), own.Perm (chunksOf hash content) ∧ BestFirst own ∧
      texts = (own.take chunksPerDoc).map ChunkHit.text

/-- The index holds `ranking` for the query, best first, and its search returns the
`fetchK` nearest chunks. -/
structure ChunkIndex.Nearest [LE α] [OrderBot α] (index : ChunkIndex ε α) (query : String)
    (ranking : List (ChunkHit α)) : Prop where
  sorted : BestFirst ranking
  search : ∀ params : SearchParams α, params.scoreFloor = ⊥ →
    index.search query params = .ok (ranking.take params.fetchK)
  indexed : ∃ indexed, index.indexedDocHashes = .ok indexed ∧
    ∀ hash, hash ∈ indexed ↔ hash ∈ docsOf ranking

/-- For each of the first `candidates` documents of a ranking, the chunks it may hand to
the model are among the first `candidates * chunksPerDoc` of all chunks. -/
def BudgetReaches (ranking : List (ChunkHit α)) (candidates chunksPerDoc : Nat) : Prop :=
  ∀ hash ∈ (docsOf ranking).take candidates,
    min chunksPerDoc (chunksOf hash ranking).length ≤
      (chunksOf hash (ranking.take (min (candidates * chunksPerDoc) (2 ^ 64 - 1)))).length

instance (ranking : List (ChunkHit α)) (candidates chunksPerDoc : Nat) :
    Decidable (BudgetReaches ranking candidates chunksPerDoc) :=
  List.decidableBAll _ _

section Budget

variable {ranking : List (ChunkHit α)} {k : Nat}

theorem isPrefix_docsOf_take (ranking : List (ChunkHit α)) (k : Nat) :
    docsOf (ranking.take k) <+: docsOf ranking := by
  rw [docsOf, List.map_take]
  exact isPrefix_eraseDups_take _ k

theorem isPrefix_chunksOf_take (hash : UInt64) (ranking : List (ChunkHit α)) (k : Nat) :
    chunksOf hash (ranking.take k) <+: chunksOf hash ranking :=
  (List.take_prefix k ranking).filter _

/-- A budget that holds the first chunk of each of the first documents has the same
first documents. -/
theorem take_docsOf_take (chunks_pos : 0 < chunksPerDoc)
    (reaches : ∀ hash ∈ (docsOf ranking).take candidates,
      min chunksPerDoc (chunksOf hash ranking).length ≤ (chunksOf hash (ranking.take k)).length) :
    (docsOf (ranking.take k)).take candidates = (docsOf ranking).take candidates := by
  apply take_eq_of_prefix (isPrefix_docsOf_take ranking k)
  have within : (docsOf ranking).take candidates ⊆ docsOf (ranking.take k) := by
    intro hash among
    by_contra missing
    have enough := reaches hash among
    have own : chunksOf hash ranking ≠ [] := by
      intro none_own
      obtain ⟨hit, member, same⟩ := mem_docsOf.mp (List.mem_of_mem_take among)
      rw [chunksOf, List.filter_eq_nil_iff] at none_own
      exact none_own hit member (by simpa using same)
    have pos := List.length_pos_of_ne_nil own
    rw [chunksOf_eq_nil missing, List.length_nil] at enough
    omega
  have distinct : ((docsOf ranking).take candidates).Nodup :=
    (nodup_eraseDups _).sublist (List.take_sublist _ _)
  have fewer := (List.subperm_of_subset distinct within).length_le
  rwa [List.length_take] at fewer

/-- The first chunks of a document that the budget reaches. -/
theorem take_chunksOf_take {hash : UInt64}
    (reaches : min chunksPerDoc (chunksOf hash ranking).length ≤
      (chunksOf hash (ranking.take k)).length) :
    (chunksOf hash (ranking.take k)).take chunksPerDoc =
      (chunksOf hash ranking).take chunksPerDoc :=
  take_eq_of_prefix (isPrefix_chunksOf_take hash ranking k) reaches

end Budget

section Stage

variable {ranking content : List (ChunkHit α)}

theorem mem_docsOf_perm (ranked : ranking.Perm content) {hash : UInt64} :
    hash ∈ docsOf ranking ↔ hash ∈ docsOf content := by
  rw [mem_docsOf, mem_docsOf]
  simp only [ranked.mem_iff]

theorem length_docsOf_perm (ranked : ranking.Perm content) :
    (docsOf ranking).length = (docsOf content).length :=
  length_eraseDups_of_perm (ranked.map _)

variable [LinearOrder α]

/-- With a budget that reaches, the buckets hold the best documents and chunks. -/
theorem topCandidates_of_budgetReaches {k : Nat} (chunks_pos : 0 < chunksPerDoc)
    (ranked : ranking.Perm content) (sorted : BestFirst ranking)
    (reaches : ∀ hash ∈ (docsOf ranking).take candidates,
      min chunksPerDoc (chunksOf hash ranking).length ≤ (chunksOf hash (ranking.take k)).length) :
    TopCandidates content candidates chunksPerDoc
      (bucketCandidates (ranking.take k) candidates chunksPerDoc) := by
  have bucketed := bucketed_bucketCandidates (ranking.take k) candidates chunksPerDoc
  have first := take_docsOf_take chunks_pos reaches
  have mem_iff : ∀ hash, hash ∈ bucketCandidates (ranking.take k) candidates chunksPerDoc ↔
      hash ∈ (docsOf ranking).take candidates := by
    intro hash
    rw [bucketed.mem_iff, first]
  refine ⟨?_, ?_, ?_, ?_⟩
  · rw [bucketed.size, first, List.length_take, length_docsOf_perm ranked]
  · intro hash member
    exact (mem_docsOf_perm ranked).mp (List.mem_of_mem_take ((mem_iff hash).mp member))
  · intro hash member hit within beyond
    rw [mem_iff] at member beyond
    obtain ⟨own, mem, same, better⟩ :=
      exists_better_of_mem_take sorted member (ranked.mem_iff.mpr within) beyond
    exact ⟨own, ranked.mem_iff.mp mem, same, better⟩
  · intro hash texts found
    rw [bucketed.get] at found
    by_cases among : hash ∈ (docsOf (ranking.take k)).take candidates
    · rw [if_pos among, Option.some.injEq] at found
      refine ⟨chunksOf hash ranking, ranked.filter _, sorted.filter _, ?_⟩
      rw [← found, take_chunksOf_take (reaches hash (first ▸ among))]
    · rw [if_neg among] at found
      cases found

/-- Buckets that hold the best documents and chunks come of a budget that reaches. -/
theorem budgetReaches_of_topCandidates {k : Nat} (ranked : ranking.Perm content)
    (top : TopCandidates content candidates chunksPerDoc
      (bucketCandidates (ranking.take k) candidates chunksPerDoc)) :
    ∀ hash ∈ (docsOf ranking).take candidates,
      min chunksPerDoc (chunksOf hash ranking).length ≤ (chunksOf hash (ranking.take k)).length := by
  have bucketed := bucketed_bucketCandidates (ranking.take k) candidates chunksPerDoc
  have count := top.count
  rw [bucketed.size, List.length_take, ← length_docsOf_perm ranked] at count
  have first : (docsOf (ranking.take k)).take candidates = (docsOf ranking).take candidates :=
    take_eq_of_prefix (isPrefix_docsOf_take ranking k) (by omega)
  intro hash among
  rw [← first] at among
  have found := bucketed.get hash
  rw [if_pos among] at found
  obtain ⟨own, perm, -, texts⟩ := top.chunks hash _ found
  have lengths := congrArg List.length texts
  simp only [List.length_map, List.length_take, perm.length_eq,
    (ranked.filter _).length_eq, chunksOf] at lengths ⊢
  omega

/-- The candidate stage finds as many documents as asked for, the best ones, with their
best chunks, exactly when their chunks are not crowded out of its budget. -/
theorem candidateStage_top_iff [OrderBot α] (exec : SemRankExec ε α) (chunks_pos : 0 < exec.chunksPerDoc)
    (ranked : ranking.Perm content) (nearest : exec.index.Nearest exec.query ranking) :
    ∃ found, exec.candidateStage = .ok found ∧
      (TopCandidates content exec.candidates exec.chunksPerDoc found.evidence ↔
        BudgetReaches ranking exec.candidates exec.chunksPerDoc) := by
  obtain ⟨indexed, known, -⟩ := nearest.indexed
  have budget : exec.searchParams.fetchK =
      min (exec.candidates * exec.chunksPerDoc) (2 ^ 64 - 1) := by
    have max_eq : max exec.chunksPerDoc 1 = exec.chunksPerDoc := by omega
    rw [SemRankExec.searchParams, max_eq]
    rfl
  have searched := nearest.search exec.searchParams rfl
  refine ⟨_, by rw [SemRankExec.candidateStage, searched, known]; rfl, ?_⟩
  show TopCandidates content exec.candidates exec.chunksPerDoc
    (bucketCandidates (ranking.take exec.searchParams.fetchK) exec.candidates
      exec.chunksPerDoc) ↔ _
  rw [budget]
  exact ⟨budgetReaches_of_topCandidates ranked,
    topCandidates_of_budgetReaches chunks_pos ranked nearest.sorted⟩

/-- An index that holds a ranking. -/
def rankedIndex (ranking : List (ChunkHit ℕ)) : ChunkIndex Unit ℕ :=
  { search := fun _ params => .ok (ranking.take params.fetchK)
    indexedDocHashes := .ok (TreeSet.ofList (docsOf ranking)) }

theorem nearest_rankedIndex {ranking : List (ChunkHit ℕ)} (sorted : BestFirst ranking)
    (query : String) : (rankedIndex ranking).Nearest query ranking := by
  refine ⟨sorted, fun _ _ => rfl, _, rfl, fun hash => ?_⟩
  rw [TreeSet.mem_ofList, List.contains_iff_mem]

/-- Two chunks of one document, then the only chunk of another. -/
def longDocument : List (ChunkHit ℕ) :=
  [⟨1, 0, 9, "a"⟩, ⟨1, 1, 8, "b"⟩, ⟨2, 0, 5, "c"⟩]

theorem bestFirst_longDocument : BestFirst longDocument := by
  unfold BestFirst
  decide

/-- The stage is asked for two documents of two, and finds one. -/
theorem longDocument_crowds_out :
    let exec : SemRankExec Unit ℕ := ⟨"query", 2, rankedIndex longDocument, 1⟩
    exec.index.Nearest exec.query longDocument ∧
      ∃ found, exec.candidateStage = .ok found ∧ ¬TopCandidates longDocument 2 1 found.evidence := by
  intro exec
  refine ⟨nearest_rankedIndex bestFirst_longDocument _, _, rfl, ?_⟩
  intro top
  have one : (bucketCandidates (longDocument.take 2) 2 1).size = 1 := by decide +kernel
  have two : min 2 (docsOf longDocument).length = 2 := by decide +kernel
  have count := top.count
  rw [two] at count
  exact absurd (one.symm.trans count) (by decide)

/-- With room for two chunks of each document, both are found. -/
theorem longDocument_fits :
    let exec : SemRankExec Unit ℕ := ⟨"query", 2, rankedIndex longDocument, 2⟩
    ∃ found, exec.candidateStage = .ok found ∧ TopCandidates longDocument 2 2 found.evidence := by
  intro exec
  obtain ⟨found, stage, iff⟩ := candidateStage_top_iff exec (by decide) (List.Perm.refl longDocument)
    (nearest_rankedIndex bestFirst_longDocument "query")
  exact ⟨found, stage, iff.mpr (by decide +kernel)⟩

end Stage

end Semcast.Rank
