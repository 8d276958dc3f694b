import Semcast.Physical.IndexScan
import Semcast.Physical.Proofs.Candidates

/-!
# Two ways to bucket hits

The candidate stage and the index scan both sort the hits of a search into documents, with
at most so many chunks each. The first lets in only so many documents: what it makes is
what the second makes, restricted to the documents that appear first.
-/

namespace Semcast.Rank

open Std Index IndexScan

variable {α : Type*}

/-- A cap that all documents fit under turns none away. -/
theorem bucketCandidates_eq_bucketChunks {hits : List (ChunkHit α)} {candidates chunksPerDoc : Nat}
    (room : (docsOf hits).length ≤ candidates) :
    bucketCandidates hits candidates chunksPerDoc = bucketChunks hits chunksPerDoc := by
  induction hits using List.reverseRecOn with
  | nil => rfl
  | append_singleton hits hit ih =>
    rw [docsOf_concat] at room
    have before : (docsOf hits).length ≤ candidates := by
      by_cases known : hit.docHash ∈ docsOf hits
      · rwa [if_pos known] at room
      · rw [if_neg known, List.length_append] at room
        omega
    have bucketed := bucketed_bucketCandidates hits candidates chunksPerDoc
    have letIn : ¬(hit.docHash ∉ bucketCandidates hits candidates chunksPerDoc ∧
        candidates ≤ (bucketCandidates hits candidates chunksPerDoc).size) := by
      rintro ⟨absent, full⟩
      rw [bucketed.size, List.take_of_length_le before] at full
      rw [bucketed.mem_iff, List.take_of_length_le before] at absent
      rw [if_neg absent, List.length_append, List.length_singleton] at room
      omega
    rw [bucketChunks, List.foldl_concat, ← bucketChunks, ← ih before, bucketCandidates,
      List.foldl_concat, ← bucketCandidates, bucketCandidate, if_neg letIn]
    rfl

/-- What `bucket_chunks` holds of a document. -/
theorem getElem?_bucketChunks (hits : List (ChunkHit α)) (chunksPerDoc : Nat) (hash : UInt64) :
    (bucketChunks hits chunksPerDoc)[hash]? =
      if hash ∈ docsOf hits then
        some (((chunksOf hash hits).take chunksPerDoc).map ChunkHit.text)
      else none := by
  rw [← bucketCandidates_eq_bucketChunks (Nat.le_refl _),
    (bucketed_bucketCandidates hits _ chunksPerDoc).get, List.take_length]

/-- `bucket_candidates` makes the buckets of `bucket_chunks` for the documents that appear
first among the hits, and no others. -/
theorem bucketCandidates_equiv_filter (hits : List (ChunkHit α)) (candidates chunksPerDoc : Nat) :
    (bucketCandidates hits candidates chunksPerDoc).Equiv
      ((bucketChunks hits chunksPerDoc).filter fun hash _ =>
        hash ∈ (docsOf hits).take candidates) := by
  apply TreeMap.Equiv.of_forall_constGet?_eq
  intro hash
  rw [(bucketed_bucketCandidates hits candidates chunksPerDoc).get, TreeMap.getElem?_filter',
    getElem?_bucketChunks]
  by_cases among : hash ∈ (docsOf hits).take candidates
  · rw [if_pos among, if_pos (List.mem_of_mem_take among), Option.filter_some,
      if_pos (decide_eq_true among)]
  · rw [if_neg among]
    simp [among]

end Semcast.Rank
