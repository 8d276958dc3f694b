import Semcast.Physical.Proofs.RankedValues

/-!
# The arithmetic of the over-fetch

What a user asks for with `LIMIT` and `OFFSET` passes through `find_fetch`,
`SemRankNode::candidates` and `SemRankExec::search_params`, of which the second multiplies
without a check. The counts are safe just for fewer than `2 ^ 62` rows.
-/

namespace Semcast.RankPlan

open Logical hiding LogicalPlan
open RankRule Rank Index Fallible

variable {F D O : Type}

/-- `usize::checked_mul`, which a build with overflow checks panics without. -/
def checkedMul (a b : ℕ) : Option ℕ :=
  if a * b < 2 ^ 64 then some (a * b) else none

/-- `SemRankNode::candidates` of a build with overflow checks; `none` is a panic. -/
def checkedCandidates (limit : ℕ) : Option ℕ :=
  (checkedMul limit overFetch).map (max · minCandidates)

/-- The rows that a `LIMIT` with its `OFFSET` asks for, or a sort that a `LIMIT` was folded
into. -/
def rowsAsked : RankRule.LogicalPlan F D O → Option ℕ
  | .limit _ (.ok (.literal skip)) (.ok (.literal (some fetch))) _ => some (fetch + skip)
  | .limit _ (.ok .unsupportedExpr) (.ok (.literal (some fetch))) _ => some fetch
  | .sort _ _ fetch => fetch
  | _ => none

/-- The rows that the first literal limit on a walk from the root asks for. -/
def firstAsked (plan : RankRule.LogicalPlan F D O) : Option ℕ :=
  plan.nodes.findSome? rowsAsked

/-- The limit at a node, and what it asks for. -/
theorem rowsAsked_of_fetchOf {node : RankRule.LogicalPlan F D O} {fetch : Option ℕ}
    (found : fetchOf node = .ok fetch) :
    (fetch = none ∧ rowsAsked node = none) ∨
      ∃ limit rows, fetch = some limit ∧ rowsAsked node = some rows ∧
        (limit < 2 ^ 62 ↔ rows < 2 ^ 62) := by
  cases node with
  | limit expressions skip size input =>
    obtain ⟨kind, literal, counted⟩ := bind_ok_iff.mp found
    clear found
    subst literal
    cases kind with
    | unsupportedExpr =>
      cases counted
      exact Or.inl ⟨rfl, by unfold rowsAsked; split <;> simp_all⟩
    | literal count =>
      cases count with
      | none =>
        cases counted
        exact Or.inl ⟨rfl, by unfold rowsAsked; split <;> simp_all⟩
      | some count =>
        obtain ⟨offset, known, total⟩ := bind_ok_iff.mp counted
        clear counted
        subst known
        cases offset with
        | literal skipped =>
          cases total
          refine Or.inr ⟨_, _, rfl, rfl, ?_⟩
          unfold saturatingAdd
          omega
        | unsupportedExpr =>
          cases total
          refine Or.inr ⟨_, _, rfl, rfl, ?_⟩
          unfold saturatingAdd
          omega
  | sort keys input own =>
    cases found
    cases fetch with
    | none => exact Or.inl ⟨rfl, rfl⟩
    | some count => exact Or.inr ⟨count, count, rfl, rfl, Iff.rfl⟩
  | projection => cases found; exact Or.inl ⟨rfl, rfl⟩
  | semRank => cases found; exact Or.inl ⟨rfl, rfl⟩
  | other => cases found; exact Or.inl ⟨rfl, rfl⟩

theorem findSome_rowsAsked {limit : ℕ} {nodes : List (RankRule.LogicalPlan F D O)}
    (found : firstFetch nodes = .ok (some limit)) :
    ∃ rows, nodes.findSome? rowsAsked = some rows ∧ (limit < 2 ^ 62 ↔ rows < 2 ^ 62) := by
  induction nodes with
  | nil => cases found
  | cons node rest ih =>
    obtain ⟨fetch, here, found⟩ := bind_ok_iff.mp found
    rcases rowsAsked_of_fetchOf here with ⟨rfl, none_asked⟩ | ⟨own, rows, rfl, asked, same⟩
    · rw [List.findSome?_cons, none_asked]
      exact ih found
    · cases found
      rw [List.findSome?_cons, asked]
      exact ⟨rows, rfl, same⟩

variable {ε α ρ κ σ : Type} [LE α] [OrderBot α]

/-- What is asked of the counts of a rank node with this limit: no step overflows, there
are as many candidates as the limit and the minimum call for, and the search fetches a
chunk at least for each. -/
structure OverFetched (engine : Engine F D O ε α ρ κ σ) (limit : ℕ) (text : Expr F D O)
    (query : String) (index : ChunkIndex ε α) : Prop where
  checked : checkedCandidates limit = some (nodeCandidates limit)
  limit_le : limit ≤ nodeCandidates limit
  min_le : minCandidates ≤ nodeCandidates limit
  fetch_le : nodeCandidates limit ≤ (rankExec engine limit text query index).searchParams.fetchK

theorem nodeCandidates_lt (limit : ℕ) : nodeCandidates limit < 2 ^ 64 := by
  unfold nodeCandidates minCandidates
  omega

/-- A product that saturates is no less than a factor that a `usize` holds. -/
theorem le_saturatingMul {a b : ℕ} (fits : a < 2 ^ 64) (pos : 0 < b) : a ≤ saturatingMul a b := by
  have grows : a ≤ a * b := Nat.le_mul_of_pos_right a pos
  unfold saturatingMul
  omega

variable (engine : Engine F D O ε α ρ κ σ) (text : Expr F D O) (query : String)
  (index : ChunkIndex ε α)

/-- A limit is over-fetched safely just when its multiple still fits. -/
theorem overFetched_iff_lt (limit : ℕ) :
    OverFetched engine limit text query index ↔ limit < 2 ^ 62 := by
  constructor
  · intro safe
    by_contra large
    have overflows : ¬limit * overFetch < 2 ^ 64 := by
      unfold overFetch
      omega
    have checked := safe.checked
    rw [checkedCandidates, checkedMul, if_neg overflows] at checked
    cases checked
  · intro small
    have fits : limit * overFetch < 2 ^ 64 := by
      unfold overFetch
      omega
    have exact_count : nodeCandidates limit = max (limit * overFetch) minCandidates := by
      rw [nodeCandidates, Nat.mod_eq_of_lt fits]
    refine ⟨?_, ?_, ?_, ?_⟩
    · rw [checkedCandidates, checkedMul, if_pos fits, exact_count, Option.map_some]
    · rw [exact_count]
      unfold overFetch
      omega
    · rw [exact_count]
      exact Nat.le_max_right _ _
    · show _ ≤ saturatingMul (nodeCandidates limit) (max (engine.chunksPerDoc text) 1)
      exact le_saturatingMul (nodeCandidates_lt limit) (by omega)

/-- The counts of a rank node are safe just when the limit that `find_fetch` finds asks,
with its offset, for fewer than `2 ^ 62` rows. -/
theorem overFetched_iff {plan : RankRule.LogicalPlan F D O} {limit : ℕ}
    (found : findFetch plan = .ok (some limit)) :
    ∃ rows, firstAsked plan = some rows ∧
      (OverFetched engine limit text query index ↔ rows < 2 ^ 62) := by
  obtain ⟨rows, asked, same⟩ := findSome_rowsAsked found
  exact ⟨rows, asked, (overFetched_iff_lt engine text query index limit).trans same⟩

/-- An index of no documents. -/
def emptyIndex : ChunkIndex String ℕ where
  search _ _ := .ok []
  indexedDocHashes := .ok ∅

/-- A limit of five is over-fetched safely. -/
theorem five_overFetched : ∃ rows, firstAsked (limitTo 5 (scored notesScan)) = some rows ∧
    (OverFetched (notesEngine []) 5 relevanceOfBody "refund" emptyIndex ↔ rows < 2 ^ 62) := by
  have found : findFetch (limitTo 5 (scored notesScan)) = .ok (some 5) := by decide +kernel
  exact overFetched_iff (notesEngine []) relevanceOfBody "refund" emptyIndex found

/-- The multiple of a limit of `2 ^ 62` overflows, and wraps to no candidates but the
minimum. -/
theorem large_limit_wraps :
    findFetch (limitTo (2 ^ 62) (scored notesScan)) = .ok (some (2 ^ 62)) ∧
      checkedCandidates (2 ^ 62) = none ∧ nodeCandidates (2 ^ 62) = 32 ∧
      ¬OverFetched (notesEngine []) (2 ^ 62) relevanceOfBody "refund" emptyIndex := by
  have wrapped : nodeCandidates (2 ^ 62) = 32 := by decide +kernel
  refine ⟨by decide +kernel, by decide +kernel, wrapped, ?_⟩
  intro safe
  have enough := safe.limit_le
  omega

end Semcast.RankPlan
