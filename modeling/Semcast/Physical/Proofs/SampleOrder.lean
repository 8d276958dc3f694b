import Mathlib.Data.Set.Function
import Semcast.Misc.Mixing
import Semcast.Physical.IndexScan

/-!
# The documents of a sample

What `sample_documents` draws: the priorities are a mixer of the hashes that loses nothing, so
no two documents tie, and the draw order is an order of the documents themselves. How their
rows were batched, repeated or iterated over leaves no trace in it.
-/

namespace Semcast.IndexScan

open Std Index Mixing

/-- No two hashes have one priority. -/
theorem samplePriority_injective : Function.Injective samplePriority := by
  have unit : (0xbf58476d1ce4e5b9 : UInt64) * 0x96de1b173f119089 = 1 := by decide
  have unit' : (0x94d049bb133111eb : UInt64) * 0x319642b2d24d8ec3 = 1 := by decide
  have seeded := (add_injective 0x9e3779b97f4a7c15).comp (xor_injective sampleSeed)
  have first := (mul_unit_injective unit).comp (xorShiftRight_uint64_injective 30 (by decide))
  have second := (mul_unit_injective unit').comp (xorShiftRight_uint64_injective 27 (by decide))
  have third := xorShiftRight_uint64_injective 31 (by decide)
  exact third.comp (second.comp (first.comp seeded))

section Sample

variable {ρ ρ' : Type*}

/-- The documents of buffered batches: the texts of their rows, but for NULLs. -/
def documents (text : ρ → Option String) (buffered : List (List ρ)) : Set String :=
  {document | ∃ batch ∈ buffered, ∃ row ∈ batch, text row = some document}

/-- `first_seen` of `sample_documents`. -/
def seenDocuments (text : ρ → Option String) (buffered : List (List ρ)) : DocMap String :=
  (buffered.flatten.map text).foldl firstSeen ∅

/-- `drawn` of `sample_documents`, before it is sorted. -/
def drawnEntries (text : ρ → Option String) (buffered : List (List ρ)) :
    List (UInt64 × String) :=
  (seenDocuments text buffered).toList.map fun entry => (samplePriority entry.1, entry.2)

theorem sampleDocuments_eq (text : ρ → Option String) (buffered : List (List ρ))
    (sampleSize : Nat) :
    sampleDocuments text buffered sampleSize =
      (((drawnEntries text buffered).insertionSort fun left right => left.1 ≤ right.1).take
        sampleSize).map Prod.snd := rfl

/-! ## What is seen -/

theorem mem_documents {text : ρ → Option String} {buffered : List (List ρ)} {document : String} :
    document ∈ documents text buffered ↔ some document ∈ buffered.flatten.map text := by
  simp only [documents, Set.mem_ofPred_eq, List.mem_map, List.mem_flatten]
  constructor
  · rintro ⟨batch, member, row, inside, here⟩
    exact ⟨row, ⟨batch, member, inside⟩, here⟩
  · rintro ⟨row, ⟨batch, member, inside⟩, here⟩
    exact ⟨batch, member, row, inside, here⟩

/-- The texts seen are kept under their own hashes. -/
theorem foldl_firstSeen (texts : List (Option String)) {seen : DocMap String}
    (own : ∀ hash text, seen[hash]? = some text → docHash text = hash) :
    ∀ hash text, (texts.foldl firstSeen seen)[hash]? = some text → docHash text = hash := by
  induction texts generalizing seen with
  | nil => exact own
  | cons text rest ih =>
    rw [List.foldl_cons]
    apply ih
    cases text with
    | none => exact own
    | some text =>
      intro hash found held
      unfold firstSeen at held
      rw [TreeMap.getElem?_insertIfNew] at held
      split at held
      · rename_i new
        cases held
        exact Std.compare_eq_iff_eq.mp new.1
      · exact own hash found held

/-- What is seen was there, or is one of the texts. -/
theorem mem_of_foldl_firstSeen (texts : List (Option String)) {seen : DocMap String}
    {hash : UInt64} {text : String} (held : (texts.foldl firstSeen seen)[hash]? = some text) :
    seen[hash]? = some text ∨ some text ∈ texts := by
  induction texts generalizing seen with
  | nil => exact .inl held
  | cons head rest ih =>
    rw [List.foldl_cons] at held
    rcases ih held with before | later
    · cases head with
      | none => exact .inl before
      | some other =>
        unfold firstSeen at before
        rw [TreeMap.getElem?_insertIfNew] at before
        split at before
        · cases before
          exact .inr List.mem_cons_self
        · exact .inl before
    · exact .inr (List.mem_cons_of_mem _ later)

/-- The hash of every text is seen. -/
theorem contains_foldl_firstSeen (texts : List (Option String)) {seen : DocMap String}
    {hash : UInt64} (known : hash ∈ seen ∨ ∃ text, some text ∈ texts ∧ docHash text = hash) :
    hash ∈ texts.foldl firstSeen seen := by
  induction texts generalizing seen with
  | nil => exact known.resolve_right (by simp)
  | cons head rest ih =>
    rw [List.foldl_cons]
    apply ih
    rcases known with before | ⟨text, member, here⟩
    · left
      cases head with
      | none => exact before
      | some other => exact TreeMap.mem_insertIfNew.mpr (.inr before)
    · rcases List.mem_cons.mp member with rfl | later
      · left
        exact TreeMap.mem_insertIfNew.mpr (.inl (Std.compare_eq_iff_eq.mpr here))
      · exact .inr ⟨text, later, here⟩

/-- Where no two documents share a hash, each is seen under its own. -/
theorem seenDocuments_iff {text : ρ → Option String} {buffered : List (List ρ)}
    (injective : Set.InjOn docHash (documents text buffered)) {hash : UInt64} {document : String} :
    (seenDocuments text buffered)[hash]? = some document ↔
      document ∈ documents text buffered ∧ docHash document = hash := by
  have empty : ∀ hash text, (∅ : DocMap String)[hash]? = some text → docHash text = hash := by
    intro hash text held
    simp at held
  have own := foldl_firstSeen (buffered.flatten.map text) empty
  constructor
  · intro held
    refine ⟨mem_documents.mpr ?_, own hash document held⟩
    exact (mem_of_foldl_firstSeen _ held).resolve_left (by simp)
  · rintro ⟨member, rfl⟩
    have present : docHash document ∈ seenDocuments text buffered :=
      contains_foldl_firstSeen _ (.inr ⟨document, mem_documents.mp member, rfl⟩)
    obtain ⟨other, held⟩ := Option.isSome_iff_exists.mp (TreeMap.isSome_getElem?_iff_mem.mpr present)
    have inside : other ∈ documents text buffered :=
      mem_documents.mpr ((mem_of_foldl_firstSeen _ held).resolve_left (by simp))
    rw [held, injective inside member (own _ _ held)]

/-! ## What is drawn -/

theorem mem_drawnEntries {text : ρ → Option String} {buffered : List (List ρ)}
    (injective : Set.InjOn docHash (documents text buffered)) {entry : UInt64 × String} :
    entry ∈ drawnEntries text buffered ↔
      entry.2 ∈ documents text buffered ∧ samplePriority (docHash entry.2) = entry.1 := by
  obtain ⟨priority, document⟩ := entry
  simp only [drawnEntries, List.mem_map, Prod.exists, Prod.mk.injEq,
    TreeMap.mem_toList_iff_getElem?_eq_some, seenDocuments_iff injective]
  constructor
  · rintro ⟨hash, other, ⟨member, rfl⟩, rfl, rfl⟩
    exact ⟨member, rfl⟩
  · rintro ⟨member, rfl⟩
    exact ⟨_, document, ⟨member, rfl⟩, rfl, rfl⟩

theorem nodup_priorities (text : ρ → Option String) (buffered : List (List ρ)) :
    ((drawnEntries text buffered).map Prod.fst).Nodup := by
  rw [drawnEntries, List.map_map, List.nodup_iff_pairwise_ne, List.pairwise_map]
  refine (TreeMap.distinct_keys_toList (t := seenDocuments text buffered)).imp ?_
  intro first second different same
  exact different (Std.compare_eq_iff_eq.mpr (samplePriority_injective same))

/-- A result of `sample_documents`, in whatever order its map is iterated and its sort leaves
equal priorities. -/
def Draws (text : ρ → Option String) (buffered : List (List ρ)) (sampleSize : Nat)
    (sample : List String) : Prop :=
  ∃ sorted : List (UInt64 × String), sorted.Perm (drawnEntries text buffered) ∧
    sorted.Pairwise (fun left right => left.1 ≤ right.1) ∧
      (sorted.take sampleSize).map Prod.snd = sample

/-- There is one order by priority. -/
theorem sorted_unique {drawn sorted sorted' : List (UInt64 × String)}
    (distinct : (drawn.map Prod.fst).Nodup) (perm : sorted.Perm drawn) (perm' : sorted'.Perm drawn)
    (order : sorted.Pairwise fun left right => left.1 ≤ right.1)
    (order' : sorted'.Pairwise fun left right => left.1 ≤ right.1) : sorted = sorted' := by
  refine List.Perm.eq_of_pairwise ?_ order order' (perm.trans perm'.symm)
  intro entry entry' member member' below above
  exact List.inj_on_of_nodup_map distinct (perm.subset member) (perm'.subset member')
    (UInt64.le_antisymm below above)

theorem draws_iff {text : ρ → Option String} {buffered : List (List ρ)} {sampleSize : Nat}
    {sample : List String} :
    Draws text buffered sampleSize sample ↔ sample = sampleDocuments text buffered sampleSize := by
  rw [sampleDocuments_eq]
  constructor
  · rintro ⟨sorted, perm, order, rfl⟩
    rw [sorted_unique (nodup_priorities text buffered) perm (List.perm_insertionSort _ _) order
      (List.pairwise_insertionSort _ _)]
  · rintro rfl
    exact ⟨_, List.perm_insertionSort _ _, List.pairwise_insertionSort _ _, rfl⟩

/-- The sample draws each document once. -/
theorem sampleDocuments_nodup (text : ρ → Option String) (buffered : List (List ρ))
    (sampleSize : Nat) : (sampleDocuments text buffered sampleSize).Nodup := by
  have own := foldl_firstSeen (buffered.flatten.map text)
    (fun hash text (held : (∅ : DocMap String)[hash]? = some text) => by simp at held)
  have texts : ((seenDocuments text buffered).toList.map Prod.snd).Nodup := by
    rw [List.nodup_iff_pairwise_ne, List.pairwise_map]
    refine (TreeMap.distinct_keys_toList (t := seenDocuments text buffered)).imp_of_mem ?_
    intro first second member member' different same
    apply different
    have hash := own _ _ (TreeMap.mem_toList_iff_getElem?_eq_some.mp member)
    have hash' := own _ _ (TreeMap.mem_toList_iff_getElem?_eq_some.mp member')
    rw [Std.compare_eq_iff_eq, ← hash, ← hash', same]
  rw [sampleDocuments_eq]
  refine List.Nodup.sublist ((List.take_sublist _ _).map _) ?_
  rw [((List.perm_insertionSort _ _).map Prod.snd).nodup_iff, drawnEntries, List.map_map]
  exact texts

/-- The sample is a function of the set of documents, whatever the order, the repetition and
the batches of their rows; a larger one extends it, and no document is in it twice. -/
theorem sampleDocuments_of_documents {text : ρ → Option String} {text' : ρ' → Option String}
    {buffered : List (List ρ)} {buffered' : List (List ρ')}
    (injective : Set.InjOn docHash (documents text buffered))
    (same : documents text' buffered' = documents text buffered) {fewer more : Nat}
    (order : fewer ≤ more) :
    (∀ sample, Draws text' buffered' fewer sample ↔ sample = sampleDocuments text buffered fewer) ∧
      sampleDocuments text buffered fewer <+: sampleDocuments text buffered more ∧
      (sampleDocuments text buffered more).Nodup ∧ Function.Injective samplePriority := by
  have injective' : Set.InjOn docHash (documents text' buffered') := same.symm ▸ injective
  refine ⟨fun sample => ?_, ?_, sampleDocuments_nodup text buffered more, samplePriority_injective⟩
  · have perm : (drawnEntries text' buffered').Perm (drawnEntries text buffered) := by
      rw [List.perm_ext_iff_of_nodup (nodup_priorities text' buffered').of_map
        (nodup_priorities text buffered).of_map]
      intro entry
      rw [mem_drawnEntries injective', mem_drawnEntries injective, same]
    have sorted := sorted_unique (nodup_priorities text buffered)
      ((List.perm_insertionSort (fun left right => left.1 ≤ right.1) _).trans perm)
      (List.perm_insertionSort (fun left right => left.1 ≤ right.1) _)
      (List.pairwise_insertionSort _ _) (List.pairwise_insertionSort _ _)
    rw [draws_iff, sampleDocuments_eq, sampleDocuments_eq, sorted]
  · rw [sampleDocuments_eq, sampleDocuments_eq]
    exact (List.take_prefix_take_left order).map Prod.snd

/-- Two rows of one text, then another; or the three in one batch, the other way round. -/
theorem sampleDocuments_of_two_batches :
    sampleDocuments id [[some "b", none, some "a"]] 1 <+:
      sampleDocuments id [[some "a", some "a"], [some "b"]] 2 := by
  have present : documents id [[some "a", some "a"], [some "b"]] = {"a", "b"} := by
    ext document
    simp [documents]
  have present' : documents id [[some "b", none, some "a"]] = {"a", "b"} := by
    ext document
    simp [documents, or_comm, eq_comm]
  have injective : Set.InjOn docHash (documents id [[some "a", some "a"], [some "b"]]) := by
    rw [present]
    rintro first (rfl | rfl) second (rfl | rfl) same
    · rfl
    · exact absurd same (by decide +kernel)
    · exact absurd same (by decide +kernel)
    · rfl
  obtain ⟨drawn, grows, -, -⟩ := sampleDocuments_of_documents injective
    (present'.trans present.symm) (show 1 ≤ 2 by decide)
  rw [(drawn _).mp (draws_iff.mpr rfl)]
  exact grows

end Sample

end Semcast.IndexScan
