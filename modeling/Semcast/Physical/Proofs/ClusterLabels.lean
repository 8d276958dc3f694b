import Mathlib.Data.List.Induction
import Mathlib.Data.List.Sort
import Mathlib.Data.Set.Function
import Semcast.Misc.Numbered
import Semcast.Physical.Proofs.ClusterNames

/-!
# Which rows get which labels

What a clustering makes of its input depends on which indexed documents are in it, and not
on the order in which the scan reads them, on how it batches them, or on how often one is
there. Every indexed row gets a label, and no other does.
-/

namespace Semcast.Cluster

open Model Cache Json Extract Index Std

variable {ρ ε F α C : Type*}

section Documents

variable (grouper : Grouper ρ ε α) (vectors : DocMap (Embedding α))

/-- The texts of the rows that are indexed. -/
def Grouper.indexedTexts (rows : List ρ) : List String :=
  (rows.filterMap grouper.text).filter fun text => vectors.contains (docHash text)

/-- One round of the collection of documents, for an indexed text. -/
def collectText (state : List UInt64 × DocMap String) (text : String) :
    List UInt64 × DocMap String :=
  (if state.2.contains (docHash text) then state.1 else state.1 ++ [docHash text],
    state.2.insert (docHash text) text)

variable {grouper vectors}

theorem documents_eq (rows : List ρ) : grouper.documents vectors rows =
    (grouper.indexedTexts vectors rows).foldl collectText ([], ∅) := by
  unfold Grouper.documents
  generalize (([], ∅) : List UInt64 × DocMap String) = state
  induction rows generalizing state with
  | nil => rfl
  | cons row rest ih =>
    rw [List.foldl_cons, ih, Grouper.indexedTexts, Grouper.indexedTexts]
    cases sent : grouper.text row with
    | none => rw [List.filterMap_cons_none sent]
    | some text =>
      rw [List.filterMap_cons_some sent, List.filter_cons]
      by_cases indexed : vectors.contains (docHash text) = true
      · rw [if_pos indexed, List.foldl_cons]
        simp only [indexed, if_true, collectText]
      · rw [if_neg indexed]
        simp only [indexed, if_false, Bool.false_eq_true]

/-- The documents of some texts, each with its text. -/
structure DocumentsOf (texts : List String) (found : List UInt64 × DocMap String) : Prop where
  nodup : found.1.Nodup
  member : ∀ hash, hash ∈ found.1 ↔ ∃ text ∈ texts, docHash text = hash
  contains : ∀ hash, found.2.contains hash = true ↔ hash ∈ found.1
  text : ∀ text ∈ texts, found.2[docHash text]? = some text

theorem DocumentsOf.step {texts : List String} {found : List UInt64 × DocMap String}
    (documents : DocumentsOf texts found) {text : String}
    (apart : ∀ other ∈ texts, docHash other = docHash text → other = text) :
    DocumentsOf (texts ++ [text]) (collectText found text) := by
  have grown : ∀ hash, hash ∈ (collectText found text).1 ↔
      hash ∈ found.1 ∨ hash = docHash text := by
    intro hash
    unfold collectText
    by_cases old : found.2.contains (docHash text) = true
    · rw [if_pos old]
      constructor
      · exact Or.inl
      · rintro (within | rfl)
        · exact within
        · exact (documents.contains _).mp old
    · rw [if_neg old]
      simp
  refine ⟨?_, ?_, ?_, ?_⟩
  · unfold collectText
    by_cases old : found.2.contains (docHash text) = true
    · rw [if_pos old]
      exact documents.nodup
    · rw [if_neg old]
      refine List.nodup_append.mpr ⟨documents.nodup, List.nodup_singleton _, ?_⟩
      rintro hash within other here rfl
      rw [List.mem_singleton.mp here, ← documents.contains] at within
      exact old within
  · intro hash
    rw [grown, documents.member]
    simp only [List.mem_append, List.mem_singleton]
    constructor
    · rintro (⟨other, within, same⟩ | rfl)
      · exact ⟨other, Or.inl within, same⟩
      · exact ⟨text, Or.inr rfl, rfl⟩
    · rintro ⟨other, within | rfl, same⟩
      · exact Or.inl ⟨other, within, same⟩
      · exact Or.inr same.symm
  · intro hash
    rw [grown, ← documents.contains, collectText, TreeMap.contains_insert, Bool.or_eq_true, or_comm,
      beq_iff_eq, Std.compare_eq_iff_eq]
    exact or_congr_right eq_comm
  · intro other member
    unfold collectText
    rw [TreeMap.getElem?_insert]
    rcases List.mem_append.mp member with within | here
    · by_cases same : docHash text = docHash other
      · rw [if_pos (by simp [same]), apart other within same.symm]
      · rw [if_neg (by simp [same]), documents.text other within]
    · rw [List.mem_singleton.mp here, if_pos (by simp)]

/-- Where the hashes tell the texts apart, the collection has the documents of the texts. -/
theorem documentsOf_collect {texts : List String}
    (apart : Set.InjOn docHash {text | text ∈ texts}) :
    DocumentsOf texts (texts.foldl collectText ([], ∅)) := by
  induction texts using List.reverseRecOn with
  | nil =>
    refine ⟨List.nodup_nil, ?_, ?_, ?_⟩ <;> simp
  | append_singleton texts text ih =>
    have before : Set.InjOn docHash {text | text ∈ texts} := apart.mono fun _ within =>
      List.mem_append_left _ within
    rw [List.foldl_append, List.foldl_cons, List.foldl_nil]
    refine (ih before).step fun other within same => ?_
    exact apart (List.mem_append_left _ within)
      (List.mem_append_right _ (List.mem_singleton_self _)) same

/-- The same texts have the same documents: in the order of their hashes, and with their
texts. -/
theorem DocumentsOf.eq_of_mem_iff {texts texts' : List String}
    {found found' : List UInt64 × DocMap String}
    (documents : DocumentsOf texts found) (documents' : DocumentsOf texts' found')
    (same : ∀ text, text ∈ texts ↔ text ∈ texts') :
    found.1.mergeSort = found'.1.mergeSort ∧
      ∀ hash, found.2.getD hash "" = found'.2.getD hash "" := by
  have members : ∀ hash, hash ∈ found.1 ↔ hash ∈ found'.1 := by
    intro hash
    rw [documents.member, documents'.member]
    simp only [same]
  constructor
  · have perm : found.1.Perm found'.1 :=
      (List.perm_ext_iff_of_nodup documents.nodup documents'.nodup).mpr members
    have sorted : ∀ hashes : List UInt64, (hashes.mergeSort).Pairwise (· ≤ ·) := by
      intro hashes
      have ordered := @List.pairwise_mergeSort _ (fun a b : UInt64 => decide (a ≤ b))
        (by simpa using fun a b c => UInt64.le_trans) (by simpa using UInt64.le_total) hashes
      simpa using ordered
    refine List.Perm.eq_of_pairwise (fun a b _ _ => UInt64.le_antisymm) (sorted _) (sorted _) ?_
    exact (List.mergeSort_perm _ _).trans (perm.trans (List.mergeSort_perm _ _).symm)
  · intro hash
    rw [TreeMap.getD_eq_getD_getElem?, TreeMap.getD_eq_getD_getElem?]
    by_cases within : hash ∈ found.1
    · obtain ⟨text, member, rfl⟩ := (documents.member hash).mp within
      rw [documents.text text member, documents'.text text ((same text).mp member)]
    · have absent : found.2[hash]? = none := by
        rw [TreeMap.getElem?_eq_none]
        exact fun held => within ((documents.contains hash).mp held)
      have absent' : found'.2[hash]? = none := by
        rw [TreeMap.getElem?_eq_none]
        exact fun held => within ((members hash).mpr ((documents'.contains hash).mp held))
      rw [absent, absent']

end Documents

section Labels

variable [SemanticCache C] {blake3 : List UInt8 → List UInt8} {json : Text F} {kmeans : KMeans α}
  {grouper : Grouper ρ ε α} {vectors : DocMap (Embedding α)}

/-- The texts of documents are read by their hashes only. -/
theorem lookUpName_congr {hashes : List UInt64} {texts texts' : DocMap String}
    (same : ∀ hash, texts.getD hash "" = texts'.getD hash "") (points : List (Embedding α))
    (clustering : Clustering) :
    (grouper.lookUpName blake3 json kmeans hashes texts points clustering :
        Naming C → Nat → Naming C) =
      grouper.lookUpName blake3 json kmeans hashes texts' points clustering := by
  funext state cluster
  unfold Grouper.lookUpName
  simp only [same]

theorem namesOf_congr {hashes : List UInt64} {texts texts' : DocMap String}
    (same : ∀ hash, texts.getD hash "" = texts'.getD hash "") (points : List (Embedding α))
    (clustering : Clustering) (cache : C) :
    grouper.namesOf blake3 json kmeans hashes texts points clustering cache =
      grouper.namesOf blake3 json kmeans hashes texts' points clustering cache := by
  unfold Grouper.namesOf
  rw [lookUpName_congr same]

theorem label_congr {hashes : List UInt64} {texts texts' : DocMap String}
    (same : ∀ hash, texts.getD hash "" = texts'.getD hash "") (cache : C) :
    grouper.label blake3 json kmeans hashes texts vectors cache =
      grouper.label blake3 json kmeans hashes texts' vectors cache := by
  unfold Grouper.label Grouper.nameClusters
  simp only [namesOf_congr same]

/-- Every document is labelled, where every point has a cluster, and nothing else is. -/
theorem isSome_lookup_label {hashes : List UInt64} (texts : DocMap String) (cache : C)
    (every : ∀ points k, (kmeans.cluster points k).assignments.length = points.length)
    (hash : UInt64) :
    ((grouper.label blake3 json kmeans hashes texts vectors cache).1.lookup hash).isSome = true ↔
      hash ∈ hashes := by
  have keys : (grouper.label blake3 json kmeans hashes texts vectors cache).1.map Prod.fst =
      hashes := by
    unfold Grouper.label
    cases hashes with
    | nil => rfl
    | cons first rest =>
      dsimp only [List.isEmpty_cons, Bool.false_eq_true, if_false]
      rw [if_neg (by simp), List.map_map]
      exact List.map_fst_zip (by rw [every, List.length_map])
  rw [List.lookup_isSome_iff]
  conv_rhs => rw [← keys]
  simp

/-- A clustering of the same indexed texts labels every text alike and leaves the same cache,
and it labels the indexed ones. -/
theorem run_of_same_texts (indexed : grouper.docVectors = .ok vectors)
    (every : ∀ points k, (kmeans.cluster points k).assignments.length = points.length)
    {batches batches' : List (List ρ)}
    (apart : Set.InjOn docHash {text | text ∈ grouper.indexedTexts vectors batches.flatten})
    (same : ∀ text, text ∈ grouper.indexedTexts vectors batches.flatten ↔
      text ∈ grouper.indexedTexts vectors batches'.flatten) (cache : C) :
    ∃ (label : String → Option String) (after : C),
      grouper.run blake3 json kmeans batches cache =
          .ok (batches.map fun batch => batch.map fun row => (row, (grouper.text row).bind label),
            after) ∧
        grouper.run blake3 json kmeans batches' cache =
            .ok (batches'.map fun batch => batch.map fun row =>
              (row, (grouper.text row).bind label), after) ∧
          ∀ row ∈ batches.flatten ++ batches'.flatten, ∀ text, grouper.text row = some text →
            ((label text).isSome = true ↔ vectors.contains (docHash text) = true) := by
  have apart' :
      Set.InjOn docHash {text | text ∈ grouper.indexedTexts vectors batches'.flatten} := by
    intro text within other within'
    exact apart ((same text).mpr within) ((same other).mpr within')
  have documents := documentsOf_collect apart
  have documents' := documentsOf_collect apart'
  rw [← documents_eq] at documents documents'
  obtain ⟨hashes, texts⟩ := documents.eq_of_mem_iff documents' same
  set found := grouper.documents vectors batches.flatten with given
  set found' := grouper.documents vectors batches'.flatten with given'
  refine ⟨fun text => (grouper.label blake3 json kmeans found.1.mergeSort found.2 vectors
    cache).1.lookup (docHash text),
    (grouper.label blake3 json kmeans found.1.mergeSort found.2 vectors cache).2, ?_, ?_, ?_⟩
  · unfold Grouper.run
    rw [indexed]
    rfl
  · unfold Grouper.run
    rw [indexed]
    dsimp only
    rw [← given', ← hashes, label_congr fun hash => (texts hash).symm]
    rfl
  · intro row member text sent
    rw [isSome_lookup_label found.2 cache every, List.mem_mergeSort, documents.member]
    have within : vectors.contains (docHash text) = true →
        text ∈ grouper.indexedTexts vectors batches.flatten := by
      intro known
      have own : ∀ rows : List ρ, row ∈ rows → text ∈ grouper.indexedTexts vectors rows :=
        fun rows here => List.mem_filter.mpr ⟨List.mem_filterMap.mpr ⟨row, here, sent⟩, known⟩
      rcases List.mem_append.mp member with here | here
      · exact own _ here
      · exact (same text).mpr (own _ here)
    constructor
    · rintro ⟨other, known, hash⟩
      rw [← hash]
      exact (List.mem_filter.mp known).2
    · exact fun known => ⟨text, within known, rfl⟩

end Labels

/-- Texts as rows, two of which are indexed. -/
def fruits : Grouper String Unit Nat where
  text := some
  k := none
  docVectors := .ok ((∅ : DocMap (Embedding Nat)).insert (docHash "apple") []
    |>.insert (docHash "pear") [])
  model := { id := ⟨"mock"⟩, complete := fun requests => requests.map fun _ => .error () }

/-- One cluster of all the points. -/
def oneCluster : KMeans Nat where
  cluster points _ := ⟨points.map fun _ => 0, 1, by simp⟩
  central _ members := members

/-- The order, the batches and the repetitions of a scan change no label. -/
theorem fruits_read_twice :
    ∃ (label : String → Option String) (after : InMemoryCache),
      fruits.run id plainLabels oneCluster [["apple", "rock", "pear"]] InMemoryCache.default =
          .ok ([["apple", "rock", "pear"].map fun row => (row, label row)], after) ∧
        fruits.run id plainLabels oneCluster [["pear"], ["apple", "pear"]] InMemoryCache.default =
          .ok ([[("pear", label "pear")], [("apple", label "apple"), ("pear", label "pear")]],
            after) := by
  have texts : fruits.indexedTexts ((∅ : DocMap (Embedding Nat)).insert (docHash "apple") []
      |>.insert (docHash "pear") []) ["apple", "rock", "pear"] = ["apple", "pear"] := by
    decide +kernel
  have texts' : fruits.indexedTexts ((∅ : DocMap (Embedding Nat)).insert (docHash "apple") []
      |>.insert (docHash "pear") []) ["pear", "apple", "pear"] = ["pear", "apple", "pear"] := by
    decide +kernel
  have apart : ∀ text ∈ ["apple", "pear"], ∀ text' ∈ ["apple", "pear"],
      docHash text = docHash text' → text = text' := by
    decide +kernel
  obtain ⟨label, after, first, second, -⟩ := @run_of_same_texts _ _ _ _ _ _ id plainLabels
    oneCluster fruits _ rfl (fun _ _ => List.length_map _) [["apple", "rock", "pear"]]
    [["pear"], ["apple", "pear"]]
    (by
      change Set.InjOn docHash {text | text ∈ fruits.indexedTexts _ ["apple", "rock", "pear"]}
      rw [texts]
      exact fun text within text' within' => apart text within text' within')
    (by
      intro text
      change text ∈ fruits.indexedTexts _ ["apple", "rock", "pear"] ↔
        text ∈ fruits.indexedTexts _ ["pear", "apple", "pear"]
      rw [texts, texts']
      constructor <;> simp +contextual [or_imp])
    InMemoryCache.default
  exact ⟨label, after, first, second⟩

end Semcast.Cluster
