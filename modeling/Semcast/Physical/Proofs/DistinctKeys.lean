import Semcast.Index.Proofs.Dedupe
import Semcast.Misc.Delimited
import Semcast.Misc.FirstSeen
import Semcast.Misc.Numbered
import Semcast.Physical.Distinct

/-!
# What the keys of the dedupe stage tell apart

A row's key is the identity of the document that represents its group, or its own where
the index has not seen it. Documents are grouped as they are first seen in the rows, so
the batches do not matter.
-/

namespace Semcast.Distinct

open Model Index Std

variable {ρ ε α S : Type*} {arith : Similarity α S} {deduper : Deduper ρ ε α S}

theorem formatKey_inj {hash hash' : UInt64} : formatKey hash = formatKey hash' ↔ hash = hash' := by
  constructor
  · intro same
    have digits := congrArg String.toList same
    rw [formatKey, formatKey, String.toList_ofList, String.toList_ofList] at digits
    exact UInt64.toNat_inj.mp (Delimited.leftpad_toDigits_inj (by omega) (by omega) digits)
  · intro same
    rw [same]

/-! ## Documents -/

/-- The hashes of the indexed texts of some rows, in the order in which they come. -/
def indexedHashes (deduper : Deduper ρ ε α S) (vectors : DocMap (Embedding α)) (rows : List ρ) :
    List UInt64 :=
  (rows.filterMap fun row => (deduper.text row).map docHash).filter vectors.contains

theorem foldl_collect (vectors : DocMap (Embedding α)) (rows before : List ρ)
    {state : List UInt64 × DocSet}
    (collected : state.1 = (indexedHashes deduper vectors before).eraseDups)
    (seen : ∀ hash, hash ∈ state.2 ↔ hash ∈ indexedHashes deduper vectors before) :
    (rows.foldl (deduper.collect vectors) state).1 =
      (indexedHashes deduper vectors (before ++ rows)).eraseDups := by
  induction rows generalizing before state with
  | nil => rw [List.append_nil, List.foldl_nil, collected]
  | cons row rest ih =>
    have shifted : before ++ row :: rest = before ++ [row] ++ rest := by simp
    rw [List.foldl_cons, shifted]
    cases text : deduper.text row with
    | none =>
      have same : indexedHashes deduper vectors (before ++ [row]) =
          indexedHashes deduper vectors before := by
        simp [indexedHashes, text]
      apply ih (before ++ [row])
      · rw [same, ← collected]
        simp [Deduper.collect, text]
      · intro hash
        rw [same, ← seen]
        simp [Deduper.collect, text]
    | some text' =>
      by_cases known : vectors.contains (docHash text') = true
      · have grown : indexedHashes deduper vectors (before ++ [row]) =
            indexedHashes deduper vectors before ++ [docHash text'] := by
          simp [indexedHashes, text, known]
        have round : deduper.collect vectors state row =
            (if state.2.contains (docHash text') then state.1 else state.1 ++ [docHash text'],
              state.2.insert (docHash text')) := by
          simp [Deduper.collect, text, known]
        apply ih (before ++ [row])
        · rw [grown, FirstSeen.eraseDups_concat, round, ← collected]
          have member : state.2.contains (docHash text') = true ↔
              docHash text' ∈ indexedHashes deduper vectors before :=
            TreeSet.contains_iff_mem.trans (seen _)
          by_cases old : docHash text' ∈ indexedHashes deduper vectors before
          · rw [if_pos old, if_pos (member.mpr old)]
          · rw [if_neg old, if_neg fun held => old (member.mp held)]
        · intro hash
          rw [grown, round, TreeSet.mem_insert, seen, List.mem_append, List.mem_singleton,
            Std.compare_eq_iff_eq, or_comm, eq_comm]
      · have same : indexedHashes deduper vectors (before ++ [row]) =
            indexedHashes deduper vectors before := by
          simp [indexedHashes, text, known]
        apply ih (before ++ [row])
        · rw [same, ← collected]
          simp [Deduper.collect, text, known]
        · intro hash
          rw [same, ← seen]
          simp [Deduper.collect, text, known]

/-- The documents are the indexed ones in first-seen order, however the rows are split. -/
theorem documents_eq (vectors : DocMap (Embedding α)) (batches : List (List ρ)) :
    deduper.documents vectors batches =
      (indexedHashes deduper vectors batches.flatten).eraseDups := by
  rw [Deduper.documents, ← List.foldl_flatten]
  exact foldl_collect vectors batches.flatten [] rfl (by simp [indexedHashes])

theorem mem_indexedHashes {vectors : DocMap (Embedding α)} {rows : List ρ} {row : ρ}
    {text : String} (member : row ∈ rows) (is : deduper.text row = some text) :
    docHash text ∈ indexedHashes deduper vectors rows ↔ vectors.contains (docHash text) = true := by
  rw [indexedHashes, List.mem_filter]
  refine and_iff_right ?_
  rw [List.mem_filterMap]
  exact ⟨row, member, by simp [is]⟩

/-! ## Keys -/

/-- Two documents are in one group. -/
def OneGroup (arith : Similarity α S) (threshold : S) (vectors : DocMap (Embedding α))
    (documents : List UInt64) (hash hash' : UInt64) : Prop :=
  ∃ i j : Nat, documents[i]? = some hash ∧ documents[j]? = some hash' ∧
    (greedyGroups arith (documents.map fun hash => vectors.getD hash []) threshold)[i]? =
      (greedyGroups arith (documents.map fun hash => vectors.getD hash []) threshold)[j]?

section Keys

variable {documents : List UInt64} {vectors : DocMap (Embedding α)}

theorem lookup_keys_of_not_mem {hash : UInt64} (unseen : hash ∉ documents) :
    (deduper.keys arith documents vectors).lookup hash = none := by
  rw [List.lookup_eq_none_iff]
  intro entry member
  rw [bne_iff_ne]
  rintro rfl
  unfold Deduper.keys at member
  split at member
  · simp at member
  · obtain ⟨⟨document, group⟩, pair, rfl⟩ := List.mem_map.mp member
    exact unseen (List.of_mem_zip pair).1

/-- An indexed document has the key of the document that represents it. -/
theorem exists_lookup_keys (distinct : documents.Nodup) {i : Nat} {hash : UInt64}
    (here : documents[i]? = some hash) :
    ∃ rep representative,
      (greedyGroups arith (documents.map fun hash => vectors.getD hash [])
        deduper.similarity)[i]? = some rep ∧
      documents[rep]? = some representative ∧
      (deduper.keys arith documents vectors).lookup hash = some (formatKey representative) := by
  set points := documents.map fun hash => vectors.getD hash [] with pointed
  have length := length_greedyGroups arith points deduper.similarity
  have within : i < (greedyGroups arith points deduper.similarity).length := by
    rw [length, pointed, List.length_map]
    exact (List.getElem?_eq_some_iff.mp here).1
  have group := List.getElem?_eq_getElem within
  have self := greedyGroups_self arith points deduper.similarity _ (List.getElem_mem within)
  have sizes : (greedyGroups arith points deduper.similarity).length = documents.length := by
    rw [length, pointed, List.length_map]
  have bound := Nat.lt_of_lt_of_eq (List.getElem?_eq_some_iff.mp self).1 sizes
  refine ⟨_, _, group, List.getElem?_eq_getElem bound, ?_⟩
  have some : documents.isEmpty = false := by
    cases documents with
    | nil => simp at here
    | cons => rfl
  simp only [Deduper.keys, some, Bool.false_eq_true, if_false, ← pointed]
  have found := @Numbered.lookup_zip_map _ _ _ documents _ _ _
    (fun rep => formatKey (documents.getD rep 0)) _ _ _ distinct here group
  rw [found, List.getD_eq_getElem?_getD, List.getElem?_eq_getElem bound]
  rfl

theorem keyOf_of_mem {row : ρ} {text : String} (is : deduper.text row = some text) {key : String}
    (found : (deduper.keys arith documents vectors).lookup (docHash text) = some key) :
    deduper.keyOf (deduper.keys arith documents vectors) row = some key := by
  simp [Deduper.keyOf, is, found]

theorem keyOf_of_not_mem {row : ρ} {text : String} (is : deduper.text row = some text)
    (unseen : docHash text ∉ documents) :
    deduper.keyOf (deduper.keys arith documents vectors) row = some (formatKey (docHash text)) := by
  simp [Deduper.keyOf, is, lookup_keys_of_not_mem unseen]

theorem keyOf_eq_none_iff (keys : List (UInt64 × String)) (row : ρ) :
    deduper.keyOf keys row = none ↔ deduper.text row = none := by
  unfold Deduper.keyOf
  cases deduper.text row with
  | none => simp
  | some text => cases found : keys.lookup (docHash text) <;> simp [found]

/-- Two rows have one key if and only if their documents are the same or in one group. -/
theorem keyOf_eq_iff (distinct : documents.Nodup) {row row' : ρ} {text text' : String}
    (is : deduper.text row = some text) (is' : deduper.text row' = some text') :
    deduper.keyOf (deduper.keys arith documents vectors) row =
        deduper.keyOf (deduper.keys arith documents vectors) row' ↔
      docHash text = docHash text' ∨
        OneGroup arith deduper.similarity vectors documents (docHash text) (docHash text') := by
  have unseen_group : ∀ {hash hash' : UInt64}, hash ∉ documents ∨ hash' ∉ documents →
      ¬ OneGroup arith deduper.similarity vectors documents hash hash' := by
    rintro hash hash' (unseen | unseen) ⟨i, j, here, there, -⟩
    · exact unseen (List.mem_of_getElem? here)
    · exact unseen (List.mem_of_getElem? there)
  by_cases seen : docHash text ∈ documents
  · obtain ⟨i, here⟩ := List.mem_iff_getElem?.mp seen
    obtain ⟨rep, document, group, represented, found⟩ :=
      @exists_lookup_keys _ _ _ _ arith deduper _ vectors distinct _ _ here
    by_cases seen' : docHash text' ∈ documents
    · obtain ⟨j, there⟩ := List.mem_iff_getElem?.mp seen'
      obtain ⟨rep', document', group', represented', found'⟩ :=
        @exists_lookup_keys _ _ _ _ arith deduper _ vectors distinct _ _ there
      rw [keyOf_of_mem is found, keyOf_of_mem is' found', Option.some.injEq, formatKey_inj]
      constructor
      · rintro rfl
        have same : rep = rep' := Numbered.place_eq distinct represented represented'
        subst same
        exact Or.inr ⟨i, j, here, there, group.trans group'.symm⟩
      · rintro (same | ⟨i', j', here', there', together⟩)
        · rw [same] at here
          have places : i = j := Numbered.place_eq distinct here there
          subst places
          cases Option.some.inj (group.symm.trans group')
          exact Option.some.inj (represented.symm.trans represented')
        · have first : i' = i := Numbered.place_eq distinct here' here
          have second : j' = j := Numbered.place_eq distinct there' there
          subst first
          subst second
          cases Option.some.inj (group.symm.trans (together.trans group'))
          exact Option.some.inj (represented.symm.trans represented')
    · rw [keyOf_of_mem is found, keyOf_of_not_mem is' seen', Option.some.injEq, formatKey_inj]
      constructor
      · rintro rfl
        exact absurd (List.mem_of_getElem? represented) seen'
      · rintro (same | together)
        · exact absurd (same ▸ seen) seen'
        · exact absurd together (unseen_group (Or.inr seen'))
  · by_cases seen' : docHash text' ∈ documents
    · obtain ⟨j, there⟩ := List.mem_iff_getElem?.mp seen'
      obtain ⟨rep', document', -, represented', found'⟩ :=
        @exists_lookup_keys _ _ _ _ arith deduper _ vectors distinct _ _ there
      rw [keyOf_of_not_mem is seen, keyOf_of_mem is' found', Option.some.injEq, formatKey_inj]
      constructor
      · rintro rfl
        exact absurd (List.mem_of_getElem? represented') seen
      · rintro (same | together)
        · exact absurd (same ▸ seen') seen
        · exact absurd together (unseen_group (Or.inl seen))
    · rw [keyOf_of_not_mem is seen, keyOf_of_not_mem is' seen', Option.some.injEq, formatKey_inj]
      exact ⟨Or.inl, fun same => same.resolve_right (unseen_group (Or.inl seen))⟩

end Keys

/-- The keys partition the rows: no row is dropped or moved, a row without text has no key,
two texts have one key if and only if they are identical or both indexed and in one greedy
group of the documents in first-seen order, and the rows and keys are the same however the
rows are split into batches. -/
theorem run_partitions {batches : List (List ρ)} {vectors : DocMap (Embedding α)}
    (indexed : deduper.docVectors = .ok vectors)
    (injective : ∀ row ∈ batches.flatten, ∀ row' ∈ batches.flatten,
      ∀ text text', deduper.text row = some text → deduper.text row' = some text' →
        docHash text = docHash text' → text = text') :
    ∃ output, deduper.run arith batches = .ok output ∧
      output.map (fun batch => batch.map Prod.fst) = batches ∧
      (∀ keyed ∈ output.flatten, deduper.text keyed.1 = none ↔ keyed.2 = none) ∧
      (∀ keyed ∈ output.flatten, ∀ keyed' ∈ output.flatten,
        ∀ text text', deduper.text keyed.1 = some text → deduper.text keyed'.1 = some text' →
          (keyed.2 = keyed'.2 ↔ text = text' ∨
            vectors.contains (docHash text) = true ∧ vectors.contains (docHash text') = true ∧
            OneGroup arith deduper.similarity vectors
              (indexedHashes deduper vectors batches.flatten).eraseDups
              (docHash text) (docHash text'))) ∧
      ∀ batches' : List (List ρ), batches'.flatten = batches.flatten →
        ∃ output', deduper.run arith batches' = .ok output' ∧
          output'.flatten = output.flatten := by
  set documents := (indexedHashes deduper vectors batches.flatten).eraseDups with collected
  set keys := deduper.keys arith documents vectors with keyed
  have ran : ∀ split : List (List ρ), split.flatten = batches.flatten →
      deduper.run arith split =
        .ok (split.map fun batch => batch.map fun row => (row, deduper.keyOf keys row)) := by
    intro split same
    simp only [Deduper.run, indexed, documents_eq, same, ← collected, ← keyed]
  have flat : ∀ split : List (List ρ),
      (split.map fun batch => batch.map fun row => (row, deduper.keyOf keys row)).flatten =
        split.flatten.map fun row => (row, deduper.keyOf keys row) := by
    intro split
    rw [List.map_flatten]
  refine ⟨_, ran batches rfl, ?_, ?_, ?_, ?_⟩
  · rw [List.map_map]
    conv_rhs => rw [← List.map_id batches]
    apply List.map_congr_left
    intro batch _
    simp [Function.comp_def]
  · rw [flat]
    intro entry member
    obtain ⟨row, -, rfl⟩ := List.mem_map.mp member
    exact (keyOf_eq_none_iff keys row).symm
  · rw [flat]
    intro entry member entry' member' text text' is is'
    obtain ⟨row, given, rfl⟩ := List.mem_map.mp member
    obtain ⟨row', given', rfl⟩ := List.mem_map.mp member'
    have seen := @mem_indexedHashes _ _ _ _ deduper vectors _ _ _ given is
    have seen' := @mem_indexedHashes _ _ _ _ deduper vectors _ _ _ given' is'
    rw [keyOf_eq_iff (FirstSeen.nodup_eraseDups _) is is']
    apply or_congr
    · exact ⟨injective row given row' given' text text' is is', fun same => by rw [same]⟩
    · constructor
      · intro together
        obtain ⟨i, j, here, there, -⟩ := id together
        exact ⟨seen.mp (List.mem_eraseDups.mp (List.mem_of_getElem? here)),
          seen'.mp (List.mem_eraseDups.mp (List.mem_of_getElem? there)), together⟩
      · exact fun both => both.2.2
  · intro split same
    refine ⟨_, ran split same, ?_⟩
    rw [flat, flat, same]

/-- Two texts, of which the index has seen the first. -/
def twoTexts : Deduper (Option String) Unit Nat Nat where
  text row := row
  similarity := 1
  docVectors := .ok (TreeMap.ofList [(docHash "a", [1])])

/-- Vectors are as similar as their first components are equal. -/
def exactly : Similarity Nat Nat :=
  ⟨fun left right => if left = right then 1 else 0, fun score floor => decide (floor ≤ score), compare⟩

theorem twoTexts_partitions : ∃ output,
    twoTexts.run exactly [[some "a", none], [some "b", some "a"]] = .ok output ∧
      output.map (fun batch => batch.map Prod.fst) = [[some "a", none], [some "b", some "a"]] := by
  have differ : docHash "a" ≠ docHash "b" := by decide +kernel
  obtain ⟨output, ran, kept, -⟩ := @run_partitions _ _ _ _ exactly twoTexts
    [[some "a", none], [some "b", some "a"]] (TreeMap.ofList [(docHash "a", [1])]) rfl (by
      intro row given row' given' text text' is is' same
      simp only [List.flatten_cons, List.flatten_nil, List.cons_append, List.nil_append,
        List.mem_cons, List.not_mem_nil, or_false] at given given'
      have texts : ∀ row : Option String, row = some "a" ∨ row = none ∨ row = some "b" ∨
          row = some "a" → ∀ text, twoTexts.text row = some text → text = "a" ∨ text = "b" := by
        rintro row (rfl | rfl | rfl | rfl) text is <;> simp [twoTexts] at is <;> simp [← is]
      rcases texts row given text is with rfl | rfl <;>
        rcases texts row' given' text' is' with rfl | rfl
      · rfl
      · exact absurd same differ
      · exact absurd same.symm differ
      · rfl)
  exact ⟨output, ran, kept⟩

end Semcast.Distinct
