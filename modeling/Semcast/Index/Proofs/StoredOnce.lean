import Mathlib.Data.List.Nodup
import Semcast.Index.Proofs.Moves

/-!
# Each chunk stored once

A refresh adds the documents that were missing when it asked. Where none of them was
added by another refresh in the meantime, the index holds each chunk once.
-/

namespace Semcast.Index

open Model Std Run

/-! ## What is read from a table -/

/-- The loop of `read_column_texts` keeps the texts whose hash is new. -/
theorem readColumnTexts_spec (rows : List (Option String)) :
    ((readColumnTexts rows).map docHash).Nodup ∧
      ∀ text ∈ readColumnTexts rows, some text ∈ rows := by
  obtain ⟨step, folded, skips, takes⟩ : ∃ step : DocSet × List String → Option String →
      DocSet × List String, (∀ rows, readColumnTexts rows = (rows.foldl step (∅, [])).2) ∧
        (∀ seen texts, step (seen, texts) none = (seen, texts)) ∧
        ∀ seen texts text, step (seen, texts) (some text) =
          if seen.contains (docHash text) then (seen, texts)
          else (seen.insert (docHash text), texts ++ [text]) :=
    ⟨_, fun _ => rfl, fun _ _ => rfl, fun _ _ _ => rfl⟩
  suffices loop : ∀ (rows : List (Option String)) (seen : DocSet) (texts : List String),
      (∀ hash, hash ∈ seen ↔ hash ∈ texts.map docHash) → (texts.map docHash).Nodup →
      let read := (rows.foldl step (seen, texts)).2
      (read.map docHash).Nodup ∧ ∀ text ∈ read, text ∈ texts ∨ some text ∈ rows by
    obtain ⟨distinct, members⟩ := loop rows ∅ [] (by simp) (by simp)
    rw [folded]
    exact ⟨distinct, fun text member => (members text member).resolve_left (by simp)⟩
  intro rows
  induction rows with
  | nil => exact fun seen texts _ distinct => ⟨distinct, fun text member => .inl member⟩
  | cons row rest ih =>
    intro seen texts same distinct
    rw [List.foldl_cons]
    cases row with
    | none =>
      rw [skips]
      obtain ⟨kept, members⟩ := ih seen texts same distinct
      exact ⟨kept, fun text member => (members text member).imp_right (List.mem_cons_of_mem _)⟩
    | some text =>
      rw [takes]
      by_cases known : seen.contains (docHash text) = true
      · simp only [known, if_true]
        obtain ⟨kept, members⟩ := ih seen texts same distinct
        exact ⟨kept, fun text member => (members text member).imp_right (List.mem_cons_of_mem _)⟩
      · simp only [known, Bool.false_eq_true, if_false]
        have new : docHash text ∉ texts.map docHash := fun old =>
          known (TreeSet.mem_iff_contains.mp ((same _).mpr old))
        have grown : ∀ hash, hash ∈ seen.insert (docHash text) ↔
            hash ∈ (texts ++ [text]).map docHash := by
          intro hash
          rw [TreeSet.mem_insert, same, List.map_append, List.mem_append, Std.compare_eq_iff_eq]
          simp [or_comm, eq_comm]
        have still : ((texts ++ [text]).map docHash).Nodup := by
          rw [List.map_append, List.nodup_append]
          refine ⟨distinct, by simp, ?_⟩
          rintro hash old hash' late rfl
          rw [List.map_singleton, List.mem_singleton] at late
          exact new (late ▸ old)
        obtain ⟨kept, members⟩ := ih _ _ grown still
        refine ⟨kept, fun other member => ?_⟩
        rcases members other member with before | after
        · rcases List.mem_append.mp before with before | this
          · exact .inl before
          · rw [List.mem_singleton.mp this]
            exact .inr List.mem_cons_self
        · exact .inr (List.mem_cons_of_mem _ after)

/-! ## Chunks -/

/-- What identifies a stored chunk. -/
def Chunk.key (chunk : Chunk) : UInt64 × UInt32 := (chunk.docHash, chunk.chunkIndex)

/-- What identifies a stored chunk. -/
def ChunkRow.key {M α : Type*} (row : ChunkRow M α) : UInt64 × UInt32 :=
  (row.docHash, row.chunkIndex)

/-- The chunks of a document fit the 32 bits of a chunk index. -/
def Countable (config : ChunkConfig) (text : String) : Prop :=
  (chunkText text config).length ≤ 2 ^ 32

instance (config : ChunkConfig) (text : String) : Decidable (Countable config text) :=
  inferInstanceAs (Decidable (_ ≤ _))

theorem keys_documentChunks (config : ChunkConfig) (text : String) :
    (documentChunks config text).map Chunk.key =
      (List.range (chunkText text config).length).map fun index =>
        (docHash text, UInt32.ofNat index) := by
  rw [documentChunks, List.range_eq_range', ← List.zipIdx_map_snd 0 (chunkText text config),
    List.map_map, List.map_map]
  rfl

theorem nodup_keys_documentChunks {config : ChunkConfig} {text : String}
    (fits : Countable config text) : ((documentChunks config text).map Chunk.key).Nodup := by
  rw [keys_documentChunks]
  apply List.Nodup.map_on _ List.nodup_range
  intro index within index' within' same
  rw [List.mem_range] at within within'
  unfold Countable at fits
  have numbers : (UInt32.ofNat index).toNat = (UInt32.ofNat index').toNat :=
    congrArg UInt32.toNat (congrArg Prod.snd same)
  simp only [UInt32.toNat_ofNat'] at numbers
  omega

theorem docHash_of_mem_documentChunks {config : ChunkConfig} {text : String} {key : UInt64 × UInt32}
    (member : key ∈ (documentChunks config text).map Chunk.key) : key.1 = docHash text := by
  rw [keys_documentChunks] at member
  obtain ⟨index, -, rfl⟩ := List.mem_map.mp member
  rfl

namespace LanceIndex

variable {M α : Type} {index : LanceIndex M α}

/-- No chunk is stored twice. -/
def StoredOnce (index : LanceIndex M α) : Prop := (index.dataset.rows.map ChunkRow.key).Nodup

theorem nodup_keys_chunksOf {texts : List String} (distinct : (texts.map docHash).Nodup)
    (fits : ∀ text ∈ texts, Countable index.chunkConfig text) :
    ((index.chunksOf texts).map Chunk.key).Nodup := by
  rw [chunksOf, List.map_flatMap, List.nodup_flatMap]
  refine ⟨fun text member => nodup_keys_documentChunks (fits text member), ?_⟩
  apply (List.pairwise_map.mp distinct).imp
  intro text text' differ key here there
  exact differ ((docHash_of_mem_documentChunks here).symm.trans (docHash_of_mem_documentChunks there))

theorem docHash_of_mem_chunksOf {texts : List String} {key : UInt64 × UInt32}
    (member : key ∈ (index.chunksOf texts).map Chunk.key) : key.1 ∈ texts.map docHash := by
  rw [chunksOf, List.map_flatMap] at member
  obtain ⟨text, given, member⟩ := List.mem_flatMap.mp member
  exact List.mem_map.mpr ⟨text, given, (docHash_of_mem_documentChunks member).symm⟩

theorem keys_of_chunkBatch {chunks : List Chunk} {vectors : List (Embedding α × M)}
    {rows : List (ChunkRow M α)} (made : chunkBatch chunks vectors = .ok rows) :
    rows.map ChunkRow.key = chunks.map Chunk.key := by
  obtain ⟨same, rfl⟩ := Fallible.ite_ok_iff.mp made
  clear made
  induction chunks generalizing vectors with
  | nil => simp
  | cons chunk rest ih =>
    cases vectors with
    | nil => simp at same
    | cons vector others =>
      rw [List.zipWith_cons_cons, List.map_cons, List.map_cons, ih (by simpa using same)]
      rfl

variable [EmbedModel M]

/-- The rows to append are the chunks of the texts, whatever the models answer. -/
theorem keys_of_rowsOf {calls : Nat → EmbedCall α} {texts : List String}
    {rows : List (ChunkRow M α)} (made : index.rowsOf calls texts = .ok rows) :
    rows.map ChunkRow.key = (index.chunksOf texts).map Chunk.key := by
  unfold rowsOf at made
  dsimp only at made
  by_cases none_left : (index.chunksOf texts).isEmpty = true
  · rw [if_pos none_left] at made
    cases made
    rw [List.isEmpty_iff.mp none_left]
    rfl
  · rw [if_neg none_left] at made
    obtain ⟨vectors, -, made⟩ := Fallible.bind_ok_iff.mp made
    exact keys_of_chunkBatch made

omit [EmbedModel M] in
theorem StoredOnce.append {rows : List (ChunkRow M α)} (once : index.StoredOnce)
    (distinct : (rows.map ChunkRow.key).Nodup)
    (new : ∀ row ∈ rows, row.docHash ∉ index.dataset.rows.map (·.docHash)) :
    (index.append rows).StoredOnce := by
  unfold StoredOnce
  rw [LanceIndex.append, List.map_append, List.nodup_append]
  refine ⟨once, distinct, ?_⟩
  rintro key old key' late rfl
  obtain ⟨row, member, rfl⟩ := List.mem_map.mp late
  obtain ⟨stored, held, same⟩ := List.mem_map.mp old
  exact new row member (List.mem_map.mpr ⟨stored, held, congrArg Prod.fst same⟩)

omit [EmbedModel M] in
theorem StoredOnce.compare (once : index.StoredOnce) (producer : M) :
    (index.compare producer).StoredOnce := by
  unfold LanceIndex.compare
  split <;> exact once

theorem StoredOnce.openDataset {probed : M} {embedder : Embedder M} {opened : LanceIndex M α}
    (once : index.StoredOnce)
    (accepted : LanceIndex.openDataset index.uri index.dataset probed embedder = .ok opened) :
    opened.StoredOnce := by
  unfold LanceIndex.openDataset at accepted
  split at accepted
  · cases accepted
  · cases accepted
    exact once

omit [EmbedModel M] in
theorem mem_indexedDocHashes {hash : UInt64} :
    hash ∈ index.indexedDocHashes ↔ hash ∈ index.dataset.rows.map (·.docHash) := by
  rw [indexedDocHashes, TreeSet.mem_ofList, List.contains_iff_mem]

theorem create_ok {uri : String} {embedder : Embedder M} {chunkConfig : ChunkConfig}
    {call : EmbedCall α} (made : create uri embedder chunkConfig call = .ok index) :
    index.chunkConfig = chunkConfig ∧ index.dataset.rows = [] := by
  obtain ⟨probe, -, made⟩ := Fallible.bind_ok_iff.mp made
  split at made
  · cases made
  · cases made
    exact ⟨rfl, rfl⟩

/-- A new index holds the chunks of the texts of its table. -/
theorem storedOnce_of_created {uri : String} {embedder : Embedder M} {chunkConfig : ChunkConfig}
    {table : List (Option String)} {probe : EmbedCall α} {calls : Nat → EmbedCall α}
    (fits : ∀ text, some text ∈ table → Countable chunkConfig text)
    (made : createSemanticIndex uri embedder chunkConfig table probe calls = .ok index) :
    index.StoredOnce := by
  obtain ⟨distinct, members⟩ := readColumnTexts_spec table
  obtain ⟨fresh, created, made⟩ := Fallible.bind_ok_iff.mp made
  obtain ⟨added, filled, made⟩ := Fallible.bind_ok_iff.mp made
  obtain ⟨rows, embedded, filled⟩ := Fallible.bind_ok_iff.mp filled
  cases filled
  cases made
  obtain ⟨config, nothing⟩ := create_ok created
  have start : fresh.StoredOnce := by
    unfold StoredOnce
    rw [nothing]
    exact List.nodup_nil
  apply start.append
  · rw [keys_of_rowsOf embedded]
    apply nodup_keys_chunksOf distinct
    intro text member
    exact config ▸ fits text (members text member)
  · rw [nothing]
    simp

end LanceIndex

/-! ## Runs -/

/-- What a refresh carries was missing when it asked, each document once. -/
def Phase.Missing {M α : Type} : Phase M α → Prop
  | .filtered indexed texts =>
    (texts.map docHash).Nodup ∧ ∀ text ∈ texts, docHash text ∉ indexed
  | .embedded indexed rows _ =>
    (rows.map ChunkRow.key).Nodup ∧ ∀ row ∈ rows, row.docHash ∉ indexed
  | _ => True

namespace Session

variable {M α : Type}

/-- No document that the step adds was added by another refresh since the membership was
read, and its chunks fit the 32 bits of a chunk index. -/
def addsOnce (session : Session M α) : Action M α → Bool
  | .create _ _ _ chunkConfig table _ _ =>
    table.all fun row => row.all fun text => decide (Countable chunkConfig text)
  | .embed refresh _ =>
    match session.refreshes[refresh]? with
    | some ⟨number, .filtered _ texts⟩ =>
      (session.indexes[number]?).all fun index =>
        texts.all fun text => decide (Countable index.chunkConfig text)
    | _ => true
  | .append refresh =>
    match session.refreshes[refresh]? with
    | some ⟨number, .embedded indexed rows _⟩ =>
      (session.indexes[number]?).all fun index =>
        rows.all fun row =>
          !index.indexedDocHashes.contains row.docHash || indexed.contains row.docHash
    | _ => true
  | _ => true

/-- The invariant of runs that add each document once. -/
structure StoredOnce (session : Session M α) : Prop where
  indexes : ∀ index ∈ session.indexes, index.StoredOnce
  refreshes : ∀ call ∈ session.refreshes, call.phase.Missing

theorem StoredOnce.setPhase {session : Session M α} (once : session.StoredOnce) (refresh : Nat)
    {phase : Phase M α} (missing : phase.Missing) : (session.setPhase refresh phase).StoredOnce :=
  ⟨once.indexes, forall_mem_modify once.refreshes fun _ _ => missing⟩

theorem StoredOnce.setIndex {session : Session M α} (once : session.StoredOnce) (number : Nat)
    {index : LanceIndex M α} (stored : index.StoredOnce) :
    (session.setIndex number index).StoredOnce :=
  ⟨forall_mem_set once.indexes stored, once.refreshes⟩

variable [EmbedModel M]

theorem step_storedOnce {session next : Session M α} {action : Action M α}
    (once : session.StoredOnce) (fresh : session.addsOnce action = true)
    (taken : session.step action = some next) : next.StoredOnce := by
  cases step_moved taken with
  | idle => exact once
  | @created _ _ _ chunkConfig table _ _ index _ made =>
    refine ⟨List.forall_mem_append.mpr ⟨once.indexes, ?_⟩, once.refreshes⟩
    rw [List.forall_mem_singleton]
    apply LanceIndex.storedOnce_of_created _ made
    intro text member
    have fits := List.all_eq_true.mp fresh _ member
    simpa using fits
  | reopened here accepted =>
    exact once.setIndex _ ((once.indexes _ (List.mem_of_getElem? here)).openDataset accepted)
  | started =>
    refine ⟨once.indexes, List.forall_mem_append.mpr ⟨once.refreshes, ?_⟩⟩
    rw [List.forall_mem_singleton]
    trivial
  | knew => exact once.setPhase _ trivial
  | @filtered _ table _ indexed =>
    apply once.setPhase
    obtain ⟨distinct, -⟩ := readColumnTexts_spec table
    refine ⟨distinct.sublist (List.filter_sublist.map _), fun text member known => ?_⟩
    have new := (List.mem_filter.mp member).2
    rw [TreeSet.contains_iff_mem.mpr known] at new
    cases new
  | @embedded refresh _ call index indexed texts rows running here phase made =>
    apply once.setPhase
    have missing := once.refreshes call (List.mem_of_getElem? running)
    obtain ⟨number, now⟩ := call
    cases phase
    obtain ⟨distinct, new⟩ := missing
    have fits : ∀ text ∈ texts, Countable index.chunkConfig text := by
      simp only [addsOnce, running, here, Option.all_some, List.all_eq_true,
        decide_eq_true_eq] at fresh
      exact fresh
    have keys := LanceIndex.keys_of_rowsOf made
    refine ⟨keys ▸ LanceIndex.nodup_keys_chunksOf distinct fits, fun row member => ?_⟩
    have listed : row.key ∈ (index.chunksOf texts).map Chunk.key :=
      keys ▸ List.mem_map_of_mem member
    obtain ⟨text, given, same⟩ := List.mem_map.mp (LanceIndex.docHash_of_mem_chunksOf listed)
    have hash : docHash text = row.docHash := same
    exact hash ▸ new text given
  | @appended refresh docs call index indexed rows running here phase =>
    refine StoredOnce.setPhase (once.setIndex _ ?_) _ trivial
    have missing := once.refreshes call (List.mem_of_getElem? running)
    obtain ⟨number, now⟩ := call
    cases phase
    obtain ⟨distinct, new⟩ := missing
    apply (once.indexes index (List.mem_of_getElem? here)).append distinct
    intro row member held
    simp only [addsOnce, running, here, Option.all_some, List.all_eq_true] at fresh
    have known := fresh row member
    rw [TreeSet.contains_iff_mem.mpr (LanceIndex.mem_indexedDocHashes.mpr held), Bool.not_true,
      Bool.false_or] at known
    exact new row member (TreeSet.contains_iff_mem.mp known)
  | failed => exact once.setPhase _ trivial
  | searched here => exact once.setIndex _ ((once.indexes _ (List.mem_of_getElem? here)).compare _)

/-- In a run whose refreshes append only documents that no other refresh has appended
since their membership read, each chunk is stored at most once, whatever fails and in
whatever order the refreshes take their steps. -/
theorem run_storedOnce {actions : List (Action M α)} {session : Session M α}
    (meets : StepsMeet step (fun session action => session.addsOnce action = true) empty actions)
    (taken : run step empty actions = some session) :
    ∀ index ∈ session.indexes,
      (index.dataset.rows.map fun row => (row.docHash, row.chunkIndex)).Nodup := by
  have start : (empty : Session M α).StoredOnce := ⟨by simp [empty], by simp [empty]⟩
  exact (run_preserves_of_stepsMeet
    (fun session action next once fresh taken => step_storedOnce once fresh taken)
    start meets taken).indexes

/-- A provider alone, with the `embed_batch_size` of the trait. -/
instance : EmbedModel ModelId := ⟨fun model => model, fun _ => 64⟩

/-- Every call is answered with one vector a text. -/
def answered : EmbedCall Nat := fun _ texts => .ok (texts.map fun text => [text.length, 1])

/-- The creation of an index over an empty table. -/
def created : Action ModelId Nat :=
  .create ("mails", "body") "mails.body.lance" ⟨[⟨"mock"⟩], by simp⟩ .default [] answered
    fun _ => answered

/-- One refresh after the other. -/
def inTurn : List (Action ModelId Nat) :=
  [created, .start ("mails", "body"), .membership 0, .readTable 0 [some "hello world", none],
    .embed 0 fun _ => answered, .append 0, .start ("mails", "body"), .membership 1,
    .readTable 1 [some "hello world", some "again"], .embed 1 fun _ => answered, .append 1]

theorem inTurn_storedOnce : ∃ session, run step empty inTurn = some session ∧
    ∀ index ∈ session.indexes,
      (index.dataset.rows.map fun row => (row.docHash, row.chunkIndex)).Nodup := by
  have ran : (run step empty inTurn).isSome = true := by decide +kernel
  have meets : StepsMeet step (fun session action => session.addsOnce action = true) empty
      inTurn := by decide +kernel
  obtain ⟨session, taken⟩ := Option.isSome_iff_exists.mp ran
  exact ⟨session, taken, run_storedOnce meets taken⟩

/-- Two refreshes that both ask before either appends. -/
def atOnce : List (Action ModelId Nat) :=
  [created, .start ("mails", "body"), .start ("mails", "body"), .membership 0, .membership 1,
    .readTable 0 [some "hello world"], .readTable 1 [some "hello world"],
    .embed 0 fun _ => answered, .embed 1 fun _ => answered, .append 0, .append 1]

theorem atOnce_stores_twice : ∃ session, run step empty atOnce = some session ∧
    ¬ ∀ index ∈ session.indexes,
      (index.dataset.rows.map fun row => (row.docHash, row.chunkIndex)).Nodup := by
  have ran : (match run step empty atOnce with
    | some session => session.indexes.any fun index =>
        !decide (index.dataset.rows.map fun row => (row.docHash, row.chunkIndex)).Nodup
    | none => false) = true := by decide +kernel
  cases taken : run step empty atOnce with
  | none =>
    rw [taken] at ran
    cases ran
  | some session =>
    rw [taken] at ran
    refine ⟨session, rfl, fun once => ?_⟩
    obtain ⟨index, member, twice⟩ := List.any_eq_true.mp ran
    simp [once index member] at twice

end Session

end Semcast.Index
