import Semcast.Physical.Planner
import Semcast.Physical.Proofs.ClassifyBatch
import Semcast.Physical.Proofs.LabelSample

/-!
# The stages compute their nodes

Where the model answers as the verdicts of an interpretation do, and the cache holds
nothing else, the stage of a node gives the rows that the node denotes, whatever the
batches, and leaves such a cache behind.
-/

namespace Semcast.Planner

open Model Cache Json Logical Verify Classify IndexScan LawfulSemanticCache

variable {C : Type*} [SemanticCache C] [WritePolicy C] {blake3 : List UInt8 → List UInt8}
  {modelId : ModelId} {verdict : String → String → Option Bool} {questions : Set (String × String)}

/-! ## Caches that hold the verdicts -/

/-- The versions of the prompts that show a full text. -/
def fullTextPrompts : List String :=
  [meansPromptVersion, classifyPromptVersion]

/-- What the cache holds on some conditions and texts are their verdicts. -/
def CacheTells (blake3 : List UInt8 → List UInt8) (modelId : ModelId)
    (verdict : String → String → Option Bool) (questions : Set (String × String)) (cache : C) :
    Prop :=
  ∀ question ∈ questions, ∀ version ∈ fullTextPrompts, ∀ matched,
    cachedVerdict cache (meansCacheKey blake3 question.1 question.2 modelId version) =
      some matched → verdict question.2 question.1 = some matched

/-- Conditions and texts that differ have keys in different slots. -/
def KeysApart (C : Type*) [SemanticCache C] [LawfulSemanticCache C]
    (blake3 : List UInt8 → List UInt8) (modelId : ModelId) (questions : Set (String × String)) :
    Prop :=
  ∀ question ∈ questions, ∀ other ∈ questions, ∀ version ∈ fullTextPrompts,
    ∀ version' ∈ fullTextPrompts,
      slot (C := C) (meansCacheKey blake3 question.1 question.2 modelId version) =
        slot (C := C) (meansCacheKey blake3 other.1 other.2 modelId version') → question = other

/-- An entry with the verdict on one of the questions. -/
def IsVerdict (blake3 : List UInt8 → List UInt8) (modelId : ModelId)
    (verdict : String → String → Option Bool) (questions : Set (String × String))
    (entry : CacheKey × CachedValue) : Prop :=
  ∃ question ∈ questions, ∃ version ∈ fullTextPrompts, ∃ matched,
    verdict question.2 question.1 = some matched ∧
      entry = (meansCacheKey blake3 question.1 question.2 modelId version,
        .value (verdictText matched))

theorem CacheTells.congr {cache cache' : C} (same : lookup cache' = lookup cache)
    (tells : CacheTells blake3 modelId verdict questions cache) :
    CacheTells blake3 modelId verdict questions cache' := by
  intro question member version full matched found
  apply tells question member version full matched
  rwa [cachedVerdict, answer, same] at found

/-- Puts of verdicts keep to the verdicts. -/
theorem CacheTells.putAll {cache : C} (tells : CacheTells blake3 modelId verdict questions cache)
    (apart : KeysApart C blake3 modelId questions) {entries : List (CacheKey × CachedValue)}
    (verdicts : ∀ entry ∈ entries, IsVerdict blake3 modelId verdict questions entry) :
    CacheTells blake3 modelId verdict questions (putAll cache entries) := by
  intro question member version full matched found
  rcases lookup_putAll_cases cache entries
    (slot (meansCacheKey blake3 question.1 question.2 modelId version)) with
      kept | ⟨entry, among, into, put⟩
  · apply tells question member version full matched
    rwa [cachedVerdict, answer, kept] at found
  · obtain ⟨other, member', version', full', matched', told, rfl⟩ := verdicts entry among
    have same := apart question member other member' version full version' full' into
    subst same
    rw [cachedVerdict, answer, put] at found
    change some (verdictText matched' == "yes") = some matched at found
    rw [verdictText_eq_yes, Option.some.injEq] at found
    rw [told, found]

/-- The rows have no other texts than these. -/
def ReadsTexts {ρ : Type*} (text : ρ → Option String) (texts : List String) (batch : List ρ) :
    Prop :=
  ∀ row ∈ batch, ∀ sent, text row = some sent → sent ∈ texts

/-! ## The verify stage -/

section Verify

variable {ρ ε : Type*} {verifier : Verifier ρ ε} {texts : List String} {batch : List ρ} {cache : C}

/-- Whether the verdict on a row is yes. -/
def satisfies (verdict : String → String → Option Bool) (verifier : Verifier ρ ε) (row : ρ) :
    Bool :=
  ((verifier.text row).bind fun text => verdict text verifier.condition) == some true

/-- Without evidence, what a row asks is its text. -/
theorem text_of_ask (alone : verifier.evidence = none) {row : ρ}
    {question : String × Bool} (asks : verifier.ask blake3 cache row = some question) :
    verifier.text row = some question.1 ∧ question.2 = false := by
  obtain ⟨sends, -⟩ := (verifier.ask_eq_some_iff blake3).mp asks
  obtain ⟨text, sent, rfl⟩ := Option.map_eq_some_iff.mp sends
  simp [Verifier.sent, alone, sent]

variable (blake3 cache) in
/-- The answers read as the verdicts on the texts they are for. -/
theorem complete_told (alone : verifier.evidence = none)
    (reads : ReadsTexts verifier.text texts batch)
    (answers : ModelAnswers verifier.condition (verdict · verifier.condition) verifier.model
      texts) :
    (verifier.model.complete ((verifier.asked blake3 cache batch).map fun question =>
        verifier.request question.1 question.2)).map verdictOf =
      (verifier.waiting blake3 cache 0 batch).map fun pending =>
        verdict pending.input verifier.condition := by
  have plain : ∀ question ∈ verifier.asked blake3 cache batch,
      question.1 ∈ texts ∧ question.2 = false := by
    intro question asked
    obtain ⟨row, within, asks⟩ := List.mem_filterMap.mp asked
    obtain ⟨text, plain⟩ := text_of_ask alone asks
    exact ⟨reads row within _ text, plain⟩
  have requests : (verifier.asked blake3 cache batch).map
        (fun question => verifier.request question.1 question.2) =
      ((verifier.asked blake3 cache batch).map Prod.fst).map (labelRequest verifier.condition) := by
    rw [List.map_map]
    refine List.map_congr_left fun question asked => ?_
    rw [(plain question asked).2]
    rfl
  have told := answers ((verifier.asked blake3 cache batch).map Prod.fst) (by
    rw [List.forall_mem_map]
    exact fun question asked => (plain question asked).1)
  rw [← requests] at told
  refine told.trans ?_
  rw [← verifier.waiting_questions blake3 cache 0, List.map_map, List.map_map]
  rfl

theorem verdictOf_answer (alone : verifier.evidence = none)
    (reads : ReadsTexts verifier.text texts batch)
    (answers : ModelAnswers verifier.condition (verdict · verifier.condition) verifier.model texts)
    {answer : Pending × Except ε Completion}
    (member : answer ∈ verifier.answers blake3 cache batch) :
    verdictOf answer.2 = verdict answer.1.input verifier.condition := by
  obtain ⟨place, placed⟩ := List.getElem?_of_mem member
  obtain ⟨waits, answered⟩ := List.getElem?_zip_eq_some.mp placed
  have here := congrArg (·[place]?) (complete_told blake3 cache alone reads answers)
  simpa only [List.getElem?_map, answered, waits, Option.map_some, Option.some.injEq] using here

/-- A row that asks is answered. -/
theorem exists_answer_of_ask (alone : verifier.evidence = none)
    (reads : ReadsTexts verifier.text texts batch)
    (answers : ModelAnswers verifier.condition (verdict · verifier.condition) verifier.model texts)
    {index : Nat} {row : ρ} {question : String × Bool} (at_ : batch[index]? = some row)
    (asks : verifier.ask blake3 cache row = some question) :
    ∃ answer ∈ verifier.answers blake3 cache batch, answer.1 = pendingAt index question := by
  have waits : pendingAt index question ∈ verifier.waiting blake3 cache 0 batch :=
    (verifier.mem_waiting blake3).mpr ⟨index, row, question, at_, asks, rfl⟩
  obtain ⟨place, placed⟩ := List.getElem?_of_mem waits
  have lengths := congrArg List.length (complete_told blake3 cache alone reads answers)
  rw [List.length_map, List.length_map] at lengths
  obtain ⟨inside, -⟩ := List.getElem?_eq_some_iff.mp placed
  obtain ⟨completion, answered⟩ : ∃ completion, (verifier.model.complete
      ((verifier.asked blake3 cache batch).map fun question =>
        verifier.request question.1 question.2))[place]? = some completion :=
    ⟨_, List.getElem?_eq_getElem (lengths ▸ inside)⟩
  exact ⟨(pendingAt index question, completion),
    List.mem_of_getElem? (List.getElem?_zip_eq_some.mpr ⟨placed, answered⟩), rfl⟩

/-- A row is kept where the verdict on its text is yes. -/
theorem keep_told (alone : verifier.evidence = none) (reads : ReadsTexts verifier.text texts batch)
    (answers : ModelAnswers verifier.condition (verdict · verifier.condition) verifier.model texts)
    (within : ∀ text ∈ texts, (verifier.condition, text) ∈ questions)
    (tells : CacheTells blake3 verifier.model.id verdict questions cache) {index : Nat} {row : ρ}
    (at_ : batch[index]? = some row) :
    (verifier.verifyState blake3 batch cache).keep[index]? =
      some (satisfies verdict verifier row) := by
  have member := List.mem_of_getElem? at_
  cases sends : verifier.text row with
  | none =>
    have quiet : verifier.ask blake3 cache row = none := by
      simp [Verifier.ask, Verifier.question, sends]
    rw [verifier.keep_of_settled blake3 at_ quiet, satisfies, Verifier.settled, Verifier.question,
      sends]
    rfl
  | some text =>
    have question : verifier.question row = some (text, false) := by
      simp [Verifier.question, Verifier.sent, alone, sends]
    have inside := within text (reads row member text sends)
    rw [satisfies, sends, Option.bind_some]
    cases known : cachedVerdict cache (verifier.questionKey blake3 (text, false)) with
    | some matched =>
      obtain ⟨quiet, settled⟩ := verifier.settled_of_known blake3 question known
      rw [verifier.keep_of_settled blake3 at_ quiet, settled,
        tells _ inside meansPromptVersion List.mem_cons_self matched known]
      cases matched <;> rfl
    | none =>
      have asks := (verifier.ask_eq_some_iff blake3).mpr ⟨question, known⟩
      obtain ⟨answer, among, waits⟩ := exists_answer_of_ask alone reads answers at_ asks
      have told := verdictOf_answer alone reads answers among
      rw [waits] at told
      cases stated : verdict text verifier.condition with
      | some matched =>
        have kept := verifier.keep_of_answer blake3 among (told.trans stated)
        rw [waits] at kept
        refine kept.trans ?_
        cases matched <;> rfl
      | none =>
        have unusable : ∀ other ∈ verifier.answers blake3 cache batch, other.1.row = index →
            verdictOf other.2 = none := by
          intro other among' same
          obtain ⟨index', row', question', at_', asks', waits'⟩ :=
            verifier.answers_asked blake3 among'
          rw [waits'] at same
          change index' = index at same
          subst same
          rw [at_, Option.some.injEq] at at_'
          subst at_'
          rw [asks, Option.some.injEq] at asks'
          subst asks'
          rw [verdictOf_answer alone reads answers among', waits']
          exact stated
        rw [verifier.keep_of_none blake3 at_ unusable, Verifier.settled, question,
          Option.bind_some, known]
        rfl

theorem filterRecordBatch_map (batch : List ρ) (kept : ρ → Bool) :
    filterRecordBatch batch (batch.map kept) = batch.filter kept := by
  induction batch with
  | nil => rfl
  | cons row rest ih =>
    unfold filterRecordBatch at ih ⊢
    rw [List.map_cons, List.zip_cons_cons, List.filter_cons, List.filter_cons]
    cases kept row <;> simp [ih]

/-- A batch keeps the rows with the verdict yes, and the cache keeps to the verdicts. -/
theorem verifyBatch_told (alone : verifier.evidence = none)
    (reads : ReadsTexts verifier.text texts batch)
    (answers : ModelAnswers verifier.condition (verdict · verifier.condition) verifier.model texts)
    (within : ∀ text ∈ texts, (verifier.condition, text) ∈ questions)
    (apart : KeysApart C blake3 verifier.model.id questions)
    (tells : CacheTells blake3 verifier.model.id verdict questions cache) :
    (verifier.verifyBatch blake3 batch cache).1 = batch.filter (satisfies verdict verifier) ∧
      CacheTells blake3 verifier.model.id verdict questions
        (verifier.verifyBatch blake3 batch cache).2.cache := by
  constructor
  · unfold Verifier.verifyBatch
    dsimp only
    rw [verifier.keep_eq_map blake3 fun _ _ at_ => keep_told alone reads answers within tells at_,
      filterRecordBatch_map]
  · change CacheTells _ _ _ _ (verifier.verifyState blake3 batch cache).cache
    rw [verifier.verifyState_cache]
    refine CacheTells.putAll (tells.congr (verifier.lookup_lookUpAll blake3 batch cache)) apart ?_
    intro entry put
    obtain ⟨answer, among, put⟩ := List.mem_filterMap.mp put
    obtain ⟨matched, usable, rfl⟩ := Option.map_eq_some_iff.mp put
    rw [verdictOf_answer alone reads answers among] at usable
    obtain ⟨index, row, question, at_, asks, waits⟩ := verifier.answers_asked blake3 among
    obtain ⟨sends, plain⟩ := text_of_ask alone asks
    have read : question.1 ∈ texts := reads row (List.mem_of_getElem? at_) _ sends
    rw [waits] at usable ⊢
    refine ⟨(verifier.condition, question.1), within _ read, meansPromptVersion,
      List.mem_cons_self, matched, usable, ?_⟩
    simp [pendingAt, Verifier.cacheKey, plain]

/-- A stream of batches. -/
theorem executeVerify_told (alone : verifier.evidence = none) {batches : List (List ρ)}
    (reads : ReadsTexts verifier.text texts batches.flatten)
    (answers : ModelAnswers verifier.condition (verdict · verifier.condition) verifier.model texts)
    (within : ∀ text ∈ texts, (verifier.condition, text) ∈ questions)
    (apart : KeysApart C blake3 verifier.model.id questions)
    (tells : CacheTells blake3 verifier.model.id verdict questions cache) :
    (executeVerify blake3 verifier batches cache).1 =
        batches.map (List.filter (satisfies verdict verifier)) ∧
      CacheTells blake3 verifier.model.id verdict questions
        (executeVerify blake3 verifier batches cache).2 := by
  induction batches generalizing cache with
  | nil => exact ⟨rfl, tells⟩
  | cons batch rest ih =>
    rw [List.flatten_cons] at reads
    obtain ⟨kept, after⟩ := verifyBatch_told alone
      (fun row member => reads row (List.mem_append_left _ member)) answers within apart tells
    obtain ⟨later, final⟩ := ih (fun row member => reads row (List.mem_append_right _ member)) after
    exact ⟨by rw [executeVerify, kept, later, List.map_cons], final⟩

end Verify

/-! ## The classify stage -/

section Classify

variable {ρ ε F : Type*} {json : Text F} {classifier : Classifier ρ ε} {texts : List String}
  {batch : List ρ} {cache : C}

/-- What `apply` reads in an answer to `count` conditions. -/
def answered (json : Text F) (count : Nat) (answer : Except ε Completion) : List (Option Bool) :=
  match answer with
  | .error _ => List.replicate count none
  | .ok completion => decodeVerdicts json count completion.text

/-- The model's answers to any rows that wait, with texts among these, read as the verdicts. -/
def ClassifierAnswers (json : Text F) (verdict : String → String → Option Bool)
    (classifier : Classifier ρ ε) (texts : List String) : Prop :=
  ∀ rows : List PendingRow,
    (∀ row ∈ rows, row.text ∈ texts ∧ row.pending.Nodup ∧
      ∀ branch ∈ row.pending, branch < classifier.conditions.length) →
    List.Forall₂ (fun row answer => answered json row.pending.length answer =
        row.pending.map fun branch => verdict row.text (classifier.conditions.getD branch ""))
      rows (classifier.model.complete (rows.map (classifier.request json)))

/-- The verdicts on a row: one the guard keeps from the model has the verdict no. -/
def toldOf (verdict : String → String → Option Bool) (classifier : Classifier ρ ε) (row : ρ) :
    List (Option Bool) :=
  match guardAllows classifier.guard row, classifier.text row with
  | true, some text => classifier.conditions.map (verdict text)
  | _, _ => List.replicate classifier.conditions.length (some false)

omit [WritePolicy C] in
/-- A verdict that a row waits for is the one decoded for it. -/
theorem foldl_applyBranch_told (pendingRow : PendingRow) {state : ClassifyState C}
    {decoded : List (Nat × Option Bool)} (distinct : (decoded.map Prod.fst).Nodup)
    {branch : Nat} {told : Option Bool} (member : (branch, told) ∈ decoded)
    (before : verdictAt state.verdicts pendingRow.row branch = some none) :
    verdictAt (decoded.foldl (classifier.applyBranch blake3 pendingRow) state).verdicts
      pendingRow.row branch = some told := by
  induction decoded generalizing state with
  | nil => cases member
  | cons first rest ih =>
    rw [List.map_cons, List.nodup_cons] at distinct
    rw [List.foldl_cons]
    rcases List.mem_cons.mp member with rfl | later
    · rw [(classifier.foldl_applyBranch_spec blake3 pendingRow _ rest).2.2 pendingRow.row branch
        fun _ => distinct.1]
      unfold Classifier.applyBranch
      cases told with
      | none => exact before
      | some matched =>
        obtain ⟨row, at_, within⟩ := Option.bind_eq_some_iff.mp before
        obtain ⟨inside, -⟩ := List.getElem?_eq_some_iff.mp within
        dsimp only
        rw [verdictAt, List.getElem?_modify, at_]
        simp [inside]
    · apply ih distinct.2 later
      have other : branch ≠ first.1 := by
        rintro rfl
        exact distinct.1 (List.mem_map.mpr ⟨_, later, rfl⟩)
      have untouched := (classifier.foldl_applyBranch_spec blake3 pendingRow state [first]).2.2
        pendingRow.row branch fun _ => by simpa using other
      exact untouched.trans before

omit [WritePolicy C] in
theorem applyAnswer_told {state : ClassifyState C} {answer : PendingRow × Except ε Completion}
    (distinct : answer.1.pending.Nodup) {branch : Nat} {told : Option Bool}
    (member : (branch, told) ∈
      answer.1.pending.zip (answered json answer.1.pending.length answer.2))
    (before : verdictAt state.verdicts answer.1.row branch = some none) :
    verdictAt (classifier.applyAnswer blake3 json state answer).verdicts answer.1.row branch =
      some told := by
  unfold Classifier.applyAnswer
  unfold answered at member
  cases result : answer.2 with
  | error error =>
    rw [result] at member
    rw [List.eq_of_mem_replicate (List.of_mem_zip member).2]
    exact before
  | ok completion =>
    rw [result] at member
    dsimp only at member ⊢
    split
    · rename_i unusable
      have none := List.all_eq_true.mp unusable told (List.of_mem_zip member).2
      rw [Option.isNone_iff_eq_none.mp none]
      exact before
    · have apart : ((answer.1.pending.zip (decodeVerdicts json answer.1.pending.length
          completion.text)).map fun pair => id pair.1).Nodup :=
        Numbered.nodup_zip (by rwa [List.map_id]) _
      exact foldl_applyBranch_told answer.1 apart member before

omit [WritePolicy C] in
/-- A row's verdicts come from its own answer. -/
theorem foldl_applyAnswer_told {state : ClassifyState C}
    {answers : List (PendingRow × Except ε Completion)}
    (apart : (answers.map (·.1.row)).Nodup) {answer : PendingRow × Except ε Completion}
    (among : answer ∈ answers) (distinct : answer.1.pending.Nodup) {branch : Nat}
    {told : Option Bool} (member : (branch, told) ∈
      answer.1.pending.zip (answered json answer.1.pending.length answer.2))
    (before : verdictAt state.verdicts answer.1.row branch = some none) :
    verdictAt (answers.foldl (classifier.applyAnswer blake3 json) state).verdicts answer.1.row
      branch = some told := by
  induction answers generalizing state with
  | nil => cases among
  | cons first rest ih =>
    rw [List.map_cons, List.nodup_cons] at apart
    rw [List.foldl_cons]
    rcases List.mem_cons.mp among with rfl | later
    · rw [(classifier.foldl_applyAnswer_spec blake3 json _ rest).2.2 answer.1.row branch
        fun other among' same => absurd (List.mem_map.mpr ⟨other, among', same.symm⟩) apart.1]
      exact applyAnswer_told distinct member before
    · apply ih apart.2 later
      rw [(classifier.applyAnswer_spec blake3 json state first).2.2 answer.1.row branch
        fun same => absurd (List.mem_map.mpr ⟨answer, later, same⟩) apart.1]
      exact before

variable (blake3) in
omit [WritePolicy C] in
theorem length_foldl_applyAnswer (state : ClassifyState C)
    (answers : List (PendingRow × Except ε Completion)) :
    (answers.foldl (classifier.applyAnswer blake3 json) state).verdicts.length =
      state.verdicts.length := by
  have branches : ∀ (pendingRow : PendingRow) (decoded : List (Nat × Option Bool))
      (state : ClassifyState C),
      (decoded.foldl (classifier.applyBranch blake3 pendingRow) state).verdicts.length =
        state.verdicts.length := by
    intro pendingRow decoded
    induction decoded with
    | nil => exact fun _ => rfl
    | cons first rest ih =>
      intro state
      rw [List.foldl_cons, ih]
      unfold Classifier.applyBranch
      cases first.2 with
      | none => rfl
      | some matched => exact List.length_modify _ _ _
  induction answers generalizing state with
  | nil => rfl
  | cons answer rest ih =>
    rw [List.foldl_cons, ih]
    unfold Classifier.applyAnswer
    cases answer.2 with
    | error => rfl
    | ok completion =>
      dsimp only
      split
      · rfl
      · exact branches _ _ _

/-- The rows that wait after the lookups, with their answers. -/
def rowAnswers (blake3 : List UInt8 → List UInt8) (json : Text F) (classifier : Classifier ρ ε)
    (cache : C) (batch : List ρ) : List (PendingRow × Except ε Completion) :=
  (classifier.lookUpAll blake3 batch cache).pendingRows.zip (classifier.model.complete
    ((classifier.lookUpAll blake3 batch cache).pendingRows.map (classifier.request json)))

theorem missing_nodup (cache : C) (text : String) (conditions : List String) :
    (classifier.missing blake3 cache text 0 conditions).Nodup := by
  have numbered : ((classifier.missing blake3 cache text 0 conditions).map id).Nodup := by
    apply Numbered.nodup_collect
    intro branch condition picked picks
    exact (Option.some.inj (Option.ite_none_right_eq_some.mp picks).2).symm
  rwa [List.map_id] at numbered

/-- The rows that wait, wait for branches that there are, once each. -/
theorem pendingRows_sound (reads : ReadsTexts classifier.text texts batch) {pendingRow : PendingRow}
    (member : pendingRow ∈ (classifier.lookUpAll blake3 batch cache).pendingRows) :
    pendingRow.text ∈ texts ∧ pendingRow.pending.Nodup ∧
      ∀ branch ∈ pendingRow.pending, branch < classifier.conditions.length := by
  obtain ⟨row, at_, -, sends, pending⟩ := classifier.mem_pendingRows blake3 member
  refine ⟨reads row (List.mem_of_getElem? at_) _ sends, ?_, ?_⟩
  · rw [pending]
    exact missing_nodup cache _ _
  · intro branch waits
    rw [pending] at waits
    obtain ⟨condition, there, -⟩ := (classifier.mem_missing blake3).mp waits
    exact (List.getElem?_eq_some_iff.mp there).1

theorem rowAnswers_nodup :
    ((rowAnswers blake3 json classifier cache batch).map (·.1.row)).Nodup := by
  apply Numbered.nodup_zip
  rw [(classifier.lookUpAll_spec blake3 batch cache).2.1]
  apply Numbered.nodup_collect
  intro place row picked picks
  unfold Classifier.waits at picks
  split at picks
  · obtain ⟨-, same⟩ := Option.ite_none_left_eq_some.mp picks
    rw [← Option.some.inj same]
  · cases picks

variable (blake3 cache) in
/-- Each answer reads as the verdicts that its row waits for. -/
theorem answered_told (reads : ReadsTexts classifier.text texts batch)
    (answers : ClassifierAnswers json verdict classifier texts) :
    List.Forall₂ (fun row answer => answered json row.pending.length answer =
        row.pending.map fun branch => verdict row.text (classifier.conditions.getD branch ""))
      (classifier.lookUpAll blake3 batch cache).pendingRows (classifier.model.complete
        ((classifier.lookUpAll blake3 batch cache).pendingRows.map (classifier.request json))) :=
  answers _ fun _ member => pendingRows_sound reads member

/-- An answer to a row that waits. -/
theorem told_of_mem (reads : ReadsTexts classifier.text texts batch)
    (answers : ClassifierAnswers json verdict classifier texts)
    {answer : PendingRow × Except ε Completion}
    (among : answer ∈ rowAnswers blake3 json classifier cache batch) :
    answered json answer.1.pending.length answer.2 = answer.1.pending.map fun branch =>
      verdict answer.1.text (classifier.conditions.getD branch "") :=
  (List.forall₂_iff_zip.mp (answered_told blake3 cache reads answers)).2 among

theorem exists_rowAnswer (reads : ReadsTexts classifier.text texts batch)
    (answers : ClassifierAnswers json verdict classifier texts) {pendingRow : PendingRow}
    (waits : pendingRow ∈ (classifier.lookUpAll blake3 batch cache).pendingRows) :
    ∃ answer ∈ rowAnswers blake3 json classifier cache batch, answer.1 = pendingRow := by
  have lengths := (answered_told blake3 cache reads answers).length_eq
  obtain ⟨place, placed⟩ := List.getElem?_of_mem waits
  obtain ⟨inside, -⟩ := List.getElem?_eq_some_iff.mp placed
  exact ⟨(pendingRow, _), List.mem_of_getElem? (List.getElem?_zip_eq_some.mpr
    ⟨placed, List.getElem?_eq_getElem (lengths ▸ inside)⟩), rfl⟩

variable (verdict) in
/-- A row that the model is asked about has no verdict before. -/
theorem verdictAt_of_waits {pendingRow : PendingRow}
    (member : pendingRow ∈ (classifier.lookUpAll blake3 batch cache).pendingRows) {branch : Nat}
    (waits : branch ∈ pendingRow.pending) :
    verdictAt (classifier.lookUpAll blake3 batch cache).verdicts pendingRow.row branch =
        some none ∧
      ∃ row, batch[pendingRow.row]? = some row ∧ (toldOf verdict classifier row)[branch]? =
        some (verdict pendingRow.text (classifier.conditions.getD branch "")) := by
  obtain ⟨row, at_, admits, sends, pending⟩ := classifier.mem_pendingRows blake3 member
  rw [pending] at waits
  obtain ⟨condition, there, unknown⟩ := (classifier.mem_missing blake3).mp waits
  constructor
  · rw [(classifier.lookUpAll_spec blake3 batch cache).1, verdictAt, List.getElem?_map, at_,
      Option.map_some, Option.bind_some, Classifier.rowVerdicts, admits, sends]
    dsimp only
    rw [List.getElem?_map, there, Option.map_some, unknown]
  · refine ⟨row, at_, ?_⟩
    rw [toldOf, admits, sends]
    dsimp only
    rw [List.getElem?_map, there, Option.map_some, List.getD_eq_getElem?_getD, there,
      Option.getD_some]

theorem CacheTells.known (tells : CacheTells blake3 classifier.model.id verdict questions cache)
    {condition text : String} (asked : (condition, text) ∈ questions) {matched : Bool}
    (known : classifier.known blake3 cache text condition = some matched) :
    verdict text condition = some matched := by
  rcases Option.or_eq_some_iff.mp known with own | ⟨-, verified⟩
  · unfold Classifier.cacheKey at own
    by_cases one : classifier.conditions.length = 1
    · rw [if_pos one] at own
      exact tells _ asked _ List.mem_cons_self _ own
    · rw [if_neg one] at own
      exact tells _ asked _ (by simp [fullTextPrompts]) _ own
  · exact tells _ asked _ List.mem_cons_self _ verified

/-- What a row does not wait for, the lookups have found. -/
theorem verdictAt_of_found (within : ∀ condition ∈ classifier.conditions, ∀ text ∈ texts,
      (condition, text) ∈ questions)
    (reads : ReadsTexts classifier.text texts batch)
    (tells : CacheTells blake3 classifier.model.id verdict questions cache) {place branch : Nat}
    {row : ρ} (at_ : batch[place]? = some row)
    (found : ∀ pendingRow ∈ (classifier.lookUpAll blake3 batch cache).pendingRows,
      place = pendingRow.row → branch ∉ pendingRow.pending) :
    verdictAt (classifier.lookUpAll blake3 batch cache).verdicts place branch =
      (toldOf verdict classifier row)[branch]? := by
  rw [(classifier.lookUpAll_spec blake3 batch cache).1, verdictAt, List.getElem?_map, at_,
    Option.map_some, Option.bind_some]
  unfold toldOf Classifier.rowVerdicts
  cases admits : guardAllows classifier.guard row with
  | false => rfl
  | true =>
    cases sends : classifier.text row with
    | none => rfl
    | some text =>
      dsimp only
      rw [List.getElem?_map, List.getElem?_map]
      cases there : classifier.conditions[branch]? with
      | none => rfl
      | some condition =>
        rw [Option.map_some, Option.map_some]
        cases known : classifier.known blake3 cache text condition with
        | some matched =>
          rw [tells.known (within condition (List.mem_of_getElem? there) text
            (reads row (List.mem_of_getElem? at_) _ sends)) known]
        | none =>
          have missing : branch ∈ classifier.missing blake3 cache text 0 classifier.conditions :=
            (classifier.mem_missing blake3).mpr ⟨condition, there, known⟩
          refine absurd missing (found
            ⟨place, text, classifier.missing blake3 cache text 0 classifier.conditions⟩ ?_ rfl)
          rw [(classifier.lookUpAll_spec blake3 batch cache).2.1]
          refine Numbered.mem_collect.mpr ⟨place, row, at_, ?_⟩
          unfold Classifier.waits
          rw [admits, sends]
          simp [List.ne_nil_of_mem missing]

/-- A row gets the verdicts on its text. -/
theorem verdictAt_told (within : ∀ condition ∈ classifier.conditions, ∀ text ∈ texts,
      (condition, text) ∈ questions)
    (reads : ReadsTexts classifier.text texts batch)
    (answers : ClassifierAnswers json verdict classifier texts)
    (tells : CacheTells blake3 classifier.model.id verdict questions cache) {place : Nat} {row : ρ}
    (at_ : batch[place]? = some row) (branch : Nat) :
    verdictAt (classifier.classifyBatch blake3 json batch cache).verdicts place branch =
      (toldOf verdict classifier row)[branch]? := by
  change verdictAt ((rowAnswers blake3 json classifier cache batch).foldl
    (classifier.applyAnswer blake3 json) (classifier.lookUpAll blake3 batch cache)).verdicts
      place branch = _
  by_cases asked : ∃ pendingRow ∈ (classifier.lookUpAll blake3 batch cache).pendingRows,
      place = pendingRow.row ∧ branch ∈ pendingRow.pending
  · obtain ⟨pendingRow, member, rfl, waits⟩ := asked
    obtain ⟨before, row', at_', told⟩ := verdictAt_of_waits verdict member waits
    rw [at_, Option.some.injEq] at at_'
    subst at_'
    obtain ⟨answer, among, rfl⟩ := exists_rowAnswer reads answers member
    rw [told]
    apply foldl_applyAnswer_told rowAnswers_nodup among (pendingRows_sound reads member).2.1 _
      before
    rw [told_of_mem reads answers among, ← List.map_prod_left_eq_zip]
    exact List.mem_map.mpr ⟨branch, waits, rfl⟩
  · simp only [not_exists, not_and] at asked
    rw [(classifier.foldl_applyAnswer_spec blake3 json (classifier.lookUpAll blake3 batch cache)
      (rowAnswers blake3 json classifier cache batch)).2.2 place branch
        fun answer among => asked answer.1 (List.of_mem_zip among).1]
    exact verdictAt_of_found within reads tells at_ asked

/-- What a batch puts are verdicts. -/
theorem answerEntries_told (within : ∀ condition ∈ classifier.conditions, ∀ text ∈ texts,
      (condition, text) ∈ questions)
    (reads : ReadsTexts classifier.text texts batch)
    (answers : ClassifierAnswers json verdict classifier texts)
    {answer : PendingRow × Except ε Completion}
    (among : answer ∈ rowAnswers blake3 json classifier cache batch)
    {entry : CacheKey × CachedValue} (put : entry ∈ classifier.answerEntries blake3 json answer) :
    IsVerdict blake3 classifier.model.id verdict questions entry := by
  have waits := (List.of_mem_zip among).1
  obtain ⟨read, -, within_⟩ := pendingRows_sound reads waits
  have told := told_of_mem reads answers among
  unfold Classifier.answerEntries at put
  unfold answered at told
  cases result : answer.2 with
  | error => simp [result] at put
  | ok completion =>
    rw [result] at told put
    dsimp only at told put
    split at put
    · cases put
    · rw [told, ← List.map_prod_left_eq_zip] at put
      obtain ⟨decoded, zipped, put⟩ := List.mem_filterMap.mp put
      obtain ⟨branch, waited, rfl⟩ := List.mem_map.mp zipped
      obtain ⟨matched, usable, rfl⟩ := Option.map_eq_some_iff.mp put
      have known : classifier.conditions.getD branch "" ∈ classifier.conditions := by
        rw [List.getD_eq_getElem?_getD, List.getElem?_eq_getElem (within_ branch waited),
          Option.getD_some]
        exact List.getElem_mem _
      by_cases one : answer.1.pending.length = 1
      · refine ⟨(_, answer.1.text), within _ known _ read, meansPromptVersion,
          List.mem_cons_self, matched, usable, ?_⟩
        rw [Classifier.cacheKey, if_pos one]
      · refine ⟨(_, answer.1.text), within _ known _ read, classifyPromptVersion,
          by simp [fullTextPrompts], matched, usable, ?_⟩
        rw [Classifier.cacheKey, if_neg one]

/-- A batch gets the verdicts on its rows, and the cache keeps to the verdicts. -/
theorem classifyBatch_told (within : ∀ condition ∈ classifier.conditions, ∀ text ∈ texts,
      (condition, text) ∈ questions)
    (reads : ReadsTexts classifier.text texts batch)
    (answers : ClassifierAnswers json verdict classifier texts)
    (apart : KeysApart C blake3 classifier.model.id questions)
    (tells : CacheTells blake3 classifier.model.id verdict questions cache) :
    (classifier.classifyBatch blake3 json batch cache).verdicts =
        batch.map (toldOf verdict classifier) ∧
      CacheTells blake3 classifier.model.id verdict questions
        (classifier.classifyBatch blake3 json batch cache).cache := by
  constructor
  · apply List.ext_getElem?
    intro place
    have long : (classifier.classifyBatch blake3 json batch cache).verdicts.length =
        batch.length := by
      refine (length_foldl_applyAnswer blake3 _ _).trans ?_
      rw [(classifier.lookUpAll_spec blake3 batch cache).1, List.length_map]
    rw [List.getElem?_map]
    cases at_ : batch[place]? with
    | none =>
      rw [List.getElem?_eq_none_iff] at at_
      exact List.getElem?_eq_none_iff.mpr (long ▸ at_)
    | some row =>
      obtain ⟨inside, -⟩ := List.getElem?_eq_some_iff.mp at_
      obtain ⟨verdicts, there⟩ : ∃ verdicts,
          (classifier.classifyBatch blake3 json batch cache).verdicts[place]? = some verdicts :=
        ⟨_, List.getElem?_eq_getElem (long ▸ inside)⟩
      rw [there, Option.map_some, Option.some.injEq]
      apply List.ext_getElem?
      intro branch
      have told := verdictAt_told within reads answers tells at_ branch
      rwa [verdictAt, there, Option.bind_some] at told
  · rw [show (classifier.classifyBatch blake3 json batch cache).cache = _ from
      (classifier.foldl_applyAnswer_spec blake3 json (classifier.lookUpAll blake3 batch cache)
        (rowAnswers blake3 json classifier cache batch)).1]
    refine CacheTells.putAll (tells.congr (classifier.lookUpAll_spec blake3 batch cache).2.2)
      apart ?_
    intro entry put
    obtain ⟨answer, among, put⟩ := List.mem_flatMap.mp put
    exact answerEntries_told within reads answers among put

/-- A stream of batches. -/
theorem executeClassify_told {F D : Type} {json : Text F}
    {classifier : Classifier (List (ScalarValue F D)) ε}
    {batches : List (List (List (ScalarValue F D)))}
    (within : ∀ condition ∈ classifier.conditions, ∀ text ∈ texts, (condition, text) ∈ questions)
    (reads : ReadsTexts classifier.text texts batches.flatten)
    (answers : ClassifierAnswers json verdict classifier texts)
    (apart : KeysApart C blake3 classifier.model.id questions)
    (tells : CacheTells blake3 classifier.model.id verdict questions cache) :
    (executeClassify blake3 json classifier batches cache).1 =
        batches.map (List.map fun row => labelled row (toldOf verdict classifier row)) ∧
      CacheTells blake3 classifier.model.id verdict questions
        (executeClassify blake3 json classifier batches cache).2 := by
  induction batches generalizing cache with
  | nil => exact ⟨rfl, tells⟩
  | cons batch rest ih =>
    rw [List.flatten_cons] at reads
    obtain ⟨labels, after⟩ := classifyBatch_told within
      (fun row member => reads row (List.mem_append_left _ member)) answers apart tells
    obtain ⟨later, final⟩ := ih (fun row member => reads row (List.mem_append_right _ member)) after
    refine ⟨?_, final⟩
    rw [executeClassify, labels, later, List.map_cons, List.zipWith_map_right]
    simp

end Classify

/-! ## The nodes -/

section Nodes

variable {F D O : Type} {ε : Type*} {interp : Interpretation F D O}
  {model : ModelProvider ε} {texts : List String} {cache : C}

theorem satisfies_planFilter (schema : Schema) (text : Expr F D O) (condition : String)
    (row : List (ScalarValue F D)) :
    satisfies interp.verdict (planFilter interp schema model text condition) row =
      (interp.label (text.eval interp (schema.read row)) condition == some true) := by
  change (((textOf interp schema text row).bind fun text => interp.verdict text condition) ==
    some true) = _
  unfold textOf Interpretation.label
  cases interp.castUtf8 (text.eval interp (schema.read row)) <;> rfl

theorem guardAllows_planClassify (schema : Schema) (guard : Option (Expr F D O))
    (row : List (ScalarValue F D)) :
    guardAllows (guard.map (guardOf interp schema)) row =
      LogicalPlan.admits interp (schema.read row) guard := by
  cases guard with
  | none => rfl
  | some guard =>
    change (guardOf interp schema guard row == some true) =
      (guard.eval interp (schema.read row)).isTrue
    unfold guardOf
    cases guard.eval interp (schema.read row) with
    | boolean value => rcases value with _ | _ | _ <;> rfl
    | string | float64 | other => rfl

theorem labelled_planClassify (schema : Schema) (text : Expr F D O) (conditions : List String)
    (guard : Option (Expr F D O)) (row : List (ScalarValue F D)) :
    labelled row (toldOf interp.verdict (planClassify interp schema model text conditions guard)
        row) =
      row ++ LogicalPlan.labels interp (schema.read row) text conditions guard := by
  have admitted : guardAllows
        (planClassify interp schema model text conditions guard).guard row =
      LogicalPlan.admits interp (schema.read row) guard := guardAllows_planClassify schema guard row
  have sent : (planClassify interp schema model text conditions guard).text row =
      interp.castUtf8 (text.eval interp (schema.read row)) := rfl
  unfold labelled toldOf LogicalPlan.labels Interpretation.label
  rw [admitted, sent]
  congr 1
  cases LogicalPlan.admits interp (schema.read row) guard with
  | false => simp [planClassify]
  | true => cases interp.castUtf8 (text.eval interp (schema.read row)) <;> simp [planClassify]

variable [Rendering F D O]

/-- The verify stage of a `SemFilter` node gives the rows of the node. -/
theorem executeVerify_rows {input : LogicalPlan F D O} {text : Expr F D O} {condition : String}
    (recallTarget confidence : Option F) {batches : List (List (List (ScalarValue F D)))}
    (whole : batches.flatten = input.rows interp)
    (reads : ReadsTexts (textOf interp input.schema text) texts (input.rows interp))
    (answers : ModelAnswers condition (interp.verdict · condition) model texts)
    (within : ∀ sent ∈ texts, (condition, sent) ∈ questions)
    (apart : KeysApart C blake3 model.id questions)
    (tells : CacheTells blake3 model.id interp.verdict questions cache) :
    let ran := executeVerify blake3 (planFilter interp input.schema model text condition) batches
      cache
    ran.1.flatten = (LogicalPlan.semFilter input text condition recallTarget confidence).rows
        interp ∧
      CacheTells blake3 model.id interp.verdict questions ran.2 := by
  have alone : (planFilter interp input.schema model text condition).evidence = none := rfl
  obtain ⟨kept, after⟩ := executeVerify_told alone (whole ▸ reads) answers within apart tells
  refine ⟨?_, after⟩
  rw [kept, ← List.filter_flatten, whole, LogicalPlan.rows]
  exact List.filter_congr fun row _ => satisfies_planFilter _ _ _ _

/-- The classify stage of a `SemClassify` node gives the rows of the node. -/
theorem executeClassify_rows {json : Text F} {input : LogicalPlan F D O} {text : Expr F D O}
    {conditions : List String} {guard : Option (Expr F D O)} (id : ℕ)
    {batches : List (List (List (ScalarValue F D)))} (whole : batches.flatten = input.rows interp)
    (reads : ReadsTexts (textOf interp input.schema text) texts (input.rows interp))
    (answers : ClassifierAnswers json interp.verdict
      (planClassify interp input.schema model text conditions guard) texts)
    (within : ∀ condition ∈ conditions, ∀ sent ∈ texts, (condition, sent) ∈ questions)
    (apart : KeysApart C blake3 model.id questions)
    (tells : CacheTells blake3 model.id interp.verdict questions cache) :
    let ran := executeClassify blake3 json
      (planClassify interp input.schema model text conditions guard) batches cache
    ran.1.flatten = (LogicalPlan.semClassify input text conditions guard id).rows interp ∧
      CacheTells blake3 model.id interp.verdict questions ran.2 := by
  obtain ⟨labels, after⟩ := executeClassify_told within (whole ▸ reads) answers apart tells
  refine ⟨?_, after⟩
  rw [labels, ← List.map_flatten, whole, LogicalPlan.rows]
  exact List.map_congr_left fun row _ => labelled_planClassify _ _ _ _ _

end Nodes

section Example

def noteBody : Logical.Column := .newUnqualified "body"

def noteRow (body : Option String) : List (ScalarValue ℕ Unit) :=
  [.string .utf8 body]

def notesTable : Table ℕ Unit where
  schema := [noteBody]
  rows := [noteRow (some "a refund"), noteRow (some "thanks"), noteRow none]
  unambiguous := by decide
  aligned := by decide

def notesPlan : LogicalPlan ℕ Unit String :=
  .other "" [] notesTable

def refundAsked (text _condition : String) : Option Bool :=
  some (text == "a refund")

/-- A model that reads the texts as `refundAsked` does. -/
def refundModel : ModelProvider Unit where
  id := ⟨"haiku"⟩
  complete requests := requests.map fun request =>
    .ok ⟨if request.input == "a refund" then "yes" else "no", 0, 0⟩

def refundTexts : List String :=
  ["a refund", "thanks"]

def refundQuestions : List (String × String) :=
  refundTexts.map ("wants money", ·)

/-- Two batches, and a cache with nothing in it. -/
example :
    (executeVerify id (planFilter (plainInterpretation refundAsked) notesPlan.schema refundModel
        (.column noteBody) "wants money")
      [[noteRow (some "a refund")], [noteRow (some "thanks"), noteRow none]]
      InMemoryCache.default).1.flatten =
        (LogicalPlan.semFilter notesPlan (.column noteBody) "wants money" none
          none).rows (plainInterpretation refundAsked) := by
  have answers : ModelAnswers "wants money" (refundAsked · "wants money") refundModel
      refundTexts := by
    intro batch _
    simp only [refundModel, List.map_map]
    refine List.map_congr_left fun text _ => ?_
    by_cases same : text = "a refund"
    · subst same
      decide +kernel
    · have other : (text == "a refund") = false := beq_eq_false_iff_ne.mpr same
      simp only [Function.comp_apply, labelRequest, refundAsked, other]
      decide +kernel
  have distinct : ∀ question ∈ refundQuestions, ∀ other ∈ refundQuestions,
      ∀ version ∈ fullTextPrompts, ∀ version' ∈ fullTextPrompts,
        meansCacheKey id question.1 question.2 refundModel.id version =
          meansCacheKey id other.1 other.2 refundModel.id version' → question = other := by
    decide +kernel
  have apart : KeysApart InMemoryCache id refundModel.id
      {question | question ∈ refundQuestions} := distinct
  have tells : CacheTells id refundModel.id (plainInterpretation refundAsked).verdict
      {question | question ∈ refundQuestions} InMemoryCache.default := by
    intro question _ version _ matched found
    cases found
  refine (executeVerify_rows none none ?_ ?_ answers ?_ apart tells).1
  · rfl
  · unfold ReadsTexts
    decide
  · exact fun sent among => List.mem_map_of_mem among

end Example

end Semcast.Planner
