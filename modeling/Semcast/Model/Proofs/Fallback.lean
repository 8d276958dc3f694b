import Mathlib.Logic.Function.Basic
import Semcast.Model.Fallback

/-!
# What a chain of providers answers

Every request is asked down the chain until a model answers it. The models are asked
about what is left in shrinking batches, and the answers come back to the slots of their
requests.
-/

namespace Semcast.Model

universe u

theorem length_resizeWith {α : Type u} (count : ℕ) (filler : α) (items : List α) :
    (resizeWith count filler items).length = count := by
  rw [resizeWith, List.length_append, List.length_take, List.length_replicate]
  omega

/-- The first success of some results, or the last of them. -/
def firstOk {ε α : Type*} : List (Except ε α) → Option (Except ε α)
  | [] => none
  | [result] => some result
  | result :: rest => if result.isOk then some result else firstOk rest

namespace FallbackProvider

variable {ε : Type u} {modelError : String → ε} {requests : List CompletionRequest}

theorem length_outcomesOf (model : ModelProvider ε) (batch : List CompletionRequest) :
    (outcomesOf modelError model batch).length = batch.length := by
  unfold outcomesOf
  dsimp only
  by_cases wrong : (model.complete batch).length ≠ batch.length
  · rw [if_pos wrong, length_resizeWith]
  · rw [if_neg wrong]
    exact not_not.mp wrong

theorem outcomesOf_eq {model : ModelProvider ε} {batch : List CompletionRequest}
    (kept : (model.complete batch).length = batch.length) :
    outcomesOf modelError model batch = model.complete batch := by
  unfold outcomesOf
  dsimp only
  rw [if_neg (not_not.mpr kept)]

section Slots

variable {n : ℕ} {slot : Fin n}

theorem set_finRange (f : Fin n → Option (Except ε Completion))
    (value : Option (Except ε Completion)) :
    ((List.finRange n).map f).set slot value =
      (List.finRange n).map (Function.update f slot value) := by
  apply List.ext_getElem
  · simp
  · intro index within within'
    simp only [List.getElem_set, List.getElem_map, List.getElem_finRange, Function.update_apply]
    have there : index < n := by simpa using within'
    by_cases same : (slot : ℕ) = index
    · rw [if_pos same, if_pos (Fin.ext same.symm)]
    · rw [if_neg same, if_neg fun equal => same (congrArg Fin.val equal).symm]

theorem placeOutcome_eq (last : Bool) (result : Except ε Completion)
    (f : Fin n → Option (Except ε Completion)) (still : List (Fin n)) :
    placeOutcome last ((List.finRange n).map f, still) (slot, result) =
      if last = true ∨ result.isOk = true then
        ((List.finRange n).map (Function.update f slot (some result)), still)
      else ((List.finRange n).map f, still ++ [slot]) := by
  cases result with
  | ok completion => simp [placeOutcome, set_finRange, Except.isOk, Except.toBool]
  | error error => cases last <;> simp [placeOutcome, set_finRange, Except.isOk, Except.toBool]

/-- A round fills the slots of the answered requests and keeps the others pending. -/
theorem foldl_placeOutcome (last : Bool) (outcome : Fin n → Except ε Completion)
    {pending : List (Fin n)} (distinct : pending.Nodup)
    (f : Fin n → Option (Except ε Completion)) (still : List (Fin n)) :
    (pending.map fun slot => (slot, outcome slot)).foldl (placeOutcome last)
        ((List.finRange n).map f, still) =
      ((List.finRange n).map fun slot =>
        if slot ∈ pending ∧ (last = true ∨ (outcome slot).isOk = true) then some (outcome slot)
        else f slot,
      still ++ pending.filter fun slot => !last && !(outcome slot).isOk) := by
  induction pending generalizing f still with
  | nil => simp
  | cons first rest ih =>
    obtain ⟨new, distinct⟩ := List.nodup_cons.mp distinct
    rw [List.map_cons, List.foldl_cons, placeOutcome_eq, List.filter_cons]
    by_cases placed : last = true ∨ (outcome first).isOk = true
    · have dropped : (!last && !(outcome first).isOk) = false := by
        rcases placed with last | answered
        · simp [last]
        · simp [answered]
      rw [if_pos placed, ih distinct, dropped, if_neg (by simp)]
      congr 1
      apply List.map_congr_left
      intro slot _
      by_cases same : slot = first
      · subst same
        simp [new, placed]
      · simp [same]
    · have kept : (!last && !(outcome first).isOk) = true := by simpa using placed
      rw [if_neg placed, ih distinct, kept, if_pos rfl, List.append_assoc, List.singleton_append]
      congr 1
      apply List.map_congr_left
      intro slot _
      by_cases same : slot = first
      · subst same
        simp [new, placed]
      · simp [same]

end Slots

section Chain

variable (modelError requests)

/-- What a model answers to one of the requests it is sent. -/
def answerTo (model : ModelProvider ε) (pending : List (Fin requests.length))
    (slot : Fin requests.length) : Except ε Completion :=
  (outcomesOf modelError model (pending.map requests.get)).getD (pending.idxOf slot)
    (.error (modelError ""))

/-- The requests that each model is sent: those that every model before it failed. -/
def askedBy : List (ModelProvider ε) → List (Fin requests.length) →
    List (List (Fin requests.length))
  | [], _ => []
  | model :: rest, pending =>
    pending :: askedBy rest
      (pending.filter fun slot => !(answerTo modelError requests model pending slot).isOk)

/-- The answers to one request along the chain. -/
def answersAlong : List (ModelProvider ε) → List (Fin requests.length) →
    Fin requests.length → List (Except ε Completion)
  | [], _, _ => []
  | model :: rest, pending, slot =>
    answerTo modelError requests model pending slot :: answersAlong rest
      (pending.filter fun slot => !(answerTo modelError requests model pending slot).isOk) slot

variable {modelError requests}

theorem outcomesOf_pending (model : ModelProvider ε) {pending : List (Fin requests.length)}
    (distinct : pending.Nodup) :
    outcomesOf modelError model (pending.map requests.get) =
      pending.map (answerTo modelError requests model pending) := by
  apply List.ext_getElem
  · rw [length_outcomesOf, List.length_map, List.length_map]
  · intro index within within'
    have there : index < (outcomesOf modelError model (pending.map requests.get)).length := within
    rw [List.getElem_map, answerTo, distinct.idxOf_getElem, List.getD_eq_getElem?_getD,
      List.getElem?_eq_getElem there, Option.getD_some]

theorem askModel_eq (model : ModelProvider ε) (last : Bool)
    {pending : List (Fin requests.length)} (distinct : pending.Nodup)
    (f : Fin requests.length → Option (Except ε Completion)) (sent : List (List CompletionRequest)) :
    askModel modelError requests model last ⟨(List.finRange requests.length).map f, pending, sent⟩ =
      ⟨(List.finRange requests.length).map fun slot =>
          if slot ∈ pending ∧
              (last = true ∨ (answerTo modelError requests model pending slot).isOk = true) then
            some (answerTo modelError requests model pending slot)
          else f slot,
        pending.filter fun slot =>
          !last && !(answerTo modelError requests model pending slot).isOk,
        sent ++ [pending.map requests.get]⟩ := by
  have paired : pending.zip (pending.map (answerTo modelError requests model pending)) =
      pending.map fun slot => (slot, answerTo modelError requests model pending slot) := by
    have same := @List.zip_map' _ _ _ (fun slot => slot) (answerTo modelError requests model pending) pending
    rwa [List.map_id'] at same
  simp only [askModel, outcomesOf_pending model distinct, paired, foldl_placeOutcome last _ distinct,
    List.nil_append]

/-- The chain gives each pending request its first success, and sends each model what
is left. -/
theorem askModels_eq (models : List (ModelProvider ε)) {pending : List (Fin requests.length)}
    (distinct : pending.Nodup) (f : Fin requests.length → Option (Except ε Completion))
    (empty : ∀ slot ∈ pending, f slot = none) (sent : List (List CompletionRequest)) :
    let state := askModels modelError requests models
      ⟨(List.finRange requests.length).map f, pending, sent⟩
    state.slots = ((List.finRange requests.length).map fun slot =>
      if slot ∈ pending then firstOk (answersAlong modelError requests models pending slot)
      else f slot) ∧
    state.sent = sent ++ ((askedBy modelError requests models pending).takeWhile
      fun asked => !asked.isEmpty).map fun asked => asked.map requests.get := by
  induction models generalizing pending f sent with
  | nil =>
    refine ⟨List.map_congr_left fun slot _ => ?_, by simp [askModels, askedBy]⟩
    by_cases waiting : slot ∈ pending
    · rw [if_pos waiting, empty slot waiting, answersAlong, firstOk]
    · rw [if_neg waiting]
  | cons model rest ih =>
    by_cases done : pending = []
    · subst done
      simp [askModels, askedBy]
    have asks : pending.isEmpty = false := by simpa using done
    simp only [askModels, asks, Bool.false_eq_true, if_false, askModel_eq model _ distinct,
      askedBy, List.takeWhile_cons, Bool.not_false, if_true, List.map_cons]
    cases rest with
    | nil =>
      refine ⟨List.map_congr_left fun slot _ => ?_, by simp [askModels, askedBy]⟩
      simp [answersAlong, firstOk]
    | cons next others =>
      have still : ∀ slot ∈ pending.filter fun slot =>
          !(answerTo modelError requests model pending slot).isOk,
          (if slot ∈ pending ∧ (answerTo modelError requests model pending slot).isOk = true then
            some (answerTo modelError requests model pending slot) else f slot) = none := by
        intro slot waiting
        obtain ⟨waiting, failed⟩ := List.mem_filter.mp waiting
        rw [if_neg (by simpa using fun _ => failed), empty slot waiting]
      have later := ih (distinct.filter _) _ still (sent ++ [pending.map requests.get])
      simp only [List.isEmpty_cons, Bool.not_false, Bool.true_and, Bool.false_eq_true, false_or]
      refine ⟨later.1.trans (List.map_congr_left fun slot _ => ?_), ?_⟩
      · by_cases waiting : slot ∈ pending
        · by_cases answered : (answerTo modelError requests model pending slot).isOk = true
          · simp [waiting, answered, answersAlong, firstOk]
          · simp [waiting, answered, answersAlong, firstOk]
        · simp [waiting]
      · rw [later.2, List.append_assoc, List.singleton_append]

theorem length_answersAlong (models : List (ModelProvider ε))
    (pending : List (Fin requests.length)) (slot : Fin requests.length) :
    (answersAlong modelError requests models pending slot).length = models.length := by
  induction models generalizing pending with
  | nil => rfl
  | cons model rest ih => rw [answersAlong, List.length_cons, List.length_cons, ih]

theorem firstOk_isSome {results : List (Except ε Completion)} (asked : results ≠ []) :
    (firstOk results).isSome = true := by
  induction results with
  | nil => exact absurd rfl asked
  | cons result rest ih =>
    cases rest with
    | nil => rfl
    | cons next others =>
      by_cases answered : result.isOk = true
      · simp [firstOk, answered]
      · simpa [firstOk, answered] using ih

/-- A model is asked about the requests that every model before it failed. -/
theorem askedBy_eq (models : List (ModelProvider ε)) (pending : List (Fin requests.length)) :
    askedBy modelError requests models pending = (List.range models.length).map fun rank =>
      pending.filter fun slot =>
        ((answersAlong modelError requests models pending slot).take rank).all (!·.isOk) := by
  induction models generalizing pending with
  | nil => rfl
  | cons model rest ih =>
    rw [askedBy, ih, List.length_cons, List.range_succ_eq_map, List.map_cons, List.map_map]
    congr 1
    · simp
    · apply List.map_congr_left
      intro rank _
      rw [List.filter_filter]
      apply List.filter_congr
      intro slot _
      simp [answersAlong, Bool.and_comm]

theorem outcomesOf_askedBy {models : List (ModelProvider ε)}
    {pending : List (Fin requests.length)} (distinct : pending.Nodup) {rank : ℕ}
    {model : ModelProvider ε} (here : models[rank]? = some model)
    {asked : List (Fin requests.length)}
    (batch : (askedBy modelError requests models pending)[rank]? = some asked) :
    (outcomesOf modelError model (asked.map requests.get)).map some =
      asked.map fun slot => (answersAlong modelError requests models pending slot)[rank]? := by
  induction models generalizing pending rank with
  | nil => simp at here
  | cons first rest ih =>
    cases rank with
    | zero =>
      cases Option.some.inj here
      cases Option.some.inj batch
      rw [outcomesOf_pending model distinct, List.map_map]
      rfl
    | succ rank => exact ih (distinct.filter _) here batch

end Chain

/-- The requests whose first `rank` answers are all failures, in request order. -/
def failedBefore {n : ℕ} (answers : Fin n → List (Except ε Completion)) (rank : ℕ) :
    List (Fin n) :=
  (List.finRange n).filter fun slot => ((answers slot).take rank).all (!·.isOk)

/-- Every request gets one result in its own place, the first success among its answers
along the chain or else the last failure; and each model is sent the requests that every
earlier model failed, in order, until none is left. -/
theorem complete_spec (modelError : String → ε) (requests : List CompletionRequest)
    (provider : FallbackProvider ε) :
    (complete modelError requests provider).results.length = requests.length ∧
    ∃ answers : Fin requests.length → List (Except ε Completion),
      (∀ slot, (answers slot).length = provider.models.length) ∧
      (∀ rank model, provider.models[rank]? = some model →
        let batch := (failedBefore answers rank).map requests.get
        (outcomesOf modelError model batch).map some =
          (failedBefore answers rank).map (fun slot => (answers slot)[rank]?) ∧
        ((model.complete batch).length = batch.length →
          outcomesOf modelError model batch = model.complete batch)) ∧
      (complete modelError requests provider).results.map some =
        (List.finRange requests.length).map (fun slot => firstOk (answers slot)) ∧
      (complete modelError requests provider).sent =
        ((List.range provider.models.length).map fun rank =>
          (failedBefore answers rank).map requests.get).takeWhile (!·.isEmpty) := by
  have distinct := List.nodup_finRange requests.length
  have start : List.replicate requests.length none =
      (List.finRange requests.length).map fun _ => (none : Option (Except ε Completion)) := by
    rw [List.map_const', List.length_finRange]
  obtain ⟨slots, sent⟩ := @askModels_eq ε modelError requests provider.models _ distinct
    (fun _ => none) (fun _ _ => rfl) []
  set answers := answersAlong modelError requests provider.models
    (List.finRange requests.length) with given
  have asked := @askedBy_eq ε modelError requests provider.models
    (List.finRange requests.length)
  have results : (complete modelError requests provider).results.map some =
      (List.finRange requests.length).map fun slot => firstOk (answers slot) := by
    rw [complete]
    dsimp only
    rw [start, slots, List.map_map, List.map_map]
    apply List.map_congr_left
    intro slot _
    have some : (firstOk (answers slot)).isSome = true := by
      apply firstOk_isSome
      rw [← List.length_pos_iff_ne_nil, given, length_answersAlong]
      exact List.length_pos_of_ne_nil provider.nonempty
    obtain ⟨result, is⟩ := Option.isSome_iff_exists.mp some
    simp [is]
  refine ⟨?_, answers, fun slot => length_answersAlong _ _ slot, ?_, results, ?_⟩
  · simpa using congrArg List.length results
  · intro rank model here
    refine ⟨?_, outcomesOf_eq⟩
    apply outcomesOf_askedBy distinct here
    have within : rank < provider.models.length := (List.getElem?_eq_some_iff.mp here).1
    rw [asked, List.getElem?_map, List.getElem?_range within]
    rfl
  · rw [complete]
    dsimp only
    rw [start, sent, List.nil_append, asked, List.takeWhile_map, List.takeWhile_map, List.map_map]
    simp [failedBefore, Function.comp_def, given]

end FallbackProvider

end Semcast.Model
