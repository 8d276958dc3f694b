import Semcast.Server.Proofs.Moves

/-!
# The life of a job

What holds of the registry, its lock and its files after every step of the server,
and what it says about the whole life of a job.
-/

namespace Semcast.Jobs

open Std ReplaceFile Run

variable {Counts Text : Type} {format : RecordFormat Counts Text} {render : Counts → String}

section Maps

variable {β : Type} {map : TreeMap String β} {key key' : String} {value : β}

theorem getElem?_insert_key :
    (map.insert key value)[key']? = if key = key' then some value else map[key']? := by
  rw [TreeMap.getElem?_insert]
  simp only [Std.compare_eq_iff_eq]

theorem mem_insert_key : key' ∈ map.insert key value ↔ key = key' ∨ key' ∈ map := by
  rw [TreeMap.mem_insert, Std.compare_eq_iff_eq]

theorem mem_erase_key : key' ∈ map.erase key ↔ key ≠ key' ∧ key' ∈ map := by
  rw [TreeMap.mem_erase, ne_eq, Std.compare_eq_iff_eq]

theorem getElem?_erase_key :
    (map.erase key)[key']? = if key = key' then none else map[key']? := by
  rw [TreeMap.getElem?_erase]
  simp only [Std.compare_eq_iff_eq]

theorem mem_of_getElem? (found : map[key]? = some value) : key ∈ map := by
  rw [TreeMap.mem_iff_isSome_getElem?, found]
  rfl

theorem exists_getElem? (member : key ∈ map) : ∃ value, map[key]? = some value := by
  rw [TreeMap.mem_iff_isSome_getElem?] at member
  exact Option.isSome_iff_exists.mp member

theorem filesAt_insert {dirs : JobDirs Text} {dir dir' : String} {files : Files Text} :
    filesAt (dirs.insert dir files) dir' = if dir = dir' then files else filesAt dirs dir' := by
  unfold filesAt
  rw [TreeMap.getD_insert]
  simp only [Std.compare_eq_iff_eq]

/-- Making a directory that has no files yet, or has some, changes no file. -/
theorem filesAt_insert_filesAt {dirs : JobDirs Text} {dir dir' : String} :
    filesAt (dirs.insert dir (filesAt dirs dir)) dir' = filesAt dirs dir' := by
  rw [filesAt_insert]
  by_cases same : dir = dir'
  · rw [if_pos same, same]
  · rw [if_neg same]

end Maps

/-! ## The invariant -/

/-- A job being created is not in memory yet. -/
def CreationsApart (registry : Registry Counts Text) : Prop :=
  ∀ id ∈ registry.creations, id ∉ registry.jobs

/-- A job being created is writing its record. -/
def CreationsWriting (format : RecordFormat Counts Text) (registry : Registry Counts Text) : Prop :=
  ∀ id creation, registry.creations[id]? = some creation →
    creation.record.Sound id ∧
      creation.replacement.new = format.toVecPretty creation.record ∧
      ∃ old, Coherent old creation.replacement (filesAt registry.dirs id)

/-- Every record in memory is sound. -/
def RecordsSound (registry : Registry Counts Text) : Prop :=
  ∀ (id : String) (entry : JobEntry Counts), registry.jobs[id]? = some entry →
    entry.record.Sound id

/-- A record that the holder of the lock is not writing is on disk as it is in memory. -/
def RecordsSettled (format : RecordFormat Counts Text) (registry : Registry Counts Text) : Prop :=
  ∀ id entry, registry.jobs[id]? = some entry →
    (∀ holder, registry.holder = some holder → holder.id ≠ id) →
    readRecord format (filesAt registry.dirs id) = some entry.record

/-- The holder of the lock replaces the record of its job by one that follows it. -/
def HolderWriting (format : RecordFormat Counts Text) (registry : Registry Counts Text)
    (holder : Holder Text) : Prop :=
  ∃ entry old before, registry.jobs[holder.id]? = some entry ∧
    holder.replacement.new = format.toVecPretty entry.record ∧
    Coherent before holder.replacement (filesAt registry.dirs holder.id) ∧
    before.bind format.fromStr = some old ∧ old.Follows entry.record ∧
    (holder.op = .start → entry.record.status = .running) ∧
    (∀ abort, holder.op = .cancel abort → entry.record.status = .cancelled)

def LockHeld (format : RecordFormat Counts Text) (registry : Registry Counts Text) : Prop :=
  ∀ holder, registry.holder = some holder → HolderWriting format registry holder

/-- Every job of which `cancel` has returned `Ok` is cancelled. -/
def CancelledKept (registry : Registry Counts Text) : Prop :=
  ∀ id ∈ registry.log.cancelled,
    ∃ entry, registry.jobs[id]? = some entry ∧ entry.record.status = .cancelled

structure Invariant (format : RecordFormat Counts Text) (registry : Registry Counts Text) :
    Prop where
  apart : CreationsApart registry
  writing : CreationsWriting format registry
  sound : RecordsSound registry
  settled : RecordsSettled format registry
  lock : LockHeld format registry
  cancelled : CancelledKept registry

variable {registry next : Registry Counts Text}

/-- A job whose record is written is none of those being created. -/
theorem Invariant.not_mem_creations (invariant : Invariant format registry) {id : String}
    {entry : JobEntry Counts} (found : registry.jobs[id]? = some entry) :
    id ∉ registry.creations :=
  fun creating => invariant.apart id creating (mem_of_getElem? found)

/-- What every record does when nothing happens to it. -/
theorem JobRecord.follows_self (record : JobRecord Counts) : record.Follows record :=
  ⟨fun _ sound => sound, fun _ => rfl, fun _ => rfl⟩

theorem readRecord_of_contents {files : Files Text} {record : JobRecord Counts}
    (contents : files.contents = some (format.toVecPretty record)) :
    readRecord format files = some record := by
  rw [readRecord, contents]
  exact format.fromStr_toVecPretty record

theorem JobRecord.Follows.trans {first second third : JobRecord Counts}
    (follows : first.Follows second) (follows' : second.Follows third) : first.Follows third := by
  refine ⟨fun id sound => follows'.sound id (follows.sound id sound), ?_, ?_⟩
  · intro terminal
    have status := follows.status terminal
    rw [follows'.status (by rw [status, terminal]), status]
  · intro terminal
    have status := follows.status terminal
    rw [follows'.result (by rw [status, terminal]), follows.result terminal]

variable [Inhabited Counts]

theorem creationsApart_move (invariant : Invariant format registry)
    (move : Move format render registry next) : CreationsApart next := by
  cases move with
  | create sql now fresh =>
    intro id member
    rcases mem_insert_key.mp member with rfl | member
    · exact fresh
    · exact invariant.apart id member
  | write id creation act replacement files found advanced =>
    intro id' member
    rcases mem_insert_key.mp member with rfl | member
    · exact invariant.apart id (mem_of_getElem? found)
    · exact invariant.apart id' member
  | insert id creation free found renamed =>
    intro id' member held
    obtain ⟨other, member⟩ := mem_erase_key.mp member
    rcases mem_insert_key.mp held with same | held
    · exact other same
    · exact invariant.apart id' member held
  | attach id entry free found =>
    intro id' member held
    rcases mem_insert_key.mp held with rfl | held
    · exact invariant.not_mem_creations found member
    · exact invariant.apart id' member held
  | store id op entry stored free found change =>
    intro id' member held
    rcases mem_insert_key.mp held with rfl | held
    · exact invariant.not_mem_creations found member
    · exact invariant.apart id' member held
  | _ => exact invariant.apart

theorem creationsWriting_move (invariant : Invariant format registry)
    (move : Move format render registry next) : CreationsWriting format next := by
  cases move with
  | create sql now fresh =>
    intro id creation found
    rw [getElem?_insert_key] at found
    rw [filesAt_insert_filesAt]
    by_cases same : jobId now registry.counter = id
    · rw [if_pos same, Option.some.injEq] at found
      subst found same
      exact ⟨JobRecord.sound_new _ sql now, rfl, _, coherent_begin _ _⟩
    · rw [if_neg same] at found
      exact invariant.writing id creation found
  | write id creation act replacement files found advanced =>
    intro id' creation' found'
    rw [getElem?_insert_key] at found'
    rw [filesAt_insert]
    by_cases same : id = id'
    · rw [if_pos same, Option.some.injEq] at found'
      rw [if_pos same]
      subst found' same
      obtain ⟨sound, new, old, coherent⟩ := invariant.writing id creation found
      exact ⟨sound, (advance_new advanced).trans new, old, coherent.advance advanced⟩
    · rw [if_neg same] at found'
      rw [if_neg same]
      exact invariant.writing id' creation' found'
  | insert id creation free found renamed =>
    intro id' creation' found'
    rw [getElem?_erase_key] at found'
    by_cases same : id = id'
    · simp [same] at found'
    · rw [if_neg same] at found'
      exact invariant.writing id' creation' found'
  | persist holder act replacement files held advanced =>
    intro id creation found
    obtain ⟨entry, -, -, job, -⟩ := invariant.lock holder held
    have other : holder.id ≠ id := by
      rintro rfl
      exact invariant.not_mem_creations job (mem_of_getElem? found)
    rw [filesAt_insert, if_neg other]
    exact invariant.writing id creation found
  | _ => exact invariant.writing

omit [Inhabited Counts] in
theorem recordsSound_insert (sound : RecordsSound registry) {id : String}
    {stored : JobEntry Counts} (own : stored.record.Sound id) (id' : String)
    (entry : JobEntry Counts) (found : (registry.jobs.insert id stored)[id']? = some entry) :
    entry.record.Sound id' := by
  rw [getElem?_insert_key] at found
  by_cases same : id = id'
  · rw [if_pos same, Option.some.injEq] at found
    subst found same
    exact own
  · rw [if_neg same] at found
    exact sound id' entry found

theorem recordsSound_move (invariant : Invariant format registry)
    (move : Move format render registry next) : RecordsSound next := by
  have sound := invariant.sound
  cases move with
  | insert id creation free found renamed =>
    exact recordsSound_insert sound (invariant.writing id creation found).1
  | attach id entry free found => exact recordsSound_insert sound (sound id entry found)
  | store id op entry stored free found change =>
    exact recordsSound_insert sound (change.follows.sound id (sound id entry found))
  | _ => exact sound

theorem recordsSettled_move (invariant : Invariant format registry)
    (move : Move format render registry next) : RecordsSettled format next := by
  cases move with
  | create sql now fresh =>
    intro id entry found others
    rw [filesAt_insert_filesAt]
    exact invariant.settled id entry found others
  | write id creation act replacement files found advanced =>
    intro id' entry found' others
    have other : id ≠ id' := by
      rintro rfl
      exact invariant.not_mem_creations found' (mem_of_getElem? found)
    rw [filesAt_insert, if_neg other]
    exact invariant.settled id' entry found' others
  | insert id creation free found renamed =>
    intro id' entry found' others
    rw [getElem?_insert_key] at found'
    by_cases same : id = id'
    · rw [if_pos same, Option.some.injEq] at found'
      subst found' same
      obtain ⟨-, new, old, coherent⟩ := invariant.writing id creation found
      exact readRecord_of_contents (by rw [coherent.contents_of_renamed renamed, new])
    · rw [if_neg same] at found'
      exact invariant.settled id' entry found' others
  | attach id entry free found =>
    intro id' entry' found' others
    rw [getElem?_insert_key] at found'
    by_cases same : id = id'
    · rw [if_pos same, Option.some.injEq] at found'
      subst found' same
      exact invariant.settled id entry found others
    · rw [if_neg same] at found'
      exact invariant.settled id' entry' found' others
  | store id op entry stored free found change =>
    intro id' entry' found' others
    rw [getElem?_insert_key] at found'
    by_cases same : id = id'
    · exact absurd same (others _ rfl)
    · rw [if_neg same] at found'
      exact invariant.settled id' entry' found' (by simp [free])
  | persist holder act replacement files held advanced =>
    intro id entry found others
    have other : holder.id ≠ id := others { holder with replacement } rfl
    rw [filesAt_insert, if_neg other]
    refine invariant.settled id entry found ?_
    intro holder' held'
    rw [held, Option.some.injEq] at held'
    exact held' ▸ other
  | release holder held renamed =>
    intro id entry found others
    by_cases same : holder.id = id
    · subst same
      obtain ⟨entry', old, before, found', new, coherent, -⟩ := invariant.lock holder held
      rw [found', Option.some.injEq] at found
      subst found
      exact readRecord_of_contents (by rw [coherent.contents_of_renamed renamed, new])
    · refine invariant.settled id entry found ?_
      intro holder' held'
      rw [held, Option.some.injEq] at held'
      exact held' ▸ same
  | _ => exact invariant.settled

theorem lockHeld_move (invariant : Invariant format registry)
    (move : Move format render registry next) : LockHeld format next := by
  cases move with
  | create sql now fresh =>
    intro holder held
    unfold HolderWriting
    rw [filesAt_insert_filesAt]
    exact invariant.lock holder held
  | write id creation act replacement files found advanced =>
    intro holder held
    obtain ⟨entry, old, before, job, rest⟩ := invariant.lock holder held
    have other : id ≠ holder.id := by
      rintro rfl
      exact invariant.not_mem_creations job (mem_of_getElem? found)
    unfold HolderWriting
    rw [filesAt_insert, if_neg other]
    exact ⟨entry, old, before, job, rest⟩
  | insert id creation free found renamed =>
    intro holder held
    rw [free] at held
    cases held
  | attach id entry free found =>
    intro holder held
    rw [free] at held
    cases held
  | store id op entry stored free found change =>
    intro holder held
    cases held
    have settled := invariant.settled id entry found (by simp [free])
    refine ⟨stored, entry.record, _, ?_, rfl, coherent_begin _ _, settled, change.follows, ?_, ?_⟩
    · rw [getElem?_insert_key, if_pos rfl]
    · intro starts
      obtain rfl : op = .start := starts
      exact change.running
    · intro abort cancels
      obtain rfl : op = .cancel abort := cancels
      exact change.cancelled
  | persist holder act replacement files held advanced =>
    intro holder' held'
    cases held'
    obtain ⟨entry, old, before, job, new, coherent, rest⟩ := invariant.lock holder held
    refine ⟨entry, old, before, job, (advance_new advanced).trans new, ?_, rest⟩
    rw [filesAt_insert, if_pos rfl]
    exact coherent.advance advanced
  | release holder held renamed =>
    intro holder' held'
    cases held'
  | _ => exact invariant.lock

/-- Every job stays in memory, with a record that follows the one it had. -/
theorem follows_move (invariant : Invariant format registry)
    (move : Move format render registry next) {id : String} {entry : JobEntry Counts}
    (found : registry.jobs[id]? = some entry) :
    ∃ entry', next.jobs[id]? = some entry' ∧ entry.record.Follows entry'.record := by
  have same := entry.record.follows_self
  cases move with
  | insert id' creation free found' renamed =>
    have other : id' ≠ id := by
      rintro rfl
      exact invariant.not_mem_creations found (mem_of_getElem? found')
    refine ⟨entry, ?_, same⟩
    rw [getElem?_insert_key, if_neg other]
    exact found
  | attach id' entry' free found' =>
    by_cases own : id' = id
    · subst own
      rw [found, Option.some.injEq] at found'
      subst found'
      exact ⟨{ entry with abort := some ⟨id'⟩ }, by rw [getElem?_insert_key, if_pos rfl], same⟩
    · exact ⟨entry, by rw [getElem?_insert_key, if_neg own, found], same⟩
  | store id' op entry' stored free found' change =>
    by_cases own : id' = id
    · subst own
      rw [found, Option.some.injEq] at found'
      subst found'
      exact ⟨stored, by rw [getElem?_insert_key, if_pos rfl], change.follows⟩
    · exact ⟨entry, by rw [getElem?_insert_key, if_neg own, found], same⟩
  | _ => exact ⟨entry, found, same⟩

theorem cancelledKept_move (invariant : Invariant format registry)
    (move : Move format render registry next) : CancelledKept next := by
  have stays : ∀ id ∈ registry.log.cancelled,
      ∃ entry, next.jobs[id]? = some entry ∧ entry.record.status = .cancelled := by
    intro id member
    obtain ⟨entry, found, cancelled⟩ := invariant.cancelled id member
    obtain ⟨entry', found', follows⟩ := follows_move invariant move found
    refine ⟨entry', found', ?_⟩
    rw [follows.status (by simp [cancelled, JobStatus.isTerminal]), cancelled]
  cases move with
  | release holder held renamed =>
    intro id member
    obtain ⟨entry, -, -, job, -, -, -, -, -, cancels⟩ := invariant.lock holder held
    cases op : holder.op with
    | cancel abort =>
      simp only [op, Log.return, List.mem_append, List.mem_singleton] at member
      rcases member with member | rfl
      · exact stays id member
      · exact ⟨entry, job, cancels abort op⟩
    | start =>
      simp only [op, Log.return] at member
      exact stays id member
    | progress =>
      simp only [op, Log.return] at member
      exact stays id member
    | finish =>
      simp only [op, Log.return] at member
      exact stays id member
  | _ => exact stays

/-- Every move keeps the invariant. -/
theorem Invariant.move (invariant : Invariant format registry)
    (move : Move format render registry next) : Invariant format next where
  apart := creationsApart_move invariant move
  writing := creationsWriting_move invariant move
  sound := recordsSound_move invariant move
  settled := recordsSettled_move invariant move
  lock := lockHeld_move invariant move
  cancelled := cancelledKept_move invariant move

/-! ## Runs -/

/-- No work begins on a job of which `cancel` has returned `Ok`. -/
theorem begun_move (invariant : Invariant format registry)
    (move : Move format render registry next) {id : String}
    (cancelled : id ∈ registry.log.cancelled) :
    next.log.begun.count id = registry.log.begun.count id := by
  cases move with
  | release holder held renamed =>
    cases op : holder.op with
    | start =>
      obtain ⟨entry, -, -, job, -, -, -, -, starts, -⟩ := invariant.lock holder held
      have other : holder.id ≠ id := by
        rintro rfl
        obtain ⟨entry', job', status⟩ := invariant.cancelled _ cancelled
        rw [job, Option.some.injEq] at job'
        rw [← job', starts op] at status
        cases status
      simp [Log.return, other]
    | _ => rfl
  | _ => rfl

theorem cancelled_subset_move (move : Move format render registry next) :
    registry.log.cancelled ⊆ next.log.cancelled := by
  cases move with
  | release holder held renamed =>
    cases op : holder.op with
    | cancel abort => simp [Log.return]
    | _ => exact List.Subset.refl _
  | _ => exact List.Subset.refl _

/-- The jobs of a process are those it has found at its start, or their ids come from
its counter. -/
def Numbered (known : JobMap Counts) (registry : Registry Counts Text) : Prop :=
  ∀ id, id ∈ registry.jobs ∨ id ∈ registry.creations →
    id ∈ known ∨ ∃ now seq, seq < registry.counter ∧ id = jobId now seq

variable {known : JobMap Counts}

omit [Inhabited Counts] in
theorem Numbered.fresh (numbered : Numbered known registry) {now : Int64}
    (unknown : ∀ seq, jobId now seq ∉ known) : jobId now registry.counter ∉ registry.jobs := by
  intro member
  rcases numbered _ (Or.inl member) with old | ⟨now', seq, before, same⟩
  · exact unknown _ old
  · have := seq_eq_of_jobId_eq same
    omega

omit [Inhabited Counts] in
/-- Another record for a job that is there. -/
theorem Numbered.store (numbered : Numbered known registry) {id : String} {entry : JobEntry Counts}
    (found : registry.jobs[id]? = some entry) (stored : JobEntry Counts)
    (holder : Option (Holder Text)) :
    Numbered known { registry with jobs := registry.jobs.insert id stored, holder } := by
  rintro id' (member | member)
  · rcases mem_insert_key.mp member with rfl | member
    · exact numbered id (Or.inl (mem_of_getElem? found))
    · exact numbered id' (Or.inl member)
  · exact numbered id' (Or.inr member)

theorem Numbered.move (numbered : Numbered known registry)
    (move : Move format render registry next) : Numbered known next := by
  cases move with
  | create sql now fresh =>
    have later : ∀ id, id ∈ registry.jobs ∨ id ∈ registry.creations →
        id ∈ known ∨ ∃ now seq, seq < registry.counter + 1 ∧ id = jobId now seq := by
      intro id member
      refine (numbered id member).imp_right ?_
      rintro ⟨now', seq, before, same⟩
      exact ⟨now', seq, Nat.lt_succ_of_lt before, same⟩
    rintro id (member | member)
    · exact later id (Or.inl member)
    · rcases mem_insert_key.mp member with rfl | member
      · exact Or.inr ⟨now, registry.counter, Nat.lt_succ_self _, rfl⟩
      · exact later id (Or.inr member)
  | write id creation act replacement files found advanced =>
    rintro id' (member | member)
    · exact numbered id' (Or.inl member)
    · rcases mem_insert_key.mp member with rfl | member
      · exact numbered id (Or.inr (mem_of_getElem? found))
      · exact numbered id' (Or.inr member)
  | insert id creation free found renamed =>
    rintro id' (member | member)
    · rcases mem_insert_key.mp member with rfl | member
      · exact numbered id (Or.inr (mem_of_getElem? found))
      · exact numbered id' (Or.inl member)
    · exact numbered id' (Or.inr (mem_erase_key.mp member).2)
  | attach id entry free found => exact numbered.store found _ registry.holder
  | store id op entry stored free found change => exact numbered.store found stored _
  | _ => exact numbered

/-- What holds of a server that has recovered no job. -/
def Kept (format : RecordFormat Counts Text) (state : State Counts Text) : Prop :=
  Invariant format state.toRegistry ∧ Numbered ∅ state.toRegistry

omit [Inhabited Counts] in
theorem Kept.freshId {state : State Counts Text} (kept : Kept format state)
    (action : Action Counts Text) : FreshId state action :=
  fun _ _ _ => kept.2.fresh fun _ => TreeMap.not_mem_emptyc

theorem kept_step (state : State Counts Text) (action : Action Counts Text)
    (next : State Counts Text) (kept : Kept format state)
    (taken : step format render state action = some next) : Kept format next := by
  have move := step_cases (kept.freshId action) taken
  exact ⟨kept.1.move move, kept.2.move move⟩

omit [Inhabited Counts] in
theorem kept_boot (format : RecordFormat Counts Text) (maxConcurrent : Nat)
    (dirs : JobDirs Text) : Kept format (.boot maxConcurrent ∅ dirs) := by
  refine ⟨⟨?_, ?_, ?_, ?_, ?_, ?_⟩, ?_⟩
  · intro id member
    simp [State.boot] at member
  · intro id creation found
    simp [State.boot] at found
  · intro id entry found
    simp [State.boot] at found
  · intro id entry found
    simp [State.boot] at found
  · intro holder held
    cases held
  · intro id member
    simp [State.boot] at member
  · rintro id (member | member)
    · simp [State.boot] at member
    · simp [State.boot] at member

/-- What any later run of the server leaves of the jobs of a state. -/
theorem run_follows {state final : State Counts Text} {actions : List (Action Counts Text)}
    (kept : Kept format state) (taken : run (step format render) state actions = some final) :
    (∀ (id : String) (entry : JobEntry Counts), state.jobs[id]? = some entry →
      ∃ entry', final.jobs[id]? = some entry' ∧ entry.record.Follows entry'.record) ∧
    ∀ id ∈ state.log.cancelled, final.log.begun.count id = state.log.begun.count id := by
  induction actions generalizing state with
  | nil =>
    cases taken
    exact ⟨fun id entry found => ⟨entry, found, entry.record.follows_self⟩, fun _ _ => rfl⟩
  | cons action rest ih =>
    obtain ⟨next, stepped, taken⟩ := run_cons_eq_some.mp taken
    have move := step_cases (kept.freshId action) stepped
    obtain ⟨follows, begun⟩ := ih (kept_step _ _ _ kept stepped) taken
    constructor
    · intro id entry found
      obtain ⟨entry', found', first⟩ := follows_move kept.1 move found
      obtain ⟨final', found'', rest⟩ := follows id entry' found'
      exact ⟨final', found'', first.trans rest⟩
    · intro id member
      rw [begun id (cancelled_subset_move move member), begun_move kept.1 move member]

/-- In every state that a server can reach, a job has a result path only when it has
succeeded, is done if and only if it has a finish time, and is on disk as it is in
memory once no operation on it is under way. Whatever happens later, a job that is done
stays as it is done, and no work begins on one whose cancellation was acknowledged. -/
theorem job_lifecycle (format : RecordFormat Counts Text) (render : Counts → String)
    (maxConcurrent : Nat) (dirs : JobDirs Text) {actions : List (Action Counts Text)}
    {state : State Counts Text}
    (taken : run (step format render) (.boot maxConcurrent ∅ dirs) actions = some state) :
    (∀ (id : String) (entry : JobEntry Counts), state.jobs[id]? = some entry →
      (entry.record.resultPath.isSome → entry.record.status = .succeeded) ∧
      (entry.record.finishedAtMs.isSome ↔ entry.record.status.isTerminal) ∧
      ((∀ holder, state.holder = some holder → holder.id ≠ id) →
        readRecord format (filesAt state.dirs id) = some entry.record)) ∧
    ∀ (later : List (Action Counts Text)) (final : State Counts Text),
      run (step format render) state later = some final →
      (∀ (id : String) (entry : JobEntry Counts), state.jobs[id]? = some entry →
        ∃ entry', final.jobs[id]? = some entry' ∧
          (entry.record.status.isTerminal → entry'.record.status = entry.record.status)) ∧
      ∀ id ∈ state.log.cancelled,
        (∃ entry, final.jobs[id]? = some entry ∧ entry.record.status = .cancelled) ∧
        final.log.begun.count id = state.log.begun.count id := by
  have kept : Kept format state :=
    run_preserves kept_step (kept_boot format maxConcurrent dirs) taken
  refine ⟨fun id entry found => ?_, fun later final onward => ?_⟩
  · have sound := kept.1.sound id entry found
    exact ⟨sound.result, sound.finished, kept.1.settled id entry found⟩
  · obtain ⟨follows, begun⟩ := run_follows kept onward
    refine ⟨fun id entry found => ?_, fun id member => ⟨?_, begun id member⟩⟩
    · obtain ⟨entry', found', follow⟩ := follows id entry found
      exact ⟨entry', found', follow.status⟩
    · obtain ⟨entry, found, cancelled⟩ := kept.1.cancelled id member
      obtain ⟨entry', found', follow⟩ := follows id entry found
      refine ⟨entry', found', ?_⟩
      rw [follow.status (by simp [cancelled, JobStatus.isTerminal]), cancelled]

/-- Texts that are the records they hold. -/
def plainFormat : RecordFormat Unit (JobRecord Unit) := ⟨id, some, fun _ => rfl⟩

/-- A job is created and cancelled while it waits for a slot. -/
def cancelledRun : List (Action Unit (JobRecord Unit)) :=
  let id := jobId 5 0
  [.create "SELECT 1" 5, .write id .complete, .write id .rename, .insert id, .spawn id,
    .acquire id, .cancel id 6, .persist .complete, .persist .rename, .release, .start id 7]

theorem job_lifecycle_cancelled :
    ∃ state, run (step plainFormat fun _ => "") (.boot 1 ∅ ∅) cancelledRun = some state ∧
      jobId 5 0 ∈ state.log.cancelled ∧
      (∃ entry, state.jobs[jobId 5 0]? = some entry ∧ entry.record.status = .cancelled) ∧
      ∀ later final, run (step plainFormat fun _ => "") state later = some final →
        final.log.begun.count (jobId 5 0) = state.log.begun.count (jobId 5 0) := by
  have ran : ((run (step plainFormat fun _ => "") (.boot 1 ∅ ∅) cancelledRun).any
      fun state => state.log.cancelled.contains (jobId 5 0)) = true := by
    decide +kernel
  obtain ⟨state, taken, cancelled⟩ := (Option.any_eq_true _ _).mp ran
  have member := List.contains_iff_mem.mp cancelled
  have later := (job_lifecycle plainFormat _ 1 ∅ taken).2
  refine ⟨state, taken, member, ((later [] state rfl).2 _ member).1, ?_⟩
  intro actions final onward
  exact ((later actions final onward).2 _ member).2

end Semcast.Jobs
