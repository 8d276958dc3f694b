import Semcast.Server.Proofs.Turns

/-!
# Ids and abort handles

A process gives an id to one job only, and the handles that cancellations have taken are
those of jobs that are done.
-/

namespace Semcast.Jobs

open Std ReplaceFile Run

variable {Counts Text : Type} {format : RecordFormat Counts Text} {render : Counts → String}

/-- The id comes from a call of `create` of this process. -/
def Minted (counter : Nat) (id : String) : Prop :=
  ∃ now seq, seq < counter ∧ id = jobId now seq

theorem Minted.mono {counter counter' : Nat} (le : counter ≤ counter') {id : String}
    (minted : Minted counter id) : Minted counter' id := by
  obtain ⟨now, seq, before, same⟩ := minted
  exact ⟨now, seq, before.trans_le le, same⟩

/-- The next call makes an id that is not minted. -/
theorem Minted.ne_next {counter : Nat} {id : String} (minted : Minted counter id) (now : Int64) :
    id ≠ jobId now counter := by
  rintro rfl
  obtain ⟨now', seq, before, same⟩ := minted
  have := seq_eq_of_jobId_eq same
  omega

/-- The job is done, if it is there. -/
def State.Done (state : State Counts Text) (id : String) : Prop :=
  ∀ entry, state.jobs[id]? = some entry → entry.record.status.isTerminal

/-- A cancellation has taken the handle, and the abort has not landed. -/
def State.Taken (state : State Counts Text) (handle : AbortHandle) : Prop :=
  handle ∈ state.aborts ∨
    ∃ holder, state.holder = some holder ∧ holder.op = .cancel (some handle)

/-- Ids are not used twice in a process, and only jobs that are done are aborted. -/
structure Minting (state : State Counts Text) : Prop where
  creating : ∀ id ∈ state.creations, Minted state.counter id
  live : ∀ (id : String) (entry : JobEntry Counts), state.jobs[id]? = some entry →
    entry.record.status.isTerminal = false → Minted state.counter id ∧ id ∉ state.creations
  taken : ∀ handle, state.Taken handle →
    Minted state.counter handle.task ∧ handle.task ∉ state.creations ∧ state.Done handle.task
  attached : ∀ (id : String) (entry : JobEntry Counts) (handle : AbortHandle),
    state.jobs[id]? = some entry → entry.abort = some handle → handle.task = id

section Minting

variable {state next : State Counts Text}

/-- A change of a record keeps it done. -/
theorem State.Done.store (format : RecordFormat Counts Text) {id other : String} {op : Op}
    {entry stored : JobEntry Counts} (done : state.Done other)
    (found : state.jobs[id]? = some entry) (change : Change render op entry.record stored.record) :
    (state.store format id op stored).Done other := by
  intro entry' found'
  rw [State.store, getElem?_insert_key] at found'
  by_cases same : id = other
  · subst same
    rw [if_pos rfl, Option.some.injEq] at found'
    subst found'
    have terminal := done entry found
    rw [change.follows.status terminal, terminal]
  · rw [if_neg same] at found'
    exact done entry' found'

/-- An operation stores an entry and takes the lock. -/
theorem Minting.store (minting : Minting state) {id : String} {op : Op}
    {entry stored : JobEntry Counts} (found : state.jobs[id]? = some entry)
    (change : Change render op entry.record stored.record)
    (abort : ∀ handle, stored.abort = some handle → entry.abort = some handle)
    (handles : ∀ handle, op = .cancel (some handle) →
      entry.abort = some handle ∧ entry.record.status.isTerminal = false) :
    Minting (state.store format id op stored) := by
  refine ⟨minting.creating, ?_, ?_, ?_⟩
  · intro id' entry' found' live
    rw [State.store, getElem?_insert_key] at found'
    by_cases same : id = id'
    · subst same
      rw [if_pos rfl, Option.some.injEq] at found'
      subst found'
      refine minting.live id entry found ?_
      by_contra terminal
      rw [Bool.not_eq_false] at terminal
      rw [change.follows.status terminal, terminal] at live
      cases live
    · rw [if_neg same] at found'
      exact minting.live id' entry' found' live
  · rintro handle (aborted | ⟨holder, held, cancels⟩)
    · obtain ⟨minted, apart, done⟩ := minting.taken handle (Or.inl aborted)
      exact ⟨minted, apart, done.store format found change⟩
    · cases held
      obtain ⟨own, live⟩ := handles handle cancels
      obtain rfl := minting.attached id entry handle found own
      obtain ⟨minted, apart⟩ := minting.live _ entry found live
      refine ⟨minted, apart, fun entry' found' => ?_⟩
      rw [State.store, getElem?_insert_key, if_pos rfl, Option.some.injEq] at found'
      subst found'
      dsimp only at cancels
      subst cancels
      rw [change.cancelled]
      rfl
  · intro id' entry' handle found' own
    rw [State.store, getElem?_insert_key] at found'
    by_cases same : id = id'
    · subst same
      rw [if_pos rfl, Option.some.injEq] at found'
      subst found'
      exact minting.attached id entry handle found (abort handle own)
    · rw [if_neg same] at found'
      exact minting.attached id' entry' handle found' own

/-- Only the handles of jobs and their records matter. -/
theorem Minting.congr (minting : Minting state) (jobs : next.jobs = state.jobs)
    (creations : ∀ id, id ∈ next.creations ↔ id ∈ state.creations)
    (counter : next.counter = state.counter)
    (taken : ∀ handle, next.Taken handle → state.Taken handle) : Minting next := by
  refine ⟨fun id member => ?_, fun id entry found live => ?_, fun handle there => ?_,
    fun id entry handle found => ?_⟩
  · rw [counter]
    exact minting.creating id ((creations id).mp member)
  · rw [jobs] at found
    rw [counter, creations]
    exact minting.live id entry found live
  · rw [counter, creations, State.Done, jobs]
    exact minting.taken handle (taken handle there)
  · rw [jobs] at found
    exact minting.attached id entry handle found

theorem live_of_cancel {abort : Option AbortHandle} {old new : JobRecord Counts}
    (change : Change render (.cancel abort) old new) : old.status.isTerminal = false := by
  cases change
  assumption

variable [Inhabited Counts]

theorem Minting.create (minting : Minting state) (sql : String) (now : Int64)
    (replacement : Replacement Text) (dirs : JobDirs Text) :
    Minting
      { state with
        counter := state.counter + 1
        dirs
        creations :=
          state.creations.insert (jobId now state.counter)
            ⟨.new (jobId now state.counter) sql now, replacement⟩ } := by
  have later := @Minted.mono state.counter (state.counter + 1) (Nat.le_succ _)
  refine ⟨fun id member => ?_, fun id entry found live => ?_, fun handle there => ?_,
    minting.attached⟩
  · rcases mem_insert_key.mp member with rfl | member
    · exact ⟨now, state.counter, Nat.lt_succ_self _, rfl⟩
    · exact later (minting.creating id member)
  · obtain ⟨minted, apart⟩ := minting.live id entry found live
    refine ⟨later minted, fun member => ?_⟩
    rcases mem_insert_key.mp member with same | member
    · exact minted.ne_next now same.symm
    · exact apart member
  · obtain ⟨minted, apart, done⟩ := minting.taken handle there
    refine ⟨later minted, fun member => ?_, done⟩
    rcases mem_insert_key.mp member with same | member
    · exact minted.ne_next now same.symm
    · exact apart member

omit [Inhabited Counts] in
/-- A created job comes into memory. -/
theorem Minting.insert (minting : Minting state) {id : String} {creation : Creation Counts Text}
    (found : state.creations[id]? = some creation) (log : Log Counts) :
    Minting
      { state with
        jobs := state.jobs.insert id ⟨creation.record, none⟩
        creations := state.creations.erase id
        log } := by
  have member := mem_of_getElem? found
  have fewer : ∀ id', id' ∉ state.creations → id' ∉ state.creations.erase id :=
    fun id' apart erased => apart (mem_erase_key.mp erased).2
  refine ⟨fun id' left => ?_, fun id' entry there live => ?_, fun handle there => ?_,
    fun id' entry handle there own => ?_⟩
  · exact minting.creating id' (mem_erase_key.mp left).2
  · rw [getElem?_insert_key] at there
    by_cases same : id = id'
    · subst same
      exact ⟨minting.creating id member, fun erased => (mem_erase_key.mp erased).1 rfl⟩
    · rw [if_neg same] at there
      obtain ⟨minted, apart⟩ := minting.live id' entry there live
      exact ⟨minted, fewer id' apart⟩
  · obtain ⟨minted, apart, done⟩ := minting.taken handle there
    refine ⟨minted, fewer _ apart, fun entry found' => ?_⟩
    rw [getElem?_insert_key, if_neg (fun same : id = handle.task => apart (same ▸ member))] at found'
    exact done entry found'
  · rw [getElem?_insert_key] at there
    by_cases same : id = id'
    · rw [if_pos same, Option.some.injEq] at there
      subst there
      cases own
    · rw [if_neg same] at there
      exact minting.attached id' entry handle there own

omit [Inhabited Counts] in
theorem Minting.attach (minting : Minting state) {id : String} {entry : JobEntry Counts}
    (found : state.jobs[id]? = some entry) (tasks : TreeMap String Task) :
    Minting
      { state with tasks, jobs := state.jobs.insert id { entry with abort := some ⟨id⟩ } } := by
  have same_record : ∀ (id' : String) (entry' : JobEntry Counts),
      (state.jobs.insert id { entry with abort := some ⟨id⟩ })[id']? = some entry' →
      ∃ old, state.jobs[id']? = some old ∧ entry'.record = old.record := by
    intro id' entry' there
    rw [getElem?_insert_key] at there
    by_cases same : id = id'
    · subst same
      rw [if_pos rfl, Option.some.injEq] at there
      subst there
      exact ⟨entry, found, rfl⟩
    · rw [if_neg same] at there
      exact ⟨entry', there, rfl⟩
  refine ⟨minting.creating, fun id' entry' there live => ?_, fun handle there => ?_,
    fun id' entry' handle there own => ?_⟩
  · obtain ⟨old, there, same⟩ := same_record id' entry' there
    rw [same] at live
    exact minting.live id' old there live
  · obtain ⟨minted, apart, done⟩ := minting.taken handle there
    refine ⟨minted, apart, fun entry' found' => ?_⟩
    obtain ⟨old, found', same⟩ := same_record _ entry' found'
    rw [same]
    exact done old found'
  · rw [getElem?_insert_key] at there
    by_cases same : id = id'
    · rw [if_pos same, Option.some.injEq] at there
      subst there
      cases own
      exact same
    · rw [if_neg same] at there
      exact minting.attached id' entry' handle there own

theorem Minting.turn (minting : Minting state) (turn : Turn format render state next) :
    Minting next := by
  have same : ∀ id, id ∈ state.creations ↔ id ∈ state.creations := fun _ => Iff.rfl
  cases turn with
  | create sql now => exact minting.create sql now _ _
  | insert id creation found => exact minting.insert found _
  | write id creation replacement files found =>
    refine minting.congr rfl (fun id' => ?_) rfl fun _ there => there
    rw [mem_insert_key, or_iff_right_of_imp]
    rintro rfl
    exact mem_of_getElem? found
  | spawn id fresh jobs attached =>
    rcases attached with rfl | ⟨entry, found, rfl⟩
    · exact minting.congr rfl same rfl fun _ there => there
    · exact minting.attach found _
  | start id entry stored free ready found change abort =>
    have moved : Minting { state with tasks := state.tasks.insert id .starting } :=
      minting.congr rfl same rfl fun _ there => there
    exact moved.store found change (by simp [abort]) (by simp)
  | progress id entry stored free found change abort =>
    exact minting.store found change (by simp [abort]) (by simp)
  | finish id entry stored free working found change abort =>
    have moved : Minting { state with tasks := state.tasks.insert id .finishing } :=
      minting.congr rfl same rfl fun _ there => there
    exact moved.store found change (by simp [abort]) (by simp)
  | cancel id entry stored free found change abort =>
    refine minting.store found change (by simp [abort]) fun handle cancels => ?_
    exact ⟨Op.cancel.inj cancels, live_of_cancel change⟩
  | persist holder replacement files held =>
    refine minting.congr rfl same rfl ?_
    rintro handle (aborted | ⟨_, ⟨⟩, cancels⟩)
    · exact Or.inl aborted
    · exact Or.inr ⟨holder, held, cancels⟩
  | release holder held =>
    cases op : holder.op with
    | cancel abort =>
      refine minting.congr rfl same rfl ?_
      rintro handle (aborted | ⟨_, ⟨⟩, _⟩)
      rcases List.mem_append.mp aborted with aborted | taken
      · exact Or.inl aborted
      · exact Or.inr ⟨holder, held, by rw [op, Option.mem_toList.mp taken]⟩
    | _ =>
      refine minting.congr rfl same rfl ?_
      rintro handle (aborted | ⟨_, ⟨⟩, _⟩)
      exact Or.inl aborted
  | abort handle taken next ends =>
    rcases ends with rfl | ⟨_, _, _, rfl⟩ <;>
    · refine minting.congr rfl same rfl ?_
      rintro other (aborted | held)
      · exact Or.inl (List.mem_of_mem_erase aborted)
      · exact Or.inr held
  | _ => exact minting.congr rfl same rfl fun _ there => there

end Minting

end Semcast.Jobs
