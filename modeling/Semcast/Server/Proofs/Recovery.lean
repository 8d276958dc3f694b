import Semcast.Server.Proofs.Lifecycle

/-!
# Crash and recovery

What a crash at any point of any run leaves on disk, and what `recover` makes of it:
no job is lost, no outcome that a caller has seen changes, and a second recovery
changes nothing.
-/

namespace Semcast.Jobs

open Std ReplaceFile Run

variable {Counts Text : Type} {format : RecordFormat Counts Text} {render : Counts → String}

/-! ## What `recover` reads and writes -/

theorem revive_isTerminal (now : Int64) (record : JobRecord Counts) :
    (revive now record).status.isTerminal = true := by
  unfold revive
  by_cases terminal : record.status.isTerminal
  · rw [if_pos terminal, terminal]
  · rw [if_neg terminal]
    rfl

theorem revive_id (now : Int64) (record : JobRecord Counts) : (revive now record).id = record.id := by
  unfold revive
  split <;> rfl

theorem revive_of_isTerminal {now : Int64} {record : JobRecord Counts}
    (terminal : record.status.isTerminal) : revive now record = record :=
  if_pos terminal

theorem sound_revive {id : String} {record : JobRecord Counts} (sound : record.Sound id)
    (now : Int64) : (revive now record).Sound id := by
  unfold revive
  by_cases terminal : record.status.isTerminal
  · rw [if_pos terminal]
    exact sound
  · rw [if_neg terminal]
    exact ⟨sound.ident, by simp, by simp [JobStatus.isTerminal]⟩

/-- A record that recovery has settled is settled for good. -/
theorem revive_revive (now now' : Int64) (record : JobRecord Counts) :
    revive now' (revive now record) = revive now record :=
  revive_of_isTerminal (revive_isTerminal now record)

/-- A job that was in flight is interrupted and has no result. -/
theorem revive_cases (now : Int64) (record : JobRecord Counts) :
    (record.status.isTerminal ∧ revive now record = record) ∨
      ((revive now record).status = .interrupted ∧ (revive now record).resultPath = none) := by
  unfold revive
  by_cases terminal : record.status.isTerminal
  · rw [if_pos terminal]
    exact Or.inl ⟨terminal, rfl⟩
  · rw [if_neg terminal]
    exact Or.inr ⟨rfl, rfl⟩

/-- Every `job.json` that can be read holds a sound record of the job of its directory. -/
def DirsSound (format : RecordFormat Counts Text) (dirs : JobDirs Text) : Prop :=
  ∀ dir record, readRecord format (filesAt dirs dir) = some record → record.Sound dir

variable {clock : String → Int64}

theorem recoverDir_none {recovery : Recovery Counts Text} {dir : String × Files Text}
    (unreadable : readRecord format dir.2 = none) :
    recoverDir format clock recovery dir = recovery := by
  rw [recoverDir, unreadable]

theorem recoverDir_jobs {recovery : Recovery Counts Text} {dir : String × Files Text}
    {record : JobRecord Counts} (readable : readRecord format dir.2 = some record)
    (own : record.id = dir.1) :
    (recoverDir format clock recovery dir).jobs =
      recovery.jobs.insert dir.1 ⟨revive (clock dir.1) record, none⟩ := by
  rw [recoverDir, readable]
  show recovery.jobs.insert (revive (clock dir.1) record).id _ = _
  rw [revive_id, own]

/-- One round of `recover` leaves the other directories as they are. -/
theorem filesAt_recoverDir_of_ne {recovery : Recovery Counts Text} {dir : String × Files Text}
    {id : String} (other : dir.1 ≠ id) :
    filesAt (recoverDir format clock recovery dir).dirs id = filesAt recovery.dirs id := by
  unfold recoverDir
  cases readRecord format dir.2 with
  | none => rfl
  | some record =>
    by_cases terminal : record.status.isTerminal
    · simp [terminal]
    · simp only [if_neg terminal]
      rw [filesAt_insert, if_neg other]

theorem readRecord_recoverDir {recovery : Recovery Counts Text} {dir : String × Files Text}
    (here : filesAt recovery.dirs dir.1 = dir.2) :
    readRecord format (filesAt (recoverDir format clock recovery dir).dirs dir.1) =
      (readRecord format dir.2).map (revive (clock dir.1)) := by
  cases readable : readRecord format dir.2 with
  | none => rw [recoverDir_none readable, here, readable, Option.map_none]
  | some record =>
    rw [recoverDir, readable, Option.map_some]
    by_cases terminal : record.status.isTerminal
    · simp only [if_pos terminal]
      rw [here, readable, revive_of_isTerminal terminal]
    · simp only [if_neg terminal]
      rw [filesAt_insert, if_pos rfl]
      exact readRecord_of_contents rfl

/-- The rounds of `recover` at other directories leave a job alone. -/
theorem foldl_recoverDir_of_not_mem {listing : List (String × Files Text)} {id : String}
    (recovery : Recovery Counts Text)
    (sound : ∀ dir ∈ listing, ∀ record, readRecord format dir.2 = some record → record.id = dir.1)
    (absent : id ∉ listing.map Prod.fst) :
    (listing.foldl (recoverDir format clock) recovery).jobs[id]? = recovery.jobs[id]? ∧
      filesAt (listing.foldl (recoverDir format clock) recovery).dirs id =
        filesAt recovery.dirs id := by
  induction listing generalizing recovery with
  | nil => exact ⟨rfl, rfl⟩
  | cons dir rest ih =>
    obtain ⟨own, others⟩ := List.forall_mem_cons.mp sound
    rw [List.map_cons, List.mem_cons, not_or] at absent
    have other : dir.1 ≠ id := fun same => absent.1 same.symm
    obtain ⟨jobs, files⟩ := ih (recoverDir format clock recovery dir) others absent.2
    rw [List.foldl_cons, jobs, files, filesAt_recoverDir_of_ne other]
    refine ⟨?_, rfl⟩
    cases readable : readRecord format dir.2 with
    | none => rw [recoverDir_none readable]
    | some record =>
      rw [recoverDir_jobs readable (own record readable), getElem?_insert_key, if_neg other]

/-- The round of `recover` at its own directory decides what becomes of a job. -/
theorem foldl_recoverDir_of_mem {listing : List (String × Files Text)} {dir : String × Files Text}
    (recovery : Recovery Counts Text) (distinct : (listing.map Prod.fst).Nodup)
    (sound : ∀ dir ∈ listing, ∀ record, readRecord format dir.2 = some record → record.id = dir.1)
    (member : dir ∈ listing) (here : filesAt recovery.dirs dir.1 = dir.2)
    (unset : recovery.jobs[dir.1]? = none) :
    (listing.foldl (recoverDir format clock) recovery).jobs[dir.1]? =
        (readRecord format dir.2).map (fun record => ⟨revive (clock dir.1) record, none⟩) ∧
      readRecord format (filesAt (listing.foldl (recoverDir format clock) recovery).dirs dir.1) =
        (readRecord format dir.2).map (revive (clock dir.1)) := by
  induction listing generalizing recovery with
  | nil => simp at member
  | cons head rest ih =>
    obtain ⟨own, others⟩ := List.forall_mem_cons.mp sound
    rw [List.map_cons, List.nodup_cons] at distinct
    rw [List.foldl_cons]
    rcases List.mem_cons.mp member with rfl | later
    · obtain ⟨jobs, files⟩ := foldl_recoverDir_of_not_mem
        (recoverDir format clock recovery dir) others distinct.1
      rw [jobs, files, readRecord_recoverDir here]
      refine ⟨?_, rfl⟩
      cases readable : readRecord format dir.2 with
      | none => rw [recoverDir_none readable, unset, Option.map_none]
      | some record =>
        rw [recoverDir_jobs readable (own record readable), getElem?_insert_key, if_pos rfl,
          Option.map_some]
    · have other : head.1 ≠ dir.1 := by
        intro same
        exact distinct.1 (List.mem_map.mpr ⟨dir, later, same.symm⟩)
      apply ih _ distinct.2 others later
      · rw [filesAt_recoverDir_of_ne other, here]
      · cases readable : readRecord format head.2 with
        | none => rw [recoverDir_none readable, unset]
        | some record =>
          rw [recoverDir_jobs readable (own record readable), getElem?_insert_key, if_neg other,
            unset]

theorem filesAt_of_getElem? {dirs : JobDirs Text} {dir : String} {files : Files Text}
    (found : dirs[dir]? = some files) : filesAt dirs dir = files := by
  rw [filesAt, TreeMap.getD_eq_getD_getElem?, found, Option.getD_some]

theorem filesAt_of_getElem?_none {dirs : JobDirs Text} {dir : String}
    (missing : dirs[dir]? = none) : filesAt dirs dir = .absent := by
  rw [filesAt, TreeMap.getD_eq_getD_getElem?, missing, Option.getD_none]

/-- `read_dir` names no directory twice. -/
theorem nodup_listing {dirs : JobDirs Text} {listing : List (String × Files Text)}
    (listed : listing.Perm dirs.toList) : (listing.map Prod.fst).Nodup := by
  have keys : (dirs.toList.map Prod.fst).Nodup := by
    rw [TreeMap.map_fst_toList_eq_keys]
    exact TreeMap.nodup_keys
  exact (listed.map Prod.fst).nodup_iff.mpr keys

/-- `recover` in any order of the directories: each job is what its `job.json` says,
interrupted if that says that it was in flight. -/
theorem recover_spec (clock : String → Int64) {dirs : JobDirs Text} (sound : DirsSound format dirs)
    {listing : List (String × Files Text)} (listed : listing.Perm dirs.toList) (id : String) :
    (recover format clock listing dirs).jobs[id]? =
        (readRecord format (filesAt dirs id)).map
          (fun record => ⟨revive (clock id) record, none⟩) ∧
      readRecord format (filesAt (recover format clock listing dirs).dirs id) =
        (readRecord format (filesAt dirs id)).map (revive (clock id)) := by
  have mem_listing : ∀ dir files, (dir, files) ∈ listing ↔ dirs[dir]? = some files := by
    intro dir files
    rw [listed.mem_iff, TreeMap.mem_toList_iff_getElem?_eq_some]
  have own : ∀ dir ∈ listing, ∀ record, readRecord format dir.2 = some record →
      record.id = dir.1 := by
    intro dir member record readable
    have found := (mem_listing dir.1 dir.2).mp member
    exact (sound dir.1 record (by rw [filesAt_of_getElem? found, readable])).ident
  cases found : dirs[id]? with
  | none =>
    have absent : id ∉ listing.map Prod.fst := by
      intro member
      obtain ⟨dir, within, rfl⟩ := List.mem_map.mp member
      have present := (mem_listing dir.1 dir.2).mp within
      rw [found] at present
      cases present
    have unread : readRecord format (filesAt dirs id) = none := by
      rw [filesAt_of_getElem?_none found]
      rfl
    rw [recover, (foldl_recoverDir_of_not_mem ⟨∅, dirs, 0⟩ own absent).1,
      (foldl_recoverDir_of_not_mem ⟨∅, dirs, 0⟩ own absent).2, unread]
    exact ⟨TreeMap.getElem?_emptyc, rfl⟩
  | some files =>
    rw [filesAt_of_getElem? found]
    exact foldl_recoverDir_of_mem ⟨∅, dirs, 0⟩ (nodup_listing listed) own
      ((mem_listing id files).mpr found) (filesAt_of_getElem? found) TreeMap.getElem?_emptyc

theorem dirsSound_recover (clock : String → Int64) {dirs : JobDirs Text} (sound : DirsSound format dirs)
    {listing : List (String × Files Text)} (listed : listing.Perm dirs.toList) :
    DirsSound format (recover format clock listing dirs).dirs := by
  intro dir record readable
  rw [(recover_spec clock sound listed dir).2, Option.map_eq_some_iff] at readable
  obtain ⟨found, readable, rfl⟩ := readable
  exact sound_revive (sound dir found readable) _

/-- What a new registry, or one that has recovered its jobs, finds on disk. -/
structure Booted (format : RecordFormat Counts Text) (jobs : JobMap Counts)
    (dirs : JobDirs Text) : Prop where
  sound : DirsSound format dirs
  onDisk : ∀ (id : String) (entry : JobEntry Counts), jobs[id]? = some entry →
    readRecord format (filesAt dirs id) = some entry.record

theorem booted_new {dirs : JobDirs Text} (sound : DirsSound format dirs) :
    Booted format ∅ dirs :=
  ⟨sound, fun id entry found => by simp at found⟩

/-- What `recover` leaves is what the next server finds. -/
theorem booted_recover (clock : String → Int64) {dirs : JobDirs Text} (sound : DirsSound format dirs)
    {listing : List (String × Files Text)} (listed : listing.Perm dirs.toList) :
    Booted format (recover format clock listing dirs).jobs
      (recover format clock listing dirs).dirs := by
  refine ⟨dirsSound_recover clock sound listed, fun id entry found => ?_⟩
  obtain ⟨jobs, files⟩ := recover_spec clock sound listed id
  rw [jobs, Option.map_eq_some_iff] at found
  obtain ⟨record, readable, rfl⟩ := found
  rw [files, readable, Option.map_some]

/-! ## What a run leaves on disk -/

/-- The two records tell of the same outcome. -/
def SameOutcome (record record' : JobRecord Counts) : Prop :=
  record'.status = record.status ∧ record'.resultPath = record.resultPath

theorem JobRecord.Follows.sameOutcome {record record' : JobRecord Counts}
    (follows : record.Follows record') (terminal : record.status.isTerminal) :
    SameOutcome record record' :=
  ⟨follows.status terminal, follows.result terminal⟩

theorem SameOutcome.trans {first second third : JobRecord Counts}
    (same : SameOutcome first second) (same' : SameOutcome second third) :
    SameOutcome first third :=
  ⟨same'.1.trans same.1, same'.2.trans same.2⟩

/-- What callers have seen is in memory and on disk. -/
structure Durable (format : RecordFormat Counts Text) (registry : Registry Counts Text) :
    Prop where
  dirs : DirsSound format registry.dirs
  created : ∀ id ∈ registry.log.created, id ∈ registry.jobs
  inMemory : ∀ (id : String) (record : JobRecord Counts), (id, record) ∈ registry.log.observed →
    record.status.isTerminal →
    ∃ entry, registry.jobs[id]? = some entry ∧ SameOutcome record entry.record
  onDisk : ∀ (id : String) (record : JobRecord Counts), (id, record) ∈ registry.log.observed →
    record.status.isTerminal →
    ∃ durable, readRecord format (filesAt registry.dirs id) = some durable ∧
      SameOutcome record durable

variable [Inhabited Counts] {registry next : Registry Counts Text}

/-- A move leaves the record in a `job.json` as it is, or replaces it by the one that
is being written. -/
theorem readRecord_move (invariant : Invariant format registry)
    (move : Move format render registry next) (dir : String) :
    readRecord format (filesAt next.dirs dir) = readRecord format (filesAt registry.dirs dir) ∨
      (∃ creation, registry.creations[dir]? = some creation ∧
        readRecord format (filesAt next.dirs dir) = some creation.record) ∨
      ∃ entry, registry.jobs[dir]? = some entry ∧ next.jobs = registry.jobs ∧
        readRecord format (filesAt next.dirs dir) = some entry.record := by
  cases move with
  | create sql now fresh =>
    rw [filesAt_insert_filesAt]
    exact Or.inl rfl
  | write id creation act replacement files found advanced =>
    rw [filesAt_insert]
    by_cases same : id = dir
    · subst same
      rw [if_pos rfl]
      obtain ⟨-, new, old, coherent⟩ := invariant.writing id creation found
      rcases coherent.advance_contents advanced with kept | replaced
      · left
        rw [readRecord, kept, readRecord]
      · rw [new] at replaced
        exact Or.inr (Or.inl ⟨creation, found, readRecord_of_contents replaced⟩)
    · rw [if_neg same]
      exact Or.inl rfl
  | persist holder act replacement files held advanced =>
    rw [filesAt_insert]
    by_cases same : holder.id = dir
    · subst same
      rw [if_pos rfl]
      obtain ⟨entry, -, before, job, new, coherent, -⟩ := invariant.lock holder held
      rcases coherent.advance_contents advanced with kept | replaced
      · left
        rw [readRecord, kept, readRecord]
      · rw [new] at replaced
        exact Or.inr (Or.inr ⟨entry, job, rfl, readRecord_of_contents replaced⟩)
    · rw [if_neg same]
      exact Or.inl rfl
  | _ => exact Or.inl rfl

theorem dirsSound_move (invariant : Invariant format registry)
    (sound : DirsSound format registry.dirs) (move : Move format render registry next) :
    DirsSound format next.dirs := by
  intro dir record readable
  rcases readRecord_move invariant move dir with
    kept | ⟨creation, found, written⟩ | ⟨entry, found, -, written⟩
  · exact sound dir record (kept ▸ readable)
  · rw [written, Option.some.injEq] at readable
    exact readable ▸ (invariant.writing dir creation found).1
  · rw [written, Option.some.injEq] at readable
    exact readable ▸ invariant.sound dir entry found

theorem created_move (invariant : Invariant format registry) (durable : Durable format registry)
    (move : Move format render registry next) : ∀ id ∈ next.log.created, id ∈ next.jobs := by
  have stays : ∀ id ∈ registry.log.created, id ∈ next.jobs := by
    intro id member
    obtain ⟨entry, found⟩ := exists_getElem? (durable.created id member)
    obtain ⟨entry', found', -⟩ := follows_move invariant move found
    exact mem_of_getElem? found'
  cases move with
  | insert id creation free found renamed =>
    intro id' member
    rcases List.mem_append.mp member with member | here
    · exact stays id' member
    · rw [List.mem_singleton.mp here]
      exact mem_insert_key.mpr (Or.inl rfl)
  | release holder held renamed =>
    intro id member
    refine stays id ?_
    cases op : holder.op <;> simpa [op, Log.return] using member
  | _ => exact stays

/-- What has been observed before a move, or is observed by it. -/
theorem observed_move (invariant : Invariant format registry)
    (move : Move format render registry next) {id : String} {record : JobRecord Counts}
    (member : (id, record) ∈ next.log.observed) :
    (id, record) ∈ registry.log.observed ∨
      ∃ entry, entry.record = record ∧ next.jobs[id]? = some entry ∧
        readRecord format (filesAt next.dirs id) = some record := by
  cases move with
  | get id' free =>
    rcases List.mem_append.mp member with before | here
    · exact Or.inl before
    · rw [Option.mem_toList, Option.map_eq_some_iff] at here
      obtain ⟨entry, found, same⟩ := here
      obtain ⟨rfl, rfl⟩ := Prod.mk.inj same
      exact Or.inr ⟨entry, rfl, found, invariant.settled id' entry found (by simp [free])⟩
  | release holder held renamed =>
    left
    cases op : holder.op <;> simpa [op, Log.return] using member
  | _ => exact Or.inl member

theorem Durable.move (invariant : Invariant format registry) (durable : Durable format registry)
    (move : Move format render registry next) : Durable format next := by
  have inMemory : ∀ (id : String) (record : JobRecord Counts), (id, record) ∈ next.log.observed →
      record.status.isTerminal →
      ∃ entry, next.jobs[id]? = some entry ∧ SameOutcome record entry.record := by
    intro id record member terminal
    rcases observed_move invariant move member with before | ⟨entry, rfl, found, -⟩
    · obtain ⟨entry, found, same⟩ := durable.inMemory id record before terminal
      obtain ⟨entry', found', follows⟩ := follows_move invariant move found
      exact ⟨entry', found', same.trans (follows.sameOutcome (by rw [same.1, terminal]))⟩
    · exact ⟨entry, found, rfl, rfl⟩
  refine ⟨dirsSound_move invariant durable.dirs move, created_move invariant durable move,
    inMemory, ?_⟩
  · intro id record member terminal
    rcases observed_move invariant move member with before | ⟨entry, -, -, readable⟩
    · obtain ⟨entry, found, same⟩ := durable.inMemory id record before terminal
      rcases readRecord_move invariant move id with
        kept | ⟨creation, found', -⟩ | ⟨entry', found', -, written⟩
      · rw [kept]
        exact durable.onDisk id record before terminal
      · exact absurd (mem_of_getElem? found') (invariant.not_mem_creations found)
      · rw [found, Option.some.injEq] at found'
        subst found'
        exact ⟨entry.record, written, same⟩
    · exact ⟨record, readable, rfl, rfl⟩

omit [Inhabited Counts] in
/-- Whatever is being written, a job in memory can be read from disk. -/
theorem readable_of_mem (invariant : Invariant format registry) {id : String}
    (member : id ∈ registry.jobs) :
    ∃ record, readRecord format (filesAt registry.dirs id) = some record := by
  obtain ⟨entry, found⟩ := exists_getElem? member
  by_cases others : ∀ holder, registry.holder = some holder → holder.id ≠ id
  · exact ⟨entry.record, invariant.settled id entry found others⟩
  · simp only [not_forall, not_not] at others
    obtain ⟨holder, held, rfl⟩ := others
    obtain ⟨entry', old, before, -, new, coherent, durable, -⟩ := invariant.lock holder held
    rcases coherent.old_or_new with kept | replaced
    · exact ⟨old, by rw [readRecord, kept, durable]⟩
    · rw [new] at replaced
      exact ⟨entry'.record, readRecord_of_contents replaced⟩

/-- What holds of a server that has found `known` jobs at its start. -/
structure Running (format : RecordFormat Counts Text) (known : JobMap Counts)
    (state : State Counts Text) : Prop where
  invariant : Invariant format state.toRegistry
  numbered : Numbered known state.toRegistry
  durable : Durable format state.toRegistry

omit [Inhabited Counts] in
theorem running_boot {jobs : JobMap Counts} {dirs : JobDirs Text} (booted : Booted format jobs dirs)
    (maxConcurrent : Nat) : Running format jobs (.boot maxConcurrent jobs dirs) := by
  refine ⟨⟨?_, ?_, ?_, ?_, ?_, ?_⟩, fun id member => ?_, booted.sound, ?_, ?_, ?_⟩
  · intro id member
    simp [State.boot] at member
  · intro id creation found
    simp [State.boot] at found
  · intro id entry found
    exact booted.sound id entry.record (booted.onDisk id entry found)
  · intro id entry found others
    exact booted.onDisk id entry found
  · intro holder held
    cases held
  · intro id member
    simp [State.boot] at member
  · rcases member with member | member
    · exact Or.inl member
    · simp [State.boot] at member
  · intro id member
    simp [State.boot] at member
  · intro id record member
    simp [State.boot] at member
  · intro id record member
    simp [State.boot] at member

/-- The action does not create a job under the id of one of the `known` jobs. -/
def Unknown (known : JobMap Counts) (action : Action Counts Text) : Prop :=
  ∀ sql now, action = .create sql now → ∀ seq, jobId now seq ∉ known

theorem running_step {known : JobMap Counts} (state : State Counts Text)
    (action : Action Counts Text) (next : State Counts Text) (running : Running format known state)
    (unknown : Unknown known action) (taken : step format render state action = some next) :
    Running format known next := by
  have fresh : FreshId state action :=
    fun sql now create => running.numbered.fresh (unknown sql now create)
  have move := step_cases fresh taken
  exact ⟨running.invariant.move move, running.numbered.move move,
    running.durable.move running.invariant move⟩

/-- A server that runs from what it has found keeps to it. -/
theorem running_run {jobs : JobMap Counts} {dirs : JobDirs Text} {maxConcurrent : Nat}
    (booted : Booted format jobs dirs) {actions : List (Action Counts Text)}
    (unknown : ∀ action ∈ actions, Unknown jobs action) {state : State Counts Text}
    (taken : run (step format render) (.boot maxConcurrent jobs dirs) actions = some state) :
    Running format jobs state := by
  have meets : StepsMeet (step format render) (fun _ action => Unknown jobs action)
      (.boot maxConcurrent jobs dirs) actions := stepsMeet_of_forall unknown
  exact run_preserves_of_stepsMeet running_step (running_boot booted maxConcurrent) meets taken

/-- What any number of servers leave, one after the other: each starts on what the one
before it left, and is killed at any point of its run. -/
inductive Lives (format : RecordFormat Counts Text) (render : Counts → String) :
    JobMap Counts → JobDirs Text → Prop where
  | first {dirs : JobDirs Text} (sound : DirsSound format dirs) : Lives format render ∅ dirs
  | restart {jobs : JobMap Counts} {dirs : JobDirs Text} {maxConcurrent : Nat}
      {actions : List (Action Counts Text)} {state : State Counts Text}
      {listing : List (String × Files Text)} (lived : Lives format render jobs dirs)
      (unknown : ∀ action ∈ actions, Unknown jobs action)
      (taken : run (step format render) (.boot maxConcurrent jobs dirs) actions = some state)
      (clock : String → Int64) (listed : listing.Perm state.dirs.toList) :
      Lives format render (recover format clock listing state.dirs).jobs
        (recover format clock listing state.dirs).dirs

/-- However often a server is killed and restarted, it starts on the records of its jobs. -/
theorem Lives.booted {jobs : JobMap Counts} {dirs : JobDirs Text}
    (lives : Lives format render jobs dirs) : Booted format jobs dirs := by
  induction lives with
  | first sound => exact booted_new sound
  | restart lived unknown taken clock listed ih =>
    exact booted_recover clock (running_run ih unknown taken).durable.dirs listed

/-- A server is killed at any point of any run and restarted. Every job that was created
is there; one whose end a caller has seen has ended in the same way; any other carries
the terminal record that had reached its `job.json`, or is interrupted and has no
result; and recovering once more changes no record. The submissions of the run read the
clock at other times than those of the jobs found at its start, if there were any. -/
theorem crash_recovery (format : RecordFormat Counts Text) (render : Counts → String)
    (maxConcurrent : Nat) {jobs : JobMap Counts} {dirs : JobDirs Text}
    (booted : Booted format jobs dirs) {actions : List (Action Counts Text)}
    (unknown : ∀ action ∈ actions, Unknown jobs action) {state : State Counts Text}
    (taken : run (step format render) (.boot maxConcurrent jobs dirs) actions = some state)
    (clock : String → Int64) {listing : List (String × Files Text)}
    (listed : listing.Perm state.dirs.toList) :
    let recovered := recover format clock listing state.dirs
    (∀ id, id ∈ state.log.created ∨ id ∈ state.jobs → id ∈ recovered.jobs) ∧
    (∀ (id : String) (record : JobRecord Counts), (id, record) ∈ state.log.observed →
      record.status.isTerminal →
      ∃ entry, recovered.jobs[id]? = some entry ∧ SameOutcome record entry.record) ∧
    (∀ (id : String) (entry : JobEntry Counts), recovered.jobs[id]? = some entry →
      (entry.record.status.isTerminal ∧
        readRecord format (filesAt state.dirs id) = some entry.record) ∨
      (entry.record.status = .interrupted ∧ entry.record.resultPath = none)) ∧
    ∀ (clock' : String → Int64) (listing' : List (String × Files Text)),
      listing'.Perm recovered.dirs.toList →
      ∀ id : String,
        (recover format clock' listing' recovered.dirs).jobs[id]? = recovered.jobs[id]? := by
  intro recovered
  have running : Running format jobs state := running_run booted unknown taken
  have spec := fun id => recover_spec clock running.durable.dirs listed id
  refine ⟨fun id member => ?_, fun id record member terminal => ?_, fun id entry found => ?_,
    fun clock' listing' listed' id => ?_⟩
  · have present : id ∈ state.jobs := member.elim (running.durable.created id) fun member => member
    obtain ⟨record, readable⟩ := readable_of_mem running.invariant present
    apply mem_of_getElem?
    rw [(spec id).1, readable, Option.map_some]
  · obtain ⟨durable, readable, same⟩ := running.durable.onDisk id record member terminal
    refine ⟨⟨durable, none⟩, ?_, same⟩
    rw [(spec id).1, readable, Option.map_some, revive_of_isTerminal (by rw [same.1, terminal])]
  · rw [(spec id).1, Option.map_eq_some_iff] at found
    obtain ⟨record, readable, rfl⟩ := found
    rcases revive_cases (clock id) record with ⟨terminal, same⟩ | interrupted
    · left
      rw [same]
      exact ⟨terminal, readable⟩
    · exact Or.inr interrupted
  · have again := recover_spec clock' (dirsSound_recover clock running.durable.dirs listed)
      listed' id
    rw [again.1, (spec id).2, (spec id).1, Option.map_map]
    congr 1
    funext record
    simp [revive_revive]

/-- A job succeeds and is read; the server is killed while it creates another. -/
def crashedRun : List (Action Unit (JobRecord Unit)) :=
  let id := jobId 5 0
  [.create "SELECT 1" 5, .write id .complete, .write id .rename, .insert id, .spawn id,
    .acquire id, .start id 6, .persist .complete, .persist .rename, .release, .drained id,
    .finish id (.ok (.written "result.parquet" 3)) 7, .persist .complete, .persist .rename,
    .release, .get id, .create "SELECT 2" 8, .write (jobId 8 1) (.scribble (.new "" "" 0))]

theorem crash_recovery_succeeded :
    ∃ state, run (step plainFormat fun _ => "") (.boot 1 ∅ ∅) crashedRun = some state ∧
      ∃ entry,
        (recover plainFormat (fun _ => 9) state.dirs.toList state.dirs).jobs[jobId 5 0]? =
          some entry ∧
        entry.record.status = .succeeded ∧ entry.record.resultPath = some "result.parquet" := by
  have ran : ((run (step plainFormat fun _ => "") (.boot 1 ∅ ∅) crashedRun).any fun state =>
      state.log.observed.any fun seen =>
        seen.1 = jobId 5 0 ∧ seen.2.status = .succeeded ∧
          seen.2.resultPath = some "result.parquet") = true := by
    decide +kernel
  obtain ⟨state, taken, observed⟩ := (Option.any_eq_true _ _).mp ran
  obtain ⟨⟨id, record⟩, seen, matching⟩ := List.any_eq_true.mp observed
  obtain ⟨rfl, succeeded, path⟩ := of_decide_eq_true matching
  have noFiles : DirsSound plainFormat ∅ := by
    intro dir record readable
    rw [filesAt_of_getElem?_none TreeMap.getElem?_emptyc] at readable
    cases readable
  have unknown : ∀ action ∈ crashedRun, Unknown ∅ action :=
    fun _ _ _ _ _ _ => TreeMap.not_mem_emptyc
  obtain ⟨entry, found, same⟩ := (crash_recovery plainFormat _ 1 (booted_new noFiles) unknown taken
    (fun _ => 9) (List.Perm.refl _)).2.1 _ record seen (by rw [succeeded]; rfl)
  exact ⟨state, taken, entry, found, same.1.trans succeeded, same.2.trans path⟩

end Semcast.Jobs
