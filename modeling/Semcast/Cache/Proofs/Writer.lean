import Semcast.Cache.Proofs.Sections
import Semcast.Cache.Writer

/-!
# Durability of the write-behind loop

The groups a writer received are those it settled, in order, and those in its
batch; a transaction takes the whole batch. So the file is what whole groups
make of it, and a flush or the end of the thread finds the groups before it
settled.
-/

namespace Semcast.Writer

open Sqlite Run FirstWrite

/-- The groups among some messages. -/
def groupsOf (messages : List Message) : List (List Row) :=
  messages.filterMap fun message =>
    match message with
    | .rows rows => some rows
    | .flush _ => none

@[simp] theorem groupsOf_append (first second : List Message) :
    groupsOf (first ++ second) = groupsOf first ++ groupsOf second :=
  List.filterMap_append

theorem groupsOf_prefix {first second : List Message} (before : first <+: second) :
    groupsOf first <+: groupsOf second := by
  obtain ⟨rest, rfl⟩ := before
  exact ⟨groupsOf rest, (groupsOf_append first rest).symm⟩

/-- The rows of a transaction. -/
def Transaction.rows : Transaction → List Row
  | .groups taken => taken.flatten
  | .other batch => batch

/-- The groups of this writer in a transaction. -/
def Transaction.own : Transaction → List (List Row)
  | .groups taken => taken
  | .other _ => []

/-- What transactions, one after the other, make of a table. -/
def replay (table : Table) (transactions : List Transaction) : Table :=
  transactions.foldl (fun table transaction => (writeBatch table transaction.rows).1) table

theorem replay_append (table : Table) (transactions : List Transaction)
    (transaction : Transaction) :
    replay table (transactions ++ [transaction]) =
      (writeBatch (replay table transactions) transaction.rows).1 := by
  rw [replay, List.foldl_append]
  rfl

/-- A table after transactions: what it held, and the first row of a new key. -/
theorem replay_apply (table : Table) (transactions : List Transaction) (key : RowKey) :
    replay table transactions key =
      (table key).or ((transactions.flatMap Transaction.rows).find? fun row => row.key = key) := by
  induction transactions generalizing table with
  | nil => simp [replay]
  | cons transaction rest ih =>
    have first : replay table (transaction :: rest) =
        replay (writeBatch table transaction.rows).1 rest := rfl
    rw [first, ih, writeBatch_apply, List.flatMap_cons, List.find?_append, Option.or_assoc]

/-- A row of a transaction has its key in the table: with what the table held before, or with
a row of a transaction. -/
theorem replay_holds (table : Table) {transactions : List Transaction} {row : Row}
    (written : row ∈ transactions.flatMap Transaction.rows) :
    ∃ held, replay table transactions row.key = some held ∧
      (table row.key = some held ∨
        held ∈ transactions.flatMap Transaction.rows ∧ held.key = row.key) := by
  rw [replay_apply]
  cases before : table row.key with
  | some held => exact ⟨held, rfl, Or.inl rfl⟩
  | none =>
    have found : ((transactions.flatMap Transaction.rows).find?
        fun other => other.key = row.key).isSome := by
      rw [List.find?_isSome]
      exact ⟨row, written, by simp⟩
    obtain ⟨held, found⟩ := Option.isSome_iff_exists.mp found
    refine ⟨held, by rw [found, Option.none_or], Or.inr ⟨List.mem_of_find?_eq_some found, ?_⟩⟩
    simpa using List.find?_some found

/-- The rows of a writer's groups are rows of their transactions. -/
theorem rows_of_own {transactions : List Transaction} {group : List Row}
    (own : group ∈ transactions.flatMap Transaction.own) {row : Row} (member : row ∈ group) :
    row ∈ transactions.flatMap Transaction.rows := by
  obtain ⟨transaction, among, own⟩ := List.mem_flatMap.mp own
  refine List.mem_flatMap.mpr ⟨transaction, among, ?_⟩
  cases transaction with
  | groups taken => exact List.mem_flatten_of_mem own member
  | other batch => cases own

/-- The groups whose transaction committed. -/
def Log.committed (log : Log) : List (List Row) :=
  (log.settled.filter Prod.snd).map Prod.fst

/-- The message in the hands of the loop. -/
def Control.next : Control → List Message
  | .gather _ _ next => [next]
  | _ => []

/-- The batch the loop is collecting. -/
def Control.batch : Control → List Row
  | .gather batch _ _ | .tryRecv batch _ | .commit batch _ => batch
  | .recv | .answer _ | .finished => []

/-- The flushes the loop has to answer. -/
def Control.flushes : Control → List Nat
  | .gather _ flushes _ | .tryRecv _ flushes | .commit _ flushes | .answer flushes => flushes
  | .recv | .finished => []

/-- Between two batches. -/
def Control.Idle : Control → Prop
  | .recv | .answer _ | .finished => True
  | _ => False

variable {state next : State}

/-- What a step of the callers or of the thread does. -/
inductive Advances (state : State) (action : Action) : State → Prop where
  | push {message : Message} (isOpen : state.isOpen = true)
      (sends : (∃ rows, action = .send rows ∧ message = .rows rows) ∨
        action = .flush ∧ message = .flush state.log.sent.length) :
      Advances state action (state.push message)
  | drop (isOpen : state.isOpen = true) : Advances state action { state with isOpen := false }
  /-- The loop moves on without touching its batch. -/
  | moveOn {control : Control} {channel : List Message}
      (pending : control.next ++ channel = state.control.next ++ state.channel)
      (batch : control.batch = state.control.batch)
      (flushes : ∀ done ∈ control.flushes, done ∈ state.control.flushes)
      (idle : control.Idle → state.control.Idle)
      (finished : control = .finished → state.isOpen = false ∧ channel = []) :
      Advances state action { state with control, channel }
  | gather {batch : List Row} {flushes : List Nat} {message : Message}
      (gathers : state.control = .gather batch flushes message) :
      Advances state action (state.gather batch flushes message)
  | commit {batch : List Row} {flushes : List Nat} (succeeds : Bool)
      (commits : state.control = .commit batch flushes) :
      Advances state action (state.commit batch flushes succeeds)
  | answer {done : Nat} {rest : List Nat} (answers : state.control = .answer (done :: rest)) :
      Advances state action { state with
        control := .answer rest
        log := { state.log with answered := state.log.answered ++ [done] } }

theorem advance_advances {action : Action} (advanced : state.advance action = some next) :
    Advances state action next := by
  cases action with
  | send rows =>
    simp only [State.advance] at advanced
    split at advanced
    · rename_i isOpen
      cases advanced
      exact .push isOpen (Or.inl ⟨rows, rfl, rfl⟩)
    · cases advanced
  | flush =>
    simp only [State.advance] at advanced
    split at advanced
    · rename_i isOpen
      cases advanced
      exact .push isOpen (Or.inr ⟨rfl, rfl⟩)
    · cases advanced
  | drop =>
    simp only [State.advance] at advanced
    split at advanced
    · rename_i isOpen
      cases advanced
      exact .drop isOpen
    · cases advanced
  | recv =>
    simp only [State.advance] at advanced
    split at advanced
    · rename_i message rest receives waiting
      cases advanced
      apply Advances.moveOn
      · rw [receives, waiting]
        rfl
      · rw [receives]
        rfl
      · exact fun _ none => by cases none
      · exact False.elim
      · exact fun none => by cases none
    · rename_i receives empty
      split at advanced
      · cases advanced
      · rename_i closed
        cases advanced
        apply Advances.moveOn
        · rw [receives]
          rfl
        · rw [receives]
          rfl
        · exact fun _ none => by cases none
        · exact fun _ => by rw [receives]; trivial
        · exact fun _ => ⟨by simpa using closed, empty⟩
    · cases advanced
  | gather =>
    simp only [State.advance] at advanced
    split at advanced
    · rename_i batch flushes message gathers
      cases advanced
      exact .gather gathers
    · cases advanced
  | tryRecv empty =>
    simp only [State.advance] at advanced
    split at advanced
    · rename_i batch flushes tries
      split at advanced
      · cases advanced
        apply Advances.moveOn
        · rw [tries]
          rfl
        · rw [tries]
          rfl
        · rw [tries]
          exact fun _ member => member
        · exact False.elim
        · exact fun none => by cases none
      · split at advanced
        · rename_i message rest waiting
          cases advanced
          apply Advances.moveOn
          · rw [tries, waiting]
            rfl
          · rw [tries]
            rfl
          · rw [tries]
            exact fun _ member => member
          · exact False.elim
          · exact fun none => by cases none
        · cases advanced
    · cases advanced
  | commit succeeds =>
    simp only [State.advance] at advanced
    split at advanced
    · rename_i batch flushes commits
      cases advanced
      exact .commit succeeds commits
    · cases advanced
  | answer =>
    simp only [State.advance] at advanced
    split at advanced
    · rename_i answers
      cases advanced
      apply Advances.moveOn
      · rw [answers]
        rfl
      · rw [answers]
        rfl
      · exact fun _ none => by cases none
      · exact fun _ => by rw [answers]; trivial
      · exact fun none => by cases none
    · rename_i done rest answers
      cases advanced
      exact .answer answers
    · cases advanced
  | other batch => cases advanced
  | crash => cases advanced

/-- A step is one of the running process, or of another one, or its crash. -/
inductive Steps (state : State) (action : Action) : State → Prop where
  | advances {next : State} (running : state.crashed = false)
      (advances : Advances state action next) : Steps state action next
  | other {batch : List Row} (named : action = .other batch) :
      Steps state action { state with
        table := (writeBatch state.table batch).1
        log := { state.log with
          transactions := state.log.transactions ++ [.other batch] } }
  | crash (named : action = .crash) : Steps state action { state with crashed := true }

theorem step_steps {action : Action} (stepped : step state action = some next) :
    Steps state action next := by
  cases action with
  | other batch =>
    cases stepped
    exact .other rfl
  | crash =>
    cases stepped
    exact .crash rfl
  | _ =>
    simp only [step] at stepped
    split at stepped
    · cases stepped
    · rename_i running
      exact .advances (by simpa using running) (advance_advances stepped)

/-- The loop loses no message, settles groups in order and commits them whole. -/
structure Orderly (start : Table) (state : State) : Prop where
  pending : state.log.sent = state.log.received ++ (state.control.next ++ state.channel)
  settled : groupsOf state.log.received = state.log.settled.map Prod.fst ++ state.log.taken
  batch : state.control.batch = state.log.taken.flatten
  idle : state.control.Idle → state.log.taken = []
  table : state.table = replay start state.log.transactions
  committed : state.log.transactions.flatMap Transaction.own = state.log.committed
  collected : ∀ done ∈ state.control.flushes, done < state.log.received.length ∧
    state.log.sent[done]? = some (Message.flush done)
  answered : ∀ done ∈ state.log.answered, state.log.sent[done]? = some (Message.flush done) ∧
    groupsOf (state.log.sent.take done) <+: state.log.settled.map Prod.fst
  numbered : ∀ index done, state.log.sent[index]? = some (Message.flush done) → done = index
  finished : state.control = .finished → state.isOpen = false ∧ state.channel = []

variable {start : Table}

theorem orderly_spawn (start : Table) : Orderly start (.spawn start) where
  pending := rfl
  settled := rfl
  batch := rfl
  idle _ := rfl
  table := rfl
  committed := rfl
  collected _ none := by cases none
  answered _ none := by cases none
  numbered _ _ none := by simp [State.spawn] at none
  finished none := by cases none

/-- A sent message keeps its number. -/
theorem getElem?_sent {sent : List Message} {index : Nat} {found message : Message}
    (stands : sent[index]? = some found) : (sent ++ [message])[index]? = some found := by
  obtain ⟨bound, -⟩ := List.getElem?_eq_some_iff.mp stands
  rw [List.getElem?_append_left bound, stands]

theorem Orderly.push (orderly : Orderly start state) (isOpen : state.isOpen = true)
    {message : Message} (number : ∀ done, message = .flush done → done = state.log.sent.length) :
    Orderly start (state.push message) where
  pending := by
    simp only [State.push, orderly.pending, List.append_assoc]
  settled := orderly.settled
  batch := orderly.batch
  idle := orderly.idle
  table := orderly.table
  committed := orderly.committed
  collected done member := by
    obtain ⟨bound, sent⟩ := orderly.collected done member
    exact ⟨bound, getElem?_sent sent⟩
  answered done member := by
    obtain ⟨sent, before⟩ := orderly.answered done member
    obtain ⟨bound, -⟩ := List.getElem?_eq_some_iff.mp sent
    refine ⟨getElem?_sent sent, ?_⟩
    change groupsOf ((state.log.sent ++ [message]).take done) <+: _
    rw [List.take_append_of_le_length bound.le]
    exact before
  numbered index done sent := by
    change (state.log.sent ++ [message])[index]? = _ at sent
    rw [List.getElem?_append] at sent
    split at sent
    · exact orderly.numbered index done sent
    · obtain ⟨bound, same⟩ := List.getElem?_eq_some_iff.mp sent
      have last : index = state.log.sent.length := by
        simp only [List.length_singleton] at bound
        omega
      rw [List.getElem_singleton] at same
      rw [last]
      exact number done same
  finished ends := by
    have closed := (orderly.finished ends).1
    rw [isOpen] at closed
    cases closed

/-- Closing the channel or a crash changes nothing else. -/
theorem Orderly.flags (orderly : Orderly start state) {isOpen crashed : Bool}
    (closes : state.isOpen = false → isOpen = false) :
    Orderly start { state with isOpen, crashed } where
  pending := orderly.pending
  settled := orderly.settled
  batch := orderly.batch
  idle := orderly.idle
  table := orderly.table
  committed := orderly.committed
  collected := orderly.collected
  answered := orderly.answered
  numbered := orderly.numbered
  finished ends := ⟨closes (orderly.finished ends).1, (orderly.finished ends).2⟩

/-- The loop moves on without touching its batch. -/
theorem Orderly.moveOn (orderly : Orderly start state) {control : Control}
    {channel : List Message}
    (pending : control.next ++ channel = state.control.next ++ state.channel)
    (batch : control.batch = state.control.batch)
    (flushes : ∀ done ∈ control.flushes, done ∈ state.control.flushes)
    (idle : control.Idle → state.control.Idle)
    (finished : control = .finished → state.isOpen = false ∧ channel = []) :
    Orderly start { state with control, channel } where
  pending := by
    rw [pending]
    exact orderly.pending
  settled := orderly.settled
  batch := batch.trans orderly.batch
  idle ends := orderly.idle (idle ends)
  table := orderly.table
  committed := orderly.committed
  collected done member := orderly.collected done (flushes done member)
  answered := orderly.answered
  numbered := orderly.numbered
  finished := finished

theorem Orderly.gather (orderly : Orderly start state) {batch : List Row} {flushes : List Nat}
    {message : Message} (gathers : state.control = .gather batch flushes message) :
    Orderly start (state.gather batch flushes message) := by
  have pending := orderly.pending
  have held := orderly.batch
  have collected := orderly.collected
  rw [gathers] at pending held collected
  have sent : state.log.sent = (state.log.received ++ [message]) ++ state.channel := by
    rw [pending, List.append_assoc]
    rfl
  cases message with
  | rows rows =>
    refine
      { pending := ?_, settled := ?_, batch := ?_, idle := ?_, table := orderly.table,
        committed := orderly.committed, collected := ?_, answered := orderly.answered,
        numbered := orderly.numbered, finished := ?_ }
    · simp only [State.gather]
      split <;> exact sent
    · change groupsOf (state.log.received ++ [.rows rows]) = _
      rw [groupsOf_append, orderly.settled, List.append_assoc]
      rfl
    · change batch = _ at held
      simp only [State.gather, List.flatten_append, ← held]
      split <;> simp [Control.batch]
    · simp only [State.gather]
      split <;> exact False.elim
    · intro done member
      have same : done ∈ flushes := by
        simp only [State.gather] at member
        split at member <;> exact member
      obtain ⟨bound, found⟩ := collected done same
      refine ⟨?_, found⟩
      change done < (state.log.received ++ [_]).length
      rw [List.length_append]
      exact Nat.lt_add_right _ bound
    · simp only [State.gather]
      split <;> exact fun none => by cases none
  | flush done' =>
    refine
      { pending := sent, settled := ?_, batch := held, idle := False.elim, table := orderly.table,
        committed := orderly.committed, collected := ?_, answered := orderly.answered,
        numbered := orderly.numbered, finished := fun none => by cases none }
    · change groupsOf (state.log.received ++ [.flush done']) = _
      rw [groupsOf_append, orderly.settled]
      simp [groupsOf, State.gather]
    · intro done member
      change done < (state.log.received ++ [_]).length ∧ _
      rw [List.length_append]
      rcases List.mem_append.mp member with old | new
      · obtain ⟨bound, found⟩ := collected done old
        exact ⟨Nat.lt_add_right _ bound, found⟩
      · rw [List.mem_singleton] at new
        subst new
        have found : state.log.sent[state.log.received.length]? = some (.flush done) := by
          rw [sent]
          simp
        have number := orderly.numbered _ _ found
        rw [← number] at found
        refine ⟨?_, found⟩
        rw [number]
        exact Nat.lt_succ_self _

/-- A transaction takes the whole batch, and settles its groups. -/
theorem Orderly.commit (orderly : Orderly start state) {batch : List Row} {flushes : List Nat}
    (commits : state.control = .commit batch flushes) (succeeds : Bool) :
    Orderly start (state.commit batch flushes succeeds) := by
  have pending := orderly.pending
  have held := orderly.batch
  have collected := orderly.collected
  rw [commits] at pending held collected
  change batch = state.log.taken.flatten at held
  refine
    { pending := pending, settled := ?_, batch := rfl, idle := fun _ => rfl, table := ?_,
      committed := ?_, collected := collected, answered := ?_, numbered := orderly.numbered,
      finished := fun none => by cases none }
  · simp [State.commit, orderly.settled, List.map_map, Function.comp_def]
  · simp only [State.commit]
    cases empty : batch.isEmpty with
    | true =>
      rw [List.isEmpty_iff] at empty
      simp only [Bool.true_or, if_true, replay_append, ← orderly.table, Transaction.rows, ← held,
        empty]
      rfl
    | false =>
      cases succeeds with
      | true =>
        simp only [Bool.false_or, Bool.not_true, Bool.false_eq_true, if_false, if_true,
          replay_append, ← orderly.table, Transaction.rows, ← held]
      | false => exact orderly.table
  · simp only [State.commit, Log.committed, List.filter_append, List.map_append]
    cases batch.isEmpty || succeeds with
    | true =>
      rw [if_pos rfl, List.flatMap_append, orderly.committed]
      simp [Log.committed, Transaction.own, List.filter_map, Function.comp_def]
    | false =>
      rw [if_neg Bool.false_ne_true, orderly.committed]
      simp [Log.committed, List.filter_map, Function.comp_def]
  · intro done member
    obtain ⟨sent, before⟩ := orderly.answered done member
    refine ⟨sent, before.trans ?_⟩
    simp only [State.commit, List.map_append]
    exact List.prefix_append _ _

/-- A flush is answered behind the transaction of the groups before it. -/
theorem Orderly.answer (orderly : Orderly start state) {done : Nat} {rest : List Nat}
    (answers : state.control = .answer (done :: rest)) :
    Orderly start { state with
      control := .answer rest
      log := { state.log with answered := state.log.answered ++ [done] } } := by
  have pending := orderly.pending
  have collected := orderly.collected
  rw [answers] at pending collected
  have taken : state.log.taken = [] := orderly.idle (by rw [answers]; trivial)
  have settled := orderly.settled
  rw [taken, List.append_nil] at settled
  refine
    { pending := pending, settled := orderly.settled, batch := ?_, idle := fun _ => taken,
      table := orderly.table, committed := orderly.committed,
      collected := fun done member => collected done (List.mem_cons_of_mem _ member),
      answered := ?_, numbered := orderly.numbered, finished := fun none => by cases none }
  · rw [taken]
    rfl
  · intro done' member
    rcases List.mem_append.mp member with old | new
    · exact orderly.answered done' old
    · rw [List.mem_singleton] at new
      subst new
      obtain ⟨bound, sent⟩ := collected done' List.mem_cons_self
      refine ⟨sent, ?_⟩
      rw [← settled]
      apply groupsOf_prefix
      change state.log.sent.take done' <+: _
      rw [pending, List.take_append_of_le_length bound.le]
      exact List.take_prefix _ _

theorem Orderly.other (orderly : Orderly start state) (batch : List Row) :
    Orderly start { state with
      table := (writeBatch state.table batch).1
      log := { state.log with
        transactions := state.log.transactions ++ [.other batch] } } where
  pending := orderly.pending
  settled := orderly.settled
  batch := orderly.batch
  idle := orderly.idle
  table := by
    rw [replay_append, ← orderly.table]
    rfl
  committed := by
    rw [List.flatMap_append, orderly.committed]
    simp [Transaction.own, Log.committed]
  collected := orderly.collected
  answered := orderly.answered
  numbered := orderly.numbered
  finished := orderly.finished

theorem orderly_step {action : Action} (orderly : Orderly start state)
    (stepped : step state action = some next) : Orderly start next := by
  cases step_steps stepped with
  | advances running advances =>
    cases advances with
    | push isOpen sends =>
      apply orderly.push isOpen
      rcases sends with ⟨rows, -, rfl⟩ | ⟨-, rfl⟩
      · exact fun _ none => by cases none
      · exact fun _ same => by cases same; rfl
    | drop => exact orderly.flags fun _ => rfl
    | moveOn pending batch flushes idle finished =>
      exact orderly.moveOn pending batch flushes idle finished
    | gather gathers => exact orderly.gather gathers
    | commit succeeds commits => exact orderly.commit commits succeeds
    | answer answers => exact orderly.answer answers
  | @other batch => exact orderly.other batch
  | crash => exact orderly.flags id

theorem orderly_run {actions : List Action} (reached : run step (.spawn start) actions = some state) :
    Orderly start state :=
  run_preserves (fun _ _ _ => orderly_step) (orderly_spawn start) reached

section Backlog

/-- The groups sent and not yet settled, in order. -/
def State.waiting (state : State) : List (List Row) :=
  state.log.taken ++ groupsOf (state.control.next ++ state.channel)

/-- The writer as `SqliteCache` sees it between its calls. -/
def State.view (blake3 : List UInt8 → List UInt8) (stored : Stored) (state : State) :
    SqliteCache blake3 :=
  ⟨stored, state.waiting, state.table⟩

variable {blake3 : List UInt8 → List UInt8} {stored : Stored}

/-- To the calls of a `SqliteCache` the loop is a backlog: a send adds a group,
and what the thread does in between shows as a transaction over the first
groups, at most. -/
theorem Orderly.refines (orderly : Orderly start state) {action : Action}
    (advances : Advances state action next) :
    (∃ rows, action = .send rows ∧
      next.view blake3 stored =
        { state.view blake3 stored with backlog := state.waiting ++ [rows] }) ∨
    ∃ groups succeeds,
      next.view blake3 stored = (state.view blake3 stored).commit groups succeeds := by
  have unchanged : ∀ next : State, next.waiting = state.waiting → next.table = state.table →
      next.view blake3 stored = (state.view blake3 stored).commit 0 false := by
    intro next waiting table
    simp [State.view, SqliteCache.commit, waiting, table]
  cases advances with
  | push isOpen sends =>
    rcases sends with ⟨rows, named, rfl⟩ | ⟨named, rfl⟩
    · left
      refine ⟨rows, named, ?_⟩
      simp [State.view, State.waiting, State.push, groupsOf]
    · right
      refine ⟨0, false, unchanged _ ?_ rfl⟩
      simp [State.waiting, State.push, groupsOf]
  | drop => exact Or.inr ⟨0, false, unchanged _ rfl rfl⟩
  | moveOn pending =>
    right
    refine ⟨0, false, unchanged _ ?_ rfl⟩
    simp only [State.waiting, pending]
  | @gather batch flushes message gathers =>
    right
    refine ⟨0, false, unchanged _ ?_ ?_⟩
    · cases message with
      | rows rows =>
        simp only [State.waiting, State.gather, gathers]
        split <;> simp [Control.next, groupsOf]
      | flush done => simp [State.waiting, State.gather, gathers, Control.next, groupsOf]
    · cases message <;> rfl
  | @commit batch flushes succeeds commits =>
    right
    have held : batch = state.log.taken.flatten := by
      have held := orderly.batch
      rw [commits] at held
      exact held
    refine ⟨state.log.taken.length, !(batch.isEmpty || !succeeds), ?_⟩
    simp only [State.view, State.waiting, State.commit, SqliteCache.commit, commits, Control.next,
      List.nil_append, List.take_left, List.drop_left, ← held]
    cases batch.isEmpty || !succeeds <;> simp
  | answer answers =>
    right
    refine ⟨0, false, unchanged _ ?_ rfl⟩
    simp [State.waiting, answers, Control.next]

end Backlog

/-- No row of the file is overwritten. -/
theorem step_table {action : Action} (stepped : step state action = some next) :
    Extends state.table next.table := by
  cases step_steps stepped with
  | advances running advances =>
    cases advances with
    | @gather batch flushes message gathers => cases message <;> exact Extends.refl _
    | @commit batch flushes succeeds commits =>
      simp only [State.commit]
      split
      · exact Extends.refl _
      · exact writeBatch_extends _ _
    | _ => exact Extends.refl _
  | other => exact writeBatch_extends _ _
  | crash => exact Extends.refl _

section Drop

/-- How far the thread is from its end once the channel is closed. -/
def State.remaining (state : State) : Nat :=
  6 * state.channel.length +
    match state.control with
    | .gather _ flushes _ => 6 + flushes.length
    | .tryRecv _ flushes => 4 + flushes.length
    | .commit _ flushes => 3 + flushes.length
    | .answer flushes => 2 + flushes.length
    | .recv => 1
    | .finished => 0

/-- The thread of a closed cache takes a step towards its end. -/
theorem advance_closed (closed : state.isOpen = false) (working : state.control ≠ .finished) :
    ∃ action next, state.advance action = some next ∧ next.remaining < state.remaining ∧
      next.isOpen = false ∧ next.crashed = state.crashed := by
  cases stands : state.control with
  | recv =>
    cases waiting : state.channel with
    | nil =>
      refine ⟨.recv, { state with control := .finished }, ?_, ?_, closed, rfl⟩
      · simp [State.advance, stands, waiting, closed]
      · simp [State.remaining, stands, waiting]
    | cons message rest =>
      refine ⟨.recv, { state with channel := rest, control := .gather [] [] message }, ?_, ?_,
        closed, rfl⟩
      · simp [State.advance, stands, waiting]
      · simp only [State.remaining, stands, waiting, List.length_cons, List.length_nil]
        omega
  | gather batch flushes message =>
    refine ⟨.gather, state.gather batch flushes message, ?_, ?_, ?_, ?_⟩
    · simp [State.advance, stands]
    · cases message with
      | rows rows =>
        by_cases full : maxBatch ≤ (batch ++ rows).length
        · simp only [State.gather, State.remaining, stands, if_pos full]
          omega
        · simp only [State.gather, State.remaining, stands, if_neg full]
          omega
      | flush done =>
        simp only [State.gather, State.remaining, stands, List.length_append,
          List.length_singleton]
        omega
    · cases message <;> exact closed
    · cases message <;> rfl
  | tryRecv batch flushes =>
    refine ⟨.tryRecv true, { state with control := .commit batch flushes }, ?_, ?_, closed, rfl⟩
    · simp [State.advance, stands]
    · simp [State.remaining, stands]
  | commit batch flushes =>
    refine ⟨.commit true, state.commit batch flushes true, ?_, ?_, closed, rfl⟩
    · simp [State.advance, stands]
    · simp [State.remaining, State.commit, stands]
  | answer flushes =>
    cases flushes with
    | nil =>
      refine ⟨.answer, { state with control := .recv }, ?_, ?_, closed, rfl⟩
      · simp [State.advance, stands]
      · simp [State.remaining, stands]
    | cons done rest =>
      refine ⟨.answer, { state with
        control := .answer rest
        log := { state.log with answered := state.log.answered ++ [done] } }, ?_, ?_, closed, rfl⟩
      · simp [State.advance, stands]
      · simp [State.remaining, stands]
  | finished => exact absurd stands working

/-- `drop` returns: the thread of a closed cache ends. -/
theorem drop_returns (closed : state.isOpen = false) (running : state.crashed = false) :
    ∃ actions final, run step state actions = some final ∧ final.control = .finished := by
  induction bound : state.remaining using Nat.strong_induction_on generalizing state with
  | _ remaining ih =>
    by_cases working : state.control = .finished
    · exact ⟨[], state, rfl, working⟩
    · obtain ⟨action, next, advanced, less, closed', running'⟩ := advance_closed closed working
      rw [bound] at less
      obtain ⟨actions, final, taken, ends⟩ := ih _ less closed' (running'.trans running) rfl
      have stepped : step state action = some next := by
        cases action with
        | other batch => cases advanced
        | crash => cases advanced
        | _ => simpa [step, running] using advanced
      exact ⟨action :: actions, final, run_cons_eq_some.mpr ⟨next, stepped, taken⟩, ends⟩

end Drop

/-- The write-behind loop is durable and atomic: in every reachable state the
file is what whole transactions make of it, which under a key is what it held at
first, else the first row committed, so that every row of a committed group is
there or gave way to an earlier one, groups settle in the order they were sent, no
row is overwritten, a flush is answered when the groups before it are settled, and
a drop ends the thread, with nothing left waiting. -/
theorem write_loop_durable {actions : List Action}
    (reached : run step (.spawn start) actions = some state) :
    (state.table = replay start state.log.transactions ∧
      state.log.transactions.flatMap Transaction.own = state.log.committed) ∧
    (∀ key, state.table key = (start key).or
      ((state.log.transactions.flatMap Transaction.rows).find? fun row => row.key = key)) ∧
    (∀ group ∈ state.log.committed, ∀ row ∈ group, ∃ held, state.table row.key = some held ∧
      (start row.key = some held ∨
        held ∈ state.log.transactions.flatMap Transaction.rows ∧ held.key = row.key)) ∧
    state.log.settled.map Prod.fst <+: groupsOf state.log.sent ∧
    (∀ later final, run step state later = some final → Extends state.table final.table) ∧
    (∀ done ∈ state.log.answered, state.log.sent[done]? = some (Message.flush done) ∧
      groupsOf (state.log.sent.take done) <+: state.log.settled.map Prod.fst) ∧
    (state.isOpen = false → state.crashed = false →
      ∃ later final, run step state later = some final ∧ final.control = .finished) ∧
    (state.control = .finished →
      state.isOpen = false ∧ state.log.settled.map Prod.fst = groupsOf state.log.sent) := by
  have orderly := orderly_run reached
  refine ⟨⟨orderly.table, orderly.committed⟩, ?_, ?_, ?_, ?_, orderly.answered, drop_returns, ?_⟩
  · intro key
    rw [orderly.table, replay_apply]
  · intro group committed row member
    rw [← orderly.committed] at committed
    rw [orderly.table]
    exact replay_holds start (rows_of_own committed member)
  · rw [orderly.pending, groupsOf_append, orderly.settled, List.append_assoc]
    exact List.prefix_append _ _
  · intro later final taken
    have preserved : ∀ middle action after, Extends state.table middle.table →
        step middle action = some after → Extends state.table after.table :=
      fun middle action after before stepped => before.trans (step_table stepped)
    exact run_preserves preserved (Extends.refl _) taken
  · intro ends
    obtain ⟨closed, empty⟩ := orderly.finished ends
    have taken := orderly.idle (by rw [ends]; trivial)
    refine ⟨closed, ?_⟩
    rw [orderly.pending, ends, empty, groupsOf_append, orderly.settled, taken]
    simp [groupsOf, Control.next]

section Example

/-- A row under a key of one byte. -/
def byteRow (key : UInt8) : Row := ⟨[key], "mentions a refund", "means", "model", "v2", false, "yes"⟩

/-- A group is committed before the flush behind it is answered; the next one is
sent before a drop, and its transaction fails. -/
def flushAndDrop : List Action :=
  [.send [byteRow 1], .flush, .recv, .gather, .tryRecv false, .gather, .commit true, .answer,
    .answer, .send [byteRow 2, byteRow 3], .drop, .recv, .gather, .tryRecv true, .commit false,
    .answer, .recv]

theorem flushAndDrop_durable :
    ∃ state, run step (.spawn fun _ => none) flushAndDrop = some state ∧
      state.log.answered = [1] ∧
      state.log.settled = [([byteRow 1], true), ([byteRow 2, byteRow 3], false)] ∧
      state.table = replay (fun _ => none) [.groups [[byteRow 1]]] ∧
      state.table [1] = some (byteRow 1) ∧ state.table [2] = none ∧
      state.log.settled.map Prod.fst = groupsOf state.log.sent := by
  have ends : (run step (.spawn fun _ => none) flushAndDrop).isSome := by decide +kernel
  have replied : (run step (.spawn fun _ => none) flushAndDrop).map (fun state =>
      (state.control, state.log.answered)) = some (.finished, [1]) := by decide +kernel
  have logged : (run step (.spawn fun _ => none) flushAndDrop).map (fun state =>
      (state.log.settled, state.log.transactions)) =
        some ([([byteRow 1], true), ([byteRow 2, byteRow 3], false)],
          [.groups [[byteRow 1]]]) := by decide +kernel
  obtain ⟨state, reached⟩ := Option.isSome_iff_exists.mp ends
  rw [reached, Option.map_some, Option.some.injEq, Prod.mk.injEq] at replied logged
  obtain ⟨finished, answered⟩ := replied
  obtain ⟨settled, transactions⟩ := logged
  obtain ⟨⟨table, -⟩, rows, -, -, -, -, -, ended⟩ := write_loop_durable reached
  rw [transactions] at table rows
  have kept := rows [1]
  have lost := rows [2]
  exact ⟨state, reached, answered, settled, table, kept, lost, (ended finished).2⟩

end Example

end Semcast.Writer
