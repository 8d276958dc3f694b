import Mathlib.Data.Set.Function
import Semcast.Cache.Proofs.Sections

/-!
# Histories of calls on one cache

What a cache answers over a history of calls, with the writer's commits placed
anywhere between them. `SqliteCache` answers every get with the first value put
under its key, `InMemoryCache` with the latest, so the two agree on a history
exactly when no get in it tells these apart.
-/

namespace Semcast.Cache

open FirstWrite Sqlite

/-- An entry of a put. -/
abbrev Entry := CacheKey × CachedValue

/-- One call of a history, or a transaction of the writer in between. -/
inductive Call where
  | get (key : CacheKey)
  | put (key : CacheKey) (value : CachedValue)
  | putMany (entries : List Entry)
  | commit (groups : Nat) (succeeds : Bool)
  deriving DecidableEq

/-- The entries a call puts. -/
def Call.puts : Call → List Entry
  | .get _ => []
  | .put key value => [(key, value)]
  | .putMany entries => entries
  | .commit _ _ => []

/-- The keys a call names. -/
def Call.keys : Call → List CacheKey
  | .get key => [key]
  | .put key _ => [key]
  | .putMany entries => entries.map Prod.fst
  | .commit _ _ => []

/-- What a cache answers to the gets of a history. `commit` is what a transaction
of its writer does, if it has one. -/
def answers {C : Type*} [SemanticCache C] (commit : C → Nat → Bool → C) :
    C → List Call → List (Option CachedValue)
  | _, [] => []
  | cache, .get key :: rest =>
    (SemanticCache.get cache key).1 :: answers commit (SemanticCache.get cache key).2 rest
  | cache, .put key value :: rest => answers commit (SemanticCache.put cache key value) rest
  | cache, .putMany entries :: rest => answers commit (SemanticCache.putMany cache entries) rest
  | cache, .commit groups succeeds :: rest => answers commit (commit cache groups succeeds) rest

/-- What the gets of a history read from the entries put so far. -/
def answersBy (read : List Entry → CacheKey → Option CachedValue) :
    List Entry → List Call → List (Option CachedValue)
  | _, [] => []
  | puts, .get key :: rest => read puts key :: answersBy read puts rest
  | puts, .put key value :: rest => answersBy read (puts ++ [(key, value)]) rest
  | puts, .putMany entries :: rest => answersBy read (puts ++ entries) rest
  | puts, .commit _ _ :: rest => answersBy read puts rest

/-- The value of the first put of a key. -/
def firstPut (puts : List Entry) (key : CacheKey) : Option CachedValue :=
  puts.lookup key

/-- The value of the latest put of a key. -/
def latestPut (puts : List Entry) (key : CacheKey) : Option CachedValue :=
  puts.reverse.lookup key

/-- Two readings answer a history alike exactly when each get reads alike. -/
theorem answersBy_eq_iff (read read' : List Entry → CacheKey → Option CachedValue)
    (puts : List Entry) (history : List Call) :
    answersBy read puts history = answersBy read' puts history ↔
      ∀ before key after, history = before ++ .get key :: after →
        read (puts ++ before.flatMap Call.puts) key =
          read' (puts ++ before.flatMap Call.puts) key := by
  induction history generalizing puts with
  | nil => simp [answersBy]
  | cons call rest ih =>
    -- The get at hand, or one of the gets after this call.
    have split : (∀ before key after, call :: rest = before ++ .get key :: after →
        read (puts ++ before.flatMap Call.puts) key =
          read' (puts ++ before.flatMap Call.puts) key) ↔
        (∀ key, call = .get key → read puts key = read' puts key) ∧
          ∀ before key after, rest = before ++ .get key :: after →
            read (puts ++ call.puts ++ before.flatMap Call.puts) key =
              read' (puts ++ call.puts ++ before.flatMap Call.puts) key := by
      constructor
      · intro alike
        constructor
        · rintro key rfl
          simpa using alike [] key rest rfl
        · rintro before key after rfl
          simpa [List.append_assoc] using alike (call :: before) key after rfl
      · rintro ⟨now, later⟩ before key after taken
        cases before with
        | nil =>
          cases taken
          simpa using now key rfl
        | cons first before =>
          cases taken
          simpa [List.append_assoc] using later before key after rfl
    rw [split]
    cases call with
    | get key => simp [answersBy, ih, Call.puts]
    | put key value => simp [answersBy, ih, Call.puts]
    | putMany entries => simp [answersBy, ih, Call.puts]
    | commit groups succeeds => simp [answersBy, ih, Call.puts]

section InMemory

/-- `HashMap::insert` keeps the latest value of each key. -/
theorem foldl_put_entries (puts entries : List Entry) {cache : InMemoryCache}
    (latest : cache.entries = latestPut puts) :
    (entries.foldl (fun cache entry => SemanticCache.put cache entry.1 entry.2) cache).entries =
      latestPut (puts ++ entries) := by
  induction entries generalizing puts cache with
  | nil => simpa using latest
  | cons entry rest ih =>
    rw [List.foldl_cons, ← List.singleton_append, ← List.append_assoc]
    apply ih
    funext key
    change Function.update cache.entries entry.1 (some entry.2) key =
      ((puts ++ [entry]).reverse).lookup key
    rw [latest, List.reverse_append, List.reverse_singleton, List.singleton_append,
      List.lookup_cons]
    by_cases same : key = entry.1
    · subst same
      rw [Function.update_self, beq_self_eq_true]
    · rw [Function.update_of_ne same, beq_eq_false_iff_ne.mpr same]
      rfl

/-- The in-memory cache answers with the latest value. -/
theorem answers_inMemory (puts : List Entry) {cache : InMemoryCache}
    (latest : cache.entries = latestPut puts) (history : List Call) :
    answers (fun cache _ _ => cache) cache history = answersBy latestPut puts history := by
  induction history generalizing puts cache with
  | nil => rfl
  | cons call rest ih =>
    cases call with
    | get key =>
      change cache.entries key :: _ = latestPut puts key :: _
      rw [latest]
      exact congrArg _ (ih puts latest)
    | put key value => exact ih _ (foldl_put_entries puts [(key, value)] latest)
    | putMany entries => exact ih _ (foldl_put_entries puts entries latest)
    | commit groups succeeds => exact ih puts latest

end InMemory

section Sqlite

variable {blake3 : List UInt8 → List UInt8}

/-- A store with one writer: the memory holds the first value put under each row
key, and every row committed or on its way to disk. -/
structure Remembers (puts : List Entry) (cache : SqliteCache blake3) : Prop where
  stored : ∀ key, cache.stored key = (puts.map (storedEntry blake3)).lookup key
  committed : ∀ key row, cache.table key = some row → cache.stored key = some row.verdict
  backlog : ∀ group ∈ cache.backlog, ∀ row ∈ group, cache.stored row.key = some row.verdict

theorem remembers_open : Remembers [] (SqliteCache.open : SqliteCache blake3) where
  stored _ := rfl
  committed _ _ held := by cases held
  backlog _ member := by cases member

/-- What an instance has committed it still remembers, so a get changes nothing. -/
theorem Remembers.get {puts : List Entry} {cache : SqliteCache blake3}
    (remembers : Remembers puts cache) (key : CacheKey) :
    cache.get key = (cache.stored (rowKey blake3 key), cache) := by
  unfold SqliteCache.get
  dsimp only
  cases held : cache.stored (rowKey blake3 key) with
  | some value => rfl
  | none =>
    cases found : cache.table (rowKey blake3 key) with
    | none => simp [Sqlite.committed, found]
    | some row =>
      rw [remembers.committed _ row found] at held
      cases held

theorem Remembers.putMany {puts : List Entry} {cache : SqliteCache blake3}
    (remembers : Remembers puts cache) (entries : List Entry) :
    Remembers (puts ++ entries) (cache.putMany entries) := by
  have stored : (cache.putMany entries).stored =
      insertAllNew cache.stored (entries.map (storedEntry blake3)) :=
    store_stored blake3 cache.stored entries
  have keeps : Extends cache.stored (cache.putMany entries).stored := by
    rw [stored]
    exact insertAllNew_extends _ _
  refine ⟨?_, fun key row held => keeps _ _ (remembers.committed key row held), ?_⟩
  · intro key
    rw [stored, insertAllNew_apply, remembers.stored, List.map_append, List.lookup_append]
  · intro group member row inGroup
    simp only [SqliteCache.putMany] at member
    split at member
    · exact keeps _ _ (remembers.backlog group member row inGroup)
    · rcases List.mem_append.mp member with old | new
      · exact keeps _ _ (remembers.backlog group old row inGroup)
      · rw [List.mem_singleton] at new
        subst new
        exact store_rows_stored blake3 inGroup

theorem Remembers.commit {puts : List Entry} {cache : SqliteCache blake3}
    (remembers : Remembers puts cache) (groups : Nat) (succeeds : Bool) :
    Remembers puts (cache.commit groups succeeds) := by
  refine ⟨remembers.stored, ?_, ?_⟩
  · intro key row held
    cases succeeds with
    | false => exact remembers.committed key row held
    | true =>
      rcases writeBatch_eq_some held with old | ⟨-, member, rfl⟩
      · exact remembers.committed key row old
      · obtain ⟨group, taken, inGroup⟩ := List.mem_flatten.mp member
        exact remembers.backlog group (List.mem_of_mem_take taken) row inGroup
  · intro group member
    exact remembers.backlog group (List.mem_of_mem_drop member)

/-- SQLite answers with the first value, wherever its writer commits. -/
theorem answers_sqlite {keys : Set CacheKey} (injective : Set.InjOn (rowKey blake3) keys)
    {puts : List Entry} {cache : SqliteCache blake3} (remembers : Remembers puts cache)
    (named : ∀ entry ∈ puts, entry.1 ∈ keys) {history : List Call}
    (calls : ∀ call ∈ history, ∀ key ∈ call.keys, key ∈ keys) :
    answers SqliteCache.commit cache history = answersBy firstPut puts history := by
  induction history generalizing puts cache with
  | nil => rfl
  | cons call rest ih =>
    obtain ⟨callNamed, restNamed⟩ := List.forall_mem_cons.mp calls
    cases call with
    | get key =>
      have mem : key ∈ keys := callNamed key List.mem_cons_self
      have got := remembers.get key
      change (cache.get key).1 :: answers _ (cache.get key).2 rest =
        puts.lookup key :: answersBy firstPut puts rest
      rw [got, remembers.stored, lookup_storedEntry blake3 injective named mem,
        ih remembers named restNamed]
    | put key value =>
      refine ih (remembers.putMany [(key, value)]) ?_ restNamed
      intro entry member
      rcases List.mem_append.mp member with old | new
      · exact named entry old
      · rw [List.mem_singleton] at new
        subst new
        exact callNamed key List.mem_cons_self
    | putMany entries =>
      refine ih (remembers.putMany entries) ?_ restNamed
      intro entry member
      rcases List.mem_append.mp member with old | new
      · exact named entry old
      · exact callNamed entry.1 (List.mem_map_of_mem new)
    | commit groups succeeds => exact ih (remembers.commit groups succeeds) named restNamed

end Sqlite

/-- The two caches answer a history alike, and with the first value put, exactly
when at every get the latest put of its key carries the value of the first. -/
theorem caches_interchangeable_iff {blake3 : List UInt8 → List UInt8} (history : List Call)
    (injective : Set.InjOn (rowKey blake3) {key | ∃ call ∈ history, key ∈ call.keys}) :
    (answers (fun cache _ _ => cache) InMemoryCache.default history =
        answers SqliteCache.commit (SqliteCache.open : SqliteCache blake3) history ∧
      answers SqliteCache.commit (SqliteCache.open : SqliteCache blake3) history =
        answersBy firstPut [] history) ↔
    ∀ before key after, history = before ++ .get key :: after →
      latestPut (before.flatMap Call.puts) key = firstPut (before.flatMap Call.puts) key := by
  have memory : answers (fun cache _ _ => cache) InMemoryCache.default history =
      answersBy latestPut [] history := answers_inMemory [] rfl history
  have sqlite : answers SqliteCache.commit (SqliteCache.open : SqliteCache blake3) history =
      answersBy firstPut [] history :=
    answers_sqlite injective remembers_open (fun _ none => by cases none)
      fun call member key named => ⟨call, member, named⟩
  rw [memory, sqlite, answersBy_eq_iff]
  simp

section Counterexample

/-- The key of a verdict about a document. -/
def verdictKey : CacheKey :=
  { typeVersion := "mentions a refund", field := "means", inputDigest := 7
    modelId := ⟨"model"⟩, promptVersion := "means-v2" }

/-- After a second put of one key the in-memory cache answers with the second
value, SQLite with the first. -/
theorem second_put_tells_caches_apart :
    let history : List Call :=
      [.put verdictKey (.value "yes"), .put verdictKey (.value "no"), .get verdictKey]
    answers (fun cache _ _ => cache) InMemoryCache.default history = [some (.value "no")] ∧
      answers SqliteCache.commit (SqliteCache.open : SqliteCache id) history =
        [some (.value "yes")] ∧
      answersBy firstPut [] history = [some (.value "yes")] := by
  decide +kernel

/-- A second put of the same value does not, also after a commit. -/
theorem same_put_interchangeable :
    let history : List Call := [.put verdictKey (.value "yes"), .commit 1 true,
      .put verdictKey (.value "yes"), .get verdictKey]
    answers (fun cache _ _ => cache) InMemoryCache.default history =
        answers SqliteCache.commit (SqliteCache.open : SqliteCache id) history ∧
      answers SqliteCache.commit (SqliteCache.open : SqliteCache id) history =
        answersBy firstPut [] history := by
  intro history
  have injective : Set.InjOn (rowKey id) {key | ∃ call ∈ history, key ∈ call.keys} := by
    intro key first key' second _
    simp only [history, List.mem_cons, List.not_mem_nil, or_false, exists_eq_or_imp,
      Set.mem_ofPred_eq, exists_eq_left, Call.keys, false_or, or_self] at first second
    rw [first, second]
  refine (caches_interchangeable_iff history injective).mpr ?_
  intro before key after taken
  have entries : ∀ entry ∈ before.flatMap Call.puts, entry = (verdictKey, .value "yes") := by
    intro entry member
    have : entry ∈ history.flatMap Call.puts := by
      rw [taken, List.flatMap_append]
      exact List.mem_append_left _ member
    simpa [history, Call.puts] using this
  generalize before.flatMap Call.puts = puts at entries
  rw [List.eq_replicate_of_mem entries, latestPut, firstPut, List.reverse_replicate]

end Counterexample

end Semcast.Cache
