import Semcast.Cache.Proofs.Sections

/-!
# What the operators rely on of a cache

A `LawfulSemanticCache` has an entry for every key, under the slot the key has in
it. A get answers with the entry and changes none; a put into an empty slot fills
that slot only. Both caches of the repository are lawful: the slot of a key is
the key itself in memory, and its row key in SQLite.

They part where a slot has an entry. A `WritePolicy` says which puts a cache takes:
all of them, or those into slots whose entry it has neither stored nor returned.
-/

namespace Semcast.Cache

/-- The laws of a `SemanticCache`, over the slots its keys have. -/
class LawfulSemanticCache (C : Type*) [SemanticCache C] where
  Slot : Type
  slot : CacheKey → Slot
  lookup : C → Slot → Option CachedValue
  get_fst : ∀ (cache : C) key, (SemanticCache.get cache key).1 = lookup cache (slot key)
  lookup_get : ∀ (cache : C) key, lookup (SemanticCache.get cache key).2 = lookup cache
  lookup_put_self : ∀ (cache : C) key value, lookup cache (slot key) = none →
    lookup (SemanticCache.put cache key value) (slot key) = some value
  lookup_put_of_ne : ∀ (cache : C) key value other, lookup cache (slot key) = none →
    other ≠ slot key → lookup (SemanticCache.put cache key value) other = lookup cache other

/-- What a cache answers for a key. -/
def answer {C : Type*} [SemanticCache C] [LawfulSemanticCache C] (cache : C) (key : CacheKey) :
    Option CachedValue :=
  LawfulSemanticCache.lookup cache (LawfulSemanticCache.slot (C := C) key)

theorem answer_get {C : Type*} [SemanticCache C] [LawfulSemanticCache C] (cache : C)
    (key : CacheKey) : (SemanticCache.get cache key).1 = answer cache key :=
  LawfulSemanticCache.get_fst cache key

theorem answer_after_get {C : Type*} [SemanticCache C] [LawfulSemanticCache C] (cache : C)
    (key other : CacheKey) : answer (SemanticCache.get cache key).2 other = answer cache other :=
  congrFun (LawfulSemanticCache.lookup_get cache key) _

instance : LawfulSemanticCache InMemoryCache where
  Slot := CacheKey
  slot := id
  lookup cache := cache.entries
  get_fst _ _ := rfl
  lookup_get _ _ := rfl
  lookup_put_self _ _ _ _ := Function.update_self _ _ _
  lookup_put_of_ne _ _ _ _ _ different := Function.update_of_ne different _ _

/-- What a put into a slot with an entry does. -/
class WritePolicy (C : Type*) [SemanticCache C] extends LawfulSemanticCache C where
  /-- Whether a put replaces an entry that a get has returned. -/
  overwrites : Bool
  /-- Whether a put into the slot takes effect. -/
  takes : C → Slot → Bool
  takes_of_empty : ∀ (cache : C) other, lookup cache other = none → takes cache other = true
  takes_get_self : ∀ (cache : C) key, lookup cache (slot key) ≠ none →
    takes (SemanticCache.get cache key).2 (slot key) = overwrites
  takes_get_of_ne : ∀ (cache : C) key other, other ≠ slot key →
    takes (SemanticCache.get cache key).2 other = takes cache other
  lookup_put_taken : ∀ (cache : C) key value, takes cache (slot key) = true →
    lookup (SemanticCache.put cache key value) (slot key) = some value
  lookup_put_refused : ∀ (cache : C) key value, takes cache (slot key) = false →
    lookup (SemanticCache.put cache key value) (slot key) = lookup cache (slot key)
  lookup_put_other : ∀ (cache : C) key value other, other ≠ slot key →
    lookup (SemanticCache.put cache key value) other = lookup cache other
  takes_put_self : ∀ (cache : C) key value,
    takes (SemanticCache.put cache key value) (slot key) = (takes cache (slot key) && overwrites)
  takes_put_of_ne : ∀ (cache : C) key value other, other ≠ slot key →
    takes (SemanticCache.put cache key value) other = takes cache other

theorem InMemoryCache.entries_put_of_ne (cache : InMemoryCache) (key : CacheKey)
    (value : CachedValue) (other : CacheKey) (different : other ≠ key) :
    (cache.put key value).entries other = cache.entries other :=
  Function.update_of_ne different _ _

instance : WritePolicy InMemoryCache where
  overwrites := true
  takes _ _ := true
  takes_of_empty _ _ _ := rfl
  takes_get_self _ _ _ := rfl
  takes_get_of_ne _ _ _ _ := rfl
  lookup_put_taken _ _ _ _ := Function.update_self _ _ _
  lookup_put_refused _ _ _ refused := by cases refused
  lookup_put_other := InMemoryCache.entries_put_of_ne
  takes_put_self _ _ _ := rfl
  takes_put_of_ne _ _ _ _ _ := rfl

section Puts

open LawfulSemanticCache WritePolicy

variable {C : Type*} [SemanticCache C]

/-- Put entries one after the other. -/
def putAll (cache : C) (entries : List (CacheKey × CachedValue)) : C :=
  entries.foldl (fun cache entry => SemanticCache.put cache entry.1 entry.2) cache

@[simp] theorem putAll_nil (cache : C) : putAll cache [] = cache := rfl

@[simp] theorem putAll_cons (cache : C) (entry : CacheKey × CachedValue)
    (rest : List (CacheKey × CachedValue)) :
    putAll cache (entry :: rest) = putAll (SemanticCache.put cache entry.1 entry.2) rest := rfl

variable [WritePolicy C]

theorem lookup_putAll_of_ne {cache : C} {entries : List (CacheKey × CachedValue)}
    {other : Slot C} (apart : ∀ entry ∈ entries, other ≠ slot entry.1) :
    lookup (putAll cache entries) other = lookup cache other := by
  induction entries generalizing cache with
  | nil => rfl
  | cons entry rest ih =>
    obtain ⟨first, others⟩ := List.forall_mem_cons.mp apart
    rw [putAll_cons, ih others, lookup_put_other _ _ _ _ first]

/-- Puts change an entry to one of theirs only. -/
theorem lookup_putAll_cases (cache : C) (entries : List (CacheKey × CachedValue))
    (other : Slot C) :
    lookup (putAll cache entries) other = lookup cache other ∨
      ∃ entry ∈ entries, other = slot entry.1 ∧
        lookup (putAll cache entries) other = some entry.2 := by
  induction entries generalizing cache with
  | nil => exact Or.inl rfl
  | cons entry rest ih =>
    rw [putAll_cons]
    rcases ih (SemanticCache.put cache entry.1 entry.2) with kept | ⟨later, member, into, put⟩
    · rw [kept]
      by_cases same : other = slot entry.1
      · subst same
        cases taken : takes cache (slot entry.1) with
        | true => exact Or.inr ⟨entry, List.mem_cons_self, rfl, lookup_put_taken _ _ _ taken⟩
        | false => exact Or.inl (lookup_put_refused _ _ _ taken)
      · exact Or.inl (lookup_put_other _ _ _ _ same)
    · exact Or.inr ⟨later, List.mem_cons_of_mem _ member, into, put⟩

/-- A slot that takes no puts keeps its entry. -/
theorem lookup_putAll_of_refused {cache : C} {entries : List (CacheKey × CachedValue)}
    {other : Slot C} (refused : takes cache other = false) :
    lookup (putAll cache entries) other = lookup cache other := by
  induction entries generalizing cache with
  | nil => rfl
  | cons entry rest ih =>
    rw [putAll_cons]
    by_cases same : other = slot entry.1
    · subst same
      have still := takes_put_self cache entry.1 entry.2
      rw [refused, Bool.false_and] at still
      rw [ih still, lookup_put_refused _ _ _ refused]
    · rw [ih (by rw [takes_put_of_ne _ _ _ _ same, refused]), lookup_put_other _ _ _ _ same]

/-- Puts of one value leave a slot that holds it as it is. -/
theorem lookup_putAll_of_held {cache : C} {entries : List (CacheKey × CachedValue)}
    {other : Slot C} {value : CachedValue} (held : lookup cache other = some value)
    (agree : ∀ entry ∈ entries, other = slot entry.1 → entry.2 = value) :
    lookup (putAll cache entries) other = some value := by
  induction entries generalizing cache with
  | nil => exact held
  | cons entry rest ih =>
    obtain ⟨first, others⟩ := List.forall_mem_cons.mp agree
    rw [putAll_cons]
    apply ih _ others
    by_cases same : other = slot entry.1
    · subst same
      cases taken : takes cache (slot entry.1) with
      | true => rw [lookup_put_taken _ _ _ taken, first rfl]
      | false => rw [lookup_put_refused _ _ _ taken, held]
    · rw [lookup_put_other _ _ _ _ same, held]

/-- Puts of one value, at least one, fill a slot that takes them. -/
theorem lookup_putAll_of_agree {cache : C} {entries : List (CacheKey × CachedValue)}
    {other : Slot C} {value : CachedValue} (taken : takes cache other = true)
    (put : ∃ entry ∈ entries, other = slot entry.1)
    (agree : ∀ entry ∈ entries, other = slot entry.1 → entry.2 = value) :
    lookup (putAll cache entries) other = some value := by
  induction entries generalizing cache with
  | nil =>
    obtain ⟨entry, none, -⟩ := put
    cases none
  | cons entry rest ih =>
    obtain ⟨first, others⟩ := List.forall_mem_cons.mp agree
    rw [putAll_cons]
    by_cases same : other = slot entry.1
    · subst same
      rw [← first rfl] at others ⊢
      exact lookup_putAll_of_held (lookup_put_taken _ _ _ taken) others
    · obtain ⟨entry', member, same'⟩ := put
      apply ih _ _ others
      · rw [takes_put_of_ne _ _ _ _ same, taken]
      · rcases List.mem_cons.mp member with rfl | later
        · exact absurd same' same
        · exact ⟨entry', later, same'⟩

/-- A slot whose entry no put replaces. -/
structure Held (cache : C) (other : Slot C) (value : CachedValue) : Prop where
  entry : lookup cache other = some value
  refuses : takes cache other = false

theorem Held.get (firstWrite : overwrites C = false) {cache : C} {other : Slot C}
    {value : CachedValue} (held : Held cache other value) (key : CacheKey) :
    Held (SemanticCache.get cache key).2 other value where
  entry := by rw [lookup_get, held.entry]
  refuses := by
    by_cases same : other = slot key
    · subst same
      rw [takes_get_self _ _ (by simp [held.entry]), firstWrite]
    · rw [takes_get_of_ne _ _ _ same, held.refuses]

theorem Held.putAll {cache : C} {other : Slot C} {value : CachedValue}
    (held : Held cache other value) (entries : List (CacheKey × CachedValue)) :
    Held (putAll cache entries) other value where
  entry := by rw [lookup_putAll_of_refused held.refuses, held.entry]
  refuses := by
    have refuses := held.refuses
    clear held
    induction entries generalizing cache with
    | nil => exact refuses
    | cons entry rest ih =>
      apply ih
      by_cases same : other = slot entry.1
      · subst same
        rw [takes_put_self, refuses, Bool.false_and]
      · rw [takes_put_of_ne _ _ _ _ same, refuses]

/-- The first put into a slot holds it. -/
theorem held_putAll_first (firstWrite : overwrites C = false) {cache : C} {key : CacheKey}
    {value : CachedValue} {entries : List (CacheKey × CachedValue)}
    (taken : takes cache (slot key) = true)
    (apart : ∀ entry ∈ entries, slot (C := C) entry.1 = slot key → entry.1 = key)
    (first : entries.lookup key = some value) :
    Held (Cache.putAll cache entries) (slot key) value := by
  induction entries generalizing cache with
  | nil => cases first
  | cons entry rest ih =>
    obtain ⟨entryApart, restApart⟩ := List.forall_mem_cons.mp apart
    rw [List.lookup_cons] at first
    by_cases same : key = entry.1
    · subst same
      rw [beq_self_eq_true, Option.some.injEq] at first
      subst first
      have held : Held (SemanticCache.put cache entry.1 entry.2) (slot entry.1) entry.2 :=
        ⟨lookup_put_taken _ _ _ taken, by rw [takes_put_self, firstWrite, Bool.and_false]⟩
      exact held.putAll rest
    · rw [beq_eq_false_iff_ne.mpr same] at first
      apply ih _ restApart first
      rw [takes_put_of_ne, taken]
      intro sameSlot
      exact same (entryApart sameSlot.symm).symm

end Puts

end Semcast.Cache

namespace Semcast.Sqlite

open Cache FirstWrite

variable {blake3 : List UInt8 → List UInt8}

/-- The verdict a store has under a row key: remembered, or committed. -/
def verdict (cache : SqliteCache blake3) (key : RowKey) : Option CachedValue :=
  (cache.stored key).or (committed cache.table key)

theorem get_fst (cache : SqliteCache blake3) (key : CacheKey) :
    (cache.get key).1 = verdict cache (rowKey blake3 key) := by
  unfold SqliteCache.get verdict
  dsimp only
  cases held : cache.stored (rowKey blake3 key) with
  | some value => rfl
  | none =>
    cases found : committed cache.table (rowKey blake3 key) with
    | none => rfl
    | some value => simp [remember, held]

theorem verdict_get (cache : SqliteCache blake3) (key : CacheKey) :
    verdict (cache.get key).2 = verdict cache := by
  unfold SqliteCache.get
  dsimp only
  cases held : cache.stored (rowKey blake3 key) with
  | some value => rfl
  | none =>
    cases found : committed cache.table (rowKey blake3 key) with
    | none => rfl
    | some value =>
      funext other
      by_cases same : other = rowKey blake3 key
      · subst same
        simp [verdict, remember, insertNew_self, held, found]
      · simp [verdict, remember, insertNew_of_ne same]

theorem put_stored (cache : SqliteCache blake3) (key : CacheKey) (value : CachedValue) :
    (cache.put key value).stored =
      insertNew cache.stored (rowKey blake3 key) value :=
  store_stored blake3 cache.stored [(key, value)]

theorem put_table (cache : SqliteCache blake3) (key : CacheKey) (value : CachedValue) :
    (cache.put key value).table = cache.table := rfl

theorem get_stored_of_ne {cache : SqliteCache blake3} {key : CacheKey} {other : RowKey}
    (different : other ≠ rowKey blake3 key) : (cache.get key).2.stored other = cache.stored other := by
  unfold SqliteCache.get
  dsimp only
  cases held : cache.stored (rowKey blake3 key) with
  | some value => rfl
  | none =>
    cases found : committed cache.table (rowKey blake3 key) with
    | none => rfl
    | some value => exact insertNew_of_ne different value

/-- What a get returns is in memory from then on. -/
theorem get_stored_self {cache : SqliteCache blake3} {key : CacheKey}
    (held : verdict cache (rowKey blake3 key) ≠ none) :
    ((cache.get key).2.stored (rowKey blake3 key)).isNone = false := by
  unfold SqliteCache.get
  dsimp only
  cases stored : cache.stored (rowKey blake3 key) with
  | some value => simp [stored]
  | none =>
    cases found : committed cache.table (rowKey blake3 key) with
    | none => simp [verdict, stored, found] at held
    | some value => simp [remember, insertNew_self]

/-- A put is refused where memory has an entry. -/
theorem put_of_stored {cache : SqliteCache blake3} {key : CacheKey} (value : CachedValue)
    (held : (cache.stored (rowKey blake3 key)).isNone = false) :
    (cache.put key value).stored = cache.stored := by
  rw [put_stored]
  apply insertNew_of_isSome
  simpa [Option.isSome_iff_ne_none] using held

theorem verdict_put_of_ne (cache : SqliteCache blake3) (key : CacheKey) (value : CachedValue)
    (other : RowKey) (different : other ≠ rowKey blake3 key) :
    verdict (cache.put key value) other = verdict cache other := by
  rw [verdict, put_stored, insertNew_of_ne different, put_table, verdict]

theorem verdict_put_taken (cache : SqliteCache blake3) (key : CacheKey) (value : CachedValue)
    (taken : (cache.stored (rowKey blake3 key)).isNone = true) :
    verdict (cache.put key value) (rowKey blake3 key) = some value := by
  rw [verdict, put_stored, insertNew_of_eq_none (Option.isNone_iff_eq_none.mp taken),
    Function.update_self, Option.some_or]

theorem stored_put_self (cache : SqliteCache blake3) (key : CacheKey) (value : CachedValue) :
    ((cache.put key value).stored (rowKey blake3 key)).isNone = false := by
  rw [put_stored, insertNew_self]
  rfl

theorem stored_put_of_ne (cache : SqliteCache blake3) (key : CacheKey) (value : CachedValue)
    (other : RowKey) (different : other ≠ rowKey blake3 key) :
    (cache.put key value).stored other = cache.stored other := by
  rw [put_stored, insertNew_of_ne different]

instance : LawfulSemanticCache (SqliteCache blake3) where
  Slot := RowKey
  slot := rowKey blake3
  lookup := verdict
  get_fst := get_fst
  lookup_get := verdict_get
  lookup_put_self cache key value empty := by
    apply verdict_put_taken
    rw [(Option.or_eq_none_iff.mp empty).1, Option.isNone_none]
  lookup_put_of_ne cache key value other _ different := verdict_put_of_ne cache key value other different

instance : WritePolicy (SqliteCache blake3) where
  overwrites := false
  takes cache other := (cache.stored other).isNone
  takes_of_empty cache other empty := by
    rw [(Option.or_eq_none_iff.mp empty).1, Option.isNone_none]
  takes_get_self _ _ held := get_stored_self held
  takes_get_of_ne _ _ _ different := congrArg Option.isNone (get_stored_of_ne different)
  lookup_put_taken := verdict_put_taken
  lookup_put_refused cache key value refused := by
    change verdict (cache.put key value) _ = verdict cache _
    rw [verdict, put_of_stored value refused, put_table, verdict]
  lookup_put_other := verdict_put_of_ne
  takes_put_self cache key value := by
    rw [Bool.and_false]
    exact stored_put_self cache key value
  takes_put_of_ne cache key value other different :=
    congrArg Option.isNone (stored_put_of_ne cache key value other different)

end Semcast.Sqlite
