import Mathlib.Logic.Relation
import Semcast.Cache.Proofs.Lawful

/-!
# Gets in a row, and groups of puts

Gets change what a cache knows of its slots, never an entry. A cache that writes groups takes
the entries of a `put_many` as it takes them one after the other, so what it answers
afterwards follows from the laws of a single put. Both caches of the repository do.
-/

namespace Semcast.Cache

open LawfulSemanticCache WritePolicy

section Reads

variable {C : Type*} [SemanticCache C]

/-- The cache after some gets. -/
def Reads : C → C → Prop :=
  Relation.ReflTransGen fun cache after => ∃ key, after = (SemanticCache.get cache key).2

theorem Reads.refl (cache : C) : Reads cache cache := Relation.ReflTransGen.refl

theorem Reads.trans {first second third : C} (begins : Reads first second)
    (ends : Reads second third) : Reads first third :=
  Relation.ReflTransGen.trans begins ends

theorem Reads.get (cache : C) (key : CacheKey) : Reads cache (SemanticCache.get cache key).2 :=
  Relation.ReflTransGen.single ⟨key, rfl⟩

/-- Gets change no entry. -/
theorem Reads.lookup_eq [LawfulSemanticCache C] {cache after : C} (reads : Reads cache after) :
    lookup after = lookup cache := by
  induction reads with
  | refl => rfl
  | tail _ got ih =>
    obtain ⟨key, rfl⟩ := got
    rw [lookup_get, ih]

variable [WritePolicy C]

/-- A put into the slot takes effect, whatever is read before: it is empty, or puts replace
what they find. -/
def Open (cache : C) (other : Slot C) : Prop :=
  lookup cache other = none ∨ overwrites C = true ∧ takes cache other = true

theorem Open.takes {cache : C} {other : Slot C} (isOpen : Open cache other) :
    takes cache other = true := by
  rcases isOpen with empty | ⟨-, taken⟩
  · exact takes_of_empty _ _ empty
  · exact taken

theorem Open.reads {cache after : C} {other : Slot C} (isOpen : Open cache other)
    (reads : Reads cache after) : Open after other := by
  induction reads with
  | refl => exact isOpen
  | @tail middle _ _ got ih =>
    obtain ⟨key, rfl⟩ := got
    rcases ih with empty | ⟨replaces, taken⟩
    · exact Or.inl (by rwa [lookup_get])
    · refine Or.inr ⟨replaces, ?_⟩
      by_cases same : other = slot key
      · subst same
        by_cases held : lookup middle (slot key) = none
        · apply takes_of_empty
          rwa [lookup_get]
        · rw [takes_get_self _ _ held, replaces]
      · rw [takes_get_of_ne _ _ _ same, taken]

end Reads

/-- Put groups one after the other. -/
def putAllGroups {C : Type*} [SemanticCache C] (cache : C)
    (groups : List (List (CacheKey × CachedValue))) : C :=
  groups.foldl SemanticCache.putMany cache

/-- A cache that takes a `put_many` as the puts of its entries. -/
class WritesGroups (C : Type*) [SemanticCache C] extends WritePolicy C where
  lookup_putMany : ∀ (cache : C) entries,
    lookup (SemanticCache.putMany cache entries) = lookup (putAll cache entries)
  takes_putMany : ∀ (cache : C) entries,
    takes (SemanticCache.putMany cache entries) = takes (putAll cache entries)

instance : WritesGroups InMemoryCache where
  lookup_putMany _ _ := rfl
  takes_putMany _ _ := rfl

section Puts

variable {C : Type*} [SemanticCache C] [WritePolicy C]

/-- What puts do depends on what the cache holds and takes. -/
theorem putAll_congr {cache cache' : C} (held : lookup cache = lookup cache')
    (taken : takes cache = takes cache') (entries : List (CacheKey × CachedValue)) :
    lookup (putAll cache entries) = lookup (putAll cache' entries) ∧
      takes (putAll cache entries) = takes (putAll cache' entries) := by
  induction entries generalizing cache cache' with
  | nil => exact ⟨held, taken⟩
  | cons entry rest ih =>
    rw [putAll_cons, putAll_cons]
    refine ih (funext fun other => ?_) (funext fun other => ?_)
    · by_cases same : other = slot entry.1
      · subst same
        cases accepts : takes cache (slot entry.1) with
        | true =>
          rw [lookup_put_taken _ _ _ accepts, lookup_put_taken _ _ _ (taken ▸ accepts)]
        | false =>
          rw [lookup_put_refused _ _ _ accepts, lookup_put_refused _ _ _ (taken ▸ accepts), held]
      · rw [lookup_put_other _ _ _ _ same, lookup_put_other _ _ _ _ same, held]
    · by_cases same : other = slot entry.1
      · subst same
        rw [takes_put_self, takes_put_self, taken]
      · rw [takes_put_of_ne _ _ _ _ same, takes_put_of_ne _ _ _ _ same, taken]

omit [WritePolicy C] in
theorem putAll_append (cache : C) (first second : List (CacheKey × CachedValue)) :
    putAll cache (first ++ second) = putAll (putAll cache first) second :=
  List.foldl_append

/-- A slot that takes a put holds the value of some put into it afterwards. -/
theorem exists_lookup_putAll {cache : C} {entries : List (CacheKey × CachedValue)}
    {other : Slot C} (taken : takes cache other = true)
    (put : ∃ entry ∈ entries, slot entry.1 = other) :
    ∃ entry ∈ entries, slot entry.1 = other ∧
      lookup (putAll cache entries) other = some entry.2 := by
  induction entries generalizing cache with
  | nil =>
    obtain ⟨entry, none, -⟩ := put
    cases none
  | cons entry rest ih =>
    rw [putAll_cons]
    by_cases later : ∃ entry ∈ rest, slot entry.1 = other
    · by_cases still : takes (SemanticCache.put cache entry.1 entry.2) other = true
      · obtain ⟨found, member, there, holds⟩ := ih still later
        exact ⟨found, List.mem_cons_of_mem _ member, there, holds⟩
      · -- The slot refuses from here on: the first entry has gone into it.
        have refused := Bool.eq_false_of_not_eq_true still
        have here : other = slot entry.1 := by
          by_contra different
          rw [takes_put_of_ne _ _ _ _ different, taken] at refused
          cases refused
        refine ⟨entry, List.mem_cons_self, here.symm, ?_⟩
        rw [lookup_putAll_of_refused refused, here, lookup_put_taken _ _ _ (here ▸ taken)]
    · obtain ⟨found, member, there⟩ := put
      rcases List.mem_cons.mp member with rfl | inside
      · refine ⟨found, List.mem_cons_self, there, ?_⟩
        rw [lookup_putAll_of_ne, ← there, lookup_put_taken _ _ _ (there.symm ▸ taken)]
        intro entry inside same
        exact later ⟨entry, inside, same.symm⟩
      · exact absurd ⟨found, inside, there⟩ later

end Puts

section Groups

variable {C : Type*} [SemanticCache C] [WritesGroups C]

/-- Groups are taken as their entries. -/
theorem putAllGroups_eq (cache : C) (groups : List (List (CacheKey × CachedValue))) :
    lookup (putAllGroups cache groups) = lookup (putAll cache groups.flatten) ∧
      takes (putAllGroups cache groups) = takes (putAll cache groups.flatten) := by
  induction groups generalizing cache with
  | nil => exact ⟨rfl, rfl⟩
  | cons group rest ih =>
    obtain ⟨held, taken⟩ := ih (SemanticCache.putMany cache group)
    obtain ⟨held', taken'⟩ := putAll_congr (WritesGroups.lookup_putMany cache group)
      (WritesGroups.takes_putMany cache group) rest.flatten
    rw [List.flatten_cons, putAll_append]
    exact ⟨held.trans held', taken.trans taken'⟩

end Groups

/-! ## Asking through a cache -/

section Asking

variable {C : Type*} [SemanticCache C]

/-- The text that a cache has under a key. -/
def valueOf [LawfulSemanticCache C] (cache : C) (key : CacheKey) : Option String :=
  match answer cache key with
  | some (.value text) => some text
  | _ => none

theorem valueOf_congr [LawfulSemanticCache C] {cache cache' : C} {key key' : CacheKey}
    (same : answer cache key = answer cache' key') : valueOf cache key = valueOf cache' key' := by
  rw [valueOf, valueOf, same]

/-- A text as an entry. -/
def valueEntry (put : CacheKey × String) : CacheKey × CachedValue :=
  (put.1, .value put.2)

/-- A run that reads a cache, then puts texts into it. -/
def Filled (cache after : C) (puts : List (CacheKey × String)) : Prop :=
  ∃ read, Reads cache read ∧ after = putAll read (puts.map valueEntry)

variable [WritePolicy C] {cache after : C} {puts : List (CacheKey × String)} {key : CacheKey}

/-- A key that nothing is put under keeps its text. -/
theorem Filled.valueOf_kept (filled : Filled cache after puts)
    (apart : ∀ put ∈ puts, slot (C := C) put.1 ≠ slot key) :
    valueOf after key = valueOf cache key := by
  obtain ⟨read, reads, rfl⟩ := filled
  refine valueOf_congr ?_
  rw [answer, lookup_putAll_of_ne, reads.lookup_eq, answer]
  intro entry member same
  obtain ⟨put, inside, rfl⟩ := List.mem_map.mp member
  exact apart put inside same.symm

/-- A key that something is put under has one of the texts that are. -/
theorem Filled.valueOf_put (filled : Filled cache after puts) (isOpen : Open cache (slot key))
    (put : ∃ put ∈ puts, slot (C := C) put.1 = slot key) :
    ∃ put ∈ puts, slot (C := C) put.1 = slot key ∧ valueOf after key = some put.2 := by
  obtain ⟨read, reads, rfl⟩ := filled
  obtain ⟨own, inside, there⟩ := put
  obtain ⟨entry, member, into, held⟩ := exists_lookup_putAll (isOpen.reads reads).takes
    ⟨valueEntry own, List.mem_map_of_mem inside, there⟩
  obtain ⟨found, among, rfl⟩ := List.mem_map.mp member
  exact ⟨found, among, into, by rw [valueOf, answer, held]; rfl⟩

end Asking

end Semcast.Cache

namespace Semcast.Sqlite

open Cache FirstWrite

variable {blake3 : List UInt8 → List UInt8}

theorem putAll_stored (cache : SqliteCache blake3) (entries : List (CacheKey × CachedValue)) :
    (putAll cache entries).stored =
        insertAllNew cache.stored (entries.map (storedEntry blake3)) ∧
      (putAll cache entries).table = cache.table := by
  induction entries generalizing cache with
  | nil => exact ⟨rfl, rfl⟩
  | cons entry rest ih =>
    obtain ⟨stored, table⟩ := ih (cache.put entry.1 entry.2)
    rw [put_stored] at stored
    rw [put_table] at table
    exact ⟨stored, table⟩

theorem putMany_stored (cache : SqliteCache blake3) (entries : List (CacheKey × CachedValue)) :
    (cache.putMany entries).stored =
      insertAllNew cache.stored (entries.map (storedEntry blake3)) :=
  store_stored blake3 cache.stored entries

theorem putMany_table (cache : SqliteCache blake3) (entries : List (CacheKey × CachedValue)) :
    (cache.putMany entries).table = cache.table := rfl

instance : WritesGroups (SqliteCache blake3) where
  lookup_putMany cache entries := by
    obtain ⟨stored, table⟩ := putAll_stored cache entries
    change verdict (cache.putMany entries) = verdict (putAll cache entries)
    funext key
    rw [verdict, verdict, stored, table, putMany_stored, putMany_table]
  takes_putMany cache entries := by
    obtain ⟨stored, -⟩ := putAll_stored cache entries
    funext key
    change ((cache.putMany entries).stored key).isNone = ((putAll cache entries).stored key).isNone
    rw [stored, putMany_stored]

end Semcast.Sqlite
