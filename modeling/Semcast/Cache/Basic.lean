import Mathlib.Algebra.Group.Nat.Defs
import Mathlib.Logic.Function.Basic
import Semcast.Model.Basic

/-!
# The verdict cache

Rendering of `src/cache/mod.rs`: provenance keys, cached verdicts, the
`SemanticCache` trait and its in-memory implementation. `blake3` stands for the
hash of the `blake3` crate, which is outside the repository.
-/

namespace Semcast.Cache

open Model

/-- `u64::to_le_bytes` and `u128::to_le_bytes`: the `count` low bytes of `n`. -/
def toLeBytes (count n : Nat) : List UInt8 :=
  (List.range count).map fun index => UInt8.ofNat (n / 256 ^ index)

/-- `u128::from_le_bytes`. -/
def fromLeBytes (bytes : List UInt8) : Nat :=
  bytes.foldr (fun byte rest => byte.toNat + 256 * rest) 0

/-- `str::as_bytes`. -/
def asBytes (text : String) : List UInt8 :=
  text.toUTF8.data.toList

/-- `stable_digest` (`src/cache/mod.rs:23-33`): BLAKE3 over each part's length (`u64`,
little-endian) followed by its bytes, truncated to the first 16 bytes. -/
def stableDigest (blake3 : List UInt8 → List UInt8) (parts : List (List UInt8)) :
    BitVec 128 :=
  let input := parts.flatMap fun part => toLeBytes 8 part.length ++ part
  BitVec.ofNat 128 (fromLeBytes ((blake3 input).take 16))

/-- `CacheKey` (`src/cache/mod.rs:38-47`): full provenance of one model verdict. -/
structure CacheKey where
  /-- Semantic type name and version, or the `MEANS` condition for predicates. -/
  typeVersion : String
  field : String
  /-- `stableDigest` of the input value sent. -/
  inputDigest : BitVec 128
  modelId : ModelId
  promptVersion : String
  deriving DecidableEq

/-- `CachedValue` (`src/cache/mod.rs:52-55`): the decoded value, or the error the row failed
with. -/
inductive CachedValue where
  | value (value : String)
  | error (error : String)
  deriving DecidableEq

/-- `SemanticCache` (`src/cache/mod.rs:57-69`, `src/cache/mod.rs:79-81`). Both calls take `&self`;
what they change is passed on explicitly. The default `putMany` puts one entry after the other. -/
class SemanticCache (C : Type*) where
  get : C → CacheKey → Option CachedValue × C
  put : C → CacheKey → CachedValue → C
  putMany : C → List (CacheKey × CachedValue) → C := fun cache entries =>
    entries.foldl (fun cache entry => put cache entry.1 entry.2) cache

/-- `InMemoryCache` (`src/cache/mod.rs:74-76`): its `HashMap`, as the function that looks a key
up. -/
structure InMemoryCache where
  entries : CacheKey → Option CachedValue

/-- `InMemoryCache::default`. -/
def InMemoryCache.default : InMemoryCache := ⟨fun _ => none⟩

/-- `put` of `InMemoryCache` (`src/cache/mod.rs:83-85`): `HashMap::insert`, which replaces. -/
def InMemoryCache.put (cache : InMemoryCache) (key : CacheKey) (value : CachedValue) :
    InMemoryCache :=
  ⟨Function.update cache.entries key (some value)⟩

instance : SemanticCache InMemoryCache where
  get cache key := (cache.entries key, cache)
  put := InMemoryCache.put

end Semcast.Cache
