import Mathlib.Data.Set.Function
import Semcast.Cache.Proofs.Groups
import Semcast.Misc.Numbered
import Semcast.Physical.Proofs.ClusterNames

/-!
# What the names of clusters cost

The model is asked once for each cluster with members that the cache has no name for. A name
is kept under the whole membership of its cluster, so the same grouping gets the same names
again without another question, whatever the model would say by then.
-/

namespace Semcast.Cache

theorem toLeBytes_succ (count n : Nat) :
    toLeBytes (count + 1) n = UInt8.ofNat n :: toLeBytes count (n / 256) := by
  unfold toLeBytes
  rw [List.range_succ_eq_map, List.map_cons, List.map_map, Nat.pow_zero, Nat.div_one]
  congr 1
  apply List.map_congr_left
  intro index _
  rw [Function.comp_apply, Nat.div_div_eq_div_mul, Nat.pow_succ']

theorem fromLeBytes_toLeBytes (count n : Nat) :
    fromLeBytes (toLeBytes count n) = n % 256 ^ count := by
  induction count generalizing n with
  | zero => simp [toLeBytes, fromLeBytes, Nat.mod_one]
  | succ count ih =>
    have low : (UInt8.ofNat n).toNat = n % 256 := by simp
    have step : fromLeBytes (UInt8.ofNat n :: toLeBytes count (n / 256)) =
        (UInt8.ofNat n).toNat + 256 * fromLeBytes (toLeBytes count (n / 256)) := rfl
    rw [toLeBytes_succ, step, ih, low, Nat.pow_succ', Nat.mod_mul]

/-- Eight bytes tell the hashes of documents apart. -/
theorem toLeBytes_toNat_injective :
    Function.Injective fun hash : UInt64 => toLeBytes 8 hash.toNat := by
  have small : ∀ hash : UInt64, hash.toNat < 256 ^ 8 := fun hash =>
    Nat.lt_of_lt_of_eq hash.toNat_lt (by decide)
  intro hash hash' same
  have values := congrArg fromLeBytes same
  dsimp only at values
  rw [fromLeBytes_toLeBytes, fromLeBytes_toLeBytes, Nat.mod_eq_of_lt (small hash),
    Nat.mod_eq_of_lt (small hash')] at values
  exact UInt64.toNat_inj.mp values

end Semcast.Cache

namespace Semcast.Cluster

open Model Cache Json Extract Index Std LawfulSemanticCache

variable {ρ ρ' ε ε' F α C : Type*} [SemanticCache C]

section Naming

variable (blake3 : List UInt8 → List UInt8) (json : Text F) (kmeans : KMeans α)
  (grouper : Grouper ρ ε α) (hashes : List UInt64) (texts : DocMap String)
  (points : List (Embedding α)) (clustering : Clustering)

/-- The key of a cluster. -/
def Grouper.keyOf (cluster : Nat) : CacheKey :=
  grouper.cacheKey blake3 (clustering.members cluster) hashes

/-- The request for a name, of what represents the cluster. -/
def nameRequest (chosen : List Nat) : CompletionRequest where
  system := synthesizeLabelPrompt
  input := memberSeparator.intercalate
    (chosen.map fun point => texts.getD (hashes.getD point 0) "")
  maxTokens := labelMaxTokens
  schema := some (json.toString labelSchema)

/-- The label in an answer. -/
def usableLabel (answer : (Nat × CacheKey) × Except ε Completion) : Option String :=
  answer.2.toOption.bind fun completion => parseLabel json completion.text

variable [LawfulSemanticCache C] (cache : C)

/-- What is asked for a cluster, if anything is. -/
def Grouper.asks (cluster : Nat) : Option ((Nat × CacheKey) × CompletionRequest) :=
  (representatives kmeans points clustering cluster).bind fun chosen =>
    if (valueOf cache (grouper.keyOf blake3 hashes clustering cluster)).isNone then
      some ((cluster, grouper.keyOf blake3 hashes clustering cluster),
        nameRequest json hashes texts chosen)
    else none

/-- What is asked for all the clusters. -/
def Grouper.asked : List ((Nat × CacheKey) × CompletionRequest) :=
  (List.range clustering.k).filterMap
    (grouper.asks blake3 json kmeans hashes texts points clustering cache)

/-- The variables of `name_clusters` when the model is called. -/
def Grouper.looked : Naming C :=
  (List.range clustering.k).foldl
    (grouper.lookUpName blake3 json kmeans hashes texts points clustering)
    ⟨List.replicate clustering.k "", [], [], cache⟩

/-- The clusters that wait for a name, each with the answer of the model. -/
def Grouper.answers : List ((Nat × CacheKey) × Except ε Completion) :=
  let asked := grouper.asked blake3 json kmeans hashes texts points clustering cache
  (asked.map Prod.fst).zip (grouper.model.complete (asked.map Prod.snd))

/-- The name of a cluster before the model is asked. -/
def Grouper.nameBefore (cluster : Nat) : String :=
  (representatives kmeans points clustering cluster).elim (fallbackName cluster) fun _ =>
    (valueOf cache (grouper.keyOf blake3 hashes clustering cluster)).getD ""

/-- The name of a cluster: that of its own answer, where there is one. -/
def Grouper.nameOf (cluster : Nat) : String :=
  ((grouper.answers blake3 json kmeans hashes texts points clustering cache).find?
    (·.1.1 == cluster)).elim
    (grouper.nameBefore blake3 kmeans hashes points clustering cache cluster) fun answer =>
      (usableLabel json answer).getD (fallbackName cluster)

/-- The names that are put into the cache. -/
def Grouper.puts : List (CacheKey × String) :=
  (grouper.answers blake3 json kmeans hashes texts points clustering cache).filterMap fun answer =>
    (usableLabel json answer).map fun label => (answer.1.2, label)

variable {blake3 json kmeans grouper hashes texts points clustering cache}

omit [SemanticCache C] [LawfulSemanticCache C] in
/-- A cluster has representatives if and only if it has members. -/
theorem exists_representatives_iff {cluster : Nat} :
    (∃ chosen, representatives kmeans points clustering cluster = some chosen) ↔
      clustering.members cluster ≠ [] := by
  rw [representatives]
  cases clustering.members cluster with
  | nil => simp
  | cons => simp

/-! ## The two loops -/

theorem set_map_range {k : Nat} (name : Nat → String) (cluster : Nat) (label : String) :
    ((List.range k).map name).set cluster label =
      (List.range k).map fun other => if other = cluster then label else name other := by
  apply List.ext_getElem?
  intro index
  rw [List.getElem?_set, List.getElem?_map, List.getElem?_map, List.length_map, List.length_range]
  by_cases within : index < k
  · rw [List.getElem?_range within]
    by_cases same : cluster = index
    · subst same
      simp [within]
    · simp [same, Ne.symm same]
  · have beyond : (List.range k)[index]? = none := List.getElem?_eq_none (by simpa using within)
    rw [beyond, Option.map_none, Option.map_none]
    split
    · rename_i same
      rw [if_neg (by omega)]
    · rfl

/-- The variables of the first loop after some clusters. -/
structure LookedUp (grouper : Grouper ρ ε α) (blake3 : List UInt8 → List UInt8) (json : Text F)
    (kmeans : KMeans α) (hashes : List UInt64) (texts : DocMap String)
    (points : List (Embedding α)) (clustering : Clustering) (cache : C) (count : Nat)
    (state : Naming C) : Prop where
  names : state.names = (List.range clustering.k).map fun cluster =>
    if cluster < count then grouper.nameBefore blake3 kmeans hashes points clustering cache cluster
    else ""
  pending : state.pending = ((List.range count).filterMap
    (grouper.asks blake3 json kmeans hashes texts points clustering cache)).map Prod.fst
  requests : state.requests = ((List.range count).filterMap
    (grouper.asks blake3 json kmeans hashes texts points clustering cache)).map Prod.snd
  cache : Reads cache state.cache

/-- A cluster that is asked for has no name yet. -/
theorem nameBefore_of_asks {cluster : Nat} {asked : (Nat × CacheKey) × CompletionRequest}
    (asks : grouper.asks blake3 json kmeans hashes texts points clustering cache cluster =
      some asked) :
    grouper.nameBefore blake3 kmeans hashes points clustering cache cluster = "" := by
  unfold Grouper.asks at asks
  unfold Grouper.nameBefore
  cases chosen : representatives kmeans points clustering cluster with
  | none =>
    rw [chosen] at asks
    cases asks
  | some members =>
    rw [chosen, Option.bind_some] at asks
    cases known : valueOf cache (grouper.keyOf blake3 hashes clustering cluster) with
    | none => rfl
    | some label =>
      rw [known, Option.isNone_some, if_neg Bool.false_ne_true] at asks
      cases asks

/-- A round of the first loop asks for a cluster or gives it its name. -/
theorem lookUpName_eq {state : Naming C} (reads : Reads cache state.cache) (cluster : Nat) :
    ∃ after, Reads cache after ∧
      grouper.lookUpName blake3 json kmeans hashes texts points clustering state cluster =
        (grouper.asks blake3 json kmeans hashes texts points clustering cache cluster).elim
          { state with
            names := state.names.set cluster
              (grouper.nameBefore blake3 kmeans hashes points clustering cache cluster)
            cache := after }
          fun asked =>
            { state with
              requests := state.requests ++ [asked.2]
              pending := state.pending ++ [asked.1]
              cache := after } := by
  unfold Grouper.lookUpName Grouper.asks Grouper.nameBefore
  cases chosen : representatives kmeans points clustering cluster with
  | none => exact ⟨state.cache, reads, rfl⟩
  | some members =>
    have got : (SemanticCache.get state.cache
        (grouper.cacheKey blake3 (clustering.members cluster) hashes)).1 =
          answer cache (grouper.keyOf blake3 hashes clustering cluster) := by
      rw [answer_get, answer, reads.lookup_eq]
      rfl
    refine ⟨_, reads.trans (Reads.get state.cache
      (grouper.cacheKey blake3 (clustering.members cluster) hashes)), ?_⟩
    rw [valueOf]
    dsimp only
    rw [got]
    cases held : answer cache (grouper.keyOf blake3 hashes clustering cluster) with
    | none => rfl
    | some value => cases value <;> rfl

theorem LookedUp.step {count : Nat} {state : Naming C}
    (looked :
      LookedUp grouper blake3 json kmeans hashes texts points clustering cache count state) :
    LookedUp grouper blake3 json kmeans hashes texts points clustering cache (count + 1)
      (grouper.lookUpName blake3 json kmeans hashes texts points clustering state count) := by
  have grown : (List.range (count + 1)).filterMap
        (grouper.asks blake3 json kmeans hashes texts points clustering cache) =
      (List.range count).filterMap
          (grouper.asks blake3 json kmeans hashes texts points clustering cache) ++
        (grouper.asks blake3 json kmeans hashes texts points clustering cache count).toList := by
    rw [List.range_succ, List.filterMap_append, List.filterMap_cons, List.filterMap_nil]
    cases grouper.asks blake3 json kmeans hashes texts points clustering cache count <;> rfl
  have named : ((List.range clustering.k).map fun cluster =>
      if cluster < count + 1 then
        grouper.nameBefore blake3 kmeans hashes points clustering cache cluster
      else "") = state.names.set count
        (grouper.nameBefore blake3 kmeans hashes points clustering cache count) := by
    rw [looked.names, set_map_range]
    apply List.map_congr_left
    intro cluster _
    by_cases here : cluster = count
    · rw [if_pos (by omega), if_pos here, here]
    · rw [if_neg here]
      exact ite_congr (propext (by omega)) (fun _ => rfl) fun _ => rfl
  obtain ⟨after, reads, rounded⟩ := lookUpName_eq looked.cache count
  rw [rounded]
  cases asks : grouper.asks blake3 json kmeans hashes texts points clustering cache count with
  | none =>
    rw [asks, Option.toList_none, List.append_nil] at grown
    exact ⟨named.symm, grown ▸ looked.pending, grown ▸ looked.requests, reads⟩
  | some asked =>
    rw [asks] at grown
    refine ⟨?_, ?_, ?_, reads⟩
    · rw [named, nameBefore_of_asks asks]
      -- The name is still the empty one that every cluster starts with.
      rw [looked.names, set_map_range]
      apply List.map_congr_left
      intro cluster _
      by_cases here : cluster = count
      · rw [if_pos here, if_neg (by omega)]
      · rw [if_neg here]
    · rw [grown, List.map_append, ← looked.pending]
      rfl
    · rw [grown, List.map_append, ← looked.requests]
      rfl

variable (blake3 json kmeans grouper hashes texts points clustering cache) in
/-- What the first loop leaves behind. -/
theorem lookedUp : LookedUp grouper blake3 json kmeans hashes texts points clustering cache
    clustering.k (grouper.looked blake3 json kmeans hashes texts points clustering cache) := by
  have rounds : ∀ count,
      LookedUp grouper blake3 json kmeans hashes texts points clustering cache count
        ((List.range count).foldl
          (grouper.lookUpName blake3 json kmeans hashes texts points clustering)
          ⟨List.replicate clustering.k "", [], [], cache⟩) := by
    intro count
    induction count with
    | zero =>
      refine ⟨?_, rfl, rfl, Reads.refl cache⟩
      simp [List.map_const']
    | succ count ih =>
      rw [List.range_succ, List.foldl_append]
      exact ih.step
  exact rounds clustering.k

/-- A cluster that is asked for has members, and no name in the cache under its key. -/
theorem of_asks {cluster : Nat} {asked : (Nat × CacheKey) × CompletionRequest}
    (asks : grouper.asks blake3 json kmeans hashes texts points clustering cache cluster =
      some asked) :
    asked.1 = (cluster, grouper.keyOf blake3 hashes clustering cluster) ∧
      clustering.members cluster ≠ [] ∧
        valueOf cache (grouper.keyOf blake3 hashes clustering cluster) = none := by
  obtain ⟨chosen, represented, waits⟩ := Option.bind_eq_some_iff.mp asks
  have members := exists_representatives_iff.mp ⟨chosen, represented⟩
  by_cases unknown : (valueOf cache (grouper.keyOf blake3 hashes clustering cluster)).isNone = true
  · rw [if_pos unknown] at waits
    cases waits
    exact ⟨rfl, members, Option.isNone_iff_eq_none.mp unknown⟩
  · rw [if_neg unknown] at waits
    cases waits

variable (blake3 json kmeans grouper hashes texts points clustering cache) in
/-- Each cluster is asked for once. -/
theorem nodup_asked :
    ((grouper.asked blake3 json kmeans hashes texts points clustering cache).map
      (·.1.1)).Nodup := by
  rw [Grouper.asked, List.map_filterMap]
  refine List.Nodup.filterMap ?_ List.nodup_range
  intro cluster cluster' number here there
  obtain ⟨asked, asks, rfl⟩ := Option.map_eq_some_iff.mp here
  obtain ⟨asked', asks', same⟩ := Option.map_eq_some_iff.mp there
  rw [(of_asks asks).1, (of_asks asks').1] at same
  exact same.symm

omit [LawfulSemanticCache C] in
/-- A round of the second loop gives a cluster its name, which it keeps if the model gave it. -/
theorem applyName_eq (state : Naming C) (answer : (Nat × CacheKey) × Except ε Completion) :
    Grouper.applyName json state answer =
      { state with
        names := state.names.set answer.1.1
          ((usableLabel json answer).getD (fallbackName answer.1.1))
        cache := putAll state.cache
          ((usableLabel json answer).toList.map fun label => valueEntry (answer.1.2, label)) } := by
  obtain ⟨⟨cluster, key⟩, completion⟩ := answer
  unfold Grouper.applyName usableLabel
  dsimp only
  cases completion.toOption.bind fun completion => parseLabel json completion.text <;> rfl

omit [LawfulSemanticCache C] in
/-- The second loop, over the answers for different clusters. -/
theorem foldl_applyName {answers : List ((Nat × CacheKey) × Except ε Completion)}
    (nodup : (answers.map (·.1.1)).Nodup) {k : Nat} {name : Nat → String} {state : Naming C}
    (names : state.names = (List.range k).map name) :
    (answers.foldl (Grouper.applyName json) state).names =
        (List.range k).map (fun cluster =>
          (answers.find? (·.1.1 == cluster)).elim (name cluster) fun answer =>
            (usableLabel json answer).getD (fallbackName cluster)) ∧
      (answers.foldl (Grouper.applyName json) state).cache =
        putAll state.cache ((answers.filterMap fun answer =>
          (usableLabel json answer).map fun label => (answer.1.2, label)).map valueEntry) := by
  induction answers generalizing state name with
  | nil => exact ⟨names, rfl⟩
  | cons answer rest ih =>
    obtain ⟨fresh, nodup⟩ := List.nodup_cons.mp nodup
    rw [List.foldl_cons, applyName_eq]
    set next : Naming C := { state with
      names := state.names.set answer.1.1
        ((usableLabel json answer).getD (fallbackName answer.1.1))
      cache := putAll state.cache
        ((usableLabel json answer).toList.map fun label => valueEntry (answer.1.2, label)) }
    have names' : next.names = (List.range k).map fun cluster =>
        if cluster = answer.1.1 then (usableLabel json answer).getD (fallbackName answer.1.1)
        else name cluster := by
      change state.names.set answer.1.1 _ = _
      rw [names, set_map_range]
    obtain ⟨named, filled⟩ := ih nodup names'
    constructor
    · rw [named]
      apply List.map_congr_left
      intro cluster _
      by_cases here : answer.1.1 = cluster
      · subst here
        have later : rest.find? (·.1.1 == answer.1.1) = none := by
          rw [List.find?_eq_none]
          intro other member same
          exact fresh (List.mem_map.mpr ⟨other, member, by simpa using same⟩)
        rw [later, List.find?_cons_of_pos (by simp)]
        simp
      · rw [List.find?_cons_of_neg (by simpa using here), if_neg (Ne.symm here)]
    · have put : next.cache = putAll state.cache ((usableLabel json answer).toList.map fun label =>
          valueEntry (answer.1.2, label)) := rfl
      rw [filled, put, List.filterMap_cons]
      cases usableLabel json answer <;> rfl

/-- What is answered is answered for what was asked. -/
theorem mem_answers {answer : (Nat × CacheKey) × Except ε Completion}
    (member : answer ∈ grouper.answers blake3 json kmeans hashes texts points clustering cache) :
    ∃ asked ∈ grouper.asked blake3 json kmeans hashes texts points clustering cache,
      asked.1 = answer.1 :=
  List.mem_map.mp (List.of_mem_zip member).1

variable (blake3 json kmeans grouper hashes texts points clustering cache) in
theorem nodup_answers :
    ((grouper.answers blake3 json kmeans hashes texts points clustering cache).map
      (·.1.1)).Nodup := by
  have asked := nodup_asked blake3 json kmeans grouper hashes texts points clustering cache
  rw [← Function.comp_def Prod.fst Prod.fst, ← List.map_map] at asked ⊢
  refine asked.sublist (List.Sublist.map _ ?_)
  unfold Grouper.answers
  dsimp only
  rw [List.zip_eq_zip_take_min, List.map_fst_zip (by simp only [List.length_take]; omega)]
  exact List.take_sublist _ _

variable (blake3 json kmeans grouper hashes texts points clustering cache) in
/-- What the two loops make of the names and of the cache. -/
theorem namesOf_eq :
    (grouper.namesOf blake3 json kmeans hashes texts points clustering cache).1 =
        (List.range clustering.k).map
          (grouper.nameOf blake3 json kmeans hashes texts points clustering cache) ∧
      Filled cache (grouper.namesOf blake3 json kmeans hashes texts points clustering cache).2
        (grouper.puts blake3 json kmeans hashes texts points clustering cache) := by
  have looked := lookedUp blake3 json kmeans grouper hashes texts points clustering cache
  have begins : (grouper.looked blake3 json kmeans hashes texts points clustering cache).names =
      (List.range clustering.k).map
        (grouper.nameBefore blake3 kmeans hashes points clustering cache) := by
    rw [looked.names]
    apply List.map_congr_left
    intro cluster within
    rw [if_pos (List.mem_range.mp within)]
  have run : grouper.namesOf blake3 json kmeans hashes texts points clustering cache =
      let named := (grouper.answers blake3 json kmeans hashes texts points clustering cache).foldl
        (Grouper.applyName json)
        (grouper.looked blake3 json kmeans hashes texts points clustering cache)
      (named.names, named.cache) := by
    unfold Grouper.answers Grouper.asked
    dsimp only
    rw [← looked.pending, ← looked.requests]
    rfl
  have answers := nodup_answers blake3 json kmeans grouper hashes texts points clustering cache
  obtain ⟨named, filled⟩ := @foldl_applyName _ _ _ _ json _ answers _ _ _ begins
  rw [run]
  exact ⟨named, _, looked.cache, filled⟩

end Naming

/-! ## A further naming -/

section Again

variable [WritePolicy C] {blake3 : List UInt8 → List UInt8} {json : Text F} {kmeans : KMeans α}
  {grouper : Grouper ρ ε α} {hashes : List UInt64} {texts : DocMap String}
  {points : List (Embedding α)} {clustering : Clustering} {cache : C}

/-- The parts of a document that go into the digest of a cluster. -/
def memberParts (hashes : List UInt64) (clustering : Clustering) (cluster : Nat) :
    List (List UInt8) :=
  ((clustering.members cluster).map fun point => hashes.getD point 0).mergeSort.map
    fun hash => toLeBytes 8 hash.toNat

theorem mem_members {point cluster : Nat} :
    point ∈ clustering.members cluster ↔ clustering.assignments[point]? = some cluster := by
  unfold Clustering.members
  constructor
  · intro member
    obtain ⟨⟨assigned, index⟩, within, rfl⟩ := List.mem_map.mp member
    obtain ⟨placed, own⟩ := List.mem_filter.mp within
    rw [List.mem_zipIdx_iff_getElem?] at placed
    rw [placed, beq_iff_eq.mp own]
  · intro assigned
    refine List.mem_map.mpr ⟨(cluster, point), List.mem_filter.mpr ⟨?_, by simp⟩, rfl⟩
    rw [List.mem_zipIdx_iff_getElem?]
    exact assigned

/-- Clusters with members have different members, hence other parts. -/
theorem memberParts_inj (nodup : hashes.Nodup)
    (every : clustering.assignments.length = hashes.length) {cluster cluster' : Nat}
    (members : clustering.members cluster ≠ [])
    (same : memberParts hashes clustering cluster = memberParts hashes clustering cluster') :
    cluster = cluster' := by
  have sorted := List.map_injective_iff.mpr toLeBytes_toNat_injective same
  have perm := (List.mergeSort_perm _ _).symm.trans
    ((List.Perm.of_eq sorted).trans (List.mergeSort_perm _ _))
  obtain ⟨point, member⟩ := List.exists_mem_of_ne_nil _ members
  have within : ∀ {point cluster}, point ∈ clustering.members cluster → point < hashes.length := by
    intro point cluster member
    rw [← every]
    exact (List.getElem?_eq_some_iff.mp (mem_members.mp member)).1
  obtain ⟨point', member', hash⟩ := List.mem_map.mp
    (perm.mem_iff.mp (List.mem_map_of_mem (f := fun point => hashes.getD point 0) member))
  rw [List.getD_eq_getElem?_getD, List.getD_eq_getElem?_getD,
    List.getElem?_eq_getElem (within member), List.getElem?_eq_getElem (within member')] at hash
  have here := mem_members.mp member
  rw [← (nodup.getElem_inj_iff).mp hash, mem_members.mp member'] at here
  exact (Option.some.inj here).symm

/-- A grouper that asks another model under the same id has the same keys. -/
theorem keyOf_congr {grouper' : Grouper ρ' ε' α} (same : grouper'.model.id = grouper.model.id) :
    grouper'.keyOf blake3 hashes clustering = grouper.keyOf blake3 hashes clustering := by
  funext cluster
  unfold Grouper.keyOf Grouper.cacheKey
  rw [same]

/-- The clusters that have members are stored apart. -/
theorem slot_keyOf_inj (nodup : hashes.Nodup)
    (every : clustering.assignments.length = hashes.length)
    (digests : Set.InjOn (stableDigest blake3) (Set.range (memberParts hashes clustering)))
    (slots : Set.InjOn (slot (C := C)) (Set.range (grouper.keyOf blake3 hashes clustering)))
    {cluster cluster' : Nat} (members : clustering.members cluster ≠ [])
    (same : slot (C := C) (grouper.keyOf blake3 hashes clustering cluster) =
      slot (C := C) (grouper.keyOf blake3 hashes clustering cluster')) : cluster = cluster' := by
  have keys := slots (Set.mem_range_self _) (Set.mem_range_self _) same
  exact memberParts_inj nodup every members
    (digests (Set.mem_range_self _) (Set.mem_range_self _) (congrArg CacheKey.inputDigest keys))

/-- A cluster that is answered was asked for. -/
theorem of_mem_answers {answer : (Nat × CacheKey) × Except ε Completion}
    (answered : answer ∈ grouper.answers blake3 json kmeans hashes texts points clustering cache) :
    answer.1.2 = grouper.keyOf blake3 hashes clustering answer.1.1 ∧
      clustering.members answer.1.1 ≠ [] ∧ valueOf cache answer.1.2 = none := by
  obtain ⟨asked, member, own⟩ := mem_answers answered
  obtain ⟨cluster, -, asks⟩ := List.mem_filterMap.mp member
  obtain ⟨key, members, unknown⟩ := of_asks asks
  rw [own] at key
  rw [key]
  exact ⟨rfl, members, unknown⟩

variable (nodup : hashes.Nodup) (every : clustering.assignments.length = hashes.length)
  (digests : Set.InjOn (stableDigest blake3) (Set.range (memberParts hashes clustering)))
  (slots : Set.InjOn (slot (C := C)) (Set.range (grouper.keyOf blake3 hashes clustering)))
include nodup every digests slots

/-- A cluster that is not answered keeps what the cache has under its key. -/
theorem valueOf_of_not_answered {cluster : Nat} (members : clustering.members cluster ≠ [])
    (silent : ∀ answer ∈ grouper.answers blake3 json kmeans hashes texts points clustering cache,
      answer.1.1 ≠ cluster) :
    valueOf (grouper.namesOf blake3 json kmeans hashes texts points clustering cache).2
        (grouper.keyOf blake3 hashes clustering cluster) =
      valueOf cache (grouper.keyOf blake3 hashes clustering cluster) := by
  obtain ⟨-, filled⟩ := namesOf_eq blake3 json kmeans grouper hashes texts points clustering cache
  refine filled.valueOf_kept ?_
  intro put among same
  obtain ⟨answer, answered, usable⟩ := List.mem_filterMap.mp among
  obtain ⟨label, -, rfl⟩ := Option.map_eq_some_iff.mp usable
  obtain ⟨key, -⟩ := of_mem_answers answered
  dsimp only at same
  rw [key] at same
  exact silent answer answered (slot_keyOf_inj nodup every digests slots members same.symm).symm

/-- A cluster that is answered has the label of its answer in the cache, if there is one. -/
theorem valueOf_of_answered {answer : (Nat × CacheKey) × Except ε Completion}
    (answered : answer ∈ grouper.answers blake3 json kmeans hashes texts points clustering cache)
    (isOpen : Open cache (slot (C := C) answer.1.2)) :
    valueOf (grouper.namesOf blake3 json kmeans hashes texts points clustering cache).2
      answer.1.2 = usableLabel json answer := by
  obtain ⟨-, filled⟩ := namesOf_eq blake3 json kmeans grouper hashes texts points clustering cache
  obtain ⟨key, members, unknown⟩ := of_mem_answers answered
  have own : ∀ {put},
      put ∈ grouper.puts blake3 json kmeans hashes texts points clustering cache →
        slot (C := C) put.1 = slot answer.1.2 → usableLabel json answer = some put.2 := by
    intro put among same
    obtain ⟨other, answered', usable⟩ := List.mem_filterMap.mp among
    obtain ⟨label, given, rfl⟩ := Option.map_eq_some_iff.mp usable
    obtain ⟨key', -⟩ := of_mem_answers answered'
    dsimp only at same
    rw [key, key'] at same
    have cluster := slot_keyOf_inj nodup every digests slots members same.symm
    rw [← given]
    congr 1
    exact List.inj_on_of_nodup_map
      (nodup_answers blake3 json kmeans grouper hashes texts points clustering cache)
      answered answered' cluster
  cases usable : usableLabel json answer with
  | none =>
    have kept : valueOf (grouper.namesOf blake3 json kmeans hashes texts points clustering
        cache).2 answer.1.2 = valueOf cache answer.1.2 := by
      refine filled.valueOf_kept ?_
      intro put among same
      rw [own among same] at usable
      cases usable
    rw [kept, unknown]
  | some label =>
    obtain ⟨put, among, same, held⟩ := filled.valueOf_put isOpen
      ⟨(answer.1.2, label), List.mem_filterMap.mpr ⟨answer, answered, by rw [usable]; rfl⟩, rfl⟩
    rw [held, ← own among same, usable]

/-- A cluster with a name in the cache keeps it. -/
theorem valueOf_of_known {cluster : Nat} {label : String}
    (members : clustering.members cluster ≠ [])
    (known : valueOf cache (grouper.keyOf blake3 hashes clustering cluster) = some label) :
    valueOf (grouper.namesOf blake3 json kmeans hashes texts points clustering cache).2
      (grouper.keyOf blake3 hashes clustering cluster) = some label := by
  rw [valueOf_of_not_answered nodup every digests slots members, known]
  rintro answer answered rfl
  obtain ⟨key, -, unknown⟩ := of_mem_answers answered
  rw [key, known] at unknown
  cases unknown

/-- A cluster is asked for again if it was asked for and the cache still has no name for it. -/
theorem asks_again {grouper' : Grouper ρ' ε' α} (same : grouper'.model.id = grouper.model.id)
    (cluster : Nat) :
    grouper'.asks blake3 json kmeans hashes texts points clustering
        (grouper.namesOf blake3 json kmeans hashes texts points clustering cache).2 cluster =
      (grouper.asks blake3 json kmeans hashes texts points clustering cache cluster).filter
        fun asked => (valueOf (grouper.namesOf blake3 json kmeans hashes texts points clustering
          cache).2 asked.1.2).isNone := by
  unfold Grouper.asks
  rw [keyOf_congr same]
  cases chosen : representatives kmeans points clustering cluster with
  | none => rfl
  | some points' =>
    have members := exists_representatives_iff.mp ⟨points', chosen⟩
    rw [Option.bind_some, Option.bind_some]
    cases known : valueOf cache (grouper.keyOf blake3 hashes clustering cluster) with
    | none => simp [Option.filter_some]
    | some label =>
      rw [valueOf_of_known nodup every digests slots members known]
      rfl

variable (isOpen : ∀ asked ∈ grouper.asked blake3 json kmeans hashes texts points clustering cache,
    Open cache (slot (C := C) asked.1.2))
include isOpen

/-- The clusters whose answer had no label are asked for again, and no other. -/
theorem asked_again (answered : ∀ requests,
      (grouper.model.complete requests).length = requests.length)
    {grouper' : Grouper ρ' ε' α} (same : grouper'.model.id = grouper.model.id) :
    (grouper'.asked blake3 json kmeans hashes texts points clustering
        (grouper.namesOf blake3 json kmeans hashes texts points clustering cache).2).map Prod.fst =
      ((grouper.answers blake3 json kmeans hashes texts points clustering cache).filter
        fun answer => (usableLabel json answer).isNone).map Prod.fst := by
  set after := (grouper.namesOf blake3 json kmeans hashes texts points clustering cache).2
    with given
  have waits : grouper'.asked blake3 json kmeans hashes texts points clustering after =
      (grouper.asked blake3 json kmeans hashes texts points clustering cache).filter
        fun asked => (valueOf after asked.1.2).isNone := by
    unfold Grouper.asked
    rw [List.filter_filterMap]
    exact List.filterMap_congr fun cluster _ => asks_again nodup every digests slots same cluster
  have whole : (grouper.answers blake3 json kmeans hashes texts points clustering cache).map
      Prod.fst = (grouper.asked blake3 json kmeans hashes texts points clustering cache).map
        Prod.fst := by
    unfold Grouper.answers
    exact List.map_fst_zip (by rw [answered, List.length_map, List.length_map])
  have unlabelled : ∀ answer ∈
      grouper.answers blake3 json kmeans hashes texts points clustering cache,
        (usableLabel json answer).isNone = (valueOf after answer.1.2).isNone := by
    intro answer member
    obtain ⟨asked, within, own⟩ := mem_answers member
    rw [given, valueOf_of_answered nodup every digests slots member (own ▸ isOpen asked within)]
  rw [waits, List.filter_congr unlabelled]
  have filtered := congrArg
    (List.filter fun waiting : Nat × CacheKey => (valueOf after waiting.2).isNone) whole
  rw [List.filter_map, List.filter_map] at filtered
  exact filtered.symm

/-- Where every answer has a label, the clusters keep their names. -/
theorem nameBefore_again (labelled : ∀ answer ∈
      grouper.answers blake3 json kmeans hashes texts points clustering cache,
      (usableLabel json answer).isSome = true)
    {grouper' : Grouper ρ' ε' α} (same : grouper'.model.id = grouper.model.id) (cluster : Nat) :
    grouper'.nameBefore blake3 kmeans hashes points clustering
        (grouper.namesOf blake3 json kmeans hashes texts points clustering cache).2 cluster =
      grouper.nameOf blake3 json kmeans hashes texts points clustering cache cluster := by
  unfold Grouper.nameOf
  rw [Grouper.nameBefore, keyOf_congr same]
  cases found : (grouper.answers blake3 json kmeans hashes texts points clustering cache).find?
      (·.1.1 == cluster) with
  | some answer =>
    have member := List.mem_of_find?_eq_some found
    have own : answer.1.1 = cluster := by simpa using List.find?_some found
    obtain ⟨key, members, -⟩ := of_mem_answers member
    obtain ⟨label, usable⟩ := Option.isSome_iff_exists.mp (labelled answer member)
    obtain ⟨asked, within, asks⟩ := mem_answers member
    have held := valueOf_of_answered nodup every digests slots member (asks ▸ isOpen asked within)
    rw [key, own, usable] at held
    have represented : ∃ chosen, representatives kmeans points clustering cluster = some chosen :=
      exists_representatives_iff.mpr (own ▸ members)
    obtain ⟨chosen, represented⟩ := represented
    rw [represented, held, Option.elim_some, Option.elim_some, usable]
    rfl
  | none =>
    rw [Option.elim_none, Grouper.nameBefore]
    cases chosen : representatives kmeans points clustering cluster with
    | none => rfl
    | some chosen' =>
      have members := exists_representatives_iff.mp ⟨chosen', chosen⟩
      rw [Option.elim_some, Option.elim_some,
        valueOf_of_not_answered nodup every digests slots members]
      intro answer member own
      exact List.find?_eq_none.mp found answer member (by simpa using own)

end Again

/-- A grouper that names the same clusters again, with the same model id, over what the cache
has by then: the clusters whose answer had no label are asked for again, and no other. Where
every answer had a label, nothing is asked and the names are the same, whatever the model
would say by then. -/
theorem nameClusters_again [WritePolicy C] {blake3 : List UInt8 → List UInt8} {json : Text F}
    {kmeans : KMeans α} {grouper : Grouper ρ ε α} {grouper' : Grouper ρ' ε' α}
    {hashes : List UInt64} {texts : DocMap String} {points : List (Embedding α)}
    {clustering : Clustering} {cache : C} (same : grouper'.model.id = grouper.model.id)
    (answered : ∀ requests, (grouper.model.complete requests).length = requests.length)
    (nodup : hashes.Nodup) (every : clustering.assignments.length = hashes.length)
    (digests : Set.InjOn (stableDigest blake3) (Set.range (memberParts hashes clustering)))
    (slots : Set.InjOn (slot (C := C)) (Set.range (grouper.keyOf blake3 hashes clustering)))
    (isOpen : ∀ waiting ∈
      (grouper.looked blake3 json kmeans hashes texts points clustering cache).pending,
      Open cache (slot (C := C) waiting.2)) :
    let first := grouper.looked blake3 json kmeans hashes texts points clustering cache
    let answers := first.pending.zip (grouper.model.complete first.requests)
    let named := grouper.nameClusters blake3 json kmeans hashes texts points clustering cache
    let again := grouper'.looked blake3 json kmeans hashes texts points clustering named.2
    again.pending =
        (answers.filter fun answer => (usableLabel json answer).isNone).map Prod.fst ∧
      ((∀ answer ∈ answers, (usableLabel json answer).isSome = true) →
        again.requests = [] ∧
          (grouper'.nameClusters blake3 json kmeans hashes texts points clustering named.2).1 =
            named.1) := by
  intro first answers named again
  have looked : LookedUp grouper blake3 json kmeans hashes texts points clustering cache _ first :=
    lookedUp _ _ _ _ _ _ _ _ _
  have looked' : LookedUp grouper' blake3 json kmeans hashes texts points clustering named.2 _
    again := lookedUp _ _ _ _ _ _ _ _ _
  have pairs : answers =
      grouper.answers blake3 json kmeans hashes texts points clustering cache := by
    unfold answers
    rw [looked.pending, looked.requests]
    rfl
  have isOpen' : ∀ asked ∈
      grouper.asked blake3 json kmeans hashes texts points clustering cache,
      Open cache (slot (C := C) asked.1.2) := by
    intro asked member
    refine isOpen asked.1 ?_
    rw [show grouper.looked blake3 json kmeans hashes texts points clustering cache = first from
      rfl, looked.pending]
    exact List.mem_map_of_mem member
  have waits : again.pending =
      (answers.filter fun answer => (usableLabel json answer).isNone).map Prod.fst := by
    rw [looked'.pending, pairs]
    exact asked_again nodup every digests slots isOpen' answered same
  refine ⟨waits, fun labelled => ?_⟩
  have none : answers.filter (fun answer => (usableLabel json answer).isNone) = [] := by
    rw [List.filter_eq_nil_iff]
    intro answer member
    rw [Option.isNone_iff_eq_none]
    exact Option.isSome_iff_ne_none.mp (labelled answer member)
  have silent : grouper'.asked blake3 json kmeans hashes texts points clustering named.2 = [] := by
    rw [none, looked'.pending] at waits
    exact List.map_eq_nil_iff.mp waits
  constructor
  · rw [looked'.requests]
    exact congrArg (List.map Prod.snd) silent
  · have names : (grouper'.namesOf blake3 json kmeans hashes texts points clustering
        named.2).1 = (grouper.namesOf blake3 json kmeans hashes texts points clustering
          cache).1 := by
      rw [(namesOf_eq _ _ _ _ _ _ _ _ _).1, (namesOf_eq _ _ _ _ _ _ _ _ _).1]
      apply List.map_congr_left
      intro cluster _
      have unanswered :
          grouper'.answers blake3 json kmeans hashes texts points clustering named.2 = [] := by
        unfold Grouper.answers
        rw [silent]
        rfl
      rw [Grouper.nameOf, unanswered]
      exact nameBefore_again nodup every digests slots isOpen' (pairs ▸ labelled) same cluster
    exact congrArg deduplicate names

/-- A grouper whose model answers each request with the given completion. -/
def replying (complete : CompletionRequest → Except Unit Completion) : Grouper Unit Unit Nat where
  text _ := none
  k := none
  docVectors := .ok ∅
  model := { id := ⟨"mock"⟩, complete := fun requests => requests.map complete }

/-- Members are read in the order of the points, and answers as they are. -/
def inOrder : KMeans Nat :=
  ⟨fun _ _ => ⟨[], 0, List.forall_mem_nil _⟩, fun _ members => members⟩

/-- Two documents, each in a cluster of its own. -/
def twoClusters : Clustering := ⟨[1, 0], 2, by decide⟩

def fruitTexts : DocMap String := (∅ : DocMap String).insert 7 "apple" |>.insert 8 "pear"

/-- A model that echoes what it is sent names the clusters; one that fails is not asked again. -/
theorem fruits_named_again :
    let echo := replying fun request => .ok ⟨request.input, 0, 0⟩
    let failing := replying fun _ => .error ()
    let named := echo.nameClusters id plainLabels inOrder [7, 8] fruitTexts [] twoClusters
      InMemoryCache.default
    (failing.looked id plainLabels inOrder [7, 8] fruitTexts [] twoClusters named.2).requests = [] ∧
      (failing.nameClusters id plainLabels inOrder [7, 8] fruitTexts [] twoClusters named.2).1 =
        named.1 := by
  intro echo failing named
  have digests : Set.InjOn (stableDigest id) (Set.range (memberParts [7, 8] twoClusters)) := by
    have among : ∀ cluster, memberParts [7, 8] twoClusters cluster ∈
        [memberParts [7, 8] twoClusters 0, memberParts [7, 8] twoClusters 1, []] := by
      intro cluster
      rcases cluster with _ | _ | beyond
      · exact List.mem_cons_self
      · exact List.mem_cons_of_mem _ List.mem_cons_self
      · have none : memberParts [7, 8] twoClusters (beyond + 1 + 1) = [] := by
          simp [memberParts, Clustering.members, twoClusters]
        simp [none]
    have apart : ∀ parts ∈ [memberParts [7, 8] twoClusters 0,
        memberParts [7, 8] twoClusters 1, []],
        ∀ parts' ∈ [memberParts [7, 8] twoClusters 0, memberParts [7, 8] twoClusters 1, []],
          stableDigest id parts = stableDigest id parts' → parts = parts' := by
      decide +kernel
    rintro _ ⟨cluster, rfl⟩ _ ⟨cluster', rfl⟩ same
    exact apart _ (among cluster) _ (among cluster') same
  exact (@nameClusters_again _ _ _ _ _ _ _ _ _ id plainLabels inOrder echo failing [7, 8] fruitTexts
    [] twoClusters InMemoryCache.default rfl (fun _ => List.length_map _) (by decide) rfl digests
    (fun _ _ _ _ same => same) fun _ _ => Or.inl rfl).2 (by decide +kernel)

end Semcast.Cluster
