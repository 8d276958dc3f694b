import Std.Data.TreeMap
import Semcast.Index.Basic
import Semcast.Physical.Extract

/-!
# The clustering stage

Rendering of `src/physical/cluster.rs`: documents are grouped by their vectors, each
group is named by one model call, and each row gets the name of the group of its
document. The arithmetic of k-means over `f32` is a parameter, and the metrics are left
out.
-/

namespace Semcast.Cluster

open Model Cache Json Verify Extract Index Std

/-- `CLUSTER_PROMPT_VERSION` (`src/physical/cluster.rs:45`). -/
def clusterPromptVersion : String := "cluster-v1"

/-- `LABEL_MAX_TOKENS` (`src/physical/cluster.rs:48`). -/
def labelMaxTokens : Nat := 64

/-- `MEMBER_SEPARATOR` (`src/physical/cluster.rs:51`). -/
def memberSeparator : String := "\n---\n"

/-- `REPRESENTATIVES_PER_CLUSTER` (`src/logical/sem_cluster.rs:28`). -/
def representativesPerCluster : Nat := 5

/-- `synthesize_label_prompt` (`src/physical/cluster.rs:54-62`): the instruction the labelling
model sees. -/
def synthesizeLabelPrompt : String :=
  "You are naming a group of documents that were grouped together because " ++
    "they are about similar things. You see several of them, separated by " ++
    "`---`.\n\n" ++
    "Reply with a JSON object \x7b\"label\": \"...\"\x7d whose label is a short noun " ++
    "phrase — at most five words — naming what this group is about. Name what " ++
    "these documents share, not what any one of them says."

/-- `label_schema` (`src/physical/cluster.rs:64-71`). -/
def labelSchema {F : Type*} : Value F :=
  .object [("type", .string "object"),
    ("properties", .object [("label", .object [("type", .string "string")])]),
    ("required", .array [.string "label"]),
    ("additionalProperties", .bool false)]

/-- `Clustering` (`src/index/kmeans.rs:28-32`): which cluster each point landed in, and how many
there are. -/
structure Clustering where
  assignments : List Nat
  k : Nat
  within : ∀ cluster ∈ assignments, cluster < k

/-- The points that are members of one cluster, as `Clustering::members` lists them
(`src/index/kmeans.rs:36-42`). -/
def Clustering.members (clustering : Clustering) (cluster : Nat) : List Nat :=
  (clustering.assignments.zipIdx.filter fun (assigned, _) => assigned == cluster).map (·.2)

/-- The functions of `src/index/kmeans.rs` that compute with vectors. -/
structure KMeans (α : Type*) where
  /-- `kmeans::cluster`. -/
  cluster : List (Embedding α) → Option Nat → Clustering
  /-- The members of a cluster, nearest to its centre first. -/
  central : List (Embedding α) → List Nat → List Nat

/-- `kmeans::representatives` (`src/index/kmeans.rs:257-288`): a cluster without members has
none. -/
def representatives {α : Type*} (kmeans : KMeans α) (points : List (Embedding α))
    (clustering : Clustering) (cluster : Nat) : Option (List Nat) :=
  let members := clustering.members cluster
  if members.isEmpty then none
  else some ((kmeans.central points members).take representativesPerCluster)

/-- `fallback_name` (`src/physical/cluster.rs:440-442`). -/
def fallbackName (cluster : Nat) : String :=
  "group " ++ toString (cluster + 1)

/-- The name of the occurrence of a name with this number. -/
def numbered (name : String) (count : Nat) : String :=
  if count = 1 then name else name ++ " (" ++ toString count ++ ")"

/-- The loop of `deduplicate`, with what it has seen. -/
def deduplicateFrom (seen : TreeMap String Nat) : List String → List String
  | [] => []
  | name :: rest =>
    let count := seen.getD name 0 + 1
    numbered name count :: deduplicateFrom (seen.insert name count) rest

/-- `deduplicate` (`src/physical/cluster.rs:447-461`): the further occurrences of a name are
numbered. -/
def deduplicate (names : List String) : List String :=
  deduplicateFrom ∅ names

/-- `parse_label` (`src/physical/cluster.rs:464-471`): `none` means the model did not give a
usable label. -/
def parseLabel {F : Type*} (json : Text F) (text : String) : Option String :=
  (((parseJsonObject json text).bind fun object => object.lookup "label").bind Value.asStr).bind
    fun label =>
      let label := String.ofList (trimMatches isWhitespace label.toList)
      if label.isEmpty then none else some label

/-- `Grouper` (`src/physical/cluster.rs:238-251`), for rows `ρ`, less its cache, its schema and
its metrics. -/
structure Grouper (ρ ε α : Type*) where
  text : ρ → Option String
  k : Option Nat
  docVectors : Except ε (DocMap (Embedding α))
  model : ModelProvider ε

section Naming

variable {ρ ε F α C : Type*} (blake3 : List UInt8 → List UInt8) (json : Text F)
  (kmeans : KMeans α) (grouper : Grouper ρ ε α)

/-- `Grouper::cache_key` (`src/physical/cluster.rs:422-437`): the whole membership of a cluster. -/
def Grouper.cacheKey (members : List Nat) (hashes : List UInt64) : CacheKey :=
  let memberHashes := (members.map fun point => hashes.getD point 0).mergeSort
  { typeVersion := "cluster"
    field := "label"
    inputDigest := stableDigest blake3 (memberHashes.map fun hash => toLeBytes 8 hash.toNat)
    modelId := grouper.model.id
    promptVersion := clusterPromptVersion }

/-- The variables of `name_clusters`. -/
structure Naming (C : Type*) where
  names : List String
  requests : List CompletionRequest
  pending : List (Nat × CacheKey)
  cache : C

variable (hashes : List UInt64) (texts : DocMap String) (points : List (Embedding α))
  (clustering : Clustering)

/-- One round of the first loop of `name_clusters`. -/
def Grouper.lookUpName [SemanticCache C] (state : Naming C) (cluster : Nat) : Naming C :=
  match representatives kmeans points clustering cluster with
  | none => { state with names := state.names.set cluster (fallbackName cluster) }
  | some chosen =>
    let excerpts := chosen.map fun point => texts.getD (hashes.getD point 0) ""
    let key := grouper.cacheKey blake3 (clustering.members cluster) hashes
    let found := SemanticCache.get state.cache key
    match found.1 with
    | some (.value label) =>
      { state with names := state.names.set cluster label, cache := found.2 }
    | _ =>
      { state with
        requests := state.requests ++ [{
          system := synthesizeLabelPrompt
          input := memberSeparator.intercalate excerpts
          maxTokens := labelMaxTokens
          schema := some (json.toString labelSchema) }]
        pending := state.pending ++ [(cluster, key)]
        cache := found.2 }

/-- One round of the second loop of `name_clusters`. -/
def Grouper.applyName [SemanticCache C] (state : Naming C)
    (answer : (Nat × CacheKey) × Except ε Completion) : Naming C :=
  let ((cluster, key), completion) := answer
  match completion.toOption.bind fun completion => parseLabel json completion.text with
  | some label =>
    { state with
      names := state.names.set cluster label
      cache := SemanticCache.put state.cache key (.value label) }
  -- A group that could not be named is still a group.
  | none => { state with names := state.names.set cluster (fallbackName cluster) }

/-- The names of the clusters before they are told apart, and the cache after. -/
def Grouper.namesOf [SemanticCache C] (cache : C) : List String × C :=
  let looked := (List.range clustering.k).foldl
    (grouper.lookUpName blake3 json kmeans hashes texts points clustering)
    ⟨List.replicate clustering.k "", [], [], cache⟩
  let named := (looked.pending.zip (grouper.model.complete looked.requests)).foldl
    (Grouper.applyName json) looked
  (named.names, named.cache)

/-- `Grouper::name_clusters` (`src/physical/cluster.rs:322-382`). -/
def Grouper.nameClusters [SemanticCache C] (cache : C) : List String × C :=
  let named := grouper.namesOf blake3 json kmeans hashes texts points clustering cache
  (deduplicate named.1, named.2)

end Naming

section Labels

variable {ρ ε F α C : Type*} (blake3 : List UInt8 → List UInt8) (json : Text F)
  (kmeans : KMeans α) (grouper : Grouper ρ ε α)

/-- `Grouper::label` (`src/physical/cluster.rs:298-319`): the label of each document. -/
def Grouper.label [SemanticCache C] (hashes : List UInt64) (texts : DocMap String)
    (vectors : DocMap (Embedding α)) (cache : C) : List (UInt64 × String) × C :=
  if hashes.isEmpty then ([], cache)
  else
    let points := hashes.map fun hash => vectors.getD hash []
    let clustering := kmeans.cluster points grouper.k
    let named := grouper.nameClusters blake3 json kmeans hashes texts points clustering cache
    ((hashes.zip clustering.assignments).map fun (hash, cluster) =>
      (hash, named.1.getD cluster ""), named.2)

/-- The indexed documents that the rows hold, and the text of each. -/
def Grouper.documents (vectors : DocMap (Embedding α)) (rows : List ρ) :
    List UInt64 × DocMap String :=
  rows.foldl (fun state row =>
    match grouper.text row with
    | none => state
    | some text =>
      let hash := docHash text
      if vectors.contains hash then
        (if state.2.contains hash then state.1 else state.1 ++ [hash], state.2.insert hash text)
      else state) ([], ∅)

/-- `Grouper::with_labels` (`src/physical/cluster.rs:385-410`), for one row. -/
def Grouper.labelOf (labels : List (UInt64 × String)) (row : ρ) : Option String :=
  (grouper.text row).bind fun text => labels.lookup (docHash text)

/-- `Grouper::run` (`src/physical/cluster.rs:254-294`): the rows, each with the label of its
group. -/
def Grouper.run [SemanticCache C] (batches : List (List ρ)) (cache : C) :
    Except ε (List (List (ρ × Option String)) × C) :=
  match grouper.docVectors with
  | .error error => .error error
  | .ok vectors =>
    let found := grouper.documents vectors batches.flatten
    let labelled := grouper.label blake3 json kmeans found.1.mergeSort found.2 vectors cache
    .ok (batches.map fun batch => batch.map fun row => (row, grouper.labelOf labelled.1 row),
      labelled.2)

end Labels

end Semcast.Cluster
