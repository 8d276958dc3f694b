import Mathlib.Algebra.Field.Basic
import Mathlib.Algebra.Group.Nat.Defs
import Mathlib.Order.Lattice
import Mathlib.Data.List.Basic
import Mathlib.Logic.Function.Iterate
import Semcast.Physical.Cluster

/-!
# k-means

Rendering of `src/index/kmeans.rs`. The arithmetic is exact: the numbers `K` are an ordered
field in the place of `f32` and `f64`. What the random generator draws is a parameter, and
the generator of the source is one value for it.
-/

namespace Semcast.KMeans

open Model

/-- `AUTO_K` (`src/index/kmeans.rs:15`). -/
def autoKs : List Nat := [2, 4, 8, 16, 32]

/-- `MAX_ITERATIONS` (`src/index/kmeans.rs:19`). -/
def maxIterations : Nat := 50

/-- `SILHOUETTE_SAMPLE` (`src/index/kmeans.rs:24`). -/
def silhouetteSample : Nat := 256

/-- What a random generator draws, by how many draws came before. Counterpart of `Lcg::below`
(`src/index/kmeans.rs:307-309`), `Lcg::unit` (`src/index/kmeans.rs:311-313`). -/
structure Draws (K : Type*) where
  /-- `Lcg::below`, of a bound. -/
  below : Nat → Nat → Nat
  /-- `Lcg::unit`. -/
  unit : Nat → K
  below_lt : ∀ drawn bound, 0 < bound → below drawn bound < bound

/-! ## Assignment -/

section Assignment

variable {K : Type*} [Field K] [LinearOrder K]

/-- `distance` (`src/index/kmeans.rs:190-192`): squared Euclidean. -/
def distance (a b : Embedding K) : K :=
  (List.zipWith (fun a b => (a - b) * (a - b)) a b).sum

/-- The variables of `nearest_centroid`; no distance is `f32::INFINITY`. -/
structure Nearest (K : Type*) where
  best : Nat
  bestDistance : Option K

/-- One round of `nearest_centroid`. -/
def nearestRound (point : Embedding K) (state : Nearest K) (centroid : Embedding K × Nat) :
    Nearest K :=
  let distance := distance point centroid.1
  match state.bestDistance with
  | none => ⟨centroid.2, some distance⟩
  | some bestDistance =>
    if distance < bestDistance then ⟨centroid.2, some distance⟩ else state

/-- `nearest_centroid` (`src/index/kmeans.rs:175-186`): the first of the nearest. -/
def nearestCentroid (point : Embedding K) (centroids : List (Embedding K)) : Nat :=
  (centroids.zipIdx.foldl (nearestRound point) ⟨0, none⟩).best

theorem foldl_nearestRound_lt (point : Embedding K) (centroids : List (Embedding K))
    (start : Nat) (state : Nearest K) :
    ((centroids.zipIdx start).foldl (nearestRound point) state).best <
      max (state.best + 1) (start + centroids.length) := by
  induction centroids generalizing start state with
  | nil =>
    rw [List.zipIdx_nil, List.foldl_nil, List.length_nil]
    omega
  | cons centroid rest ih =>
    rw [List.zipIdx_cons, List.foldl_cons, List.length_cons]
    have bound := ih (start + 1) (nearestRound point state (centroid, start))
    have step : (nearestRound point state (centroid, start)).best = state.best ∨
        (nearestRound point state (centroid, start)).best = start := by
      unfold nearestRound
      dsimp only
      split
      · exact Or.inr rfl
      · split
        · exact Or.inr rfl
        · exact Or.inl rfl
    omega

theorem nearestCentroid_lt (point : Embedding K) {centroids : List (Embedding K)}
    (some_centroid : 0 < centroids.length) :
    nearestCentroid point centroids < centroids.length := by
  have bound := foldl_nearestRound_lt point centroids 0 ⟨0, none⟩
  unfold nearestCentroid
  dsimp only at bound
  omega

end Assignment

/-! ## Recentring -/

section Recentring

variable {K : Type*} [Field K]

/-- The sums and the counts of `recentre`. -/
structure Totals (K : Type*) where
  sums : List (Embedding K)
  counts : List Nat

/-- A point added to a sum, slot by slot. -/
def addTo (sum point : Embedding K) : Embedding K :=
  List.zipWith (· + ·) sum point ++ sum.drop point.length

/-- One round of the loop of `recentre`. -/
def totalsRound (totals : Totals K) (assigned : Embedding K × Nat) : Totals K :=
  { sums := totals.sums.modify assigned.2 (addTo · assigned.1)
    counts := totals.counts.modify assigned.2 (· + 1) }

/-- What `recentre` starts from. -/
def Totals.zero (K : Type*) [Field K] (dim k : Nat) : Totals K :=
  ⟨List.replicate k (List.replicate dim 0), List.replicate k 0⟩

/-- `recentre` (`src/index/kmeans.rs:145-173`): the mean of each cluster, and the old centroid of
an empty one. -/
def recentre (points : List (Embedding K)) (assignments : List Nat) (k : Nat)
    (previous : List (Embedding K)) : List (Embedding K) :=
  let dim := (points.headD []).length
  let totals := (points.zip assignments).foldl totalsRound (.zero K dim k)
  (totals.sums.zip totals.counts).zipIdx.map fun total =>
    if total.1.2 = 0 then previous.getD total.2 []
    else total.1.1.map (· / (total.1.2 : K))

theorem length_foldl_totalsRound (pairs : List (Embedding K × Nat)) (totals : Totals K) :
    (pairs.foldl totalsRound totals).sums.length = totals.sums.length ∧
      (pairs.foldl totalsRound totals).counts.length = totals.counts.length := by
  induction pairs generalizing totals with
  | nil => exact ⟨rfl, rfl⟩
  | cons pair rest ih =>
    have later := ih (totalsRound totals pair)
    rw [totalsRound, List.length_modify, List.length_modify] at later
    exact later

theorem length_recentre (points : List (Embedding K)) (assignments : List Nat) (k : Nat)
    (previous : List (Embedding K)) : (recentre points assignments k previous).length = k := by
  have lengths := length_foldl_totalsRound (points.zip assignments)
    (.zero K (points.headD []).length k)
  unfold recentre
  dsimp only
  rw [List.length_map, List.length_zipIdx, List.length_zip, lengths.1, lengths.2, Totals.zero,
    List.length_replicate, List.length_replicate, Nat.min_self]

end Recentring

/-! ## Lloyd's algorithm -/

section Lloyd

variable {K : Type*} [Field K] [LinearOrder K] (points : List (Embedding K)) (k : Nat)

/-- The variables of the loop of `kmeans`. -/
structure Lloyd (K : Type*) where
  assignments : List Nat
  centroids : List (Embedding K)

/-- Each point assigned to its nearest centroid. -/
def Lloyd.assign (state : Lloyd K) : Lloyd K :=
  { state with assignments := points.map (nearestCentroid · state.centroids) }

/-- The centroids moved to the means. -/
def Lloyd.recentre (state : Lloyd K) : Lloyd K :=
  { state with centroids := KMeans.recentre points state.assignments k state.centroids }

/-- The loop of `kmeans`, which ends when no point has moved, or after so many rounds. -/
def iterate : Nat → Lloyd K → Lloyd K
  | 0, state => state
  | rounds + 1, state =>
    let assigned := state.assign points
    if assigned.assignments = state.assignments then assigned
    else iterate rounds (assigned.recentre points k)

/-- What holds at the head of the loop: each point has a centroid. -/
structure Lloyd.WellFormed (state : Lloyd K) : Prop where
  assignments : state.assignments.length = points.length
  centroids : state.centroids.length = k
  within : ∀ cluster ∈ state.assignments, cluster < k

variable {points k}

theorem Lloyd.WellFormed.assign {state : Lloyd K} (pos : 0 < k)
    (wellFormed : state.WellFormed points k) : (state.assign points).WellFormed points k := by
  refine ⟨List.length_map _, wellFormed.centroids, ?_⟩
  intro cluster member
  obtain ⟨point, -, rfl⟩ := List.mem_map.mp member
  have below := nearestCentroid_lt point (wellFormed.centroids.symm ▸ pos)
  rwa [wellFormed.centroids] at below

omit [LinearOrder K] in
theorem Lloyd.WellFormed.recentre {state : Lloyd K} (wellFormed : state.WellFormed points k) :
    (state.recentre points k).WellFormed points k :=
  ⟨wellFormed.assignments, length_recentre points state.assignments k state.centroids,
    wellFormed.within⟩

theorem Lloyd.WellFormed.iterate {state : Lloyd K} (pos : 0 < k)
    (wellFormed : state.WellFormed points k) (rounds : Nat) :
    (iterate points k rounds state).WellFormed points k := by
  induction rounds generalizing state with
  | zero => exact wellFormed
  | succ rounds ih =>
    rw [KMeans.iterate]
    by_cases settled : (state.assign points).assignments = state.assignments
    · rw [if_pos settled]
      exact wellFormed.assign pos
    · rw [if_neg settled]
      exact ih (wellFormed.assign pos).recentre

end Lloyd

/-! ## Seeding -/

section Seeding

variable {K : Type*} [Field K] [LinearOrder K] (draws : Draws K) (points : List (Embedding K))

/-- The variables of `seed`, with how many draws were made. -/
structure Seeding (K : Type*) where
  centroids : List (Embedding K)
  drawn : Nat

/-- The weights of `seed`: the distance of each point to the nearest chosen centroid, of
which there is one at least. -/
def weights (centroids : List (Embedding K)) : List K :=
  points.map fun point => ((centroids.map (distance point)).min?).getD 0

/-- The loop of `seed` over the weights, from this index on: where the target is used up. -/
def chosenFrom : Nat → K → List K → Option Nat
  | _, _, [] => none
  | i, target, weight :: weights =>
    if target - weight ≤ 0 then some i else chosenFrom (i + 1) (target - weight) weights

/-- One round of `seed`. -/
def seedRound (state : Seeding K) : Seeding K :=
  let weights := weights points state.centroids
  let total := weights.sum
  let chosen :=
    if total ≤ 0 then draws.below state.drawn points.length
    else
      (chosenFrom 0 (draws.unit state.drawn * total) weights).getD (points.length - 1)
  ⟨state.centroids ++ [points.getD chosen []], state.drawn + 1⟩

/-- What `seed` starts from. -/
def Seeding.first : Seeding K :=
  ⟨[points.getD (draws.below 0 points.length) []], 1⟩

/-- `seed` (`src/index/kmeans.rs:109-141`): each round adds a centroid, until there are `k`. -/
def seed (k : Nat) : List (Embedding K) :=
  ((seedRound draws points)^[k - 1] (.first draws points)).centroids

theorem length_iterate_seedRound (rounds : Nat) (state : Seeding K) :
    ((seedRound draws points)^[rounds] state).centroids.length =
      state.centroids.length + rounds := by
  induction rounds generalizing state with
  | zero => rfl
  | succ rounds ih =>
    rw [Function.iterate_succ_apply, ih, seedRound, List.length_append, List.length_singleton]
    omega

theorem length_seed {k : Nat} (pos : 0 < k) : (seed draws points k).length = k := by
  rw [seed, length_iterate_seedRound, Seeding.first, List.length_singleton]
  omega

end Seeding

/-! ## Clustering -/

section Clustering

open Cluster

variable {K : Type*} [Field K] [LinearOrder K] (draws : Draws K) (points : List (Embedding K))

/-- What the loop of `kmeans` starts from. -/
def Lloyd.start (k : Nat) : Lloyd K :=
  ⟨List.replicate points.length 0, seed draws points k⟩

/-- The `k` of `kmeans`: `usize::clamp` between one and the number of points. -/
def effective (k : Nat) : Nat :=
  min (max k 1) points.length

theorem Lloyd.wellFormed_start {k : Nat} (pos : 0 < k) :
    (Lloyd.start draws points k).WellFormed points k := by
  refine ⟨List.length_replicate, length_seed draws points pos, ?_⟩
  intro cluster member
  rw [List.eq_of_mem_replicate member]
  exact pos

theorem iterate_nil (k rounds : Nat) (centroids : List (Embedding K)) :
    (iterate [] k rounds ⟨[], centroids⟩).assignments = [] := by
  cases rounds <;> rfl

theorem iterate_within (k : Nat) :
    ∀ cluster ∈ (iterate points (effective points k) maxIterations
      (.start draws points (effective points k))).assignments, cluster < effective points k := by
  cases points with
  | nil =>
    rw [Lloyd.start, List.length_nil, List.replicate_zero, iterate_nil]
    simp
  | cons point rest =>
    have pos : 0 < effective (point :: rest) k := by
      rw [effective, List.length_cons]
      omega
    exact ((Lloyd.wellFormed_start draws _ pos).iterate pos maxIterations).within

/-- `kmeans` (`src/index/kmeans.rs:85-105`): Lloyd's algorithm from a k-means++ seeding. -/
def kmeans (k : Nat) : Clustering where
  assignments := (iterate points (effective points k) maxIterations
    (.start draws points (effective points k))).assignments
  k := effective points k
  within := iterate_within draws points k

/-- `mean_distance` from a point to the members of a cluster (`src/index/kmeans.rs:238-253`). -/
def meanDistance (point : Nat) (members : List Nat) (skipSelf : Bool) : K :=
  let others := members.filter fun other => !(skipSelf && other == point)
  if others.isEmpty then 0
  else
    (others.map fun other => distance (points.getD point []) (points.getD other [])).sum /
      (others.length : K)

/-- What a point adds to the total of `silhouette`. -/
def silhouetteAt (clustering : Clustering) (point : Nat) : K :=
  let own := clustering.assignments.getD point 0
  -- By convention the silhouette of a point alone in its cluster is 0.
  if (clustering.members own).length < 2 then 0
  else
    let cohesion := meanDistance points point (clustering.members own) true
    let others := (List.range clustering.k).filter fun cluster =>
      cluster != own && !(clustering.members cluster).isEmpty
    let separations := others.map fun cluster =>
      meanDistance points point (clustering.members cluster) false
    match separations.min? with
    | none => 0
    | some separation =>
      let spread := max cohesion separation
      if 0 < spread then (separation - cohesion) / spread else 0

/-- `silhouette` (`src/index/kmeans.rs:199-234`): the mean over a sample of the points. -/
def silhouette (clustering : Clustering) : K :=
  if clustering.k < 2 ∨ points.length ≤ clustering.k then -1
  else
    let stride := max ((points.length + silhouetteSample - 1) / silhouetteSample) 1
    let sample := (List.range points.length).filter fun point => point % stride = 0
    if sample.isEmpty then -1
    else (sample.map (silhouetteAt points clustering)).sum / (sample.length : K)

/-- One round of `auto_k`: a better score replaces the best. -/
def autoRound (best : Option (K × Clustering)) (k : Nat) : Option (K × Clustering) :=
  let clustering := kmeans draws points k
  let score := silhouette points clustering
  match best with
  | none => some (score, clustering)
  | some (top, _) => if top < score then some (score, clustering) else best

/-- `auto_k` (`src/index/kmeans.rs:65-82`). -/
def autoK : Clustering :=
  match (autoKs.takeWhile (· < points.length)).foldl (autoRound draws points) none with
  | some (_, clustering) => clustering
  | none => kmeans draws points points.length

/-- `cluster` (`src/index/kmeans.rs:51-62`): into `k` groups, or into the `k` that the sweep likes
best. -/
def cluster (k : Option Nat) : Clustering :=
  if points.isEmpty then ⟨[], 0, by simp⟩
  else
    match k with
    | some k => kmeans draws points (effective points k)
    | none => autoK draws points

/-- The centre of a cluster in `representatives`. -/
def centre (members : List Nat) : Embedding K :=
  let sum := members.foldl (fun sum member => addTo sum (points.getD member []))
    (List.replicate (points.headD []).length 0)
  sum.map (· / (members.length : K))

/-- The members of a cluster as `representatives` ranks them: nearest to the centre first,
with ties by index. -/
def central (members : List Nat) : List Nat :=
  let key member := distance (points.getD member []) (centre points members)
  members.mergeSort fun a b => key a < key b ∨ (key a = key b ∧ a ≤ b)

/-- `src/index/kmeans.rs`, over exact arithmetic. -/
def exact : Cluster.KMeans K where
  cluster := cluster draws
  central := central

end Clustering

/-! ## The generator -/

/-- The step of `Lcg::next`. -/
def lcgStep (state : UInt64) : UInt64 :=
  state * 6364136223846793005 + 1442695040888963407

/-- The state of `Lcg::new(0x5E_1EC7ED)` after so many draws. -/
def lcgState (drawn : Nat) : UInt64 :=
  lcgStep^[drawn] (0x5E1EC7ED ||| 1)

/-- What `Lcg::next` returns after so many draws. -/
def lcgNext (drawn : Nat) : Nat :=
  (lcgState (drawn + 1) >>> 33).toNat

/-- `Lcg` (`src/index/kmeans.rs:292`, `src/index/kmeans.rs:295-297`,
`src/index/kmeans.rs:299-305`). -/
def lcg (K : Type*) [Field K] : Draws K where
  below drawn bound := lcgNext drawn % bound
  unit drawn := (lcgNext drawn : K) / ((2 ^ 31 : Nat) : K)
  below_lt drawn _ pos := Nat.mod_lt (lcgNext drawn) pos

end Semcast.KMeans
