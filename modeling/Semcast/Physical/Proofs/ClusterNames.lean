import Semcast.Misc.Delimited
import Semcast.Misc.Numbered
import Semcast.Misc.Occurrences
import Semcast.Physical.Cluster

/-!
# When clusters share a label

The further occurrences of a name are numbered, and a numbered name is apart from every
other numbered name. It may still be the name that another cluster already has.
-/

namespace Semcast.Cluster

open Model Cache Json Index Std Occurrences

/-! ## Numbered names -/

theorem paren_not_mem_toDigits (count : Nat) : '(' ∉ Nat.toDigits 10 count := by
  intro digit
  obtain ⟨d, small, same⟩ := Delimited.exists_digitChar_of_mem_toDigits (by omega) digit
  have every : ∀ d < 10, '(' ≠ Nat.digitChar d := by decide
  exact every d small same

/-- A numbered name can be read back. -/
theorem numbered_inj {name name' : String} {count count' : Nat} (many : 2 ≤ count)
    (many' : 2 ≤ count') (same : numbered name count = numbered name' count') :
    name = name' ∧ count = count' := by
  rw [numbered, numbered, if_neg (by omega), if_neg (by omega)] at same
  have chars : name.toList ++ [' '] ++ '(' :: Nat.toDigits 10 count =
      name'.toList ++ [' '] ++ '(' :: Nat.toDigits 10 count' := by
    have whole := congrArg String.toList same
    simp only [String.toList_append, Nat.toString_eq_repr, Nat.toList_repr] at whole
    have closed := (List.append_inj' whole rfl).1
    simpa using closed
  obtain ⟨names, digits⟩ := Delimited.append_cons_inj_of_last (paren_not_mem_toDigits count)
    (paren_not_mem_toDigits count') chars
  exact ⟨String.toList_inj.mp (List.append_inj' names rfl).1,
    Delimited.toDigits_inj (by omega) (by omega) digits⟩

theorem deduplicateFrom_eq {seen : TreeMap String Nat} {done : List String}
    (counted : ∀ name, seen.getD name 0 = done.count name) (names : List String) :
    deduplicateFrom seen names =
      (occurrencesAfter done names).map fun occurrence => numbered occurrence.1 occurrence.2 := by
  induction names generalizing seen done with
  | nil => rfl
  | cons name rest ih =>
    rw [deduplicateFrom, occurrencesAfter, List.map_cons]
    dsimp only
    rw [counted name]
    have counts : ∀ other,
        (seen.insert name (done.count name + 1)).getD other 0 = (done ++ [name]).count other := by
      intro other
      rw [TreeMap.getD_insert, List.count_append, List.count_singleton, counted other]
      by_cases same : name = other
      · subst same
        simp
      · simp [same]
    rw [ih counts]

/-- The names that are told apart are the numbered occurrences of the given ones. -/
theorem deduplicate_eq (names : List String) :
    deduplicate names =
      (occurrences names).map fun occurrence => numbered occurrence.1 occurrence.2 :=
  deduplicateFrom_eq (fun _ => TreeMap.getD_emptyc) names

theorem length_deduplicateFrom (seen : TreeMap String Nat) (names : List String) :
    (deduplicateFrom seen names).length = names.length := by
  induction names generalizing seen with
  | nil => rfl
  | cons name rest ih => exact congrArg (· + 1) (ih _)

/-- Names are told apart unless one of them is a number that another one gets. -/
theorem nodup_deduplicate_iff (names : List String) :
    (deduplicate names).Nodup ↔
      ∀ name count, 2 ≤ count → count ≤ names.count name →
        name ++ " (" ++ toString count ++ ")" ∉ names := by
  have plain : ∀ name, numbered name 1 = name := fun _ => if_pos rfl
  rw [deduplicate_eq, nodup_map_occurrences_iff plain fun _ _ _ _ => numbered_inj]
  have written : ∀ name count, 2 ≤ count →
      numbered name count = name ++ " (" ++ toString count ++ ")" :=
    fun name count many => if_neg (by omega)
  constructor
  · intro free name count many within
    rw [← written name count many]
    exact free name count many within
  · intro free name count many within
    rw [written name count many]
    exact free name count many within

/-! ## The names of the clusters -/

section Names

variable {ρ ε F α C : Type*} [SemanticCache C] {blake3 : List UInt8 → List UInt8}
  {json : Text F} {kmeans : KMeans α} {grouper : Grouper ρ ε α} {hashes : List UInt64}
  {texts : DocMap String} {points : List (Embedding α)} {clustering : Clustering}

theorem length_lookUpName (state : Naming C) (cluster : Nat) :
    (grouper.lookUpName blake3 json kmeans hashes texts points clustering state
      cluster).names.length = state.names.length := by
  unfold Grouper.lookUpName
  split
  · exact List.length_set
  · dsimp only
    split
    · exact List.length_set
    · rfl

theorem length_applyName (state : Naming C)
    (answer : (Nat × CacheKey) × Except ε Completion) :
    (Grouper.applyName json state answer).names.length = state.names.length := by
  unfold Grouper.applyName
  dsimp only
  split <;> exact List.length_set

omit [SemanticCache C] in
/-- A fold whose steps keep the number of names keeps it. -/
theorem length_foldl {ι : Type*} {round : Naming C → ι → Naming C}
    (keeps : ∀ state item, (round state item).names.length = state.names.length)
    (items : List ι) (state : Naming C) :
    (items.foldl round state).names.length = state.names.length := by
  induction items generalizing state with
  | nil => rfl
  | cons item rest ih => rw [List.foldl_cons, ih, keeps]

/-- Every cluster is named. -/
theorem length_namesOf (cache : C) :
    (grouper.namesOf blake3 json kmeans hashes texts points clustering cache).1.length =
      clustering.k := by
  unfold Grouper.namesOf
  dsimp only
  rw [length_foldl length_applyName, length_foldl length_lookUpName, List.length_replicate]

end Names

/-- The labels of different clusters are distinct if and only if no cluster's name is the
name that another one gets for being the second, third and so on with a name. -/
theorem nameClusters_nodup_iff {ρ ε F α C : Type*} [SemanticCache C]
    (blake3 : List UInt8 → List UInt8) (json : Text F) (kmeans : KMeans α)
    (grouper : Grouper ρ ε α) (hashes : List UInt64) (texts : DocMap String)
    (points : List (Embedding α)) (clustering : Clustering) (cache : C) :
    let names := (grouper.namesOf blake3 json kmeans hashes texts points clustering cache).1
    let labels := (grouper.nameClusters blake3 json kmeans hashes texts points clustering cache).1
    labels.length = clustering.k ∧
      (labels.Nodup ↔ ∀ name count, 2 ≤ count → count ≤ names.count name →
        name ++ " (" ++ toString count ++ ")" ∉ names) :=
  ⟨(length_deduplicateFrom _ _).trans (length_namesOf cache), nodup_deduplicate_iff _⟩

/-- Three documents, each in a cluster of its own. -/
def threeClusters : Clustering := ⟨[0, 1, 2], 3, by decide⟩

/-- A model that answers these labels, one a request. -/
def namer (labels : List String) : Grouper Unit Unit Nat where
  text _ := none
  k := none
  docVectors := .ok ∅
  model :=
    { id := ⟨"mock"⟩
      complete := fun requests => (requests.zip labels).map fun (_, label) => .ok ⟨label, 0, 0⟩ }

/-- Answers are read as they are. -/
def plainLabels : Text Unit where
  fromStr text := some (.object [("label", .string text)])
  toString _ := ""

/-- The second "a" is numbered to the name that the third cluster has. -/
theorem clusters_share_a_label :
    ¬ ((namer ["a", "a", "a (2)"]).nameClusters (fun bytes => bytes) plainLabels
      ⟨fun _ _ => threeClusters, fun _ members => members⟩ [1, 2, 3] ∅ [] threeClusters
      InMemoryCache.default).1.Nodup := by
  decide +kernel

end Semcast.Cluster
