import Mathlib.Data.List.Sort
import Mathlib.Data.List.Destutter
import Mathlib.Data.Finset.Max
import Mathlib.Order.BoundedOrder.Basic

/-!
# Searching a list of candidate floors, highest first

A floor cuts a finite sample: what lies below it is dropped. Only the sampled
values can change what a floor drops, so a predicate on floors that survives
lowering (`FloorPredicate.lower`) and is constant between neighbouring samples
(`FloorPredicate.flat`) is decided by testing the samples alone. This module
sorts samples, removes repeats and searches them from the top, and shows that
the search finds the highest accepted floor at or below its start.
-/

namespace Semcast.FloorSearch

/-- A weaker test that also accepts some rejected entry counts strictly more. -/
theorem countP_lt_of_mem {α : Type*} {l : List α} {p q : α → Bool} (weaker : ∀ x ∈ l, p x → q x)
    {c : α} (member : c ∈ l) (rejects : p c = false) (accepts : q c = true) :
    l.countP p < l.countP q := by
  induction l with
  | nil => cases member
  | cons x l ih =>
    have tail : ∀ y ∈ l, p y → q y := fun y inside => weaker y (List.mem_cons_of_mem _ inside)
    have rest : l.countP p ≤ l.countP q := List.countP_mono_left tail
    rcases List.mem_cons.mp member with rfl | inside
    · rw [List.countP_cons_of_neg (by simp [rejects]), List.countP_cons_of_pos accepts]
      omega
    · have strict := ih tail inside
      have head := weaker x List.mem_cons_self
      cases hp : p x with
      | true =>
        rw [List.countP_cons_of_pos hp, List.countP_cons_of_pos (head hp)]
        omega
      | false =>
        have := List.countP_le_length (p := q) (l := [x])
        rw [List.countP_cons_of_neg (by simp [hp]), List.countP_cons]
        omega

variable {α : Type*} [LinearOrder α]

/-- The samples, highest first. -/
def descending (samples : List α) : List α :=
  samples.insertionSort (fun a b => b ≤ a)

/-- The distinct samples, highest first: neighbouring repeats are removed after
sorting, as a consecutive-duplicates `dedup` does. -/
def distinctDescending (samples : List α) : List α :=
  (descending samples).destutter (· ≠ ·)

theorem descending_perm (samples : List α) : (descending samples).Perm samples :=
  List.perm_insertionSort _ _

@[simp] theorem length_descending (samples : List α) :
    (descending samples).length = samples.length :=
  (descending_perm samples).length_eq

@[simp] theorem mem_descending {samples : List α} {x : α} :
    x ∈ descending samples ↔ x ∈ samples :=
  (descending_perm samples).mem_iff

theorem descending_pairwise (samples : List α) :
    (descending samples).Pairwise (fun a b => b ≤ a) :=
  List.pairwise_insertionSort _ _

theorem countP_descending (samples : List α) (p : α → Bool) :
    (descending samples).countP p = samples.countP p :=
  (descending_perm samples).countP_eq p

theorem distinctDescending_eq_dedup (samples : List α) :
    distinctDescending samples = (descending samples).dedup :=
  (descending_pairwise samples).destutter_eq_dedup

@[simp] theorem mem_distinctDescending {samples : List α} {x : α} :
    x ∈ distinctDescending samples ↔ x ∈ samples := by
  rw [distinctDescending_eq_dedup, List.mem_dedup, mem_descending]

theorem distinctDescending_pairwise (samples : List α) :
    (distinctDescending samples).Pairwise (fun a b => b < a) := by
  rw [distinctDescending_eq_dedup]
  have sorted := (descending_pairwise samples).sublist (List.dedup_sublist _)
  have distinct := List.nodup_dedup (descending samples)
  exact (sorted.and distinct).imp fun order => lt_of_le_of_ne order.1 (Ne.symm order.2)

/-- At most `index` samples reach a floor above the sample at `index`. -/
theorem countP_le_index {sorted : List α} (order : sorted.Pairwise (fun a b => b ≤ a))
    {index : Nat} (bound : index < sorted.length) {floor : α} (above : sorted[index] < floor) :
    sorted.countP (fun x => floor ≤ x) ≤ index := by
  have tail : (sorted.drop index).countP (fun x => floor ≤ x) = 0 := by
    rw [List.countP_eq_zero]
    intro x member
    obtain ⟨offset, inside, rfl⟩ := List.mem_iff_getElem.mp member
    rw [List.getElem_drop]
    have inBounds : index + offset < sorted.length := by
      rw [List.length_drop] at inside
      omega
    have below : sorted[index + offset] ≤ sorted[index] := by
      rcases Nat.eq_zero_or_pos offset with rfl | positive
      · exact le_refl _
      · exact List.pairwise_iff_getElem.mp order _ _ _ _ (by omega)
    simpa using below.trans_lt above
  calc sorted.countP (fun x => floor ≤ x)
      = (sorted.take index).countP (fun x => floor ≤ x)
        + (sorted.drop index).countP (fun x => floor ≤ x) := by
        rw [← List.countP_append, List.take_append_drop]
    _ ≤ (sorted.take index).length + 0 := by
        rw [tail]
        exact Nat.add_le_add_right List.countP_le_length 0
    _ ≤ index := by simp

/-- `find?` over a strictly descending list returns the highest accepted entry. -/
theorem find?_descending {cs : List α} (order : cs.Pairwise (fun a b => b < a))
    {accepts : α → Bool} {c : α} (found : cs.find? accepts = some c) :
    c ∈ cs ∧ accepts c = true ∧ ∀ d ∈ cs, c < d → accepts d = false := by
  obtain ⟨accepted, before, after, rfl, rejected⟩ := List.find?_eq_some_iff_append.mp found
  refine ⟨by simp, accepted, ?_⟩
  intro d member above
  rw [List.pairwise_append, List.pairwise_cons] at order
  rcases List.mem_append.mp member with early | late
  · simpa using rejected d early
  · rcases List.mem_cons.mp late with rfl | late
    · exact absurd above (lt_irrefl _)
    · exact absurd (order.2.1.1 d late) (not_lt_of_gt above)

/-- What a search over candidate floors may rely on: lowering a floor keeps it
accepted, and raising it past no candidate does too. -/
structure FloorPredicate (cs : List α) (accepts : α → Bool) : Prop where
  lower : ∀ {f g : α}, f ≤ g → accepts g = true → accepts f = true
  flat : ∀ {f g : α}, f ≤ g → (∀ c ∈ cs, f ≤ c → g ≤ c) → accepts f = true → accepts g = true

/-- An accepted floor below a rejected one lies at or below an accepted candidate
that is still below the rejected floor. -/
theorem FloorPredicate.exists_candidate {cs : List α} {accepts : α → Bool}
    (h : FloorPredicate cs accepts) {f g : α} (order : f ≤ g)
    (accepted : accepts f = true) (rejected : accepts g = false) :
    ∃ c ∈ cs, f ≤ c ∧ c < g ∧ accepts c = true := by
  classical
  let between := cs.toFinset.filter (fun c => f ≤ c ∧ c < g)
  have nonempty : between.Nonempty := by
    by_contra empty
    have none : ∀ c ∈ cs, f ≤ c → g ≤ c := by
      intro c member reaches
      by_contra short
      exact empty ⟨c, by simpa [between, member] using ⟨reaches, not_le.mp short⟩⟩
    have := h.flat order none accepted
    simp [rejected] at this
  obtain ⟨c, member, least⟩ := between.exists_min_image id nonempty
  obtain ⟨listed, reaches, short⟩ : c ∈ cs ∧ f ≤ c ∧ c < g := by simpa [between] using member
  refine ⟨c, listed, reaches, short, h.flat reaches ?_ accepted⟩
  intro d dListed dReaches
  by_cases dShort : d < g
  · exact least d (by simp [between, dListed, dReaches, dShort])
  · exact short.le.trans (not_lt.mp dShort)

variable [OrderBot α]

/-- The start where it is accepted, otherwise the highest accepted candidate
below it, otherwise `⊥`. -/
def highestAccepted (accepts : α → Bool) (cs : List α) (start : α) : α :=
  if accepts start then start
  else ((cs.filter (· < start)).find? accepts).getD ⊥

variable {cs : List α} {accepts : α → Bool} {start : α}

theorem highestAccepted_of_accepts (accepted : accepts start = true) :
    highestAccepted accepts cs start = start := by
  simp [highestAccepted, accepted]

/-- No floor strictly above the result, up to the start, is accepted. -/
theorem highestAccepted_maximal (order : cs.Pairwise (fun a b => b < a))
    (h : FloorPredicate cs accepts) {g : α}
    (above : highestAccepted accepts cs start < g) (upTo : g ≤ start) : accepts g = false := by
  by_contra accepted
  have accepted : accepts g = true := by simpa using accepted
  have rejected : accepts start = false := by
    by_contra startAccepted
    rw [highestAccepted_of_accepts (by simpa using startAccepted)] at above
    exact absurd upTo (not_le_of_gt above)
  obtain ⟨c, listed, reaches, short, cAccepted⟩ := h.exists_candidate upTo accepted rejected
  have member : c ∈ cs.filter (· < start) := List.mem_filter.mpr ⟨listed, by simpa using short⟩
  simp only [highestAccepted, rejected, Bool.false_eq_true, if_false] at above
  cases found : (cs.filter (· < start)).find? accepts with
  | none => exact absurd cAccepted (List.find?_eq_none.mp found c member)
  | some d =>
    rw [found, Option.getD_some] at above
    have highest := (find?_descending (order.filter _) found).2.2 c member (above.trans_le reaches)
    simp [cAccepted] at highest

/-- Either the result is accepted, or it is `⊥` and no floor at all is. -/
theorem highestAccepted_spec (h : FloorPredicate cs accepts) :
    accepts (highestAccepted accepts cs start) = true ∨
      (highestAccepted accepts cs start = ⊥ ∧ ∀ g, accepts g = false) := by
  by_cases startAccepted : accepts start = true
  · left
    rwa [highestAccepted_of_accepts startAccepted]
  · simp only [highestAccepted, startAccepted, Bool.false_eq_true, if_false]
    cases found : (cs.filter (· < start)).find? accepts with
    | some c => exact Or.inl (List.find?_some found)
    | none =>
      by_cases bottom : accepts ⊥ = true
      · exact Or.inl bottom
      · refine Or.inr ⟨rfl, fun g => ?_⟩
        by_contra accepted
        exact bottom (h.lower bot_le (by simpa using accepted))

theorem highestAccepted_le_start : highestAccepted accepts cs start ≤ start := by
  unfold highestAccepted
  split
  · exact le_rfl
  · cases found : (cs.filter (· < start)).find? accepts with
    | none => exact bot_le
    | some c =>
      have member := (List.mem_filter.mp (List.mem_of_find?_eq_some found)).2
      exact le_of_lt (by simpa using member)

/-- A stronger test finds no higher floor, whatever candidates it is tried on. -/
theorem highestAccepted_anti (order : cs.Pairwise (fun a b => b < a))
    (h : FloorPredicate cs accepts) {cs' : List α} {accepts' : α → Bool}
    (stronger : ∀ f, accepts' f = true → accepts f = true) :
    highestAccepted accepts' cs' start ≤ highestAccepted accepts cs start := by
  by_cases startAccepted : accepts' start = true
  · rw [highestAccepted_of_accepts startAccepted,
      highestAccepted_of_accepts (stronger start startAccepted)]
  · simp only [highestAccepted.eq_1 accepts', startAccepted, Bool.false_eq_true, if_false]
    cases found : (cs'.filter (· < start)).find? accepts' with
    | none => exact bot_le
    | some c =>
      have accepted := stronger c (List.find?_some found)
      have below : c < start := by simpa using (List.mem_filter.mp (List.mem_of_find?_eq_some found)).2
      rw [Option.getD_some]
      by_contra higher
      have rejected := highestAccepted_maximal order h (not_le.mp higher) below.le
      rw [accepted] at rejected
      cases rejected

end Semcast.FloorSearch
