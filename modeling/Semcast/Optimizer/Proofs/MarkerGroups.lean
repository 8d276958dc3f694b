import Semcast.Optimizer.Proofs.Markers

/-!
# The groups of a projection's markers

Observing the markers one by one keeps a group for every place that was asked for, in
order of first appearance. A group of a registered type knows what its markers ask for;
a group of an inline field is the first marker of its place, with its doc.
-/

namespace Semcast.ExtractRule

open Logical Semcast.Types Fallible

variable {F D O : Type}

/-- Where the answer of a marker is looked up. -/
structure Place (F D O : Type) where
  source : Expr F D O
  key : NodeKey
  deriving DecidableEq

def Marker.place (registry : TypeRegistry F) (marker : Marker F D O) : Place F D O :=
  ⟨marker.source, marker.key registry⟩

def NamedGroup.place (group : NamedGroup F D O) : Place F D O :=
  ⟨group.source, .named group.typeName⟩

def InlineGroup.place (group : InlineGroup F D O) : Place F D O :=
  ⟨group.source, .inline group.field group.spec⟩

/-- What a group of a registered type holds once some markers were seen. -/
structure NamedGroup.Gathers (registry : TypeRegistry F) (seen : List (Marker F D O))
    (group : NamedGroup F D O) : Prop where
  full : registry.types.lookup group.typeName = some group.full
  whole : group.whole = true ↔ ∃ typeName, .struct group.source typeName ∈ seen ∧
    registry.toLowercase typeName = group.typeName
  fields : ∀ name, name ∈ group.fields ↔ ∃ typeName, .field group.source typeName name ∈ seen ∧
    registry.toLowercase typeName = group.typeName

namespace NamedGroup.Gathers

variable {registry : TypeRegistry F} {seen : List (Marker F D O)} {group : NamedGroup F D O}

/-- A marker of another place is nothing to the group. -/
theorem concat_other (gathers : group.Gathers registry seen) {marker : Marker F D O}
    (other : group.place ≠ marker.place registry) : group.Gathers registry (seen ++ [marker]) := by
  refine ⟨gathers.full, gathers.whole.trans ?_, fun name => (gathers.fields name).trans ?_⟩
  · apply exists_congr
    intro typeName
    apply and_congr_left
    intro named
    rw [List.mem_append, List.mem_singleton]
    constructor
    · exact Or.inl
    · rintro (earlier | rfl)
      · exact earlier
      · exact absurd (by rw [place, ← named]; rfl) other
  · apply exists_congr
    intro typeName
    apply and_congr_left
    intro named
    rw [List.mem_append, List.mem_singleton]
    constructor
    · exact Or.inl
    · rintro (earlier | rfl)
      · exact earlier
      · exact absurd (by rw [place, ← named]; rfl) other

theorem concat_struct (gathers : group.Gathers registry seen) {source : Expr F D O}
    {typeName : String} (same : group.place = (Marker.struct source typeName).place registry) :
    ({ group with whole := true } : NamedGroup F D O).Gathers registry
      (seen ++ [.struct source typeName]) := by
  obtain ⟨sources, keys⟩ := Place.mk.inj same
  refine ⟨gathers.full, ?_, fun name => (gathers.fields name).trans ?_⟩
  · refine ⟨fun _ => ⟨typeName, ?_, (NodeKey.named.inj keys).symm⟩, fun _ => rfl⟩
    change Marker.struct group.source typeName ∈ _
    rw [sources]
    exact List.mem_concat_self
  · simp

theorem concat_field (gathers : group.Gathers registry seen) {source : Expr F D O}
    {typeName name : String}
    (same : group.place = (Marker.field source typeName name).place registry) :
    ({ group with fields := group.fields.insert name } : NamedGroup F D O).Gathers registry
      (seen ++ [.field source typeName name]) := by
  obtain ⟨sources, keys⟩ := Place.mk.inj same
  refine ⟨gathers.full, gathers.whole.trans (by simp), ?_⟩
  intro asked
  change asked ∈ group.fields.insert name ↔ _
  rw [Std.TreeSet.mem_insert, Std.compare_eq_iff_eq, gathers.fields]
  constructor
  · rintro (rfl | ⟨typeName', earlier, named⟩)
    · refine ⟨typeName, ?_, (NodeKey.named.inj keys).symm⟩
      change Marker.field group.source typeName name ∈ _
      rw [sources]
      exact List.mem_concat_self
    · exact ⟨typeName', List.mem_append_left _ earlier, named⟩
  · rintro ⟨typeName', member, named⟩
    rcases List.mem_append.mp member with earlier | last
    · exact Or.inr ⟨typeName', earlier, named⟩
    · cases List.mem_singleton.mp last
      exact Or.inl rfl

/-- A new group, of a place that nothing has asked for. -/
theorem fresh {source : Expr F D O} {typeName : String} {full : SemanticType F}
    (known : registry.get typeName = some full)
    (new : ∀ marker ∈ seen, marker.place registry ≠ ⟨source, .named (registry.toLowercase typeName)⟩) :
    (⟨source, registry.toLowercase typeName, full, false, ∅⟩ : NamedGroup F D O).Gathers
      registry seen := by
  refine ⟨known, ?_, ?_⟩
  · constructor
    · intro impossible
      cases impossible
    · rintro ⟨typeName', member, named⟩
      exact absurd (congrArg (fun name => Place.mk source (.named name)) named) (new _ member)
  · intro name
    constructor
    · intro impossible
      exact absurd impossible Std.TreeSet.not_mem_emptyc
    · rintro ⟨typeName', member, named⟩
      exact absurd (congrArg (fun name => Place.mk source (.named name)) named) (new _ member)

end NamedGroup.Gathers

variable [DecidableEq F] [DecidableEq D] [DecidableEq O] {registry : TypeRegistry F}

/-- Where the markers of registered types are looked up, in order. -/
def namedPlaces (registry : TypeRegistry F) (seen : List (Marker F D O)) :
    List (Place F D O) :=
  ((seen.filter fun marker => !marker.isInline).map (Marker.place registry)).eraseDups

/-- Where the markers of inline fields are looked up, in order. -/
def inlinePlaces (registry : TypeRegistry F) (seen : List (Marker F D O)) :
    List (Place F D O) :=
  ((seen.filter Marker.isInline).map (Marker.place registry)).eraseDups

theorem namedPlaces_concat (seen : List (Marker F D O)) {marker : Marker F D O}
    (named : marker.isInline = false) :
    namedPlaces registry (seen ++ [marker]) =
      if marker.place registry ∈ namedPlaces registry seen then namedPlaces registry seen
      else namedPlaces registry seen ++ [marker.place registry] := by
  unfold namedPlaces
  rw [List.filter_append, List.map_append, List.filter_singleton, named, Bool.not_false, cond_true,
    List.map_singleton, FirstSeen.eraseDups_concat]
  simp only [List.mem_eraseDups]

theorem inlinePlaces_concat (seen : List (Marker F D O)) {marker : Marker F D O}
    (inline : marker.isInline = true) :
    inlinePlaces registry (seen ++ [marker]) =
      if marker.place registry ∈ inlinePlaces registry seen then inlinePlaces registry seen
      else inlinePlaces registry seen ++ [marker.place registry] := by
  unfold inlinePlaces
  rw [List.filter_append, List.map_append, List.filter_singleton, inline, cond_true,
    List.map_singleton, FirstSeen.eraseDups_concat]
  simp only [List.mem_eraseDups]

theorem namedPlaces_concat_inline (seen : List (Marker F D O)) {marker : Marker F D O}
    (inline : marker.isInline = true) :
    namedPlaces registry (seen ++ [marker]) = namedPlaces registry seen := by
  simp [namedPlaces, inline]

theorem inlinePlaces_concat_named (seen : List (Marker F D O)) {marker : Marker F D O}
    (named : marker.isInline = false) :
    inlinePlaces registry (seen ++ [marker]) = inlinePlaces registry seen := by
  simp [inlinePlaces, named]

theorem mem_namedPlaces {seen : List (Marker F D O)} {source : Expr F D O} {typeName : String} :
    ⟨source, .named typeName⟩ ∈ namedPlaces registry seen ↔
      ∃ marker ∈ seen, marker.place registry = ⟨source, .named typeName⟩ := by
  rw [namedPlaces, List.mem_eraseDups, List.mem_map]
  apply exists_congr
  intro marker
  rw [List.mem_filter]
  cases marker <;> simp [Marker.isInline, Marker.place, Marker.key]

/-- What the builder holds once some markers were seen. -/
structure Gathered (registry : TypeRegistry F) (seen : List (Marker F D O))
    (builder : NodeBuilder F D O) : Prop where
  namedPlaces : builder.named.map NamedGroup.place = namedPlaces registry seen
  inlinePlaces : builder.inline.map InlineGroup.place = inlinePlaces registry seen
  gathers : ∀ group ∈ builder.named, group.Gathers registry seen
  docs : ∀ group ∈ builder.inline, .inline group.source group.field group.spec group.doc ∈ seen

/-- The one group of a place is updated, or a new one is. -/
theorem updateNamed_spec {source : Expr F D O} {typeName : String} {full : SemanticType F}
    (known : registry.get typeName = some full) (update : NamedGroup F D O → NamedGroup F D O)
    {groups : List (NamedGroup F D O)} (distinct : (groups.map NamedGroup.place).Nodup) :
    updateNamed registry source typeName update groups =
      .ok (if ⟨source, .named (registry.toLowercase typeName)⟩ ∈ groups.map NamedGroup.place then
        groups.map fun group =>
          if group.place = ⟨source, .named (registry.toLowercase typeName)⟩ then update group
          else group
      else groups ++ [update ⟨source, registry.toLowercase typeName, full, false, ∅⟩]) := by
  induction groups with
  | nil =>
    rw [updateNamed, known]
    rfl
  | cons group rest ih =>
    rw [List.map_cons, List.nodup_cons] at distinct
    have same_place : group.place = ⟨source, .named (registry.toLowercase typeName)⟩ ↔
        group.source = source ∧ group.typeName = registry.toLowercase typeName := by
      simp [NamedGroup.place]
    rw [updateNamed]
    by_cases here : group.source = source ∧ group.typeName = registry.toLowercase typeName
    · have own := same_place.mpr here
      have there : ⟨source, .named (registry.toLowercase typeName)⟩ ∈
          (group :: rest).map NamedGroup.place := List.mem_map.mpr ⟨group, List.mem_cons_self, own⟩
      have others : ∀ other ∈ rest, (if other.place = ⟨source, .named (registry.toLowercase typeName)⟩
          then update other else other) = other := by
        intro other member
        apply if_neg
        intro same
        exact distinct.1 (List.mem_map.mpr ⟨other, member, same.trans own.symm⟩)
      rw [if_pos here, if_pos there, List.map_cons, if_pos own, List.map_congr_left others,
        List.map_id']
    · have apart := mt same_place.mp here
      rw [if_neg here, ih distinct.2]
      by_cases later : ⟨source, .named (registry.toLowercase typeName)⟩ ∈ rest.map NamedGroup.place
      · have there : ⟨source, .named (registry.toLowercase typeName)⟩ ∈
            (group :: rest).map NamedGroup.place := List.mem_cons_of_mem _ later
        rw [if_pos later, if_pos there, List.map_cons, if_neg apart]
        rfl
      · have missing : ⟨source, .named (registry.toLowercase typeName)⟩ ∉
            (group :: rest).map NamedGroup.place := by
          rw [List.map_cons, List.mem_cons, not_or]
          exact ⟨Ne.symm apart, later⟩
        rw [if_neg later, if_neg missing]
        rfl

namespace Gathered

variable {seen : List (Marker F D O)} {builder : NodeBuilder F D O}

theorem empty : Gathered registry [] (⟨[], []⟩ : NodeBuilder F D O) :=
  ⟨rfl, rfl, by simp, by simp⟩

/-- A marker of a registered type is added to the group of its place. -/
theorem updateNamed (gathered : Gathered registry seen builder) (marker : Marker F D O)
    {typeName : String} {full : SemanticType F} (named : marker.isInline = false)
    (key : marker.key registry = .named (registry.toLowercase typeName))
    (known : registry.get typeName = some full) (update : NamedGroup F D O → NamedGroup F D O)
    (stays : ∀ group, (update group).place = group.place)
    (gathers : ∀ group, group.Gathers registry seen → group.place = marker.place registry →
      (update group).Gathers registry (seen ++ [marker])) :
    ∃ groups, updateNamed registry marker.source typeName update builder.named = .ok groups ∧
      Gathered registry (seen ++ [marker]) { builder with named := groups } := by
  have place : marker.place registry = ⟨marker.source, .named (registry.toLowercase typeName)⟩ := by
    rw [Marker.place, key]
  have distinct : (builder.named.map NamedGroup.place).Nodup := by
    rw [gathered.namedPlaces]
    exact FirstSeen.nodup_eraseDups _
  have inline : builder.inline.map InlineGroup.place =
      ExtractRule.inlinePlaces registry (seen ++ [marker]) := by
    rw [inlinePlaces_concat_named seen named]
    exact gathered.inlinePlaces
  have docs : ∀ group ∈ builder.inline,
      .inline group.source group.field group.spec group.doc ∈ seen ++ [marker] :=
    fun group member => List.mem_append_left _ (gathered.docs group member)
  refine ⟨_, updateNamed_spec known update distinct, ?_, inline, ?_, docs⟩
  · rw [namedPlaces_concat seen named, ← gathered.namedPlaces, place]
    split
    · rw [List.map_map]
      apply List.map_congr_left
      intro group _
      rw [Function.comp_apply]
      split
      · exact stays group
      · rfl
    · rw [List.map_append, List.map_singleton, stays]
      rfl
  · dsimp only
    rw [← place]
    split
    · intro group member
      obtain ⟨before, within, rfl⟩ := List.mem_map.mp member
      by_cases own : before.place = marker.place registry
      · rw [if_pos own]
        exact gathers before (gathered.gathers before within) own
      · rw [if_neg own]
        exact (gathered.gathers before within).concat_other own
    · rename_i missing
      have new : ∀ other ∈ seen,
          other.place registry ≠ ⟨marker.source, .named (registry.toLowercase typeName)⟩ := by
        intro other member same
        rw [gathered.namedPlaces, place, mem_namedPlaces] at missing
        exact missing ⟨other, member, same⟩
      intro group member
      rcases List.mem_append.mp member with earlier | last
      · apply (gathered.gathers group earlier).concat_other
        rintro same
        exact missing (List.mem_map.mpr ⟨group, earlier, same⟩)
      · rw [List.mem_singleton.mp last]
        exact gathers _ (.fresh known new) place.symm

/-- One marker more. -/
theorem observe {tokenize : String → Except String (List Ddl.Token)}
    (gathered : Gathered registry seen builder) {marker : Marker F D O}
    (known : marker.Known registry tokenize) :
    ∃ builder', observe registry builder marker = .ok builder' ∧
      Gathered registry (seen ++ [marker]) builder' := by
  cases marker with
  | struct source typeName =>
    obtain ⟨full, known⟩ := known
    obtain ⟨groups, updated, gathered'⟩ := gathered.updateNamed (.struct source typeName)
      rfl rfl known (fun group => { group with whole := true }) (fun _ => rfl)
      fun _ gathers same => gathers.concat_struct same
    exact ⟨_, bind_ok_iff.mpr ⟨groups, updated, rfl⟩, gathered'⟩
  | field source typeName name =>
    obtain ⟨full, spec, known, -⟩ := known
    obtain ⟨groups, updated, gathered'⟩ := gathered.updateNamed (.field source typeName name)
      rfl rfl known (fun group => { group with fields := group.fields.insert name }) (fun _ => rfl)
      fun _ gathers same => gathers.concat_field same
    exact ⟨_, bind_ok_iff.mpr ⟨groups, updated, rfl⟩, gathered'⟩
  | inline source name spec doc =>
    have named : ∀ {groups : List (NamedGroup F D O)},
        groups.map NamedGroup.place = ExtractRule.namedPlaces registry seen →
        groups.map NamedGroup.place =
          ExtractRule.namedPlaces registry (seen ++ [.inline source name spec doc]) := by
      intro groups same
      rw [namedPlaces_concat_inline seen rfl, same]
    have gathers : ∀ group ∈ builder.named,
        group.Gathers registry (seen ++ [.inline source name spec doc]) := by
      intro group member
      apply (gathered.gathers group member).concat_other
      rintro ⟨⟩
    have docs : ∀ group ∈ builder.inline, .inline group.source group.field group.spec group.doc ∈
        seen ++ [.inline source name spec doc] :=
      fun group member => List.mem_append_left _ (gathered.docs group member)
    have there : (builder.inline.any fun group =>
        decide (group.source = source ∧ group.field = name ∧ group.spec = spec)) = true ↔
          (Marker.inline source name spec doc).place registry ∈
            ExtractRule.inlinePlaces registry seen := by
      rw [← gathered.inlinePlaces, List.any_eq_true, List.mem_map]
      simp [InlineGroup.place, Marker.place, Marker.key, Marker.source]
    rw [ExtractRule.observe]
    by_cases found : (Marker.inline source name spec doc).place registry ∈
        ExtractRule.inlinePlaces registry seen
    · rw [if_pos (there.mpr found)]
      refine ⟨builder, rfl, named gathered.namedPlaces, ?_, gathers, docs⟩
      rw [inlinePlaces_concat seen rfl, if_pos found]
      exact gathered.inlinePlaces
    · rw [if_neg (mt there.mp found)]
      refine ⟨_, rfl, named gathered.namedPlaces, ?_, gathers, ?_⟩
      · rw [inlinePlaces_concat seen rfl, if_neg found, List.map_append, gathered.inlinePlaces]
        rfl
      · rw [List.forall_mem_append, List.forall_mem_singleton]
        exact ⟨docs, List.mem_concat_self⟩

/-- All the markers of a projection. -/
theorem foldlM {tokenize : String → Except String (List Ddl.Token)}
    (gathered : Gathered registry seen builder) {markers : List (Marker F D O)}
    (known : ∀ marker ∈ markers, marker.Known registry tokenize) :
    ∃ builder', markers.foldlM (ExtractRule.observe registry) builder = .ok builder' ∧
      Gathered registry (seen ++ markers) builder' := by
  induction markers generalizing seen builder with
  | nil => exact ⟨builder, rfl, by rwa [List.append_nil]⟩
  | cons marker rest ih =>
    rw [List.forall_mem_cons] at known
    obtain ⟨between, first, gathered⟩ := gathered.observe known.1
    obtain ⟨builder', others, gathered⟩ := ih gathered known.2
    refine ⟨builder', bind_ok_iff.mpr ⟨between, first, others⟩, ?_⟩
    rwa [List.append_assoc] at gathered

end Gathered

end Semcast.ExtractRule
