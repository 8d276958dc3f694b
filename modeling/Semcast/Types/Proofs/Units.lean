import Mathlib.Data.List.Flatten
import Mathlib.Data.List.Nodup
import Mathlib.Data.List.Pairwise
import Semcast.Misc.Fallible
import Semcast.Types.Basic

/-!
# Units of a semantic type

A type that the grammar accepts lists its fields unit by unit: a `TOGETHER` group
at a time, or one field. The units are then what `generation_units` forms, and
pruning keeps some of them whole.
-/

namespace Semcast.Types

variable {F : Type*}

/-- The fields of `ty`, cut into its units: the groups have at least two fields, and
no two fields share a name. -/
structure Layout (ty : SemanticType F) (units : List (List (FieldSpec F))) : Prop where
  fields : ty.fields = units.flatten
  together : ty.together =
    (units.filter fun unit => 2 ≤ unit.length).map fun unit => unit.map (·.name)
  nonempty : ∀ unit ∈ units, unit ≠ []
  distinct : (ty.fields.map (·.name)).Nodup

/-- The unit has a requested field. -/
def reaches (requested : List String) (unit : List (FieldSpec F)) : Bool :=
  unit.any fun spec => requested.contains spec.name

namespace Layout

variable {ty : SemanticType F} {units : List (List (FieldSpec F))}

/-- A name is in one unit only. -/
theorem unit_eq (layout : Layout ty units) {unit unit' : List (FieldSpec F)}
    (member : unit ∈ units) (member' : unit' ∈ units) {spec spec' : FieldSpec F}
    (inside : spec ∈ unit) (inside' : spec' ∈ unit') (same : spec.name = spec'.name) :
    unit = unit' := by
  by_contra different
  have distinct := layout.distinct
  rw [layout.fields, List.map_flatten, List.nodup_flatten] at distinct
  have apart := List.pairwise_map.mp distinct.2
  have symmetric : Std.Symm fun first second : List (FieldSpec F) =>
      (first.map (·.name)).Disjoint (second.map (·.name)) :=
    ⟨fun _ _ disjoint _ second first => disjoint first second⟩
  have disjoint := apart.forall member member' different
  exact disjoint (List.mem_map_of_mem inside) (same ▸ List.mem_map_of_mem inside')

/-- The group of a field in a unit of several fields is that unit. -/
theorem groupOf_of_group (layout : Layout ty units) {unit : List (FieldSpec F)}
    (member : unit ∈ units) (several : 2 ≤ unit.length) {spec : FieldSpec F}
    (inside : spec ∈ unit) : ty.groupOf spec.name = some (unit.map (·.name)) := by
  have grouped : unit.map (·.name) ∈ ty.together := by
    rw [layout.together]
    apply List.mem_map_of_mem
    simp [member, several]
  have named : (unit.map (·.name)).contains spec.name := by
    simpa using ⟨spec, inside, rfl⟩
  obtain ⟨group, found⟩ := Option.isSome_iff_exists.mp
    (List.find?_isSome.mpr ⟨_, grouped, named⟩)
  rw [SemanticType.groupOf, found]
  have inGroup := List.find?_some found
  have isGroup := List.mem_of_find?_eq_some found
  rw [layout.together] at isGroup
  obtain ⟨unit', member', rfl⟩ := List.mem_map.mp isGroup
  obtain ⟨spec', inside', same⟩ := List.mem_map.mp (List.contains_iff_mem.mp inGroup)
  rw [layout.unit_eq (List.mem_filter.mp member').1 member inside' inside same]

/-- A field that is a unit of its own is in no group. -/
theorem groupOf_of_single (layout : Layout ty units) {spec : FieldSpec F}
    (member : [spec] ∈ units) : ty.groupOf spec.name = none := by
  rw [SemanticType.groupOf, List.find?_eq_none]
  intro group isGroup inGroup
  rw [layout.together] at isGroup
  obtain ⟨unit', member', rfl⟩ := List.mem_map.mp isGroup
  obtain ⟨spec', inside', same⟩ := List.mem_map.mp (List.contains_iff_mem.mp inGroup)
  have several := (List.mem_filter.mp member').2
  rw [layout.unit_eq (List.mem_filter.mp member').1 member inside' (List.mem_singleton_self _)
    same] at several
  simp at several

/-- The fields that a group names are its unit, in order. -/
theorem filter_group (layout : Layout ty units) {unit : List (FieldSpec F)}
    (member : unit ∈ units) :
    (ty.fields.filter fun spec => (unit.map (·.name)).contains spec.name) = unit := by
  obtain ⟨before, after, rfl⟩ := List.append_of_mem member
  have distinct := layout.distinct
  rw [layout.fields, List.flatten_append, List.flatten_cons, List.map_append, List.map_append,
    List.nodup_append', List.nodup_append'] at distinct
  obtain ⟨-, ⟨-, -, apartAfter⟩, apartBefore⟩ := distinct
  have none_before : (before.flatten.filter fun spec =>
      (unit.map (·.name)).contains spec.name) = [] := by
    rw [List.filter_eq_nil_iff]
    intro spec inside named
    exact apartBefore (List.mem_map_of_mem inside)
      (List.mem_append_left _ (List.contains_iff_mem.mp named))
  have none_after : (after.flatten.filter fun spec =>
      (unit.map (·.name)).contains spec.name) = [] := by
    rw [List.filter_eq_nil_iff]
    intro spec inside named
    exact apartAfter (List.contains_iff_mem.mp named) (List.mem_map_of_mem inside)
  have all_inside : (unit.filter fun spec => (unit.map (·.name)).contains spec.name) = unit := by
    rw [List.filter_eq_self]
    intro spec inside
    exact List.contains_iff_mem.mpr (List.mem_map_of_mem inside)
  rw [layout.fields, List.flatten_append, List.flatten_cons, List.filter_append,
    List.filter_append, none_before, none_after, all_inside, List.nil_append, List.append_nil]

/-- The round of a field whose unit is not there yet adds its unit. -/
theorem collectUnit_new (layout : Layout ty units) {unit : List (FieldSpec F)}
    (member : unit ∈ units) {spec : FieldSpec F} (inside : spec ∈ unit)
    {found : List (List (FieldSpec F))} {seen : List String} (new : spec.name ∉ seen) :
    ty.collectUnit (found, seen) spec = (found ++ [unit], seen ++ unit.map (·.name)) := by
  simp only [SemanticType.collectUnit, List.contains_iff_mem, if_neg new]
  by_cases several : 2 ≤ unit.length
  · rw [layout.groupOf_of_group member several inside]
    simp only [layout.filter_group member]
  · obtain ⟨only, rfl⟩ := List.length_eq_one_iff.mp (by
      have := List.length_pos_of_mem inside
      omega : unit.length = 1)
    cases List.mem_singleton.mp inside
    rw [layout.groupOf_of_single member]
    rfl

/-- The rounds of fields whose units are there change nothing. -/
theorem foldl_collectUnit_seen {specs : List (FieldSpec F)} {found : List (List (FieldSpec F))}
    {seen : List String} (all : ∀ spec ∈ specs, spec.name ∈ seen) :
    specs.foldl ty.collectUnit (found, seen) = (found, seen) := by
  induction specs with
  | nil => rfl
  | cons spec rest ih =>
    obtain ⟨first, others⟩ := List.forall_mem_cons.mp all
    rw [List.foldl_cons, SemanticType.collectUnit]
    simp only [List.contains_iff_mem, if_pos first]
    exact ih others

/-- The loop of `generation_units` over the fields of whole units adds these units. -/
theorem foldl_collectUnit (layout : Layout ty units) {before after : List (List (FieldSpec F))}
    (split : units = before ++ after) :
    after.flatten.foldl ty.collectUnit (before, before.flatten.map (·.name)) =
      (units, units.flatten.map (·.name)) := by
  induction after generalizing before with
  | nil => simp [split]
  | cons unit rest ih =>
    have member : unit ∈ units := by simp [split]
    obtain ⟨spec, others, rfl⟩ := List.exists_cons_of_ne_nil (layout.nonempty unit member)
    have new : spec.name ∉ before.flatten.map (·.name) := by
      have distinct := layout.distinct
      rw [layout.fields, split, List.flatten_append, List.map_append, List.nodup_append'] at distinct
      intro seen
      exact distinct.2.2 seen (by simp)
    have seen : ∀ other ∈ others, other.name ∈
        before.flatten.map (·.name) ++ (spec :: others).map (·.name) := by
      intro other inside
      apply List.mem_append_right
      exact List.mem_map_of_mem (List.mem_cons_of_mem _ inside)
    rw [List.flatten_cons, List.cons_append, List.foldl_cons,
      layout.collectUnit_new member (List.mem_cons_self ..) new, List.foldl_append,
      foldl_collectUnit_seen seen]
    have grown : units = (before ++ [spec :: others]) ++ rest := by simp [split]
    simpa using ih grown

/-- The units that `generation_units` forms are those the fields are listed in. -/
theorem generationUnits_eq (layout : Layout ty units) : ty.generationUnits = units := by
  have collected := layout.foldl_collectUnit (List.nil_append units).symm
  rw [SemanticType.generationUnits, layout.fields]
  exact congrArg Prod.fst collected

/-- What the loop of `pruned` keeps of groups that share no name: the names it began
with, and the groups these are in. -/
theorem mem_foldl_keep {groups : List (List String)} (apart : groups.Pairwise List.Disjoint)
    {keep : List String} {name : String} :
    name ∈ groups.foldl
        (fun keep group => if group.any keep.contains then keep ++ group else keep) keep ↔
      name ∈ keep ∨ ∃ group ∈ groups, (∃ member ∈ group, member ∈ keep) ∧ name ∈ group := by
  induction groups generalizing keep with
  | nil => simp
  | cons group rest ih =>
    obtain ⟨disjoint, apart⟩ := List.pairwise_cons.mp apart
    rw [List.foldl_cons, ih apart]
    by_cases meets : group.any keep.contains
    · have member : ∃ member ∈ group, member ∈ keep := by simpa using meets
      rw [if_pos meets]
      constructor
      · rintro (kept | ⟨other, inRest, ⟨shared, inOther, kept⟩, named⟩)
        · rcases List.mem_append.mp kept with kept | named
          · exact Or.inl kept
          · exact Or.inr ⟨group, List.mem_cons_self .., member, named⟩
        · -- A later group shares no name with this one, so it met the names kept before.
          rcases List.mem_append.mp kept with kept | inGroup
          · exact Or.inr ⟨other, List.mem_cons_of_mem _ inRest, ⟨shared, inOther, kept⟩, named⟩
          · exact absurd inOther (disjoint other inRest inGroup)
      · rintro (kept | ⟨other, inGroups, ⟨shared, inOther, kept⟩, named⟩)
        · exact Or.inl (List.mem_append_left _ kept)
        · rcases List.mem_cons.mp inGroups with rfl | inRest
          · exact Or.inl (List.mem_append_right _ named)
          · exact Or.inr ⟨other, inRest, ⟨shared, inOther, List.mem_append_left _ kept⟩, named⟩
    · have apartFromKeep : ∀ member ∈ group, member ∉ keep := by simpa using meets
      rw [if_neg meets]
      constructor
      · rintro (kept | ⟨other, inRest, shared, named⟩)
        · exact Or.inl kept
        · exact Or.inr ⟨other, List.mem_cons_of_mem _ inRest, shared, named⟩
      · rintro (kept | ⟨other, inGroups, ⟨shared, inOther, kept⟩, named⟩)
        · exact Or.inl kept
        · rcases List.mem_cons.mp inGroups with rfl | inRest
          · exact absurd kept (apartFromKeep shared inOther)
          · exact Or.inr ⟨other, inRest, ⟨shared, inOther, kept⟩, named⟩

theorem together_pairwise (layout : Layout ty units) : ty.together.Pairwise List.Disjoint := by
  have distinct := layout.distinct
  rw [layout.fields, List.map_flatten, List.nodup_flatten] at distinct
  rw [layout.together]
  exact (distinct.2.sublist (List.filter_sublist.map _))

theorem reaches_iff {requested : List String} {unit : List (FieldSpec F)} :
    reaches requested unit = true ↔ ∃ spec ∈ unit, spec.name ∈ requested := by
  simp [reaches]

/-- A unit is kept whole or not at all. -/
theorem mem_keptNames (layout : Layout ty units) (requested : List String)
    {unit : List (FieldSpec F)} (member : unit ∈ units) {spec : FieldSpec F}
    (inside : spec ∈ unit) :
    spec.name ∈ ty.keptNames requested ↔ reaches requested unit = true := by
  rw [SemanticType.keptNames, mem_foldl_keep layout.together_pairwise, reaches_iff]
  constructor
  · rintro (asked | ⟨group, isGroup, ⟨name, inGroup, asked⟩, named⟩)
    · exact ⟨spec, inside, asked⟩
    · rw [layout.together] at isGroup
      obtain ⟨unit', member', rfl⟩ := List.mem_map.mp isGroup
      have isUnit := (List.mem_filter.mp member').1
      obtain ⟨spec', inside', same⟩ := List.mem_map.mp named
      obtain ⟨spec'', inside'', rfl⟩ := List.mem_map.mp inGroup
      rw [layout.unit_eq isUnit member inside' inside same] at inside''
      exact ⟨spec'', inside'', asked⟩
  · rintro ⟨spec', inside', asked⟩
    by_cases several : 2 ≤ unit.length
    · right
      refine ⟨unit.map (·.name), ?_, ⟨spec'.name, List.mem_map_of_mem inside', asked⟩,
        List.mem_map_of_mem inside⟩
      rw [layout.together]
      apply List.mem_map_of_mem
      simp [member, several]
    · left
      obtain ⟨only, rfl⟩ := List.length_eq_one_iff.mp (by
        have := List.length_pos_of_mem inside
        omega : unit.length = 1)
      rw [List.mem_singleton.mp inside, ← List.mem_singleton.mp inside']
      exact asked

/-- Each requested field brings its unit. -/
theorem mem_keptNames_iff_exists (layout : Layout ty units) {requested : List String}
    {spec : FieldSpec F} (declared : spec ∈ ty.fields) :
    spec.name ∈ ty.keptNames requested ↔
      ∃ asked ∈ requested, spec.name ∈ ty.keptNames [asked] := by
  obtain ⟨unit, member, inside⟩ := List.mem_flatten.mp (layout.fields ▸ declared)
  simp only [layout.mem_keptNames _ member inside, reaches_iff, List.mem_singleton]
  constructor
  · rintro ⟨other, within, asked⟩
    exact ⟨other.name, asked, other, within, rfl⟩
  · rintro ⟨asked, member, other, within, rfl⟩
    exact ⟨other, within, member⟩

theorem mem_keptNames_self (layout : Layout ty units) {spec : FieldSpec F}
    (declared : spec ∈ ty.fields) : spec.name ∈ ty.keptNames [spec.name] := by
  obtain ⟨unit, member, inside⟩ := List.mem_flatten.mp (layout.fields ▸ declared)
  rw [layout.mem_keptNames _ member inside, reaches_iff]
  exact ⟨spec, inside, List.mem_singleton_self _⟩

/-- A filter that keeps or drops whole units. -/
theorem filter_flatten {units : List (List (FieldSpec F))} {keep : FieldSpec F → Bool}
    {keepUnit : List (FieldSpec F) → Bool}
    (whole : ∀ unit ∈ units, ∀ spec ∈ unit, keep spec = keepUnit unit) :
    units.flatten.filter keep = (units.filter keepUnit).flatten := by
  induction units with
  | nil => rfl
  | cons unit rest ih =>
    obtain ⟨first, others⟩ := List.forall_mem_cons.mp whole
    rw [List.flatten_cons, List.filter_append, ih others, List.filter_cons]
    cases kept : keepUnit unit with
    | true =>
      rw [List.filter_eq_self.mpr fun spec inside => (first spec inside).trans kept]
      simp
    | false =>
      rw [List.filter_eq_nil_iff.mpr fun spec inside => by simp [first spec inside, kept]]
      simp

/-- A pruned type consists of the units with a requested field. -/
theorem pruned (layout : Layout ty units) {requested : List String} {kept : SemanticType F}
    (result : ty.pruned requested = .ok kept) :
    kept.name = ty.name ∧ Layout kept (units.filter (reaches requested)) := by
  unfold SemanticType.pruned at result
  obtain ⟨specs, -, result⟩ := Fallible.bind_ok_iff.mp result
  cases result
  have whole : ∀ unit ∈ units, ∀ spec ∈ unit,
      (ty.keptNames requested).contains spec.name = reaches requested unit := by
    intro unit member spec inside
    rw [Bool.eq_iff_iff, List.contains_iff_mem]
    exact layout.mem_keptNames requested member inside
  refine ⟨rfl, ⟨?_, ?_, ?_, ?_⟩⟩
  · change ty.fields.filter _ = _
    rw [layout.fields]
    exact filter_flatten whole
  · change ty.together.filter _ = _
    rw [layout.together, List.filter_map, List.filter_filter, List.filter_filter]
    congr 1
    apply List.filter_congr
    intro unit member
    obtain ⟨spec, others, same⟩ := List.exists_cons_of_ne_nil (layout.nonempty unit member)
    have kept : (unit.map (·.name)).any (ty.keptNames requested).contains =
        reaches requested unit := by
      rw [List.any_map, Bool.eq_iff_iff, List.any_eq_true]
      constructor
      · rintro ⟨spec, inside, found⟩
        exact (whole unit member spec inside).symm.trans found
      · intro reached
        have inside : spec ∈ unit := same ▸ List.mem_cons_self ..
        exact ⟨spec, inside, (whole unit member spec inside).trans reached⟩
    simp only [Function.comp_apply, kept]
    exact Bool.and_comm ..
  · intro unit member
    exact layout.nonempty unit (List.mem_filter.mp member).1
  · exact List.Nodup.sublist (List.filter_sublist.map _) layout.distinct

end Layout

theorem mem_of_field {ty : SemanticType F} {name : String} {spec : FieldSpec F}
    (found : ty.field name = .ok spec) : spec ∈ ty.fields ∧ spec.name = name := by
  unfold SemanticType.field at found
  split at found
  · rename_i spec' at_
    cases found
    exact ⟨List.mem_of_find?_eq_some at_, by simpa using List.find?_some at_⟩
  · cases found

theorem field_ok_iff {ty : SemanticType F} {name : String} :
    (∃ spec, ty.field name = .ok spec) ↔ name ∈ ty.fields.map (·.name) := by
  unfold SemanticType.field
  cases found : ty.fields.find? (·.name == name) with
  | none =>
    have missing := List.find?_eq_none.mp found
    simp only [beq_iff_eq] at missing
    constructor
    · rintro ⟨spec, failed⟩
      cases failed
    · intro declared
      obtain ⟨spec, inside, same⟩ := List.mem_map.mp declared
      exact absurd same (missing spec inside)
  | some spec =>
    have same := List.find?_some found
    rw [beq_iff_eq] at same
    refine ⟨fun _ => ?_, fun _ => ⟨spec, rfl⟩⟩
    exact List.mem_map.mpr ⟨spec, List.mem_of_find?_eq_some found, same⟩

/-- Pruning succeeds where the type has every requested field. -/
theorem pruned_ok_iff {ty : SemanticType F} {requested : List String} :
    (∃ kept, ty.pruned requested = .ok kept) ↔
      ∀ name ∈ requested, name ∈ ty.fields.map (·.name) := by
  simp only [← field_ok_iff]
  unfold SemanticType.pruned
  constructor
  · rintro ⟨kept, result⟩
    obtain ⟨specs, found, -⟩ := Fallible.bind_ok_iff.mp result
    exact Fallible.mapM_ok_iff.mp ⟨specs, found⟩
  · intro declared
    obtain ⟨specs, found⟩ := Fallible.mapM_ok_iff.mpr declared
    exact ⟨_, Fallible.bind_ok_iff.mpr ⟨specs, found, rfl⟩⟩

end Semcast.Types
