import Semcast.Optimizer.Proofs.MarkerGroups

/-!
# The nodes that the markers are answered from

Every group becomes a node that has what its markers ask for. The nodes are stacked on
the input of the projection, and this goes through unless a column below has the name
of one of theirs.
-/

namespace Semcast.ExtractRule

open Logical Semcast.Types Ddl ExtractUdf Fallible

variable {F D O : Type}

theorem registered_spec {registry : TypeRegistry F} {key : String} {full : SemanticType F}
    (found : registry.types.lookup key = some full) :
    full.fields ≠ [] ∧ (∃ units, Layout full units) ∧ ∀ spec ∈ full.fields, IsFieldType spec.ty := by
  obtain ⟨before, after, same, -⟩ := List.lookup_eq_some_iff.mp found
  have member : (key, full) ∈ registry.types := by rw [same]; simp
  obtain ⟨tokens, accepted⟩ := registry.declared _ member
  exact ⟨parseCreateType_fields_ne_nil accepted, parseCreateType_layout accepted⟩

/-- The fields that a marker brings into the node it is answered from: those of its
type, or the one it names with whatever is extracted together with it. -/
def Marker.columns (registry : TypeRegistry F) : Marker F D O → List String
  | .struct _ typeName =>
    match registry.get typeName with
    | some full => full.fields.map (·.name)
    | none => []
  | .field _ typeName name =>
    match registry.get typeName with
    | some full => (full.fields.map (·.name)).filter (full.keptNames [name]).contains
    | none => []
  | .inline _ name _ _ => [name]

/-- The target has what the marker asks for. Of an inline field this is the field with
the doc of some marker of its place. -/
def Marker.Served (registry : TypeRegistry F) (tokenize : String → Except String (List Token))
    (seen : List (Marker F D O)) (target : SemanticType F) : Marker F D O → Prop
  | .struct _ typeName => ∃ full, registry.get typeName = some full ∧ target.fields = full.fields
  | .field _ typeName name =>
    ∃ full spec, registry.get typeName = some full ∧ full.field name = .ok spec ∧
      spec ∈ target.fields
  | .inline source name spec _ =>
    ∃ ty doc, parseSpec registry tokenize spec = .ok ty ∧
      target.fields = [⟨name, ty, doc⟩] ∧ .inline source name spec doc ∈ seen

/-- The target of the node of a place. -/
structure Serves (registry : TypeRegistry F) (tokenize : String → Except String (List Token))
    (seen : List (Marker F D O)) (place : Place F D O) (target : SemanticType F) : Prop where
  types : ∀ spec ∈ target.fields, ∃ arrow, spec.ty.arrowType = .ok arrow
  distinct : (target.fields.map (·.name)).Nodup
  names : ∀ name, name ∈ target.fields.map (·.name) ↔
    ∃ marker ∈ seen, marker.place registry = place ∧ name ∈ marker.columns registry
  serves : ∀ marker ∈ seen, marker.place registry = place →
    marker.Served registry tokenize seen target

section Targets

variable {registry : TypeRegistry F} {tokenize : String → Except String (List Token)}
  {seen : List (Marker F D O)}

/-- The type of a marker in the group of its place is that of the group. -/
theorem get_of_place {group : NamedGroup F D O} (gathers : group.Gathers registry seen)
    {typeName : String} (same : registry.toLowercase typeName = group.typeName) :
    registry.get typeName = some group.full := by
  rw [TypeRegistry.get, same]
  exact gathers.full

theorem same_place {group : NamedGroup F D O} {typeName : String}
    (same : registry.toLowercase typeName = group.typeName) :
    (⟨group.source, .named (registry.toLowercase typeName)⟩ : Place F D O) = group.place := by
  rw [same]
  rfl

theorem mem_fields_of_known {group : NamedGroup F D O} (gathers : group.Gathers registry seen)
    {source : Expr F D O} {typeName name : String}
    (known : (Marker.field source typeName name).Known registry tokenize)
    (same : registry.toLowercase typeName = group.typeName) :
    ∃ spec, group.full.field name = .ok spec ∧ spec ∈ group.full.fields ∧ spec.name = name := by
  obtain ⟨full, spec, found, declared⟩ := known
  rw [get_of_place gathers same] at found
  cases found
  exact ⟨spec, declared, mem_of_field declared⟩

/-- The node of a group where the whole type was asked for. -/
theorem serves_whole {group : NamedGroup F D O} (gathers : group.Gathers registry seen)
    (known : ∀ marker ∈ seen, marker.Known registry tokenize) (whole : group.whole = true) :
    Serves registry tokenize seen group.place group.full := by
  obtain ⟨-, ⟨units, layout⟩, types⟩ := registered_spec gathers.full
  refine ⟨fun spec member => (types spec member).arrowType, layout.distinct, ?_, ?_⟩
  · intro name
    constructor
    · intro declared
      obtain ⟨typeName, member, same⟩ := gathers.whole.mp whole
      refine ⟨_, member, by rw [← same_place same]; rfl, ?_⟩
      rw [Marker.columns, get_of_place gathers same]
      exact declared
    · rintro ⟨marker, member, same, brought⟩
      obtain ⟨sources, keys⟩ := Place.mk.inj same
      cases marker with
      | struct source typeName =>
        rw [Marker.columns, get_of_place gathers (NodeKey.named.inj keys)] at brought
        exact brought
      | field source typeName asked =>
        rw [Marker.columns, get_of_place gathers (NodeKey.named.inj keys)] at brought
        exact List.mem_of_mem_filter brought
      | inline source field spec doc => cases keys
  · intro marker member same
    obtain ⟨sources, keys⟩ := Place.mk.inj same
    cases marker with
    | struct source typeName => exact ⟨_, get_of_place gathers (NodeKey.named.inj keys), rfl⟩
    | field source typeName asked =>
      obtain ⟨spec, found, declared, -⟩ :=
        mem_fields_of_known gathers (known _ member) (NodeKey.named.inj keys)
      exact ⟨_, spec, get_of_place gathers (NodeKey.named.inj keys), found, declared⟩
    | inline source field spec doc => cases keys

/-- The node of a group where only some fields were asked for. -/
theorem serves_pruned {group : NamedGroup F D O} (gathers : group.Gathers registry seen)
    (known : ∀ marker ∈ seen, marker.Known registry tokenize) (partly : ¬ group.whole = true) :
    ∃ target, group.full.pruned group.fields.toList = .ok target ∧
      Serves registry tokenize seen group.place target := by
  obtain ⟨-, ⟨units, layout⟩, types⟩ := registered_spec gathers.full
  obtain ⟨target, pruned⟩ : ∃ target, group.full.pruned group.fields.toList = .ok target := by
    rw [pruned_ok_iff]
    intro name asked
    obtain ⟨typeName, member, same⟩ := (gathers.fields name).mp (Std.TreeSet.mem_toList.mp asked)
    obtain ⟨spec, found, -⟩ := mem_fields_of_known gathers (known _ member) same
    exact field_ok_iff.mp ⟨spec, found⟩
  have kept : target.fields = group.full.fields.filter
      fun spec => (group.full.keptNames group.fields.toList).contains spec.name := by
    obtain ⟨specs, -, same⟩ := bind_ok_iff.mp pruned
    cases same
    rfl
  have mem_kept : ∀ spec, spec ∈ target.fields ↔ spec ∈ group.full.fields ∧
      ∃ asked ∈ group.fields, spec.name ∈ group.full.keptNames [asked] := by
    intro spec
    rw [kept, List.mem_filter, List.contains_iff_mem]
    apply and_congr_right
    intro declared
    rw [layout.mem_keptNames_iff_exists declared]
    simp only [Std.TreeSet.mem_toList]
  refine ⟨target, pruned, ?_, (layout.pruned pruned).2.distinct, ?_, ?_⟩
  · intro spec member
    exact (types spec ((mem_kept spec).mp member).1).arrowType
  · intro name
    constructor
    · intro declared
      obtain ⟨spec, member, rfl⟩ := List.mem_map.mp declared
      obtain ⟨declared, asked, ask, brought⟩ := (mem_kept spec).mp member
      obtain ⟨typeName, member, same⟩ := (gathers.fields asked).mp ask
      refine ⟨_, member, by rw [← same_place same]; rfl, ?_⟩
      rw [Marker.columns, get_of_place gathers same]
      exact List.mem_filter.mpr
        ⟨List.mem_map_of_mem declared, List.contains_iff_mem.mpr brought⟩
    · rintro ⟨marker, member, same, brought⟩
      obtain ⟨sources, keys⟩ := Place.mk.inj same
      cases marker with
      | struct source typeName =>
        exact absurd (gathers.whole.mpr ⟨typeName, sources ▸ member, NodeKey.named.inj keys⟩) partly
      | field source typeName asked =>
        have names := NodeKey.named.inj keys
        rw [Marker.columns, get_of_place gathers names] at brought
        obtain ⟨named, within⟩ := List.mem_filter.mp brought
        obtain ⟨spec, declared, rfl⟩ := List.mem_map.mp named
        refine List.mem_map_of_mem ((mem_kept spec).mpr ⟨declared, asked, ?_,
          List.contains_iff_mem.mp within⟩)
        exact (gathers.fields asked).mpr ⟨typeName, sources ▸ member, names⟩
      | inline source field spec doc => cases keys
  · intro marker member same
    obtain ⟨sources, keys⟩ := Place.mk.inj same
    cases marker with
    | struct source typeName =>
      exact absurd (gathers.whole.mpr ⟨typeName, sources ▸ member, NodeKey.named.inj keys⟩) partly
    | field source typeName asked =>
      have names := NodeKey.named.inj keys
      obtain ⟨spec, found, declared, rfl⟩ := mem_fields_of_known gathers (known _ member) names
      refine ⟨_, spec, get_of_place gathers names, found, (mem_kept spec).mpr ⟨declared, spec.name,
        (gathers.fields _).mpr ⟨typeName, sources ▸ member, names⟩, ?_⟩⟩
      exact layout.mem_keptNames_self declared
    | inline source field spec doc => cases keys

theorem exists_target_of_named {group : NamedGroup F D O} (gathers : group.Gathers registry seen)
    (known : ∀ marker ∈ seen, marker.Known registry tokenize) :
    ∃ target, group.planned.target = .ok target ∧
      Serves registry tokenize seen group.place target := by
  unfold NamedGroup.planned
  by_cases whole : group.whole = true
  · rw [if_pos whole]
    exact ⟨_, rfl, serves_whole gathers known whole⟩
  · rw [if_neg whole]
    obtain ⟨target, pruned, serves⟩ := serves_pruned gathers known whole
    exact ⟨target, by rw [pruned]; rfl, serves⟩

theorem exists_target_of_inline {blake3 : List UInt8 → List UInt8} {group : InlineGroup F D O}
    (first : .inline group.source group.field group.spec group.doc ∈ seen)
    (known : ∀ marker ∈ seen, marker.Known registry tokenize) :
    ∃ target, (group.planned registry tokenize blake3).target = .ok target ∧
      Serves registry tokenize seen group.place target := by
  obtain ⟨ty, parsed⟩ := known _ first
  have typed : IsFieldType ty := by
    unfold parseSpec at parsed
    split at parsed
    · cases parsed
    · exact parseFieldTypeStr_isFieldType parsed
  unfold InlineGroup.planned
  rw [parsed]
  refine ⟨_, rfl, ?_, ?_, ?_, ?_⟩
  · rw [List.forall_mem_singleton]
    exact typed.arrowType
  · exact List.nodup_singleton _
  · intro name
    rw [List.map_singleton, List.mem_singleton]
    constructor
    · rintro rfl
      exact ⟨_, first, rfl, List.mem_singleton_self _⟩
    · rintro ⟨marker, member, same, brought⟩
      obtain ⟨sources, keys⟩ := Place.mk.inj same
      cases marker with
      | struct | field => cases keys
      | inline source field spec doc =>
        cases keys
        exact List.mem_singleton.mp brought
  · intro marker member same
    obtain ⟨sources, keys⟩ := Place.mk.inj same
    cases marker with
    | struct | field => cases keys
    | inline source field spec doc =>
      cases keys
      cases sources
      exact ⟨ty, group.doc, parsed, rfl, first⟩

end Targets

def PlannedNode.place (planned : PlannedNode F D O) : Place F D O :=
  ⟨planned.source, planned.key⟩

def BuiltNode.place (node : BuiltNode F D O) : Place F D O :=
  ⟨node.source, node.key⟩

/-- The nodes on top of each other. -/
def stacked (nodes : List (BuiltNode F D O)) (input : LogicalPlan F D O) : LogicalPlan F D O :=
  nodes.foldl (fun plan node => .semExtract plan node.source node.target node.id) input

/-- The columns that the nodes add. -/
def nodeColumns (nodes : List (BuiltNode F D O)) : Schema :=
  nodes.flatMap fun node => LogicalPlan.outputColumns node.id node.target

/-- What the columns of the nodes are extractions of. -/
def nodeOrigins (nodes : List (BuiltNode F D O)) : List (Option (Expr F D O × FieldSpec F)) :=
  nodes.flatMap fun node => node.target.fields.map fun spec => some (node.source, spec)

/-- No column has the name of one of the nodes' own. -/
def Free (schema : Schema) (nodes : List (BuiltNode F D O)) : Prop :=
  ∀ field ∈ schema, ∀ node ∈ nodes, ∀ name ∈ node.target.fields.map (·.name),
    field.name ≠ LogicalPlan.outputColumnName node.id name

/-- The columns of a node are named by its own number, and take no later name. -/
theorem free_cons_iff {schema : Schema} (unambiguous : schema.Unambiguous)
    {first : BuiltNode F D O} (distinct : (first.target.fields.map (·.name)).Nodup)
    {nodes : List (BuiltNode F D O)} (later : ∀ node ∈ nodes, first.id < node.id) :
    Free schema (first :: nodes) ↔
      Schema.Unambiguous (schema ++ LogicalPlan.outputColumns first.id first.target) ∧
        Free (schema ++ LogicalPlan.outputColumns first.id first.target) nodes := by
  have above : Free (schema ++ LogicalPlan.outputColumns first.id first.target) nodes ↔
      Free schema nodes := by
    unfold Free
    rw [List.forall_mem_append]
    constructor
    · exact And.left
    · intro free
      refine ⟨free, ?_⟩
      intro field added node member name within same
      obtain ⟨spec, -, rfl⟩ := List.mem_map.mp added
      have equal := (LogicalPlan.outputColumnName_inj same).1
      have after := later node member
      omega
  rw [above, unambiguous.append_outputColumns_iff distinct]
  simp only [Free, List.forall_mem_cons]
  exact forall₂_and

section Stack

variable [Rendering F D O]

theorem schema_stacked (nodes : List (BuiltNode F D O)) (input : LogicalPlan F D O) :
    (stacked nodes input).schema = input.schema ++ nodeColumns nodes := by
  induction nodes generalizing input with
  | nil => exact (List.append_nil _).symm
  | cons node rest ih =>
    rw [stacked, List.foldl_cons, ← stacked, ih, nodeColumns, nodeColumns, List.flatMap_cons,
      ← List.append_assoc]
    rfl

omit [Rendering F D O] in
theorem origins_stacked (nodes : List (BuiltNode F D O)) (input : LogicalPlan F D O) :
    (stacked nodes input).origins = input.origins ++ nodeOrigins nodes := by
  induction nodes generalizing input with
  | nil => exact (List.append_nil _).symm
  | cons node rest ih =>
    rw [stacked, List.foldl_cons, ← stacked, ih, nodeOrigins, nodeOrigins, List.flatMap_cons,
      ← List.append_assoc]
    rfl

omit [Rendering F D O] in
theorem mem_zip_nodeOrigins {nodes : List (BuiltNode F D O)} {node : BuiltNode F D O}
    (member : node ∈ nodes) {spec : FieldSpec F} (inside : spec ∈ node.target.fields) :
    (nodeColumn node spec.name, some (node.source, spec)) ∈
      (nodeColumns nodes).zip (nodeOrigins nodes) := by
  induction nodes with
  | nil => cases member
  | cons head rest ih =>
    rw [nodeColumns, nodeOrigins, List.flatMap_cons, List.flatMap_cons, List.zip_append (by
      simp [LogicalPlan.outputColumns])]
    rcases List.mem_cons.mp member with rfl | later
    · apply List.mem_append_left
      rw [LogicalPlan.outputColumns, List.zip_map', List.mem_map]
      exact ⟨spec, inside, rfl⟩
    · exact List.mem_append_right _ (ih later)

/-- The column of a node is known to be the extraction of its field. -/
theorem origin_stacked {nodes : List (BuiltNode F D O)} {input : LogicalPlan F D O}
    (unambiguous : (stacked nodes input).schema.Unambiguous) {node : BuiltNode F D O}
    (member : node ∈ nodes) {spec : FieldSpec F} (inside : spec ∈ node.target.fields) :
    (stacked nodes input).origin (nodeColumn node spec.name) = some (node.source, spec) := by
  rw [LogicalPlan.origin, NamedRow.read_of_mem_zip Column.refersTo_self unambiguous
    (LogicalPlan.origins_aligned _) (_ : (nodeColumn node spec.name, some (node.source, spec)) ∈ _)]
  · rfl
  · rw [schema_stacked, origins_stacked, List.zip_append (LogicalPlan.origins_aligned _).symm]
    exact List.mem_append_right _ (mem_zip_nodeOrigins member inside)

/-- Planned nodes whose targets are there are built one by one, unless a column below
has a name of theirs. -/
theorem exists_buildNodes {registry : TypeRegistry F}
    {tokenize : String → Except String (List Token)} {seen : List (Marker F D O)} (id : ℕ)
    {planned : List (PlannedNode F D O)}
    (ready : ∀ node ∈ planned, ∃ target, node.target = .ok target ∧
      Serves registry tokenize seen node.place target) :
    ∃ nodes : List (BuiltNode F D O), nodes.map BuiltNode.place = planned.map PlannedNode.place ∧
      nodes.map (·.id) = List.range' id planned.length ∧
      (∀ node ∈ nodes, Serves registry tokenize seen node.place node.target) ∧
      ∀ plan : LogicalPlan F D O, plan.schema.Unambiguous →
        (Free plan.schema nodes → buildNodes id planned plan = .ok (stacked nodes plan, nodes) ∧
          (stacked nodes plan).schema.Unambiguous) ∧
        (¬ Free plan.schema nodes →
          ∃ message, buildNodes id planned plan = .error (.error message)) := by
  induction planned generalizing id with
  | nil =>
    refine ⟨[], rfl, rfl, by simp, fun plan unambiguous => ⟨fun _ => ⟨rfl, unambiguous⟩, ?_⟩⟩
    intro taken
    exact absurd (by simp [Free]) taken
  | cons first rest ih =>
    rw [List.forall_mem_cons] at ready
    obtain ⟨⟨target, made, serves⟩, ready⟩ := ready
    obtain ⟨nodes, places, ids, each, builds⟩ := ih (id + 1) ready
    refine ⟨⟨first.source, first.key, id, target⟩ :: nodes, ?_, ?_, ?_, ?_⟩
    · rw [List.map_cons, List.map_cons, places]
      rfl
    · rw [List.map_cons, List.length_cons, List.range'_succ, ids]
    · rw [List.forall_mem_cons]
      exact ⟨serves, each⟩
    · intro plan unambiguous
      have step : LogicalPlan.newSemExtract plan first.source target id = _ :=
        LogicalPlan.newSemExtract_of_types serves.types
      have later : ∀ node ∈ nodes, id < node.id := by
        intro node member
        have numbered : node.id ∈ List.range' (id + 1) rest.length := by
          rw [← ids]
          exact List.mem_map_of_mem member
        rw [List.mem_range'_1] at numbered
        omega
      have split := @free_cons_iff _ _ _ _ unambiguous ⟨first.source, first.key, id, target⟩
        serves.distinct _ later
      by_cases own : Schema.Unambiguous (plan.schema ++ LogicalPlan.outputColumns id target)
      · rw [if_pos own] at step
        obtain ⟨free, taken⟩ := builds (.semExtract plan first.source target id) own
        refine ⟨fun whole => ?_, fun clash => ?_⟩
        · obtain ⟨built, unambiguous⟩ := free (split.mp whole).2
          rw [buildNodes, made]
          refine ⟨?_, unambiguous⟩
          apply bind_ok_iff.mpr
          refine ⟨target, rfl, bind_ok_iff.mpr ⟨_, by rw [step]; rfl, ?_⟩⟩
          exact bind_ok_iff.mpr ⟨_, built, rfl⟩
        · obtain ⟨message, failed⟩ := taken fun rest => clash (split.mpr ⟨own, rest⟩)
          refine ⟨message, ?_⟩
          rw [buildNodes, made]
          apply bind_error_iff.mpr
          refine .inr ⟨target, rfl, bind_error_iff.mpr (.inr ⟨_, by rw [step]; rfl, ?_⟩)⟩
          exact bind_error_iff.mpr (.inl failed)
      · rw [if_neg own] at step
        refine ⟨fun whole => absurd (split.mp whole).1 own, fun _ => ?_⟩
        refine ⟨Rendering.ambiguous F D O (plan.schema ++ LogicalPlan.outputColumns id target), ?_⟩
        rw [buildNodes, made]
        apply bind_error_iff.mpr
        exact .inr ⟨target, rfl, bind_error_iff.mpr (.inl (by rw [step]; rfl))⟩

end Stack

end Semcast.ExtractRule
