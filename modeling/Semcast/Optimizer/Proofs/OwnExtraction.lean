import Semcast.Optimizer.Proofs.ExtractNodes
import Semcast.Physical.Proofs.Pushdown

/-!
# What each extraction reads

A marker is answered from the node of its place, which is a node for its own source and
type. What the place leaves out is the doc of an inline field, and a marker inside the
source of another has replaced this source before it is looked up.
-/

namespace Semcast.ExtractRule

open Logical Semcast.Types Ddl ExtractUdf Fallible

variable {F D O : Type}

section Property

variable [Rendering F D O]

/-- The expression reads the extraction that the marker asks for: of its own source,
name, type and doc. -/
def Marker.Own (registry : TypeRegistry F) (tokenize : String → Except String (List Token))
    (below : LogicalPlan F D O) : Marker F D O → Expr F D O → Prop
  | .struct source typeName, expr =>
    ∃ (full : SemanticType F) (column : FieldSpec F → Column), registry.get typeName = some full ∧
      expr = .scalarFunction "named_struct" (full.fields.flatMap fun spec =>
        [.literal (.string .utf8 (some spec.name)), .column (column spec)]) ∧
      ∀ spec ∈ full.fields, below.origin (column spec) = some (source, spec)
  | .field source typeName name, expr =>
    ∃ (full : SemanticType F) (spec : FieldSpec F) (column : Column),
      registry.get typeName = some full ∧ full.field name = .ok spec ∧
        expr = .column column ∧ below.origin column = some (source, spec)
  | .inline source name spec doc, expr =>
    ∃ (ty : FieldType F) (column : Column), parseSpec registry tokenize spec = .ok ty ∧
      expr = .column column ∧ below.origin column = some (source, ⟨name, ty, doc⟩)

/-- The projection with each marker replaced by its answer, under its old names. -/
def answered (exprs : List (Expr F D O)) (answer : Marker F D O → Expr F D O)
    (below : LogicalPlan F D O) : LogicalPlan F D O :=
  .projection (exprs.map fun expr =>
    Expr.restore expr.qualifiedName (expr.substitute fun inner => (markerOf inner).map answer)) below

/-- The rewrite of a projection fails with an error, or every marker reads its own
extraction; it does not panic. -/
def ReadsOwn (registry : TypeRegistry F) (tokenize : String → Except String (List Token))
    (exprs : List (Expr F D O)) : Except Failure (LogicalPlan F D O) → Prop
  | .ok data => ∃ (below : LogicalPlan F D O) (answer : Marker F D O → Expr F D O),
    data = answered exprs answer below ∧
      ∀ marker ∈ markersOf exprs, marker.Own registry tokenize below (answer marker)
  | .error (.error _) => True
  | .error (.panic _) => False

/-- A projection as it reaches the rule: it was typed, over the columns of its input. -/
structure Valid (registry : TypeRegistry F) (tokenize : String → Except String (List Token))
    (exprs : List (Expr F D O)) (input : LogicalPlan F D O) : Prop where
  unambiguous : input.schema.Unambiguous
  resolves : ∀ expr ∈ exprs, input.schema.Resolves expr
  named : Schema.Unambiguous (exprs.map Expr.qualifiedName)
  typed : ∀ name args, .scalarFunction name args ∈ exprs.flatMap Expr.subexpressions →
    Typed registry tokenize name args

end Property

/-- The marker that an expression is, where the source of this marker has another. -/
def nestedMarker (expr : Expr F D O) : Option (Marker F D O) :=
  (markerOf expr).filter fun marker => containsMarker marker.source

/-- The first marker that the rewrite comes to with a marker inside its source. -/
def firstNested (exprs : List (Expr F D O)) : Option (Marker F D O) :=
  exprs.findSome? fun expr => expr.postorder.findSome? nestedMarker

/-- Inline markers for the same source, field and type also have the same doc. -/
def DocsAgree (markers : List (Marker F D O)) : Prop :=
  ∀ source name spec doc doc', .inline source name spec doc ∈ markers →
    .inline source name spec doc' ∈ markers → doc = doc'

section Nodes

variable [DecidableEq F] [DecidableEq D] [DecidableEq O]

/-- The places of some markers in the order of their nodes. -/
def places (registry : TypeRegistry F) (markers : List (Marker F D O)) : List (Place F D O) :=
  namedPlaces registry markers ++ inlinePlaces registry markers

/-- The number of the node a marker is answered from. -/
def nodeId (registry : TypeRegistry F) (markers : List (Marker F D O))
    (marker : Marker F D O) : ℕ :=
  (places registry markers).idxOf (marker.place registry)

/-- A column of the input has the name of one that the node of a marker adds. -/
def Clashes (registry : TypeRegistry F) (markers : List (Marker F D O)) (schema : Schema) : Prop :=
  ∃ marker ∈ markers, ∃ name ∈ marker.columns registry, ∃ field ∈ schema,
    field.name = LogicalPlan.outputColumnName (nodeId registry markers marker) name

variable {registry : TypeRegistry F} {markers : List (Marker F D O)}

theorem mem_places {place : Place F D O} : place ∈ places registry markers ↔
    ∃ marker ∈ markers, marker.place registry = place := by
  unfold places namedPlaces inlinePlaces
  rw [List.mem_append, List.mem_eraseDups, List.mem_eraseDups, List.mem_map, List.mem_map]
  constructor
  · rintro (⟨marker, member, same⟩ | ⟨marker, member, same⟩)
    · exact ⟨marker, List.mem_of_mem_filter member, same⟩
    · exact ⟨marker, List.mem_of_mem_filter member, same⟩
  · rintro ⟨marker, member, same⟩
    cases inline : marker.isInline with
    | false => exact .inl ⟨marker, List.mem_filter.mpr ⟨member, by rw [inline]; rfl⟩, same⟩
    | true => exact .inr ⟨marker, List.mem_filter.mpr ⟨member, inline⟩, same⟩

theorem nodup_places : (places registry markers).Nodup := by
  unfold places
  rw [List.nodup_append]
  refine ⟨FirstSeen.nodup_eraseDups _, FirstSeen.nodup_eraseDups _, ?_⟩
  intro place named place' inline same
  subst same
  obtain ⟨marker, member, rfl⟩ := List.mem_map.mp (List.mem_eraseDups.mp named)
  obtain ⟨marker', member', same⟩ := List.mem_map.mp (List.mem_eraseDups.mp inline)
  have isNamed := (List.mem_filter.mp member).2
  have isInline := (List.mem_filter.mp member').2
  have keys := congrArg Place.key same
  cases marker <;> cases marker' <;> simp_all [Marker.isInline, Marker.place, Marker.key]

variable [Rendering F D O] {tokenize : String → Except String (List Token)}
  (blake3 : List UInt8 → List UInt8)

/-- The nodes that some markers are answered from. -/
structure Serving (registry : TypeRegistry F) (tokenize : String → Except String (List Token))
    (markers : List (Marker F D O)) (nodes : List (BuiltNode F D O)) : Prop where
  places : nodes.map BuiltNode.place = places registry markers
  ids : nodes.map (·.id) = List.range nodes.length
  serves : ∀ node ∈ nodes, Serves registry tokenize markers node.place node.target

omit [Rendering F D O] in
theorem Serving.id_eq {nodes : List (BuiltNode F D O)}
    (serving : Serving registry tokenize markers nodes) {node : BuiltNode F D O}
    (member : node ∈ nodes) :
    node.id = (ExtractRule.places registry markers).idxOf node.place := by
  obtain ⟨index, within, at_⟩ := List.mem_iff_getElem.mp member
  have id : node.id = index := by
    have same := List.getElem_of_eq serving.ids (i := index) (by simpa using within)
    rw [List.getElem_map, List.getElem_range, at_] at same
    exact same
  have place : (ExtractRule.places registry markers)[index]? = some node.place := by
    rw [← serving.places, List.getElem?_map, List.getElem?_eq_getElem within, at_]
    rfl
  obtain ⟨inside, here⟩ := List.getElem?_eq_some_iff.mp place
  rw [id, ← here, nodup_places.idxOf_getElem]

omit [Rendering F D O] in
/-- The names that are taken, seen from the markers. -/
theorem Serving.free_iff {nodes : List (BuiltNode F D O)}
    (serving : Serving registry tokenize markers nodes) (schema : Schema) :
    Free schema nodes ↔ ¬ Clashes registry markers schema := by
  constructor
  · rintro free ⟨marker, member, name, brought, field, known, same⟩
    have placed : marker.place registry ∈ nodes.map BuiltNode.place := by
      rw [serving.places, mem_places]
      exact ⟨marker, member, rfl⟩
    obtain ⟨node, within, place⟩ := List.mem_map.mp placed
    apply free field known node within name
    · exact ((serving.serves node within).names name).mpr ⟨marker, member, place.symm, brought⟩
    · rw [same, serving.id_eq within, place, nodeId]
  · intro apart field known node within name named same
    obtain ⟨marker, member, place, brought⟩ := ((serving.serves node within).names name).mp named
    refine apart ⟨marker, member, name, brought, field, known, ?_⟩
    rw [same, serving.id_eq within, nodeId, place]

/-- Collected markers that are known are built into nodes, unless a column is in the way. -/
theorem exists_built (known : ∀ marker ∈ markers, marker.Known registry tokenize)
    {input : LogicalPlan F D O} (unambiguous : input.schema.Unambiguous) :
    ∃ builder nodes, markers.foldlM (observe registry) ⟨[], []⟩ = .ok builder ∧
      Serving registry tokenize markers nodes ∧
      (¬ Clashes registry markers input.schema →
        builder.build registry tokenize blake3 input = .ok (stacked nodes input, nodes) ∧
          (stacked nodes input).schema.Unambiguous) ∧
      (Clashes registry markers input.schema →
        ∃ message, builder.build registry tokenize blake3 input = .error (.error message)) := by
  obtain ⟨builder, observed, gathered⟩ := Gathered.empty.foldlM known
  rw [List.nil_append] at gathered
  have ready : ∀ node ∈ builder.named.map NamedGroup.planned ++
      builder.inline.map (InlineGroup.planned registry tokenize blake3),
      ∃ target, node.target = .ok target ∧
        Serves registry tokenize markers node.place target := by
    rw [List.forall_mem_append, List.forall_mem_map, List.forall_mem_map]
    exact ⟨fun group member => exists_target_of_named (gathered.gathers group member) known,
      fun group member => exists_target_of_inline (gathered.docs group member) known⟩
  obtain ⟨nodes, same, ids, serves, builds⟩ := exists_buildNodes 0 ready
  have serving : Serving registry tokenize markers nodes := by
    refine ⟨?_, ?_, serves⟩
    · rw [same, List.map_append, List.map_map, List.map_map, places, ← gathered.namedPlaces,
        ← gathered.inlinePlaces]
      rfl
    · have count := congrArg List.length same
      rw [List.length_map, List.length_map] at count
      rw [ids, ← count, List.range_eq_range']
  refine ⟨builder, nodes, observed, serving, ?_, ?_⟩
  · intro apart
    exact (builds input unambiguous).1 ((serving.free_iff _).mpr apart)
  · intro clashes
    exact (builds input unambiguous).2 fun free => (serving.free_iff _).mp free clashes

omit [Rendering F D O] in
/-- A marker is answered from the node of its place. -/
theorem Serving.findNode {nodes : List (BuiltNode F D O)}
    (serving : Serving registry tokenize markers nodes) {marker : Marker F D O}
    (member : marker ∈ markers) :
    ∃ node ∈ nodes, findNode nodes marker.source (marker.key registry) = some node ∧
      node.source = marker.source ∧ marker.Served registry tokenize markers node.target := by
  have placed : marker.place registry ∈ nodes.map BuiltNode.place := by
    rw [serving.places, mem_places]
    exact ⟨marker, member, rfl⟩
  obtain ⟨node, within, place⟩ := List.mem_map.mp placed
  obtain ⟨sources, keys⟩ := Place.mk.inj place
  cases found : ExtractRule.findNode nodes marker.source (marker.key registry) with
  | none =>
    have missing := List.find?_eq_none.mp found node within
    simp [sources, keys] at missing
  | some node' =>
    have fits := List.find?_some found
    have within' := List.mem_of_find?_eq_some found
    simp only [decide_eq_true_eq] at fits
    refine ⟨node', within', rfl, fits.1, ?_⟩
    apply (serving.serves node' within').serves marker member
    rw [BuiltNode.place, Marker.place, fits.1, fits.2]

omit [Rendering F D O] in
/-- There is no node for a source that no marker was collected with. -/
theorem Serving.findNode_eq_none {nodes : List (BuiltNode F D O)}
    (serving : Serving registry tokenize markers nodes) {source : Expr F D O} (key : NodeKey)
    (new : ∀ marker ∈ markers, marker.source ≠ source) :
    ExtractRule.findNode nodes source key = none := by
  rw [ExtractRule.findNode, List.find?_eq_none]
  intro node within fits
  simp only [decide_eq_true_eq] at fits
  have placed : node.place ∈ ExtractRule.places registry markers := by
    rw [← serving.places]
    exact List.mem_map_of_mem within
  obtain ⟨marker, member, place⟩ := mem_places.mp placed
  exact new marker member ((Place.mk.inj place).1.trans fits.1)

/-- What stands in the place of a marker once its node is known. -/
def answerFrom (node : BuiltNode F D O) : Marker F D O → Expr F D O
  | .struct _ _ => nodeStruct node
  | .field _ _ name | .inline _ name _ _ => .column (nodeColumn node name)

/-- What stands in the place of a marker. -/
def answer (registry : TypeRegistry F) (nodes : List (BuiltNode F D O))
    (marker : Marker F D O) : Expr F D O :=
  match findNode nodes marker.source (marker.key registry) with
  | some node => answerFrom node marker
  | none => .literal (.boolean none)

/-- How the rewrite ends at a marker that has no node. -/
def unanswered (marker : Marker F D O) : Failure :=
  if marker.isInline then .panic "every marker has a built node"
  else .error "typed-extraction node missing for a collected marker"

section Answers

variable {nodes : List (BuiltNode F D O)}

omit [Rendering F D O] in
theorem replacement_of_findNode {marker : Marker F D O} {node : BuiltNode F D O}
    (found : findNode nodes marker.source (marker.key registry) = some node) :
    replacement registry nodes marker = .ok (answer registry nodes marker) := by
  rw [answer, found]
  cases marker with
  | struct source typeName =>
    rw [Marker.source, Marker.key] at found
    rw [replacement, namedNode, found]
    rfl
  | field source typeName name =>
    rw [Marker.source, Marker.key] at found
    rw [replacement, namedNode, found]
    rfl
  | inline source name spec doc =>
    rw [Marker.source, Marker.key] at found
    rw [replacement, found]
    rfl

omit [Rendering F D O] in
theorem replacement_of_missing {marker : Marker F D O}
    (missing : findNode nodes marker.source (marker.key registry) = none) :
    replacement registry nodes marker = .error (unanswered marker) := by
  cases marker with
  | struct source typeName =>
    rw [Marker.source, Marker.key] at missing
    rw [replacement, namedNode, missing]
    rfl
  | field source typeName name =>
    rw [Marker.source, Marker.key] at missing
    rw [replacement, namedNode, missing]
    rfl
  | inline source name spec doc =>
    rw [Marker.source, Marker.key] at missing
    rw [replacement, missing]
    rfl

/-- A column that one of the nodes adds. -/
def IsNodeColumn (nodes : List (BuiltNode F D O)) (expr : Expr F D O) : Prop :=
  ∃ node ∈ nodes, ∃ name ∈ node.target.fields.map (·.name), expr = .column (nodeColumn node name)

omit [Rendering F D O] in
/-- Every answer reads some column of a node. -/
theorem Serving.exists_nodeColumn (serving : Serving registry tokenize markers nodes)
    {marker : Marker F D O} (member : marker ∈ markers) :
    ∃ found ∈ (answer registry nodes marker).subexpressions, IsNodeColumn nodes found := by
  obtain ⟨node, within, found, -, served⟩ := serving.findNode member
  rw [answer, found]
  cases marker with
  | struct source typeName =>
    obtain ⟨full, known, fields⟩ := served
    obtain ⟨spec, rest, same⟩ := List.exists_cons_of_ne_nil (registered_spec known).1
    have inside : spec ∈ node.target.fields := by
      rw [fields, same]
      exact List.mem_cons_self
    refine ⟨.column (nodeColumn node spec.name), ?_, node, within, spec.name,
      List.mem_map_of_mem inside, rfl⟩
    apply Expr.mem_subexpressions_of_arg _ (Expr.self_mem_subexpressions _)
    exact List.mem_flatMap.mpr ⟨spec, inside, by simp⟩
  | field source typeName name =>
    obtain ⟨full, spec, -, declared, inside⟩ := served
    refine ⟨_, Expr.self_mem_subexpressions _, node, within, name, ?_, rfl⟩
    rw [← (mem_of_field declared).2]
    exact List.mem_map_of_mem inside
  | inline source name spec doc =>
    obtain ⟨ty, doc', -, fields, -⟩ := served
    refine ⟨_, Expr.self_mem_subexpressions _, node, within, name, ?_, rfl⟩
    rw [fields]
    exact List.mem_singleton_self _

/-- An answer is the extraction that its marker asks for, up to the doc of an inline
field. -/
theorem Serving.own (serving : Serving registry tokenize markers nodes)
    {input : LogicalPlan F D O} (unambiguous : (stacked nodes input).schema.Unambiguous)
    (agree : DocsAgree markers) {marker : Marker F D O} (member : marker ∈ markers) :
    marker.Own registry tokenize (stacked nodes input) (answer registry nodes marker) := by
  obtain ⟨node, within, found, source, served⟩ := serving.findNode member
  rw [answer, found]
  cases marker with
  | struct source' typeName =>
    obtain ⟨full, known, fields⟩ := served
    refine ⟨full, fun spec => nodeColumn node spec.name, known, ?_, ?_⟩
    · show nodeStruct node = _
      rw [nodeStruct, fields]
    · intro spec inside
      rw [← fields] at inside
      rw [origin_stacked unambiguous within inside, source]
      rfl
  | field source' typeName name =>
    obtain ⟨full, spec, known, declared, inside⟩ := served
    refine ⟨full, spec, nodeColumn node name, known, declared, rfl, ?_⟩
    rw [← (mem_of_field declared).2, origin_stacked unambiguous within inside, source]
    rfl
  | inline source' name spec doc =>
    obtain ⟨ty, doc', parsed, fields, first⟩ := served
    cases agree source' name spec doc doc' member first
    refine ⟨ty, nodeColumn node name, parsed, rfl, ?_⟩
    have inside : (⟨name, ty, doc⟩ : FieldSpec F) ∈ node.target.fields := by
      rw [fields]
      exact List.mem_singleton_self _
    rw [show name = (⟨name, ty, doc⟩ : FieldSpec F).name from rfl,
      origin_stacked unambiguous within inside, source]
    rfl

end Answers

end Nodes

section Rewrite

variable [DecidableEq F] [DecidableEq D] [DecidableEq O] [Rendering F D O]
  {registry : TypeRegistry F} {tokenize : String → Except String (List Token)}
  {exprs : List (Expr F D O)} {input : LogicalPlan F D O} {nodes : List (BuiltNode F D O)}

omit [DecidableEq F] [DecidableEq D] [DecidableEq O] [Rendering F D O] in
theorem mem_markersOf {marker : Marker F D O} : marker ∈ markersOf exprs ↔
    ∃ inner ∈ exprs.flatMap Expr.subexpressions, markerOf inner = some marker := by
  rw [markersOf, List.mem_filterMap]

omit [DecidableEq F] [DecidableEq D] [DecidableEq O] [Rendering F D O] in
theorem containsMarker_eq_false_iff {expr : Expr F D O}
    (wellFormed : ∀ inner ∈ expr.subexpressions, ∃ marker, parseMarker inner = .ok marker) :
    containsMarker expr = false ↔ ∀ inner ∈ expr.subexpressions, markerOf inner = none := by
  rw [containsMarker, Expr.exists_, List.any_eq_false]
  apply forall₂_congr
  intro inner within
  rw [Bool.not_eq_true, ← parseMarker_eq_none_iff]
  obtain ⟨marker, parsed⟩ := wellFormed inner within
  rw [parsed, markerOf_eq parsed, Except.ok.injEq]

/-- The expression is part of a projection that was typed, and its markers can be read. -/
structure Readable (registry : TypeRegistry F) (tokenize : String → Except String (List Token))
    (exprs : List (Expr F D O)) (schema : Schema) (expr : Expr F D O) : Prop where
  within : ∀ inner ∈ expr.subexpressions, inner ∈ exprs.flatMap Expr.subexpressions
  resolves : schema.Resolves expr
  parses : ∀ inner ∈ expr.subexpressions, ∃ marker, parseMarker inner = .ok marker
  typed : ∀ name args, .scalarFunction name args ∈ expr.subexpressions →
    Typed registry tokenize name args

omit [DecidableEq F] [DecidableEq D] [DecidableEq O] [Rendering F D O] in
theorem Readable.mono {schema : Schema} {expr inner : Expr F D O}
    (readable : Readable registry tokenize exprs schema expr)
    (inside : ∀ deeper ∈ inner.subexpressions, deeper ∈ expr.subexpressions) :
    Readable registry tokenize exprs schema inner where
  within deeper member := readable.within deeper (inside deeper member)
  resolves field member := readable.resolves field (inside _ member)
  parses deeper member := readable.parses deeper (inside deeper member)
  typed name args member := readable.typed name args (inside _ member)

/-- The answers of the markers, as a substitution. -/
def answers (registry : TypeRegistry F) (nodes : List (BuiltNode F D O)) (inner : Expr F D O) :
    Option (Expr F D O) :=
  (markerOf inner).map (answer registry nodes)

omit [Rendering F D O] in
/-- One step of the rewrite: a node that is no marker stays, a marker is answered unless
one inside its source was answered before. -/
theorem replaceMarker_step (serving : Serving registry tokenize (markersOf exprs) nodes)
    {schema : Schema} (free : Free schema nodes)
    (sources : ∀ marker ∈ markersOf exprs, schema.Resolves marker.source)
    {expr : Expr F D O} (readable : Readable registry tokenize exprs schema expr) :
    replaceMarker registry nodes
        (Expr.mapChildren (Expr.substitute (answers registry nodes)) expr) =
      Expr.stopped ((nestedMarker expr).map unanswered)
        (Expr.substitute (answers registry nodes) expr) := by
  obtain ⟨found, parsed⟩ := readable.parses expr (Expr.self_mem_subexpressions _)
  have own := markerOf_eq parsed
  cases found with
  | none =>
    have other := parseMarker_eq_none_iff.mp parsed
    rw [← isMarker_mapChildren (Expr.substitute (answers registry nodes)) expr,
      ← parseMarker_eq_none_iff] at other
    rw [replaceMarker, other, nestedMarker, own, Expr.substitute_eq, answers, own]
    rfl
  | some marker =>
    obtain ⟨name, args, rfl⟩ := exists_call_of_parseMarker parsed
    obtain ⟨-, values, rfl, shape⟩ :=
      parseMarker_shape (readable.typed name args (Expr.self_mem_subexpressions _)) parsed
    have literals : (values.map Expr.literal).map (Expr.substitute (answers registry nodes)) =
        values.map Expr.literal := by
      rw [List.map_map]
      apply List.map_congr_left
      intro value _
      rfl
    have inside : ∀ deeper ∈ marker.source.subexpressions, deeper ∈
        (Expr.scalarFunction name (marker.source :: values.map .literal)).subexpressions :=
      fun deeper => Expr.mem_subexpressions_of_arg List.mem_cons_self
    have readable' := readable.mono inside
    have replaced := shape (Expr.substitute (answers registry nodes) marker.source)
    have member : marker ∈ markersOf exprs := mem_markersOf.mpr
      ⟨_, readable.within _ (Expr.self_mem_subexpressions _), own⟩
    have step : replaceMarker registry nodes
        (Expr.mapChildren (Expr.substitute (answers registry nodes))
          (.scalarFunction name (marker.source :: values.map .literal))) =
        replacement registry nodes
          (marker.withSource (Expr.substitute (answers registry nodes) marker.source)) := by
      rw [Expr.mapChildren, List.map_cons, literals, replaceMarker, replaced]
      rfl
    rw [step, nestedMarker, own]
    cases nested : containsMarker marker.source with
    | false =>
      -- Nothing inside the source has changed, and its node is found.
      have none_inside := (containsMarker_eq_false_iff readable'.parses).mp nested
      have same : Expr.substitute (answers registry nodes) marker.source = marker.source :=
        Expr.substitute_eq_self fun inner within => by rw [answers, none_inside inner within]; rfl
      obtain ⟨node, -, found, -⟩ := serving.findNode member
      rw [same, Marker.withSource_source, replacement_of_findNode found, Expr.substitute_eq,
        answers, own, Option.filter_some, nested]
      rfl
    | true =>
      -- The source has a column that no collected source has.
      have answered_inside : ∃ inner ∈ marker.source.subexpressions,
          (answers registry nodes inner).isSome := by
        by_contra none_inside
        rw [← Bool.not_eq_false] at nested
        apply nested
        rw [containsMarker_eq_false_iff readable'.parses]
        intro inner within
        cases here : markerOf inner with
        | none => rfl
        | some other => exact absurd ⟨inner, within, by rw [answers, here]; rfl⟩ none_inside
      have answers_read : ∀ inner ∈ marker.source.subexpressions, ∀ replaced,
          answers registry nodes inner = some replaced →
            ∃ found ∈ replaced.subexpressions, IsNodeColumn nodes found := by
        intro inner within replaced same
        obtain ⟨other, here, rfl⟩ := Option.map_eq_some_iff.mp same
        exact serving.exists_nodeColumn
          (mem_markersOf.mpr ⟨inner, readable'.within inner within, here⟩)
      obtain ⟨found, within, node, member', column, declared, rfl⟩ :=
        Expr.exists_mem_substitute answers_read answered_inside
      have new : ∀ other ∈ markersOf exprs,
          other.source ≠ Expr.substitute (answers registry nodes) marker.source := by
        intro other collected same
        rw [← same] at within
        obtain ⟨known, inSchema, refers⟩ := sources other collected _ within
        apply free known inSchema node member' column declared
        simp only [Column.refersTo, Bool.and_eq_true, beq_iff_eq] at refers
        exact refers.1.symm
      have missing : findNode nodes
          (marker.withSource (Expr.substitute (answers registry nodes) marker.source)).source
          ((marker.withSource (Expr.substitute (answers registry nodes) marker.source)).key
            registry) = none := by
        rw [Marker.source_withSource]
        exact serving.findNode_eq_none _ new
      rw [replacement_of_missing missing, unanswered, Marker.isInline_withSource, Option.filter_some,
        nested]
      rfl

omit [DecidableEq F] [DecidableEq D] [DecidableEq O] [Rendering F D O] in
theorem parses_of_wellFormed (wellFormed : ¬ Malformed exprs) {inner : Expr F D O}
    (within : inner ∈ exprs.flatMap Expr.subexpressions) :
    ∃ marker, parseMarker inner = .ok marker := by
  cases parsed : parseMarker inner with
  | ok marker => exact ⟨marker, rfl⟩
  | error failure => exact absurd ⟨inner, within, failure, parsed⟩ wellFormed

omit [DecidableEq F] [DecidableEq D] [DecidableEq O] in
/-- The call that a marker of a projection was read from. -/
theorem exists_call_of_markerOf (valid : Valid registry tokenize exprs input)
    (wellFormed : ¬ Malformed exprs) {inner : Expr F D O} {marker : Marker F D O}
    (within : inner ∈ exprs.flatMap Expr.subexpressions) (own : markerOf inner = some marker) :
    marker.Known registry tokenize ∧ ∃ (name : String) (values : List (ScalarValue F D)),
      inner = .scalarFunction name (marker.source :: values.map .literal) := by
  obtain ⟨found, parsed⟩ := parses_of_wellFormed wellFormed within
  obtain rfl := (markerOf_eq parsed).symm.trans own
  obtain ⟨name, args, rfl⟩ := exists_call_of_parseMarker parsed
  obtain ⟨known, values, rfl, -⟩ := parseMarker_shape (valid.typed name args within) parsed
  exact ⟨known, name, values, rfl⟩

omit [DecidableEq F] [DecidableEq D] [DecidableEq O] [Rendering F D O] in
theorem mem_flatMap_of_source {inner : Expr F D O} {marker : Marker F D O} {name : String}
    {values : List (ScalarValue F D)} (within : inner ∈ exprs.flatMap Expr.subexpressions)
    (call : inner = .scalarFunction name (marker.source :: values.map .literal))
    {deeper : Expr F D O} (inside : deeper ∈ marker.source.subexpressions) :
    deeper ∈ exprs.flatMap Expr.subexpressions := by
  obtain ⟨expr, member, placed⟩ := List.mem_flatMap.mp within
  subst call
  exact List.mem_flatMap.mpr ⟨expr, member, Expr.mem_subexpressions_trans placed
    (Expr.mem_subexpressions_of_arg List.mem_cons_self inside)⟩

omit [DecidableEq F] [DecidableEq D] [DecidableEq O] in
theorem known_of_valid (valid : Valid registry tokenize exprs input)
    (wellFormed : ¬ Malformed exprs) :
    ∀ marker ∈ markersOf exprs, marker.Known registry tokenize := by
  intro marker member
  obtain ⟨inner, within, own⟩ := mem_markersOf.mp member
  exact (exists_call_of_markerOf valid wellFormed within own).1

/-- A column with the name of a node's own is an error. -/
theorem rewriteProjection_of_clashes (blake3 : List UInt8 → List UInt8)
    (valid : Valid registry tokenize exprs input) (wellFormed : ¬ Malformed exprs)
    (some_marker : markersOf exprs ≠ [])
    (clashes : Clashes registry (markersOf exprs) input.schema) :
    ∃ message, rewriteProjection registry tokenize blake3 exprs input = .error (.error message) := by
  obtain ⟨builder, nodes, observed, -, -, taken⟩ :=
    exists_built blake3 (known_of_valid valid wellFormed) valid.unambiguous
  obtain ⟨message, failed⟩ := taken clashes
  have several : (markersOf exprs).isEmpty = false := by simpa using some_marker
  refine ⟨message, ?_⟩
  rw [rewriteProjection, collectMarkers_of_wellFormed wellFormed]
  change (if (markersOf exprs).isEmpty then _ else _) = _
  rw [several, if_neg (by simp), observed]
  change builder.build registry tokenize blake3 input >>= _ = _
  rw [failed]
  rfl

/-- What the rewrite comes to where the nodes can be built. -/
theorem rewriteProjection_eq (blake3 : List UInt8 → List UInt8)
    (valid : Valid registry tokenize exprs input) (wellFormed : ¬ Malformed exprs)
    (some_marker : markersOf exprs ≠ [])
    (apart : ¬ Clashes registry (markersOf exprs) input.schema) :
    ∃ nodes, Serving registry tokenize (markersOf exprs) nodes ∧
      (stacked nodes input).schema.Unambiguous ∧
      rewriteProjection registry tokenize blake3 exprs input =
        Expr.stopped ((firstNested exprs).map unanswered)
          (answered exprs (answer registry nodes) (stacked nodes input)) := by
  have readable : ∀ expr ∈ exprs, Readable registry tokenize exprs input.schema expr := by
    intro expr member
    have within : ∀ inner ∈ expr.subexpressions, inner ∈ exprs.flatMap Expr.subexpressions :=
      fun inner inside => List.mem_flatMap.mpr ⟨expr, member, inside⟩
    exact ⟨within, valid.resolves expr member,
      fun inner inside => parses_of_wellFormed wellFormed (within inner inside),
      fun name args inside => valid.typed name args (within _ inside)⟩
  have known := known_of_valid valid wellFormed
  have sources : ∀ marker ∈ markersOf exprs, input.schema.Resolves marker.source := by
    intro marker member field column
    obtain ⟨inner, within, own⟩ := mem_markersOf.mp member
    obtain ⟨-, name, values, call⟩ := exists_call_of_markerOf valid wellFormed within own
    obtain ⟨expr, chosen, inside⟩ :=
      List.mem_flatMap.mp (mem_flatMap_of_source within call column)
    exact valid.resolves expr chosen field inside
  obtain ⟨builder, nodes, observed, serving, builds, -⟩ := exists_built blake3 known valid.unambiguous
  obtain ⟨built, unambiguous⟩ := builds apart
  refine ⟨nodes, serving, unambiguous, ?_⟩
  have free := (serving.free_iff input.schema).mpr apart
  have each : ∀ expr ∈ exprs,
      (do
        let replaced ← expr.transform (replaceMarker registry nodes)
        return Expr.restore expr.qualifiedName replaced) =
      Expr.stopped (expr.postorder.findSome? fun inner => (nestedMarker inner).map unanswered)
        (Expr.restore expr.qualifiedName (expr.substitute (answers registry nodes))) := by
    intro expr member
    have whole := Expr.transform_eq expr fun inner inside =>
      replaceMarker_step serving free sources ((readable expr member).mono fun deeper within =>
        Expr.mem_subexpressions_trans inside within)
    rw [whole]
    exact Expr.bind_stopped_pure _
  have rewritten := Expr.mapM_stopped each
  have first : (exprs.findSome? fun expr =>
      expr.postorder.findSome? fun inner => (nestedMarker inner).map unanswered) =
        (firstNested exprs).map unanswered := by
    simp only [firstNested, List.map_findSome?, Function.comp_def]
  have names : Schema.Unambiguous ((exprs.map fun expr => Expr.restore expr.qualifiedName
      (expr.substitute (answers registry nodes))).map Expr.qualifiedName) := by
    rw [List.map_map]
    simp only [Function.comp_def, Expr.qualifiedName_restore]
    exact valid.named
  have collected := collectMarkers_of_wellFormed wellFormed
  have projected := LogicalPlan.newProjection_ok_iff.mpr
    ⟨names, (rfl : LogicalPlan.projection _ (stacked nodes input) = _)⟩
  have several : (markersOf exprs).isEmpty = false := by simpa using some_marker
  rw [rewriteProjection, collected]
  change (if (markersOf exprs).isEmpty then _ else _) = _
  rw [several, if_neg (by simp), observed]
  change builder.build registry tokenize blake3 input >>= _ = _
  rw [built]
  change (exprs.mapM fun expr => do
    let replaced ← expr.transform (replaceMarker registry nodes)
    return Expr.restore expr.qualifiedName replaced) >>= _ = _
  rw [rewritten, first]
  cases firstNested exprs with
  | none =>
    change orError (LogicalPlan.newProjection _ _) = _
    rw [projected]
    rfl
  | some marker => rfl

omit [DecidableEq F] [DecidableEq D] [DecidableEq O] [Rendering F D O] in
theorem outerAlias_mapChildren (g : Expr F D O → Expr F D O) (expr : Expr F D O) :
    (Expr.mapChildren g expr).outerAlias = expr.outerAlias := by
  cases expr with
  | column | literal | case => rfl
  | node head args =>
    match args with
    | [] | [_] | _ :: _ :: _ => cases head <;> rfl

omit [DecidableEq F] [DecidableEq D] [DecidableEq O] [Rendering F D O] in
/-- Answers that are no aliases leave the outermost alias as it was. -/
theorem outerAlias_substitute {answer : Marker F D O → Expr F D O} {expr : Expr F D O}
    (plain : ∀ marker, markerOf expr = some marker → (answer marker).outerAlias = none) :
    (expr.substitute fun inner => (markerOf inner).map answer).outerAlias =
      if (markerOf expr).isSome then none else expr.outerAlias := by
  rw [Expr.substitute_eq]
  cases own : markerOf expr with
  | none => exact outerAlias_mapChildren _ _
  | some marker => exact plain marker own

omit [DecidableEq F] [DecidableEq D] [DecidableEq O] in
theorem Marker.Own.outerAlias {below : LogicalPlan F D O} {marker : Marker F D O}
    {expr : Expr F D O} (own : marker.Own registry tokenize below expr) :
    expr.outerAlias = none := by
  cases marker with
  | struct source typeName =>
    obtain ⟨full, column, -, rfl, -⟩ := own
    rfl
  | field source typeName name =>
    obtain ⟨full, spec, column, -, -, rfl, -⟩ := own
    rfl
  | inline source name spec doc =>
    obtain ⟨ty, column, -, rfl, -⟩ := own
    rfl

omit [DecidableEq F] [DecidableEq D] [DecidableEq O] in
theorem markerOf_eq_none_of_flat (valid : Valid registry tokenize exprs input)
    (wellFormed : ¬ Malformed exprs) (flat : firstNested exprs = none) {inner : Expr F D O}
    {marker : Marker F D O} (within : inner ∈ exprs.flatMap Expr.subexpressions)
    (own : markerOf inner = some marker) {child deeper : Expr F D O} (below : child ∈ inner.children)
    (later : deeper ∈ child.subexpressions) : markerOf deeper = none := by
  obtain ⟨-, name, values, call⟩ := exists_call_of_markerOf valid wellFormed within own
  have source_flat : containsMarker marker.source = false := by
    obtain ⟨expr, member, placed⟩ := List.mem_flatMap.mp within
    have none_here := List.findSome?_eq_none_iff.mp
      (List.findSome?_eq_none_iff.mp flat expr member) inner (Expr.mem_postorder.mpr placed)
    simpa [nestedMarker, own] using none_here
  rw [call] at below
  rcases List.mem_cons.mp below with rfl | literal
  · exact (containsMarker_eq_false_iff fun inner inside => parses_of_wellFormed wellFormed
      (mem_flatMap_of_source within call inside)).mp source_flat deeper later
  · obtain ⟨value, -, rfl⟩ := List.mem_map.mp literal
    cases List.mem_singleton.mp later
    rfl

omit [DecidableEq F] [DecidableEq D] [DecidableEq O] in
/-- Where no marker is inside another, the projection shows the answer of each. -/
theorem answered_inj (valid : Valid registry tokenize exprs input)
    (wellFormed : ¬ Malformed exprs) (flat : firstNested exprs = none)
    {answer answer' : Marker F D O → Expr F D O} {below below' : LogicalPlan F D O}
    (plain : ∀ marker ∈ markersOf exprs, (answer marker).outerAlias = none)
    (plain' : ∀ marker ∈ markersOf exprs, (answer' marker).outerAlias = none)
    (same : answered exprs answer below = answered exprs answer' below') :
    below = below' ∧ ∀ marker ∈ markersOf exprs, answer marker = answer' marker := by
  obtain ⟨lists, belows⟩ := LogicalPlan.projection.inj same
  refine ⟨belows, ?_⟩
  intro marker member
  obtain ⟨inner, within, own⟩ := mem_markersOf.mp member
  obtain ⟨expr, chosen, inside⟩ := List.mem_flatMap.mp within
  have collected : ∀ deeper ∈ expr.subexpressions, ∀ other, markerOf deeper = some other →
      other ∈ markersOf exprs := fun deeper found other here =>
    mem_markersOf.mpr ⟨deeper, List.mem_flatMap.mpr ⟨expr, chosen, found⟩, here⟩
  have top := collected expr (Expr.self_mem_subexpressions _)
  have substituted := Expr.restore_injective ((outerAlias_substitute fun other here =>
      plain other (top other here)).trans (outerAlias_substitute fun other here =>
      plain' other (top other here)).symm) (List.map_inj_left.mp lists expr chosen)
  have none_inside : ∀ middle ∈ expr.subexpressions,
      ((markerOf middle).map answer).isSome →
        ∀ child ∈ middle.children, ∀ deeper ∈ child.subexpressions,
          (markerOf deeper).map answer = none := by
    intro middle placed found child below deeper later
    obtain ⟨other, here⟩ := Option.isSome_iff_exists.mp (by simpa using found)
    have placed' := List.mem_flatMap.mpr ⟨expr, chosen, placed⟩
    rw [Option.map_eq_none_iff]
    exact markerOf_eq_none_of_flat valid wellFormed flat placed' here below later
  have answers_eq := Expr.answer_eq_of_substitute_eq (by simp) none_inside substituted inner inside
  simpa [own] using answers_eq

omit [Rendering F D O] in
theorem outerAlias_answer (serving : Serving registry tokenize (markersOf exprs) nodes)
    {marker : Marker F D O} (member : marker ∈ markersOf exprs) :
    (answer registry nodes marker).outerAlias = none := by
  obtain ⟨node, -, found, -⟩ := serving.findNode member
  rw [answer, found]
  cases marker <;> rfl

/-- Markers that read their own extractions do not share a column, so their docs agree. -/
theorem docsAgree_of_own {below : LogicalPlan F D O}
    (own : ∀ marker ∈ markersOf exprs, marker.Own registry tokenize below (answer registry nodes marker)) :
    DocsAgree (markersOf exprs) := by
  intro source name spec doc doc' member member'
  obtain ⟨ty, column, -, reads, origin⟩ := own _ member
  obtain ⟨ty', column', -, reads', origin'⟩ := own _ member'
  -- The doc is not part of what a marker is looked up by.
  have shared : answer registry nodes (.inline source name spec doc) =
      answer registry nodes (.inline source name spec doc') := rfl
  rw [reads, reads', Expr.column.injEq] at shared
  rw [shared, origin', Option.some.injEq, Prod.mk.injEq, FieldSpec.mk.injEq] at origin
  exact origin.2.2.2.symm

theorem readsOwn_of_no_markers (blake3 : List UInt8 → List UInt8)
    (wellFormed : ¬ Malformed exprs) (none_asked : markersOf exprs = []) :
    ReadsOwn registry tokenize exprs (rewriteProjection registry tokenize blake3 exprs input) := by
  have unchanged : rewriteProjection registry tokenize blake3 exprs input =
      .ok (.projection exprs input) := by
    rw [rewriteProjection, collectMarkers_of_wellFormed wellFormed, none_asked]
    rfl
  rw [unchanged]
  refine ⟨input, fun marker => marker.source, ?_, by simp [none_asked]⟩
  rw [answered]
  congr 1
  symm
  apply (List.map_congr_left _).trans (List.map_id _)
  intro expr member
  have same : (expr.substitute fun inner => (markerOf inner).map fun marker => marker.source) =
      expr := by
    apply Expr.substitute_eq_self
    intro inner within
    cases own : markerOf inner with
    | none => rfl
    | some marker =>
      have collected : marker ∈ markersOf exprs :=
        mem_markersOf.mpr ⟨inner, List.mem_flatMap.mpr ⟨expr, member, within⟩, own⟩
      rw [none_asked] at collected
      cases collected
  rw [same, Expr.restore, if_pos rfl, id]

/-- Where no marker is inside another, all that can go wrong is a doc. -/
theorem readsOwn_iff_docsAgree (blake3 : List UInt8 → List UInt8)
    (valid : Valid registry tokenize exprs input) (wellFormed : ¬ Malformed exprs)
    (some_marker : markersOf exprs ≠ [])
    (apart : ¬ Clashes registry (markersOf exprs) input.schema) (flat : firstNested exprs = none) :
    ReadsOwn registry tokenize exprs (rewriteProjection registry tokenize blake3 exprs input) ↔
      DocsAgree (markersOf exprs) := by
  obtain ⟨nodes, serving, unambiguous, rewritten⟩ :=
    rewriteProjection_eq blake3 valid wellFormed some_marker apart
  rw [rewritten, flat]
  change ReadsOwn registry tokenize exprs (.ok _) ↔ _
  constructor
  · rintro ⟨below, answer', same, own⟩
    obtain ⟨rfl, alike⟩ := answered_inj valid wellFormed flat
      (fun marker => outerAlias_answer serving)
      (fun marker member => (own marker member).outerAlias) same
    apply docsAgree_of_own
    intro marker member
    rw [alike marker member]
    exact own marker member
  · intro agree
    exact ⟨_, _, rfl, fun marker => serving.own unambiguous agree⟩

/-- The rewrite of a projection reads every extraction from the column it was written
for exactly where a marker cannot be read, a column has the name of a node's own, or no
inline marker has another inside its source and the docs of like ones agree. -/
theorem rewriteProjection_readsOwn_iff (blake3 : List UInt8 → List UInt8)
    (valid : Valid registry tokenize exprs input) :
    ReadsOwn registry tokenize exprs (rewriteProjection registry tokenize blake3 exprs input) ↔
      Malformed exprs ∨ Clashes registry (markersOf exprs) input.schema ∨
        match firstNested exprs with
        | some marker => marker.isInline = false
        | none => DocsAgree (markersOf exprs) := by
  by_cases malformed : Malformed exprs
  · obtain ⟨message, failed⟩ := collectMarkers_of_malformed malformed
    have stopped : rewriteProjection registry tokenize blake3 exprs input =
        .error (.error message) := by
      rw [rewriteProjection, failed]
      rfl
    rw [stopped]
    exact ⟨fun _ => .inl malformed, fun _ => trivial⟩
  · rw [or_iff_right malformed]
    by_cases none_asked : markersOf exprs = []
    · have flat : firstNested exprs = none := by
        rw [firstNested, List.findSome?_eq_none_iff]
        intro expr member
        rw [List.findSome?_eq_none_iff]
        intro inner placed
        have within := List.mem_flatMap.mpr ⟨expr, member, Expr.mem_postorder.mp placed⟩
        cases own : markerOf inner with
        | none => rw [nestedMarker, own]; rfl
        | some marker =>
          have collected := mem_markersOf.mpr ⟨inner, within, own⟩
          rw [none_asked] at collected
          cases collected
      rw [flat]
      refine ⟨fun _ => .inr ?_, fun _ => readsOwn_of_no_markers blake3 malformed none_asked⟩
      simp [DocsAgree, none_asked]
    · by_cases clashes : Clashes registry (markersOf exprs) input.schema
      · obtain ⟨message, failed⟩ := rewriteProjection_of_clashes blake3 valid malformed none_asked clashes
        rw [failed]
        exact ⟨fun _ => .inl clashes, fun _ => trivial⟩
      · obtain ⟨nodes, serving, unambiguous, rewritten⟩ :=
          rewriteProjection_eq blake3 valid malformed none_asked clashes
        rw [or_iff_right clashes]
        cases flat : firstNested exprs with
        | some marker =>
          rw [flat] at rewritten
          rw [rewritten]
          change ReadsOwn registry tokenize exprs (.error (unanswered marker)) ↔ _
          cases inline : marker.isInline <;> simp [unanswered, inline, ReadsOwn]
        | none => exact readsOwn_iff_docsAgree blake3 valid malformed none_asked clashes flat

end Rewrite

section Example

open Extract (asciiSql wholeFloats)

/-- A session without registered types. -/
def noTypes : TypeRegistry Int :=
  ⟨asciiSql, wholeFloats, fun name => String.ofList (name.toList.map Char.toLower), [], by simp⟩

/-- The tokens of a field type that is one word. -/
def oneWord (spec : String) : Except String (List Token) :=
  .ok [.word spec none]

/-- `EXTRACT(amount REAL 'doc' FROM body)`. -/
def amount (doc : String) : Expr Int Unit String :=
  .scalarFunction semExtractInlineUdfName [.column (.newUnqualified "body"),
    .literal (.string .utf8 (some "amount")), .literal (.string .utf8 (some "REAL")),
    .literal (.string .utf8 (some doc))]

/-- `SELECT EXTRACT(amount REAL 'doc' FROM body) AS first, …  AS second FROM mails`. -/
def amounts (doc doc' : String) : List (Expr Int Unit String) :=
  [.aliasQualified (amount doc) (.newUnqualified "first"),
    .aliasQualified (amount doc') (.newUnqualified "second")]

def mails : LogicalPlan Int Unit String :=
  .other "TableScan: mails" [] ⟨[.newUnqualified "body"], [], by decide, by simp⟩

theorem amounts_valid (doc doc' : String) : Valid noTypes oneWord (amounts doc doc') mails where
  unambiguous := by decide
  resolves := by
    intro expr member field column
    simp only [amounts, amount, List.mem_cons, List.not_mem_nil, or_false] at member
    rcases member with rfl | rfl <;>
      simp_all [Expr.subexpressions, mails, LogicalPlan.schema]
  named := (by decide : Schema.Unambiguous [.newUnqualified "first", .newUnqualified "second"])
  typed := by
    intro name args member
    simp only [amounts, amount, List.flatMap_cons, List.flatMap_nil, Expr.subexpressions,
      Expr.subexpressionsList_eq, List.append_nil, List.mem_append, List.mem_cons,
      List.not_mem_nil, or_false, reduceCtorEq, false_or, Expr.node.injEq,
      Head.scalarFunction.injEq, false_and] at member
    rcases member with ⟨rfl, rfl⟩ | ⟨rfl, rfl⟩ <;> exact ⟨rfl, _, rfl⟩

theorem amounts_wellFormed (doc doc' : String) : ¬ Malformed (amounts doc doc') := by
  rintro ⟨inner, member, failure, failed⟩
  simp only [amounts, amount, List.flatMap_cons, List.flatMap_nil, Expr.subexpressions,
    Expr.subexpressionsList_eq, List.append_nil, List.mem_append, List.mem_cons,
    List.not_mem_nil, or_false] at member
  rcases member with (rfl | rfl | (rfl | rfl | rfl | rfl)) | (rfl | rfl | (rfl | rfl | rfl | rfl)) <;>
    cases failed

theorem markersOf_amounts (doc doc' : String) : markersOf (amounts doc doc') =
    [.inline (.column (.newUnqualified "body")) "amount" "REAL" doc,
      .inline (.column (.newUnqualified "body")) "amount" "REAL" doc'] :=
  rfl

theorem amounts_apart (doc doc' : String) :
    ¬ Clashes noTypes (markersOf (amounts doc doc')) mails.schema := by
  rw [markersOf_amounts]
  rintro ⟨marker, member, name, brought, field, known, same⟩
  cases List.mem_singleton.mp known
  have first := congrArg (fun name => name.toList.head?) same
  simp [LogicalPlan.outputColumnName, Column.newUnqualified] at first

/-- `SELECT EXTRACT(currency TEXT '' FROM EXTRACT(amount REAL '' FROM body)) AS first FROM
mails`. -/
def nestedAmount : List (Expr Int Unit String) :=
  [.aliasQualified (.scalarFunction semExtractInlineUdfName [amount "",
    .literal (.string .utf8 (some "currency")), .literal (.string .utf8 (some "TEXT")),
    .literal (.string .utf8 (some ""))]) (.newUnqualified "first")]

/-- An inline extraction inside the source of another panics. -/
theorem nestedAmount_panics : ∃ message,
    rewriteProjection noTypes oneWord (fun _ => []) nestedAmount mails = .error (.panic message) := by
  have panicked : (match rewriteProjection noTypes oneWord (fun _ => []) nestedAmount mails with
      | .error (.panic _) => true
      | _ => false) = true := by decide +kernel
  split at panicked
  · exact ⟨_, by assumption⟩
  · cases panicked

/-- The second extraction reads the amount in euros, and a nested one panics. -/
theorem extractions_misread :
    ¬ ReadsOwn noTypes oneWord (amounts "in euros" "in dollars")
        (rewriteProjection noTypes oneWord (fun _ => []) (amounts "in euros" "in dollars") mails) ∧
      ¬ ReadsOwn noTypes oneWord nestedAmount
        (rewriteProjection noTypes oneWord (fun _ => []) nestedAmount mails) := by
  constructor
  · rw [readsOwn_iff_docsAgree _ (amounts_valid _ _) (amounts_wellFormed _ _)
      (by rw [markersOf_amounts]; simp) (amounts_apart _ _) rfl, markersOf_amounts]
    intro agree
    have same := agree (.column (.newUnqualified "body")) "amount" "REAL" "in euros" "in dollars"
      (by simp) (by simp)
    exact absurd same (by decide)
  · obtain ⟨message, panicked⟩ := nestedAmount_panics
    rw [panicked]
    exact id

/-- The same amount asked for twice is read from one column. -/
theorem euros_read_twice : ReadsOwn noTypes oneWord (amounts "in euros" "in euros")
    (rewriteProjection noTypes oneWord (fun _ => []) (amounts "in euros" "in euros") mails) := by
  apply (rewriteProjection_readsOwn_iff _ (amounts_valid _ _)).mpr
  refine .inr (.inr ?_)
  change DocsAgree (markersOf (amounts "in euros" "in euros"))
  rw [markersOf_amounts]
  intro source name spec doc doc' member member'
  simp only [List.mem_cons, List.not_mem_nil, or_false, or_self, Marker.inline.injEq] at member member'
  rw [member.2.2.2, member'.2.2.2]

end Example

end Semcast.ExtractRule
