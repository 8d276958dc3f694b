import Semcast.Misc.Numbered
import Semcast.Physical.Proofs.ExtractLoops
import Semcast.Types.Proofs.Units

/-!
# The cells of an extraction

Each cell of the columns that `extract_batch` appends depends on the text of its own row only:
it holds what the cache had for the unit of its field before the batch, or else what the answer
to the request of that row decodes into. A row asks once, for the fields of the units that the
cache does not have, and a row that the cache has in full does not ask.
-/

namespace Semcast.Types

open Json

variable {F : Type*}

/-- A field has a JSON type where it has an Arrow type. -/
theorem exists_jsonType {ty : FieldType F} {arrow : DataType} (typed : ty.arrowType = .ok arrow) :
    ∃ fields, ty.jsonType = .ok fields := by
  induction ty generalizing arrow with
  | list inner ih =>
    unfold FieldType.arrowType at typed
    obtain ⟨item, inside, -⟩ := Fallible.map_ok_iff.mp typed
    obtain ⟨items, made⟩ := ih inside
    exact ⟨_, Fallible.map_ok_iff.mpr ⟨items, made, rfl⟩⟩
  | nested name => cases typed
  | _ => exact ⟨_, rfl⟩

namespace SemanticType

theorem select_eq {ty : SemanticType F} {fields : List String}
    (named : ∀ name ∈ fields, name ∈ ty.fields.map (·.name)) :
    ty.select fields = .ok (ty.fields.filter fun spec => fields.contains spec.name) := by
  simp only [← field_ok_iff] at named
  obtain ⟨specs, found⟩ := Fallible.mapM_ok_iff.mpr named
  exact Fallible.bind_ok_iff.mpr ⟨specs, found, rfl⟩

theorem exists_jsonSchema {ty : SemanticType F} (floats : Floats F) {fields : List String}
    (named : ∀ name ∈ fields, name ∈ ty.fields.map (·.name))
    (typed : ∀ spec ∈ ty.fields, ∃ arrow, spec.ty.arrowType = .ok arrow) :
    ∃ schema, ty.jsonSchema floats fields = .ok schema := by
  unfold jsonSchema
  have each : ∀ spec ∈ ty.fields.filter (fun spec => fields.contains spec.name),
      ∃ made, property floats spec = .ok made := by
    intro spec member
    obtain ⟨arrow, has⟩ := typed spec (List.mem_filter.mp member).1
    obtain ⟨object, made⟩ := exists_jsonType has
    exact ⟨_, Fallible.bind_ok_iff.mpr ⟨object, made, rfl⟩⟩
  obtain ⟨properties, made⟩ := Fallible.mapM_ok_iff.mpr each
  exact ⟨_, Fallible.bind_ok_iff.mpr ⟨_, select_eq named,
    Fallible.bind_ok_iff.mpr ⟨properties, made, rfl⟩⟩⟩

end SemanticType

end Semcast.Types

namespace Semcast.Extract

open Model Cache Json Semcast.Types LawfulSemanticCache

variable {F ρ ε C : Type*} {libraries : Libraries F}

namespace BatchExtractor

/-! ## Units of the target -/

section Units

variable {extractor : BatchExtractor F ρ ε} {units : List (List (FieldSpec F))}

/-- The unit that has a field. -/
def unitOf (extractor : BatchExtractor F ρ ε) (name : String) : List (FieldSpec F) :=
  (extractor.target.generationUnits.find? fun unit => unit.any (·.name == name)).getD []

theorem unitOf_eq (layout : Layout extractor.target units) {unit : List (FieldSpec F)}
    (member : unit ∈ units) {spec : FieldSpec F} (inside : spec ∈ unit) :
    extractor.unitOf spec.name = unit := by
  unfold unitOf
  rw [layout.generationUnits_eq]
  cases found : units.find? fun unit => unit.any (·.name == spec.name) with
  | none =>
    have missing := List.find?_eq_none.mp found unit member
    exact absurd (List.any_eq_true.mpr ⟨spec, inside, beq_self_eq_true spec.name⟩) missing
  | some other =>
    have has := List.find?_some found
    obtain ⟨spec', inside', same⟩ := List.any_eq_true.mp has
    exact layout.unit_eq (List.mem_of_find?_eq_some found) member inside' inside
      (beq_iff_eq.mp same)

theorem unitAt_eq (layout : Layout extractor.target units) {unit : List (FieldSpec F)} {place : Nat}
    (at_ : units[place]? = some unit) : extractor.unitAt place = unit := by
  unfold unitAt
  rw [layout.generationUnits_eq, List.getD_eq_getElem?_getD, at_, Option.getD_some]

theorem mem_fields_of_unit (layout : Layout extractor.target units) {unit : List (FieldSpec F)}
    (member : unit ∈ units) {spec : FieldSpec F} (inside : spec ∈ unit) :
    spec ∈ extractor.target.fields :=
  layout.fields ▸ List.mem_flatten.mpr ⟨unit, member, inside⟩

theorem mem_unread [SemanticCache C] (layout : Layout extractor.target units) {cache : C}
    {text : String} {place : Nat} :
    place ∈ extractor.unread libraries cache text ↔
      ∃ unit, units[place]? = some unit ∧ extractor.hits libraries cache text unit = none := by
  unfold unread
  rw [layout.generationUnits_eq, List.mem_map]
  constructor
  · rintro ⟨⟨unit, index⟩, member, rfl⟩
    obtain ⟨at_, missing⟩ := List.mem_filter.mp member
    exact ⟨unit, List.mem_zipIdx_iff_getElem?.mp at_, by simpa using missing⟩
  · rintro ⟨unit, at_, missing⟩
    refine ⟨(unit, place), List.mem_filter.mpr ⟨List.mem_zipIdx_iff_getElem?.mpr at_, ?_⟩, rfl⟩
    simpa using missing

/-- The request of a row can be made. -/
theorem exists_request [SemanticCache C] (layout : Layout extractor.target units)
    (typed : ∀ spec ∈ extractor.target.fields, ∃ arrow, spec.ty.arrowType = .ok arrow)
    {cache : C} {row : ρ × Nat} {pending : PendingRow}
    (waits : extractor.waits libraries cache row = some pending) :
    ∃ request, Asks libraries extractor pending request := by
  obtain ⟨text, -, waits⟩ := Option.bind_eq_some_iff.mp waits
  obtain ⟨-, same⟩ := Option.ite_none_left_eq_some.mp waits
  cases same
  have named : ∀ name ∈ extractor.fieldsOf (extractor.unread libraries cache text),
      name ∈ extractor.target.fields.map (·.name) := by
    intro name member
    obtain ⟨place, pending, inside⟩ := List.mem_flatMap.mp member
    obtain ⟨unit, at_, -⟩ := (mem_unread layout).mp pending
    change name ∈ (extractor.unitAt place).map (·.name) at inside
    rw [unitAt_eq layout at_] at inside
    obtain ⟨spec, within, rfl⟩ := List.mem_map.mp inside
    exact List.mem_map_of_mem (mem_fields_of_unit layout (List.mem_of_getElem? at_) within)
  obtain ⟨schema, made⟩ := SemanticType.exists_jsonSchema libraries.floats named typed
  unfold Asks request
  rw [SemanticType.synthesizePrompt, made, SemanticType.select_eq named]
  exact ⟨_, rfl⟩

end Units

/-! ## Cells -/

section Cells

variable [SemanticCache C] (libraries : Libraries F) (extractor : BatchExtractor F ρ ε)

/-- The rows of a batch that wait for an answer. -/
def waiting (cache : C) (batch : List ρ) : List PendingRow :=
  batch.zipIdx.filterMap (extractor.waits libraries cache)

/-- The answer to the request of a row. -/
def answerTo (answers : List (PendingRow × Except ε Completion)) (row : Nat) :
    Option (PendingRow × Except ε Completion) :=
  answers.find? (·.1.row == row)

/-- What a field of a row is answered with. -/
def answered (answers : List (PendingRow × Except ε Completion)) (row : Nat)
    (spec : FieldSpec F) : Option (ScalarValue F) :=
  (answerTo answers row).bind fun answer =>
    (objectOf libraries answer.2).bind fun object =>
      ((object.lookup spec.name).bind (validateField libraries.floats spec.ty)).map
        (scalarFromNormalized libraries.floats spec.ty)

/-- The cell of a field in a row: NULL for a NULL source, else what the cache has of the unit of
the field, else what the row is answered with. -/
def cell (cache : C) (answers : List (PendingRow × Except ε Completion)) (spec : FieldSpec F)
    (index : Nat) (row : ρ) : Option (ScalarValue F) :=
  match extractor.text row with
  | none => none
  | some text =>
    match extractor.hits libraries cache text (extractor.unitOf spec.name) with
    | some hits => hits.lookup spec.name
    | none => answered libraries answers index spec

variable {libraries extractor}

omit [SemanticCache C] in
theorem mem_writesAt {row : Nat} {entries : List (String × ScalarValue F)}
    {write : Grid.Write String (ScalarValue F)} :
    write ∈ writesAt row entries ↔ write.row = row ∧ (write.name, write.value) ∈ entries := by
  unfold writesAt
  rw [List.mem_map]
  constructor
  · rintro ⟨entry, inside, rfl⟩
    exact ⟨rfl, inside⟩
  · rintro ⟨rfl, inside⟩
    exact ⟨_, inside, rfl⟩

omit [SemanticCache C] in
theorem mem_decoded {object : List (String × Value F)} {unit : List (FieldSpec F)} {name : String}
    {scalar : ScalarValue F} :
    (name, scalar) ∈ decoded libraries object unit ↔
      ∃ spec ∈ unit, spec.name = name ∧
        ((object.lookup spec.name).bind (validateField libraries.floats spec.ty)).map
          (scalarFromNormalized libraries.floats spec.ty) = some scalar := by
  unfold decoded
  rw [List.mem_map]
  constructor
  · rintro ⟨entry, inside, same⟩
    obtain ⟨spec, member, found⟩ := List.mem_filterMap.mp inside
    obtain ⟨normalized, validated, rfl⟩ := Option.map_eq_some_iff.mp found
    cases same
    exact ⟨spec, member, rfl, Option.map_eq_some_iff.mpr ⟨normalized, validated, rfl⟩⟩
  · rintro ⟨spec, member, rfl, found⟩
    obtain ⟨normalized, validated, rfl⟩ := Option.map_eq_some_iff.mp found
    refine ⟨(spec, normalized), List.mem_filterMap.mpr ⟨spec, member, ?_⟩, rfl⟩
    exact Option.map_eq_some_iff.mpr ⟨normalized, validated, rfl⟩

theorem mem_waiting {cache : C} {batch : List ρ} {pending : PendingRow} :
    pending ∈ extractor.waiting libraries cache batch ↔
      ∃ row text, batch[pending.row]? = some row ∧ extractor.text row = some text ∧
        extractor.unread libraries cache text ≠ [] ∧
        pending = ⟨pending.row, text, extractor.unread libraries cache text⟩ := by
  unfold waiting
  rw [List.mem_filterMap]
  constructor
  · rintro ⟨⟨row, index⟩, member, waits⟩
    obtain ⟨text, sent, waits⟩ := Option.bind_eq_some_iff.mp waits
    obtain ⟨some_, same⟩ := Option.ite_none_left_eq_some.mp waits
    cases same
    exact ⟨row, text, List.mem_zipIdx_iff_getElem?.mp member, sent, by simpa using some_, rfl⟩
  · rintro ⟨row, text, at_, sent, some_, same⟩
    refine ⟨(row, pending.row), List.mem_zipIdx_iff_getElem?.mpr at_, ?_⟩
    rw [waits, sent, Option.bind_some, if_neg (by simpa using some_), ← same]

/-- A row waits once. -/
theorem nodup_waiting (cache : C) (batch : List ρ) :
    ((extractor.waiting libraries cache batch).map (·.row)).Nodup := by
  have places : (batch.zipIdx.map Prod.snd).Nodup := by
    rw [List.zipIdx_map_snd]
    exact List.nodup_range'
  refine List.Nodup.sublist ?_ places
  unfold waiting
  rw [List.map_filterMap]
  induction batch.zipIdx with
  | nil => exact .slnil
  | cons row rest ih =>
    rw [List.map_cons]
    cases found : extractor.waits libraries cache row with
    | none =>
      rw [List.filterMap_cons_none (by rw [found]; rfl)]
      exact ih.cons _
    | some pending =>
      have named : pending.row = row.2 := by
        obtain ⟨text, -, waits⟩ := Option.bind_eq_some_iff.mp found
        obtain ⟨-, same⟩ := Option.ite_none_left_eq_some.mp waits
        cases same
        rfl
      rw [List.filterMap_cons_some (by rw [found]; rfl), ← named]
      exact ih.cons_cons _

variable {units : List (List (FieldSpec F))} {cache : C} {batch : List ρ}
  {completions : List (Except ε Completion)}

/-- What the first loop writes into a cell. -/
theorem mem_cachedWrites (layout : Layout extractor.target units) {unit : List (FieldSpec F)}
    (member : unit ∈ units) {spec : FieldSpec F} (inside : spec ∈ unit) {index : Nat} {row : ρ}
    (at_ : batch[index]? = some row) {scalar : ScalarValue F} :
    ⟨index, spec.name, scalar⟩ ∈ batch.zipIdx.flatMap (extractor.cachedWrites libraries cache) ↔
      ∃ text hits, extractor.text row = some text ∧
        extractor.hits libraries cache text unit = some hits ∧
        hits.lookup spec.name = some scalar := by
  rw [List.mem_flatMap]
  constructor
  · rintro ⟨⟨row', index'⟩, there, written⟩
    unfold cachedWrites at written
    split at written
    · cases written
    · rename_i text sent
      obtain ⟨unit', member', written⟩ := List.mem_flatMap.mp written
      obtain ⟨rfl, entry⟩ := mem_writesAt.mp written
      rw [layout.generationUnits_eq] at member'
      have row_is := List.mem_zipIdx_iff_getElem?.mp there
      dsimp only at row_is sent entry
      rw [at_, Option.some.injEq] at row_is
      subst row_is
      cases found : extractor.hits libraries cache text unit' with
      | none =>
        rw [found] at entry
        cases entry
      | some hits =>
        rw [found, Option.getD_some] at entry
        have names := readUnit_names found
        have named : spec.name ∈ unit'.map (·.name) := names ▸ List.mem_map_of_mem entry
        obtain ⟨spec', inside', same⟩ := List.mem_map.mp named
        obtain rfl := layout.unit_eq member' member inside' inside same
        have distinct : (hits.map Prod.fst).Nodup := by
          rw [names]
          refine List.Nodup.sublist (List.Sublist.map _ ?_) layout.distinct
          rw [layout.fields]
          exact List.sublist_flatten_of_mem member
        exact ⟨text, hits, sent, found, FirstWrite.lookup_of_nodup distinct entry⟩
  · rintro ⟨text, hits, sent, found, looked⟩
    refine ⟨(row, index), List.mem_zipIdx_iff_getElem?.mpr at_, ?_⟩
    unfold cachedWrites
    dsimp only
    rw [sent]
    dsimp only
    rw [layout.generationUnits_eq, List.mem_flatMap]
    refine ⟨unit, member, mem_writesAt.mpr ⟨rfl, ?_⟩⟩
    rw [found, Option.getD_some]
    obtain ⟨before, after, rfl, -⟩ := List.lookup_eq_some_iff.mp looked
    simp

/-- What the second loop writes into a cell. -/
theorem mem_answerWrites (layout : Layout extractor.target units) {unit : List (FieldSpec F)}
    (member : unit ∈ units) {spec : FieldSpec F} (inside : spec ∈ unit) {index : Nat} {row : ρ}
    (at_ : batch[index]? = some row) {scalar : ScalarValue F} :
    ⟨index, spec.name, scalar⟩ ∈
        ((extractor.waiting libraries cache batch).zip completions).flatMap
          (extractor.answerWrites libraries) ↔
      ∃ text, extractor.text row = some text ∧
        extractor.hits libraries cache text unit = none ∧
        answered libraries ((extractor.waiting libraries cache batch).zip completions) index spec =
          some scalar := by
  have distinct : (((extractor.waiting libraries cache batch).zip completions).map
      fun answer => answer.1.row).Nodup :=
    Numbered.nodup_zip (nodup_waiting cache batch) completions
  rw [List.mem_flatMap]
  constructor
  · rintro ⟨answer, there, written⟩
    unfold answerWrites at written
    split at written
    · cases written
    · rename_i object parsed
      obtain ⟨place, pending, written⟩ := List.mem_flatMap.mp written
      obtain ⟨same, entry⟩ := mem_writesAt.mp written
      obtain ⟨row', text, row_is, sent, -, answer_is⟩ :=
        mem_waiting.mp (List.of_mem_zip there).1
      dsimp only at same entry
      subst same
      rw [at_, Option.some.injEq] at row_is
      subst row_is
      rw [answer_is] at pending
      obtain ⟨unit', place_is, missing⟩ := (mem_unread layout).mp pending
      rw [unitAt_eq layout place_is] at entry
      obtain ⟨spec', inside', same, value⟩ := mem_decoded.mp entry
      obtain rfl := layout.unit_eq (List.mem_of_getElem? place_is) member inside' inside same
      obtain rfl : spec' = spec := by
        have fields := layout.distinct
        exact List.inj_on_of_nodup_map fields (mem_fields_of_unit layout member inside')
          (mem_fields_of_unit layout member inside) same
      refine ⟨text, sent, missing, ?_⟩
      rw [answered, answerTo, Numbered.find?_of_nodup distinct there, Option.bind_some, parsed,
        Option.bind_some, value]
  · rintro ⟨text, sent, missing, value⟩
    obtain ⟨answer, found, value⟩ := Option.bind_eq_some_iff.mp value
    obtain ⟨object, parsed, value⟩ := Option.bind_eq_some_iff.mp value
    unfold answerTo at found
    have there := List.mem_of_find?_eq_some found
    have same := List.find?_some found
    rw [beq_iff_eq] at same
    refine ⟨answer, there, ?_⟩
    obtain ⟨row', text', row_is, sent', -, answer_is⟩ := mem_waiting.mp (List.of_mem_zip there).1
    rw [same, at_, Option.some.injEq] at row_is
    subst row_is
    rw [sent, Option.some.injEq] at sent'
    subst sent'
    obtain ⟨place, place_is⟩ := List.getElem?_of_mem member
    unfold answerWrites
    rw [parsed]
    dsimp only
    rw [List.mem_flatMap]
    refine ⟨place, ?_, mem_writesAt.mpr ⟨same.symm, ?_⟩⟩
    · rw [answer_is]
      exact (mem_unread layout).mpr ⟨unit, place_is, missing⟩
    · rw [unitAt_eq layout place_is]
      exact mem_decoded.mpr ⟨spec, inside, rfl, value⟩

end Cells

/-! ## Columns -/

section Columns

theorem init_apply {fields : List (FieldSpec F)} {rows : Nat} {name : String}
    (named : name ∈ fields.map (·.name)) :
    Values.init fields rows name = some (.replicate rows none) := by
  unfold Values.init
  generalize (fun _ => none : Values F) = values
  induction fields generalizing values with
  | nil => cases named
  | cons spec rest ih =>
    rw [List.foldl_cons]
    by_cases later : name ∈ rest.map (·.name)
    · exact ih later _
    · obtain rfl : name = spec.name := by
        rcases List.mem_cons.mp named with same | inside
        · exact same
        · exact absurd inside later
      clear ih named
      have kept : ∀ values : Values F, (rest.foldl (fun (values : Values F) (other : FieldSpec F) =>
          Function.update values other.name (some (List.replicate rows none))) values) spec.name =
          values spec.name := by
        induction rest with
        | nil => exact fun _ => rfl
        | cons first others ih =>
          intro values
          rw [List.map_cons, List.mem_cons, not_or] at later
          rw [List.foldl_cons, ih later.2, Function.update_of_ne later.1]
      rw [kept, Function.update_self]

/-- Every column is removed once where the names are distinct. -/
theorem take_eq {fields : List (FieldSpec F)} (distinct : (fields.map (·.name)).Nodup)
    (values : Values F) : values.take fields = fields.map fun spec => values spec.name := by
  induction fields generalizing values with
  | nil => rfl
  | cons spec rest ih =>
    rw [List.map_cons, List.nodup_cons] at distinct
    rw [Values.take, List.map_cons, ih distinct.2]
    congr 1
    refine List.map_congr_left fun spec' member => ?_
    apply Function.update_of_ne
    intro same
    exact distinct.1 (same ▸ List.mem_map_of_mem member)

theorem mapIdx_eq_map_range {α β : Type*} (items : List α) (f : Nat → α → Option β) :
    (List.range items.length).map (fun index => items[index]?.bind (f index)) = items.mapIdx f := by
  refine List.ext_getElem? fun index => ?_
  rw [List.getElem?_map, List.getElem?_mapIdx]
  by_cases within : index < items.length
  · rw [List.getElem?_range within, Option.map_some, List.getElem?_eq_getElem within,
      Option.map_some, Option.bind_some]
  · have beyond := Nat.le_of_not_lt within
    rw [List.getElem?_eq_none (by simpa using beyond), List.getElem?_eq_none beyond]
    rfl

end Columns

/-! ## The batch -/

section Batch

variable [SemanticCache C] (libraries : Libraries F) (extractor : BatchExtractor F ρ ε)

/-- The answers that a batch gets, beside the rows that wait for them. -/
def answers (cache : C) (batch : List ρ) (requests : List CompletionRequest) :
    List (PendingRow × Except ε Completion) :=
  (extractor.waiting libraries cache batch).zip (extractor.model.complete requests)

/-- The columns that a batch gets. -/
def columns (cache : C) (batch : List ρ) (requests : List CompletionRequest) :
    List (Option (Column F)) :=
  extractor.target.fields.map fun spec =>
    some (batch.mapIdx
      (extractor.cell libraries cache (extractor.answers libraries cache batch requests) spec))

/-- What a batch leaves behind: one request for each row that waits, and the groups that the
answers put into the cache after it was read. -/
structure Extracted (cache : C) (batch : List ρ) (final : ExtractState F C) : Prop where
  requests : List.Forall₂ (Asks libraries extractor) (extractor.waiting libraries cache batch)
    final.requests
  rowsFailed : final.rowsFailed =
    (extractor.answers libraries cache batch final.requests).countP fun answer =>
      (objectOf libraries answer.2).isNone
  cache : ∃ read, Reads cache read ∧ final.cache = putAllGroups read
    ((extractor.answers libraries cache batch final.requests).flatMap
      (extractor.answerGroups libraries))

variable {libraries extractor} [LawfulSemanticCache C] {units : List (List (FieldSpec F))}

variable (libraries) in
theorem extractBatch_extracted (layout : Layout extractor.target units)
    (typed : ∀ spec ∈ extractor.target.fields, ∃ arrow, spec.ty.arrowType = .ok arrow)
    (cache : C) (batch : List ρ) :
    ∃ final, extractor.extractBatch libraries batch cache =
        .ok (extractor.columns libraries cache batch final.requests, final) ∧
      Extracted libraries extractor cache batch final := by
  unfold extractBatch
  dsimp only
  cases batch with
  | nil =>
    exact ⟨_, rfl, .nil, rfl, cache, .refl cache, rfl⟩
  | cons row rest =>
    rw [if_neg (by simp)]
    obtain ⟨arrows, has⟩ := Fallible.mapM_ok_iff.mpr typed
    rw [has]
    dsimp only
    generalize row :: rest = batch
    have askable : ∀ row ∈ batch.zipIdx, ∀ pending,
        extractor.waits libraries cache row = some pending →
          ∃ request, Asks libraries extractor pending request :=
      fun _ _ _ waits => exists_request layout typed waits
    obtain ⟨looked, loop, done⟩ := foldlM_lookUp libraries extractor
      ⟨.init extractor.target.fields batch.length, [], [], 0, 0, 0, cache⟩ rfl askable
    obtain ⟨requests, requested, asks⟩ := done.requests
    have pending : looked.pending = extractor.waiting libraries cache batch := done.pending
    rw [List.nil_append] at requested
    obtain ⟨failed, second⟩ := foldl_applyAnswer libraries extractor looked
      (looked.pending.zip (extractor.model.complete looked.requests))
    rw [loop]
    dsimp only [Except.map]
    rw [second]
    rw [pending]
    refine ⟨_, congrArg Except.ok (Prod.ext ?_ rfl), ?_, ?_, looked.cache, done.cache, rfl⟩
    · dsimp only
      rw [take_eq layout.distinct]
      refine List.map_congr_left fun spec member => ?_
      obtain ⟨unit, among, inside⟩ := List.mem_flatten.mp (layout.fields ▸ member)
      rw [done.values, ← Grid.writeAll_append]
      rw [← mapIdx_eq_map_range]
      refine Grid.writeAll_empty (init_apply (List.mem_map_of_mem member)) ?_
      intro index within scalar
      rw [List.getElem?_eq_getElem within, Option.bind_some, List.mem_append,
        mem_cachedWrites layout among inside (List.getElem?_eq_getElem within),
        mem_answerWrites layout among inside (List.getElem?_eq_getElem within)]
      unfold cell
      rw [unitOf_eq layout among inside]
      cases sent : extractor.text batch[index] with
      | none => simp
      | some text =>
        cases found : extractor.hits libraries cache text unit with
        | none => simp [found, answers]
        | some hits => simp [found]
    · rw [requested]
      exact asks
    · rw [done.rowsFailed, Nat.zero_add]
      rfl

variable (libraries) in
/-- A batch succeeds with one column for each field, whose cells are as `cell` says. A row asks
once where the cache lacks a unit of it, for the fields of those units; a row whose answer holds
no object counts as failed. -/
theorem extractBatch_cells (layout : Layout extractor.target units)
    (typed : ∀ spec ∈ extractor.target.fields, ∃ arrow, spec.ty.arrowType = .ok arrow)
    (cache : C) (batch : List ρ) :
    ∃ final, extractor.extractBatch libraries batch cache =
        .ok (extractor.target.fields.map fun spec => some (batch.mapIdx (extractor.cell libraries
          cache (extractor.answers libraries cache batch final.requests) spec)), final) ∧
      List.Forall₂ (fun pending request =>
          extractor.request libraries (extractor.fieldsOf pending.pendingUnits) pending.text =
            .ok request)
        (extractor.waiting libraries cache batch) final.requests ∧
      (∀ pending, pending ∈ extractor.waiting libraries cache batch ↔
        ∃ row text, batch[pending.row]? = some row ∧ extractor.text row = some text ∧
          extractor.unread libraries cache text ≠ [] ∧
          pending = ⟨pending.row, text, extractor.unread libraries cache text⟩) ∧
      final.rowsFailed =
        (extractor.answers libraries cache batch final.requests).countP fun answer =>
          (objectOf libraries answer.2).isNone := by
  obtain ⟨final, result, extracted⟩ :=
    extractBatch_extracted libraries layout typed cache batch
  exact ⟨final, result, extracted.requests, fun _ => mem_waiting, extracted.rowsFailed⟩

end Batch

section Example

def whoSpec : FieldSpec Int := ⟨"who", .text, "who it is about"⟩

def moodSpec : FieldSpec Int := ⟨"mood", .level ["low", "high"], "how it ended"⟩

/-- Who said it and how it ended, a unit each, and a model that finds nothing. -/
def notesExtractor : BatchExtractor Int (Option String) Unit where
  text := id
  target := ⟨"Notes", "1", [whoSpec, moodSpec], []⟩
  model := ⟨⟨"model"⟩, fun requests => requests.map fun _ => .ok ⟨"no facts", 0, 0⟩⟩

theorem notes_layout : Layout notesExtractor.target [[whoSpec], [moodSpec]] where
  fields := rfl
  together := rfl
  nonempty := by decide
  distinct := by decide

theorem notes_typed :
    ∀ spec ∈ notesExtractor.target.fields, ∃ arrow, spec.ty.arrowType = .ok arrow := by
  simp [notesExtractor, whoSpec, moodSpec, FieldType.arrowType]

/-- Texts that are all their own digest, and none of them JSON. -/
def notesLibraries : Libraries Int where
  blake3 bytes := bytes
  floats := ⟨fun n => n, fun x y => decide (x ≤ y), fun _ => true, fun x => x.repr⟩
  json := ⟨fun _ => none, fun value => value.asStr.getD ""⟩

/-- A NULL and a text through an empty cache: the text is asked about, and no answer is read. -/
theorem notes_cells :
    ∃ final, notesExtractor.extractBatch notesLibraries [none, some "minutes"]
        InMemoryCache.default = .ok ([whoSpec, moodSpec].map fun spec =>
          some ([none, some "minutes"].mapIdx (notesExtractor.cell notesLibraries
            InMemoryCache.default (notesExtractor.answers notesLibraries InMemoryCache.default
              [none, some "minutes"] final.requests) spec)), final) ∧
      final.requests.length = 1 ∧ final.rowsFailed = 1 := by
  obtain ⟨final, result, requests, -, rowsFailed⟩ := extractBatch_cells notesLibraries notes_layout
    notes_typed InMemoryCache.default [none, some "minutes"]
  have waits : (notesExtractor.waiting notesLibraries InMemoryCache.default
      [none, some "minutes"]).length = 1 := rfl
  have asked : final.requests.length = 1 := requests.length_eq.symm.trans waits
  have unread : ∀ answer : PendingRow × Except Unit Completion,
      (objectOf notesLibraries answer.2).isNone = true := by
    rintro ⟨row, failed | completion⟩ <;> rfl
  refine ⟨final, result, asked, ?_⟩
  rw [rowsFailed, List.countP_eq_length.mpr fun answer _ => unread answer, answers,
    List.length_zip, waits]
  simp [notesExtractor, asked]

end Example

end BatchExtractor

end Semcast.Extract
