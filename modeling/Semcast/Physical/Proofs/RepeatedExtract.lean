import Semcast.Physical.Proofs.Decoding
import Semcast.Physical.Proofs.ExtractedCells
import Semcast.Physical.Proofs.UnitReads

/-!
# Extracting again

A second extraction over the same texts, of the same type or of fewer of its units, reads what
the first one put. It asks again for a unit of a text exactly where the cache did not have the
unit and no answer about the text validated all of it; and where rows of one text are answered
alike, the cells of every other unit come back as they were.
-/

namespace Semcast.Extract

open Model Cache Json Semcast.Types LawfulSemanticCache WritePolicy

variable {F ρ ε C : Type*} {libraries : Libraries F}

section Reads

variable [SemanticCache C] [LawfulSemanticCache C] {extractor : Extractor}

/-- A unit whose entries all parse is read. -/
theorem readFields_isSome {unit : List (FieldSpec F)} {text : String} {specs : List (FieldSpec F)}
    {cache : C} (held : ∀ spec ∈ specs, ∃ raw normalized,
      answer cache (cacheKey libraries extractor unit spec.name text) = some (.value raw) ∧
        libraries.json.fromStr raw = some normalized) :
    (readFields libraries extractor unit text specs cache).1.isSome := by
  induction specs generalizing cache with
  | nil => rfl
  | cons spec rest ih =>
    obtain ⟨⟨raw, normalized, here, parses⟩, others⟩ := List.forall_mem_cons.mp held
    have got := (answer_get cache (cacheKey libraries extractor unit spec.name text)).trans here
    have later : (readFields libraries extractor unit text rest (SemanticCache.get cache
        (cacheKey libraries extractor unit spec.name text)).2).1.isSome := by
      refine ih fun spec' member => ?_
      rw [answer_after_get]
      exact others spec' member
    simp only [readFields, got, parses]
    rw [Option.isSome_map]
    exact later

end Reads

namespace BatchExtractor

variable [SemanticCache C] [WritesGroups C] (libraries : Libraries F)
  (extractor : BatchExtractor F ρ ε) (units : List (List (FieldSpec F)))

/-- An answer about the text validates every field of the unit. -/
def Validated (answers : List (PendingRow × Except ε Completion)) (text : String)
    (unit : List (FieldSpec F)) : Prop :=
  ∃ answer ∈ answers, answer.1.text = text ∧ ∃ object, objectOf libraries answer.2 = some object ∧
    ∀ spec ∈ unit, (decodeField libraries object spec).isSome

/-- The texts of a batch. -/
def texts (batch : List ρ) : List String :=
  batch.filterMap extractor.text

/-- The slot of a field. -/
def fieldSlot (unit : List (FieldSpec F)) (spec : FieldSpec F) (text : String) : Slot C :=
  slot (cacheKey libraries extractor.toExtractor unit spec.name text)

/-- Fields and texts have slots of their own. -/
def SlotsApart (C : Type*) [SemanticCache C] [WritesGroups C] (batch : List ρ) : Prop :=
  ∀ unit ∈ units, ∀ spec ∈ unit, ∀ unit' ∈ units, ∀ spec' ∈ unit',
    ∀ text ∈ extractor.texts batch, ∀ text' ∈ extractor.texts batch,
      (extractor.fieldSlot libraries unit spec text : Slot C) =
          extractor.fieldSlot libraries unit' spec' text' →
        spec.name = spec'.name ∧ text = text'

/-- No entry is in the way of a unit that has to be asked for. -/
def Unobstructed (cache : C) (batch : List ρ) : Prop :=
  ∀ text ∈ extractor.texts batch, ∀ unit ∈ units,
    extractor.hits libraries cache text unit = none →
      ∀ spec ∈ unit, Open cache (extractor.fieldSlot libraries unit spec text)

/-- What is put for these answers parses as what was printed. -/
def Reparses (answers : List (PendingRow × Except ε Completion)) : Prop :=
  ∀ answer ∈ answers, ∀ object, objectOf libraries answer.2 = some object →
    ∀ unit ∈ units, ∀ decoded ∈ unit.filterMap (decodeField libraries object),
      libraries.json.fromStr (libraries.json.toString decoded.2) = some decoded.2

/-- Rows of one text are answered alike. -/
def AnsweredAlike (answers : List (PendingRow × Except ε Completion)) : Prop :=
  ∀ answer ∈ answers, ∀ answer' ∈ answers, answer.1.text = answer'.1.text →
    objectOf libraries answer.2 = objectOf libraries answer'.2

/-! ## What the first run puts -/

section Puts

variable {libraries extractor units} {cache : C} {batch : List ρ}
  {requests : List CompletionRequest}

theorem unitEntries_eq_some {unit : List (FieldSpec F)} {object : List (String × Value F)}
    (valid : ∀ spec ∈ unit, (decodeField libraries object spec).isSome) (text : String) :
    unitEntries libraries extractor.toExtractor unit object text =
      some ((unit.filterMap (decodeField libraries object)).map fun decoded =>
        (cacheKey libraries extractor.toExtractor unit decoded.1.name text,
          .value (libraries.json.toString decoded.2))) :=
  if_pos (List.all_eq_true.mpr valid)

theorem valid_of_unitEntries {unit : List (FieldSpec F)} {object : List (String × Value F)}
    {text : String} {entries : List (CacheKey × CachedValue)}
    (put : unitEntries libraries extractor.toExtractor unit object text = some entries) :
    ∀ spec ∈ unit, (decodeField libraries object spec).isSome := by
  unfold unitEntries at put
  exact List.all_eq_true.mp (Option.ite_none_right_eq_some.mp put).1

/-- The entries that a batch puts. -/
def puts (libraries : Libraries F) (extractor : BatchExtractor F ρ ε)
    (answers : List (PendingRow × Except ε Completion)) : List (CacheKey × CachedValue) :=
  (answers.flatMap (extractor.answerGroups libraries)).flatten

omit [WritesGroups C] in
theorem mem_texts_of_waiting {pending : PendingRow}
    (waits : pending ∈ extractor.waiting libraries cache batch) :
    pending.text ∈ extractor.texts batch ∧
      pending.pendingUnits = extractor.unread libraries cache pending.text := by
  obtain ⟨row, text, at_, sent, -, same⟩ := mem_waiting.mp waits
  rw [same]
  exact ⟨List.mem_filterMap.mpr ⟨row, List.mem_of_getElem? at_, sent⟩, rfl⟩

omit [WritesGroups C] in
theorem mem_puts (layout : Layout extractor.target units) {entry : CacheKey × CachedValue} :
    entry ∈ puts libraries extractor (extractor.answers libraries cache batch requests) ↔
      ∃ answer ∈ extractor.answers libraries cache batch requests, ∃ object,
        objectOf libraries answer.2 = some object ∧ ∃ unit ∈ units,
          extractor.hits libraries cache answer.1.text unit = none ∧ ∃ entries,
            unitEntries libraries extractor.toExtractor unit object answer.1.text = some entries ∧
              entry ∈ entries := by
  unfold puts
  rw [List.mem_flatten]
  constructor
  · rintro ⟨entries, group, inside⟩
    obtain ⟨answer, member, group⟩ := List.mem_flatMap.mp group
    unfold answerGroups at group
    split at group
    · cases group
    · rename_i object parsed
      obtain ⟨place, pending, put⟩ := List.mem_filterMap.mp group
      rw [(mem_texts_of_waiting (List.of_mem_zip member).1).2] at pending
      obtain ⟨unit, place_is, missing⟩ := (mem_unread layout).mp pending
      rw [unitGroup, unitAt_eq layout place_is] at put
      exact ⟨answer, member, object, parsed, unit, List.mem_of_getElem? place_is, missing, entries,
        put, inside⟩
  · rintro ⟨answer, member, object, parsed, unit, among, missing, entries, put, inside⟩
    obtain ⟨place, place_is⟩ := List.getElem?_of_mem among
    refine ⟨entries, List.mem_flatMap.mpr ⟨answer, member, ?_⟩, inside⟩
    unfold answerGroups
    rw [parsed]
    dsimp only
    refine List.mem_filterMap.mpr ⟨place, ?_, ?_⟩
    · rw [(mem_texts_of_waiting (List.of_mem_zip member).1).2]
      exact (mem_unread layout).mpr ⟨unit, place_is, missing⟩
    · rw [unitGroup, unitAt_eq layout place_is, put]

/-- An entry that goes into the slot of a field is about the same field and text, and comes from
an answer that validates the unit. -/
theorem puts_into (layout : Layout extractor.target units)
    (apart : extractor.SlotsApart libraries units C batch) {text : String}
    (about : text ∈ extractor.texts batch) {unit : List (FieldSpec F)} (member : unit ∈ units)
    {spec : FieldSpec F} (inside : spec ∈ unit) {entry : CacheKey × CachedValue}
    (put : entry ∈ puts libraries extractor (extractor.answers libraries cache batch requests))
    (same : slot entry.1 = (extractor.fieldSlot libraries unit spec text : Slot C)) :
    ∃ answer ∈ extractor.answers libraries cache batch requests, answer.1.text = text ∧
      extractor.hits libraries cache text unit = none ∧
      ∃ object, objectOf libraries answer.2 = some object ∧
        (∀ spec ∈ unit, (decodeField libraries object spec).isSome) ∧
        ∃ normalized, decodeField libraries object spec = some (spec, normalized) ∧
          entry.2 = .value (libraries.json.toString normalized) := by
  obtain ⟨answer, answered, object, parsed, unit', member', missing, entries, whole, within⟩ :=
    (mem_puts layout).mp put
  have valid := valid_of_unitEntries whole
  rw [unitEntries_eq_some valid] at whole
  cases whole
  obtain ⟨decoded, decodes, rfl⟩ := List.mem_map.mp within
  obtain ⟨spec', inside', found⟩ := List.mem_filterMap.mp decodes
  obtain ⟨normalized, validated, rfl⟩ := Option.map_eq_some_iff.mp found
  obtain ⟨named, rfl⟩ := apart unit' member' spec' inside' unit member spec inside answer.1.text
    (mem_texts_of_waiting (List.of_mem_zip answered).1).1 text about same
  obtain rfl := layout.unit_eq member' member inside' inside named
  obtain rfl : spec' = spec := List.inj_on_of_nodup_map layout.distinct
    (mem_fields_of_unit layout member inside') (mem_fields_of_unit layout member inside) named
  exact ⟨answer, answered, rfl, missing, object, parsed, valid, normalized, found, rfl⟩

/-- What the cache holds once a batch is through. -/
theorem Extracted.lookup_eq {final : ExtractState F C}
    (extracted : Extracted libraries extractor cache batch final) :
    ∃ read, Reads cache read ∧ lookup final.cache = lookup (putAll read
      (puts libraries extractor (extractor.answers libraries cache batch final.requests))) := by
  obtain ⟨read, reads, same⟩ := extracted.cache
  refine ⟨read, reads, ?_⟩
  rw [same]
  exact (putAllGroups_eq read _).1

variable {final : ExtractState F C} {text : String} {unit : List (FieldSpec F)}

/-- A unit that the cache has, or that no answer validates, stays as it is. -/
theorem hits_kept (extracted : Extracted libraries extractor cache batch final)
    (layout : Layout extractor.target units)
    (apart : extractor.SlotsApart libraries units C batch)
    (about : text ∈ extractor.texts batch) (member : unit ∈ units)
    (settled : extractor.hits libraries cache text unit = none →
      ¬ Validated libraries (extractor.answers libraries cache batch final.requests) text unit) :
    extractor.hits libraries final.cache text unit = extractor.hits libraries cache text unit := by
  obtain ⟨read, reads, same⟩ := extracted.lookup_eq
  refine readUnit_fst_congr fun spec inside => ?_
  rw [Cache.answer, same, lookup_putAll_of_ne, reads.lookup_eq, Cache.answer]
  intro entry put into
  obtain ⟨answer, answered, texted, missing, object, parsed, valid, -⟩ :=
    puts_into layout apart about member inside put into.symm
  exact settled missing ⟨answer, answered, texted, object, parsed, valid⟩

omit [WritesGroups C] in
/-- An answer that validates a unit puts an entry for each of its fields. -/
theorem exists_put (layout : Layout extractor.target units) (member : unit ∈ units)
    (missing : extractor.hits libraries cache text unit = none)
    {answer : PendingRow × Except ε Completion}
    (answered : answer ∈ extractor.answers libraries cache batch requests)
    (texted : answer.1.text = text) {object : List (String × Value F)}
    (parsed : objectOf libraries answer.2 = some object)
    (valid : ∀ spec ∈ unit, (decodeField libraries object spec).isSome) {spec : FieldSpec F}
    (inside : spec ∈ unit) {normalized : Value F}
    (decodes : decodeField libraries object spec = some (spec, normalized)) :
    (cacheKey libraries extractor.toExtractor unit spec.name text,
        .value (libraries.json.toString normalized)) ∈
      puts libraries extractor (extractor.answers libraries cache batch requests) := by
  subst texted
  refine (mem_puts layout).mpr ⟨answer, answered, object, parsed, unit, member, missing, _,
    unitEntries_eq_some valid _, ?_⟩
  exact List.mem_map.mpr ⟨_, List.mem_filterMap.mpr ⟨spec, inside, decodes⟩, rfl⟩

theorem exists_normalized {object : List (String × Value F)} {spec : FieldSpec F}
    (valid : (decodeField libraries object spec).isSome) :
    ∃ normalized, decodeField libraries object spec = some (spec, normalized) := by
  obtain ⟨decoded, found⟩ := Option.isSome_iff_exists.mp valid
  obtain ⟨normalized, -, rfl⟩ := Option.map_eq_some_iff.mp found
  exact ⟨normalized, found⟩

/-- A unit that an answer validates is read from then on. -/
theorem hits_of_validated (extracted : Extracted libraries extractor cache batch final)
    (layout : Layout extractor.target units)
    (apart : extractor.SlotsApart libraries units C batch)
    (unobstructed : extractor.Unobstructed libraries units cache batch)
    (reparses : Reparses libraries units
      (extractor.answers libraries cache batch final.requests))
    (about : text ∈ extractor.texts batch) (member : unit ∈ units)
    (missing : extractor.hits libraries cache text unit = none)
    (validated :
      Validated libraries (extractor.answers libraries cache batch final.requests) text unit) :
    (extractor.hits libraries final.cache text unit).isSome := by
  obtain ⟨read, reads, same⟩ := extracted.lookup_eq
  obtain ⟨answer, answered, texted, object, parsed, valid⟩ := validated
  refine readFields_isSome fun spec inside => ?_
  obtain ⟨normalized, decodes⟩ := exists_normalized (valid spec inside)
  have put := exists_put layout member missing answered texted parsed valid inside decodes
  have taken := ((unobstructed text about unit member missing spec inside).reads reads).takes
  obtain ⟨entry, among, into, held⟩ := exists_lookup_putAll taken ⟨_, put, rfl⟩
  obtain ⟨answer', answered', -, -, object', parsed', -, normalized', decodes', value⟩ :=
    puts_into layout apart about member inside among into
  refine ⟨_, normalized', ?_, reparses answer' answered' object' parsed' unit member _
    (List.mem_filterMap.mpr ⟨spec, inside, decodes'⟩)⟩
  rw [Cache.answer, same, ← value]
  exact held

/-- Where rows of one text are answered alike, a unit is read as it was answered. -/
theorem hits_of_alike (extracted : Extracted libraries extractor cache batch final)
    (layout : Layout extractor.target units)
    (apart : extractor.SlotsApart libraries units C batch)
    (unobstructed : extractor.Unobstructed libraries units cache batch)
    (reparses : Reparses libraries units
      (extractor.answers libraries cache batch final.requests))
    (alike : AnsweredAlike libraries (extractor.answers libraries cache batch final.requests))
    (about : text ∈ extractor.texts batch) (member : unit ∈ units)
    (missing : extractor.hits libraries cache text unit = none)
    {answer : PendingRow × Except ε Completion}
    (answered : answer ∈ extractor.answers libraries cache batch final.requests)
    (texted : answer.1.text = text) {object : List (String × Value F)}
    (parsed : objectOf libraries answer.2 = some object)
    (valid : ∀ spec ∈ unit, (decodeField libraries object spec).isSome) :
    extractor.hits libraries final.cache text unit = some (decoded libraries object unit) := by
  obtain ⟨read, reads, same⟩ := extracted.lookup_eq
  refine readUnit_of_applyUnit (unitEntries_eq_some valid text)
    (reparses answer answered object parsed unit member) ?_ final.cache
  intro entry within
  obtain ⟨⟨spec, normalized⟩, decodes, rfl⟩ := List.mem_map.mp within
  obtain ⟨spec', inside, found⟩ := List.mem_filterMap.mp decodes
  obtain ⟨_, -, same'⟩ := Option.map_eq_some_iff.mp found
  obtain rfl : spec' = spec := congrArg Prod.fst same'
  have taken := ((unobstructed text about unit member missing spec' inside).reads reads).takes
  rw [Cache.answer, same]
  refine lookup_putAll_of_agree taken
    ⟨_, exists_put layout member missing answered texted parsed valid inside found, rfl⟩ ?_
  intro entry among into
  obtain ⟨answer', answered', texted', -, object', parsed', -, normalized', decodes', value⟩ :=
    puts_into layout apart about member inside among into.symm
  have both := alike answer answered answer' answered' (texted.trans texted'.symm)
  rw [parsed, parsed', Option.some.injEq] at both
  subst both
  rw [found, Option.some.injEq, Prod.mk.injEq] at decodes'
  rw [value, decodes'.2]

end Puts

/-! ## The second run -/

section Again

variable {libraries extractor units} {ρ' ε' : Type*} {again : BatchExtractor F ρ' ε'}
  {kept : List (List (FieldSpec F))}

/-- The cell of a field at a row of the columns that a batch got. -/
def cellOf (extractor : BatchExtractor F ρ ε) (columns : List (Option (Column F))) (name : String)
    (index : Nat) : Option (ScalarValue F) :=
  ((((extractor.target.fields.map (·.name)).zip columns).lookup name).join.bind
    (·[index]?)).join

omit [WritesGroups C] in
theorem cellOf_columns (layout : Layout extractor.target units) {cache : C} {batch : List ρ}
    {requests : List CompletionRequest} {spec : FieldSpec F}
    (declared : spec ∈ extractor.target.fields)
    {index : Nat} {row : ρ} (at_ : batch[index]? = some row) :
    extractor.cellOf (extractor.columns libraries cache batch requests) spec.name index =
      extractor.cell libraries cache (extractor.answers libraries cache batch requests) spec index
        row := by
  have pairs : (extractor.target.fields.map (·.name)).zip
      (extractor.columns libraries cache batch requests) =
      extractor.target.fields.map fun spec => (spec.name, some (batch.mapIdx (extractor.cell
        libraries cache (extractor.answers libraries cache batch requests) spec))) := by
    rw [columns, List.zip_map']
  have distinct : ((extractor.target.fields.map fun spec => (spec.name, some (batch.mapIdx
      (extractor.cell libraries cache (extractor.answers libraries cache batch requests)
        spec)))).map Prod.fst).Nodup := by
    rw [List.map_map]
    exact layout.distinct
  have found := FirstWrite.lookup_of_nodup distinct (List.mem_map_of_mem declared)
  unfold cellOf
  rw [pairs, found]
  simp [at_]

/-- The unit needs no call in the second run: the cache had it, or an answer validated it. -/
def Settled (libraries : Libraries F) (extractor : BatchExtractor F ρ ε) (cache : C)
    (answers : List (PendingRow × Except ε Completion)) (text : String)
    (unit : List (FieldSpec F)) : Prop :=
  extractor.hits libraries cache text unit ≠ none ∨ Validated libraries answers text unit

variable {cache : C} {batch : List ρ} {final : ExtractState F C} {text : String}
  {unit : List (FieldSpec F)}

theorem hits_ne_none_iff (extracted : Extracted libraries extractor cache batch final)
    (layout : Layout extractor.target units)
    (apart : extractor.SlotsApart libraries units C batch)
    (unobstructed : extractor.Unobstructed libraries units cache batch)
    (reparses : Reparses libraries units
      (extractor.answers libraries cache batch final.requests))
    (about : text ∈ extractor.texts batch) (member : unit ∈ units) :
    extractor.hits libraries final.cache text unit ≠ none ↔
      Settled libraries extractor cache (extractor.answers libraries cache batch final.requests)
        text unit := by
  unfold Settled
  by_cases missing : extractor.hits libraries cache text unit = none
  · by_cases validated : Validated libraries
        (extractor.answers libraries cache batch final.requests) text unit
    · have read := hits_of_validated extracted layout apart unobstructed reparses about member
        missing validated
      simp [validated, Option.isSome_iff_ne_none.mp read]
    · rw [hits_kept extracted layout apart about member fun _ => validated]
      simp [missing, validated]
  · rw [hits_kept extracted layout apart about member fun none => absurd none missing]
    simp [missing]

omit [WritesGroups C] in
/-- Every row that waits is answered. -/
theorem Extracted.exists_answer (extracted : Extracted libraries extractor cache batch final)
    (complete : (extractor.model.complete final.requests).length = final.requests.length)
    {pending : PendingRow} (waits : pending ∈ extractor.waiting libraries cache batch) :
    ∃ answer ∈ extractor.answers libraries cache batch final.requests, answer.1 = pending := by
  obtain ⟨place, place_is⟩ := List.getElem?_of_mem waits
  have within : place < (extractor.model.complete final.requests).length := by
    rw [complete, ← extracted.requests.length_eq]
    exact (List.getElem?_eq_some_iff.mp place_is).1
  have placed : (extractor.answers libraries cache batch final.requests)[place]? =
      some (pending, (extractor.model.complete final.requests)[place]) :=
    List.getElem?_zip_eq_some.mpr ⟨place_is, List.getElem?_eq_getElem within⟩
  exact ⟨_, List.mem_of_getElem? placed, rfl⟩

omit [SemanticCache C] [WritesGroups C] in
/-- The value of a field of a unit that validated. -/
theorem lookup_decoded (layout : Layout extractor.target units) (member : unit ∈ units)
    {spec : FieldSpec F} (inside : spec ∈ unit) {object : List (String × Value F)}
    (valid : ∀ spec ∈ unit, (decodeField libraries object spec).isSome) :
    (decoded libraries object unit).lookup spec.name =
      ((object.lookup spec.name).bind (validateField libraries.floats spec.ty)).map
        (scalarFromNormalized libraries.floats spec.ty) := by
  obtain ⟨normalized, decodes⟩ := exists_normalized (valid spec inside)
  obtain ⟨_, validated, same⟩ := Option.map_eq_some_iff.mp decodes
  cases same
  rw [validated, Option.map_some]
  have entry : (spec.name, scalarFromNormalized libraries.floats spec.ty normalized) ∈
      decoded libraries object unit :=
    mem_decoded.mpr ⟨spec, inside, rfl, by rw [validated, Option.map_some]⟩
  refine FirstWrite.lookup_of_nodup ?_ entry
  have names : (decoded libraries object unit).map Prod.fst = unit.map (·.name) := by
    conv_rhs => rw [← filterMap_decodeField valid]
    rw [decoded, List.map_map, List.map_map]
    rfl
  rw [names]
  refine List.Nodup.sublist (List.Sublist.map _ ?_) layout.distinct
  rw [layout.fields]
  exact List.sublist_flatten_of_mem member

/-- A settled unit is read as the first run had it, where rows of one text are answered alike. -/
theorem hits_eq_cell (extracted : Extracted libraries extractor cache batch final)
    (layout : Layout extractor.target units)
    (apart : extractor.SlotsApart libraries units C batch)
    (unobstructed : extractor.Unobstructed libraries units cache batch)
    (reparses : Reparses libraries units
      (extractor.answers libraries cache batch final.requests))
    (alike : AnsweredAlike libraries (extractor.answers libraries cache batch final.requests))
    (complete : (extractor.model.complete final.requests).length = final.requests.length)
    {index : Nat} {row : ρ} (at_ : batch[index]? = some row)
    (sent : extractor.text row = some text) (member : unit ∈ units)
    (settled : Settled libraries extractor cache
      (extractor.answers libraries cache batch final.requests) text unit)
    {spec : FieldSpec F} (inside : spec ∈ unit) :
    (extractor.hits libraries final.cache text unit).bind (·.lookup spec.name) =
      extractor.cell libraries cache (extractor.answers libraries cache batch final.requests) spec
        index row := by
  have about : text ∈ extractor.texts batch :=
    List.mem_filterMap.mpr ⟨row, List.mem_of_getElem? at_, sent⟩
  unfold cell
  rw [sent, unitOf_eq layout member inside]
  dsimp only
  cases had : extractor.hits libraries cache text unit with
  | some hits =>
    rw [hits_kept extracted layout apart about member fun none => by simp [had] at none, had,
      Option.bind_some]
  | none =>
    obtain ⟨answer, answered, texted, object, parsed, valid⟩ :=
      settled.resolve_left (not_not_intro had)
    rw [hits_of_alike extracted layout apart unobstructed reparses alike about member had answered
      texted parsed valid, Option.bind_some]
    -- The row waits itself, so that it has an answer of its own.
    have waits : (⟨index, text, extractor.unread libraries cache text⟩ : PendingRow) ∈
        extractor.waiting libraries cache batch := by
      obtain ⟨place, place_is⟩ := List.getElem?_of_mem member
      have unread : place ∈ extractor.unread libraries cache text :=
        (mem_unread layout).mpr ⟨unit, place_is, had⟩
      exact mem_waiting.mpr ⟨row, text, at_, sent, List.ne_nil_of_mem unread, rfl⟩
    obtain ⟨own, own_is, own_row⟩ := extracted.exists_answer complete waits
    have distinct : ((extractor.answers libraries cache batch final.requests).map
        fun answer => answer.1.row).Nodup :=
      Numbered.nodup_zip (nodup_waiting cache batch) _
    have found := Numbered.find?_of_nodup distinct own_is
    rw [own_row] at found
    have both := alike answer answered own own_is (by rw [texted, own_row])
    rw [BatchExtractor.answered, answerTo, found, Option.bind_some, ← both, parsed,
      Option.bind_some, lookup_decoded layout member inside valid]

omit [WritesGroups C] in
/-- A batch asks nothing where the cache has every unit of its texts. -/
theorem Extracted.requests_eq_nil_iff (extracted : Extracted libraries extractor cache batch final)
    (layout : Layout extractor.target units) :
    final.requests = [] ↔ ∀ text ∈ extractor.texts batch, ∀ unit ∈ units,
      extractor.hits libraries cache text unit ≠ none := by
  have none_waits : final.requests = [] ↔ extractor.waiting libraries cache batch = [] := by
    rw [← List.length_eq_zero_iff, ← extracted.requests.length_eq, List.length_eq_zero_iff]
  rw [none_waits, List.eq_nil_iff_forall_not_mem]
  constructor
  · intro quiet text about unit member missing
    obtain ⟨row, row_is, sent⟩ := List.mem_filterMap.mp about
    obtain ⟨index, at_⟩ := List.getElem?_of_mem row_is
    obtain ⟨place, place_is⟩ := List.getElem?_of_mem member
    have unread : place ∈ extractor.unread libraries cache text :=
      (mem_unread layout).mpr ⟨unit, place_is, missing⟩
    exact quiet ⟨index, text, extractor.unread libraries cache text⟩
      (mem_waiting.mpr ⟨row, text, at_, sent, List.ne_nil_of_mem unread, rfl⟩)
  · intro had pending waits
    obtain ⟨row, text, at_, sent, some_, -⟩ := mem_waiting.mp waits
    obtain ⟨place, unread⟩ := List.exists_mem_of_ne_nil _ some_
    obtain ⟨unit, place_is, missing⟩ := (mem_unread layout).mp unread
    exact had text (List.mem_filterMap.mpr ⟨row, List.mem_of_getElem? at_, sent⟩) unit
      (List.mem_of_getElem? place_is) missing

/-- A second extraction over texts of the first, for units of its type, makes no call exactly
where the cache had each unit or an answer validated it. Where rows of one text are answered alike,
the cells of such units come back as the first run gave them. -/
theorem extract_again (layout : Layout extractor.target units)
    (typed : ∀ spec ∈ extractor.target.fields, ∃ arrow, spec.ty.arrowType = .ok arrow)
    (layout' : Layout again.target kept) (fewer : kept ⊆ units)
    (sameKeys : again.toExtractor = extractor.toExtractor) {batch' : List ρ'}
    (known : again.texts batch' ⊆ extractor.texts batch)
    (apart : extractor.SlotsApart libraries units C batch)
    (unobstructed : extractor.Unobstructed libraries units cache batch)
    {columns columns' : List (Option (Column F))} {final' : ExtractState F C}
    (first : extractor.extractBatch libraries batch cache = .ok (columns, final))
    (second : again.extractBatch libraries batch' final.cache = .ok (columns', final'))
    (reparses : Reparses libraries units
      (extractor.answers libraries cache batch final.requests)) :
    (final'.requests = [] ↔ ∀ text ∈ again.texts batch', ∀ unit ∈ kept,
      Settled libraries extractor cache (extractor.answers libraries cache batch final.requests)
        text unit) ∧
    ((extractor.model.complete final.requests).length = final.requests.length →
      AnsweredAlike libraries (extractor.answers libraries cache batch final.requests) →
      ∀ index row index' row' text, batch[index]? = some row → batch'[index']? = some row' →
        extractor.text row = some text → again.text row' = some text →
        ∀ unit ∈ kept, Settled libraries extractor cache
            (extractor.answers libraries cache batch final.requests) text unit →
          ∀ spec ∈ unit, again.cellOf columns' spec.name index' =
            extractor.cellOf columns spec.name index) := by
  have typed' : ∀ spec ∈ again.target.fields, ∃ arrow, spec.ty.arrowType = .ok arrow := by
    intro spec declared
    obtain ⟨unit, member, inside⟩ := List.mem_flatten.mp (layout'.fields ▸ declared)
    exact typed spec (mem_fields_of_unit layout (fewer member) inside)
  obtain ⟨_, result, extracted⟩ := extractBatch_extracted libraries layout typed
    cache batch
  rw [first] at result
  cases result
  obtain ⟨_, result, extracted'⟩ := extractBatch_extracted libraries layout' typed'
    final.cache batch'
  rw [second] at result
  cases result
  have sameHits : ∀ text unit, again.hits libraries final.cache text unit =
      extractor.hits libraries final.cache text unit := by
    intro text unit
    rw [hits, hits, sameKeys]
  constructor
  · rw [extracted'.requests_eq_nil_iff layout']
    refine forall₂_congr fun text about => forall₂_congr fun unit member => ?_
    rw [sameHits]
    exact hits_ne_none_iff extracted layout apart unobstructed reparses (known about) (fewer member)
  · intro complete alike index row index' row' text at_ at_' sent sent' unit member settled spec
      inside
    have declared := mem_fields_of_unit layout (fewer member) inside
    have declared' := mem_fields_of_unit layout' member inside
    rw [cellOf_columns layout declared at_, cellOf_columns layout' declared' at_']
    have about : text ∈ extractor.texts batch :=
      List.mem_filterMap.mpr ⟨row, List.mem_of_getElem? at_, sent⟩
    have read := (hits_ne_none_iff extracted layout apart unobstructed reparses about
      (fewer member)).mpr settled
    rw [← hits_eq_cell extracted layout apart unobstructed reparses alike complete at_ sent
      (fewer member) settled inside]
    rw [cell, sent', unitOf_eq layout' member inside]
    dsimp only
    rw [sameHits]
    obtain ⟨found, has⟩ := Option.ne_none_iff_exists'.mp read
    rw [has, Option.bind_some]

end Again

section Example

/-- Plain strings, and one object. -/
def factsLibraries : Libraries Int :=
  { moodLibraries with
    json :=
      { quotedText with
        fromStr := fun text =>
          if text = "facts" then
            some (.object [("who", .string "Ada"), ("mood", .string "HIGH")])
          else quotedText.fromStr text } }

/-- The notes, by a model that finds who it is about and how it ended. -/
def factsExtractor : BatchExtractor Int (Option String) Unit :=
  { notesExtractor with
    model := ⟨⟨"model"⟩, fun requests => requests.map fun _ => .ok ⟨"facts", 0, 0⟩⟩ }

/-- Who the notes are about, alone. -/
def whoExtractor : BatchExtractor Int String Unit where
  text := some
  target := ⟨"Notes", "1", [whoSpec], []⟩
  model := ⟨⟨"model"⟩, fun _ => []⟩

theorem who_layout : Layout whoExtractor.target [[whoSpec]] where
  fields := rfl
  together := rfl
  nonempty := by decide
  distinct := by decide

theorem facts_parsed : objectOf factsLibraries (.ok ⟨"facts", 0, 0⟩ : Except Unit Completion) =
    some [("who", .string "Ada"), ("mood", .string "HIGH")] := by
  have trimmed : String.ofList (stripCodeFence (Verify.trimMatches Verify.isWhitespace
      "facts".toList)) = "facts" := by decide +kernel
  change parseJsonObject factsLibraries.json "facts" = _
  unfold parseJsonObject
  dsimp only
  rw [trimmed]
  rfl

theorem facts_answer {cache : InMemoryCache} {batch : List (Option String)}
    {requests : List CompletionRequest} {answer : PendingRow × Except Unit Completion}
    (answered : answer ∈ factsExtractor.answers factsLibraries cache batch requests) :
    objectOf factsLibraries answer.2 =
      some [("who", .string "Ada"), ("mood", .string "HIGH")] := by
  obtain ⟨-, completed⟩ := List.of_mem_zip answered
  obtain ⟨_, -, same⟩ := List.mem_map.mp completed
  rw [← same]
  exact facts_parsed

theorem facts_apart : factsExtractor.SlotsApart factsLibraries [[whoSpec], [moodSpec]]
    InMemoryCache [none, some "minutes"] := by
  intro unit _ spec _ unit' _ spec' _ text about text' about' same
  have texts : factsExtractor.texts [none, some "minutes"] = ["minutes"] := rfl
  rw [texts, List.mem_singleton] at about about'
  exact ⟨congrArg CacheKey.field same, about.trans about'.symm⟩

theorem facts_reparse {answers : List (PendingRow × Except Unit Completion)}
    (each : ∀ answer ∈ answers, objectOf factsLibraries answer.2 =
      some [("who", .string "Ada"), ("mood", .string "HIGH")]) :
    Reparses factsLibraries [[whoSpec], [moodSpec]] answers := by
  intro answer answered object parsed unit member decoded decodes
  rw [each answer answered, Option.some.injEq] at parsed
  subst parsed
  rcases List.mem_cons.mp member with rfl | member
  · obtain rfl : decoded = (whoSpec, .string "Ada") := List.mem_singleton.mp decodes
    rfl
  · obtain rfl := List.mem_singleton.mp member
    obtain rfl : decoded = (moodSpec, .string "high") := List.mem_singleton.mp decodes
    rfl

/-- The notes of two rows, then who they are about: the second run makes no call. -/
theorem who_again_free :
    ∃ columns final columns' final',
      factsExtractor.extractBatch factsLibraries [none, some "minutes"] InMemoryCache.default =
        .ok (columns, final) ∧
      whoExtractor.extractBatch factsLibraries ["minutes"] final.cache = .ok (columns', final') ∧
      final'.requests = [] := by
  have typed : ∀ spec ∈ factsExtractor.target.fields, ∃ arrow, spec.ty.arrowType = .ok arrow :=
    notes_typed
  have typed' : ∀ spec ∈ whoExtractor.target.fields, ∃ arrow, spec.ty.arrowType = .ok arrow := by
    simp [whoExtractor, whoSpec, FieldType.arrowType]
  have layout : Layout factsExtractor.target [[whoSpec], [moodSpec]] := notes_layout
  obtain ⟨final, first, extracted⟩ := extractBatch_extracted factsLibraries layout
    typed InMemoryCache.default [none, some "minutes"]
  obtain ⟨final', second, -⟩ := extractBatch_extracted factsLibraries who_layout
    typed' final.cache ["minutes"]
  have free := (extract_again layout typed who_layout (by simp) rfl (by decide) facts_apart
    (fun _ _ _ _ _ _ _ => Or.inl rfl) first second
    (facts_reparse fun _ => facts_answer)).1
  refine ⟨_, final, _, final', first, second, free.mpr ?_⟩
  intro text about unit member
  obtain rfl : text = "minutes" := List.mem_singleton.mp about
  obtain rfl := List.mem_singleton.mp member
  obtain ⟨answer, answered, same⟩ := extracted.exists_answer (by simp [factsExtractor])
    (mem_waiting.mpr ⟨some "minutes", "minutes", rfl, rfl, by decide +kernel, rfl⟩ :
      (⟨1, "minutes", [0, 1]⟩ : PendingRow) ∈ _)
  exact Or.inr ⟨answer, answered, congrArg PendingRow.text same, _, facts_answer answered,
    by decide +kernel⟩

end Example

end BatchExtractor

end Semcast.Extract
