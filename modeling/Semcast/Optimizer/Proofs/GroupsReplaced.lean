import Semcast.Optimizer.Proofs.GroupColumns

/-!
# Expressions over the columns of groups

Every marker of an expression becomes the column of its group, and what is left has the
value that the expression has where its rows came from. A marker inside the text of another
has no column: the outer one is looked for under a text that no marker was written with.
-/

namespace Semcast.RowGroups

open Logical Fallible

variable {F D O P κ : Type}

section Replace

variable [DecidableEq F] [DecidableEq D] [DecidableEq O] [DecidableEq κ] (rule : GroupRule F D O κ)
  (lookup : List (RowGroup F D O κ × Column))

/-- The column of a group. -/
def columnOf (asked : RowGroup F D O κ) : Column :=
  ((lookup.find? fun entry => entry.1 == asked).map Prod.snd).getD (.newUnqualified "")

/-- What a marker is replaced by. -/
def GroupRule.answer (inner : Expr F D O) : Option (Expr F D O) :=
  (rule.markerOf inner).map fun asked => .column (columnOf lookup asked)

omit [DecidableEq F] [DecidableEq D] [DecidableEq O] [DecidableEq κ] in
/-- A marker whose text asks for a group in turn. -/
def GroupRule.Nested (expr : Expr F D O) : Prop :=
  ∃ inner ∈ expr.subexpressions, ∃ asked, rule.markerOf inner = some asked ∧
    rule.containsMarker asked.text = true

omit [DecidableEq F] [DecidableEq D] [DecidableEq O] [DecidableEq κ] in
/-- The error at a marker. -/
def GroupRule.failing (inner : Expr F D O) : Option String :=
  (rule.markerOf inner).bind fun asked =>
    if rule.containsMarker asked.text then some rule.missing else none

/-- The columns that the markers are looked up in: each marker of an expression has one, and
no text that is looked for reads any of them. -/
structure Covers (rule : GroupRule F D O κ) (lookup : List (RowGroup F D O κ × Column))
    (expr : Expr F D O) : Prop where
  readable : rule.WellFormed expr
  known : ∀ inner ∈ expr.subexpressions, ∀ asked, rule.markerOf inner = some asked →
    asked ∈ lookup.map Prod.fst
  apart : ∀ entry ∈ lookup, ∀ entry' ∈ lookup, .column entry'.2 ∉ entry.1.text.subexpressions

variable {rule lookup} {expr inner : Expr F D O} {asked : RowGroup F D O κ}

omit [DecidableEq F] [DecidableEq D] [DecidableEq O] [DecidableEq κ] in
theorem isMarker_mapChildren (g : Expr F D O → Expr F D O) (expr : Expr F D O) :
    rule.isMarker (expr.mapChildren g) = rule.isMarker expr := by
  cases expr with
  | column | literal | case => rfl
  | node head args => cases head <;> rfl

/-- What the find of a group that is there gives. -/
theorem exists_find (known : asked ∈ lookup.map Prod.fst) :
    ∃ entry ∈ lookup, entry.1 = asked ∧ lookup.find? (fun entry => entry.1 == asked) = some entry ∧
      columnOf lookup asked = entry.2 := by
  obtain ⟨entry, member, rfl⟩ := List.mem_map.mp known
  cases found : lookup.find? fun other => other.1 == entry.1 with
  | none => simpa using List.find?_eq_none.mp found entry member
  | some other =>
    refine ⟨other, List.mem_of_find?_eq_some found, ?_, rfl, ?_⟩
    · have fits := List.find?_some found
      exact beq_iff_eq.mp fits
    · rw [columnOf, found]
      rfl

omit [DecidableEq F] [DecidableEq D] [DecidableEq O] [DecidableEq κ] in
theorem isMarker_eq_false (readable : rule.WellFormed expr) (within : inner ∈ expr.subexpressions)
    (plain : rule.markerOf inner = none) : rule.isMarker inner = false := by
  by_contra marked
  have read := parseMarker_eq_markerOf (readable inner within)
  rw [plain] at read
  unfold GroupRule.parseMarker at read
  split at read
  · rename_i name args
    have own : name = rule.udfName := by simpa [GroupRule.isMarker] using marked
    rw [if_pos own] at read
    split at read
    · obtain ⟨param, -, same⟩ := map_ok_iff.mp read
      cases same
    · obtain ⟨param, -, same⟩ := map_ok_iff.mp read
      cases same
    · cases read
  · rename_i other
    unfold GroupRule.isMarker at marked
    split at marked
    · exact other _ _ rfl
    · exact marked rfl

theorem answer_of_none (plain : rule.markerOf inner = none) : rule.answer lookup inner = none := by
  rw [GroupRule.answer, plain]
  rfl

theorem answer_of_some (found : rule.markerOf inner = some asked) :
    rule.answer lookup inner = some (.column (columnOf lookup asked)) := by
  rw [GroupRule.answer, found]
  rfl

/-- A text that no marker is in stays as it is. -/
theorem substitute_eq_self (plain : rule.containsMarker expr = false) :
    expr.substitute (rule.answer lookup) = expr := by
  apply Expr.substitute_eq_self
  intro inner within
  exact answer_of_none (markerOf_eq_none (containsMarker_eq_false_iff.mp plain inner within))

theorem replaceMarker_of_none (parsed : rule.parseMarker expr = .ok none) :
    rule.replaceMarker lookup expr = .ok expr := by
  rw [GroupRule.replaceMarker, parsed]
  rfl

theorem replaceMarker_of_find (parsed : rule.parseMarker expr = .ok (some asked)) :
    rule.replaceMarker lookup expr =
      ((lookup.find? fun entry => entry.1 == asked).elim (.error rule.missing)
        fun entry => .ok (.column entry.2)) := by
  cases found : lookup.find? fun entry => entry.1 == asked <;>
    simp [GroupRule.replaceMarker, parsed, found, bind, Except.bind, pure, Except.pure]

/-- A text with a marker in it is rewritten to one that reads a column of a node, and so
it is none of those that the markers were written with. -/
theorem find_substitute_eq_none (covers : Covers rule lookup expr)
    (within : inner ∈ expr.subexpressions) (found : rule.markerOf inner = some asked)
    (deeper : rule.containsMarker asked.text = true) :
    (lookup.find? fun entry => entry.1 ==
      ⟨asked.text.substitute (rule.answer lookup), asked.param⟩) = none := by
  rw [List.find?_eq_none]
  rintro entry member same
  have text : entry.1.text = asked.text.substitute (rule.answer lookup) :=
    congrArg RowGroup.text (beq_iff_eq.mp same)
  have inside : asked.text ∈ expr.subexpressions :=
    Expr.mem_subexpressions_trans within (mem_subexpressions_of_markerOf found)
  have each : ∀ below ∈ asked.text.subexpressions, ∀ replaced,
      rule.answer lookup below = some replaced →
        ∃ reached ∈ replaced.subexpressions, ∃ other ∈ lookup, reached = .column other.2 := by
    intro below placed replaced answered
    obtain ⟨own, marked, rfl⟩ := Option.map_eq_some_iff.mp answered
    obtain ⟨other, known, -, -, column⟩ := exists_find
      (covers.known below (Expr.mem_subexpressions_trans inside placed) own marked)
    exact ⟨_, Expr.self_mem_subexpressions _, other, known, by rw [column]⟩
  obtain ⟨below, placed, marked⟩ :
      ∃ below ∈ asked.text.subexpressions, rule.isMarker below = true := by
    unfold GroupRule.containsMarker Expr.exists_ at deeper
    simpa using deeper
  have answered : (rule.answer lookup below).isSome := by
    cases plain : rule.markerOf below with
    | some own => rw [answer_of_some plain]; rfl
    | none =>
      have unmarked := isMarker_eq_false covers.readable
        (Expr.mem_subexpressions_trans inside placed) plain
      rw [marked] at unmarked
      cases unmarked
  obtain ⟨reached, there, other, known, rfl⟩ :=
    Expr.exists_mem_substitute each ⟨below, placed, answered⟩
  exact covers.apart entry member other known (text ▸ there)

/-- One step of the replacement. -/
theorem replaceMarker_mapChildren (covers : Covers rule lookup expr)
    (within : inner ∈ expr.subexpressions) :
    rule.replaceMarker lookup (inner.mapChildren (Expr.substitute (rule.answer lookup))) =
      Expr.stopped (rule.failing inner) (inner.substitute (rule.answer lookup)) := by
  rw [Expr.substitute_eq, GroupRule.failing]
  cases found : rule.markerOf inner with
  | none =>
    have plain : rule.isMarker (inner.mapChildren (Expr.substitute (rule.answer lookup))) =
        false := by
      rw [isMarker_mapChildren]
      exact isMarker_eq_false covers.readable within found
    rw [replaceMarker_of_none (parseMarker_eq_none plain), answer_of_none found]
    rfl
  | some asked =>
    obtain ⟨literals, call, parses⟩ := parseMarker_eq_some (markerOf_eq_some.mp found)
    have rest : (literals.map (Expr.literal (O := O))).map (Expr.substitute (rule.answer lookup)) =
        literals.map .literal := by
      rw [List.map_map]
      apply List.map_congr_left
      intro value _
      exact substitute_eq_self (containsMarker_eq_false_iff.mpr (by
        simp [Expr.subexpressions, GroupRule.isMarker]))
    have parsed : rule.parseMarker (inner.mapChildren (Expr.substitute (rule.answer lookup))) =
        .ok (some ⟨asked.text.substitute (rule.answer lookup), asked.param⟩) := by
      rw [call, Expr.mapChildren, List.map_cons, rest, parses]
    rw [replaceMarker_of_find parsed, answer_of_some found, Option.getD_some, Option.bind_some]
    by_cases deeper : rule.containsMarker asked.text = true
    · rw [find_substitute_eq_none covers within found deeper, if_pos deeper]
      rfl
    · obtain ⟨entry, member, same, first, column⟩ :=
        exists_find (covers.known inner within asked found)
      rw [substitute_eq_self (by simpa using deeper), first, if_neg deeper, column]
      rfl

/-- The replacement is a substitution, unless a marker has another in its text. -/
theorem replace_eq (covers : Covers rule lookup expr) :
    rule.replace lookup expr = Expr.stopped (expr.postorder.findSome? rule.failing)
      (expr.substitute (rule.answer lookup)) :=
  Expr.transform_eq expr fun _ within => replaceMarker_mapChildren covers within

theorem replace_ok_iff (covers : Covers rule lookup expr) {replaced : Expr F D O} :
    rule.replace lookup expr = .ok replaced ↔
      ¬ rule.Nested expr ∧ expr.substitute (rule.answer lookup) = replaced := by
  have flat : expr.postorder.findSome? rule.failing = none ↔ ¬ rule.Nested expr := by
    rw [List.findSome?_eq_none_iff]
    unfold GroupRule.Nested GroupRule.failing
    constructor
    · rintro every ⟨inner, within, asked, found, deeper⟩
      have nothing := every inner (Expr.mem_postorder.mpr within)
      rw [found, Option.bind_some, if_pos deeper] at nothing
      cases nothing
    · intro flat inner within
      cases found : rule.markerOf inner with
      | none => rfl
      | some asked =>
        rw [Option.bind_some, if_neg]
        exact fun deeper => flat ⟨inner, Expr.mem_postorder.mp within, asked, found, deeper⟩
  rw [replace_eq covers, ← flat]
  cases expr.postorder.findSome? rule.failing with
  | none => simp [Expr.stopped]
  | some message => simp [Expr.stopped]

/-- No marker is left. -/
theorem containsMarker_substitute (covers : Covers rule lookup expr) :
    rule.containsMarker (expr.substitute (rule.answer lookup)) = false := by
  rw [containsMarker_eq_false_iff]
  have general : ∀ inner ∈ expr.subexpressions,
      ∀ below ∈ (inner.substitute (rule.answer lookup)).subexpressions,
        rule.isMarker below = false := by
    intro inner
    induction inner using Expr.induction_children with
    | step inner ih =>
      intro within below placed
      rw [Expr.substitute_eq] at placed
      cases found : rule.markerOf inner with
      | some asked =>
        rw [answer_of_some found, Option.getD_some] at placed
        cases List.mem_singleton.mp placed
        rfl
      | none =>
        rw [answer_of_none found, Option.getD_none, Expr.subexpressions_eq, List.mem_cons,
          List.mem_flatMap, Expr.children_mapChildren] at placed
        rcases placed with rfl | ⟨child, member, deeper⟩
        · rw [isMarker_mapChildren]
          exact isMarker_eq_false covers.readable within found
        · obtain ⟨before, own, rfl⟩ := List.mem_map.mp member
          exact ih before own (Expr.mem_subexpressions_trans within
            (Expr.mem_subexpressions_of_child own (Expr.self_mem_subexpressions _))) below deeper
  exact general expr (Expr.self_mem_subexpressions _)

end Replace

section Materialize

variable [DecidableEq F] [DecidableEq D] [DecidableEq O] [DecidableEq κ]

/-- The groups that some expressions ask for. -/
def GroupRule.groupsOf (rule : GroupRule F D O κ) (exprs : List (Expr F D O)) :
    GroupRule.Builder F D O κ :=
  (rule.markersOf exprs).eraseDups

/-- The columns of their nodes. -/
def GroupRule.columnsOf (rule : GroupRule F D O κ) (exprs : List (Expr F D O)) : Schema :=
  rule.nodeColumns 0 (rule.groupsOf exprs).length

/-- The columns that their markers are looked up in. -/
def GroupRule.lookupOf (rule : GroupRule F D O κ) (exprs : List (Expr F D O)) :
    List (RowGroup F D O κ × Column) :=
  (rule.groupsOf exprs).zip (rule.columnsOf exprs)

/-- Every marker can be read, none is in the text of another, and no field has the name of a
column that is made for them. -/
structure Materializable (rule : GroupRule F D O κ) (exprs : List (Expr F D O)) (schema : Schema) :
    Prop where
  readable : ∀ expr ∈ exprs, rule.WellFormed expr
  flat : ∀ expr ∈ exprs, ¬ rule.Nested expr
  free : Schema.Unambiguous (schema ++ rule.columnsOf exprs)

variable {rule : GroupRule F D O κ} {exprs : List (Expr F D O)} {expr : Expr F D O}
  {schema : Schema}

theorem length_columnsOf : (rule.columnsOf exprs).length = (rule.groupsOf exprs).length :=
  length_nodeColumns _ _

theorem mem_groupsOf {asked : RowGroup F D O κ} : asked ∈ rule.groupsOf exprs ↔
    ∃ expr ∈ exprs, ∃ inner ∈ expr.subexpressions, rule.markerOf inner = some asked := by
  unfold GroupRule.groupsOf
  rw [List.mem_eraseDups, mem_markersOf]

theorem resolves_groupsOf (resolves : ∀ expr ∈ exprs, schema.Resolves expr) :
    ∀ asked ∈ rule.groupsOf exprs, schema.Resolves asked.text := by
  intro asked member field within
  obtain ⟨expr, chosen, inner, inside, found⟩ := mem_groupsOf.mp member
  exact resolves expr chosen field (Expr.mem_subexpressions_trans inside
    (Expr.mem_subexpressions_trans (mem_subexpressions_of_markerOf found) within))

/-- The columns of the nodes answer the markers that they were made for. -/
theorem covers_lookupOf (readable : ∀ expr ∈ exprs, rule.WellFormed expr)
    (free : Schema.Unambiguous (schema ++ rule.columnsOf exprs))
    (resolves : ∀ expr ∈ exprs, schema.Resolves expr) (member : expr ∈ exprs) :
    Covers rule (rule.lookupOf exprs) expr where
  readable := readable expr member
  known := by
    intro inner within asked found
    unfold GroupRule.lookupOf
    rw [List.map_fst_zip (by rw [length_columnsOf])]
    exact mem_groupsOf.mpr ⟨expr, member, inner, within, found⟩
  apart := by
    intro entry own entry' other read
    obtain ⟨field, known, refers⟩ := resolves_groupsOf resolves entry.1
      (List.of_mem_zip own).1 entry'.2 read
    have apart := (List.pairwise_append.mp free).2.2 field known entry'.2 (List.of_mem_zip other).2
    rw [apart.2] at refers
    cases refers

/-- How what a marker is replaced by is put in the place of the whole expression. -/
structure Wraps (rule : GroupRule F D O κ)
    (replaced : List (RowGroup F D O κ × Column) → Expr F D O → Except String (Expr F D O))
    (wrap : Expr F D O → Expr F D O → Expr F D O) : Prop where
  ok_iff : ∀ {lookup expr result}, Covers rule lookup expr →
    (replaced lookup expr = .ok result ↔
      ¬ rule.Nested expr ∧ wrap expr (expr.substitute (rule.answer lookup)) = result)
  eval : ∀ (interp : Interpretation F D O) read expr inner,
    (wrap expr inner).eval interp read = inner.eval interp read
  plain : ∀ expr inner, rule.containsMarker inner = false →
    rule.containsMarker (wrap expr inner) = false

variable {replaced : List (RowGroup F D O κ × Column) → Expr F D O → Except String (Expr F D O)}
  {wrap : Expr F D O → Expr F D O → Expr F D O}

/-- The expressions over the nodes. -/
def GroupRule.rewritten (rule : GroupRule F D O κ) (wrap : Expr F D O → Expr F D O → Expr F D O)
    (exprs : List (Expr F D O)) : List (Expr F D O) :=
  exprs.map fun expr => wrap expr (expr.substitute (rule.answer (rule.lookupOf exprs)))

theorem mapM_replaced_ok_iff (wraps : Wraps rule replaced wrap)
    (readable : ∀ expr ∈ exprs, rule.WellFormed expr)
    (free : Schema.Unambiguous (schema ++ rule.columnsOf exprs))
    (resolves : ∀ expr ∈ exprs, schema.Resolves expr) {results : List (Expr F D O)} :
    exprs.mapM (replaced (rule.lookupOf exprs)) = .ok results ↔
      (∀ expr ∈ exprs, ¬ rule.Nested expr) ∧ rule.rewritten wrap exprs = results := by
  have covers : ∀ expr ∈ exprs, Covers rule (rule.lookupOf exprs) expr := fun _ =>
    covers_lookupOf readable free resolves
  unfold GroupRule.rewritten
  rw [mapM_eq_ok_iff]
  generalize rule.lookupOf exprs = lookup at covers
  clear readable free resolves
  induction exprs generalizing results with
  | nil => simp [eq_comm]
  | cons expr rest ih =>
    rw [List.forall_mem_cons] at covers
    rw [List.forall₂_cons_left_iff, List.forall_mem_cons, List.map_cons]
    constructor
    · rintro ⟨result, others, first, each, rfl⟩
      obtain ⟨flat, same⟩ := (wraps.ok_iff covers.1).mp first
      obtain ⟨flats, whole⟩ := (ih covers.2).mp each
      exact ⟨⟨flat, flats⟩, by rw [same, whole]⟩
    · rintro ⟨⟨flat, flats⟩, rfl⟩
      exact ⟨_, _, (wraps.ok_iff covers.1).mpr ⟨flat, rfl⟩, (ih covers.2).mpr ⟨flats, rfl⟩, rfl⟩

variable [Rendering F D O] [Operators F D O P]

/-- The nodes below and the expressions over them, where both are to be had. -/
theorem materialize_ok_iff (wraps : Wraps rule replaced wrap) {input plan : GroupPlan F D O P κ}
    (unambiguous : input.schema.Unambiguous)
    (resolves : ∀ expr ∈ exprs, input.schema.Resolves expr) {results : List (Expr F D O)} :
    rule.materialize replaced exprs input = .ok (plan, results) ↔
      Materializable rule exprs input.schema ∧
        rule.stacked 0 (rule.groupsOf exprs) input = plan ∧
          rule.rewritten wrap exprs = results := by
  unfold GroupRule.materialize
  constructor
  · intro materialized
    obtain ⟨builder, observed, materialized⟩ := bind_ok_iff.mp materialized
    obtain ⟨⟨stacked, lookup⟩, built, materialized⟩ := bind_ok_iff.mp materialized
    obtain ⟨outputs, each, same⟩ := bind_ok_iff.mp materialized
    cases same
    obtain ⟨readable, rfl⟩ := foldlM_observe_ok_iff.mp observed
    obtain ⟨free, rfl, rfl⟩ := (build_ok_iff unambiguous).mp built
    obtain ⟨flat, rfl⟩ := (mapM_replaced_ok_iff wraps readable free resolves).mp each
    exact ⟨⟨readable, flat, free⟩, rfl, rfl⟩
  · rintro ⟨⟨readable, flat, free⟩, rfl, rfl⟩
    refine bind_ok_iff.mpr ⟨_, foldlM_observe_ok_iff.mpr ⟨readable, rfl⟩, ?_⟩
    refine bind_ok_iff.mpr ⟨(_, rule.lookupOf exprs),
      (build_ok_iff unambiguous).mpr ⟨free, rfl, rfl⟩, ?_⟩
    exact bind_ok_iff.mpr
      ⟨_, (mapM_replaced_ok_iff wraps readable free resolves).mpr ⟨flat, rfl⟩, rfl⟩

end Materialize

end Semcast.RowGroups
