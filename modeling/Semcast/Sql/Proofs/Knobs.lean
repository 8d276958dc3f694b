import Semcast.Sql.Recall

/-!
# The language of the trailing clauses

What is read as trailing clauses: clauses with different knobs, each with a fraction, in any
order, and a semicolon or none after them.
-/

namespace Semcast.Recall

open Fallible

variable {F : Type} [Zero F] [One F] [LT F] [LE F]

/-- A clause as it is written. -/
structure Clause (sql : ClauseText F) where
  knob : Knob
  value : F
  keyword : Token
  word : String
  quoteStyle : Option Char
  number : String
  opens : keyword.isWith = true
  names : knobOf (sql.toLowercase word) = some knob
  reads : sql.parseF64 number = .ok value
  fraction : 0 < value ∧ value ≤ 1

namespace Clause

variable {sql : ClauseText F}

def tokens (clause : Clause sql) : List Token :=
  [clause.keyword, .word clause.word clause.quoteStyle, .number clause.number]

/-- What some clauses say. -/
def collect (start : TrailingClauses F) (clauses : List (Clause sql)) : TrailingClauses F :=
  clauses.foldl (fun clauses clause => clauses.setSlot clause.value clause.knob) start

@[simp]
theorem collect_nil (start : TrailingClauses F) :
    collect start ([] : List (Clause sql)) = start := rfl

@[simp]
theorem collect_cons (start : TrailingClauses F) (clause : Clause sql)
    (rest : List (Clause sql)) :
    collect start (clause :: rest) = collect (start.setSlot clause.value clause.knob) rest := rfl

/-- A slot that no clause names is left alone. -/
theorem slot_collect_of_ne {start : TrailingClauses F} {clauses : List (Clause sql)} {knob : Knob}
    (unnamed : ∀ clause ∈ clauses, clause.knob ≠ knob) :
    (collect start clauses).slot knob = start.slot knob := by
  induction clauses generalizing start with
  | nil => rfl
  | cons clause rest ih =>
    rw [List.forall_mem_cons] at unnamed
    simp [ih unnamed.2, Ne.symm unnamed.1]

/-- With different knobs, each slot has the value of its own clause. -/
theorem slot_collect {start : TrailingClauses F} {clauses : List (Clause sql)}
    (distinct : (clauses.map (·.knob)).Nodup) {clause : Clause sql} (member : clause ∈ clauses) :
    (collect start clauses).slot clause.knob = some clause.value := by
  induction clauses generalizing start with
  | nil => cases member
  | cons first rest ih =>
    rw [List.map_cons, List.nodup_cons] at distinct
    rcases List.mem_cons.mp member with rfl | later
    · have unnamed : ∀ other ∈ rest, other.knob ≠ clause.knob := fun other inside same =>
        distinct.1 (List.mem_map.mpr ⟨other, inside, same⟩)
      simp [slot_collect_of_ne unnamed]
    · exact ih distinct.2 later

theorem slot_collect_default {clauses : List (Clause sql)}
    (distinct : (clauses.map (·.knob)).Nodup) {knob : Knob} {value : F} :
    (collect .default clauses).slot knob = some value ↔
      ∃ clause ∈ clauses, clause.knob = knob ∧ clause.value = value := by
  constructor
  · intro said
    by_cases unnamed : ∀ clause ∈ clauses, clause.knob ≠ knob
    · simp [slot_collect_of_ne unnamed] at said
    · simp only [ne_eq, not_forall, not_not] at unnamed
      obtain ⟨clause, member, rfl⟩ := unnamed
      rw [slot_collect distinct member, Option.some.injEq] at said
      exact ⟨clause, member, rfl, said⟩
  · rintro ⟨clause, member, rfl, rfl⟩
    exact slot_collect distinct member

/-- The order of clauses with different knobs does not matter. -/
theorem collect_perm {clauses others : List (Clause sql)} (perm : others.Perm clauses)
    (distinct : (clauses.map (·.knob)).Nodup) :
    collect .default others = collect .default clauses := by
  have distinct' : (others.map (·.knob)).Nodup := (perm.map _).nodup_iff.mpr distinct
  ext knob value
  simp [slot_collect_default distinct, slot_collect_default distinct', perm.mem_iff]

end Clause

section Reading

variable {sql : ClauseText F} {start next : TrailingClauses F}

omit [Zero F] [One F] [LT F] [LE F] in
theorem readKnob_ok_iff {token : Option Token} {knob : Knob} {name : String} :
    readKnob sql token = .ok (knob, name) ↔
      ∃ word quoteStyle, token = some (.word word quoteStyle) ∧
        knobOf (sql.toLowercase word) = some knob ∧
          name = sql.toUppercase (sql.toLowercase word) := by
  unfold readKnob
  split
  · rename_i word quoteStyle
    cases named : knobOf (sql.toLowercase word) with
    | none => simp [named]
    | some slot => simp [named, eq_comm]
  · rename_i unworded
    simp only [reduceCtorEq, false_iff, not_exists, not_and]
    exact fun word quoteStyle same => absurd same (unworded word quoteStyle)

variable [DecidableLT F] [DecidableLE F]

theorem parseFraction_ok_iff {name : String} {token : Option Token} {value : F} :
    parseFraction sql name token = .ok value ↔
      ∃ number, token = some (.number number) ∧ sql.parseF64 number = .ok value ∧
        0 < value ∧ value ≤ 1 := by
  unfold parseFraction
  split
  · rename_i number
    cases parsed : sql.parseF64 number with
    | error error => simp [parsed]
    | ok target =>
      simp only [ite_ok_iff, Option.some.injEq, Token.number.injEq]
      constructor
      · rintro ⟨fraction, rfl⟩
        exact ⟨number, rfl, parsed, fraction⟩
      · rintro ⟨_, rfl, again, fraction⟩
        rw [parsed, Except.ok.injEq] at again
        exact ⟨again ▸ fraction, again⟩
  · rename_i unnumbered
    simp only [reduceCtorEq, false_iff, not_exists, not_and]
    exact fun number same => absurd same (unnumbered number)

/-- A clause is read where its slot is free. -/
theorem readClause_ok_iff {keyword first : Token} (opens : keyword.isWith = true)
    {second : Option Token} :
    readClause sql start (some first) second = .ok next ↔
      ∃ (clause : Clause sql) (number : Token), second = some number ∧
        clause.tokens = [keyword, first, number] ∧ start.slot clause.knob = none ∧
          next = start.setSlot clause.value clause.knob := by
  unfold readClause
  rw [bind_ok_iff]
  constructor
  · rintro ⟨⟨knob, name⟩, named, read⟩
    obtain ⟨word, quoteStyle, worded, known, -⟩ := readKnob_ok_iff.mp named
    cases worded
    dsimp only at read
    cases free : start.slot knob with
    | some value => simp [free] at read
    | none =>
      simp only [free, Option.isSome_none, Bool.false_eq_true, if_false] at read
      obtain ⟨value, parsed, same⟩ := bind_ok_iff.mp read
      cases same
      obtain ⟨number, rfl, reads, fraction⟩ := parseFraction_ok_iff.mp parsed
      exact ⟨⟨knob, value, keyword, word, quoteStyle, number, opens, known, reads, fraction⟩, _,
        rfl, rfl, free, rfl⟩
  · rintro ⟨clause, number, rfl, tokens, free, rfl⟩
    simp only [Clause.tokens, List.cons.injEq, and_true] at tokens
    obtain ⟨-, rfl, rfl⟩ := tokens
    refine ⟨_, readKnob_ok_iff.mpr ⟨_, _, rfl, clause.names, rfl⟩, ?_⟩
    have reads : parseFraction sql (sql.toUppercase (sql.toLowercase clause.word))
        (some (.number clause.number)) = .ok clause.value :=
      parseFraction_ok_iff.mpr ⟨_, rfl, clause.reads, clause.fraction⟩
    simp [free, reads, bind, Except.bind, pure, Except.pure]

theorem readClause_without_number {first : Option Token} :
    readClause sql start first none ≠ .ok next := by
  unfold readClause
  intro read
  obtain ⟨⟨knob, name⟩, -, read⟩ := bind_ok_iff.mp read
  dsimp only at read
  split at read
  · cases read
  · obtain ⟨value, parsed, -⟩ := bind_ok_iff.mp read
    obtain ⟨number, missing, -⟩ := parseFraction_ok_iff.mp parsed
    cases missing

end Reading

variable [DecidableLT F] [DecidableLE F] {sql : ClauseText F}

/-- No clause starts here. -/
def Stops (tokens : List Token) : Prop :=
  ∀ token ∈ tokens.head?, token.isWith = false

omit [DecidableLT F] [DecidableLE F] in
/-- Tokens that start with a `WITH` start with a clause. -/
theorem exists_clause {keyword : Token} (opens : keyword.isWith = true) {later rest : List Token}
    {clauses : List (Clause sql)} (stops : Stops rest)
    (whole : keyword :: later = clauses.flatMap Clause.tokens ++ rest) :
    ∃ clause others, clauses = clause :: others ∧
      later = .word clause.word clause.quoteStyle :: .number clause.number ::
        (others.flatMap Clause.tokens ++ rest) ∧ clause.keyword = keyword := by
  cases clauses with
  | nil =>
    simp only [List.flatMap_nil, List.nil_append] at whole
    subst whole
    simp [stops keyword rfl] at opens
  | cons clause others =>
    simp only [List.flatMap_cons, Clause.tokens, List.cons_append, List.nil_append,
      List.cons.injEq] at whole
    exact ⟨clause, others, rfl, whole.2, whole.1.symm⟩

/-- The loop takes clauses as long as there are any. -/
theorem clausesFrom_ok_iff {start result : TrailingClauses F} {tokens rest : List Token} :
    clausesFrom sql start tokens = .ok (result, rest) ↔
      ∃ clauses : List (Clause sql), (clauses.map (·.knob)).Nodup ∧
        (∀ clause ∈ clauses, start.slot clause.knob = none) ∧ Stops rest ∧
          tokens = clauses.flatMap Clause.tokens ++ rest ∧
            result = Clause.collect start clauses := by
  fun_induction clausesFrom sql start tokens with
  | case1 start =>
    constructor
    · rintro ⟨⟩
      exact ⟨[], by simp [Stops]⟩
    · rintro ⟨clauses, -, -, -, whole, rfl⟩
      cases clauses with
      | nil => simp_all
      | cons clause others => simp [Clause.tokens] at whole
  | case2 start keyword opens first second later ih =>
    rw [bind_ok_iff]
    constructor
    · rintro ⟨between, read, others⟩
      obtain ⟨clause, number, same, tokens, free, rfl⟩ := (readClause_ok_iff opens).mp read
      cases same
      obtain ⟨clauses, distinct, unset, stops, rfl, rfl⟩ := (ih _).mp others
      have unnamed : ∀ other ∈ clauses, other.knob ≠ clause.knob := by
        intro other member same
        have taken := unset other member
        simp [same] at taken
      refine ⟨clause :: clauses, ?_, ?_, stops, by simp [tokens], rfl⟩
      · simp only [List.map_cons, List.nodup_cons, List.mem_map, not_exists, not_and]
        exact ⟨unnamed, distinct⟩
      · rw [List.forall_mem_cons]
        refine ⟨free, fun other member => ?_⟩
        have unset' := unset other member
        rwa [TrailingClauses.slot_setSlot_of_ne _ _ (unnamed other member)] at unset'
    · rintro ⟨clauses, distinct, unset, stops, whole, rfl⟩
      obtain ⟨clause, others, rfl, same, rfl⟩ := exists_clause opens stops whole
      simp only [List.cons.injEq] at same
      obtain ⟨rfl, rfl, rfl⟩ := same
      rw [List.map_cons, List.nodup_cons] at distinct
      rw [List.forall_mem_cons] at unset
      refine ⟨_, (readClause_ok_iff opens).mpr ⟨clause, _, rfl, rfl, unset.1, rfl⟩, ?_⟩
      refine (ih _).mpr ⟨others, distinct.2, fun other member => ?_, stops, rfl, rfl⟩
      have apart : other.knob ≠ clause.knob := fun same =>
        distinct.1 (List.mem_map.mpr ⟨other, member, same⟩)
      simp [TrailingClauses.slot_setSlot_of_ne _ _ apart, unset.2 other member]
  | case3 start keyword opens first =>
    constructor
    · intro read
      obtain ⟨between, read, -⟩ := map_ok_iff.mp read
      exact absurd read readClause_without_number
    · rintro ⟨clauses, -, -, stops, whole, -⟩
      obtain ⟨clause, others, -, same, -⟩ := exists_clause opens stops whole
      simp at same
  | case4 start keyword opens =>
    constructor
    · intro read
      obtain ⟨between, read, -⟩ := map_ok_iff.mp read
      exact absurd read readClause_without_number
    · rintro ⟨clauses, -, -, stops, whole, -⟩
      obtain ⟨clause, others, -, same, -⟩ := exists_clause opens stops whole
      simp at same
  | case5 start keyword later plain =>
    constructor
    · rintro ⟨⟩
      exact ⟨[], by simp [Stops, plain]⟩
    · rintro ⟨clauses, -, -, -, whole, rfl⟩
      cases clauses with
      | nil => simp_all
      | cons clause others =>
        simp only [List.flatMap_cons, Clause.tokens, List.cons_append, List.cons.injEq] at whole
        exact absurd (whole.1 ▸ clause.opens) plain

/-- The tokens of some clauses, with a semicolon after them or without. -/
def Ends (clauses : List (Clause sql)) (tokens : List Token) : Prop :=
  tokens = clauses.flatMap Clause.tokens ∨
    tokens = clauses.flatMap Clause.tokens ++ [.semiColon]

theorem trailingClauses_eq_ok_iff {tokens : List Token} {result : TrailingClauses F} :
    trailingClauses sql tokens = .ok result ↔
      ∃ clauses : List (Clause sql), (clauses.map (·.knob)).Nodup ∧ Ends clauses tokens ∧
        result = Clause.collect .default clauses := by
  unfold trailingClauses
  rw [bind_ok_iff]
  constructor
  · rintro ⟨⟨read, rest⟩, taken, ended⟩
    obtain ⟨clauses, distinct, -, -, rfl, rfl⟩ := clausesFrom_ok_iff.mp taken
    dsimp only at ended
    split at ended
    · rename_i nothing
      cases ended
      refine ⟨clauses, distinct, ?_, rfl⟩
      unfold consumeSemiColon at nothing
      split at nothing
      · subst nothing
        exact Or.inr rfl
      · subst nothing
        exact Or.inl (List.append_nil _)
    · cases ended
  · rintro ⟨clauses, distinct, ends, rfl⟩
    rcases ends with rfl | rfl
    · refine ⟨(_, []), clausesFrom_ok_iff.mpr ⟨clauses, distinct, by simp, by simp [Stops], ?_,
        rfl⟩, rfl⟩
      exact (List.append_nil _).symm
    · exact ⟨(_, [.semiColon]), clausesFrom_ok_iff.mpr
        ⟨clauses, distinct, by simp, by simp [Stops, Token.isWith], rfl, rfl⟩, rfl⟩

/-- What follows a statement is read as its trailing clauses exactly where it is made of clauses
with different knobs, each with a fraction, and a semicolon or none; a knob then has the value of
its own clause, whatever the order of the clauses. -/
theorem trailingClauses_spec {tokens : List Token} {result : TrailingClauses F} :
    (trailingClauses sql tokens = .ok result ↔
      ∃ clauses : List (Clause sql), (clauses.map (·.knob)).Nodup ∧ Ends clauses tokens ∧
        ∀ knob value, result.slot knob = some value ↔
          ∃ clause ∈ clauses, clause.knob = knob ∧ clause.value = value) ∧
      ∀ clauses others : List (Clause sql), others.Perm clauses →
        (clauses.map (·.knob)).Nodup → ∀ reordered, Ends others reordered →
          Ends clauses tokens →
            trailingClauses sql reordered = trailingClauses sql tokens := by
  constructor
  · rw [trailingClauses_eq_ok_iff]
    refine exists_congr fun clauses => and_congr_right fun distinct => and_congr_right fun _ => ?_
    constructor
    · rintro rfl knob value
      exact Clause.slot_collect_default distinct
    · intro said
      ext knob value
      simp [said, Clause.slot_collect_default distinct]
  · intro clauses others perm distinct reordered ends' ends
    have distinct' : (others.map (·.knob)).Nodup := (perm.map _).nodup_iff.mpr distinct
    rw [trailingClauses_eq_ok_iff.mpr ⟨clauses, distinct, ends, rfl⟩,
      trailingClauses_eq_ok_iff.mpr ⟨others, distinct', ends', rfl⟩,
      Clause.collect_perm perm distinct]

end Semcast.Recall
