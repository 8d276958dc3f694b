import Semcast.Sql.Distinct

/-!
# Which `DISTINCT ON` is marked

`SEMANTIC` is taken out of the text, and all that the marking of the tree knows of it is
whether there was one. It marks the `DISTINCT ON` of every query body. That is what was
written where these are the `DISTINCT`s written `SEMANTIC`, and only there.
-/

namespace Semcast.SemanticDistinct

open Ast

/-! ## The text -/

/-- For each keyword `DISTINCT`, whether `SEMANTIC` stands before it. The token before
these was one if `previous`. -/
def writtenSemantic (previous : Bool) : List TokenWithSpan → List Bool
  | [] => []
  | token :: rest =>
    if token.token.isWhitespace then writtenSemantic previous rest
    else if token.token.isDistinct then previous :: writtenSemantic token.token.isSemantic rest
    else writtenSemantic token.token.isSemantic rest

theorem isSemantic_of_isWhitespace {token : Token} (blank : token.isWhitespace = true) :
    token.isSemantic = false := by
  cases token with
  | whitespace => rfl
  | _ => simp [Token.isWhitespace] at blank

theorem isSemantic_of_isDistinct {token : Token} (keyword : token.isDistinct = true) :
    token.isSemantic = false := by
  cases token with
  | word w =>
    have isDistinct : w.keyword = .distinct := by simpa [Token.isDistinct] using keyword
    show (w.quoteStyle.isNone && _) = false
    rw [w.keyword_ne isDistinct, Bool.and_false]
  | whitespace => rfl
  | other => rfl

/-- There is a cut where some `DISTINCT` was written `SEMANTIC`. -/
theorem mem_writtenSemantic (previous : Bool) (tokens : List TokenWithSpan) :
    true ∈ writtenSemantic previous tokens ↔
      (previous && distinctNext tokens) = true ∨ hasCuts tokens = true := by
  induction tokens generalizing previous with
  | nil => simp [writtenSemantic, distinctNext, hasCuts]
  | cons token rest ih =>
    by_cases blank : token.token.isWhitespace = true
    · have plain := isSemantic_of_isWhitespace blank
      simp [writtenSemantic, distinctNext, hasCuts, isCut, blank, plain, ih]
    · by_cases keyword : token.token.isDistinct = true
      · have plain := isSemantic_of_isDistinct keyword
        simp [writtenSemantic, distinctNext, hasCuts, isCut, blank, keyword, plain, ih]
      · simp [writtenSemantic, distinctNext, hasCuts, isCut, blank, keyword, ih]

/-- A cut takes no `DISTINCT` out, so each keeps its number in the text. -/
theorem withoutCuts_distincts (tokens : List TokenWithSpan) :
    (withoutCuts tokens).filter (·.token.isDistinct) = tokens.filter (·.token.isDistinct) := by
  induction tokens with
  | nil => rfl
  | cons token rest ih =>
    by_cases cut : isCut token rest = true
    · have plain : token.token.isDistinct = false := by
        by_contra keyword
        have notSemantic := isSemantic_of_isDistinct (Bool.not_eq_false _ ▸ keyword)
        simp [isCut, notSemantic] at cut
      simp [withoutCuts, cut, plain, ih]
    · simp [withoutCuts, cut, List.filter_cons, ih]

section Sql

variable {D : Type} (tokenize : String → Option (List TokenWithSpan))

/-- For each `DISTINCT` of a query, whether it was written `SEMANTIC`. -/
def semanticDistincts (sql : String) : List Bool :=
  match tokenize sql with
  | none => []
  | some tokens => writtenSemantic false tokens

theorem strip_removed_iff (sql : String) :
    (stripSemanticDistinct tokenize sql).2 = true ↔ true ∈ semanticDistincts tokenize sql := by
  unfold stripSemanticDistinct semanticDistincts
  cases tokenize sql with
  | none => simp
  | some tokens =>
    have cuts := mem_writtenSemantic false tokens
    by_cases some : hasCuts tokens = true
    · simp [some, cuts]
    · simp [some, cuts]

end Sql

/-! ## The tree -/

/-- The `DISTINCT` with this number was written `SEMANTIC`. -/
def isWritten (written : List Bool) (keyword : ℕ) : Bool :=
  written.getD keyword false

/-- Marking each `DISTINCT ON` as it was written. -/
def markWritten (written : List Bool) : Pass where
  identifier _ ident := .identifier ident
  wrap _ keyword expr := if isWritten written keyword then keyCall expr else expr

/-- Every `DISTINCT` written `SEMANTIC` is a `DISTINCT ON` of the statement. -/
def AllQualify (written : List Bool) (statement : Statement) : Prop :=
  ∀ keyword, isWritten written keyword = true →
    ∃ isBody exprs, .distinctOn isBody keyword exprs ∈ statement.sites fun _ => []

/-- The expressions of a `DISTINCT ON` are marked just when it was written `SEMANTIC`, and
one that qualifies no `DISTINCT ON` is an error. -/
def MarkedAsWritten {D : Type} (written : List Bool) :
    SemcastStatement D → Except String (SemcastStatement D) → Prop
  | .ddl ddl, result =>
    (true ∉ written → result = .ok (.ddl ddl)) ∧
      (true ∈ written → ∃ message, result = .error message)
  | .sql statement, result =>
    (AllQualify written statement →
        result = .ok (.sql (statement.rewrite (fun _ => []) (markWritten written)))) ∧
      (¬ AllQualify written statement → ∃ message, result = .error message)

/-- `sql` marks the statement of a query as it was written. -/
def HonoursSemantic {D : Type} (tokenize : String → Option (List TokenWithSpan))
    (parse : String → Except String (SemcastStatement D)) (sql : String) : Prop :=
  match parse (stripSemanticDistinct tokenize sql).1 with
  | .error message => parseMarked tokenize parse sql = .error message
  | .ok statement =>
    MarkedAsWritten (semanticDistincts tokenize sql) statement (parseMarked tokenize parse sql)

/-- The `DISTINCT`s written `SEMANTIC` are the `DISTINCT ON`s of query bodies, or there are
none; or some is no `DISTINCT ON`, and no query body has one. -/
def SemanticBodies {D : Type} (written : List Bool) : SemcastStatement D → Prop
  | .ddl _ => true ∉ written
  | .sql statement =>
    true ∉ written ∨
    (¬ AllQualify written statement ∧
      ∀ site ∈ statement.sites fun _ => [], marks site = false) ∨
    (AllQualify written statement ∧ (∃ site ∈ statement.sites fun _ => [], marks site = true) ∧
      ∀ isBody keyword exprs, .distinctOn isBody keyword exprs ∈ statement.sites (fun _ => []) →
        exprs = [] ∨ isBody = isWritten written keyword)

/-! ## Two ways of marking -/

theorem keyCall_injective : Function.Injective keyCall := by
  intro left right same
  simpa [keyCall] using same

theorem keyCall_ne_id : keyCall ≠ id := by
  intro same
  have value := congrFun same (.value (.other ""))
  simp [keyCall] at value

theorem markDistinct_wrap (isBody : Bool) (keyword : ℕ) :
    markDistinct.wrap isBody keyword = if isBody then keyCall else id := by
  cases isBody <;> rfl

theorem markWritten_wrap (written : List Bool) (isBody : Bool) (keyword : ℕ) :
    (markWritten written).wrap isBody keyword =
      if isWritten written keyword then keyCall else id := by
  cases flag : isWritten written keyword
  · simp [markWritten, flag]
    rfl
  · simp [markWritten, flag]

/-- A pass that keeps the identifiers adds no call at the top of an expression. -/
theorem keyCall_rewrite_ne {pass other : Pass} {labels : GroupByExpr → List String}
    (keeps : ∀ scope ident, other.identifier scope ident = .identifier ident)
    (scope : List Name) : (expr : Expr) →
    keyCall (expr.rewrite labels pass scope) ≠ expr.rewrite labels other scope
  | .identifier ident => by simp [Expr.rewrite, keeps, keyCall]
  | .compoundIdentifier idents => by simp [Expr.rewrite, keyCall]
  | .value value => by simp [Expr.rewrite, keyCall]
  | .operator op operands => by simp [Expr.rewrite, keyCall]
  | .subquery op operands query => by simp [Expr.rewrite, keyCall]
  | .function name args clauses => by
    intro same
    simp only [Expr.rewrite, keyCall, Expr.function.injEq, Expr.rewriteList_eq_map] at same
    obtain ⟨rfl, args_, clauses_⟩ := same
    obtain ⟨arg, rfl, inner⟩ := List.map_eq_singleton_iff.mp args_.symm
    have clauses_ : clauses = [] := by simpa using clauses_.symm
    subst clauses_
    -- The one argument comes out as such a call too, and is smaller.
    apply @keyCall_rewrite_ne pass other labels keeps scope arg
    rw [inner]
    rfl

/-- Marking by the place of a `DISTINCT ON` and marking as it was written leave the same
just when they agree on each. -/
theorem markDistinct_separates (written : List Bool) :
    Pass.Separates (fun _ => []) markDistinct (markWritten written) := by
  intro isBody keyword scope expr
  have outer := @keyCall_rewrite_ne markDistinct (markWritten written) (fun _ => [])
    (fun _ _ => rfl) scope expr
  have inner := @keyCall_rewrite_ne (markWritten written) markDistinct (fun _ => [])
    (fun _ _ => rfl) scope expr
  rw [markDistinct_wrap, markWritten_wrap]
  cases isBody <;> cases isWritten written keyword
  · simp
  · simp [keyCall_ne_id.symm, inner.symm]
  · simp [keyCall_ne_id, outer]
  · simp [keyCall_injective.eq_iff]

/-- The two agree on a `DISTINCT ON` that is a query body's and was written `SEMANTIC`, and
on one that is and was neither. -/
theorem agrees_distinctOn_iff (written : List Bool) (isBody : Bool) (keyword : ℕ)
    (exprs : List Expr) :
    markDistinct.Agrees (markWritten written) (.distinctOn isBody keyword exprs) ↔
      exprs = [] ∨ isBody = isWritten written keyword := by
  show exprs = [] ∨ _ = _ ↔ _
  rw [markDistinct_wrap, markWritten_wrap]
  cases isBody <;> cases isWritten written keyword <;>
    simp [keyCall_ne_id, keyCall_ne_id.symm]

theorem rewrite_markDistinct_iff (written : List Bool) (statement : Statement) :
    statement.rewrite (fun _ => []) markDistinct =
        statement.rewrite (fun _ => []) (markWritten written) ↔
      ∀ isBody keyword exprs, .distinctOn isBody keyword exprs ∈ statement.sites (fun _ => []) →
        exprs = [] ∨ isBody = isWritten written keyword := by
  rw [Statement.rewrite_eq_iff (markDistinct_separates written)]
  constructor
  · intro agree isBody keyword exprs mem
    exact (agrees_distinctOn_iff written isBody keyword exprs).mp (agree _ mem)
  · intro same site mem
    cases site with
    | identifier scope ident => exact rfl
    | distinctOn isBody keyword exprs =>
      exact (agrees_distinctOn_iff written isBody keyword exprs).mpr (same _ _ _ mem)

theorem isWritten_eq_false {written : List Bool} (none : true ∉ written) (keyword : ℕ) :
    isWritten written keyword = false := by
  by_contra flag
  have found : written[keyword]? = some true := by
    cases entry : written[keyword]? with
    | none => simp [isWritten, entry] at flag
    | some value => simpa [isWritten, entry] using flag
  exact none (List.mem_of_getElem? found)

/-- With nothing written `SEMANTIC` a statement is marked nowhere. -/
theorem rewrite_markWritten_self {written : List Bool} (none : true ∉ written)
    (statement : Statement) :
    statement.rewrite (fun _ => []) (markWritten written) = statement := by
  apply Statement.rewrite_self
  intro site
  cases site with
  | identifier scope ident => exact rfl
  | distinctOn isBody keyword exprs =>
    show (markWritten written).wrap isBody keyword = id
    simp [markWritten_wrap, isWritten_eq_false none]

/-! ## A query -/

section Sql

variable {D : Type} (tokenize : String → Option (List TokenWithSpan))
  (parse : String → Except String (SemcastStatement D))

theorem parseMarked_eq (sql : String) :
    parseMarked tokenize parse sql =
      match parse (stripSemanticDistinct tokenize sql).1 with
      | .error message => .error message
      | .ok (.ddl ddl) => .ok (.ddl ddl)
      | .ok (.sql statement) =>
        if (stripSemanticDistinct tokenize sql).2 then
          if (statement.sites fun _ => []).any marks then
            .ok (.sql (statement.rewrite (fun _ => []) markDistinct))
          else .error unqualifiedMessage
        else .ok (.sql statement) := rfl

/-- What is made of a parsed statement, where some `DISTINCT` was written `SEMANTIC`. -/
theorem markedAsWritten_iff {written : List Bool} (some : true ∈ written)
    (statement : Statement) :
    MarkedAsWritten (D := D) written (.sql statement)
        (if (statement.sites fun _ => []).any marks then
          .ok (.sql (statement.rewrite (fun _ => []) markDistinct))
        else .error unqualifiedMessage) ↔
      SemanticBodies (D := D) written (.sql statement) := by
  by_cases body : (statement.sites fun _ => []).any marks = true
  · have found : ∃ site ∈ statement.sites fun _ => [], marks site = true :=
      List.any_eq_true.mp body
    have notNone : ¬ ∀ site ∈ statement.sites fun _ => [], marks site = false := by
      obtain ⟨site, mem, marked⟩ := found
      intro unmarked
      simp [unmarked site mem] at marked
    simp only [body, if_true, MarkedAsWritten, SemanticBodies, some, not_true_eq_false, false_or,
      notNone, and_false, Except.ok.injEq, SemcastStatement.sql.injEq,
      rewrite_markDistinct_iff written statement, reduceCtorEq, exists_false, found,
      true_and]
    constructor
    · rintro ⟨same, qualify⟩
      have all : AllQualify written statement := not_not.mp qualify
      exact ⟨all, same all⟩
    · rintro ⟨all, same⟩
      exact ⟨fun _ => same, fun not => not all⟩
  · have unmarked : ∀ site ∈ statement.sites fun _ => [], marks site = false := by
      simpa using body
    have none : ¬ ∃ site ∈ statement.sites fun _ => [], marks site = true := by
      rintro ⟨site, mem, marked⟩
      simp [unmarked site mem] at marked
    simp only [body, MarkedAsWritten, SemanticBodies, some, not_true_eq_false, false_or,
      none, false_and, and_false, or_false, reduceCtorEq, Bool.false_eq_true, if_false,
      Except.error.injEq, exists_eq', implies_true, and_true, imp_false]
    exact ⟨fun not => ⟨not, unmarked⟩, And.left⟩

/-- The statement of a query is marked as it was written just when its `DISTINCT`s written
`SEMANTIC` are the `DISTINCT ON`s of its query bodies, or when there are none; and an error
is given as it should be where one is no `DISTINCT ON` and no query body has any. -/
theorem parseMarked_honours_iff (sql : String) :
    HonoursSemantic tokenize parse sql ↔
      ∀ statement, parse (stripSemanticDistinct tokenize sql).1 = .ok statement →
        SemanticBodies (semanticDistincts tokenize sql) statement := by
  have removed := strip_removed_iff tokenize sql
  unfold HonoursSemantic
  rw [parseMarked_eq]
  cases parsed : parse (stripSemanticDistinct tokenize sql).1 with
  | error message => simp
  | ok statement =>
    simp only [Except.ok.injEq, forall_eq']
    cases statement with
    | ddl ddl =>
      by_cases some : true ∈ semanticDistincts tokenize sql
      · simp [MarkedAsWritten, SemanticBodies, some]
      · simp [MarkedAsWritten, SemanticBodies, some]
    | sql statement =>
      by_cases some : true ∈ semanticDistincts tokenize sql
      · show MarkedAsWritten _ _ (if (stripSemanticDistinct tokenize sql).2 then _ else _) ↔ _
        rw [if_pos (removed.mpr some)]
        exact markedAsWritten_iff some statement
      · have kept : (stripSemanticDistinct tokenize sql).2 = false := by
          simpa [some] using removed
        have all : AllQualify (semanticDistincts tokenize sql) statement := by
          intro keyword flag
          simp [isWritten_eq_false some] at flag
        simp [kept, MarkedAsWritten, SemanticBodies, all, some, rewrite_markWritten_self some]

end Sql

/-! ## A plain `DISTINCT ON` around a semantic one -/

section Nested

/-- An unquoted word, or a token of another kind, with its text. -/
def spelled (text : String) : TokenWithSpan where
  token :=
    if text = " " then .whitespace
    else if text = "DISTINCT" then .word ⟨"DISTINCT", none, .distinct, fun _ => by decide⟩
    else .word ⟨text, none, .other, nofun⟩
  text

/-- The tokens of `nestedQuery`. -/
def nestedTokens : List TokenWithSpan :=
  ["SELECT", " ", "DISTINCT", " ", "ON", " ", "(", "a", ")", " ", "*", " ", "FROM", " ", "(",
    "SELECT", " ", "SEMANTIC", " ", "DISTINCT", " ", "ON", " ", "(", "body", ")", " ", "*", " ",
    "FROM", " ", "t", ")", " ", "s"].map spelled

def nestedQuery : String :=
  "SELECT DISTINCT ON (a) * FROM (SELECT SEMANTIC DISTINCT ON (body) * FROM t) s"

/-- The tree of `nestedQuery`, with these expressions for the columns of its `DISTINCT ON`s. -/
def nestedTree (outer inner : Expr) : Statement :=
  .statement [⟨[], .select ⟨.on 0 [outer], [.wildcard []],
    [.derived false ⟨[], .select ⟨.on 1 [inner], [.wildcard []], [.table [] ["a", "body"]], none,
      .expressions [], none, none, []⟩, []⟩ ["a", "body"]],
    none, .expressions [], none, none, []⟩, []⟩] []

def columnA : Expr := .identifier (.new "a")

def columnBody : Expr := .identifier (.new "body")

/-- The tokenizer and the parser, on `nestedQuery` and on what is left of it. -/
def tokenizeNested (_ : String) : Option (List TokenWithSpan) :=
  some nestedTokens

def parseNested (_ : String) : Except String (SemcastStatement Unit) :=
  .ok (.sql (nestedTree columnA columnBody))

/-- The outer `DISTINCT ON`, a plain one, is marked with the inner. -/
theorem plain_distinct_is_marked :
    stripSemanticDistinct tokenizeNested nestedQuery =
        ("SELECT DISTINCT ON (a) * FROM (SELECT  DISTINCT ON (body) * FROM t) s", true) ∧
      semanticDistincts tokenizeNested nestedQuery = [false, true] ∧
      parseMarked tokenizeNested parseNested nestedQuery =
        .ok (.sql (nestedTree (keyCall columnA) (keyCall columnBody))) ∧
      ¬ HonoursSemantic tokenizeNested parseNested nestedQuery := by
  have written : semanticDistincts tokenizeNested nestedQuery = [false, true] := by
    decide +kernel
  have marked : parseMarked tokenizeNested parseNested nestedQuery =
      .ok (.sql (nestedTree (keyCall columnA) (keyCall columnBody))) := by
    rfl
  have asWritten : (nestedTree columnA columnBody).rewrite (fun _ => [])
      (markWritten [false, true]) = nestedTree columnA (keyCall columnBody) := rfl
  have all : AllQualify [false, true] (nestedTree columnA columnBody) := by
    intro keyword flag
    match keyword with
    | 0 => simp [isWritten] at flag
    | 1 => exact ⟨true, [columnBody], by simp [nestedTree, Statement.sites, Query.sitesList,
        Query.sites, SetExpr.sites, Select.sites, Distinct.sites, TableRef.sitesList,
        TableRef.sites]⟩
    | keyword + 2 => simp [isWritten] at flag
  refine ⟨by decide +kernel, written, marked, ?_⟩
  intro honours
  change MarkedAsWritten (semanticDistincts tokenizeNested nestedQuery)
    (.sql (nestedTree columnA columnBody)) (parseMarked tokenizeNested parseNested nestedQuery)
    at honours
  rw [written, marked] at honours
  have same := honours.1 all
  rw [asWritten] at same
  simp [nestedTree, columnA, keyCall] at same

end Nested

end Semcast.SemanticDistinct
