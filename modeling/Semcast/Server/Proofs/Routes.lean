import Semcast.Server.Engine
import Semcast.Server.Proofs.SplitStable
import Semcast.Server.Routes
import Semcast.Sql.Proofs.TokenCuts

/-!
# Routes are read off the tokens

Comments in front of a statement change neither where it goes nor what is sent there, and
none of the session statements gets to the engine. What is submitted is a piece of the
statement as it was sent.
-/

namespace Semcast.Routes

open Head Router Verify

variable {sqlparser : Sqlparser} {tokenizer : Tokenizer}

/-- The tokens of a text that are no whitespace, each with its text. -/
def significant (tokenizer : Tokenizer) (sql : String) :
    Option (List SemanticDistinct.TokenWithSpan) :=
  (tokenizer.cut sql).map fun tokens => tokens.filter (!·.token.isWhitespace)

/-- What is documented of `sqlparser`: a tokenizer, and a parser that skips whitespace. -/
structure Lawful (sqlparser : Sqlparser) (tokenizer : Tokenizer) : Prop where
  tokenize : sqlparser.tokenize = tokenizer.tokenize
  parseSql : ∀ {sql sql'}, significant tokenizer sql = significant tokenizer sql' →
    sqlparser.parseSql sql = sqlparser.parseSql sql'

/-! ## Blanks in front -/

theorem map_token_located (before : List Char) (tokens : List SemanticDistinct.TokenWithSpan) :
    ((located before tokens).filter (!·.token.isWhitespace)).map (·.token) =
      (tokens.filter (!·.token.isWhitespace)).map (·.token) := by
  induction tokens generalizing before with
  | nil => rfl
  | cons token rest ih =>
    simp only [located, List.filter_cons]
    split <;> simp [ih]

theorem mapWhile_map {α β γ : Type} (f : β → Option γ) (g : α → β) (items : List α) :
    mapWhile (fun item => f (g item)) items = mapWhile f (items.map g) := by
  induction items with
  | nil => rfl
  | cons item rest ih => simp only [mapWhile, List.map_cons, ih]

/-- The leading words are those of the significant tokens. -/
theorem leadingWords_eq (sql : String) (n : ℕ) :
    leadingWords tokenizer.tokenize sql n =
      ((significant tokenizer sql).map fun tokens =>
        mapWhile unquotedWord ((tokens.map (·.token)).take n)).getD [] := by
  unfold leadingWords significant Tokenizer.tokenize
  cases tokenizer.cut sql with
  | none => rfl
  | some tokens =>
    simp only [Option.map_some, Option.getD_some]
    rw [mapWhile_map unquotedWord, List.map_take, map_token_located]

theorem dropWhile_blanks {blanks tokens : List SemanticDistinct.TokenWithSpan}
    (blank : ∀ token ∈ blanks, token.token.isWhitespace = true) :
    (blanks ++ tokens).dropWhile (·.token.isWhitespace) =
      tokens.dropWhile (·.token.isWhitespace) :=
  List.dropWhile_append_of_pos blank

section Blanks

variable {sql sql' : String} {blanks tokens : List SemanticDistinct.TokenWithSpan}
  (cut : tokenizer.cut sql = some tokens) (cut' : tokenizer.cut sql' = some (blanks ++ tokens))
  (blank : ∀ token ∈ blanks, token.token.isWhitespace = true)
include cut cut' blank

theorem significant_blanks : significant tokenizer sql' = significant tokenizer sql := by
  have skipped : blanks.filter (!·.token.isWhitespace) = [] := by
    simpa [List.filter_eq_nil_iff] using blank
  simp [significant, cut, cut', skipped]

theorem leadingWords_blanks (n : ℕ) :
    leadingWords tokenizer.tokenize sql' n = leadingWords tokenizer.tokenize sql n := by
  rw [leadingWords_eq, leadingWords_eq, significant_blanks cut cut' blank]

/-- A keyword is cut off with the blanks in front of it. -/
theorem stripLeadingKeyword_blanks (keyword : String) :
    stripLeadingKeyword tokenizer.tokenize sql' keyword =
      stripLeadingKeyword tokenizer.tokenize sql keyword := by
  rw [stripLeadingKeyword_eq, stripLeadingKeyword_eq, cut, cut', Option.bind_some,
    Option.bind_some, afterKeyword, afterKeyword, dropWhile_blanks blank]

theorem classify_blanks (lawful : Lawful sqlparser tokenizer) :
    classify sqlparser sql' = classify sqlparser sql := by
  have strips := stripLeadingKeyword_blanks cut cut' blank
  have words := leadingWords_blanks cut cut' blank 1
  have parsed := lawful.parseSql (significant_blanks cut cut' blank)
  unfold classify parseSubmit parseCancelJob classifySql
  rw [lawful.tokenize, strips, strips, words, parsed]

theorem commandTag_blanks :
    QueryEngine.commandTag tokenizer.tokenize sql' =
      QueryEngine.commandTag tokenizer.tokenize sql := by
  unfold QueryEngine.commandTag
  rw [leadingWords_blanks cut cut' blank]

end Blanks

/-! ## What goes where -/

theorem exists_stripLeadingKeyword (sql keyword : String) :
    ∃ rest, stripLeadingKeyword tokenizer.tokenize sql keyword = some rest :=
  ⟨_, stripLeadingKeyword_eq tokenizer sql keyword⟩

/-- Every statement has a route. -/
theorem exists_classify (lawful : Lawful sqlparser tokenizer) (sql : String) :
    ∃ route, classify sqlparser sql = some route := by
  unfold classify parseSubmit parseCancelJob
  rw [lawful.tokenize]
  obtain ⟨submit, submits⟩ := @exists_stripLeadingKeyword tokenizer sql "submit"
  obtain ⟨cancel, cancels⟩ := @exists_stripLeadingKeyword tokenizer sql "cancel"
  rw [submits, cancels, Option.map_some, Option.bind_some, Option.bind_some]
  cases submit.bind fun rest => if rest.isEmpty then none else some rest with
  | some job => exact ⟨_, rfl⟩
  | none =>
    cases cancel with
    | none => exact ⟨_, rfl⟩
    | some rest =>
      obtain ⟨job, jobs⟩ := @exists_stripLeadingKeyword tokenizer rest "job"
      dsimp only
      rw [jobs]
      exact ⟨_, rfl⟩

theorem suffix_of_afterKeyword {keyword : String}
    {tokens later : List SemanticDistinct.TokenWithSpan}
    (after : afterKeyword keyword tokens = some later) : later <:+ tokens := by
  unfold afterKeyword at after
  have dropped := tokens.dropWhile_suffix (·.token.isWhitespace)
  split at after
  · cases after
  · rename_i first rest left
    rw [Option.ite_none_right_eq_some] at after
    obtain ⟨-, same⟩ := after
    cases same
    rw [left] at dropped
    exact (rest.dropWhile_suffix _).trans ((List.suffix_cons first rest).trans dropped)

/-- What is left after a keyword is a piece of the statement, with blanks after it. -/
theorem stripLeadingKeyword_piece {sql keyword rest : String}
    (strips : stripLeadingKeyword tokenizer.tokenize sql keyword = some (some rest)) :
    ∃ before after, Blank after ∧ sql.toList = before ++ rest.toList ++ after := by
  rw [stripLeadingKeyword_eq, Option.some.injEq, Option.map_eq_some_iff] at strips
  obtain ⟨later, found, rfl⟩ := strips
  obtain ⟨tokens, cut, after⟩ := Option.bind_eq_some_iff.mp found
  obtain ⟨front, whole⟩ := suffix_of_afterKeyword after
  obtain ⟨left, right, -, blank, text⟩ := exists_trimmed (chars later)
  refine ⟨chars front ++ left, right, blank, ?_⟩
  rw [tokenizer.toList_eq cut, ← whole, chars, List.flatMap_append]
  simpa [trim, chars] using text.symm

theorem routeOf_ne_submit (parsed : Statement) (job : String) : routeOf parsed ≠ .submit job := by
  cases parsed with
  | showVariable idents =>
    unfold routeOf
    dsimp only
    split
    · simp
    · split <;> simp
  | _ => simp [routeOf]

theorem classifySql_ne_submit (sql job : String) : classifySql sqlparser sql ≠ .submit job := by
  unfold classifySql
  split
  · simp
  · split
    · exact routeOf_ne_submit _ job
    · simp

/-- What is submitted is what is left after the keyword. -/
theorem classify_submit {sql job : String} (goes : classify sqlparser sql = some (.submit job)) :
    stripLeadingKeyword sqlparser.tokenize sql "submit" = some (some job) ∧ job ≠ "" := by
  obtain ⟨submit, submits, goes⟩ := Option.bind_eq_some_iff.mp goes
  cases submit with
  | none =>
    obtain ⟨cancel, -, route⟩ := Option.map_eq_some_iff.mp goes
    split at route
    · cases route
    · exact absurd route (classifySql_ne_submit sql job)
    · cases route
  | some payload =>
    cases goes
    obtain ⟨rest, strips, kept⟩ := Option.map_eq_some_iff.mp submits
    obtain ⟨rest, rfl, kept⟩ := Option.bind_eq_some_iff.mp kept
    obtain ⟨nonempty, same⟩ := Option.ite_none_left_eq_some.mp kept
    cases same
    exact ⟨strips, by simpa using nonempty⟩

/-- A statement that is one session statement for the parser is no statement of the engine. -/
theorem classify_engine {sql : String} {parsed : Statement}
    (goes : classify sqlparser sql = some .engine)
    (parses : sqlparser.parseSql sql = some [parsed]) : routeOf parsed = .engine := by
  obtain ⟨submit, submits, goes⟩ := Option.bind_eq_some_iff.mp goes
  cases submit with
  | some payload => cases goes
  | none =>
    obtain ⟨cancel, -, route⟩ := Option.map_eq_some_iff.mp goes
    split at route
    · cases route
    · unfold classifySql at route
      rw [parses] at route
      split at route
      · cases route
      · exact route
    · cases route

/-- Every statement has a route. Comments in front change neither it nor the command tag, a
session statement never gets to the engine, and what is submitted is a piece of the statement
itself. -/
theorem classify_spec (lawful : Lawful sqlparser tokenizer) (sql : String) :
    (∃ route, classify sqlparser sql = some route) ∧
      (∀ tokens blanks sql', tokenizer.cut sql = some tokens →
        (∀ token ∈ blanks, token.token.isWhitespace = true) →
        tokenizer.cut sql' = some (blanks ++ tokens) →
          classify sqlparser sql' = classify sqlparser sql ∧
            QueryEngine.commandTag sqlparser.tokenize sql' =
              QueryEngine.commandTag sqlparser.tokenize sql) ∧
        (∀ parsed, sqlparser.parseSql sql = some [parsed] → routeOf parsed ≠ .engine →
          classify sqlparser sql ≠ some .engine) ∧
          ∀ job, classify sqlparser sql = some (.submit job) → job ≠ "" ∧
            ∃ before after, Blank after ∧ sql.toList = before ++ job.toList ++ after := by
  refine ⟨exists_classify lawful sql, ?_, ?_, ?_⟩
  · intro tokens blanks sql' cut blank cut'
    rw [lawful.tokenize]
    exact ⟨classify_blanks cut cut' blank lawful, commandTag_blanks cut cut' blank⟩
  · intro parsed parses chatter goes
    exact chatter (classify_engine goes parses)
  · intro job goes
    obtain ⟨strips, nonempty⟩ := classify_submit goes
    rw [lawful.tokenize] at strips
    exact ⟨nonempty, stripLeadingKeyword_piece strips⟩

/-! ## A comment in front of a `SET` -/

def assignment : List SemanticDistinct.TokenWithSpan :=
  [⟨.word ⟨"set", none, .other, by simp⟩, "set"⟩, ⟨.whitespace, " "⟩,
    ⟨.word ⟨"a", none, .other, by simp⟩, "a"⟩, ⟨.other, "="⟩, ⟨.other, "1"⟩]

def note : List SemanticDistinct.TokenWithSpan :=
  [⟨.whitespace, "--n\n"⟩]

/-- A tokenizer that knows the statement with and without the comment. -/
def noteTokenizer : Tokenizer where
  cut sql :=
    if sql = "set a=1" then some assignment
    else if sql = "--n\nset a=1" then some (note ++ assignment)
    else none
  joined sql tokens found := by
    split_ifs at found with plain commented
    · cases found
      rw [plain]
      decide +kernel
    · cases found
      rw [commented]
      decide +kernel

def noteParser : Sqlparser where
  tokenize := noteTokenizer.tokenize
  parseSql sql := (significant noteTokenizer sql).bind fun tokens =>
    if tokens.map (·.text) = ["set", "a", "=", "1"] then some [.set] else none
  tokenizeId _ := .ok []
  unexpected _ := ""

theorem noteParser_lawful : Lawful noteParser noteTokenizer where
  tokenize := rfl
  parseSql same := by simp only [noteParser, same]

theorem note_classified :
    classify noteParser "--n\nset a=1" = classify noteParser "set a=1" ∧
      classify noteParser "set a=1" ≠ some .engine := by
  obtain ⟨-, comments, chatter, -⟩ := classify_spec noteParser_lawful "set a=1"
  have same := comments assignment note "--n\nset a=1" rfl (by simp [note]; rfl) rfl
  exact ⟨same.1, chatter .set (by decide +kernel) (by decide)⟩

end Semcast.Routes
