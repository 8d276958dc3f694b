import Mathlib.Data.List.Basic
import Semcast.Server.Router

/-!
# Where a query string is cut

The scanner loses nothing of a text, and cuts it at semicolons. The tokenizer that parses
the statements is outside the repository; what is assumed of its tokens is `TokenRule`. A
token of any other kind may hold any text.
-/

namespace Semcast.Router

/-! ## Nothing is lost -/

theorem skipQuoted_append (quote : Char) (text : List Char) :
    (skipQuoted quote text).run ++ (skipQuoted quote text).left = text := by
  fun_induction skipQuoted quote text with
  | case1 => rfl
  | case2 => rfl
  | case3 later ih => simpa [Skipped.after] using ih
  | case4 => rfl
  | case5 c rest other ih => simpa [Skipped.after] using ih

theorem skipBlockComment_append (depth : Int) (text : List Char) :
    (skipBlockComment depth text).run ++ (skipBlockComment depth text).left = text := by
  fun_induction skipBlockComment depth text with
  | case1 depth rest ih => simpa [Skipped.after] using ih
  | case2 => rfl
  | case3 depth rest more ih => simpa [Skipped.after] using ih
  | case4 depth c rest no_open no_close ih => simpa [Skipped.after] using ih
  | case5 => rfl

theorem append_of_findBefore {delim text before : List Char}
    (found : findBefore delim text = some before) : before ++ delim <+: text := by
  induction text generalizing before with
  | nil =>
    rw [findBefore] at found
    split at found
    · rename_i nothing
      cases found
      simp [List.isEmpty_iff.mp nothing]
    · cases found
  | cons c rest ih =>
    rw [findBefore] at found
    split at found
    · rename_i here
      cases found
      exact List.isPrefixOf_iff_prefix.mp here
    · obtain ⟨later, there, rfl⟩ := Option.map_eq_some_iff.mp found
      exact List.cons_prefix_cons.mpr ⟨rfl, ih there⟩

theorem takeWhile_dollar {tag rest : List Char} (tagged : tag ++ ['$'] <+: rest)
    (free : '$' ∉ tag) : rest.takeWhile (· ≠ '$') = tag := by
  obtain ⟨body, rfl⟩ := tagged
  rw [List.append_assoc, List.takeWhile_append_of_pos]
  · simp
  · intro c member
    simpa using fun same : c = '$' => free (same ▸ member)

/-- The tag ends at the next `$`. -/
theorem dollarTag_eq_some_iff {isAlphanumeric : Char → Bool} {tag rest : List Char} :
    dollarTag isAlphanumeric rest = some tag ↔
      tag ++ ['$'] <+: rest ∧ '$' ∉ tag ∧
        tag.all (fun c => isAlphanumeric c || c == '_') = true := by
  unfold dollarTag
  dsimp only
  constructor
  · intro opened
    split at opened
    · rename_i short
      cases Option.some.inj opened
      obtain ⟨within, named⟩ := Bool.and_eq_true_iff.mp short
      have free : '$' ∉ rest.takeWhile (· ≠ '$') := by
        intro member
        simpa using List.all_eq_true.mp List.all_takeWhile _ member
      have whole := @List.takeWhile_append_dropWhile _ (· ≠ '$') rest
      cases left : rest.dropWhile (· ≠ '$') with
      | nil =>
        rw [left, List.append_nil] at whole
        rw [whole] at within
        simp at within
      | cons head later =>
        have stops := List.head?_dropWhile_not (· ≠ '$') rest
        rw [left] at stops
        have dollar : head = '$' := by simpa using stops
        rw [left, dollar] at whole
        exact ⟨⟨later, by simpa using whole⟩, free, named⟩
    · cases opened
  · rintro ⟨tagged, free, named⟩
    have length := tagged.length_le
    rw [List.length_append, List.length_singleton] at length
    rw [takeWhile_dollar tagged free, if_pos]
    exact Bool.and_eq_true_iff.mpr ⟨decide_eq_true length, named⟩

theorem skipDollarQuoted_of_tag {isAlphanumeric : Char → Bool} {tag body : List Char}
    (opened : dollarTag isAlphanumeric (tag ++ ['$'] ++ body) = some tag) :
    skipDollarQuoted isAlphanumeric (tag ++ ['$'] ++ body) =
      match findBefore ('$' :: tag ++ ['$']) body with
      | some before =>
        ⟨'$' :: tag ++ ['$'] ++ before ++ ('$' :: tag ++ ['$']),
          body.drop (before.length + ('$' :: tag ++ ['$']).length)⟩
      | none => ⟨'$' :: (tag ++ ['$'] ++ body), []⟩ := by
  have after : (tag ++ ['$'] ++ body).drop (tag.length + 1) = body := by
    have length : (tag ++ ['$']).length = tag.length + 1 := by simp
    rw [← length, List.drop_left]
  cases found : findBefore ('$' :: tag ++ ['$']) body with
  | none => simp only [skipDollarQuoted, opened, after, found]
  | some before => simp only [skipDollarQuoted, opened, after, found]

theorem skipDollarQuoted_append (isAlphanumeric : Char → Bool) (rest : List Char) :
    (skipDollarQuoted isAlphanumeric rest).run ++ (skipDollarQuoted isAlphanumeric rest).left =
      '$' :: rest := by
  cases opened : dollarTag isAlphanumeric rest with
  | none => simp [skipDollarQuoted, opened]
  | some tag =>
    obtain ⟨⟨body, rfl⟩, -⟩ := dollarTag_eq_some_iff.mp opened
    rw [skipDollarQuoted_of_tag opened]
    split
    · rename_i before found
      obtain ⟨after, rfl⟩ := append_of_findBefore found
      dsimp only
      rw [← List.length_append, List.drop_left]
      simp
    · exact List.append_nil _

theorem skip_append (isAlphanumeric : Char → Bool) (c : Char) (rest : List Char) :
    (skip isAlphanumeric c rest).run ++ (skip isAlphanumeric c rest).left = c :: rest := by
  unfold skip
  split
  · simpa [Skipped.after] using skipQuoted_append c rest
  split
  · rename_i dollar
    rw [dollar, skipDollarQuoted_append]
  split
  · simp
  split
  · exact skipBlockComment_append 0 (c :: rest)
  · rfl

theorem skipBlockComment_run_ne_nil (depth : Int) (c : Char) (rest : List Char) :
    (skipBlockComment depth (c :: rest)).run ≠ [] := by
  unfold skipBlockComment
  split
  · simp [Skipped.after]
  · split <;> simp [Skipped.after]
  · simp [Skipped.after]
  · rename_i nothing
    cases nothing

/-- A round takes a character at least. -/
theorem skip_run_ne_nil (isAlphanumeric : Char → Bool) (c : Char) (rest : List Char) :
    (skip isAlphanumeric c rest).run ≠ [] := by
  unfold skip
  split
  · simp [Skipped.after]
  split
  · unfold skipDollarQuoted
    cases dollarTag isAlphanumeric rest with
    | none => simp
    | some tag =>
      dsimp only
      split <;> simp
  split
  · simp
  split
  · exact skipBlockComment_run_ne_nil 0 c rest
  · simp

theorem length_left_lt {run left text : List Char} (whole : run ++ left = text)
    (nonempty : run ≠ []) : left.length < text.length := by
  have some := List.length_pos_iff.mpr nonempty
  rw [← whole, List.length_append]
  omega

theorem length_skip_lt (isAlphanumeric : Char → Bool) (c : Char) (rest : List Char) :
    (skip isAlphanumeric c rest).left.length < rest.length + 1 :=
  length_left_lt (skip_append isAlphanumeric c rest) (skip_run_ne_nil isAlphanumeric c rest)

theorem piecesFrom_ne_nil (isAlphanumeric : Char → Bool) (fuel : Nat) (current text : List Char) :
    piecesFrom isAlphanumeric fuel current text ≠ [] := by
  fun_induction piecesFrom isAlphanumeric fuel current text with
  | case1 => simp
  | case2 => simp
  | case3 => simp
  | case4 fuel current c rest not_cut skipped ih => exact ih

theorem intercalate_piecesFrom (isAlphanumeric : Char → Bool) {fuel : Nat} {text : List Char}
    (enough : text.length ≤ fuel) (current : List Char) :
    [';'].intercalate (piecesFrom isAlphanumeric fuel current text) = current ++ text := by
  fun_induction piecesFrom isAlphanumeric fuel current text with
  | case1 => simp
  | case2 current text some => exact absurd (List.length_eq_zero_iff.mp (by omega)) some
  | case3 fuel current rest ih =>
    obtain ⟨next, others, more⟩ := List.exists_cons_of_ne_nil
      (piecesFrom_ne_nil isAlphanumeric fuel [] rest)
    have joined := ih (by simpa using enough)
    rw [more] at joined ⊢
    rw [List.intercalate_cons_cons, joined]
    simp
  | case4 fuel current c rest not_cut skipped ih =>
    have shorter := length_skip_lt isAlphanumeric c rest
    rw [List.length_cons] at enough
    have left : (skip isAlphanumeric c rest).left.length ≤ fuel := by omega
    rw [ih left, List.append_assoc, skip_append isAlphanumeric c rest]

/-- The cuts are at semicolons, and nothing else of the text is lost. -/
theorem intercalate_pieces (isAlphanumeric : Char → Bool) (input : List Char) :
    [';'].intercalate (pieces isAlphanumeric input) = input :=
  intercalate_piecesFrom isAlphanumeric (Nat.le_refl _) []

/-! ## The tokens of a text -/

def backtick : Char := Char.ofNat 0x60

/-- The kinds of tokens, as far as the cuts depend on them. -/
inductive TokenKind where
  | semicolon
  /-- A string `'...'`, or an identifier `"..."` or in backticks. -/
  | quoted (quote : Char)
  /-- `E'...'`. -/
  | escaped
  /-- A string with one of the other `marks` in front, as `N'...'` and `U&'...'`. -/
  | prefixed (mark : List Char) (quote : Char)
  | dollarQuoted (tag : List Char)
  | lineComment
  | blockComment
  | other
  deriving DecidableEq

structure Token where
  kind : TokenKind
  text : List Char
  deriving DecidableEq

/-- The text of some tokens. -/
def texts (tokens : List Token) : List Char := tokens.flatMap Token.text

/-- What may stand in front of a string, besides the `E`. -/
def marks : List (List Char) :=
  [['N'], ['n'], ['X'], ['x'], ['B'], ['b'], ['R'], ['r'], ['U', '&'], ['u', '&']]

/-- Every quote in the text is one of a pair. -/
def doubled (quote : Char) : List Char → Bool
  | [] => true
  | c :: rest =>
    if c = quote then
      match rest with
      | [] => false
      | next :: later => next == quote && doubled quote later
    else doubled quote rest

/-- Every quote in the text is one of a pair or follows a backslash. -/
def escapes : List Char → Bool
  | [] => true
  | '\\' :: _ :: rest => escapes rest
  | '\'' :: '\'' :: rest => escapes rest
  | c :: rest => c != '\'' && escapes rest

/-- The comments that are open at this depth are closed where the text ends, and not
before. -/
def closes : Int → List Char → Bool
  | depth, '/' :: '*' :: rest => closes (depth + 1) rest
  | depth, '*' :: '/' :: rest =>
    if depth - 1 = 0 then rest.isEmpty else closes (depth - 1) rest
  | depth, _ :: rest => closes depth rest
  | _, [] => false

/-- What is assumed of a token before this rest of the text: strings and identifiers double
their quote, an `E'...'` string takes backslash escapes too, block comments nest, and a
line comment ends at the newline. What a string with another mark takes for a quote in it is
left open. -/
def TokenRule (isAlphanumeric : Char → Bool) (token : Token) (rest : List Char) : Prop :=
  match token.kind with
  | .semicolon => token.text = [';']
  | .quoted quote =>
    (quote = '\'' ∨ quote = '"' ∨ quote = backtick) ∧
      ∃ body, token.text = quote :: (body ++ [quote]) ∧ doubled quote body = true ∧
        rest.head? ≠ some quote
  | .escaped =>
    ∃ e body, (e = 'E' ∨ e = 'e') ∧ token.text = e :: '\'' :: (body ++ ['\'']) ∧
      escapes body = true ∧ rest.head? ≠ some '\''
  | .prefixed mark quote =>
    mark ∈ marks ∧ (quote = '\'' ∨ quote = '"') ∧
      ∃ body, token.text = mark ++ quote :: (body ++ [quote]) ∧ rest.head? ≠ some quote
  | .dollarQuoted tag =>
    tag.all (fun c => isAlphanumeric c || c == '_') = true ∧ '$' ∉ tag ∧
      ∃ body, token.text = '$' :: tag ++ ['$'] ++ body ++ ('$' :: tag ++ ['$'])
  | .lineComment =>
    ∃ body, '\n' ∉ body ∧
      (token.text = '-' :: '-' :: (body ++ ['\n']) ∨ token.text = '-' :: '-' :: body ∧ rest = [])
  | .blockComment => (∃ body, token.text = '/' :: '*' :: body) ∧ closes 0 token.text = true
  | .other => True

/-- Each token follows its rule. -/
def Follow (isAlphanumeric : Char → Bool) : List Token → Prop
  | [] => True
  | token :: later => TokenRule isAlphanumeric token (texts later) ∧ Follow isAlphanumeric later

/-- What is assumed of a tokenizer: its tokens are the text it accepts, and follow the
rules. -/
structure Tokenizes (isAlphanumeric : Char → Bool) (tokenize : String → Option (List Token)) :
    Prop where
  whole : ∀ text tokens, tokenize text = some tokens → texts tokens = text.toList
  follow : ∀ text tokens, tokenize text = some tokens → Follow isAlphanumeric tokens

/-- The texts between the semicolon tokens. -/
def tokenPieces (current : List Char) : List Token → List (List Char)
  | [] => [current]
  | token :: later =>
    if token.kind = .semicolon then current :: tokenPieces [] later
    else tokenPieces (current ++ token.text) later

/-! ## What the scanner passes -/

/-- A text that starts with a semicolon, a quote, a dollar quote or a comment. -/
def opens (isAlphanumeric : Char → Bool) : List Char → Bool
  | [] => false
  | c :: rest =>
    c == ';' || c == '\'' || c == '"' ||
      (c == '$' && (dollarTag isAlphanumeric rest).isSome) ||
      (c == '-' && rest.head? == some '-') || (c == '/' && rest.head? == some '*')

/-- Nothing opens within the text, before this rest. -/
def plain (isAlphanumeric : Char → Bool) : List Char → List Char → Bool
  | [], _ => true
  | c :: text, rest =>
    !opens isAlphanumeric (c :: (text ++ rest)) && plain isAlphanumeric text rest

/-- The tokens that `split_statements` reads as the tokenizer does: of an identifier in
backticks and of a token of another kind it sees nothing, a backslash before a quote does
not matter to where a string with a mark ends, and no `$tag$` begins within a text that is
quoted with it. -/
def readAlike (isAlphanumeric : Char → Bool) (token : Token) (rest : List Char) : Bool :=
  match token.kind with
  | .quoted quote => quote != backtick || plain isAlphanumeric token.text rest
  | .escaped => doubled '\'' (token.text.drop 2).dropLast
  | .prefixed mark quote => doubled quote (token.text.drop (mark.length + 1)).dropLast
  | .dollarQuoted tag =>
    findBefore ('$' :: tag ++ ['$']) (token.text.drop (tag.length + 2)) =
      some ((token.text.drop (tag.length + 2)).take
        (token.text.length - 2 * (tag.length + 2)))
  | .other => plain isAlphanumeric token.text rest
  | _ => true

def allReadAlike (isAlphanumeric : Char → Bool) : List Token → Bool
  | [] => true
  | token :: later =>
    readAlike isAlphanumeric token (texts later) && allReadAlike isAlphanumeric later

theorem skipQuoted_cons_of_ne {quote c : Char} (other : c ≠ quote) (rest : List Char) :
    skipQuoted quote (c :: rest) = (skipQuoted quote rest).after [c] := by
  cases rest <;> simp [skipQuoted, other]

theorem skipQuoted_doubled {quote : Char} {body rest : List Char}
    (pairs : doubled quote body = true) (ends : rest.head? ≠ some quote) :
    skipQuoted quote (body ++ quote :: rest) = ⟨body ++ [quote], rest⟩ := by
  fun_induction doubled quote body with
  | case1 =>
    cases rest with
    | nil => simp [skipQuoted]
    | cons next later =>
      have other : next ≠ quote := by simpa using ends
      simp [skipQuoted, other]
  | case2 => cases pairs
  | case3 next later ih =>
    obtain ⟨same, pairs⟩ := Bool.and_eq_true_iff.mp pairs
    have same : next = quote := by simpa using same
    simp [skipQuoted, same, ih pairs, Skipped.after]
  | case4 c rest' other ih =>
    rw [List.cons_append, skipQuoted_cons_of_ne other, ih pairs]
    rfl

theorem skipBlockComment_closes {depth : Int} {text rest : List Char}
    (closed : closes depth text = true) :
    skipBlockComment depth (text ++ rest) = ⟨text, rest⟩ := by
  fun_induction closes depth text with
  | case1 depth later ih => simp [skipBlockComment, ih closed, Skipped.after]
  | case2 depth later last =>
    have nothing : later = [] := by simpa using closed
    simp [skipBlockComment, last, nothing]
  | case3 depth later more ih => simp [skipBlockComment, more, ih closed, Skipped.after]
  | case4 depth c later no_open no_close ih =>
    cases later with
    | nil => cases closed
    | cons next others =>
      rw [List.cons_append, List.cons_append, skipBlockComment]
      · rw [← List.cons_append, ih closed]
        rfl
      · rintro opened rfl same
        obtain ⟨rfl, rfl⟩ := List.cons.inj same
        exact no_open _ rfl rfl
      · rintro opened rfl same
        obtain ⟨rfl, rfl⟩ := List.cons.inj same
        exact no_close _ rfl rfl
  | case5 => cases closed

theorem length_le_of_findBefore {delim text before : List Char}
    (found : findBefore delim text = some before) : delim.length ≤ text.length := by
  induction text generalizing before with
  | nil =>
    rw [findBefore] at found
    split at found
    · rename_i nothing
      simp [List.isEmpty_iff.mp nothing]
    · cases found
  | cons c rest ih =>
    rw [findBefore] at found
    split at found
    · rename_i here
      exact (List.isPrefixOf_iff_prefix.mp here).length_le
    · obtain ⟨later, there, -⟩ := Option.map_eq_some_iff.mp found
      exact Nat.le_succ_of_le (ih there)

/-- What is found in a text is found with anything after it. -/
theorem findBefore_append {delim text before : List Char}
    (found : findBefore delim text = some before) (nonempty : delim ≠ []) (rest : List Char) :
    findBefore delim (text ++ rest) = some before := by
  induction text generalizing before with
  | nil => simp [findBefore, nonempty] at found
  | cons c later ih =>
    rw [findBefore] at found
    rw [List.cons_append, findBefore]
    by_cases here : delim.isPrefixOf (c :: later) = true
    · rw [if_pos here] at found
      have longer : delim.isPrefixOf (c :: (later ++ rest)) = true :=
        List.isPrefixOf_iff_prefix.mpr
          ((List.isPrefixOf_iff_prefix.mp here).trans (List.prefix_append (c :: later) rest))
      rw [if_pos longer, found]
    · rw [if_neg here] at found
      obtain ⟨before, there, rfl⟩ := Option.map_eq_some_iff.mp found
      -- An occurrence that begins here would end within the text.
      have still : ¬ delim.isPrefixOf (c :: (later ++ rest)) = true := by
        intro longer
        apply here
        apply List.isPrefixOf_iff_prefix.mpr
        exact List.prefix_of_prefix_length_le (List.isPrefixOf_iff_prefix.mp longer)
          (List.prefix_append (c :: later) rest)
          (Nat.le_succ_of_le (length_le_of_findBefore there))
      rw [if_neg still, ih there]
      rfl

section Scan

variable {isAlphanumeric : Char → Bool}

theorem skip_of_not_opens {c : Char} {rest : List Char}
    (quiet : opens isAlphanumeric (c :: rest) = false) :
    c ≠ ';' ∧ skip isAlphanumeric c rest = ⟨[c], rest⟩ := by
  simp only [opens, Bool.or_eq_false_iff, beq_eq_false_iff_ne, Bool.and_eq_false_iff] at quiet
  obtain ⟨⟨⟨⟨⟨no_cut, no_string⟩, no_identifier⟩, no_dollar⟩, no_line⟩, no_block⟩ := quiet
  refine ⟨no_cut, ?_⟩
  rw [skip, if_neg (by simp [no_string, no_identifier])]
  by_cases dollar : c = '$'
  · have no_tag : dollarTag isAlphanumeric rest = none := by
      simpa using no_dollar.resolve_left (by simp [dollar])
    rw [if_pos dollar, skipDollarQuoted, no_tag, dollar]
  · rw [if_neg dollar, if_neg fun both => ?_, if_neg fun both => ?_]
    · exact no_block.elim (fun other => other both.1) fun other => other both.2
    · exact no_line.elim (fun other => other both.1) fun other => other both.2

/-- The scanner skips this text at once. -/
theorem piecesFrom_skip {c : Char} {text rest : List Char} (not_cut : c ≠ ';')
    (skips : skip isAlphanumeric c (text ++ rest) = ⟨c :: text, rest⟩) {fuel : Nat}
    (enough : text.length + 1 + rest.length ≤ fuel) (current : List Char) :
    ∃ fuel', rest.length ≤ fuel' ∧
      piecesFrom isAlphanumeric fuel current (c :: text ++ rest) =
        piecesFrom isAlphanumeric fuel' (current ++ c :: text) rest := by
  cases fuel with
  | zero => omega
  | succ fuel =>
    refine ⟨fuel, by omega, ?_⟩
    rw [List.cons_append, piecesFrom, if_neg not_cut]
    dsimp only
    rw [skips]

/-- The scanner passes a plain text character by character. -/
theorem piecesFrom_plain {text rest : List Char} (quiet : plain isAlphanumeric text rest = true)
    {fuel : Nat} (enough : text.length + rest.length ≤ fuel) (current : List Char) :
    ∃ fuel', rest.length ≤ fuel' ∧
      piecesFrom isAlphanumeric fuel current (text ++ rest) =
        piecesFrom isAlphanumeric fuel' (current ++ text) rest := by
  induction text generalizing fuel current with
  | nil => exact ⟨fuel, by simpa using enough, by simp⟩
  | cons c text ih =>
    obtain ⟨first, quiet⟩ := Bool.and_eq_true_iff.mp quiet
    obtain ⟨not_cut, skips⟩ := skip_of_not_opens (by simpa using first)
    rw [List.length_cons] at enough
    obtain ⟨middle, left, same⟩ := @piecesFrom_skip isAlphanumeric c [] (text ++ rest) not_cut
      skips fuel (by rw [List.length_append]; simp; omega) current
    rw [List.length_append] at left
    obtain ⟨fuel', left', same'⟩ := ih quiet left (current ++ [c])
    refine ⟨fuel', left', ?_⟩
    rw [List.cons_append]
    refine same.trans (same'.trans ?_)
    rw [List.append_assoc, List.singleton_append]

theorem skip_quote {quote : Char} (quotes : quote = '\'' ∨ quote = '"') {body rest : List Char}
    (pairs : doubled quote body = true) (ends : rest.head? ≠ some quote) :
    skip isAlphanumeric quote (body ++ [quote] ++ rest) = ⟨quote :: (body ++ [quote]), rest⟩ := by
  rw [skip, if_pos quotes, List.append_assoc, List.singleton_append, skipQuoted_doubled pairs ends]
  rfl

theorem skip_dollar {tag body rest : List Char} (free : '$' ∉ tag)
    (named : tag.all (fun c => isAlphanumeric c || c == '_') = true)
    (first : findBefore ('$' :: tag ++ ['$']) (body ++ ('$' :: tag ++ ['$'])) = some body) :
    skip isAlphanumeric '$' (tag ++ ['$'] ++ body ++ ('$' :: tag ++ ['$']) ++ rest) =
      ⟨'$' :: (tag ++ ['$'] ++ body ++ ('$' :: tag ++ ['$'])), rest⟩ := by
  set delim := '$' :: tag ++ ['$'] with delimited
  have shape : tag ++ ['$'] ++ body ++ delim ++ rest = tag ++ ['$'] ++ (body ++ delim ++ rest) := by
    simp
  have opened : dollarTag isAlphanumeric (tag ++ ['$'] ++ (body ++ delim ++ rest)) = some tag :=
    dollarTag_eq_some_iff.mpr ⟨⟨body ++ delim ++ rest, rfl⟩, free, named⟩
  have found : findBefore delim (body ++ delim ++ rest) = some body :=
    findBefore_append first (by simp [delimited]) rest
  have left : (body ++ delim ++ rest).drop (body.length + delim.length) = rest := by
    rw [← List.length_append, List.drop_left]
  rw [shape, skip, if_neg (by decide), if_pos rfl, skipDollarQuoted_of_tag opened, ← delimited,
    found]
  dsimp only
  rw [left]
  simp [delimited]

/-- Nothing opens within a mark. -/
theorem plain_mark {mark : List Char} (known : mark ∈ marks) {quote : Char} (rest : List Char) :
    plain isAlphanumeric mark (quote :: rest) = true := by
  simp only [marks, List.mem_cons, List.not_mem_nil, or_false] at known
  rcases known with rfl | rfl | rfl | rfl | rfl | rfl | rfl | rfl | rfl | rfl <;>
    simp [plain, opens]

/-! ## Tokens -/

/-- The scanner passes a token that it reads as the tokenizer does. -/
theorem piecesFrom_token {token : Token} {rest : List Char}
    (rule : TokenRule isAlphanumeric token rest) (alike : readAlike isAlphanumeric token rest = true)
    (no_cut : token.kind ≠ .semicolon) {fuel : Nat}
    (enough : token.text.length + rest.length ≤ fuel) (current : List Char) :
    ∃ fuel', rest.length ≤ fuel' ∧
      piecesFrom isAlphanumeric fuel current (token.text ++ rest) =
        piecesFrom isAlphanumeric fuel' (current ++ token.text) rest := by
  obtain ⟨kind, text⟩ := token
  cases kind with
  | semicolon => exact absurd rfl no_cut
  | quoted quote =>
    obtain ⟨quotes, body, rfl, pairs, ends⟩ := rule
    by_cases ticks : quote = backtick
    · apply piecesFrom_plain _ enough
      simpa [readAlike, ticks] using alike
    · have known : quote = '\'' ∨ quote = '"' := by
        rcases quotes with string | identifier | ticked
        · exact Or.inl string
        · exact Or.inr identifier
        · exact absurd ticked ticks
      have not_cut : quote ≠ ';' := by
        rcases known with rfl | rfl <;> decide
      exact piecesFrom_skip not_cut (skip_quote known pairs ends) enough current
  | escaped =>
    obtain ⟨e, body, letter, rfl, -, ends⟩ := rule
    have pairs : doubled '\'' body = true := by simpa [readAlike] using alike
    have quiet : opens isAlphanumeric (e :: ('\'' :: (body ++ ['\'']) ++ rest)) = false := by
      rcases letter with rfl | rfl <;> simp [opens]
    obtain ⟨not_cut, skips⟩ := skip_of_not_opens quiet
    simp only [List.length_cons, List.length_append] at enough
    -- The letter alone, and then the string.
    obtain ⟨middle, left, same⟩ := @piecesFrom_skip isAlphanumeric e []
      ('\'' :: (body ++ ['\'']) ++ rest) not_cut skips fuel (by simp; omega) current
    obtain ⟨fuel', left', same'⟩ := @piecesFrom_skip isAlphanumeric '\'' (body ++ ['\'']) rest
      (by decide) (skip_quote (Or.inl rfl) pairs ends) middle (by simp at left ⊢; omega)
      (current ++ [e])
    exact ⟨fuel', left', same.trans (same'.trans (by simp))⟩
  | prefixed mark quote =>
    obtain ⟨known, quotes, body, rfl, ends⟩ := rule
    have pairs : doubled quote body = true := by
      simpa [readAlike, ← List.drop_drop] using alike
    have not_cut : quote ≠ ';' := by
      rcases quotes with rfl | rfl <;> decide
    simp only [List.length_cons, List.length_append, List.length_nil] at enough
    -- The mark, and then the string.
    obtain ⟨middle, left, same⟩ := @piecesFrom_plain isAlphanumeric mark
      (quote :: (body ++ [quote]) ++ rest) (plain_mark known _) fuel (by simp; omega) current
    obtain ⟨fuel', left', same'⟩ := @piecesFrom_skip isAlphanumeric quote (body ++ [quote]) rest
      not_cut (skip_quote quotes pairs ends) middle (by simp at left ⊢; omega) (current ++ mark)
    exact ⟨fuel', left', Eq.trans (by simp) (same.trans (same'.trans (by simp)))⟩
  | dollarQuoted tag =>
    obtain ⟨named, free, body, rfl⟩ := rule
    have shape : '$' :: tag ++ ['$'] ++ body ++ ('$' :: tag ++ ['$']) =
        '$' :: (tag ++ ['$'] ++ body ++ ('$' :: tag ++ ['$'])) := rfl
    have quoted : ('$' :: tag ++ ['$'] ++ body ++ ('$' :: tag ++ ['$'])).drop (tag.length + 2) =
        body ++ ('$' :: tag ++ ['$']) := by
      have length : ('$' :: tag ++ ['$']).length = tag.length + 2 := by simp
      rw [List.append_assoc, ← length, List.drop_left]
    have whole : ('$' :: tag ++ ['$'] ++ body ++ ('$' :: tag ++ ['$'])).length -
        2 * (tag.length + 2) = body.length := by
      simp only [List.length_append, List.length_cons, List.length_nil]
      omega
    have first : findBefore ('$' :: tag ++ ['$']) (body ++ ('$' :: tag ++ ['$'])) = some body := by
      simp only [readAlike, quoted, whole, List.take_left, decide_eq_true_eq] at alike
      exact alike
    exact piecesFrom_skip (by decide) (skip_dollar free named first) enough current
  | lineComment =>
    obtain ⟨body, free, shape⟩ := rule
    have line : ∀ later : List Char, later = [] ∨ later.head? = some '\n' →
        skip isAlphanumeric '-' ('-' :: body ++ later) = ⟨'-' :: '-' :: body, later⟩ := by
      intro later ends
      have all : ∀ c ∈ '-' :: body, decide (c ≠ '\n') = true := by
        intro c member
        rcases List.mem_cons.mp member with rfl | inside
        · decide
        · simpa using fun same : c = '\n' => free (same ▸ inside)
      rw [skip, if_neg (by decide), if_neg (by decide), if_pos ⟨rfl, rfl⟩,
        List.takeWhile_append_of_pos all, List.dropWhile_append_of_pos all]
      rcases ends with rfl | newline
      · simp
      · obtain ⟨after, rfl⟩ : ∃ after, later = '\n' :: after := by
          cases later with
          | nil => cases newline
          | cons c after => exact ⟨after, by rw [Option.some.inj newline]⟩
        simp
    rcases shape with rfl | ⟨rfl, rfl⟩
    · obtain ⟨middle, left, same⟩ := @piecesFrom_skip isAlphanumeric '-' ('-' :: body)
        ('\n' :: rest) (by decide) (line _ (Or.inr rfl)) fuel
        (by simp at enough ⊢; omega) current
      have quiet : opens isAlphanumeric ('\n' :: rest) = false := by simp [opens]
      obtain ⟨not_cut, skips⟩ := skip_of_not_opens quiet
      obtain ⟨fuel', left', same'⟩ := @piecesFrom_skip isAlphanumeric '\n' [] rest not_cut skips
        middle (by simpa [Nat.add_comm] using left) (current ++ '-' :: '-' :: body)
      refine ⟨fuel', left', Eq.trans ?_ (same.trans (same'.trans ?_))⟩ <;> simp
    · exact piecesFrom_skip (by decide) (line [] (Or.inl rfl)) enough current
  | blockComment =>
    obtain ⟨⟨body, rfl⟩, closed⟩ := rule
    apply piecesFrom_skip (by decide) _ enough
    rw [skip, if_neg (by decide), if_neg (by decide), if_neg (by simp), if_pos (by simp)]
    exact skipBlockComment_closes closed
  | other => exact piecesFrom_plain alike enough current

/-- The scanner cuts at the semicolon tokens. -/
theorem piecesFrom_tokens {tokens : List Token} (follow : Follow isAlphanumeric tokens)
    (alike : allReadAlike isAlphanumeric tokens = true) {fuel : Nat}
    (enough : (texts tokens).length ≤ fuel) (current : List Char) :
    piecesFrom isAlphanumeric fuel current (texts tokens) = tokenPieces current tokens := by
  induction tokens generalizing fuel current with
  | nil => cases fuel <;> rfl
  | cons token later ih =>
    obtain ⟨rule, follow⟩ := follow
    obtain ⟨first, alike⟩ := Bool.and_eq_true_iff.mp alike
    have split : texts (token :: later) = token.text ++ texts later := List.flatMap_cons
    rw [split, List.length_append] at enough
    rw [split, tokenPieces]
    by_cases cut : token.kind = .semicolon
    · have semicolon : token.text = [';'] := by
        rw [TokenRule, cut] at rule
        exact rule
      rw [semicolon, List.length_singleton] at enough
      rw [if_pos cut, semicolon, List.singleton_append]
      cases fuel with
      | zero => omega
      | succ fuel => rw [piecesFrom, if_pos rfl, ih follow alike (by omega)]
    · obtain ⟨fuel', left, same⟩ := piecesFrom_token rule first cut enough current
      rw [if_neg cut, same, ih follow alike left]

end Scan

/-- Where the scanner reads every token of a text as the tokenizer does, it cuts the text
exactly at the semicolon tokens. -/
theorem splitStatements_tokens {isAlphanumeric : Char → Bool}
    {tokenize : String → Option (List Token)} (tokenizes : Tokenizes isAlphanumeric tokenize)
    {input : String} {tokens : List Token} (accepted : tokenize input = some tokens)
    (alike : allReadAlike isAlphanumeric tokens = true) :
    pieces isAlphanumeric input.toList = tokenPieces [] tokens ∧
      splitStatements isAlphanumeric input = (tokenPieces [] tokens).filterMap statement := by
  have whole := tokenizes.whole input tokens accepted
  have cuts : pieces isAlphanumeric input.toList = tokenPieces [] tokens := by
    rw [pieces, ← whole]
    exact piecesFrom_tokens (tokenizes.follow input tokens accepted) alike (Nat.le_refl _) []
  exact ⟨cuts, congrArg (List.filterMap statement) cuts⟩

/-- A tokenizer that knows one text. -/
def knows (text : String) (tokens : List Token) (input : String) : Option (List Token) :=
  if input = text then some tokens else none

theorem knows_tokenizes {isAlphanumeric : Char → Bool} {text : String} {tokens : List Token}
    (whole : texts tokens = text.toList) (follow : Follow isAlphanumeric tokens) :
    Tokenizes isAlphanumeric (knows text tokens) := by
  constructor
  · intro input found same
    unfold knows at same
    split at same
    · rename_i is
      cases Option.some.inj same
      rw [is, whole]
    · cases same
  · intro input found same
    unfold knows at same
    split at same
    · cases Option.some.inj same
      exact follow
    · cases same

/-- Two statements, the first with a semicolon in a string. -/
def twoStatements : List Token :=
  [⟨.other, "SELECT ".toList⟩, ⟨.quoted '\'', "'a; b'".toList⟩, ⟨.semicolon, [';']⟩,
    ⟨.other, " SELECT 2".toList⟩]

theorem twoStatements_cut :
    splitStatements Char.isAlphanum "SELECT 'a; b'; SELECT 2" =
      (tokenPieces [] twoStatements).filterMap statement := by
  have follow : Follow Char.isAlphanum twoStatements :=
    ⟨trivial, ⟨Or.inl rfl, "a; b".toList, by decide, by decide, by decide⟩, rfl, trivial, trivial⟩
  exact (splitStatements_tokens (knows_tokenizes (by decide) follow) (if_pos rfl)
    (by decide +kernel)).2

/-- An identifier in backticks, with a semicolon in it. -/
def ticked : List Token :=
  [⟨.quoted backtick, [backtick, 'a', ';', 'b', backtick]⟩]

/-- The text is one token, and is cut in two. -/
theorem identifier_is_cut :
    ∃ tokenize, Tokenizes Char.isAlphanum tokenize ∧
      ∃ input tokens, tokenize input = some tokens ∧
        splitStatements Char.isAlphanum input ≠ (tokenPieces [] tokens).filterMap statement := by
  have follow : Follow Char.isAlphanum ticked :=
    ⟨⟨Or.inr (Or.inr rfl), ['a', ';', 'b'], by decide, by decide, by decide⟩, trivial⟩
  refine ⟨knows (String.ofList (texts ticked)) ticked, knows_tokenizes ?_ follow,
    String.ofList (texts ticked), ticked, if_pos rfl, ?_⟩
  · rw [String.toList_ofList]
  · decide +kernel

end Semcast.Router
