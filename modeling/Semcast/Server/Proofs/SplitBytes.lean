import Semcast.Server.Proofs.SplitStable
import Semcast.Server.SplitBytes

/-!
# The indices of the scanner

At the start of a character the scanner over the bytes does what the scanner over the
characters does: it goes on at the start of a character, and its slices are pieces of the
text.
-/

namespace Semcast.Router.Bytes

open Utf8

/-! ## Quotes -/

theorem skipQuotedFrom_pass {quote : UInt8} {passed : List UInt8} (free : ∀ b ∈ passed, b ≠ quote)
    (i : Nat) (rest : List UInt8) :
    skipQuotedFrom quote i (passed ++ rest) = skipQuotedFrom quote (i + passed.length) rest := by
  induction passed generalizing i with
  | nil => rfl
  | cons b passed ih =>
    obtain ⟨first, others⟩ := List.forall_mem_cons.mp free
    have step : ∀ later, skipQuotedFrom quote i (b :: later) = skipQuotedFrom quote (i + 1) later := by
      intro later
      cases later <;> simp [skipQuotedFrom, first]
    rw [List.cons_append, step, ih others, List.length_cons, Nat.add_assoc, Nat.add_comm 1]

theorem skipQuotedFrom_close {quote : UInt8} {rest : List UInt8} (ends : rest.head? ≠ some quote)
    (i : Nat) : skipQuotedFrom quote i (quote :: rest) = i + 1 := by
  cases rest with
  | nil => simp [skipQuotedFrom]
  | cons next later =>
    have other : next ≠ quote := by simpa using ends
    simp [skipQuotedFrom, other]

theorem skipQuotedFrom_encode {quote : Char} (ascii : quote.toNat < 128) (i : Nat)
    (text : List Char) :
    skipQuotedFrom (byte quote) i (encode text) = i + size (Router.skipQuoted quote text).run := by
  have one := size_of_ascii ascii
  fun_induction Router.skipQuoted quote text generalizing i with
  | case1 => rfl
  | case2 =>
    rw [encode_cons, encodeChar_of_ascii ascii, List.singleton_append,
      skipQuotedFrom_close (by simp), size_cons, one, size_nil]
  | case3 later ih =>
    have pair : skipQuotedFrom (byte quote) i (byte quote :: byte quote :: encode later) =
        skipQuotedFrom (byte quote) (i + 2) (encode later) := by simp [skipQuotedFrom]
    rw [encode_cons, encode_cons, encodeChar_of_ascii ascii, List.singleton_append,
      List.singleton_append, pair, ih]
    simp only [Skipped.after, size_append, size_cons, size_nil, one]
    omega
  | case4 next later other =>
    have ends : (encode (next :: later)).head? ≠ some (byte quote) := by
      rw [Ne, head?_encode_eq_iff ascii]
      simpa using other
    rw [encode_cons, encodeChar_of_ascii ascii, List.singleton_append, skipQuotedFrom_close ends,
      size_cons, one, size_nil]
  | case5 c rest other ih =>
    rw [encode_cons, skipQuotedFrom_pass fun b member => ne_byte ascii other member, ih,
      String.length_utf8EncodeChar]
    simp only [Skipped.after, size_append, size_cons, size_nil]
    omega

/-! ## Block comments -/

theorem skipBlockCommentFrom_step {b : UInt8} {rest : List UInt8} (depth : Int) (i : Nat)
    (no_open : ¬(b = byte '/' ∧ rest.head? = some (byte '*')))
    (no_close : ¬(b = byte '*' ∧ rest.head? = some (byte '/'))) :
    skipBlockCommentFrom depth i (b :: rest) = skipBlockCommentFrom depth (i + 1) rest := by
  cases rest with
  | nil => rfl
  | cons next later =>
    rw [List.head?_cons, Option.some.injEq] at no_open no_close
    rw [skipBlockCommentFrom, if_neg no_open, if_neg no_close]

/-- The bytes of a character that is not half of a pair. -/
theorem skipBlockCommentFrom_pass {passed : List UInt8}
    (free : ∀ b ∈ passed, b ≠ byte '/' ∧ b ≠ byte '*') (depth : Int) (i : Nat)
    (rest : List UInt8) :
    skipBlockCommentFrom depth i (passed ++ rest) =
      skipBlockCommentFrom depth (i + passed.length) rest := by
  induction passed generalizing i with
  | nil => rfl
  | cons b passed ih =>
    obtain ⟨⟨no_open, no_close⟩, others⟩ := List.forall_mem_cons.mp free
    rw [List.cons_append, skipBlockCommentFrom_step _ _ (fun both => no_open both.1)
      fun both => no_close both.1, ih others, List.length_cons, Nat.add_assoc, Nat.add_comm 1]

/-- The bytes of a character that opens and closes nothing here. -/
theorem skipBlockCommentFrom_cons {c : Char} {rest : List Char}
    (apart : ∀ d, rest.head? = some d → ¬Pair c d) (depth : Int) (i : Nat) :
    skipBlockCommentFrom depth i (encode (c :: rest)) =
      skipBlockCommentFrom depth (i + c.utf8Size) (encode rest) := by
  rw [encode_cons]
  by_cases slash : c = '/'
  · have no_open : ¬(byte c = byte '/' ∧ (encode rest).head? = some (byte '*')) := by
      rintro ⟨-, next⟩
      exact apart '*' ((head?_encode_eq_iff (by decide) rest).mp next) (Or.inl ⟨slash, rfl⟩)
    subst slash
    exact skipBlockCommentFrom_step depth i no_open (fun both => absurd both.1 (by decide))
  by_cases star : c = '*'
  · have no_close : ¬(byte c = byte '*' ∧ (encode rest).head? = some (byte '/')) := by
      rintro ⟨-, next⟩
      exact apart '/' ((head?_encode_eq_iff (by decide) rest).mp next) (Or.inr ⟨star, rfl⟩)
    subst star
    exact skipBlockCommentFrom_step depth i (fun both => absurd both.1 (by decide)) no_close
  rw [skipBlockCommentFrom_pass, String.length_utf8EncodeChar]
  exact fun b member => ⟨ne_byte (by decide) slash member, ne_byte (by decide) star member⟩

theorem skipBlockCommentFrom_encode (depth : Int) (i : Nat) (text : List Char) :
    skipBlockCommentFrom depth i (encode text) =
      i + size (Router.skipBlockComment depth text).run := by
  have slash : String.utf8EncodeChar '/' = [byte '/'] := rfl
  have star : String.utf8EncodeChar '*' = [byte '*'] := rfl
  have one : '/'.utf8Size = 1 ∧ '*'.utf8Size = 1 := ⟨rfl, rfl⟩
  fun_induction Router.skipBlockComment depth text generalizing i with
  | case1 depth rest ih =>
    rw [encode_cons, encode_cons, slash, star, List.singleton_append, List.singleton_append,
      skipBlockCommentFrom, if_pos ⟨rfl, rfl⟩, ih]
    simp only [Skipped.after, size_append, size_cons, size_nil, one]
    omega
  | case2 depth rest last =>
    rw [encode_cons, encode_cons, slash, star, List.singleton_append, List.singleton_append,
      skipBlockCommentFrom, if_neg (by decide), if_pos ⟨rfl, rfl⟩, if_pos last]
    rfl
  | case3 depth rest more ih =>
    rw [encode_cons, encode_cons, slash, star, List.singleton_append, List.singleton_append,
      skipBlockCommentFrom, if_neg (by decide), if_pos ⟨rfl, rfl⟩, if_neg more, ih]
    simp only [Skipped.after, size_append, size_cons, size_nil, one]
    omega
  | case4 depth c rest no_open no_close ih =>
    have apart : ∀ d, rest.head? = some d → ¬Pair c d := by
      intro d first pair
      obtain ⟨later, rfl⟩ := List.head?_eq_some_iff.mp first
      rcases pair with ⟨rfl, rfl⟩ | ⟨rfl, rfl⟩
      · exact no_open later rfl rfl
      · exact no_close later rfl rfl
    rw [skipBlockCommentFrom_cons apart, ih]
    simp only [Skipped.after, size_append, size_cons, size_nil]
    omega
  | case5 => rfl

/-! ## Dollar quotes -/

/-- The tag is what `str::find` finds before the next `$`. -/
theorem dollarTag_eq_filter (isAlphanumeric : Char → Bool) (rest : List Char) :
    dollarTag isAlphanumeric rest =
      (findBefore ['$'] rest).filter fun tag => tag.all fun c => isAlphanumeric c || c == '_' := by
  have found : findBefore ['$'] rest =
      if (rest.takeWhile (· ≠ '$')).length < rest.length then some (rest.takeWhile (· ≠ '$'))
      else none := by
    induction rest with
    | nil => rfl
    | cons c rest ih =>
      by_cases dollar : c = '$'
      · simp [findBefore, dollar]
      · have here : ¬ List.isPrefixOf ['$'] (c :: rest) = true := by
          simpa [List.isPrefixOf] using Ne.symm dollar
        rw [findBefore, if_neg here, ih, List.takeWhile_cons, if_pos (decide_eq_true dollar)]
        by_cases short : (rest.takeWhile (· ≠ '$')).length < rest.length
        · rw [if_pos short, if_pos (by simpa using short)]
          rfl
        · rw [if_neg short, if_neg (by simpa using short)]
          rfl
  rw [found]
  unfold dollarTag
  dsimp only
  by_cases short : (rest.takeWhile (· ≠ '$')).length < rest.length
  · rw [if_pos short, Option.filter_some, decide_eq_true short, Bool.true_and]
  · rw [if_neg short, decide_eq_false short, Bool.false_and]
    rfl

variable (isAlphanumeric : Char → Bool)

theorem getFrom_dollar (before rest : List Char) :
    getFrom (before ++ '$' :: rest) (size before + 1) = some rest := by
  have whole := getFrom_append (before ++ ['$']) rest
  rwa [size_append, List.append_assoc] at whole

/-- The delimiter of a dollar quote with this tag, and what comes after it. -/
theorem slices_of_tag (before tag body : List Char) :
    get (before ++ '$' :: (tag ++ ['$'] ++ body)) (size before) (size before + size tag + 2) =
        some ('$' :: tag ++ ['$']) ∧
      getFrom (before ++ '$' :: (tag ++ ['$'] ++ body))
        (size before + size ('$' :: tag ++ ['$'])) = some body := by
  have shape : before ++ '$' :: (tag ++ ['$'] ++ body) = before ++ ('$' :: tag ++ ['$']) ++ body := by
    simp
  have stop : size before + size tag + 2 = size (before ++ ('$' :: tag ++ ['$'])) := by
    have one : '$'.utf8Size = 1 := rfl
    simp only [size_append, size_cons, size_nil, one]
    omega
  constructor
  · rw [shape, stop, get_append]
  · rw [shape, ← size_append, getFrom_append]

theorem skipDollarQuoted_eq (before rest : List Char) :
    skipDollarQuoted isAlphanumeric (before ++ '$' :: rest) (size before) =
      some (size (before ++ (Router.skipDollarQuoted isAlphanumeric rest).run)) := by
  have one : size ['$'] = 1 := rfl
  have after := getFrom_dollar before rest
  have dropped : dollarTag isAlphanumeric rest = none →
      size (before ++ (Router.skipDollarQuoted isAlphanumeric rest).run) = size before + 1 := by
    intro nothing
    rw [Router.skipDollarQuoted, nothing, size_append, one]
  rw [skipDollarQuoted, after, Option.bind_eq_bind, Option.bind_some, find]
  rw [dollarTag_eq_filter] at dropped
  cases found : findBefore ['$'] rest with
  | none =>
    rw [found] at dropped
    rw [dropped rfl]
    rfl
  | some tag =>
    obtain ⟨body, rfl⟩ := append_of_findBefore found
    obtain ⟨delim_slice, body_slice⟩ := slices_of_tag before tag body
    have tag_slice : getTo (tag ++ ['$'] ++ body) (size tag) = some tag := by
      rw [List.append_assoc, getTo_append]
    rw [Option.map_some]
    dsimp only
    rw [tag_slice, Option.bind_some]
    by_cases named : tag.all (fun c => isAlphanumeric c || c == '_') = true
    · have opened : dollarTag isAlphanumeric (tag ++ ['$'] ++ body) = some tag := by
        rw [dollarTag_eq_filter, found, Option.filter_some, if_pos named]
      rw [if_pos named, delim_slice, Option.bind_some, body_slice, Option.bind_some, find,
        skipDollarQuoted_of_tag opened]
      cases findBefore ('$' :: tag ++ ['$']) body with
      | none => rfl
      | some inside =>
        rw [Option.map_some]
        dsimp only
        simp only [size_append, Nat.add_assoc]
        rfl
    · rw [if_neg named, dropped]
      · rfl
      · rw [found, Option.filter_some, if_neg named]

/-! ## One round -/

/-- At an ASCII character a round takes what the round over the characters takes. -/
theorem skip_eq {c : Char} (ascii : c.toNat < 128) (before rest : List Char) :
    skip isAlphanumeric (before ++ c :: rest) (size before) (byte c) =
      some (size (before ++ (Router.skip isAlphanumeric c rest).run)) := by
  have one := size_of_ascii ascii
  have here : (encode (before ++ c :: rest))[size before]? = some (byte c) := by
    rw [getElem?_encode, encode_cons, encodeChar_of_ascii ascii]
    rfl
  have before_rest : size before + 1 = size (before ++ [c]) := by
    rw [size_append, size_cons, one, size_nil]
  have split : before ++ c :: rest = before ++ [c] ++ rest := List.append_cons ..
  have next : ∀ d : Char, d.toNat < 128 →
      ((encode (before ++ c :: rest))[size before + 1]? = some (byte d) ↔ rest.head? = some d) := by
    intro d ascii'
    rw [before_rest, split, getElem?_encode, head?_encode_eq_iff ascii']
  have later : (encode (before ++ c :: rest)).drop (size before + 1) = encode rest := by
    rw [before_rest, split, drop_encode]
  have code : ∀ d : Char, d.toNat < 128 → (byte c = byte d ↔ c = d) := fun d => byte_inj ascii
  unfold skip Router.skip
  simp (disch := decide) only [code, next]
  split
  · rw [skipQuoted, here, Option.map_some, later, skipQuotedFrom_encode ascii]
    simp only [Skipped.after, size_append, size_cons, size_nil, one, Nat.add_assoc, Nat.zero_add]
  split
  · rename_i dollar
    rw [dollar, skipDollarQuoted_eq]
  split
  · rename_i line
    have goes_on : (c :: rest).takeWhile (· ≠ '\n') = c :: rest.takeWhile (· ≠ '\n') := by
      rw [line.1]
      rfl
    rw [skipLine, drop_encode, takeWhile_encode (by decide), goes_on, size_append, size, size]
  split
  · rw [skipBlockComment, drop_encode, skipBlockCommentFrom_encode, size_append]
  · rw [before_rest]

theorem skip_of_not_ascii {b : UInt8} (large : 128 ≤ b.toNat) (input : List Char) (i : Nat) :
    skip isAlphanumeric input i b = some (i + 1) ∧ b ≠ byte ';' := by
  have other : b ∉ [byte ';', byte '\'', byte '"', byte '$', byte '-', byte '/'] := by
    intro member
    simp only [List.mem_cons, List.not_mem_nil, or_false] at member
    rcases member with rfl | rfl | rfl | rfl | rfl | rfl <;> exact absurd large (by decide)
  simp only [List.mem_cons, List.not_mem_nil, or_false, not_or] at other
  simp [skip, other]

/-- The loop steps over the bytes of a character that is not ASCII one by one. -/
theorem splitFrom_pass {input : List Char} {passed : List UInt8}
    (large : ∀ b ∈ passed, 128 ≤ b.toNat) {before after : List UInt8}
    (whole : encode input = before ++ passed ++ after) (fuel start : Nat) :
    splitFrom isAlphanumeric input (passed.length + fuel) start before.length =
      splitFrom isAlphanumeric input fuel start (before.length + passed.length) := by
  induction passed generalizing before with
  | nil => rw [List.length_nil, Nat.zero_add, Nat.add_zero]
  | cons b passed ih =>
    obtain ⟨first, others⟩ := List.forall_mem_cons.mp large
    obtain ⟨next, not_cut⟩ := skip_of_not_ascii isAlphanumeric first input before.length
    have here : (encode input)[before.length]? = some b := by
      rw [whole, List.append_assoc, ← List.head?_drop, List.drop_left]
      rfl
    have moved : encode input = before ++ [b] ++ passed ++ after := by
      rw [whole, List.append_cons]
    have lengths : passed.length + 1 + fuel = passed.length + fuel + 1 := Nat.add_right_comm ..
    rw [List.length_cons, lengths, splitFrom, here]
    dsimp only
    rw [if_neg not_cut, next, Option.bind_some]
    have step := ih others moved
    rw [List.length_append, List.length_singleton] at step
    rw [step, Nat.add_assoc, Nat.add_comm 1]

/-- A round over the characters, as rounds over the bytes. -/
theorem splitFrom_round {c : Char} {before rest : List Char} (not_cut : c ≠ ';') {fuel : Nat}
    (enough : size (c :: rest) ≤ fuel) (start : Nat) :
    ∃ fuel', size (Router.skip isAlphanumeric c rest).left ≤ fuel' ∧
      splitFrom isAlphanumeric (before ++ c :: rest) fuel start (size before) =
        splitFrom isAlphanumeric (before ++ c :: rest) fuel' start
          (size (before ++ (Router.skip isAlphanumeric c rest).run)) := by
  have total := congrArg size (skip_append isAlphanumeric c rest)
  rw [size_append] at total
  by_cases ascii : c.toNat < 128
  · obtain ⟨d, run, starts⟩ := List.exists_cons_of_ne_nil (skip_run_ne_nil isAlphanumeric c rest)
    have pos := d.utf8Size_pos
    have some_bytes : 0 < size (Router.skip isAlphanumeric c rest).run := by
      rw [starts, size_cons]
      omega
    cases fuel with
    | zero => omega
    | succ fuel =>
      refine ⟨fuel, by omega, ?_⟩
      have here : (encode (before ++ c :: rest))[size before]? = some (byte c) := by
        rw [getElem?_encode, encode_cons, encodeChar_of_ascii ascii]
        rfl
      have code : byte c ≠ byte ';' := fun same => not_cut ((byte_inj ascii (by decide)).mp same)
      rw [splitFrom, here]
      dsimp only
      rw [if_neg code, skip_eq isAlphanumeric ascii, Option.bind_some]
  · have other := Nat.le_of_not_lt ascii
    have skips : Router.skip isAlphanumeric c rest = ⟨[c], rest⟩ := by
      apply (skip_other _ rest).1
      intro member
      simp only [List.mem_cons, List.not_mem_nil, or_false] at member
      rcases member with rfl | rfl | rfl | rfl | rfl | rfl <;> exact absurd other (by decide)
    rw [skips]
    rw [size_cons] at enough
    obtain ⟨fuel, rfl⟩ := Nat.exists_eq_add_of_le (Nat.le_trans (Nat.le_add_right _ _) enough)
    refine ⟨fuel, by dsimp only; omega, ?_⟩
    have whole : encode (before ++ c :: rest) =
        encode before ++ String.utf8EncodeChar c ++ encode rest := by
      rw [encode_append, encode_cons, List.append_assoc]
    have passes := splitFrom_pass isAlphanumeric (fun b => le_of_mem_encodeChar other) whole fuel
      start
    rw [String.length_utf8EncodeChar] at passes
    rw [size_append, size_cons, size_nil]
    exact passes

/-! ## The whole text -/

theorem filterMap_statement_cons (piece : List Char) (pieces : List (List Char)) :
    (piece :: pieces).filterMap statement =
      (statement piece).toList ++ pieces.filterMap statement := by
  cases made : statement piece with
  | none => exact List.filterMap_cons_none made
  | some stmt => exact List.filterMap_cons_some made

theorem splitFrom_end {before current : List Char} (fuel : Nat) :
    splitFrom isAlphanumeric (before ++ current) fuel (size before) (size (before ++ current)) =
      some ([current].filterMap statement) := by
  have last : (getFrom (before ++ current) (size before)).map
      (fun piece => (statement piece).toList) = some ([current].filterMap statement) := by
    rw [getFrom_append, Option.map_some, filterMap_statement_cons, List.filterMap_nil,
      List.append_nil]
  cases fuel with
  | zero => exact last
  | succ fuel =>
    have past : (encode (before ++ current))[size (before ++ current)]? = none :=
      List.getElem?_eq_none (Nat.le_refl _)
    rw [splitFrom, past]
    exact last

theorem splitFrom_eq {rounds : Nat} {current text : List Char} (rounds_left : text.length ≤ rounds)
    {before input : List Char} (whole : before ++ current ++ text = input) {fuel : Nat}
    (enough : size text ≤ fuel) :
    splitFrom isAlphanumeric input fuel (size before) (size (before ++ current)) =
      some ((piecesFrom isAlphanumeric rounds current text).filterMap statement) := by
  fun_induction piecesFrom isAlphanumeric rounds current text generalizing before fuel with
  | case1 =>
    rw [List.append_nil] at whole
    rw [← whole, splitFrom_end]
  | case2 current text some => exact absurd (List.length_eq_zero_iff.mp (by omega)) some
  | case3 rounds current rest ih =>
    have one : ';'.utf8Size = 1 := rfl
    rw [size_cons, one] at enough
    cases fuel with
    | zero => omega
    | succ fuel =>
      have here : (encode input)[size (before ++ current)]? = some (byte ';') := by
        rw [← whole, getElem?_encode]
        rfl
      have piece : get input (size before) (size (before ++ current)) = some current := by
        rw [← whole, get_append]
      have start : size (before ++ current) + 1 = size (before ++ current ++ [';']) := by
        rw [size_append (before ++ current), size_cons, one, size_nil]
      have cut : before ++ current ++ [';'] ++ [] ++ rest = input := by
        rw [← whole, List.append_nil, List.append_assoc _ [';']]
        rfl
      have bytes_left : size rest ≤ fuel := by omega
      have later := ih (by simpa using rounds_left) cut bytes_left
      rw [List.append_nil, ← start] at later
      rw [splitFrom, here]
      dsimp only
      rw [if_pos rfl, piece, later, filterMap_statement_cons]
      simp only [Option.bind_eq_bind, Option.bind_some, Option.pure_def]
  | case4 rounds current c rest not_cut skipped ih =>
    have taken := skip_append isAlphanumeric c rest
    have shorter := length_skip_lt isAlphanumeric c rest
    rw [List.length_cons] at rounds_left
    have left : (Router.skip isAlphanumeric c rest).left.length ≤ rounds := by omega
    obtain ⟨fuel', bytes_left, same⟩ := @splitFrom_round isAlphanumeric c (before ++ current) rest
      not_cut fuel enough (size before)
    have goes_on : before ++ (current ++ skipped.run) ++ skipped.left = input := by
      rw [← whole, ← taken]
      simp only [List.append_assoc, skipped]
    rw [whole] at same
    rw [same, List.append_assoc]
    exact ih left goes_on bytes_left

/-- No slice is inside a character, and the slices are the statements. -/
theorem splitStatements_eq (input : String) :
    splitStatements isAlphanumeric input = some (Router.splitStatements isAlphanumeric input) :=
  @splitFrom_eq isAlphanumeric _ [] _ (Nat.le_refl _) [] _ rfl _ (Nat.le_refl _)

/-- What `split_statements` does with any text: its slices are at character boundaries, they
are trimmed and have some text, and lie in the text one after another with only white space
and semicolons around them; each of them, and all of them put together again, split into
themselves. -/
theorem splitStatements_stable {isAlphanumeric : Char → Bool}
    (newline : isAlphanumeric '\n' = false) (input : String) :
    ∃ stmts, splitStatements isAlphanumeric input = some stmts ∧
      (∀ stmt ∈ stmts, Trimmed stmt) ∧ Slices stmts input.toList ∧
      (∀ stmt ∈ stmts, splitStatements isAlphanumeric stmt = some [stmt]) ∧
      splitStatements isAlphanumeric (joined stmts) = some stmts := by
  refine ⟨Router.splitStatements isAlphanumeric input, splitStatements_eq isAlphanumeric input,
    fun stmt member => (exists_piece_of_mem member).1, (cuts_pieces input.toList).slices, ?_, ?_⟩
  · intro stmt member
    rw [splitStatements_eq, splitStatements_again newline member]
  · rw [splitStatements_eq, splitStatements_joined newline]

theorem accents_stable :
    ∃ stmts, splitStatements Char.isAlphanum "SELECT 'é;' --ü ; \n; /* ;" = some stmts ∧
      (∀ stmt ∈ stmts, Trimmed stmt) ∧ Slices stmts "SELECT 'é;' --ü ; \n; /* ;".toList ∧
      (∀ stmt ∈ stmts, splitStatements Char.isAlphanum stmt = some [stmt]) ∧
      splitStatements Char.isAlphanum (joined stmts) = some stmts :=
  splitStatements_stable (by decide) _

end Semcast.Router.Bytes
