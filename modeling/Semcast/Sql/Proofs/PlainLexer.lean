import Semcast.Sql.Lexer

/-!
# A lexer for plain types

A tokenizer for the texts of field types: ASCII words, quoted identifiers and separators, and any
other character as a token of its own. It reads from left to right as the laws of `Lexer` ask.
-/

namespace Semcast.Ddl.PlainLexer

open Semcast.Ddl Fallible

def isStart (c : Char) : Bool :=
  c.isAlpha || c == '_'

def isPart (c : Char) : Bool :=
  isStart c || c.isDigit

/-- What the lexer is in the middle of, with the characters of the word so far. -/
inductive Mode where
  | between
  | word (read : List Char)
  | quoted (read : List Char)
  /-- After a quote in a quoted word, which ends it or stands for itself. -/
  | quote (read : List Char)

/-- The tokens that a character starts with, and what it is the start of. -/
def start (c : Char) : List Token × Mode :=
  if c == ' ' then ([], .between)
  else
    match separators.find? (·.1 == c) with
    | some entry => ([entry.2], .between)
    | none =>
      if c == '"' then ([], .quoted [])
      else if isStart c then ([], .word [c])
      else ([.other (String.singleton c)], .between)

/-- The tokens of a text from a mode on. -/
def scan : Mode → List Char → Except String (List Token)
  | .between, [] => .ok []
  | .word read, [] => .ok [.word (String.ofList read) none]
  | .quoted _, [] => .error "Expected close delimiter '\"' before EOF."
  | .quote read, [] => .ok [.word (String.ofList read) (some '"')]
  | .between, c :: text => (scan (start c).2 text).map ((start c).1 ++ ·)
  | .word read, c :: text =>
    if isPart c then scan (.word (read ++ [c])) text
    else (scan (start c).2 text).map (.word (String.ofList read) none :: (start c).1 ++ ·)
  | .quoted read, c :: text =>
    if c == '"' then scan (.quote read) text else scan (.quoted (read ++ [c])) text
  | .quote read, c :: text =>
    if c == '"' then scan (.quoted (read ++ ['"'])) text
    else (scan (start c).2 text).map (.word (String.ofList read) (some '"') :: (start c).1 ++ ·)

def plainLexer (text : String) : Except String (List Token) :=
  scan .between text.toList

theorem lexes_iff {text : List Char} {tokens : List Token} :
    Lexes plainLexer text tokens ↔ scan .between text = .ok tokens := by
  rw [Lexes, plainLexer, String.toList_ofList]

/-- Each separator is one character, and no word. -/
theorem separators_cases {c : Char} {token : Token} (known : (c, token) ∈ separators) :
    start c = ([token], .between) ∧ isPart c = false ∧
      c ≠ '"' ∧ (∀ word quote, token ≠ .word word quote) ∧
        ∀ c', (c', token) ∈ separators → c' = c := by
  simp only [separators, List.mem_cons, Prod.mk.injEq, List.not_mem_nil, or_false] at known ⊢
  rcases known with ⟨rfl, rfl⟩ | ⟨rfl, rfl⟩ | ⟨rfl, rfl⟩ | ⟨rfl, rfl⟩ | ⟨rfl, rfl⟩ <;>
    exact ⟨rfl, by decide, by decide, by simp, by simp⟩

/-- No character of a word is a separator. -/
theorem find?_separators_of_isPart {c : Char} (part : isPart c = true) :
    separators.find? (·.1 == c) = none := by
  rw [List.find?_eq_none]
  rintro ⟨d, token⟩ known same
  obtain ⟨-, noPart, -⟩ := separators_cases known
  cases beq_iff_eq.mp same
  rw [part] at noPart
  cases noPart

/-- What a character starts: nothing, a quoted word, a word, or a token of its own. -/
theorem start_cases (c : Char) :
    start c = ([], .between) ∨ start c = ([], .quoted []) ∨
      start c = ([], .word [c]) ∧ isStart c = true ∨
        ∃ token, start c = ([token], .between) ∧ (∀ word quote, token ≠ .word word quote) ∧
          ∀ c', (c', token) ∈ separators → c' = c := by
  unfold start
  split
  · exact Or.inl rfl
  · cases found : separators.find? (·.1 == c) with
    | some entry =>
      have same : entry.1 = c := by simpa using List.find?_some found
      have known : (c, entry.2) ∈ separators := same ▸ List.mem_of_find?_eq_some found
      obtain ⟨-, -, -, noWord, one⟩ := separators_cases known
      exact Or.inr (Or.inr (Or.inr ⟨entry.2, rfl, noWord, one⟩))
    | none =>
      dsimp only
      split
      · exact Or.inr (Or.inl rfl)
      · split
        · rename_i starts
          exact Or.inr (Or.inr (Or.inl ⟨rfl, starts⟩))
        · refine Or.inr (Or.inr (Or.inr ⟨_, rfl, ?_, ?_⟩))
          · intro word quote same
            cases same
          · intro c' known
            simp [separators] at known

/-- A word ends before a character it cannot hold. -/
theorem scan_word_stop (read : List Char) {c : Char} (stop : isPart c = false) (text : List Char) :
    scan (.word read) (c :: text) =
      (scan .between (c :: text)).map (.word (String.ofList read) none :: ·) := by
  simp only [scan, stop]
  cases scan (start c).2 text <;> rfl

theorem scan_quote_stop (read : List Char) {c : Char} (stop : c ≠ '"') (text : List Char) :
    scan (.quote read) (c :: text) =
      (scan .between (c :: text)).map (.word (String.ofList read) (some '"') :: ·) := by
  have other : (c == '"') = false := by simpa using stop
  simp only [scan, other]
  cases scan (start c).2 text <;> rfl

/-- A word takes the characters it can hold. -/
theorem scan_word_append (read : List Char) {more : List Char}
    (parts : ∀ c ∈ more, isPart c = true) (text : List Char) :
    scan (.word read) (more ++ text) = scan (.word (read ++ more)) text := by
  induction more generalizing read with
  | nil => simp
  | cons c rest ih =>
    obtain ⟨part, others⟩ := List.forall_mem_cons.mp parts
    rw [List.cons_append, scan, if_pos part, ih _ others, List.append_assoc]
    rfl

/-! ## What a token takes of the text -/

/-- A word that has begun goes on as far as it can. -/
theorem scan_word_covers {read text : List Char} {token : Token} {rest : List Token}
    (scanned : scan (.word read) text = .ok (token :: rest)) :
    ∃ more later, text = more ++ later ∧ (∀ c ∈ more, isPart c = true) ∧
      token = .word (String.ofList (read ++ more)) none ∧ scan .between later = .ok rest := by
  induction text generalizing read with
  | nil =>
    cases scanned
    exact ⟨[], [], rfl, fun c inside => absurd inside List.not_mem_nil, by simp, rfl⟩
  | cons c text ih =>
    by_cases part : isPart c = true
    · rw [scan, if_pos part] at scanned
      obtain ⟨more, later, rfl, parts, same, others⟩ := ih scanned
      refine ⟨c :: more, later, rfl, List.forall_mem_cons.mpr ⟨part, parts⟩, ?_, others⟩
      rw [same, List.append_assoc]
      rfl
    · rw [scan_word_stop read (by simpa using part)] at scanned
      obtain ⟨tokens, others, same⟩ := map_ok_iff.mp scanned
      cases same
      exact ⟨[], c :: text, rfl, fun d inside => absurd inside List.not_mem_nil, by simp, others⟩

/-- A quoted word takes up its quotes as well. -/
theorem scan_quoted_covers {text : List Char} {token : Token} {rest : List Token} :
    (∀ {read}, scan (.quoted read) text = .ok (token :: rest) →
      ∃ written later word, text = written ++ later ∧ token = .word word (some '"') ∧
        word.length + 1 ≤ read.length + written.length ∧ scan .between later = .ok rest) ∧
    ∀ {read}, scan (.quote read) text = .ok (token :: rest) →
      ∃ written later word, text = written ++ later ∧ token = .word word (some '"') ∧
        word.length ≤ read.length + written.length ∧ scan .between later = .ok rest := by
  induction text with
  | nil =>
    constructor
    · intro read scanned
      cases scanned
    · intro read scanned
      cases scanned
      exact ⟨[], [], _, rfl, rfl, by simp, rfl⟩
  | cons c text ih =>
    constructor
    · intro read scanned
      rw [scan] at scanned
      split at scanned
      · obtain ⟨written, later, word, rfl, same, short, others⟩ := ih.2 scanned
        exact ⟨c :: written, later, word, rfl, same, by simp only [List.length_cons]; omega, others⟩
      · obtain ⟨written, later, word, rfl, same, short, others⟩ := ih.1 scanned
        refine ⟨c :: written, later, word, rfl, same, ?_, others⟩
        simp only [List.length_append, List.length_cons, List.length_nil] at short ⊢
        omega
    · intro read scanned
      by_cases quote : c = '"'
      · subst quote
        rw [scan, if_pos (beq_self_eq_true _)] at scanned
        obtain ⟨written, later, word, rfl, same, short, others⟩ := ih.1 scanned
        refine ⟨'"' :: written, later, word, rfl, same, ?_, others⟩
        simp only [List.length_append, List.length_cons, List.length_nil] at short ⊢
        omega
      · rw [scan_quote_stop read quote] at scanned
        obtain ⟨tokens, others, same⟩ := map_ok_iff.mp scanned
        cases same
        exact ⟨[], c :: text, _, rfl, rfl, by simp, others⟩

/-- The characters of a word without quotes. -/
def IsWord (word : List Char) : Prop :=
  ∃ c more, word = c :: more ∧ isStart c = true ∧ ∀ d ∈ more, isPart d = true

/-- What a token is written as. -/
def Written : Token → List Char → Prop
  | .word word none, written => written = word.toList ∧ IsWord written
  | .word word (some _), written => word.length + 2 ≤ written.length
  | token, written => ∀ c, (c, token) ∈ separators → written = [c]

theorem written_of_not_word {token : Token} {c : Char}
    (noWord : ∀ word quote, token ≠ .word word quote)
    (one : ∀ c', (c', token) ∈ separators → c' = c) : Written token [c] := by
  have known : ∀ c', (c', token) ∈ separators → [c] = [c'] := by
    intro c' member
    rw [one c' member]
  cases token with
  | word word quote => exact absurd rfl (noWord word quote)
  | singleQuotedString | doubleQuotedString | comma | lParen | rParen | lBracket | rBracket
  | semiColon | other | eof => exact known

/-- The first token of a text is written in it, before the others. -/
theorem scan_covers {text : List Char} {token : Token} {rest : List Token}
    (scanned : scan .between text = .ok (token :: rest)) :
    ∃ skipped written later, text = skipped ++ written ++ later ∧ Written token written ∧
      scan .between later = .ok rest := by
  induction text with
  | nil => cases scanned
  | cons c text ih =>
    rw [scan] at scanned
    rcases start_cases c with blank | quoted | ⟨word, starts⟩ | ⟨single, alone, noWord, one⟩
    · rw [blank] at scanned
      obtain ⟨tokens, others, same⟩ := map_ok_iff.mp scanned
      cases same
      obtain ⟨skipped, written, later, rfl, writes, left⟩ := ih others
      exact ⟨c :: skipped, written, later, rfl, writes, left⟩
    · rw [quoted] at scanned
      obtain ⟨tokens, others, same⟩ := map_ok_iff.mp scanned
      cases same
      obtain ⟨written, later, word, rfl, rfl, short, left⟩ := scan_quoted_covers.1 others
      refine ⟨[], c :: written, later, rfl, ?_, left⟩
      show word.length + 2 ≤ (c :: written).length
      simp only [List.length_nil, List.length_cons] at short ⊢
      omega
    · rw [word] at scanned
      obtain ⟨tokens, others, same⟩ := map_ok_iff.mp scanned
      cases same
      obtain ⟨more, later, rfl, parts, rfl, left⟩ := scan_word_covers others
      refine ⟨[], c :: more, later, rfl, ?_, left⟩
      exact ⟨by simp, c, more, rfl, starts, parts⟩
    · rw [alone] at scanned
      obtain ⟨tokens, others, same⟩ := map_ok_iff.mp scanned
      cases same
      exact ⟨[], [c], text, rfl, written_of_not_word noWord one, others⟩

/-! ## The laws -/

theorem start_of_isStart {c : Char} (starts : isStart c = true) : start c = ([], .word [c]) := by
  have notBlank : (c == ' ') = false := by
    rw [beq_eq_false_iff_ne]
    rintro rfl
    cases starts
  have notQuote : (c == '"') = false := by
    rw [beq_eq_false_iff_ne]
    rintro rfl
    cases starts
  have notSeparator := find?_separators_of_isPart (c := c) (by simp [isPart, starts])
  simp [start, notBlank, notQuote, notSeparator, starts]

theorem scan_isWord {word : List Char} (is : IsWord word) (text : List Char) :
    scan .between (word ++ text) = scan (.word word) text := by
  obtain ⟨c, more, rfl, starts, parts⟩ := is
  rw [List.cons_append, scan, start_of_isStart starts, scan_word_append _ parts]
  show (scan (.word (c :: more)) text).map _ = _
  cases scan (.word (c :: more)) text <;> rfl

theorem bare_iff {word : String} : Bare plainLexer word ↔ IsWord word.toList := by
  rw [Bare, lexes_iff]
  constructor
  · intro scanned
    obtain ⟨skipped, written, later, -, ⟨rfl, is⟩, -⟩ := scan_covers scanned
    exact is
  · intro is
    have whole := scan_isWord is []
    rw [List.append_nil] at whole
    rw [whole, scan, String.ofList_toList]

theorem scan_stops {text : List Char} (stops : Stops text) (word : String) :
    scan (.word word.toList) text = (scan .between text).map (.word word none :: ·) := by
  cases text with
  | nil =>
    show Except.ok [Token.word (String.ofList word.toList) none] = _
    rw [String.ofList_toList]
    rfl
  | cons c text =>
    have noPart : isPart c = false := by
      rcases stops with rfl | ⟨token, known⟩
      · rfl
      · exact (separators_cases known).2.1
    rw [scan_word_stop _ noPart, String.ofList_toList]

theorem lawful : LawfulTokenizer plainLexer where
  empty := by
    intro tokens
    rw [lexes_iff, scan, Except.ok.injEq]
    exact eq_comm
  blank := by
    intro text tokens
    rw [lexes_iff, lexes_iff, scan]
    show (scan .between text).map _ = _ ↔ _
    cases scan .between text <;> simp [Except.map, start]
  separator := by
    intro c token known text tokens
    rw [lexes_iff, scan, (separators_cases known).1, map_ok_iff]
    simp only [lexes_iff]
    constructor
    · rintro ⟨rest, scanned, rfl⟩
      exact ⟨rest, rfl, scanned⟩
    · rintro ⟨rest, rfl, scanned⟩
      exact ⟨rest, scanned, rfl⟩
  word := by
    intro word bare text stops tokens
    rw [lexes_iff, scan_isWord (bare_iff.mp bare), scan_stops stops, map_ok_iff]
    simp only [lexes_iff]
    constructor
    · rintro ⟨rest, scanned, rfl⟩
      exact ⟨rest, rfl, scanned⟩
    · rintro ⟨rest, rfl, scanned⟩
      exact ⟨rest, scanned, rfl⟩
  ofSeparator := by
    intro c token known text rest lexes
    obtain ⟨skipped, written, later, rfl, writes, scanned⟩ := scan_covers (lexes_iff.mp lexes)
    have single : written = [c] := by
      obtain ⟨-, -, -, noWord, -⟩ := separators_cases known
      cases token with
      | word word quote => exact absurd rfl (noWord word quote)
      | singleQuotedString | doubleQuotedString | comma | lParen | rParen | lBracket | rBracket
      | semiColon | other | eof => exact writes c known
    exact ⟨skipped, later, by rw [single, List.append_assoc]; rfl, lexes_iff.mpr scanned⟩
  ofWord := by
    intro c token known text word quote rest lexes
    obtain ⟨skipped, written, later, rfl, writes, scanned⟩ := scan_covers (lexes_iff.mp lexes)
    refine ⟨skipped, written, later, rfl, lexes_iff.mpr scanned, ?_, ?_⟩
    · rintro rfl
      obtain ⟨rfl, is⟩ := writes
      exact ⟨rfl, bare_iff.mpr is⟩
    · intro quoted
      obtain ⟨mark, rfl⟩ := Option.ne_none_iff_exists'.mp quoted
      exact writes

theorem isAlpha_of_isDigit {c : Char} (digit : c.isDigit = true) : c.isAlpha = false := by
  simp only [Char.isDigit, Bool.and_eq_true, decide_eq_true_eq, ge_iff_le,
    UInt32.le_iff_toNat_le] at digit
  show (decide (c.val ≥ 'A'.val ∧ c.val ≤ 'Z'.val) ||
    (c.val ≥ 'a'.val && c.val ≤ 'z'.val)) = false
  simp only [Bool.or_eq_false_iff, Bool.and_eq_false_imp, not_and, decide_eq_true_eq,
    decide_eq_false_iff_not, ge_iff_le, UInt32.le_iff_toNat_le]
  have top : '9'.val.toNat = 57 := rfl
  have upper : 'A'.val.toNat = 65 := rfl
  have lower : 'a'.val.toNat = 97 := rfl
  constructor <;> intro above <;> omega

theorem start_digit {c : Char} (digit : c.isDigit = true) :
    start c = ([.other (String.singleton c)], .between) := by
  have differs : ∀ d : Char, d.isDigit = false → (c == d) = false := by
    intro d other
    rw [beq_eq_false_iff_ne]
    rintro rfl
    rw [digit] at other
    cases other
  have notSeparator := find?_separators_of_isPart (c := c) (by simp [isPart, digit])
  have noStart : isStart c = false := by
    rw [isStart, isAlpha_of_isDigit digit, differs '_' rfl]
    rfl
  simp [start, differs ' ' rfl, differs '"' rfl, notSeparator, noStart]

/-- Digits, signs and points are tokens of their own. -/
theorem scan_digits {digits : List Char}
    (plain : ∀ c ∈ digits, c.isDigit = true ∨ c = '-' ∨ c = '.') {text : List Char}
    {rest : List Token} (lexes : Lexes plainLexer text rest) :
    Lexes plainLexer (digits ++ text)
      (digits.map (fun c => .other (String.singleton c)) ++ rest) := by
  induction digits with
  | nil => exact lexes
  | cons c others ih =>
    obtain ⟨first, later⟩ := List.forall_mem_cons.mp plain
    have alone : start c = ([.other (String.singleton c)], .between) := by
      rcases first with digit | rfl | rfl
      · exact start_digit digit
      · rfl
      · rfl
    rw [List.cons_append, lexes_iff, scan, alone, map_ok_iff]
    exact ⟨_, lexes_iff.mp (ih later), rfl⟩

end Semcast.Ddl.PlainLexer
