import Semcast.Physical.Proofs.Provenance
import Semcast.Sql.ExtractUdf
import Semcast.Sql.Proofs.PlainLexer

/-!
# Field types read back

A field type of the grammar is printed and read back. Its keywords, its brackets and its numbers
come back as they were; a variant does exactly when it needs no quotes, since none are printed.
-/

namespace Semcast.Ddl

open Semcast.Types Json Verify Fallible

variable {F : Type} {registry : TypeRegistry F}
  {tokenize : String → Except String (List Token)}

/-! ## Reading words from the left -/

theorem LawfulTokenizer.separators_iff (lawful : LawfulTokenizer tokenize) {c : Char}
    {token : Token} (known : (c, token) ∈ separators) {text : List Char} {rest : List Token}
    (lexes : Lexes tokenize text rest) {tokens : List Token} :
    Lexes tokenize (c :: text) tokens ↔ tokens = token :: rest := by
  rw [lawful.separator known]
  constructor
  · rintro ⟨others, rfl, lexes'⟩
    rw [lexes.unique lexes']
  · rintro rfl
    exact ⟨rest, rfl, lexes⟩

/-- The brackets after the type of a list. -/
theorem LawfulTokenizer.brackets (lawful : LawfulTokenizer tokenize) :
    Lexes tokenize ['[', ']'] [.lBracket, .rBracket] := by
  rw [lawful.separator (by decide : ('[', Token.lBracket) ∈ separators)]
  refine ⟨_, rfl, ?_⟩
  rw [lawful.separator (by decide : (']', Token.rBracket) ∈ separators)]
  exact ⟨[], rfl, lawful.empty.mpr rfl⟩

/-- What follows a base type in print: nothing, or the brackets of a list. -/
structure Suffix (tokenize : String → Except String (List Token)) (text : List Char)
    (left : List Token) : Prop where
  lexes : Lexes tokenize text left
  stops : Stops text
  plain : peekWord "CHECK" left = false
  /-- No shorter text reads so. -/
  shortest : ∀ text', Lexes tokenize text' left → text.length ≤ text'.length

theorem LawfulTokenizer.noSuffix (lawful : LawfulTokenizer tokenize) : Suffix tokenize [] [] where
  lexes := lawful.empty.mpr rfl
  stops := trivial
  plain := rfl
  shortest _ _ := Nat.zero_le _

theorem LawfulTokenizer.listSuffix (lawful : LawfulTokenizer tokenize) :
    Suffix tokenize ['[', ']'] [.lBracket, .rBracket] where
  lexes := lawful.brackets
  stops := stops_cons .lBracket (by decide) _
  plain := rfl
  shortest text' lexes := by
    obtain ⟨skipped, later, rfl, closing⟩ := lawful.ofSeparator (c := '[') (by decide) lexes
    obtain ⟨skipped', later', rfl, -⟩ := lawful.ofSeparator (c := ']') (by decide) closing
    simp only [List.length_append, List.length_cons, List.length_nil]
    omega

/-! ## Variants -/

/-- The characters of a list of variants, with one separator after each. -/
def weight (variants : List String) : Nat :=
  (variants.map fun variant => variant.length + 1).sum

/-- The variants as they are printed, up to the closing parenthesis. -/
def printedVariants (variants : List String) (text : List Char) : List Char :=
  (",".intercalate variants).toList ++ ')' :: text

theorem printedVariants_singleton (variant : String) (text : List Char) :
    printedVariants [variant] text = variant.toList ++ ')' :: text := by
  simp [printedVariants]

theorem printedVariants_cons_cons (variant next : String) (others : List String)
    (text : List Char) : printedVariants (variant :: next :: others) text =
      variant.toList ++ ',' :: printedVariants (next :: others) text := by
  simp [printedVariants, String.toList_intercalate]

theorem length_printedVariants {variants : List String} (nonempty : variants ≠ [])
    (text : List Char) : (printedVariants variants text).length = weight variants + text.length := by
  induction variants with
  | nil => exact absurd rfl nonempty
  | cons variant rest ih =>
    cases rest with
    | nil =>
      rw [printedVariants_singleton, List.length_append, String.length_toList, List.length_cons]
      simp only [weight, List.map_cons, List.map_nil, List.sum_cons, List.sum_nil]
      omega
    | cons next others =>
      rw [printedVariants_cons_cons, List.length_append, List.length_cons,
        ih (List.cons_ne_nil _ _), String.length_toList]
      simp only [weight, List.map_cons, List.sum_cons]
      omega

/-- Bare variants are read back. -/
theorem LawfulTokenizer.reads_variants (lawful : LawfulTokenizer tokenize) (sql : SqlText F)
    {variants : List String} (nonempty : variants ≠ [])
    (bare : ∀ variant ∈ variants, Bare tokenize variant) {text : List Char} {left : List Token}
    (lexes : Lexes tokenize text left) :
    ∃ tokens, Lexes tokenize (printedVariants variants text) tokens ∧
      parseVariants sql tokens = .ok (variants, left) := by
  induction variants with
  | nil => exact absurd rfl nonempty
  | cons variant rest ih =>
    obtain ⟨first, others⟩ := List.forall_mem_cons.mp bare
    cases rest with
    | nil =>
      have closed : Lexes tokenize (')' :: text) (.rParen :: left) :=
        (lawful.separator (by decide)).mpr ⟨left, rfl, lexes⟩
      refine ⟨.word variant none :: .rParen :: left, ?_, rfl⟩
      rw [printedVariants_singleton, lawful.word first (stops_cons .rParen (by decide) _)]
      exact ⟨_, rfl, closed⟩
    | cons next more =>
      obtain ⟨tokens, lexes, parsed⟩ := ih (List.cons_ne_nil _ _) others
      have separated : Lexes tokenize (',' :: printedVariants (next :: more) text)
          (.comma :: tokens) :=
        (lawful.separator (by decide)).mpr ⟨tokens, rfl, lexes⟩
      refine ⟨.word variant none :: .comma :: tokens, ?_, ?_⟩
      · rw [printedVariants_cons_cons, lawful.word first (stops_cons .comma (by decide) _)]
        exact ⟨_, rfl, separated⟩
      · rw [parseVariants, parsed]
        rfl

/-- The variants of a text take up no more than the text, and all of it only if none of them is
in quotes. -/
theorem LawfulTokenizer.variants_read (lawful : LawfulTokenizer tokenize) {sql : SqlText F}
    {tokens left : List Token} {variants : List String}
    (parsed : parseVariants sql tokens = .ok (variants, left)) {text : List Char}
    (lexes : Lexes tokenize text tokens) :
    ∃ later, Lexes tokenize later left ∧ weight variants + later.length ≤ text.length ∧
      (text.length ≤ weight variants + later.length →
        ∀ variant ∈ variants, Bare tokenize variant) := by
  -- What a word in the text takes up of it, and its separator.
  have step : ∀ {c token}, (c, token) ∈ separators → ∀ {text : List Char} {value quote rest},
      Lexes tokenize text (.word value quote :: token :: rest) →
      ∃ later, Lexes tokenize later rest ∧ value.length + 1 + later.length ≤ text.length ∧
        (text.length ≤ value.length + 1 + later.length → Bare tokenize value) := by
    intro c token known text value quote rest lexes
    obtain ⟨skipped, written, middle, rfl, ended, unquoted, quoted⟩ := lawful.ofWord known lexes
    obtain ⟨skipped', later, rfl, others⟩ := lawful.ofSeparator known ended
    refine ⟨later, others, ?_⟩
    simp only [List.length_append, List.length_cons]
    by_cases plain : quote = none
    · obtain ⟨rfl, bare⟩ := unquoted plain
      rw [String.length_toList]
      exact ⟨by omega, fun _ => bare⟩
    · have long := quoted plain
      exact ⟨by omega, fun short => by omega⟩
  fun_induction parseVariants sql tokens generalizing variants left text with
  | case1 value quote rest ih =>
    obtain ⟨⟨values, left'⟩, inner, same⟩ := map_ok_iff.mp parsed
    cases same
    obtain ⟨middle, lexes, taken, bare⟩ := step (c := ',') (by decide) lexes
    obtain ⟨later, lexes, taken', bare'⟩ := ih inner lexes
    simp only [weight, List.map_cons, List.sum_cons] at taken' bare' ⊢
    refine ⟨later, lexes, by omega, ?_⟩
    intro whole
    rw [List.forall_mem_cons]
    exact ⟨bare (by omega), bare' (by omega)⟩
  | case2 value quote rest =>
    cases parsed
    obtain ⟨later, lexes, taken, bare⟩ := step (c := ')') (by decide) lexes
    simp only [weight, List.map_cons, List.map_nil, List.sum_cons, List.sum_nil, Nat.add_zero]
    refine ⟨later, lexes, taken, ?_⟩
    intro whole
    simpa using bare whole
  | case3 | case4 => cases parsed

theorem firstDuplicate_eq_none_iff {before items : List String} :
    firstDuplicate before items = none ↔ items.Nodup ∧ ∀ item ∈ items, item ∉ before := by
  refine ⟨firstDuplicate_eq_none, ?_⟩
  rintro ⟨nodup, new⟩
  induction items generalizing before with
  | nil => rfl
  | cons item rest ih =>
    obtain ⟨notLater, nodup⟩ := List.nodup_cons.mp nodup
    obtain ⟨unseen, others⟩ := List.forall_mem_cons.mp new
    rw [firstDuplicate, if_neg (by simpa using unseen)]
    apply ih nodup
    intro other later earlier
    rcases List.mem_append.mp earlier with before | same
    · exact others other later before
    · cases List.mem_singleton.mp same
      exact notLater later

/-- A list of distinct variants is read back exactly when they are bare. -/
theorem LawfulTokenizer.parseVariantList_iff (lawful : LawfulTokenizer tokenize) (sql : SqlText F)
    {variants : List String} (nonempty : variants ≠ []) (distinct : variants.Nodup)
    {text : List Char} {left : List Token} (suffix : Suffix tokenize text left) :
    (∃ tokens, Lexes tokenize (printedVariants variants text) tokens ∧
      parseVariantList sql (.lParen :: tokens) = .ok (variants, left)) ↔
    ∀ variant ∈ variants, Bare tokenize variant := by
  have opened : ∀ tokens, parseVariantList sql (.lParen :: tokens) = .ok (variants, left) ↔
      parseVariants sql tokens = .ok (variants, left) := by
    intro tokens
    have unique : firstDuplicate [] variants = none :=
      firstDuplicate_eq_none_iff.mpr ⟨distinct, fun _ _ => List.not_mem_nil⟩
    constructor
    · intro parsed
      obtain ⟨rest, first, parsed⟩ := bind_ok_iff.mp parsed
      cases first
      obtain ⟨⟨values, left'⟩, inner, parsed⟩ := bind_ok_iff.mp parsed
      dsimp only at parsed
      split at parsed
      · cases parsed
      · cases parsed
        exact inner
    · intro parsed
      refine bind_ok_iff.mpr ⟨tokens, rfl, bind_ok_iff.mpr ⟨_, parsed, ?_⟩⟩
      dsimp only
      rw [unique]
      rfl
  constructor
  · rintro ⟨tokens, lexes, parsed⟩
    obtain ⟨later, lexes, -, bare⟩ := lawful.variants_read ((opened tokens).mp parsed) lexes
    apply bare
    rw [length_printedVariants nonempty]
    exact Nat.add_le_add_left (suffix.shortest later lexes) _
  · intro bare
    obtain ⟨tokens, lexes, parsed⟩ := lawful.reads_variants sql nonempty bare suffix.lexes
    exact ⟨tokens, lexes, (opened tokens).mpr parsed⟩

/-! ## Bounds -/

theorem rangeText_of_plain (sql : SqlText F) {range : List Token}
    (plain : ∀ token ∈ range, token ≠ .rParen ∧ token ≠ .eof) (left : List Token) :
    rangeText sql (range ++ .rParen :: left) = .ok (String.join (range.map sql.display), left) := by
  induction range with
  | nil => rfl
  | cons token rest ih =>
    obtain ⟨⟨inside, more⟩, others⟩ := List.forall_mem_cons.mp plain
    have step : rangeText sql (token :: (rest ++ .rParen :: left)) =
        (rangeText sql (rest ++ .rParen :: left)).map fun read =>
          (sql.display token ++ read.1, read.2) := by
      cases token with
      | rParen => exact absurd rfl inside
      | eof => exact absurd rfl more
      | word | singleQuotedString | doubleQuotedString | comma | lParen | lBracket | rBracket
      | semiColon | other => rfl
    rw [List.cons_append, step, ih others, List.map_cons, String.join_cons]
    rfl

/-- A range splits where its lower bound ends. -/
theorem splitRange_append {lo : List Char} (free : ¬ ['.', '.'] <:+: lo ++ ['.'])
    (hi : List Char) : splitRange (lo ++ '.' :: '.' :: hi) = some (lo, hi) := by
  induction lo with
  | nil => rfl
  | cons c rest ih =>
    have later : ¬ ['.', '.'] <:+: rest ++ ['.'] := by
      intro inside
      exact free (inside.trans (List.suffix_cons c _).isInfix)
    have step : splitRange (c :: (rest ++ '.' :: '.' :: hi)) =
        (splitRange (rest ++ '.' :: '.' :: hi)).map fun parts => (c :: parts.1, parts.2) := by
      by_cases point : c = '.'
      · subst point
        cases rest with
        | nil => exact absurd ⟨[], [], rfl⟩ free
        | cons d others =>
          have notPoint : d ≠ '.' := by
            rintro rfl
            exact free ⟨[], others ++ ['.'], rfl⟩
          rw [List.cons_append, splitRange]
          simp [notPoint]
      · rw [splitRange]
        simp [point]
    rw [List.cons_append, step, ih later]
    rfl

/-- Bounds that print a text which reads as themselves: all but a NaN of other bits than the one
the text stands for. -/
def ReprintsBound (registry : TypeRegistry F) (x : F) : Prop :=
  registry.floats.le x x = true ∨ registry.sql.parseF64 "NaN" = some x

theorem PrintedFloats.reprints_iff (printed : PrintedFloats registry.floats registry.sql.parseF64)
    {x : F} : registry.sql.parseF64 (registry.floats.display x) = some x ↔
      ReprintsBound registry x := by
  cases number : registry.floats.le x x with
  | true => exact iff_of_true (printed.parses x number) (Or.inl number)
  | false =>
    rw [printed.nan x number]
    constructor
    · exact Or.inr
    · rintro (here | parsed)
      · rw [number] at here
        cases here
      · exact parsed

theorem parseBound_eq_ok {sql : SqlText F} {side : String} {bound : List Char} {x : F} :
    parseBound sql side bound = .ok x ↔
      sql.parseF64 (String.ofList (trimMatches isWhitespace bound)) = some x := by
  unfold parseBound
  split
  · rename_i y found
    rw [found, Except.ok.injEq, Option.some.injEq]
  · rename_i missing
    simp [missing]

/-- A range in print is read as its bounds are. -/
theorem ReadsPrint.parseCheckRange_iff (reads : ReadsPrint registry tokenize) {min max : F}
    {range : List Token} (plain : ∀ token ∈ range, token ≠ .rParen ∧ token ≠ .eof)
    (prints : String.join (range.map registry.sql.display) =
      registry.floats.display min ++ ".." ++ registry.floats.display max) {left : List Token} :
    parseCheckRange registry.sql (.lParen :: (range ++ .rParen :: left)) = .ok ((min, max), left) ↔
      ReprintsBound registry min ∧ ReprintsBound registry max := by
  have characters : (registry.floats.display min ++ ".." ++ registry.floats.display max).toList =
      (registry.floats.display min).toList ++ '.' :: '.' ::
        (registry.floats.display max).toList := by
    simp [String.toList_append]
  have split := splitRange_append (reads.printed.noRange min) (registry.floats.display max).toList
  have bound : ∀ side x y, parseBound registry.sql side (registry.floats.display x).toList = .ok y ↔
      registry.sql.parseF64 (registry.floats.display x) = some y := by
    intro side x y
    rw [parseBound_eq_ok, reads.trimmed, String.ofList_toList]
  rw [← reads.printed.reprints_iff, ← reads.printed.reprints_iff, ← bound "lower",
    ← bound "upper"]
  constructor
  · intro parsed
    obtain ⟨opened, first, parsed⟩ := bind_ok_iff.mp parsed
    cases first
    obtain ⟨⟨rendered, others⟩, inner, parsed⟩ := bind_ok_iff.mp parsed
    rw [rangeText_of_plain registry.sql plain, prints] at inner
    cases inner
    dsimp only at parsed
    rw [characters, split] at parsed
    obtain ⟨lo, lower, parsed⟩ := bind_ok_iff.mp parsed
    obtain ⟨hi, upper, parsed⟩ := bind_ok_iff.mp parsed
    cases parsed
    exact ⟨lower, upper⟩
  · rintro ⟨lower, upper⟩
    refine bind_ok_iff.mpr ⟨_, rfl, bind_ok_iff.mpr
      ⟨_, rangeText_of_plain registry.sql plain left, ?_⟩⟩
    dsimp only
    rw [prints, characters, split]
    exact bind_ok_iff.mpr ⟨min, lower, bind_ok_iff.mpr ⟨max, upper, rfl⟩⟩

/-! ## The types -/

/-- Types that are read back from their own text: their variants need no quotes, and their bounds
print themselves. -/
def Reprints (registry : TypeRegistry F) (tokenize : String → Except String (List Token)) :
    FieldType F → Prop
  | .realBounded min max => ReprintsBound registry min ∧ ReprintsBound registry max
  | .oneOf variants | .level variants => ∀ variant ∈ variants, Bare tokenize variant
  | .list inner => Reprints registry tokenize inner
  | .text | .int | .real | .bool | .nested _ => True

theorem ReadsPrint.keyword_iff (reads : ReadsPrint registry tokenize) {word : String}
    (member : word ∈ keywords) {text : List Char} (stops : Stops text) {tokens : List Token} :
    Lexes tokenize (word.toList ++ text) tokens ↔
      ∃ rest, tokens = .word word none :: rest ∧ Lexes tokenize text rest :=
  reads.lawful.word (reads.bare word member) stops

/-- A keyword with its variants in parentheses. -/
theorem ReadsPrint.variants_iff (reads : ReadsPrint registry tokenize) {word : String}
    (member : word ∈ keywords) {make : List String → FieldType F} (inj : Function.Injective make)
    (parses : ∀ rest, parseBaseType registry.sql (.word word none :: rest) =
      (parseVariantList registry.sql rest).map fun (variants, rest) => (make variants, rest))
    {variants : List String} (nonempty : variants ≠ []) (distinct : variants.Nodup)
    {text : List Char} {left : List Token} (suffix : Suffix tokenize text left) :
    (∃ tokens, Lexes tokenize (word.toList ++ '(' :: printedVariants variants text) tokens ∧
      parseBaseType registry.sql tokens = .ok (make variants, left)) ↔
    ∀ variant ∈ variants, Bare tokenize variant := by
  rw [← reads.lawful.parseVariantList_iff registry.sql nonempty distinct suffix]
  constructor
  · rintro ⟨tokens, lexes, parsed⟩
    obtain ⟨opened, rfl, open_lexes⟩ := (reads.keyword_iff member
      (stops_cons .lParen (by decide) _)).mp lexes
    obtain ⟨rest, rfl, inside⟩ := (reads.lawful.separator
      (by decide : ('(', Token.lParen) ∈ separators)).mp open_lexes
    rw [parses] at parsed
    obtain ⟨⟨found, left'⟩, inner, same⟩ := map_ok_iff.mp parsed
    obtain ⟨made, rfl⟩ := Prod.mk.inj same
    cases inj made
    exact ⟨rest, inside, inner⟩
  · rintro ⟨rest, lexes, parsed⟩
    refine ⟨.word word none :: .lParen :: rest, ?_, ?_⟩
    · rw [reads.keyword_iff member (stops_cons .lParen (by decide) _)]
      exact ⟨_, rfl, (reads.lawful.separator (by decide)).mpr ⟨rest, rfl, lexes⟩⟩
    · rw [parses, parsed]
      rfl

/-- A keyword that is a type by itself. -/
theorem ReadsPrint.scalar (reads : ReadsPrint registry tokenize) (word : String)
    (member : word ∈ keywords) {base : FieldType F} {text : List Char} {left : List Token}
    (suffix : Suffix tokenize text left)
    (parses : parseBaseType registry.sql (.word word none :: left) = .ok (base, left)) :
    ∃ tokens, Lexes tokenize (word.toList ++ text) tokens ∧
      parseBaseType registry.sql tokens = .ok (base, left) :=
  ⟨_, (reads.keyword_iff member suffix.stops).mpr ⟨left, rfl, suffix.lexes⟩, parses⟩

/-- A range after its keywords. -/
theorem ReadsPrint.range_iff (reads : ReadsPrint registry tokenize) {min max : F}
    {text : List Char} {left : List Token} (suffix : Suffix tokenize text left) :
    (∃ tokens, Lexes tokenize
        (((FieldType.realBounded min max).display registry.floats).toList ++ text) tokens ∧
      parseBaseType registry.sql tokens = .ok (.realBounded min max, left)) ↔
    ReprintsBound registry min ∧ ReprintsBound registry max := by
  obtain ⟨range, inside, plain, prints⟩ := reads.range min max suffix.lexes
  have characters : ((FieldType.realBounded min max).display registry.floats).toList ++ text =
      "REAL".toList ++ ' ' :: ("CHECK".toList ++ ' ' :: '(' ::
        ((registry.floats.display min).toList ++ '.' :: '.' ::
          (registry.floats.display max).toList ++ ')' :: text)) := by
    simp [FieldType.display, String.toList_append]
  have lexes : Lexes tokenize
      (((FieldType.realBounded min max).display registry.floats).toList ++ text)
      (.word "REAL" none :: .word "CHECK" none :: .lParen :: (range ++ .rParen :: left)) := by
    rw [characters, reads.keyword_iff (by decide : "REAL" ∈ keywords) (stops_blank _)]
    refine ⟨_, rfl, ?_⟩
    rw [reads.lawful.blank, reads.keyword_iff (by decide : "CHECK" ∈ keywords) (stops_blank _)]
    refine ⟨_, rfl, ?_⟩
    rw [reads.lawful.blank, reads.lawful.separators_iff
      (by decide : ('(', Token.lParen) ∈ separators) inside]
  have parses : parseBaseType registry.sql
      (.word "REAL" none :: .word "CHECK" none :: .lParen :: (range ++ .rParen :: left)) =
        (parseCheckRange registry.sql (.lParen :: (range ++ .rParen :: left))).map
          fun read => (.realBounded read.1.1 read.1.2, read.2) := by
    have checked : peekWord "CHECK"
        (.word "CHECK" none :: .lParen :: (range ++ .rParen :: left)) = true := by rfl
    simp only [parseBaseType, reads.uppercase "REAL" (by decide), checked, if_true, List.tail_cons]
  rw [← reads.parseCheckRange_iff plain prints]
  constructor
  · rintro ⟨tokens, lexes', parsed⟩
    rw [lexes'.unique lexes, parses] at parsed
    obtain ⟨⟨⟨lo, hi⟩, others⟩, inner, same⟩ := map_ok_iff.mp parsed
    dsimp only at same
    cases same
    exact inner
  · intro parsed
    refine ⟨_, lexes, ?_⟩
    rw [parses, parsed]
    rfl

/-- A base type in print, before its suffix. -/
theorem ReadsPrint.parseBaseType_iff (reads : ReadsPrint registry tokenize) {base : FieldType F}
    (is : IsBase base) {text : List Char} {left : List Token}
    (suffix : Suffix tokenize text left) :
    (∃ tokens, Lexes tokenize ((base.display registry.floats).toList ++ text) tokens ∧
      parseBaseType registry.sql tokens = .ok (base, left)) ↔
    Reprints registry tokenize base := by
  have upper : ∀ word ∈ keywords, registry.sql.toUppercase word = word := reads.uppercase
  cases base with
  | list | nested => exact is.elim
  | text =>
    refine iff_of_true (reads.scalar "TEXT" (by decide) suffix ?_) trivial
    simp only [parseBaseType, upper "TEXT" (by decide)]
  | int =>
    refine iff_of_true (reads.scalar "INT" (by decide) suffix ?_) trivial
    simp only [parseBaseType, upper "INT" (by decide)]
  | bool =>
    refine iff_of_true (reads.scalar "BOOL" (by decide) suffix ?_) trivial
    simp only [parseBaseType, upper "BOOL" (by decide)]
  | real =>
    refine iff_of_true (reads.scalar "REAL" (by decide) suffix ?_) trivial
    simp only [parseBaseType, upper "REAL" (by decide), suffix.plain, Bool.false_eq_true, if_false]
  | realBounded min max => exact reads.range_iff suffix
  | oneOf variants =>
    have characters : ((FieldType.oneOf variants).display registry.floats).toList ++ text =
        "ONEOF".toList ++ '(' :: printedVariants variants text := by
      simp [FieldType.display, printedVariants, String.toList_append]
    rw [characters]
    refine reads.variants_iff (by decide) (fun _ _ => FieldType.oneOf.inj) ?_ is.1 is.2 suffix
    intro rest
    simp only [parseBaseType, upper "ONEOF" (by decide)]
  | level variants =>
    have characters : ((FieldType.level variants).display registry.floats).toList ++ text =
        "LEVEL".toList ++ '(' :: printedVariants variants text := by
      simp [FieldType.display, printedVariants, String.toList_append]
    rw [characters]
    refine reads.variants_iff (by decide) (fun _ _ => FieldType.level.inj) ?_ is.1 is.2 suffix
    intro rest
    simp only [parseBaseType, upper "LEVEL" (by decide)]

/-- A text is a base type, or one and a pair of brackets. -/
theorem parseFieldTypeStr_iff {sql : SqlText F} {ty : FieldType F} (spec : String)
    (tokens : List Token) :
    parseFieldTypeStr sql spec tokens = .ok ty ↔ parseBaseType sql tokens = .ok (ty, []) ∨
      ∃ inner, ty = .list inner ∧ parseBaseType sql tokens = .ok (inner, [.lBracket, .rBracket]) := by
  constructor
  · intro parsed
    unfold parseFieldTypeStr parseFieldType at parsed
    cases found : parseBaseType sql tokens with
    | error message => simp [found] at parsed
    | ok result =>
      obtain ⟨base, rest⟩ := result
      rw [found] at parsed
      cases rest with
      | nil =>
        cases parsed
        exact Or.inl rfl
      | cons token rest =>
        cases token with
        | lBracket =>
          dsimp only at parsed
          cases closed : expectToken sql .rBracket rest with
          | error message => simp [closed, Except.map] at parsed
          | ok left =>
            rw [closed] at parsed
            cases left with
            | cons => cases parsed
            | nil =>
              cases parsed
              obtain ⟨bracket, ended⟩ := ite_ok_iff.mp closed
              cases rest with
              | nil => cases bracket
              | cons next more =>
                cases bracket
                cases ended
                exact Or.inr ⟨base, rfl, rfl⟩
        | word | singleQuotedString | doubleQuotedString | comma | lParen | rParen | rBracket
        | semiColon | other | eof => cases parsed
  · unfold parseFieldTypeStr parseFieldType
    rintro (parsed | ⟨inner, rfl, parsed⟩)
    · rw [parsed]
    · rw [parsed]
      rfl

open ExtractUdf in
/-- A field type that the grammar returns comes back from its own text exactly when its variants
need no quotes and its bounds print themselves. -/
theorem parseSpec_display_iff (reads : ReadsPrint registry tokenize) {tokens rest : List Token}
    {ty : FieldType F} (parsed : parseFieldType registry.sql tokens = .ok (ty, rest)) :
    parseSpec registry tokenize (ty.display registry.floats) = .ok ty ↔
      Reprints registry tokenize ty := by
  have lexed : ∀ spec, parseSpec registry tokenize spec = .ok ty ↔
      ∃ tokens, Lexes tokenize spec.toList tokens ∧
        parseFieldTypeStr registry.sql spec tokens = .ok ty := by
    intro spec
    unfold parseSpec Lexes
    rw [String.ofList_toList]
    cases tokenize spec with
    | error message => simp
    | ok tokens => simp
  simp only [lexed, parseFieldTypeStr_iff]
  rcases (parseFieldType_isFieldType parsed).base_or_list with base | ⟨inner, rfl, base⟩
  · have noList : ∀ inner, ty ≠ .list inner := by
      rintro inner rfl
      exact base
    simp only [noList, false_and, exists_false, or_false]
    rw [← reads.parseBaseType_iff base reads.lawful.noSuffix, List.append_nil]
  · have noBase : ∀ tokens, parseBaseType registry.sql tokens ≠ .ok (.list inner, []) :=
      fun tokens found => parseBaseType_isBase found
    have characters : ((FieldType.list inner).display registry.floats).toList =
        (inner.display registry.floats).toList ++ ['[', ']'] := by
      rw [FieldType.display, String.toList_append]
      rfl
    simp only [noBase, false_or, FieldType.list.injEq, exists_eq_left', characters]
    exact reads.parseBaseType_iff base reads.lawful.listSuffix

section Example

open ExtractUdf PlainLexer
open Extract (asciiSql wholeFloats)
open Questions (wholeFloats_printed)

theorem nothing_declared : ∀ entry ∈ ([] : List (String × SemanticType Int)),
    ∃ tokens, parseCreateType asciiSql wholeFloats tokens = .ok entry.2 :=
  fun _ declared => absurd declared List.not_mem_nil

/-- No type is declared; the numbers are whole. -/
def wholeRegistry : TypeRegistry Int :=
  ⟨asciiSql, wholeFloats, id, [], nothing_declared⟩

theorem display_digits (x : Int) :
    ∀ c ∈ (wholeFloats.display x).toList, c.isDigit = true ∨ c = '-' := by
  have digits : ∀ n : Nat, ∀ c ∈ Nat.toDigits 10 n, c.isDigit = true :=
    fun n c inside => Nat.isDigit_of_mem_toDigits (by decide) (by decide) inside
  intro c inside
  change c ∈ x.repr.toList at inside
  rw [Int.repr_eq_if] at inside
  split at inside
  · rw [Nat.toList_repr] at inside
    exact Or.inl (digits _ c inside)
  · rw [String.toList_append, Nat.toList_repr, List.mem_append] at inside
    rcases inside with sign | digit
    · exact Or.inr (List.mem_singleton.mp sign)
    · exact Or.inl (digits _ c digit)

theorem trimMatches_of_solid {text : List Char} (solid : ∀ c ∈ text, isWhitespace c = false) :
    trimMatches isWhitespace text = text := by
  have keeps : ∀ {text : List Char}, (∀ c ∈ text, isWhitespace c = false) →
      text.dropWhile isWhitespace = text := by
    intro text solid
    cases text with
    | nil => rfl
    | cons c rest => rw [List.dropWhile_cons_of_neg (by simp [solid c])]
  rw [trimMatches, keeps solid, keeps (by simpa using solid), List.reverse_reverse]

theorem isWhitespace_of_isDigit {c : Char} (digit : c.isDigit = true) :
    isWhitespace c = false := by
  simp only [Char.isDigit, Bool.and_eq_true, decide_eq_true_eq, ge_iff_le,
    UInt32.le_iff_toNat_le] at digit
  have low : 48 ≤ c.toNat := digit.1
  have high : c.toNat ≤ 57 := digit.2
  simp only [isWhitespace, Bool.or_eq_false_iff, Bool.and_eq_false_imp, decide_eq_true_eq,
    decide_eq_false_iff_not, beq_eq_false_iff_ne]
  omega

theorem join_singletons (text : List Char) :
    String.join ((text.map fun c => Token.other (String.singleton c)).map asciiSql.display) =
      String.ofList text := by
  induction text with
  | nil => rfl
  | cons c rest ih =>
    rw [List.map_cons, List.map_cons, String.join_cons, ih]
    apply String.toList_inj.mp
    simp [asciiSql, Extract.asciiText]

theorem wholeRegistry_reads : ReadsPrint wholeRegistry plainLexer where
  lawful := lawful
  bare := by
    simp only [keywords, List.forall_mem_cons]
    exact ⟨rfl, rfl, rfl, rfl, rfl, rfl, rfl, fun _ none => absurd none List.not_mem_nil⟩
  uppercase := by decide +kernel
  printed := wholeFloats_printed
  trimmed x := by
    apply trimMatches_of_solid
    intro c inside
    rcases display_digits x c inside with digit | rfl
    · exact isWhitespace_of_isDigit digit
    · rfl
  range min max text rest lexes := by
    have closed : Lexes plainLexer (')' :: text) (.rParen :: rest) :=
      (lawful.separator (by decide)).mpr ⟨rest, rfl, lexes⟩
    have plain : ∀ c ∈ (wholeFloats.display min).toList ++ '.' :: '.' ::
        (wholeFloats.display max).toList, c.isDigit = true ∨ c = '-' ∨ c = '.' := by
      intro c inside
      simp only [List.mem_append, List.mem_cons] at inside
      rcases inside with low | rfl | rfl | high
      · exact (display_digits min c low).imp_right Or.inl
      · exact Or.inr (Or.inr rfl)
      · exact Or.inr (Or.inr rfl)
      · exact (display_digits max c high).imp_right Or.inl
    refine ⟨_, scan_digits plain closed, ?_, ?_⟩
    · intro token inside
      obtain ⟨c, -, rfl⟩ := List.mem_map.mp inside
      exact ⟨by simp, by simp⟩
    · refine (join_singletons _).trans (String.toList_inj.mp ?_)
      simp [wholeRegistry, String.toList_append]

/-- `ONEOF("spam,ham")` has one variant, and comes back with two. -/
theorem quoted_comma_drifts :
    parseFieldType wholeRegistry.sql
        [.word "ONEOF" none, .lParen, .word "spam,ham" (some '"'), .rParen] =
      .ok (.oneOf ["spam,ham"], []) ∧
    plainLexer "ONEOF(\"spam,ham\")" =
      .ok [.word "ONEOF" none, .lParen, .word "spam,ham" (some '"'), .rParen] ∧
    parseSpec wholeRegistry plainLexer
        ((FieldType.oneOf ["spam,ham"]).display wholeRegistry.floats) =
      .ok (.oneOf ["spam", "ham"]) ∧
    (FieldType.oneOf ["spam", "ham"] : FieldType Int) ≠ .oneOf ["spam,ham"] := by
  decide +kernel

/-- `ONEOF(spam, ham)[]`. -/
theorem bare_list_comes_back :
    parseSpec wholeRegistry plainLexer
        ((FieldType.list (.oneOf ["spam", "ham"])).display wholeRegistry.floats) =
      .ok (.list (.oneOf ["spam", "ham"])) := by
  have parsed : parseFieldType wholeRegistry.sql
      [.word "ONEOF" none, .lParen, .word "spam" none, .comma, .word "ham" none, .rParen,
        .lBracket, .rBracket] = .ok (.list (.oneOf ["spam", "ham"]), []) := by
    decide +kernel
  refine (parseSpec_display_iff wholeRegistry_reads parsed).mpr ?_
  show ∀ variant ∈ ["spam", "ham"], Bare plainLexer variant
  simp only [List.forall_mem_cons]
  exact ⟨rfl, rfl, fun _ none => absurd none List.not_mem_nil⟩

end Example

end Semcast.Ddl
