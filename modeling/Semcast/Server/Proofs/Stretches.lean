import Mathlib.Data.List.Induction
import Semcast.Server.Proofs.SplitTokens

/-!
# Stretches without a cut

Where the scanner passes a stretch of a text without a cut, it passes the stretch again with
the blanks at its ends left out: before the end of a text, and before a newline if the
stretch was not at the end.
-/

namespace Semcast.Router

open Verify

/-- White space only. -/
def Blank (text : List Char) : Prop :=
  ∀ c ∈ text, isWhitespace c = true

/-- What may come after a stretch in place of `rest`: the end of the text or, where the
stretch was not at the end, a newline. -/
def Replaces (next rest : List Char) : Prop :=
  next = [] ∨ rest ≠ [] ∧ next.head? = some '\n'

theorem Replaces.head?_ne {next rest : List Char} (replaces : Replaces next rest) {c : Char}
    (other : c ≠ '\n') : next.head? ≠ some c := by
  rcases replaces with rfl | ⟨-, newline⟩
  · simp
  · rw [newline]
    exact fun same => other (Option.some.inj same).symm

theorem Replaces.eq_nil {next : List Char} (replaces : Replaces next []) : next = [] :=
  replaces.resolve_right fun more => more.1 rfl

/-- Where a scanner stops within a stretch before `rest`, it stops at the same place before
`next`, blanks at the end of the stretch apart, or at the end of the stretch. -/
def Trims (left : List Char → List Char) : Prop :=
  ∀ ⦃text blanks rest next later : List Char⦄, Blank blanks → Replaces next rest →
    left (text ++ blanks ++ rest) = later ++ rest →
    ∃ later', left (text ++ next) = later' ++ next ∧ (later = later' ++ blanks ∨ later' = [])

@[simp] theorem Skipped.left_after (start : List Char) (skipped : Skipped) :
    (skipped.after start).left = skipped.left := rfl

/-- A scanner that leaves less than `rest` does not stop before it. -/
theorem not_before {left rest : List Char} (shorter : left.length < rest.length)
    (later : List Char) : left ≠ later ++ rest := by
  rintro rfl
  rw [List.length_append] at shorter
  omega

/-! ## Quotes -/

theorem length_skipQuoted_lt (quote c : Char) (rest : List Char) :
    (skipQuoted quote (c :: rest)).left.length < (c :: rest).length := by
  apply length_left_lt (skipQuoted_append quote (c :: rest))
  unfold skipQuoted
  split
  · split
    · simp
    · split <;> simp [Skipped.after]
  · simp [Skipped.after]

theorem left_skipQuoted_free {quote : Char} {text : List Char} (free : quote ∉ text)
    (rest : List Char) : (skipQuoted quote (text ++ rest)).left = (skipQuoted quote rest).left := by
  induction text with
  | nil => rfl
  | cons c text ih =>
    rw [List.mem_cons, not_or] at free
    rw [List.cons_append, skipQuoted_cons_of_ne (Ne.symm free.1), Skipped.left_after, ih free.2]

theorem skipQuoted_cons_self {quote : Char} {rest : List Char} (ends : rest.head? ≠ some quote) :
    skipQuoted quote (quote :: rest) = ⟨[quote], rest⟩ := by
  cases rest with
  | nil => simp [skipQuoted]
  | cons next later =>
    have other : next ≠ quote := by simpa using ends
    simp [skipQuoted, other]

theorem skipQuoted_pair (quote : Char) (rest : List Char) :
    skipQuoted quote (quote :: quote :: rest) = (skipQuoted quote rest).after [quote, quote] := by
  simp [skipQuoted]

theorem trims_skipQuoted {quote : Char} (solid : isWhitespace quote = false) :
    Trims fun text => (skipQuoted quote text).left := by
  have other : quote ≠ '\n' := by
    rintro rfl
    cases solid
  intro text blanks rest next later blank replaces stops
  have free : quote ∉ blanks := by
    intro member
    rw [blank quote member] at solid
    cases solid
  dsimp only at stops ⊢
  fun_induction skipQuoted quote text with
  | case1 =>
    -- The quote is open where the blanks begin, and nothing of them closes it.
    rw [List.nil_append, left_skipQuoted_free free] at stops
    cases rest with
    | nil =>
      cases replaces.eq_nil
      exact ⟨[], rfl, Or.inr rfl⟩
    | cons c rest =>
      exact absurd stops (not_before (length_skipQuoted_lt quote c rest) later)
  | case2 =>
    exact ⟨[], by rw [List.singleton_append, skipQuoted_cons_self (replaces.head?_ne other)]; rfl,
      Or.inr rfl⟩
  | case3 text ih =>
    simp only [List.cons_append, skipQuoted_pair, Skipped.left_after] at stops ⊢
    exact ih stops
  | case4 c text unlike =>
    have ends : ∀ more, (c :: text ++ more).head? ≠ some quote := by simpa using unlike
    rw [List.append_assoc, List.cons_append, skipQuoted_cons_self (ends _)] at stops
    rw [List.cons_append, skipQuoted_cons_self (ends _)]
    refine ⟨c :: text, rfl, Or.inl ?_⟩
    exact (List.append_cancel_right ((List.append_assoc ..).trans stops)).symm
  | case5 c text unlike ih =>
    simp only [List.cons_append, skipQuoted_cons_of_ne unlike, Skipped.left_after] at stops ⊢
    exact ih stops

/-! ## Block comments -/

/-- The two characters open or close a block comment. -/
def Pair (c d : Char) : Prop :=
  c = '/' ∧ d = '*' ∨ c = '*' ∧ d = '/'

theorem Pair.solid {c d : Char} (pair : Pair c d) :
    isWhitespace c = false ∧ isWhitespace d = false := by
  rcases pair with ⟨rfl, rfl⟩ | ⟨rfl, rfl⟩ <;> decide

theorem skipBlockComment_cons {c : Char} {rest : List Char}
    (apart : ∀ d, rest.head? = some d → ¬Pair c d) (depth : Int) :
    skipBlockComment depth (c :: rest) = (skipBlockComment depth rest).after [c] := by
  rw [skipBlockComment]
  · rintro later rfl rfl
    exact apart '*' rfl (Or.inl ⟨rfl, rfl⟩)
  · rintro later rfl rfl
    exact apart '/' rfl (Or.inr ⟨rfl, rfl⟩)

theorem length_skipBlockComment_le (depth : Int) (text : List Char) :
    (skipBlockComment depth text).left.length ≤ text.length := by
  have lengths := congrArg List.length (skipBlockComment_append depth text)
  rw [List.length_append] at lengths
  omega

theorem length_skipBlockComment_lt (depth : Int) (c : Char) (rest : List Char) :
    (skipBlockComment depth (c :: rest)).left.length < (c :: rest).length :=
  length_left_lt (skipBlockComment_append depth (c :: rest))
    (skipBlockComment_run_ne_nil depth c rest)

/-- A comment that is open at a pair goes on after it, or ends there. -/
theorem length_skipBlockComment_pair {c d : Char} (pair : Pair c d) (depth : Int)
    (rest : List Char) : (skipBlockComment depth (c :: d :: rest)).left.length ≤ rest.length := by
  rcases pair with ⟨rfl, rfl⟩ | ⟨rfl, rfl⟩
  · exact length_skipBlockComment_le (depth + 1) rest
  · rw [skipBlockComment]
    split
    · exact Nat.le_refl _
    · exact length_skipBlockComment_le (depth - 1) rest

theorem left_skipBlockComment_blank {blanks : List Char} (blank : Blank blanks) (depth : Int)
    (rest : List Char) :
    (skipBlockComment depth (blanks ++ rest)).left = (skipBlockComment depth rest).left := by
  induction blanks with
  | nil => rfl
  | cons c blanks ih =>
    obtain ⟨first, others⟩ := List.forall_mem_cons.mp blank
    have apart : ∀ d, (blanks ++ rest).head? = some d → ¬Pair c d := by
      intro d _ pair
      rw [pair.solid.1] at first
      cases first
    rw [List.cons_append, skipBlockComment_cons apart, Skipped.left_after, ih others]

/-- A comment that is open before a character and blanks is open after them. -/
theorem length_skipBlockComment_open (c : Char) {blanks rest : List Char} (blank : Blank blanks)
    (more : rest ≠ []) (depth : Int) :
    (skipBlockComment depth (c :: (blanks ++ rest))).left.length < rest.length := by
  obtain ⟨e, rest, rfl⟩ := List.exists_cons_of_ne_nil more
  by_cases apart : ∀ d, (blanks ++ e :: rest).head? = some d → ¬Pair c d
  · rw [skipBlockComment_cons apart, Skipped.left_after, left_skipBlockComment_blank blank]
    exact length_skipBlockComment_lt depth e rest
  · obtain ⟨d, first, pair⟩ : ∃ d, (blanks ++ e :: rest).head? = some d ∧ Pair c d := by
      simpa only [not_forall, Classical.not_not, exists_prop] using apart
    cases blanks with
    | nil =>
      cases Option.some.inj first
      exact Nat.lt_succ_of_le (length_skipBlockComment_pair pair depth rest)
    | cons b blanks =>
      cases Option.some.inj first
      have wrong := blank d List.mem_cons_self
      rw [pair.solid.2] at wrong
      cases wrong

theorem trims_skipBlockComment (depth : Int) :
    Trims fun text => (skipBlockComment depth text).left := by
  intro text blanks rest next later blank replaces stops
  dsimp only at stops ⊢
  fun_induction skipBlockComment depth text with
  | case1 depth text ih =>
    simp only [List.cons_append, skipBlockComment, Skipped.left_after] at stops ⊢
    exact ih stops
  | case2 depth text last =>
    simp only [List.cons_append, skipBlockComment, if_pos last] at stops ⊢
    exact ⟨text, rfl, Or.inl (List.append_cancel_right stops).symm⟩
  | case3 depth text more ih =>
    simp only [List.cons_append, skipBlockComment, if_neg more, Skipped.left_after] at stops ⊢
    exact ih stops
  | case4 depth c text no_open no_close ih =>
    cases text with
    | nil =>
      -- The comment is open at the end of the stretch.
      by_cases more : rest = []
      · cases more
        cases replaces.eq_nil
        exact ⟨[], by simp [skipBlockComment, Skipped.after], Or.inr rfl⟩
      · exact absurd stops (not_before (length_skipBlockComment_open c blank more depth) later)
    | cons d text =>
      have apart : ∀ more e, (d :: text ++ more).head? = some e → ¬Pair c e := by
        intro more e first pair
        cases Option.some.inj first
        rcases pair with ⟨rfl, rfl⟩ | ⟨rfl, rfl⟩
        · exact no_open text rfl rfl
        · exact no_close text rfl rfl
      rw [List.cons_append, skipBlockComment_cons (apart _)]
      rw [List.append_assoc, List.cons_append, skipBlockComment_cons (apart _)] at stops
      exact ih ((List.append_assoc ..).symm ▸ stops)
  | case5 depth =>
    by_cases more : rest = []
    · cases more
      cases replaces.eq_nil
      exact ⟨[], rfl, Or.inr rfl⟩
    · obtain ⟨c, rest, rfl⟩ := List.exists_cons_of_ne_nil more
      rw [List.nil_append, left_skipBlockComment_blank blank] at stops
      exact absurd stops (not_before (length_skipBlockComment_lt depth c rest) later)

/-! ## Line comments -/

theorem trims_lineComment : Trims fun text => text.dropWhile (· ≠ '\n') := by
  intro text blanks rest next later _ replaces stops
  dsimp only at stops ⊢
  rw [List.append_assoc, List.dropWhile_append] at stops
  rw [List.dropWhile_append]
  split at stops
  · -- The comment goes on to the end of the stretch.
    rename_i to_the_end
    rw [if_pos to_the_end]
    refine ⟨[], ?_, Or.inr rfl⟩
    rcases replaces with rfl | ⟨-, newline⟩
    · rfl
    · obtain ⟨more, rfl⟩ := List.head?_eq_some_iff.mp newline
      rfl
  · rename_i ends
    rw [if_neg ends]
    rw [← List.append_assoc] at stops
    exact ⟨text.dropWhile (· ≠ '\n'), rfl, Or.inl (List.append_cancel_right stops).symm⟩

/-! ## Dollar quotes -/

/-- A stretch that ends with no blank does not end in the blanks. -/
theorem prefix_of_blanks {run text blanks : List Char} {c : Char} (solid : isWhitespace c = false)
    (blank : Blank blanks) (stretch : run ++ [c] <+: text ++ blanks) : run ++ [c] <+: text := by
  induction blanks using List.reverseRecOn with
  | nil => rwa [List.append_nil] at stretch
  | append_singleton blanks b ih =>
    rw [← List.append_assoc, List.prefix_concat_iff] at stretch
    rcases stretch with whole | shorter
    · obtain ⟨-, same⟩ := List.append_inj' whole rfl
      have wrong := blank b (List.mem_append_right blanks List.mem_cons_self)
      rw [← List.singleton_inj.mp same, solid] at wrong
      cases wrong
    · exact ih (fun d member => blank d (List.mem_append_left _ member)) shorter

variable {isAlphanumeric : Char → Bool}

/-- No tag goes over the end of a stretch to a newline. -/
theorem tag_before_newline (newline : isAlphanumeric '\n' = false) {text next tag : List Char}
    (starts : next = [] ∨ next.head? = some '\n')
    (opened : dollarTag isAlphanumeric (text ++ next) = some tag) : tag ++ ['$'] <+: text := by
  obtain ⟨tagged, free, named⟩ := dollarTag_eq_some_iff.mp opened
  rcases starts with rfl | starts
  · rwa [List.append_nil] at tagged
  · obtain ⟨more, rfl⟩ := List.head?_eq_some_iff.mp starts
    by_cases short : (tag ++ ['$']).length ≤ text.length
    · exact List.prefix_of_prefix_length_le tagged (List.prefix_append ..) short
    · have longer : text ++ ['\n'] <+: tag ++ ['$'] := by
        apply List.prefix_of_prefix_length_le _ tagged
        · simpa [Nat.lt_succ_iff] using short
        · exact ⟨more, by simp⟩
      rcases List.prefix_concat_iff.mp longer with same | within
      · have wrong := (List.append_inj' same rfl).2
        cases wrong
      · have member : '\n' ∈ tag := within.subset (by simp)
        have wrong := List.all_eq_true.mp named '\n' member
        rw [newline] at wrong
        cases wrong

/-- What is found within a stretch is found in it alone. -/
theorem findBefore_of_append {delim text rest before : List Char}
    (found : findBefore delim (text ++ rest) = some before)
    (within : before ++ delim <+: text) : findBefore delim text = some before := by
  induction text generalizing before with
  | nil =>
    obtain ⟨rfl, rfl⟩ := List.append_eq_nil_iff.mp (List.prefix_nil.mp within)
    rfl
  | cons c text ih =>
    rw [List.cons_append, findBefore] at found
    rw [findBefore]
    by_cases here : delim.isPrefixOf (c :: (text ++ rest)) = true
    · rw [if_pos here] at found
      cases found
      exact if_pos (List.isPrefixOf_iff_prefix.mpr within)
    · rw [if_neg here] at found
      obtain ⟨before, there, rfl⟩ := Option.map_eq_some_iff.mp found
      have still : ¬delim.isPrefixOf (c :: text) = true := by
        intro shorter
        exact here (List.isPrefixOf_iff_prefix.mpr
          ((List.isPrefixOf_iff_prefix.mp shorter).trans (List.prefix_append (c :: text) rest)))
      rw [if_neg still, ih there (List.cons_prefix_cons.mp within).2]
      rfl

theorem length_skipDollarQuoted {tag rest : List Char}
    (opened : dollarTag isAlphanumeric rest = some tag) :
    (skipDollarQuoted isAlphanumeric rest).left.length + (tag.length + 1) ≤ rest.length := by
  obtain ⟨⟨body, rfl⟩, -⟩ := dollarTag_eq_some_iff.mp opened
  have total : (tag ++ ['$'] ++ body).length = tag.length + 1 + body.length := by
    rw [List.length_append, List.length_append, List.length_singleton]
  rw [skipDollarQuoted_of_tag opened, total]
  split
  · dsimp only
    rw [List.length_drop, Nat.add_comm]
    exact Nat.add_le_add_left (Nat.sub_le _ _) _
  · simp

/-- A dollar quote that opens within a stretch, and what is found of its end there. -/
theorem trims_tagged {tag body blanks rest next later : List Char}
    (opened : ∀ more, dollarTag isAlphanumeric (tag ++ ['$'] ++ more) = some tag)
    (blank : Blank blanks) (replaces : Replaces next rest)
    (stops : (skipDollarQuoted isAlphanumeric (tag ++ ['$'] ++ (body ++ (blanks ++ rest)))).left =
      later ++ rest) :
    ∃ later', (skipDollarQuoted isAlphanumeric (tag ++ ['$'] ++ (body ++ next))).left =
      later' ++ next ∧ (later = later' ++ blanks ∨ later' = []) := by
  set delim := '$' :: tag ++ ['$'] with delimited
  rw [skipDollarQuoted_of_tag (opened _), ← delimited] at stops ⊢
  cases found : findBefore delim (body ++ (blanks ++ rest)) with
  | none =>
    rw [found] at stops
    obtain ⟨-, rfl⟩ := List.append_eq_nil_iff.mp stops.symm
    cases replaces.eq_nil
    cases missing : findBefore delim (body ++ []) with
    | none => exact ⟨[], rfl, Or.inr rfl⟩
    | some before =>
      rw [List.append_nil] at missing
      rw [findBefore_append missing (by simp [delimited])] at found
      cases found
  | some before =>
    obtain ⟨after, whole⟩ := append_of_findBefore found
    rw [found, ← whole] at stops
    dsimp only at stops
    rw [← List.length_append, List.drop_left] at stops
    cases stops
    -- The end of the quote is a `$`, and no blank.
    have stretch : before ++ delim ++ later = body ++ blanks := by
      apply List.append_cancel_right
      rw [List.append_assoc _ later, whole, List.append_assoc]
    have inside : before ++ delim <+: body := by
      have ends : before ++ delim = before ++ '$' :: tag ++ ['$'] := by simp [delimited]
      rw [ends] at stretch ⊢
      exact prefix_of_blanks (by decide) blank ⟨later, stretch⟩
    have alone := findBefore_of_append found inside
    obtain ⟨later', rfl⟩ := inside
    refine ⟨later', ?_, Or.inl ?_⟩
    · rw [findBefore_append alone (by simp [delimited])]
      dsimp only
      rw [← List.length_append, List.append_assoc _ later', List.drop_left]
    · rw [List.append_assoc _ later'] at stretch
      exact List.append_cancel_left stretch

theorem trims_skipDollarQuoted (newline : isAlphanumeric '\n' = false) :
    Trims fun text => (skipDollarQuoted isAlphanumeric text).left := by
  intro text blanks rest next later blank replaces stops
  dsimp only at stops ⊢
  by_cases within : ∃ tag, tag ++ ['$'] <+: text ∧ '$' ∉ tag ∧
      tag.all (fun c => isAlphanumeric c || c == '_') = true
  · obtain ⟨tag, ⟨body, rfl⟩, free, named⟩ := within
    have opened : ∀ more, dollarTag isAlphanumeric (tag ++ ['$'] ++ more) = some tag :=
      fun more => dollarTag_eq_some_iff.mpr ⟨⟨more, rfl⟩, free, named⟩
    rw [List.append_assoc _ body]
    rw [List.append_assoc _ blanks, List.append_assoc _ body] at stops
    exact trims_tagged opened blank replaces stops
  · -- No tag ends in the stretch, and so none begins here.
    have no_tag : dollarTag isAlphanumeric (text ++ next) = none := by
      cases opened : dollarTag isAlphanumeric (text ++ next) with
      | none => rfl
      | some tag =>
        have ends := tag_before_newline newline (replaces.imp_right And.right) opened
        exact absurd ⟨tag, ends, (dollarTag_eq_some_iff.mp opened).2⟩ within
    have left_as_it_is : ∀ more, dollarTag isAlphanumeric more = none →
        (skipDollarQuoted isAlphanumeric more).left = more := by
      intro more nothing
      rw [skipDollarQuoted, nothing]
    rw [left_as_it_is _ no_tag]
    cases opened : dollarTag isAlphanumeric (text ++ blanks ++ rest) with
    | none =>
      rw [left_as_it_is _ opened] at stops
      exact ⟨text, rfl, Or.inl (List.append_cancel_right stops).symm⟩
    | some tag =>
      obtain ⟨tagged, named⟩ := dollarTag_eq_some_iff.mp opened
      have lengths := length_skipDollarQuoted opened
      rw [stops, List.length_append, List.length_append] at lengths
      have ends : tag ++ ['$'] <+: text ++ blanks := by
        apply List.prefix_of_prefix_length_le tagged (List.prefix_append ..)
        rw [List.length_append, List.length_singleton]
        omega
      exact absurd ⟨tag, prefix_of_blanks (by decide) blank ends, named⟩ within

/-! ## One round -/

theorem trims_skip (newline : isAlphanumeric '\n' = false) (c : Char) :
    Trims fun text => (skip isAlphanumeric c text).left := by
  intro text blanks rest next later blank replaces stops
  dsimp only at stops ⊢
  unfold skip at stops ⊢
  by_cases quote : c = '\'' ∨ c = '"'
  · have solid : isWhitespace c = false := by
      rcases quote with rfl | rfl <;> decide
    rw [if_pos quote, Skipped.left_after] at stops ⊢
    exact trims_skipQuoted solid blank replaces stops
  rw [if_neg quote] at stops ⊢
  by_cases dollar : c = '$'
  · rw [if_pos dollar] at stops ⊢
    exact trims_skipDollarQuoted newline blank replaces stops
  rw [if_neg dollar] at stops ⊢
  cases text with
  | nil =>
    -- What comes next makes no comment of the character.
    have no_line : ¬(c = '-' ∧ ([] ++ next).head? = some '-') :=
      fun both => replaces.head?_ne (by decide) both.2
    have no_block : ¬(c = '/' ∧ ([] ++ next).head? = some '*') :=
      fun both => replaces.head?_ne (by decide) both.2
    rw [if_neg no_line, if_neg no_block]
    exact ⟨[], rfl, Or.inr rfl⟩
  | cons d text =>
    have same : ∀ more : List Char, (d :: text ++ more).head? = some d := fun _ => rfl
    rw [List.append_assoc, same, ← List.append_assoc] at stops
    rw [same]
    by_cases line : c = '-' ∧ some d = some '-'
    · rw [if_pos line] at stops ⊢
      exact trims_lineComment blank replaces stops
    rw [if_neg line] at stops ⊢
    by_cases block : c = '/' ∧ some d = some '*'
    · rw [if_pos block] at stops ⊢
      exact @trims_skipBlockComment 0 (c :: d :: text) _ _ _ _ blank replaces stops
    · rw [if_neg block] at stops ⊢
      exact ⟨d :: text, rfl, Or.inl (List.append_cancel_right stops).symm⟩

/-! ## Stretches without a cut -/

/-- The scanner passes this text before `rest`, and cuts nothing off. -/
inductive Passes (isAlphanumeric : Char → Bool) (rest : List Char) : List Char → Prop where
  | done : Passes isAlphanumeric rest []
  | round {c : Char} {text later : List Char} (not_cut : c ≠ ';')
      (stops : (skip isAlphanumeric c (text ++ rest)).left = later ++ rest)
      (passes : Passes isAlphanumeric rest later) : Passes isAlphanumeric rest (c :: text)

theorem Passes.trim (newline : isAlphanumeric '\n' = false) {text blanks rest next : List Char}
    (blank : Blank blanks) (replaces : Replaces next rest)
    (passes : Passes isAlphanumeric rest (text ++ blanks)) : Passes isAlphanumeric next text := by
  generalize whole : text ++ blanks = stretch at passes
  induction passes generalizing text with
  | done =>
    obtain ⟨rfl, -⟩ := List.append_eq_nil_iff.mp whole
    exact .done
  | @round c stretch later not_cut stops passes ih =>
    cases text with
    | nil => exact .done
    | cons d text =>
      obtain ⟨rfl, rfl⟩ := List.cons.inj whole
      obtain ⟨later', stops', same | nothing⟩ := trims_skip newline d blank replaces stops
      · exact .round not_cut stops' (ih same.symm)
      · cases nothing
        exact .round not_cut stops' .done

/-- A character that is none of these is passed alone. -/
theorem skip_other {c : Char} (other : c ∉ [';', '\'', '"', '$', '-', '/']) (rest : List Char) :
    skip isAlphanumeric c rest = ⟨[c], rest⟩ ∧ c ≠ ';' := by
  have quiet : opens isAlphanumeric (c :: rest) = false := by
    simp only [List.mem_cons, List.not_mem_nil, or_false, not_or] at other
    simp [opens, other]
  exact (skip_of_not_opens quiet).symm

theorem skip_blank {c : Char} (blank : isWhitespace c = true) (rest : List Char) :
    skip isAlphanumeric c rest = ⟨[c], rest⟩ ∧ c ≠ ';' := by
  apply skip_other
  intro member
  simp only [List.mem_cons, List.not_mem_nil, or_false] at member
  rcases member with rfl | rfl | rfl | rfl | rfl | rfl <;> cases blank

theorem Passes.of_blanks {text blanks rest : List Char} (blank : Blank blanks)
    (passes : Passes isAlphanumeric rest (blanks ++ text)) : Passes isAlphanumeric rest text := by
  induction blanks with
  | nil => exact passes
  | cons c blanks ih =>
    obtain ⟨first, others⟩ := List.forall_mem_cons.mp blank
    cases passes with
    | round not_cut stops passes =>
      rw [(skip_blank first _).1] at stops
      cases List.append_cancel_right stops
      exact ih others passes

theorem Passes.append {text later rest : List Char}
    (passes : Passes isAlphanumeric (later ++ rest) text)
    (more : Passes isAlphanumeric rest later) : Passes isAlphanumeric rest (text ++ later) := by
  induction passes with
  | done => exact more
  | @round c text stretch not_cut stops passes ih =>
    refine .round not_cut ?_ ih
    change (skip isAlphanumeric c (text ++ later ++ rest)).left = stretch ++ later ++ rest
    rw [List.append_assoc, List.append_assoc, stops]

end Semcast.Router
