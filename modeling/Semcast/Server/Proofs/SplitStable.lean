import Semcast.Server.Proofs.Stretches

/-!
# Splitting a statement again

A statement is a stretch of the text that the scanner passes without a cut, trimmed. So it
is a single statement where it stands alone, and still one with a newline and a semicolon
after it.
-/

namespace Semcast.Router

open Verify

variable {isAlphanumeric : Char → Bool}

/-! ## The cuts of a text -/

/-- The stretches of a text, between its cuts. -/
inductive Cuts (isAlphanumeric : Char → Bool) : List Char → List (List Char) → Prop where
  | last {piece : List Char} (passes : Passes isAlphanumeric [] piece) :
      Cuts isAlphanumeric piece [piece]
  | cut {piece rest : List Char} {pieces : List (List Char)}
      (passes : Passes isAlphanumeric (';' :: rest) piece) (cuts : Cuts isAlphanumeric rest pieces) :
      Cuts isAlphanumeric (piece ++ ';' :: rest) (piece :: pieces)

/-- A round of the loop makes the first stretch longer. -/
theorem Cuts.round {c : Char} {rest piece : List Char} {pieces : List (List Char)}
    (not_cut : c ≠ ';')
    (cuts : Cuts isAlphanumeric (skip isAlphanumeric c rest).left (piece :: pieces)) :
    Cuts isAlphanumeric (c :: rest) (((skip isAlphanumeric c rest).run ++ piece) :: pieces) := by
  have whole := skip_append isAlphanumeric c rest
  obtain ⟨d, run, starts⟩ := List.exists_cons_of_ne_nil (skip_run_ne_nil isAlphanumeric c rest)
  rw [starts, List.cons_append] at whole
  obtain ⟨rfl, whole⟩ := List.cons.inj whole
  rw [starts, List.cons_append]
  generalize stops : (skip isAlphanumeric d rest).left = left at cuts whole
  cases cuts with
  | last passes =>
    rw [whole]
    refine .last (.round not_cut ?_ passes)
    rw [List.append_nil, List.append_nil, stops]
  | @cut _ more _ passes cuts =>
    have same : d :: rest = d :: (run ++ piece) ++ ';' :: more := by
      rw [← whole, List.cons_append, List.append_assoc]
    rw [same]
    refine .cut (.round not_cut ?_ passes) cuts
    rw [List.append_assoc, whole, stops]

theorem cuts_piecesFrom {fuel : Nat} {text : List Char} (enough : text.length ≤ fuel)
    (current : List Char) :
    ∃ piece pieces, piecesFrom isAlphanumeric fuel current text = (current ++ piece) :: pieces ∧
      Cuts isAlphanumeric text (piece :: pieces) := by
  fun_induction piecesFrom isAlphanumeric fuel current text with
  | case1 => exact ⟨[], [], by simp, .last .done⟩
  | case2 current text some => exact absurd (List.length_eq_zero_iff.mp (by omega)) some
  | case3 fuel current rest ih =>
    obtain ⟨piece, pieces, same, cuts⟩ := ih (by simpa using enough)
    exact ⟨[], piece :: pieces, by rw [same, List.append_nil, List.nil_append], .cut .done cuts⟩
  | case4 fuel current c rest not_cut skipped ih =>
    have shorter := length_skip_lt isAlphanumeric c rest
    rw [List.length_cons] at enough
    have left : (skip isAlphanumeric c rest).left.length ≤ fuel := by omega
    obtain ⟨piece, pieces, same, cuts⟩ := ih left
    exact ⟨skipped.run ++ piece, pieces, by rw [same, List.append_assoc], .round not_cut cuts⟩

theorem cuts_pieces (input : List Char) :
    Cuts isAlphanumeric input (pieces isAlphanumeric input) := by
  obtain ⟨piece, others, same, cuts⟩ := @cuts_piecesFrom isAlphanumeric _ _ (Nat.le_refl _) []
  rwa [pieces, same]

theorem Passes.piecesFrom {text rest : List Char} (passes : Passes isAlphanumeric rest text)
    {fuel : Nat} (enough : (text ++ rest).length ≤ fuel) (current : List Char) :
    ∃ fuel', rest.length ≤ fuel' ∧
      Router.piecesFrom isAlphanumeric fuel current (text ++ rest) =
        Router.piecesFrom isAlphanumeric fuel' (current ++ text) rest := by
  induction passes generalizing fuel current with
  | done => exact ⟨fuel, enough, by rw [List.nil_append, List.append_nil]⟩
  | @round c text later not_cut stops passes ih =>
    have whole := skip_append isAlphanumeric c (text ++ rest)
    have shorter := length_skip_lt isAlphanumeric c (text ++ rest)
    cases fuel with
    | zero => simp at enough
    | succ fuel =>
      rw [stops] at shorter whole
      rw [List.cons_append, List.length_cons] at enough
      have fits : (later ++ rest).length ≤ fuel := by omega
      obtain ⟨fuel', left, same⟩ := ih fits
        (current ++ (skip isAlphanumeric c (text ++ rest)).run)
      refine ⟨fuel', left, ?_⟩
      have run : (skip isAlphanumeric c (text ++ rest)).run ++ later = c :: text := by
        apply List.append_cancel_right
        rw [List.append_assoc, whole, List.cons_append]
      rw [List.cons_append, Router.piecesFrom, if_neg not_cut]
      dsimp only
      rw [stops, same, List.append_assoc, run]

theorem Cuts.piecesFrom {text : List Char} {pieces : List (List Char)}
    (cuts : Cuts isAlphanumeric text pieces) {fuel : Nat} (enough : text.length ≤ fuel) :
    Router.piecesFrom isAlphanumeric fuel [] text = pieces := by
  induction cuts generalizing fuel with
  | @last piece passes =>
    rw [← List.append_nil piece] at enough
    obtain ⟨fuel', -, same⟩ := passes.piecesFrom enough []
    rw [List.append_nil] at same
    rw [same]
    cases fuel' <;> rfl
  | @cut piece rest pieces passes cuts ih =>
    obtain ⟨fuel', left, same⟩ := passes.piecesFrom enough []
    cases fuel' with
    | zero => simp at left
    | succ fuel' =>
      rw [List.length_cons] at left
      rw [same, Router.piecesFrom, if_pos rfl, ih (by omega), List.nil_append]

theorem Cuts.pieces_eq {text : List Char} {pieces : List (List Char)}
    (cuts : Cuts isAlphanumeric text pieces) : Router.pieces isAlphanumeric text = pieces :=
  cuts.piecesFrom (Nat.le_refl _)

/-! ## Trimming -/

theorem dropWhile_blank {text : List Char} (blank : Blank text) :
    text.dropWhile isWhitespace = [] := by
  have all := @List.dropWhile_append_of_pos _ isWhitespace text [] blank
  rwa [List.append_nil] at all

theorem blank_reverse {text : List Char} (blank : Blank text) : Blank text.reverse :=
  fun c member => blank c (List.mem_reverse.mp member)

theorem blank_takeWhile (text : List Char) : Blank (text.takeWhile isWhitespace) :=
  List.all_eq_true.mp List.all_takeWhile

theorem trimMatches_append {left right : List Char} (before : Blank left) (after : Blank right)
    (text : List Char) :
    trimMatches isWhitespace (left ++ text ++ right) = trimMatches isWhitespace text := by
  unfold trimMatches
  rw [List.append_assoc, List.dropWhile_append_of_pos before, List.dropWhile_append]
  split
  · rename_i nothing
    rw [dropWhile_blank after, List.isEmpty_iff.mp nothing]
  · rw [List.reverse_append, List.dropWhile_append_of_pos (blank_reverse after)]

/-- Only blanks are trimmed. -/
theorem exists_trimmed (text : List Char) :
    ∃ left right, Blank left ∧ Blank right ∧
      left ++ trimMatches isWhitespace text ++ right = text := by
  refine ⟨text.takeWhile isWhitespace,
    ((text.dropWhile isWhitespace).reverse.takeWhile isWhitespace).reverse, blank_takeWhile _,
    blank_reverse (blank_takeWhile _), ?_⟩
  rw [trimMatches, List.append_assoc, ← List.reverse_append, List.takeWhile_append_dropWhile,
    List.reverse_reverse, List.takeWhile_append_dropWhile]

/-- Some text, and no blank at its ends. -/
def Trimmed (stmt : String) : Prop :=
  stmt ≠ "" ∧ trimMatches isWhitespace stmt.toList = stmt.toList

/-- A piece with a statement in it. -/
theorem statement_append {stmt : String} (trimmed : Trimmed stmt) {left right : List Char}
    (before : Blank left) (after : Blank right) :
    statement (left ++ stmt.toList ++ right) = some stmt := by
  have nonempty : stmt.toList ≠ [] := fun nothing => trimmed.1 (String.toList_eq_nil_iff.mp nothing)
  unfold statement
  dsimp only
  rw [trimMatches_append before after, trimmed.2, if_neg (by simpa using nonempty),
    String.ofList_toList]

/-- A piece is blank, or it has a statement in it and blanks around this. -/
theorem statement_cases (piece : List Char) :
    Blank piece ∧ statement piece = none ∨
      ∃ stmt left right, Trimmed stmt ∧ Blank left ∧ Blank right ∧
        left ++ stmt.toList ++ right = piece ∧ statement piece = some stmt := by
  obtain ⟨left, right, before, after, whole⟩ := exists_trimmed piece
  by_cases nothing : trimMatches isWhitespace piece = []
  · refine Or.inl ⟨?_, by simp [statement, nothing]⟩
    rw [nothing, List.append_nil] at whole
    rw [← whole]
    exact fun c member => (List.mem_append.mp member).elim (before c) (after c)
  · have again : trimMatches isWhitespace (trimMatches isWhitespace piece) =
        trimMatches isWhitespace piece := by
      rw [← trimMatches_append before after, whole]
    refine Or.inr ⟨String.ofList (trimMatches isWhitespace piece), left, right, ⟨?_, ?_⟩, before,
      after, ?_, by simp [statement, nothing]⟩
    · exact fun empty => nothing (by simpa using congrArg String.toList empty)
    · rw [String.toList_ofList, again]
    · rw [String.toList_ofList, whole]

/-! ## The statements of a text -/

/-- These are slices of the text, one after another; only blanks and semicolons are before
them, between them and after them. -/
def Slices : List String → List Char → Prop
  | [], text => ∀ c ∈ text, isWhitespace c = true ∨ c = ';'
  | stmt :: stmts, text =>
    ∃ gap rest, (∀ c ∈ gap, isWhitespace c = true ∨ c = ';') ∧
      text = gap ++ stmt.toList ++ rest ∧ Slices stmts rest

theorem Slices.gap {stmts : List String} {gap text : List Char}
    (separates : ∀ c ∈ gap, isWhitespace c = true ∨ c = ';') (slices : Slices stmts text) :
    Slices stmts (gap ++ text) := by
  cases stmts with
  | nil => exact fun c member => (List.mem_append.mp member).elim (separates c) (slices c)
  | cons stmt stmts =>
    obtain ⟨first, rest, blank, rfl, slices⟩ := slices
    refine ⟨gap ++ first, rest, ?_, by simp, slices⟩
    exact fun c member => (List.mem_append.mp member).elim (separates c) (blank c)

theorem Blank.separates {text : List Char} (blank : Blank text) :
    ∀ c ∈ text, isWhitespace c = true ∨ c = ';' :=
  fun c member => Or.inl (blank c member)

theorem Cuts.slices {text : List Char} {pieces : List (List Char)}
    (cuts : Cuts isAlphanumeric text pieces) : Slices (pieces.filterMap statement) text := by
  induction cuts with
  | @last piece passes =>
    rcases statement_cases piece with
      ⟨blank, nothing⟩ | ⟨stmt, left, right, -, before, after, rfl, same⟩
    · rw [List.filterMap_cons_none nothing]
      exact blank.separates
    · rw [List.filterMap_cons_some same]
      exact ⟨left, right, before.separates, rfl, after.separates⟩
  | @cut piece rest pieces passes cuts ih =>
    have semicolon : Slices (pieces.filterMap statement) (';' :: rest) :=
      @Slices.gap _ [';'] _ (by simp) ih
    rcases statement_cases piece with
      ⟨blank, nothing⟩ | ⟨stmt, left, right, -, before, after, rfl, same⟩
    · rw [List.filterMap_cons_none nothing]
      exact semicolon.gap blank.separates
    · rw [List.filterMap_cons_some same]
      exact ⟨left, right ++ ';' :: rest, before.separates, by simp, semicolon.gap after.separates⟩

/-- Where a statement comes from. -/
theorem exists_piece_of_mem {stmt input : String}
    (member : stmt ∈ splitStatements isAlphanumeric input) :
    Trimmed stmt ∧ ∃ left right, Blank left ∧ Blank right ∧
      left ++ stmt.toList ++ right ∈ pieces isAlphanumeric input.toList := by
  obtain ⟨piece, inside, made⟩ := List.mem_filterMap.mp member
  rcases statement_cases piece with
    ⟨-, nothing⟩ | ⟨stmt', left, right, trimmed, before, after, rfl, same⟩
  · rw [made] at nothing
    cases nothing
  · rw [made] at same
    cases same
    exact ⟨trimmed, left, right, before, after, inside⟩

/-! ## Splitting again -/

/-- The statement of a stretch, before what may replace the rest. -/
theorem Passes.stmt (newline : isAlphanumeric '\n' = false)
    {left stmt right rest next : List Char} (before : Blank left) (after : Blank right)
    (replaces : Replaces next rest) (passes : Passes isAlphanumeric rest (left ++ stmt ++ right)) :
    Passes isAlphanumeric next stmt := by
  rw [List.append_assoc] at passes
  exact (passes.of_blanks before).trim newline after replaces

theorem Cuts.passes {text : List Char} {pieces : List (List Char)}
    (cuts : Cuts isAlphanumeric text pieces) :
    ∀ piece ∈ pieces, ∃ rest, Passes isAlphanumeric rest piece := by
  induction cuts with
  | last passes => exact List.forall_mem_singleton.mpr ⟨[], passes⟩
  | cut passes cuts ih => exact List.forall_mem_cons.mpr ⟨⟨_, passes⟩, ih⟩

theorem statement_toList {stmt : String} (trimmed : Trimmed stmt) :
    statement stmt.toList = some stmt := by
  have same := @statement_append stmt trimmed [] [] (List.forall_mem_nil _) (List.forall_mem_nil _)
  rwa [List.nil_append, List.append_nil] at same

/-- A statement alone is a single statement. -/
theorem splitStatements_again (newline : isAlphanumeric '\n' = false) {stmt input : String}
    (member : stmt ∈ splitStatements isAlphanumeric input) :
    splitStatements isAlphanumeric stmt = [stmt] := by
  obtain ⟨trimmed, left, right, before, after, inside⟩ := exists_piece_of_mem member
  obtain ⟨rest, passes⟩ := (cuts_pieces input.toList).passes _ inside
  have alone : Passes isAlphanumeric [] stmt.toList :=
    passes.stmt newline before after (Or.inl rfl)
  rw [splitStatements, (Cuts.last alone).pieces_eq,
    List.filterMap_cons_some (statement_toList trimmed), List.filterMap_nil]

/-- The statements with a newline and a semicolon between them. -/
def joined (stmts : List String) : String :=
  "\n;".intercalate stmts

theorem passes_newline (rest : List Char) : Passes isAlphanumeric rest ['\n'] := by
  obtain ⟨skips, not_cut⟩ := @skip_blank isAlphanumeric '\n' (by decide) ([] ++ rest)
  exact .round not_cut (by rw [skips]) .done

theorem cuts_joined_single {stmt : String} (trimmed : Trimmed stmt)
    (passes : Passes isAlphanumeric [] stmt.toList) :
    ∃ again, Cuts isAlphanumeric (joined [stmt]).toList again ∧
      again.filterMap statement = [stmt] := by
  refine ⟨[stmt.toList], ?_, ?_⟩
  · rw [joined, String.intercalate_singleton]
    exact .last passes
  · rw [List.filterMap_cons_some (statement_toList trimmed), List.filterMap_nil]

theorem toList_joined_cons {stmt : String} {stmts : List String} (more : stmts ≠ []) :
    (joined (stmt :: stmts)).toList = stmt.toList ++ ['\n'] ++ ';' :: (joined stmts).toList := by
  rw [joined, String.intercalate_cons_of_ne_nil more, String.toList_append, String.toList_append,
    List.append_assoc, List.append_assoc]
  rfl

theorem Cuts.join (newline : isAlphanumeric '\n' = false) {text : List Char}
    {pieces : List (List Char)} (cuts : Cuts isAlphanumeric text pieces) :
    ∃ again, Cuts isAlphanumeric (joined (pieces.filterMap statement)).toList again ∧
      again.filterMap statement = pieces.filterMap statement := by
  induction cuts with
  | @last piece passes =>
    rcases statement_cases piece with
      ⟨-, nothing⟩ | ⟨stmt, left, right, trimmed, before, after, rfl, same⟩
    · rw [List.filterMap_cons_none nothing]
      exact ⟨[[]], .last .done, rfl⟩
    · rw [List.filterMap_cons_some same]
      exact cuts_joined_single trimmed (passes.stmt newline before after (Or.inl rfl))
  | @cut piece rest pieces passes cuts ih =>
    rcases statement_cases piece with
      ⟨-, nothing⟩ | ⟨stmt, left, right, trimmed, before, after, rfl, same⟩
    · rw [List.filterMap_cons_none nothing]
      exact ih
    · rw [List.filterMap_cons_some same]
      by_cases last : pieces.filterMap statement = []
      · rw [last]
        exact cuts_joined_single trimmed (passes.stmt newline before after (Or.inl rfl))
      · obtain ⟨again, more, stmts⟩ := ih
        -- The newline ends a line comment that the statement may end with.
        have ends : Passes isAlphanumeric (';' :: (joined (pieces.filterMap statement)).toList)
            (stmt.toList ++ ['\n']) := by
          apply Passes.append _ (passes_newline _)
          exact passes.stmt newline before after (Or.inr ⟨List.cons_ne_nil _ _, rfl⟩)
        refine ⟨(stmt.toList ++ ['\n']) :: again, ?_, ?_⟩
        · rw [toList_joined_cons last]
          exact .cut ends more
        · have first := @statement_append stmt trimmed [] ['\n'] (List.forall_mem_nil _)
            (List.forall_mem_singleton.mpr rfl)
          rw [List.nil_append] at first
          rw [List.filterMap_cons_some first, stmts]

/-- The statements put together again split into the same statements. -/
theorem splitStatements_joined (newline : isAlphanumeric '\n' = false) (input : String) :
    splitStatements isAlphanumeric (joined (splitStatements isAlphanumeric input)) =
      splitStatements isAlphanumeric input := by
  obtain ⟨again, cuts, same⟩ := (@cuts_pieces isAlphanumeric input.toList).join newline
  rw [splitStatements, splitStatements, cuts.pieces_eq, same]

end Semcast.Router
