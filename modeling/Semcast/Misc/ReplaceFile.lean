import Mathlib.Data.Option.Basic

/-!
# Replacing a file by rename

The new contents of a file go to a temporary file beside it, which is then renamed
over it. Wherever the replacement is cut short, the file holds its old contents or
the new ones, whole.
-/

namespace Semcast.ReplaceFile

variable {T : Type*}

/-- A file and the temporary file beside it. -/
structure Files (T : Type*) where
  contents : Option T
  tmp : Option T

/-- Neither of the two exists. -/
def Files.absent : Files T := ⟨none, none⟩

/-- How far a replacement has come. -/
inductive Stage where
  /-- The temporary file is being written. -/
  | writing
  /-- The temporary file is complete. -/
  | written
  /-- The temporary file has taken the place of the file. -/
  | renamed
  deriving DecidableEq

structure Replacement (T : Type*) where
  new : T
  stage : Stage

/-- A replacement that is about to open the temporary file. -/
def Replacement.begin (new : T) : Replacement T := ⟨new, .writing⟩

inductive Act (T : Type*) where
  /-- The temporary file holds anything, such as a part of the new contents. -/
  | scribble (part : T)
  | complete
  | rename

/-- One step of a replacement. -/
def Replacement.advance (replacement : Replacement T) (files : Files T) :
    Act T → Option (Replacement T × Files T)
  | .scribble part =>
    if replacement.stage = .writing then some (replacement, { files with tmp := some part })
    else none
  | .complete =>
    if replacement.stage = .writing then
      some ({ replacement with stage := .written }, { files with tmp := some replacement.new })
    else none
  | .rename =>
    if replacement.stage = .written then
      some ({ replacement with stage := .renamed }, { contents := files.tmp, tmp := none })
    else none

/-- What the files hold at each stage, when the file held `old` before. -/
def Coherent (old : Option T) (replacement : Replacement T) (files : Files T) : Prop :=
  match replacement.stage with
  | .writing => files.contents = old
  | .written => files.contents = old ∧ files.tmp = some replacement.new
  | .renamed => files.contents = some replacement.new

theorem coherent_begin (new : T) (files : Files T) :
    Coherent files.contents (.begin new) files := rfl

theorem advance_new {replacement next : Replacement T} {files files' : Files T} {act : Act T}
    (taken : replacement.advance files act = some (next, files')) : next.new = replacement.new := by
  cases act <;> simp only [Replacement.advance, Option.ite_none_right_eq_some, Option.some.injEq,
    Prod.mk.injEq] at taken <;> rw [← taken.2.1]

/-- Each step keeps the files coherent. -/
theorem Coherent.advance {old : Option T} {replacement next : Replacement T}
    {files files' : Files T} {act : Act T} (coherent : Coherent old replacement files)
    (taken : replacement.advance files act = some (next, files')) : Coherent old next files' := by
  cases act with
  | scribble part =>
    simp only [Replacement.advance, Option.ite_none_right_eq_some, Option.some.injEq,
      Prod.mk.injEq] at taken
    obtain ⟨stage, rfl, rfl⟩ := taken
    simpa [Coherent, stage] using coherent
  | complete =>
    simp only [Replacement.advance, Option.ite_none_right_eq_some, Option.some.injEq,
      Prod.mk.injEq] at taken
    obtain ⟨stage, rfl, rfl⟩ := taken
    simpa [Coherent, stage] using coherent
  | rename =>
    simp only [Replacement.advance, Option.ite_none_right_eq_some, Option.some.injEq,
      Prod.mk.injEq] at taken
    obtain ⟨stage, rfl, rfl⟩ := taken
    simp only [Coherent, stage] at coherent ⊢
    exact coherent.2

/-- Cut at any point, the file holds the old contents or the new. -/
theorem Coherent.old_or_new {old : Option T} {replacement : Replacement T} {files : Files T}
    (coherent : Coherent old replacement files) :
    files.contents = old ∨ files.contents = some replacement.new := by
  unfold Coherent at coherent
  split at coherent
  · exact Or.inl coherent
  · exact Or.inl coherent.1
  · exact Or.inr coherent

/-- A step leaves the file as it is, or replaces it by all of the new contents. -/
theorem Coherent.advance_contents {old : Option T} {replacement next : Replacement T}
    {files files' : Files T} {act : Act T} (coherent : Coherent old replacement files)
    (taken : replacement.advance files act = some (next, files')) :
    files'.contents = files.contents ∨ files'.contents = some replacement.new := by
  cases act with
  | scribble part =>
    simp only [Replacement.advance, Option.ite_none_right_eq_some, Option.some.injEq,
      Prod.mk.injEq] at taken
    obtain ⟨-, -, rfl⟩ := taken
    exact Or.inl rfl
  | complete =>
    simp only [Replacement.advance, Option.ite_none_right_eq_some, Option.some.injEq,
      Prod.mk.injEq] at taken
    obtain ⟨-, -, rfl⟩ := taken
    exact Or.inl rfl
  | rename =>
    simp only [Replacement.advance, Option.ite_none_right_eq_some, Option.some.injEq,
      Prod.mk.injEq] at taken
    obtain ⟨stage, -, rfl⟩ := taken
    simp only [Coherent, stage] at coherent
    exact Or.inr coherent.2

/-- Only a rename touches the file. -/
theorem advance_contents {replacement next : Replacement T} {files files' : Files T} {act : Act T}
    (taken : replacement.advance files act = some (next, files')) :
    (act = .rename ∧ next.stage = .renamed) ∨
      (act ≠ .rename ∧ files'.contents = files.contents) := by
  cases act with
  | scribble part =>
    simp only [Replacement.advance, Option.ite_none_right_eq_some, Option.some.injEq,
      Prod.mk.injEq] at taken
    obtain ⟨-, -, rfl⟩ := taken
    exact Or.inr ⟨nofun, rfl⟩
  | complete =>
    simp only [Replacement.advance, Option.ite_none_right_eq_some, Option.some.injEq,
      Prod.mk.injEq] at taken
    obtain ⟨-, -, rfl⟩ := taken
    exact Or.inr ⟨nofun, rfl⟩
  | rename =>
    simp only [Replacement.advance, Option.ite_none_right_eq_some, Option.some.injEq,
      Prod.mk.injEq] at taken
    obtain ⟨-, rfl, -⟩ := taken
    exact Or.inl ⟨rfl, rfl⟩

/-- A replacement that has taken its last step takes no other. -/
theorem stage_ne_renamed_of_advance {replacement next : Replacement T} {files files' : Files T}
    {act : Act T} (taken : replacement.advance files act = some (next, files')) :
    replacement.stage ≠ .renamed := by
  intro renamed
  cases act <;> simp [Replacement.advance, renamed] at taken

theorem Coherent.contents_of_renamed {old : Option T} {replacement : Replacement T}
    {files : Files T} (coherent : Coherent old replacement files)
    (renamed : replacement.stage = .renamed) : files.contents = some replacement.new := by
  simpa [Coherent, renamed] using coherent

end Semcast.ReplaceFile
