/-
# Descriptor tables

The descriptors of a process, the files they refer to, and the marks for those
that `exec` closes. Only opening a file gives a process hold of it: what it
holds after `dup2`, `close` and `exec` it held before (`holds_of_dup2`,
`holds_of_close`, `holds_of_exec`).

Key definitions: `FileTable`, `FileTable.dup2`, `FileTable.exec`, `FileTable.Holds`.
Key theorems: `dup2_apply`, `exec_eq_some`, `holds_of_exec`.
-/
import Mathlib

/-- What a descriptor refers to, and whether `exec` closes it. -/
structure OpenFile (φ : Type*) where
  file : φ
  cloexec : Bool
  deriving DecidableEq

/-- The descriptors of a process. -/
def FileTable (κ φ : Type*) := κ → Option (OpenFile φ)

namespace FileTable

variable {κ φ : Type*} [DecidableEq κ] {T : FileTable κ φ} {fd old new : κ} {file : φ} {f : OpenFile φ}

/-- A call that returns the descriptor `fd` of a file. -/
def opened (T : FileTable κ φ) (fd : κ) (file : φ) (cloexec : Bool) : FileTable κ φ :=
  Function.update T fd (some ⟨file, cloexec⟩)

def close (T : FileTable κ φ) (fd : κ) : FileTable κ φ := Function.update T fd none

/-- `dup2` of a descriptor that is open; the copy is not marked. -/
def dup2 (T : FileTable κ φ) (old new : κ) : FileTable κ φ :=
  if old = new then T
  else
    match T old with
    | none => T
    | some f => Function.update T new (some ⟨f.file, false⟩)

def exec (T : FileTable κ φ) : FileTable κ φ := fun fd => (T fd).filter fun f => !f.cloexec

/-- A descriptor refers to the file. -/
def Holds (T : FileTable κ φ) (file : φ) : Prop := ∃ fd f, T fd = some f ∧ f.file = file

/-! ### One descriptor -/

theorem opened_apply (T : FileTable κ φ) (fd : κ) (file : φ) (cloexec : Bool) (fd' : κ) :
    T.opened fd file cloexec fd' = if fd' = fd then some ⟨file, cloexec⟩ else T fd' := Function.update_apply T fd _ fd'

theorem close_apply (T : FileTable κ φ) (fd fd' : κ) : T.close fd fd' = if fd' = fd then none else T fd' :=
  Function.update_apply T fd _ fd'

theorem dup2_apply (hne : old ≠ new) (h : T old = some f) (fd : κ) :
    T.dup2 old new fd = if fd = new then some ⟨f.file, false⟩ else T fd := by
  rw [dup2, if_neg hne, h]
  exact Function.update_apply T new _ fd

/-- Another descriptor is left as it was. -/
theorem dup2_apply_of_ne (hne : fd ≠ new) : T.dup2 old new fd = T fd := by
  unfold dup2
  split
  · rfl
  · cases h : T old with
    | none => rfl
    | some f => exact Function.update_of_ne hne _ _

omit [DecidableEq κ] in
theorem exec_eq_some : T.exec fd = some f ↔ T fd = some f ∧ f.cloexec = false := by
  simp [exec, Option.filter_eq_some_iff]

/-! ### What is held -/

theorem holds_of_close (h : (T.close fd).Holds file) : T.Holds file := by
  obtain ⟨fd', f, hf, hfile⟩ := h
  rw [close_apply] at hf
  split at hf
  · cases hf
  · exact ⟨fd', f, hf, hfile⟩

theorem holds_of_dup2 (h : (T.dup2 old new).Holds file) : T.Holds file := by
  obtain ⟨fd, f, hf, rfl⟩ := h
  by_cases hfd : fd = new
  · subst hfd
    by_cases hne : old = fd
    · rw [dup2, if_pos hne] at hf
      exact ⟨fd, f, hf, rfl⟩
    · cases hold : T old with
      | none =>
        rw [dup2, if_neg hne, hold] at hf
        exact ⟨fd, f, hf, rfl⟩
      | some f' =>
        rw [dup2_apply hne hold, if_pos rfl, Option.some.injEq] at hf
        exact ⟨old, f', hold, by rw [← hf]⟩
  · rw [dup2_apply_of_ne hfd] at hf
    exact ⟨fd, f, hf, rfl⟩

omit [DecidableEq κ] in
theorem holds_of_exec (h : T.exec.Holds file) : T.Holds file := by
  obtain ⟨fd, f, hf, hfile⟩ := h
  exact ⟨fd, f, (exec_eq_some.mp hf).1, hfile⟩

theorem holds_of_opened {file' : φ} {cloexec : Bool} (h : (T.opened fd file' cloexec).Holds file) :
    file = file' ∨ T.Holds file := by
  obtain ⟨fd', f, hf, rfl⟩ := h
  rw [opened_apply] at hf
  split at hf
  · exact Or.inl (by rw [← Option.some.inj hf])
  · exact Or.inr ⟨fd', f, hf, rfl⟩

end FileTable
