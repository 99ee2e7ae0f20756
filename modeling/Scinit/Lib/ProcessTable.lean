/-
# Processes and what they hold

Processes with their descriptor tables. Each has a root, the process it descends
from, which `fork` hands on. A process works on its own table only, so what is
held under a root was held under it before (`holds_of_perform`); new files come
in with a new root (`holds_of_spawn`).

Key definitions: `Process`, `ProcessTable`, `ProcessTable.perform`, `ProcessTable.Holds`.
Key theorems: `holds_of_perform`, `holds_of_spawn`.
-/
import Scinit.Lib.FileTable

/-- A process, with the root it descends from. -/
structure Process (ρ κ φ : Type*) where
  root : ρ
  files : FileTable κ φ

/-- The processes by their pids. -/
def ProcessTable (π ρ κ φ : Type*) := π → Option (Process ρ κ φ)

namespace ProcessTable

variable {π ρ κ φ : Type*} [DecidableEq π] [DecidableEq κ] {P P' : ProcessTable π ρ κ φ} {pid pid' child : π}
  {p : Process ρ κ φ} {root : ρ} {file : φ}

/-- What a process does to its descriptors, and to itself. -/
inductive Op (π κ : Type*)
  | close (pid : π) (fd : κ)
  | dup2 (pid : π) (old new : κ)
  | exec (pid : π)
  | fork (pid child : π)
  | exit (pid : π)

/-- One process becomes another, or comes or goes. -/
def replace (P : ProcessTable π ρ κ φ) (pid : π) (p : Option (Process ρ κ φ)) : ProcessTable π ρ κ φ :=
  Function.update P pid p

/-- A process changes its table. -/
def change (P : ProcessTable π ρ κ φ) (pid : π) (f : FileTable κ φ → FileTable κ φ) :
    Option (ProcessTable π ρ κ φ) :=
  (P pid).map fun p => P.replace pid (some { p with files := f p.files })

def spawn (P : ProcessTable π ρ κ φ) (pid : π) (p : Process ρ κ φ) : ProcessTable π ρ κ φ :=
  P.replace pid (some p)

def perform (P : ProcessTable π ρ κ φ) : Op π κ → Option (ProcessTable π ρ κ φ)
  | .close pid fd => P.change pid (·.close fd)
  | .dup2 pid old new => P.change pid (·.dup2 old new)
  | .exec pid => P.change pid FileTable.exec
  | .fork pid child =>
    match P pid, P child with
    | some p, none => some (P.spawn child p)
    | _, _ => none
  | .exit pid => some (P.replace pid none)

/-- A process of the root holds the file. -/
def Holds (P : ProcessTable π ρ κ φ) (root : ρ) (file : φ) : Prop :=
  ∃ pid p, P pid = some p ∧ p.root = root ∧ p.files.Holds file

omit [DecidableEq κ] in
theorem replace_apply (P : ProcessTable π ρ κ φ) (pid : π) (q : Option (Process ρ κ φ)) (pid' : π) :
    P.replace pid q pid' = if pid' = pid then q else P pid' := Function.update_apply P pid q pid'

omit [DecidableEq κ] in
/-- What is held after one process was replaced it holds, or it was held before. -/
theorem holds_of_replace {q : Option (Process ρ κ φ)} (h : (P.replace pid q).Holds root file) :
    (∃ p, q = some p ∧ p.root = root ∧ p.files.Holds file) ∨ P.Holds root file := by
  obtain ⟨pid', p, hp, hroot, hh⟩ := h
  rw [replace_apply] at hp
  split at hp
  · exact Or.inl ⟨p, hp, hroot, hh⟩
  · exact Or.inr ⟨pid', p, hp, hroot, hh⟩

omit [DecidableEq κ] in
theorem holds_of_spawn (h : (P.spawn pid p).Holds root file) :
    (p.root = root ∧ p.files.Holds file) ∨ P.Holds root file := by
  rcases holds_of_replace h with ⟨q, hq, hroot, hh⟩ | hh
  · obtain rfl := Option.some.inj hq
    exact Or.inl ⟨hroot, hh⟩
  · exact Or.inr hh

omit [DecidableEq κ] in
theorem holds_of_change {f : FileTable κ φ → FileTable κ φ} (hf : ∀ T, (f T).Holds file → T.Holds file)
    (h : P.change pid f = some P') (hh : P'.Holds root file) : P.Holds root file := by
  obtain ⟨p, hp, rfl⟩ := Option.map_eq_some_iff.mp h
  rcases holds_of_replace hh with ⟨q, hq, hroot, hh⟩ | hh
  · obtain rfl := Option.some.inj hq
    exact ⟨pid, p, hp, hroot, hf _ hh⟩
  · exact hh

/-- **Nothing new is held** by what processes do. -/
theorem holds_of_perform {op : Op π κ} (h : P.perform op = some P') (hh : P'.Holds root file) :
    P.Holds root file := by
  cases op with
  | close pid fd => exact holds_of_change (fun _ => FileTable.holds_of_close) h hh
  | dup2 pid old new => exact holds_of_change (fun _ => FileTable.holds_of_dup2) h hh
  | exec pid => exact holds_of_change (fun _ => FileTable.holds_of_exec) h hh
  | fork pid child =>
    unfold perform at h
    cases hp : P pid with
    | none => simp [hp] at h
    | some p =>
      cases hc : P child with
      | some q => simp [hp, hc] at h
      | none =>
        simp only [hp, hc, Option.some.injEq] at h
        rw [← h] at hh
        rcases holds_of_spawn hh with ⟨hroot, hh⟩ | hh
        · exact ⟨pid, p, hp, hroot, hh⟩
        · exact hh
  | exit pid =>
    obtain rfl := Option.some.inj h
    rcases holds_of_replace hh with ⟨q, hq, -⟩ | hh
    · cases hq
    · exact hh

end ProcessTable
