/-
# What a process can do to its own credentials

`execve` of a file that has neither a set-id bit nor capabilities, and the calls a
process makes on its own credentials in the user namespace it is in, one after
another; the securebits are the default ones throughout. Without CAP_SETUID it
only gets at the user ids it has; so if none of these is root's, it permits
itself nothing that was not permitted at first, whatever it calls and whatever
such files it executes (`Confined.run`).

Key definitions: `Credentials.execve`, `Credentials.OwnCall`, `Credentials.Confined`.
Key theorems: `execve_of_root`, `execve_of_not_root`, `Confined.step`, `Confined.run`.
-/
import Scinit.Lib.Credentials
import Scinit.Lib.Run

namespace ProcessIds

/-- Each of the new ids is one that the process has. -/
def Among (new old : ProcessIds) : Prop :=
  ∀ id ∈ [new.real, new.effective, new.saved], id = old.real ∨ id = old.effective ∨ id = old.saved

instance (new old : ProcessIds) : Decidable (new.Among old) := by
  unfold Among; infer_instance

theorem eq_all_of_among {new : ProcessIds} {id : UInt32} (h : new.Among (.all id)) : new = .all id := by
  obtain ⟨real, effective, saved⟩ := new
  simpa [Among, all] using h

end ProcessIds

namespace Credentials

open Transition

variable {c c' : Credentials} {id u g : UInt32} {P : Finset ℕ}

/-! ### Executing a file -/

/-- What `execve` permits: a file of root's counts as one that has all capabilities. -/
def permittedAfter (c : Credentials) : Finset ℕ :=
  if c.uid.real = 0 ∨ c.uid.effective = 0 then c.bounding ∪ c.caps.inheritable ∪ c.ambient else c.ambient

theorem ambient_le_permittedAfter (c : Credentials) : c.ambient ⊆ c.permittedAfter := by
  unfold permittedAfter
  split
  · exact Finset.subset_union_right
  · exact Finset.Subset.refl _

/-- `execve` of a file without set-id bits and capabilities. -/
def execve (c : Credentials) : Credentials where
  uid := { c.uid with saved := c.uid.effective }
  gid := { c.gid with saved := c.gid.effective }
  caps := ⟨c.permittedAfter, if c.uid.effective = 0 then c.permittedAfter else c.ambient, c.caps.inheritable⟩
  ambient := c.ambient
  bounding := c.bounding
  keepCaps := false
  effective_le := by
    dsimp only
    split
    · exact Finset.Subset.refl _
    · exact c.ambient_le_permittedAfter
  ambient_le := Finset.subset_inter c.ambient_le_permittedAfter (c.ambient_le.trans Finset.inter_subset_right)

/-- Under root the file gets what is bounding or inheritable. -/
theorem execve_of_root (h : c.uid = .all 0) :
    c.execve.caps.permitted = c.bounding ∪ c.caps.inheritable ∪ c.ambient ∧
      c.execve.caps.effective = c.execve.caps.permitted := by
  have hp : c.permittedAfter = c.bounding ∪ c.caps.inheritable ∪ c.ambient := by
    rw [permittedAfter, h]
    rfl
  refine ⟨hp, ?_⟩
  show (if c.uid.effective = 0 then _ else _) = _
  rw [h]
  rfl

/-- Under anybody else what is ambient is left. -/
theorem execve_of_not_root (h : c.uid = .all u) (hu : u ≠ 0) :
    c.execve.caps.permitted = c.ambient ∧ c.execve.caps.effective = c.ambient := by
  constructor
  · show c.permittedAfter = _
    rw [permittedAfter, h]
    exact if_neg (not_or.mpr ⟨hu, hu⟩)
  · show (if c.uid.effective = 0 then _ else _) = _
    rw [h]
    exact if_neg hu

theorem execve_uid (h : c.uid = .all u) : c.execve.uid = .all u := by
  show ({ c.uid with saved := c.uid.effective } : ProcessIds) = _
  rw [h]
  rfl

theorem execve_gid (h : c.gid = .all g) : c.execve.gid = .all g := by
  show ({ c.gid with saved := c.gid.effective } : ProcessIds) = _
  rw [h]
  rfl

/-! ### The calls of a process -/

/-- A call of a process on its own credentials. `setresgid` and `setresuid` are the general
form of the calls that set ids. The calls that enter a user namespace (`unshare`,
`setns`) are not among them: the capabilities they give are those of that namespace. -/
inductive OwnCall
  | capset (new : CapSets)
  | setgid (id : UInt32)
  | setuid (id : UInt32)
  | setresgid (new : ProcessIds)
  | setresuid (new : ProcessIds)
  | setKeepCaps (locked keep : Bool)
  | clearAmbient
  | raiseAmbient (cap : ℕ)
  | dropBounding (cap : ℕ)
  | execve

def setresgid (c : Credentials) (new : ProcessIds) : Option Credentials :=
  if capSetgid ∈ c.caps.effective ∨ new.Among c.gid then some (c.withGid new) else none

def setresuid (c : Credentials) (new : ProcessIds) : Option Credentials :=
  if capSetuid ∈ c.caps.effective ∨ new.Among c.uid then some (c.withUid new) else none

/-- `PR_CAPBSET_DROP`. -/
def dropBounding (c : Credentials) (cap : ℕ) : Option Credentials :=
  if capSetpcap ∈ c.caps.effective then some { c with bounding := c.bounding.erase cap } else none

def perform (c : Credentials) : OwnCall → Option Credentials
  | .capset new => c.capset new
  | .setgid id => c.setgid id
  | .setuid id => c.setuid id
  | .setresgid new => c.setresgid new
  | .setresuid new => c.setresuid new
  | .setKeepCaps locked keep => some (c.setKeepCaps locked keep)
  | .clearAmbient => some c.clearAmbient
  | .raiseAmbient cap => c.raiseAmbient cap
  | .dropBounding cap => c.dropBounding cap
  | .execve => some c.execve

theorem setgid_eq_some (h : c.setgid id = some c') : ∃ new, c' = c.withGid new := by
  unfold setgid at h
  split at h
  · exact ⟨_, (Option.some.inj h).symm⟩
  · split at h
    · exact ⟨_, (Option.some.inj h).symm⟩
    · cases h

theorem setuid_eq_some (h : c.setuid id = some c') : ∃ new, c' = c.withUid new := by
  unfold setuid at h
  split at h
  · exact ⟨_, (Option.some.inj h).symm⟩
  · split at h
    · exact ⟨_, (Option.some.inj h).symm⟩
    · cases h

/-- New user ids permit nothing new. -/
theorem permittedUnder_le (c : Credentials) (new : ProcessIds) : c.permittedUnder new ⊆ c.caps.permitted := by
  unfold permittedUnder
  split
  · exact Finset.empty_subset _
  · exact Finset.Subset.refl _

theorem capset_bounding {new : CapSets} (h : c.capset new = some c') : c'.bounding = c.bounding := by
  unfold capset at h
  split at h
  · obtain rfl := Option.some.inj h
    rfl
  · cases h

theorem raiseAmbient_bounding {cap : ℕ} (h : c.raiseAmbient cap = some c') : c'.bounding = c.bounding := by
  unfold raiseAmbient at h
  split at h
  · obtain rfl := Option.some.inj h
    rfl
  · cases h

theorem raiseAll_bounding : ∀ {caps : List ℕ} {c c' : Credentials}, c.raiseAll caps = some c' →
    c'.bounding = c.bounding
  | [], c, c', h => by
    obtain rfl := Option.some.inj h
    rfl
  | cap :: caps, c, c', h => by
    simp only [raiseAll, List.foldlM_cons, Option.bind_eq_bind, Option.bind_eq_some_iff] at h
    obtain ⟨m, hm, h⟩ := h
    exact (raiseAll_bounding h).trans (raiseAmbient_bounding hm)

/-! ### Who cannot get at more -/

/-- All user ids are `u`, and nothing outside of `P` is permitted. -/
structure Confined (u : UInt32) (P : Finset ℕ) (c : Credentials) : Prop where
  uid : c.uid = .all u
  permitted : c.caps.permitted ⊆ P

theorem Confined.not_effective (h : Confined u P c) {cap : ℕ} (hcap : cap ∉ P) : cap ∉ c.caps.effective :=
  fun hin => hcap (h.permitted (c.effective_le hin))

theorem Confined.withUid (h : Confined u P c) {new : ProcessIds} (hnew : new = .all u) : Confined u P (c.withUid new) :=
  ⟨hnew, (c.permittedUnder_le new).trans h.permitted⟩

/-- A call gives a confined process no other user id, and permits it nothing new. -/
theorem Confined.step (h : Confined u P c) (hu : u ≠ 0) (hP : capSetuid ∉ P) {call : OwnCall}
    (hs : c.perform call = some c') : Confined u P c' := by
  cases call with
  | capset new =>
    obtain ⟨hmay, hcaps, -, huid, -⟩ := capset_eq_some hs
    exact ⟨huid.trans h.uid, hcaps ▸ hmay.1.trans h.permitted⟩
  | setgid id =>
    obtain ⟨new, rfl⟩ := setgid_eq_some hs
    exact ⟨h.uid, h.permitted⟩
  | setuid id =>
    rw [perform, setuid, if_neg (h.not_effective hP), h.uid] at hs
    simp only [ProcessIds.all, or_self, Option.ite_none_right_eq_some, Option.some.injEq] at hs
    obtain ⟨rfl, rfl⟩ := hs
    exact h.withUid rfl
  | setresgid new =>
    simp only [perform, setresgid, Option.ite_none_right_eq_some, Option.some.injEq] at hs
    obtain ⟨-, rfl⟩ := hs
    exact ⟨h.uid, h.permitted⟩
  | setresuid new =>
    simp only [perform, setresuid, h.not_effective hP, false_or, Option.ite_none_right_eq_some,
      Option.some.injEq] at hs
    obtain ⟨hamong, rfl⟩ := hs
    exact h.withUid (ProcessIds.eq_all_of_among (h.uid ▸ hamong))
  | setKeepCaps locked keep =>
    obtain rfl := Option.some.inj hs
    exact ⟨h.uid, h.permitted⟩
  | clearAmbient =>
    obtain rfl := Option.some.inj hs
    exact ⟨h.uid, h.permitted⟩
  | raiseAmbient cap =>
    obtain ⟨-, hcaps, -, huid, -⟩ := raiseAmbient_eq_some hs
    exact ⟨huid.trans h.uid, hcaps ▸ h.permitted⟩
  | dropBounding cap =>
    simp only [perform, dropBounding, Option.ite_none_right_eq_some, Option.some.injEq] at hs
    obtain ⟨-, rfl⟩ := hs
    exact ⟨h.uid, h.permitted⟩
  | execve =>
    obtain rfl := Option.some.inj hs
    refine ⟨execve_uid h.uid, ?_⟩
    rw [(execve_of_not_root h.uid hu).1]
    exact (c.ambient_le.trans Finset.inter_subset_left).trans h.permitted

/-- Without CAP_SETGID the group ids stay. -/
theorem Confined.step_gid (h : Confined u P c) (hg : c.gid = .all g) (hP : capSetgid ∉ P) {call : OwnCall}
    (hs : c.perform call = some c') : c'.gid = .all g := by
  cases call with
  | capset new => exact (capset_eq_some hs).2.2.2.2.trans hg
  | setgid id =>
    rw [perform, setgid, if_neg (h.not_effective hP), hg] at hs
    simp only [ProcessIds.all, or_self, Option.ite_none_right_eq_some, Option.some.injEq] at hs
    obtain ⟨rfl, rfl⟩ := hs
    rfl
  | setuid id =>
    obtain ⟨new, rfl⟩ := setuid_eq_some hs
    exact hg
  | setresgid new =>
    simp only [perform, setresgid, h.not_effective hP, false_or, Option.ite_none_right_eq_some,
      Option.some.injEq] at hs
    obtain ⟨hamong, rfl⟩ := hs
    exact ProcessIds.eq_all_of_among (hg ▸ hamong)
  | setresuid new =>
    simp only [perform, setresuid, Option.ite_none_right_eq_some, Option.some.injEq] at hs
    obtain ⟨-, rfl⟩ := hs
    exact hg
  | setKeepCaps locked keep =>
    obtain rfl := Option.some.inj hs
    exact hg
  | clearAmbient =>
    obtain rfl := Option.some.inj hs
    exact hg
  | raiseAmbient cap => exact (raiseAmbient_eq_some hs).2.2.2.2.trans hg
  | dropBounding cap =>
    simp only [perform, dropBounding, Option.ite_none_right_eq_some, Option.some.injEq] at hs
    obtain ⟨-, rfl⟩ := hs
    exact hg
  | execve =>
    obtain rfl := Option.some.inj hs
    exact execve_gid hg

/-- **Confinement** over any calls, one after another. -/
theorem Confined.run (h : Confined u P c) (hu : u ≠ 0) (hP : capSetuid ∉ P) {calls : List (Credentials × OwnCall)}
    (hr : Run perform c calls c') : Confined u P c' :=
  hr.inv h fun _ _ _ h hs => h.step hu hP hs

theorem Confined.run_gid (h : Confined u P c) (hu : u ≠ 0) (hP : capSetuid ∉ P) (hg : c.gid = .all g)
    (hP' : capSetgid ∉ P) {calls : List (Credentials × OwnCall)} (hr : Run perform c calls c') : c'.gid = .all g :=
  (hr.inv (I := fun c => Confined u P c ∧ c.gid = .all g) ⟨h, hg⟩ fun _ _ _ h hs =>
    ⟨h.1.step hu hP hs, h.1.step_gid h.2 hP' hs⟩).2

end Credentials
