/-
# Credentials of a Linux process

The user and group ids of a process, its capability sets, and what the calls
that change them do: `capset`, `setgid`, `setuid`, `PR_SET_KEEPCAPS` and the two
`PR_CAP_AMBIENT` operations. A call returns `none` where the kernel refuses it.
A capability is its number. What the kernel keeps of the sets (no capability is
effective that is not permitted, none is ambient that is not permitted and
inheritable) is part of the type.

Key definitions: `Credentials`, `Credentials.capset`, `Credentials.setuid`,
`Credentials.raiseAmbient`, `Credentials.raiseAll`.
Key theorems: `capset_eq_some`, `setuid_of_capable`, `setgid_of_capable`,
`raiseAll_eq_some`.
-/
import Mathlib

/-- Real, effective and saved id. -/
structure ProcessIds where
  real : UInt32
  effective : UInt32
  saved : UInt32
  deriving DecidableEq, Repr

namespace ProcessIds

/-- All three ids are `id`. -/
def all (id : UInt32) : ProcessIds := ⟨id, id, id⟩

/-- One of the ids is that of root. -/
def hasRoot (i : ProcessIds) : Bool := i.real = 0 || i.effective = 0 || i.saved = 0

end ProcessIds

/-- The sets that `capset` writes. -/
structure CapSets where
  permitted : Finset ℕ
  effective : Finset ℕ
  inheritable : Finset ℕ
  deriving DecidableEq

/-- The same set for all three. -/
def CapSets.all (caps : Finset ℕ) : CapSets := ⟨caps, caps, caps⟩

/-- The credentials of a process. -/
structure Credentials where
  uid : ProcessIds
  gid : ProcessIds
  caps : CapSets
  ambient : Finset ℕ
  bounding : Finset ℕ
  keepCaps : Bool
  effective_le : caps.effective ⊆ caps.permitted
  ambient_le : ambient ⊆ caps.permitted ∩ caps.inheritable

namespace Credentials

def capSetgid : ℕ := 6

def capSetuid : ℕ := 7

def capSetpcap : ℕ := 8

variable {c c' : Credentials} {new : CapSets} {id : UInt32} {cap : ℕ} {caps : List ℕ}

/-! ### The calls -/

/-- What `capset` asks of the new sets. -/
def MaySet (c : Credentials) (new : CapSets) : Prop :=
  new.permitted ⊆ c.caps.permitted ∧ new.effective ⊆ new.permitted ∧
  new.inheritable ⊆ c.caps.inheritable ∪ c.bounding ∧
  (capSetpcap ∈ c.caps.effective ∨ new.inheritable ⊆ c.caps.inheritable ∪ c.caps.permitted)

instance (c : Credentials) (new : CapSets) : Decidable (c.MaySet new) := by
  unfold MaySet; infer_instance

/-- `capset`: what is not permitted and inheritable any more is not ambient either. -/
def capset (c : Credentials) (new : CapSets) : Option Credentials :=
  if h : c.MaySet new then
    some { c with
      caps := new
      ambient := c.ambient ∩ (new.permitted ∩ new.inheritable)
      effective_le := h.2.1
      ambient_le := Finset.inter_subset_right }
  else none

/-- New group ids; no capability depends on them. -/
def withGid (c : Credentials) (new : ProcessIds) : Credentials := { c with gid := new }

/-- `setgid`. -/
def setgid (c : Credentials) (id : UInt32) : Option Credentials :=
  if capSetgid ∈ c.caps.effective then some (c.withGid (.all id))
  else if id = c.gid.real ∨ id = c.gid.saved then some (c.withGid { c.gid with effective := id })
  else none

/-- The permitted set under new user ids: who gives up the ids of root loses
it, unless it is kept. -/
def permittedUnder (c : Credentials) (new : ProcessIds) : Finset ℕ :=
  if c.uid.hasRoot ∧ ¬ new.hasRoot ∧ ¬ c.keepCaps then ∅ else c.caps.permitted

/-- The effective set follows the effective user id. -/
def effectiveUnder (c : Credentials) (new : ProcessIds) : Finset ℕ :=
  if c.uid.effective = 0 ∧ new.effective ≠ 0 then ∅
  else if c.uid.effective ≠ 0 ∧ new.effective = 0 then c.permittedUnder new
  else c.caps.effective ∩ c.permittedUnder new

theorem effectiveUnder_le (c : Credentials) (new : ProcessIds) :
    c.effectiveUnder new ⊆ c.permittedUnder new := by
  unfold effectiveUnder
  split
  · exact Finset.empty_subset _
  · split
    · exact Finset.Subset.refl _
    · exact Finset.inter_subset_right

/-- New user ids. -/
def withUid (c : Credentials) (new : ProcessIds) : Credentials :=
  { c with
    uid := new
    caps := ⟨c.permittedUnder new, c.effectiveUnder new, c.caps.inheritable⟩
    ambient := if c.uid.hasRoot ∧ ¬ new.hasRoot then ∅ else c.ambient
    effective_le := c.effectiveUnder_le new
    ambient_le := by
      unfold permittedUnder
      split
      · exact Finset.empty_subset _
      · rename_i h
        rw [if_neg fun hr => h ⟨hr.1, hr.2.1⟩]
        exact c.ambient_le }

/-- `setuid`. -/
def setuid (c : Credentials) (id : UInt32) : Option Credentials :=
  if capSetuid ∈ c.caps.effective then some (c.withUid (.all id))
  else if id = c.uid.real ∨ id = c.uid.saved then some (c.withUid { c.uid with effective := id })
  else none

/-- `PR_SET_KEEPCAPS`, which does nothing where the flag is locked. -/
def setKeepCaps (c : Credentials) (locked keep : Bool) : Credentials :=
  { c with keepCaps := if locked then c.keepCaps else keep }

/-- `PR_CAP_AMBIENT_CLEAR_ALL`. -/
def clearAmbient (c : Credentials) : Credentials :=
  { c with ambient := ∅, ambient_le := Finset.empty_subset _ }

/-- `PR_CAP_AMBIENT_RAISE`. -/
def raiseAmbient (c : Credentials) (cap : ℕ) : Option Credentials :=
  if h : cap ∈ c.caps.permitted ∩ c.caps.inheritable then
    some { c with
      ambient := insert cap c.ambient
      ambient_le := Finset.insert_subset h c.ambient_le }
  else none

/-- Each capability of the list in turn. -/
def raiseAll (c : Credentials) (caps : List ℕ) : Option Credentials := caps.foldlM raiseAmbient c

/-! ### What they leave -/

theorem capset_eq_some (h : c.capset new = some c') : c.MaySet new ∧ c'.caps = new ∧
    c'.ambient = c.ambient ∩ (new.permitted ∩ new.inheritable) ∧ c'.uid = c.uid ∧ c'.gid = c.gid := by
  unfold capset at h
  split at h
  · rename_i hmay
    obtain rfl := Option.some.inj h
    exact ⟨hmay, rfl, rfl, rfl, rfl⟩
  · cases h

theorem setgid_of_capable (hc : capSetgid ∈ c.caps.effective) : c.setgid id = some (c.withGid (.all id)) :=
  if_pos hc

theorem setuid_of_capable (hc : capSetuid ∈ c.caps.effective) : c.setuid id = some (c.withUid (.all id)) :=
  if_pos hc

theorem raiseAmbient_eq_some (h : c.raiseAmbient cap = some c') :
    cap ∈ c.caps.permitted ∩ c.caps.inheritable ∧ c'.caps = c.caps ∧ c'.ambient = insert cap c.ambient ∧
      c'.uid = c.uid ∧ c'.gid = c.gid := by
  unfold raiseAmbient at h
  split at h
  · rename_i hcap
    obtain rfl := Option.some.inj h
    exact ⟨hcap, rfl, rfl, rfl, rfl⟩
  · cases h

/-- **Raising a list** adds just its members to the ambient set. -/
theorem raiseAll_eq_some : ∀ {caps : List ℕ} {c c' : Credentials}, c.raiseAll caps = some c' →
    (∀ cap ∈ caps, cap ∈ c.caps.permitted ∩ c.caps.inheritable) ∧ c'.caps = c.caps ∧
      c'.ambient = c.ambient ∪ caps.toFinset ∧ c'.uid = c.uid ∧ c'.gid = c.gid
  | [], c, c', h => by
    obtain rfl := Option.some.inj h
    simp
  | cap :: caps, c, c', h => by
    simp only [raiseAll, List.foldlM_cons, Option.bind_eq_bind, Option.bind_eq_some_iff] at h
    obtain ⟨m, hm, h⟩ := h
    obtain ⟨hcap, hcaps, hamb, huid, hgid⟩ := raiseAmbient_eq_some hm
    obtain ⟨hall, hcaps', hamb', huid', hgid'⟩ := raiseAll_eq_some h
    rw [hcaps] at hall hcaps'
    refine ⟨List.forall_mem_cons.mpr ⟨hcap, hall⟩, hcaps', ?_, huid'.trans huid, hgid'.trans hgid⟩
    rw [hamb', hamb, List.toFinset_cons, Finset.insert_union, Finset.union_insert]

end Credentials
