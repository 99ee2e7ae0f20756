/-
# What a program can do with its privileges

`handle_caps` prepares the credentials that the program is executed with; what it
has after `execve` follows from these. A program of an ordinary user has the
capabilities that were configured and no others, and unless CAP_SETUID is among
them it never gets any other, nor another user, whatever it calls, and whatever it
executes that has no privileges of its own (`confined`). A program of root is
another matter: `execve` gives it the whole bounding set, which `handle_caps` does
not touch, so what is configured for it takes nothing away (`executed_with`).

The files executed have no set-id bits and no capabilities, the securebits are the
default ones, and nobody enters a user namespace of its own.

Key theorems: `handleCaps_bounding`, `executed_with`, `confined`.
-/
import Scinit.Exec
import Scinit.Lib.Confinement

namespace Scinit

open Transition Credentials

variable {H : Host} {progs : List Program} {tr : List (Sys × Label)} {s s' : Sys} {c : StartCalls} {r : Ref}
  {p : ChildProcess} {T : Files} {g : Program} {L : LibCap} {a : ChildCalls} {b : CapsCalls} {cred cred' : Credentials}
  {l : Launch} {denotes : Text → Option (Finset ℕ)}

/-- None of the calls of `handle_caps` touches the bounding set. -/
theorem handleCaps_bounding (h : handleCaps L b p cred = .ok cred') : cred'.bounding = cred.bounding := by
  simp only [handleCaps, bind_eq_ok, orFail_eq_ok, Option.bind_eq_some_iff] at h
  obtain ⟨-, -, c₁, ⟨-, _, -, h₁⟩, c₂, ⟨-, h₂⟩, c₃, ⟨-, h₃⟩, c₄, ⟨-, _, -, h₄⟩, c₅, h₅, -, _, -, h₆⟩ := h
  obtain ⟨new₂, rfl⟩ := setgid_eq_some h₂
  obtain ⟨new₃, rfl⟩ := setuid_eq_some h₃
  have hraised : c₅.bounding = c₄.clearAmbient.bounding := raiseAll_bounding (raiseConfigured_eq_ok h₅)
  calc cred'.bounding = c₅.bounding := capset_bounding h₆
    _ = c₄.bounding := hraised
    _ = c₁.bounding := by
      rw [capset_bounding h₄]
      rfl
    _ = cred.bounding := capset_bounding h₁

/-- What a program has after `execve`. -/
theorem execve_sets (hL : L.Reads denotes p.capabilities) (h : handleCaps L b p cred = .ok cred') :
    ∃ caps, denoteAll denotes p.capabilities = some caps ∧ cred'.execve.uid = .all p.uid ∧
      cred'.execve.gid = .all p.gid ∧ cred'.execve.caps.effective = cred'.execve.caps.permitted ∧
      cred'.execve.caps.permitted =
        if p.uid = 0 then cred.bounding ∪ caps else (p.capabilities.map (capValue L)).toFinset ∩ caps := by
  obtain ⟨caps, hcaps, huid, hgid, hsets, hamb, -⟩ := handleCaps_eq_ok hL h
  refine ⟨caps, hcaps, execve_uid huid, execve_gid hgid, ?_⟩
  by_cases hu : p.uid = 0
  · obtain ⟨hp, he⟩ := execve_of_root (hu ▸ huid)
    refine ⟨he, ?_⟩
    rw [if_pos hu, hp, handleCaps_bounding h, hsets, hamb, Finset.union_assoc]
    -- what is ambient is inheritable
    exact congrArg (cred.bounding ∪ ·) (Finset.union_eq_left.mpr Finset.inter_subset_right)
  · obtain ⟨hp, he⟩ := execve_of_not_root huid hu
    exact ⟨he.trans hp.symm, by rw [if_neg hu, hp, hamb]⟩

/-- **What a program is executed with**, from a file without privileges of its own. Under
an ordinary user it has the capabilities that were configured, by their values; under
root it has the whole bounding set of scinit, whatever was configured. -/
theorem executed_with (h : Runs H progs tr s) (hs : step H s (.start c) = some s')
    (hfork : forkOf H s (.start c) = some r) (hend : childEnd H L a T cred s c r = some (.exec l))
    (hg : progs[r]? = some g) (hL : L.Reads denotes g.capabilities) :
    l.cred.execve.uid = .all g.uid ∧ l.cred.execve.gid = .all g.gid ∧
      l.cred.execve.caps.effective = l.cred.execve.caps.permitted ∧
      ∃ caps, denoteAll denotes g.capabilities = some caps ∧
        (g.uid = 0 → l.cred.execve.caps.permitted = cred.bounding ∪ caps) ∧
        (g.uid ≠ 0 → ∀ cap, cap ∈ l.cred.execve.caps.permitted ↔
          cap ∈ caps ∧ ∃ name ∈ g.capabilities, capValue L name = cap) := by
  obtain ⟨g', -, -, -, hg', -, -, -, -, hdrop, -⟩ := childEnd_eq_exec h hs hfork hend
  obtain rfl := Option.some.inj (hg.symm.trans hg')
  obtain ⟨caps, hcaps, huid, hgid, heff, hperm⟩ := execve_sets hL hdrop
  refine ⟨huid, hgid, heff, caps, hcaps, fun hu => hperm.trans (if_pos hu), fun hu cap => ?_⟩
  rw [hperm.trans (if_neg hu), Finset.mem_inter, List.mem_toFinset, List.mem_map, and_comm]
  rfl

/-- **Confinement.** What a program of an ordinary user calls and executes never gives it
another user or a capability that was not configured for it, unless CAP_SETUID was.
The calls are those of `OwnCall`, which keep to the user namespace of scinit. -/
theorem confined (h : Runs H progs tr s) (hs : step H s (.start c) = some s')
    (hfork : forkOf H s (.start c) = some r) (hend : childEnd H L a T cred s c r = some (.exec l))
    (hg : progs[r]? = some g) (hL : L.Reads denotes g.capabilities) (hu : g.uid ≠ 0)
    (hset : ∀ name ∈ g.capabilities, capValue L name ≠ capSetuid) {calls : List (Credentials × OwnCall)}
    (hcalls : Run Credentials.perform l.cred.execve calls cred') :
    cred'.uid = .all g.uid ∧ (∀ cap ∈ cred'.caps.permitted, ∃ name ∈ g.capabilities, capValue L name = cap) ∧
      ((∀ name ∈ g.capabilities, capValue L name ≠ capSetgid) → cred'.gid = .all g.gid) := by
  obtain ⟨g', -, -, -, hg', -, -, -, -, hdrop, -⟩ := childEnd_eq_exec h hs hfork hend
  obtain rfl := Option.some.inj (hg.symm.trans hg')
  obtain ⟨caps, -, huid, hgid, -, hperm⟩ := execve_sets hL hdrop
  have hno : ∀ {cap : ℕ}, (∀ name ∈ g.capabilities, capValue L name ≠ cap) →
      cap ∉ (g.capabilities.map (capValue L)).toFinset := fun hcap hin => by
    obtain ⟨name, hname, hv⟩ := List.mem_map.mp (List.mem_toFinset.mp hin)
    exact hcap name hname hv
  have hconf : Confined g.uid (g.capabilities.map (capValue L)).toFinset l.cred.execve :=
    ⟨huid, (hperm.trans (if_neg hu)).trans_subset Finset.inter_subset_left⟩
  have hend := hconf.run hu (hno hset) hcalls
  refine ⟨hend.uid, fun cap hcap => ?_, fun hgset => hconf.run_gid hu (hno hset) hgid (hno hgset) hcalls⟩
  exact List.mem_map.mp (List.mem_toFinset.mp (hend.permitted hcap))

/-! ### A program of user 1000 -/

/-- It may send raw packets. -/
def rawProgram : Program :=
  { plain 'p' "simple" [] [] with capabilities := ["CAP_NET_RAW".toList], uid := 1000, gid := 1000 }

theorem rawProgram_possible :
    (exec (step bareHost) (boot bareHost [rawProgram]) firstTurn).isSome = true := by decide

theorem rawProgram_step : (step bareHost ((exec (step bareHost) (boot bareHost [rawProgram])
    firstTurn).get rawProgram_possible) (.start (startOk 10 100))).isSome = true := by decide

theorem rawProgram_forks : forkOf bareHost ((exec (step bareHost) (boot bareHost [rawProgram])
    firstTurn).get rawProgram_possible) (.start (startOk 10 100)) = some 0 := by decide

/-- What the child executes, if it executes something. -/
def ChildEnd.launch : ChildEnd → Option Launch
  | .exit _ => none
  | .exec l => some l

theorem rawProgram_launched : ∃ l, childEnd bareHost someLibCap ⟨true, true, capsOk, true⟩ Files.standard
    rootCredentials ((exec (step bareHost) (boot bareHost [rawProgram]) firstTurn).get rawProgram_possible)
    (startOk 10 100) 0 = some (.exec l) := by
  have hok : ((childEnd bareHost someLibCap ⟨true, true, capsOk, true⟩ Files.standard rootCredentials
      ((exec (step bareHost) (boot bareHost [rawProgram]) firstTurn).get rawProgram_possible)
      (startOk 10 100) 0).bind ChildEnd.launch).isSome = true := by decide +kernel
  obtain ⟨l, hl⟩ := Option.isSome_iff_exists.mp hok
  obtain ⟨e, he, hl⟩ := Option.bind_eq_some_iff.mp hl
  cases e with
  | exit => cases hl
  | exec l' => exact ⟨l', he⟩

theorem executed_with_rawProgram : ∃ l : Launch, l.cred.execve.uid = .all 1000 ∧
    ∀ cap, cap ∈ l.cred.execve.caps.permitted ↔
      cap ∈ ({13} : Finset ℕ) ∧ ∃ name ∈ ["CAP_NET_RAW".toList], capValue someLibCap name = cap := by
  obtain ⟨l, hl⟩ := rawProgram_launched
  obtain ⟨huid, -, -, caps, hcaps, -, hperm⟩ := executed_with (Run.of_isSome rawProgram_possible)
    (Option.some_get rawProgram_step).symm rawProgram_forks hl rfl reads_netRaw
  obtain rfl := Option.some.inj ((show denoteAll someDenotes ["CAP_NET_RAW".toList] = some {13} by decide).symm.trans
    hcaps)
  exact ⟨l, huid, hperm (by decide)⟩

/-- It clears its ambient set and executes a file. -/
theorem confined_rawProgram : ∃ l : Launch, l.cred.execve.clearAmbient.execve.uid = .all 1000 ∧
    l.cred.execve.clearAmbient.execve.gid = .all 1000 := by
  obtain ⟨l, hl⟩ := rawProgram_launched
  have hcalls : Run Credentials.perform l.cred.execve
      [(l.cred.execve, .clearAmbient), (l.cred.execve.clearAmbient, .execve)]
      l.cred.execve.clearAmbient.execve := (Run.single rfl).snoc rfl
  obtain ⟨huid, -, hgid⟩ := confined (Run.of_isSome rawProgram_possible) (Option.some_get rawProgram_step).symm
    rawProgram_forks hl rfl reads_netRaw (by decide) (by decide) hcalls
  exact ⟨l, huid, hgid (by decide)⟩

end Scinit
