/-
# The terminals of a child

For a child that wants terminals `do_fork` opens two and asks for their names,
with a buffer that grows until the name fits; `handle_caps` then gives the
terminals of these names to the child's user. Both loops ask for the name of
`stdout[1]`, so the terminal of stderr is handed over only if it had the name
of the other one (`handed_over_iff`, `err_kept`).

Key definitions: `Devices`, `handOverPtys`, `HandedOver`.
Key theorems: `growTo_rounds`, `doFork_ptys`, `handed_over_iff`.
-/
import Scinit.Invariant
import Scinit.Privileges

namespace Scinit

variable {H : Host} {L : LibCap} {c : StartCalls} {a : CapsCalls} {p q : ChildProcess} {k : Kernel}
  {reg : Map ℤ ℕ} {ref : Ref} {cred cred' : Credentials}

/-! ### The buffer -/

/-- The loop ends: after some rounds the buffer is long enough, and in each of
them it was not. -/
theorem growTo_rounds (length capacity : ℕ) : length + 1 ≤ growTo length capacity ∧
    ∃ n, growTo length capacity = (fun capacity => capacity * 2 + 1)^[n] capacity ∧
      ∀ m < n, (fun capacity => capacity * 2 + 1)^[m] capacity < length + 1 := by
  fun_induction growTo length capacity with
  | case1 capacity h => exact ⟨h, 0, rfl, fun m hm => absurd hm (Nat.not_lt_zero m)⟩
  | case2 capacity h ih =>
    obtain ⟨hle, n, hn, hshort⟩ := ih
    refine ⟨hle, n + 1, hn, fun m hm => ?_⟩
    cases m with
    | zero => exact not_le.mp h
    | succ m => exact hshort m (by omega)

/-! ### The devices -/

/-- A terminal device. -/
structure Terminal where
  owner : UInt32 × UInt32
  mode : ℕ

/-- The devices by name. -/
abbrev Devices := Text → Terminal

/-- -1, which stands for no id. -/
def noId : UInt32 := 4294967295

/-- What `chown` makes of an id: -1 leaves it. -/
def chownId (old new : UInt32) : UInt32 := if new = noId then old else new

namespace Devices

/-- `chown`, with what is printed if it fails. -/
def chown (ttys : Devices) (ok : Bool) (name : Text) (uid gid : UInt32) (text : String) : Except String Devices :=
  if ok then
    .ok (Function.update ttys name { ttys name with
      owner := (chownId (ttys name).owner.1 uid, chownId (ttys name).owner.2 gid) })
  else .error text

/-- `chmod`, with what is printed if it fails. -/
def chmod (ttys : Devices) (ok : Bool) (name : Text) (mode : ℕ) (text : String) : Except String Devices :=
  if ok then .ok (Function.update ttys name { ttys name with mode := mode }) else .error text

end Devices

/-- The first part of `handle_caps`, with what it does to the devices. -/
def handOverPtys (a : CapsCalls) (p : ChildProcess) (ttys : Devices) : Except String Devices :=
  if !p.wantTty then .ok ttys
  else do
    let ttys ← ttys.chown a.chownOut p.stdoutPTYName.text p.uid p.gid "Couldn't set owner of stdout PTY!"
    let ttys ← ttys.chown a.chownErr p.stderrPTYName.text p.uid p.gid "Couldn't set owner of stderr PTY!"
    let ttys ← ttys.chmod a.chmodOut p.stdoutPTYName.text 0o620 "Couldn't set mode of stdout PTY!"
    ttys.chmod a.chmodErr p.stderrPTYName.text 0o620 "Couldn't set mode of stderr PTY!"

/-- It ends as `handle_caps` has it. -/
theorem handOverPtys_chownPtys (a : CapsCalls) (p : ChildProcess) (ttys : Devices) :
    (handOverPtys a p ttys).map (fun _ => ()) = chownPtys a p := by
  unfold handOverPtys chownPtys Devices.chown Devices.chmod
  cases p.wantTty <;> cases a.chownOut <;> cases a.chownErr <;> cases a.chmodOut <;> cases a.chmodErr <;> rfl

theorem Devices.chown_owner {ttys ttys' : Devices} {ok : Bool} {name : Text} {uid gid : UInt32} {text : String}
    (h : ttys.chown ok name uid gid text = .ok ttys') (n : Text) : (ttys' n).owner =
      if n = name then (chownId (ttys n).owner.1 uid, chownId (ttys n).owner.2 gid) else (ttys n).owner := by
  unfold Devices.chown at h
  split at h
  · cases h
    by_cases hn : n = name
    · subst hn
      simp
    · simp [hn]
  · cases h

theorem Devices.chmod_owner {ttys ttys' : Devices} {ok : Bool} {name : Text} {mode : ℕ} {text : String}
    (h : ttys.chmod ok name mode text = .ok ttys') (n : Text) : (ttys' n).owner = (ttys n).owner := by
  unfold Devices.chmod at h
  split at h
  · cases h
    by_cases hn : n = name
    · subst hn
      simp
    · simp [hn]
  · cases h

/-- The devices of the two names are the user's afterwards, any other is whose it was. -/
theorem handOverPtys_owner {ttys ttys' : Devices} (htty : p.wantTty = true) (huid : p.uid ≠ noId)
    (hgid : p.gid ≠ noId) (h : handOverPtys a p ttys = .ok ttys') (name : Text) : (ttys' name).owner =
      if name = p.stdoutPTYName.text ∨ name = p.stderrPTYName.text then (p.uid, p.gid) else (ttys name).owner := by
  simp only [handOverPtys, htty, Bool.not_true, Bool.false_eq_true, if_false, bind_eq_ok] at h
  obtain ⟨t₁, h₁, t₂, h₂, t₃, h₃, h₄⟩ := h
  rw [Devices.chmod_owner h₄, Devices.chmod_owner h₃, Devices.chown_owner h₂, Devices.chown_owner h₁]
  simp only [chownId, if_neg huid, if_neg hgid]
  by_cases ho : name = p.stdoutPTYName.text
  · rw [if_pos ho, if_pos (Or.inl ho), ite_self]
  · rw [if_neg ho]
    exact if_congr (or_iff_right ho).symm rfl rfl

/-! ### The names -/

/-- What opening the terminals leaves: both names are that of the terminal `stdout[1]`. -/
theorem openPtys_eq {out err : ℤ × ℤ} {name : Text} (hout : c.out = some out) (herr : c.err = some err)
    (hn : c.ttyname out.2 = .ok name) : openPtys c p k =
      (p.withStdio out err { capacity := growTo name.length (p.stdoutPTYName.reserve 64).capacity, text := name }
        { capacity := growTo name.length (p.stderrPTYName.reserve 64).capacity, text := name },
        (k.openPair out).openPair err, none) := by
  simp only [openPtys, hout, herr, hn, ttynameLoop, ne_eq, not_true_eq_false, if_false]
  rfl

/-- When `do_fork` gets to its `fork`, both pairs are open and the name was found. -/
theorem opened_of_fork (htty : p.wantTty = true) (h : (doFork H c ref p k reg).exn = none) :
    ∃ out err name, c.out = some out ∧ c.err = some err ∧ c.ttyname out.2 = .ok name := by
  have hr : p.state = .ready := by
    by_contra hr
    rw [doFork, if_pos hr] at h
    cases h
  obtain ⟨⟨out, hout, hrc⟩, herr, -⟩ := (doFork_exn_iff ref hr reg).mp h
  obtain ⟨err, herr⟩ := Option.isSome_iff_exists.mp herr
  have hrc := hrc htty
  cases hn : c.ttyname out.2 with
  | error rc =>
    rw [hn] at hrc
    exact absurd hrc rc.property.1
  | ok name => exact ⟨out, err, name, hout, herr, hn⟩

theorem doFork_ptys {out err : ℤ × ℤ} {name : Text} (htty : p.wantTty = true) (hout : c.out = some out)
    (herr : c.err = some err) (hn : c.ttyname out.2 = .ok name) (h : (doFork H c ref p k reg).exn = none) :
    (doFork H c ref p k reg).self = p.forked c out err
      { capacity := growTo name.length (p.stdoutPTYName.reserve 64).capacity, text := name }
      { capacity := growTo name.length (p.stderrPTYName.reserve 64).capacity, text := name } := by
  unfold doFork at h ⊢
  by_cases hr : p.state = .ready
  · rw [if_neg (not_not.mpr hr), if_pos htty, openPtys_eq hout herr hn] at h ⊢
    dsimp only at h ⊢
    generalize handleEnv H _ = environment at h ⊢
    cases environment with
    | error e => cases h
    | ok environment => rfl
  · rw [if_pos hr] at h
    cases h

/-- `setuid` and `setgid` refuse -1. -/
def CapsCalls.MayAnswer (a : CapsCalls) (p : ChildProcess) : Prop :=
  (a.setuid = true → p.uid ≠ noId) ∧ (a.setgid = true → p.gid ≠ noId)

/-- When `handle_caps` returns true it has given the devices of the two names to
the user, and no other. -/
theorem handleCaps_owner (htty : q.wantTty = true) (ha : a.MayAnswer q) (h : handleCaps L a q cred = .ok cred')
    (ttys : Devices) : ∃ ttys', handOverPtys a q ttys = .ok ttys' ∧ ∀ name, (ttys' name).owner =
      if name = q.stdoutPTYName.text ∨ name = q.stderrPTYName.text then (q.uid, q.gid) else (ttys name).owner := by
  simp only [handleCaps, bind_eq_ok, orFail_eq_ok] at h
  obtain ⟨_, hptys, _, -, _, ⟨hgid, -⟩, _, ⟨huid, -⟩, -⟩ := h
  rw [← handOverPtys_chownPtys a q ttys] at hptys
  cases hover : handOverPtys a q ttys with
  | error text =>
    rw [hover] at hptys
    cases hptys
  | ok ttys' => exact ⟨ttys', rfl, handOverPtys_owner htty (ha.1 huid) (ha.2 hgid) hover⟩

/-- Both terminals of the child that the object `q` has forked are handed over:
the buffers hold the names of `stdout[1]` and of `stderr[1]`, and when
`handle_caps` returns true the terminals are the user's. -/
structure HandedOver (L : LibCap) (c : StartCalls) (q : ChildProcess) : Prop where
  out : c.ttyname q.stdout.2 = .ok q.stdoutPTYName.text
  err : c.ttyname q.stderr.2 = .ok q.stderrPTYName.text
  outFits : q.stdoutPTYName.text.length + 1 ≤ q.stdoutPTYName.capacity
  errFits : q.stderrPTYName.text.length + 1 ≤ q.stderrPTYName.capacity
  owners : ∀ (a : CapsCalls) (cred cred' : Credentials) (ttys : Devices), a.MayAnswer q →
    handleCaps L a q cred = .ok cred' → ∃ ttys', handOverPtys a q ttys = .ok ttys' ∧
      ∀ fd name, fd = q.stdout.2 ∨ fd = q.stderr.2 → c.ttyname fd = .ok name →
        (ttys' name).owner = (q.uid, q.gid)

/-- **Both terminals are handed over** if and only if they have the same name. -/
theorem handed_over_iff (htty : p.wantTty = true) (h : (doFork H c ref p k reg).exn = none) :
    HandedOver L c (doFork H c ref p k reg).self ↔
      ∀ out ∈ c.out, ∀ err ∈ c.err, c.ttyname err.2 = c.ttyname out.2 := by
  obtain ⟨out, err, name, hout, herr, hn⟩ := opened_of_fork htty h
  rw [doFork_ptys htty hout herr hn h]
  constructor
  · intro hh out' hout' err' herr'
    rw [hout, Option.mem_some_iff] at hout'
    rw [herr, Option.mem_some_iff] at herr'
    rw [← hout', ← herr', hn]
    exact hh.err
  · intro hsame
    have hn' : c.ttyname err.2 = .ok name := (hsame out hout err herr).trans hn
    refine ⟨hn, hn', (growTo_rounds _ _).1, (growTo_rounds _ _).1, fun a cred cred' ttys ha hcaps => ?_⟩
    obtain ⟨ttys', hover, howner⟩ := handleCaps_owner (q := p.forked c out err _ _) htty ha hcaps ttys
    refine ⟨ttys', hover, fun fd name' hfd hname' => ?_⟩
    have hsame' : name' = name := by
      rcases hfd with rfl | rfl
      · exact Except.ok.inj (hname'.symm.trans hn)
      · exact Except.ok.inj (hname'.symm.trans hn')
    exact (howner name').trans (if_pos (Or.inl hsame'))

/-- A terminal that has not the name of `stdout[1]`, that of stderr as any other,
stays whose it was. -/
theorem err_kept (htty : p.wantTty = true) (h : (doFork H c ref p k reg).exn = none) {out : ℤ × ℤ}
    (hout : c.out = some out) {name : Text} (hne : c.ttyname out.2 ≠ .ok name) {ttys : Devices}
    (ha : a.MayAnswer (doFork H c ref p k reg).self)
    (hcaps : handleCaps L a (doFork H c ref p k reg).self cred = .ok cred') :
    ∃ ttys', handOverPtys a (doFork H c ref p k reg).self ttys = .ok ttys' ∧
      (ttys' name).owner = (ttys name).owner := by
  obtain ⟨out', err', name', hout', herr', hn'⟩ := opened_of_fork htty h
  rw [hout, Option.some.injEq] at hout'
  subst hout'
  have hself := doFork_ptys htty hout herr' hn' h
  obtain ⟨ttys', hover, howner⟩ := handleCaps_owner (by rw [hself]; exact htty) ha hcaps ttys
  refine ⟨ttys', hover, (howner name).trans (if_neg ?_)⟩
  rw [hself]
  have hother : name ≠ name' := fun he => hne (he ▸ hn')
  exact not_or.mpr ⟨hother, hother⟩

/-- A program that wants terminals, ready to start. -/
def ttyProcess : ChildProcess :=
  (ChildProcess.new bareHost { plain 'p' "simple" [] [] with wantTty := true, uid := 1000, gid := 1000 } 0).settle

/-- Two terminals, each with its name. -/
def ttyStart : StartCalls := { startOk 10 100 with
  ttyname := fun fd => if fd = 11 then .ok "/dev/pts/1".toList else .ok "/dev/pts/2".toList }

theorem ttyStart_name (fd : ℤ) : ∃ name, ttyStart.ttyname fd = .ok name := by
  by_cases hfd : fd = 11
  · exact ⟨_, if_pos hfd⟩
  · exact ⟨_, if_neg hfd⟩

theorem ttyStart_possible : (doFork bareHost ttyStart 0 ttyProcess {} ∅).exn = none := by decide

theorem handed_over_iff_ttyStart :
    ¬ HandedOver someLibCap ttyStart (doFork bareHost ttyStart 0 ttyProcess {} ∅).self := by
  rw [handed_over_iff (by decide) ttyStart_possible]
  decide

/-- The second name is not that of the terminal of stderr. -/
theorem stderr_not_handed_over : ¬ ∀ (H : Host) (L : LibCap) (c : StartCalls) (ref : Ref) (p : ChildProcess)
    (k : Kernel) (reg : Map ℤ ℕ), p.wantTty = true → (∀ fd, ∃ name, c.ttyname fd = .ok name) →
      (doFork H c ref p k reg).exn = none → HandedOver L c (doFork H c ref p k reg).self := by
  intro hall
  have herr := (hall bareHost someLibCap ttyStart 0 ttyProcess {} ∅ (by decide) ttyStart_name
    ttyStart_possible).err
  revert herr
  decide

end Scinit
