/-
# Dropping privileges

`ChildProcess::handle_caps`, which the child runs between `fork` and `exec`:
it takes the configured capabilities and those it needs for the change of its
ids, changes the ids, makes the configured capabilities ambient, and takes
these only.

libcap is not part of the repository: `cap_from_name` and `cap_from_text` are
parameters, and `LibCap.Reads` is what their manual says of the two texts that
`handle_caps` builds. The other calls are those of `Scinit/Lib/Credentials.lean`;
each of them may also fail for a reason of the kernel's own.

`cap_from_name` leaves `cap` alone where it fails, so the warned-of name still
raises capability 0, CAP_CHOWN (`dropped_exactly_iff`).

Key definitions: `LibCap`, `handleCaps`, `DroppedExactly`.
Key theorems: `handleCaps_eq_ok`, `dropped_exactly_iff`.
-/
import Scinit.Config
import Scinit.Lib.Credentials

namespace Scinit

/-! ### The code -/

/-- libcap. -/
structure LibCap where
  fromName : Text → Option ℕ
  fromText : Text → Option CapSets

/-- What the calls of `handle_caps` answer, where they do not fail by themselves. -/
structure CapsCalls where
  chownOut : Bool
  chownErr : Bool
  chmodOut : Bool
  chmodErr : Bool
  capsetFirst : Bool
  keepCapsLocked : Bool
  setgid : Bool
  setuid : Bool
  capsetSecond : Bool
  raise : Text → Bool
  capsetLast : Bool

/-- ` name=eip` for each capability. -/
def capClauses (capabilities : List Text) : Text :=
  capabilities.flatMap fun capability => ' ' :: capability ++ "=eip".toList

def transitionalText (capabilities : List Text) : Text :=
  "CAP_SETUID=eip CAP_SETGID=eip CAP_SETPCAP=eip".toList ++ capClauses capabilities

/-- A call that fails by itself or is not let through, with what is printed then. -/
def orFail (ok : Bool) (call : Option Credentials) (text : String) : Except String Credentials :=
  if ok then
    match call with
    | some cred => .ok cred
    | none => .error text
  else .error text

/-- The owner and the mode of the terminals. -/
def chownPtys (a : CapsCalls) (p : ChildProcess) : Except String Unit :=
  if !p.wantTty then .ok ()
  else if !a.chownOut then .error "Couldn't set owner of stdout PTY!"
  else if !a.chownErr then .error "Couldn't set owner of stderr PTY!"
  else if !a.chmodOut then .error "Couldn't set mode of stdout PTY!"
  else if !a.chmodErr then .error "Couldn't set mode of stderr PTY!"
  else .ok ()

/-- The value `cap` has after `cap_from_name`: it is 0 before, and a name that
cannot be decoded leaves it so. -/
def capValue (L : LibCap) (capability : Text) : ℕ := (L.fromName capability).getD 0

/-- The loop that makes the configured capabilities ambient. -/
def raiseConfigured (L : LibCap) (a : CapsCalls) : List Text → Credentials → Except String Credentials
  | [], cred => .ok cred
  | capability :: rest, cred => do
    let cred ← orFail (a.raise capability) (cred.raiseAmbient (capValue L capability))
      ("Ambient capability '" ++ String.ofList capability ++ "' could not be enabled!")
    raiseConfigured L a rest cred

/-- `handle_caps`: the credentials it returns true with, or the text it fails
with. What `PR_SET_KEEPCAPS` returns is not looked at. -/
def handleCaps (L : LibCap) (a : CapsCalls) (p : ChildProcess) (cred : Credentials) :
    Except String Credentials := do
  chownPtys a p
  let newCapsTransitional := L.fromText (transitionalText p.capabilities)
  let cred ← orFail a.capsetFirst (newCapsTransitional.bind cred.capset) "Couldn't set capabilities!"
  let cred := cred.setKeepCaps a.keepCapsLocked true
  let cred ← orFail a.setgid (cred.setgid p.gid) "Couldn't set group!"
  let cred ← orFail a.setuid (cred.setuid p.uid) "Couldn't set user!"
  let cred := cred.setKeepCaps a.keepCapsLocked false
  let cred ← orFail a.capsetSecond (newCapsTransitional.bind cred.capset) "Couldn't set capabilities!"
  let cred ← raiseConfigured L a p.capabilities cred.clearAmbient
  let newCaps := L.fromText (capClauses p.capabilities)
  orFail a.capsetLast (newCaps.bind cred.capset) "Couldn't set capabilities!"

/-! ### What libcap says -/

/-- What all of the names stand for, if each of them stands for something. -/
def denoteAll (denotes : Text → Option (Finset ℕ)) : List Text → Option (Finset ℕ)
  | [] => some ∅
  | name :: names => do
    let caps ← denotes name
    let rest ← denoteAll denotes names
    pure (caps ∪ rest)

/-- The manual of libcap, for the texts `handle_caps` builds: `cap_from_text`
reads each clause as the set its name stands for and fails on a name that stands
for nothing, and `cap_from_name` agrees with it. -/
structure LibCap.Reads (L : LibCap) (denotes : Text → Option (Finset ℕ)) (capabilities : List Text) : Prop where
  clauses : L.fromText (capClauses capabilities) = (denoteAll denotes capabilities).map CapSets.all
  transitional : L.fromText (transitionalText capabilities) =
    (denoteAll denotes capabilities).map fun caps =>
      CapSets.all ({Credentials.capSetuid, Credentials.capSetgid, Credentials.capSetpcap} ∪ caps)
  agree : ∀ name ∈ capabilities, ∀ cap caps, L.fromName name = some cap → denotes name = some caps → caps = {cap}

variable {L : LibCap} {a : CapsCalls} {p : ChildProcess} {cred cred' : Credentials}
  {denotes : Text → Option (Finset ℕ)} {capabilities : List Text} {text : String}

theorem orFail_eq_ok {ok : Bool} {call : Option Credentials} :
    orFail ok call text = .ok cred' ↔ ok = true ∧ call = some cred' := by
  unfold orFail
  cases ok with
  | false => simp
  | true => cases call <;> simp

/-- What one of the names stands for is in the union. -/
theorem subset_denoteAll : ∀ {names : List Text} {all : Finset ℕ}, denoteAll denotes names = some all →
    ∀ name ∈ names, ∃ caps, denotes name = some caps ∧ caps ⊆ all
  | [], _, _ => fun _ hm => absurd hm List.not_mem_nil
  | n :: names, all, h => by
    simp only [denoteAll, Option.bind_eq_bind, Option.bind_eq_some_iff, Option.pure_def, Option.some.injEq] at h
    obtain ⟨caps, hn, rest, hrest, rfl⟩ := h
    refine List.forall_mem_cons.mpr ⟨⟨caps, hn, Finset.subset_union_left⟩, fun m hm => ?_⟩
    obtain ⟨caps', h1, h2⟩ := subset_denoteAll hrest m hm
    exact ⟨caps', h1, h2.trans Finset.subset_union_right⟩

/-- The loop raises the value of each name. -/
theorem raiseConfigured_eq_ok : ∀ {names : List Text} {cred cred' : Credentials},
    raiseConfigured L a names cred = .ok cred' → cred.raiseAll (names.map (capValue L)) = some cred'
  | [], cred, cred', h => by
    cases h
    rfl
  | name :: names, cred, cred', h => by
    simp only [raiseConfigured, bind_eq_ok, orFail_eq_ok] at h
    obtain ⟨m, ⟨-, hm⟩, h⟩ := h
    simp only [List.map_cons, Credentials.raiseAll, List.foldlM_cons, Option.bind_eq_bind,
      Option.bind_eq_some_iff]
    exact ⟨m, hm, raiseConfigured_eq_ok h⟩

/-! ### What is left -/

/-- What `handle_caps` returns true with: the ids are the configured ones, the
three sets are what the names stand for, and the values of the names are
ambient; each of these was permitted for the change of the ids. -/
theorem handleCaps_eq_ok (hL : L.Reads denotes p.capabilities) (h : handleCaps L a p cred = .ok cred') :
    ∃ caps, denoteAll denotes p.capabilities = some caps ∧ cred'.uid = .all p.uid ∧ cred'.gid = .all p.gid ∧
      cred'.caps = .all caps ∧ cred'.ambient = (p.capabilities.map (capValue L)).toFinset ∩ caps ∧
      ∀ name ∈ p.capabilities, capValue L name ∈
        ({Credentials.capSetuid, Credentials.capSetgid, Credentials.capSetpcap} : Finset ℕ) ∪ caps := by
  simp only [handleCaps, bind_eq_ok, orFail_eq_ok, hL.clauses, hL.transitional, Option.bind_eq_some_iff,
    Option.map_eq_some_iff] at h
  obtain ⟨-, -, c₁, ⟨-, _, ⟨caps, hcaps, rfl⟩, h₁⟩, c₂, ⟨-, h₂⟩, c₃, ⟨-, h₃⟩, c₄, ⟨-, _, ⟨caps₄, hcaps₄, rfl⟩, h₄⟩,
    c₅, h₅, -, _, ⟨caps₆, hcaps₆, rfl⟩, h₆⟩ := h
  obtain ⟨-, hcaps₁, -, -, -⟩ := Credentials.capset_eq_some h₁
  obtain ⟨-, hcaps₄', -, huid₄, hgid₄⟩ := Credentials.capset_eq_some h₄
  obtain ⟨hraised, -, hamb₅, huid₅, hgid₅⟩ := Credentials.raiseAll_eq_some (raiseConfigured_eq_ok h₅)
  obtain ⟨-, hcaps', hamb', huid', hgid'⟩ := Credentials.capset_eq_some h₆
  rw [hcaps, Option.some.injEq] at hcaps₄ hcaps₆
  subst hcaps₄ hcaps₆
  -- the first `capset` makes both changes of the ids go through for all three ids
  have heff : c₁.caps.effective = {Credentials.capSetuid, Credentials.capSetgid, Credentials.capSetpcap} ∪ caps := by
    rw [hcaps₁]
    rfl
  have hset₂ : c₂ = (c₁.setKeepCaps a.keepCapsLocked true).withGid (.all p.gid) := by
    have hcan : Credentials.capSetgid ∈ (c₁.setKeepCaps a.keepCapsLocked true).caps.effective := by
      show Credentials.capSetgid ∈ c₁.caps.effective
      rw [heff]
      simp
    rw [Credentials.setgid_of_capable hcan] at h₂
    exact (Option.some.inj h₂).symm
  have hset₃ : c₃ = c₂.withUid (.all p.uid) := by
    have hcan : Credentials.capSetuid ∈ c₂.caps.effective := by
      rw [hset₂]
      show Credentials.capSetuid ∈ c₁.caps.effective
      rw [heff]
      simp
    rw [Credentials.setuid_of_capable hcan] at h₃
    exact (Option.some.inj h₃).symm
  refine ⟨caps, hcaps, ?_, ?_, hcaps', ?_, fun name hname => ?_⟩
  · rw [huid', huid₅]
    show c₄.uid = _
    rw [huid₄, hset₃]
    rfl
  · rw [hgid', hgid₅]
    show c₄.gid = _
    rw [hgid₄, hset₃, hset₂]
    rfl
  · rw [hamb', hamb₅]
    show (∅ ∪ _) ∩ (caps ∩ caps) = _
    rw [Finset.empty_union, Finset.inter_self]
  · have hmem := hraised _ (List.mem_map_of_mem hname)
    have hcaps₄'' : c₄.clearAmbient.caps = _ := hcaps₄'
    rw [hcaps₄''] at hmem
    exact (Finset.mem_inter.mp hmem).1

/-- The privileges are dropped exactly: the ids are the configured ones, the
permitted, effective and inheritable sets are what the configured names stand
for, and the ambient set holds what `cap_from_name` makes of them. -/
structure DroppedExactly (L : LibCap) (denotes : Text → Option (Finset ℕ)) (p : ChildProcess)
    (cred : Credentials) : Prop where
  uid : cred.uid = .all p.uid
  gid : cred.gid = .all p.gid
  sets : (denoteAll denotes p.capabilities).map CapSets.all = some cred.caps
  ambient : ∀ cap, cap ∈ cred.ambient ↔ ∃ name ∈ p.capabilities, L.fromName name = some cap

/-- **Privileges are dropped exactly** if and only if each configured name can
be decoded, or one of them is that of CAP_CHOWN. -/
theorem dropped_exactly_iff (hL : L.Reads denotes p.capabilities) (h : handleCaps L a p cred = .ok cred') :
    DroppedExactly L denotes p cred' ↔
      (∀ name ∈ p.capabilities, L.fromName name ≠ none) ∨ ∃ name ∈ p.capabilities, L.fromName name = some 0 := by
  obtain ⟨caps, hcaps, huid, hgid, hsets, hamb, hraised⟩ := handleCaps_eq_ok hL h
  -- what is decoded is denoted, so the last `capset` leaves it ambient
  have hdecoded : ∀ name ∈ p.capabilities, ∀ cap, L.fromName name = some cap → cap ∈ caps := by
    intro name hname cap hcap
    obtain ⟨set, hset, hle⟩ := subset_denoteAll hcaps name hname
    rw [hL.agree name hname cap set hcap hset] at hle
    exact hle (Finset.mem_singleton_self cap)
  have hmem : ∀ cap, cap ∈ cred'.ambient ↔ ∃ name ∈ p.capabilities, capValue L name = cap ∧ cap ∈ caps := by
    intro cap
    rw [hamb, Finset.mem_inter, List.mem_toFinset, List.mem_map]
    constructor
    · rintro ⟨⟨name, hname, hv⟩, hc⟩
      exact ⟨name, hname, hv, hc⟩
    · rintro ⟨name, hname, hv, hc⟩
      exact ⟨⟨name, hname, hv⟩, hc⟩
  constructor
  · intro hd
    by_contra hno
    push Not at hno
    obtain ⟨⟨name, hname, hnone⟩, hchown⟩ := hno
    have hzero : capValue L name = 0 := by rw [capValue, hnone, Option.getD_none]
    have hin : 0 ∈ caps := by
      have hr := hraised name hname
      rw [hzero, Finset.mem_union] at hr
      exact hr.resolve_left (by decide)
    obtain ⟨name', hname', hcap⟩ := (hd.ambient 0).mp ((hmem 0).mpr ⟨name, hname, hzero, hin⟩)
    exact hchown name' hname' hcap
  · intro hcond
    refine ⟨huid, hgid, by rw [hcaps, hsets, Option.map_some], fun cap => ?_⟩
    rw [hmem]
    constructor
    · rintro ⟨name, hname, hv, -⟩
      cases hn : L.fromName name with
      | some c =>
        rw [capValue, hn, Option.getD_some] at hv
        exact ⟨name, hname, hn.trans (congrArg some hv)⟩
      | none =>
        rw [capValue, hn, Option.getD_none] at hv
        rcases hcond with hall | ⟨chown, hchown, h0⟩
        · exact absurd hn (hall name hname)
        · exact ⟨chown, hchown, h0.trans (congrArg some hv)⟩
    · rintro ⟨name, hname, hcap⟩
      exact ⟨name, hname, by rw [capValue, hcap, Option.getD_some], hdecoded name hname cap hcap⟩

/-! ### A small libcap -/

/-- The capabilities of a kernel with 41 of them. -/
def allCaps : Finset ℕ := Finset.range 41

/-- Some names, and what they stand for in `cap_from_text`. -/
def someNames : List (Text × Finset ℕ) :=
  [("CAP_CHOWN".toList, {0}), ("CAP_SETGID".toList, {6}), ("CAP_SETUID".toList, {7}),
    ("CAP_SETPCAP".toList, {8}), ("CAP_NET_RAW".toList, {13}), ("all".toList, allCaps)]

def someDenotes (name : Text) : Option (Finset ℕ) := someNames.lookup name

/-- A clause `name=eip`. -/
def clauseName (clause : Text) : Option Text :=
  if clause.drop (clause.length - 4) = "=eip".toList then some (clause.take (clause.length - 4)) else none

/-- The libcap of these names: it does not decode 'all'. -/
def someLibCap : LibCap where
  fromName := fun name =>
    [("CAP_CHOWN".toList, 0), ("CAP_SETGID".toList, 6), ("CAP_SETUID".toList, 7), ("CAP_SETPCAP".toList, 8),
      ("CAP_NET_RAW".toList, 13)].lookup name
  fromText := fun text => do
    let names ← ((text.splitOn ' ').filter (!·.isEmpty)).mapM clauseName
    let caps ← denoteAll someDenotes names
    pure (.all caps)

/-- Root, with all the capabilities there are. -/
def rootCredentials : Credentials where
  uid := .all 0
  gid := .all 0
  caps := .all allCaps
  ambient := ∅
  bounding := allCaps
  keepCaps := false
  effective_le := Finset.Subset.refl _
  ambient_le := Finset.empty_subset _

/-- No call fails by itself. -/
def capsOk : CapsCalls := ⟨true, true, true, true, true, false, true, true, true, fun _ => true, true⟩

/-- A process of user 1000 with one capability. -/
def withCapability (capability : String) : ChildProcess :=
  ChildProcess.new bareHost { plain 'p' "simple" [] [] with
    capabilities := [capability.toList], uid := 1000, gid := 1000 } 0

theorem reads_netRaw : someLibCap.Reads someDenotes (withCapability "CAP_NET_RAW").capabilities where
  clauses := by decide
  transitional := by decide
  agree := by
    intro name hname cap caps hcap hcaps
    obtain rfl := List.mem_singleton.mp hname
    obtain rfl : 13 = cap := Option.some.inj hcap
    exact (Option.some.inj hcaps).symm

theorem netRaw_possible :
    (handleCaps someLibCap capsOk (withCapability "CAP_NET_RAW") rootCredentials).isOk = true := by decide +kernel

theorem dropped_exactly_iff_netRaw : ∃ cred,
    handleCaps someLibCap capsOk (withCapability "CAP_NET_RAW") rootCredentials = .ok cred ∧
      DroppedExactly someLibCap someDenotes (withCapability "CAP_NET_RAW") cred := by
  cases h : handleCaps someLibCap capsOk (withCapability "CAP_NET_RAW") rootCredentials with
  | error text =>
    have hok := netRaw_possible
    rw [h] at hok
    cases hok
  | ok cred => exact ⟨cred, rfl, (dropped_exactly_iff reads_netRaw h).mpr (Or.inl (by decide))⟩

theorem reads_all : someLibCap.Reads someDenotes (withCapability "all").capabilities where
  clauses := by decide
  transitional := by decide
  agree := by
    intro name hname cap caps hcap hcaps
    obtain rfl := List.mem_singleton.mp hname
    cases hcap

theorem all_possible : ((handleCaps someLibCap capsOk (withCapability "all") rootCredentials).toOption.map
    fun cred => decide (0 ∈ cred.ambient)) = some true := by decide +kernel

/-- With 'all', which `cap_from_name` does not know, CAP_CHOWN becomes ambient. -/
theorem chown_left : ¬ ∀ (L : LibCap) (denotes : Text → Option (Finset ℕ)) (a : CapsCalls) (p : ChildProcess)
    (cred cred' : Credentials), L.Reads denotes p.capabilities → handleCaps L a p cred = .ok cred' →
      DroppedExactly L denotes p cred' := by
  intro hall
  have hchown := all_possible
  cases h : handleCaps someLibCap capsOk (withCapability "all") rootCredentials with
  | error text =>
    rw [h] at hchown
    cases hchown
  | ok cred =>
    rw [h] at hchown
    have hin : 0 ∈ cred.ambient := of_decide_eq_true (Option.some.inj hchown)
    obtain ⟨name, hname, hcap⟩ := ((hall _ _ _ _ _ _ reads_all h).ambient 0).mp hin
    obtain rfl := List.mem_singleton.mp hname
    cases hcap

end Scinit
