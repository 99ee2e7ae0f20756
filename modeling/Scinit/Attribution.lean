/-
# Output goes to the program it came from

What the descriptor tables say in every state of a run without a failing
`epoll_ctl`, and what that means for an event: the lookups of
`handle_child_output` and of the hang-up find what they look for, and it is the
program that opened the descriptor, with the right one of its two streams.

Key definitions: `Consistent`, `Attributed`.
Key theorems: `ncard_fds`, `event_attributed`, `descriptor_tables`.
-/
import Scinit.Lifecycle

namespace Scinit

open Transition

variable {H : Host} {progs : List Program} {base : Objs} {tr : List (Sys × Label)} {s s' : Sys}

/-- The descriptor tables after the run `tr`. -/
structure Consistent (H : Host) (tr : List (Sys × Label)) (s : Sys) : Prop where
  keys : ∀ fd : ℤ, fd ∈ s.handler.idForFd ↔ fd ∈ s.handler.fdType
  registered : ∀ fd : ℤ, fd ∈ s.handler.idForFd ↔ fd ∈ s.kernel.epoll ∧ fd ≠ s.handler.signalFd
  creator : ∀ (fd : ℤ) (id : ℕ), s.handler.idForFd[fd]? = some id →
    ∃ t c out err, (t, Label.start c) ∈ tr ∧ forkOf H t (.start c) = some id ∧
      c.out = some out ∧ c.err = some err ∧
      (fd = out.1 ∧ s.handler.fdType[fd]? = some .stdout ∨
        fd = err.1 ∧ s.handler.fdType[fd]? = some .stderr)
  count : ∀ (id : ℕ) (p : ChildProcess), s.objs[id]? = some p → p.started →
    ∃ n, s.handler.numFdForId[id]? = some n ∧
      n.toNat = Set.ncard {fd : ℤ | s.handler.idForFd[fd]? = some id} ∧ n.toNat ≤ 2

/-- What the event `e` of a child's descriptor does in `s`. -/
structure Attributed (s : Sys) (e : Event) (batch : List Event) (c : EventCalls) (s' : Sys)
    (id : ℕ) (p : ChildProcess) (type : FDType) : Prop where
  lookup : s.handler.idForFd[e.fd]? = some id
  obj : s.handler.objForId[id]? = some (some id) ∧ s.objs[id]? = some p
  stream : s.handler.fdType[e.fd]? = some type ∧
    (type = .stdout ∧ e.fd = p.stdout.1 ∨ type = .stderr ∧ e.fd = p.stderr.1)
  output : s'.output = s.output ∨ ∃ text, s'.output = s.output ++ [⟨p.name, type.level, text⟩]
  hangup : e.epollin = false → ∃ n, s.handler.numFdForId[id]? = some n ∧ 1 ≤ n.toNat ∧
    (c.epollDel = true → s'.handler.numFdForId[id]? = some (n - 1) ∧ (n - 1).toNat + 1 = n.toNat)
  noThrow : c.epollDel = true → s'.pc = .handling batch

theorem mem_of_getElem? {κ ν : Type} [Ord κ] [Std.TransOrd κ] {m : Map κ ν} {k : κ} {v : ν}
    (h : m[k]? = some v) : k ∈ m := by
  rw [Std.ExtTreeMap.mem_iff_isSome_getElem?, h]
  rfl

/-- The descriptors of a process are those of its two that are in the table. -/
theorem idForFd_iff (hf : Fds s) {id : ℕ} {name : Text} {out err : ℤ}
    (hs : streamsAt s.objs id = some (name, out, err)) (fd : ℤ) :
    s.handler.idForFd[fd]? = some id ↔ (fd = out ∨ fd = err) ∧ fd ∈ s.handler.idForFd := by
  constructor
  · intro h
    obtain ⟨name', out', err', hs', hfd⟩ := hf.stream fd id h
    have he := hs.symm.trans hs'
    simp only [Option.some.injEq, Prod.mk.injEq] at he
    obtain ⟨rfl, rfl, rfl⟩ := he
    exact ⟨hfd.imp And.left And.left, mem_of_getElem? h⟩
  · rintro ⟨hfd, hm⟩
    obtain ⟨id', h'⟩ := Option.isSome_iff_exists.mp (Std.ExtTreeMap.mem_iff_isSome_getElem?.mp hm)
    obtain ⟨name', out', err', hs', hfd'⟩ := hf.stream fd id' h'
    by_cases he : id = id'
    · rw [he]
      exact h'
    · obtain ⟨h1, h2, h3, h4⟩ := hf.distinct id id' _ _ hs hs' he
      rcases hfd with rfl | rfl
      · rcases hfd' with ⟨h, -⟩ | ⟨h, -⟩
        · exact absurd h h1
        · exact absurd h h2
      · rcases hfd' with ⟨h, -⟩ | ⟨h, -⟩
        · exact absurd h h3
        · exact absurd h h4

theorem ncard_fds (hf : Fds s) {id : ℕ} {name : Text} {out err : ℤ}
    (hs : streamsAt s.objs id = some (name, out, err)) :
    Set.ncard {fd : ℤ | s.handler.idForFd[fd]? = some id} = listed s.handler.idForFd out err := by
  obtain ⟨-, -, -, hne⟩ := hf.opened id name out err hs
  have hnd : ([out, err].filter fun fd => decide (fd ∈ s.handler.idForFd)).Nodup :=
    (List.nodup_cons.mpr ⟨by simpa using hne, List.nodup_singleton _⟩).filter _
  have hset : {fd : ℤ | s.handler.idForFd[fd]? = some id} =
      ↑([out, err].filter fun fd => decide (fd ∈ s.handler.idForFd)).toFinset := by
    ext fd
    simp [idForFd_iff hf hs]
  rw [hset, Set.ncard_coe_finset, List.toFinset_card_of_nodup hnd, listed, List.countP_eq_length_filter]

theorem listed_le_two (m : Map ℤ ℕ) (out err : ℤ) : listed m out err ≤ 2 :=
  List.countP_le_length

/-- A descriptor in the table is one of the two of its process, with its type. -/
theorem stream_of_listed (hf : Fds s) {fd : ℤ} {id : ℕ} (hid : s.handler.idForFd[fd]? = some id) :
    ∃ p type, s.objs[id]? = some p ∧ s.handler.fdType[fd]? = some type ∧
      (type = .stdout ∧ fd = p.stdout.1 ∨ type = .stderr ∧ fd = p.stderr.1) := by
  obtain ⟨name, out, err, hst, hor⟩ := hf.stream fd id hid
  obtain ⟨p, hp, -, he⟩ := streamsAt_eq_some.mp hst
  simp only [Prod.mk.injEq] at he
  obtain ⟨rfl, rfl, rfl⟩ := he
  rcases hor with ⟨h1, h2⟩ | ⟨h1, h2⟩
  · exact ⟨p, _, hp, h2, Or.inl ⟨rfl, h1⟩⟩
  · exact ⟨p, _, hp, h2, Or.inr ⟨rfl, h1⟩⟩

/-- The counter of the process counts it, so it can be taken down by one. -/
theorem num_of_listed (hf : Fds s) {fd : ℤ} {id : ℕ} (hid : s.handler.idForFd[fd]? = some id) :
    ∃ n, s.handler.numFdForId[id]? = some n ∧ 1 ≤ n.toNat ∧ (n - 1).toNat + 1 = n.toNat := by
  obtain ⟨name, out, err, hst, hor⟩ := hf.stream fd id hid
  obtain ⟨n, hn, hcount⟩ := hf.num id name out err hst
  obtain ⟨-, -, -, hne⟩ := hf.opened id name out err hst
  have herase := listed_erase hne (mem_of_getElem? hid) (hor.imp And.left And.left)
  have hpos : 1 ≤ n.toNat := by omega
  have h1 : (1 : UInt32) ≤ n := by
    rw [UInt32.le_iff_toNat_le]
    simpa using hpos
  refine ⟨n, hn, hpos, ?_⟩
  rw [UInt32.toNat_sub_of_le _ _ h1]
  simp only [UInt32.toNat_one]
  omega

/-- **An event of a child's descriptor** finds the program it belongs to. -/
theorem event_attributed (hi : Ids base s) (hf : Fds s) {e : Event} {batch : List Event} {c : EventCalls}
    (hpc : s.pc = .handling (e :: batch)) (hfd : e.fd ≠ s.handler.signalFd)
    (hs : step H s (.event c) = some s') :
    ∃ id p type, Attributed s e batch c s' id p type := by
  have hmem : e ∈ s.pc.batch := by simp [hpc, Pc.batch]
  obtain ⟨id, hid⟩ := hf.of_batch hmem hfd
  obtain ⟨p, type, hp, htype⟩ := stream_of_listed hf hid
  obtain ⟨n, hn, hpos, hdec⟩ := num_of_listed hf hid
  have hobj : s.handler.objForId[id]? = some (some id) := by
    rw [hi.objForId, if_pos (hi.lt_of_get hp)]
  have hmk : ∀ {t : Sys}, (t.output = s.output ∨ ∃ text, t.output = s.output ++ [⟨p.name, type.level, text⟩]) →
      (e.epollin = false → c.epollDel = true → t.handler.numFdForId[id]? = some (n - 1)) →
      (c.epollDel = true → t.pc = .handling batch) → ∃ id p type, Attributed s e batch c t id p type :=
    fun h1 h2 h3 => ⟨id, p, type, hid, ⟨hobj, hp⟩, htype, h1,
      fun hin => ⟨n, hn, hpos, fun hdel => ⟨h2 hin hdel, hdec⟩⟩, h3⟩
  cases step_effect hi hf hs with
  | signalled hpc' hfd' =>
    rw [hpc] at hpc'
    cases hpc'
    exact absurd hfd' hfd
  | output hpc' _ hin _ hid' hp' htype' hlines =>
    rw [hpc] at hpc'
    cases hpc'
    rw [hid, Option.some.injEq] at hid'
    subst hid'
    rw [hp, Option.some.injEq] at hp'
    subst hp'
    rw [htype.1, Option.some.injEq] at htype'
    subst htype'
    refine hmk ?_ (fun h => by rw [hin] at h; cases h) fun _ => rfl
    rcases hlines with rfl | ⟨text, rfl⟩
    · exact Or.inl (List.append_nil _)
    · exact Or.inr ⟨text, rfl⟩
  | hungUp hpc' _ _ hid' hn' =>
    rw [hpc] at hpc'
    cases hpc'
    rw [hid, Option.some.injEq] at hid'
    subst hid'
    rw [hn, Option.some.injEq] at hn'
    subst hn'
    refine hmk (Or.inl rfl) (fun _ _ => ?_) fun _ => rfl
    simp [Sys.hungUp]
  | eventFailed hpc' hfail =>
    have hdel : c.epollDel = false := (hfail.resolve_left fun h => by
      rw [hpc] at hpc'
      cases hpc'
      exact hfd h.1).2
    have hno : ¬ c.epollDel = true := by
      rw [hdel]
      exact Bool.false_ne_true
    exact hmk (Or.inl rfl) (fun _ h => absurd h hno) fun h => absurd h hno

/-- **The descriptor tables** in every state, and what they give an event. -/
theorem descriptor_tables (h : Runs H progs tr s) (hok : ∀ e ∈ tr, e.2.epollOk = true) :
    Consistent H tr s ∧
    ∀ e batch c s', s.pc = .handling (e :: batch) → e.fd ≠ s.handler.signalFd →
      step H s (.event c) = some s' → ∃ id p type, Attributed s e batch c s' id p type := by
  have hf := run_fds h hok
  have hi := run_ids h
  refine ⟨⟨fun fd => ⟨fun hm => ?_, hf.types fd⟩, fun fd => (hf.epoll fd).symm, fun fd id hid => ?_,
    fun id p hp hs => ?_⟩, fun e batch c s' hpc hfd hs => event_attributed hi hf hpc hfd hs⟩
  · obtain ⟨id, hid⟩ := Option.isSome_iff_exists.mp (Std.ExtTreeMap.mem_iff_isSome_getElem?.mp hm)
    obtain ⟨_, _, _, -, ⟨-, h⟩ | ⟨-, h⟩⟩ := hf.stream fd id hid
    · exact mem_of_getElem? h
    · exact mem_of_getElem? h
  · obtain ⟨name, out, err, hst, hor⟩ := hf.stream fd id hid
    obtain ⟨p, hp, hs, he⟩ := streamsAt_eq_some.mp hst
    simp only [Prod.mk.injEq] at he
    obtain ⟨rfl, rfl, rfl⟩ := he
    obtain ⟨t, c, hm, hfork, hout, herr⟩ := started_forked h hp hs
    exact ⟨t, c, p.stdout, p.stderr, hm, hfork, hout, herr, hor⟩
  · have hst := streamsAt_eq_some.mpr ⟨p, hp, hs, rfl⟩
    obtain ⟨n, hn, hc⟩ := hf.num id _ _ _ hst
    refine ⟨n, hn, hc.trans (ncard_fds hf hst).symm, ?_⟩
    rw [hc]
    exact listed_le_two _ _ _

/-- A program that writes a line and exits. -/
def writeLine : List Label :=
  [.setup setupOk, .notify, .start (startOk 10 100), .started, .notify, .start (startOk 20 101), .started,
    .act (.write 100 .stderr "ok\n".toList), .epollWait [⟨12, true, false⟩], .act (.exit 100 0),
    .act (.hangup 12), .reap 100 0, .reaped]

theorem descriptor_tables_writeLine : ∃ s,
    exec (step bareHost) (boot bareHost [plain 'p' "simple" [] []]) writeLine = some s ∧
      Consistent bareHost (trace (step bareHost) (boot bareHost [plain 'p' "simple" [] []]) writeLine) s := by
  obtain ⟨s, hs⟩ := Option.isSome_iff_exists.mp (show (exec (step bareHost)
    (boot bareHost [plain 'p' "simple" [] []]) writeLine).isSome = true by decide)
  exact ⟨s, hs, (descriptor_tables (Run.of_exec hs) (by decide)).1⟩

end Scinit
