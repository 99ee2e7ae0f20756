/-
# The descriptor tables stay right

`Fds` is kept by every step in which `epoll_ctl` succeeds. Four tables change
at three times: a fork opens the two descriptors of a process, its registration
adds both to the tables, and a hang-up takes one of them out again.

Key definitions: `Label.epollOk`.
Key theorems: `Fds.forked`, `Fds.hungUp`, `Fds.step`.
-/
import Scinit.Identity

namespace Scinit

variable {base : Objs} {H : Host} {s s' : Sys} {l : Label}

/-- An exception ended scinit. -/
def Pc.isThrown : Pc → Bool
  | .thrown _ => true
  | _ => false

/-- No `epoll_ctl` of a start attempt fails. -/
def Label.epollOk : Label → Bool
  | .start c => c.epollOut && c.epollErr
  | _ => true

/-! ### What a fork opens -/

namespace Kernel

theorem mem_forked_fds {k : Kernel} {c : StartCalls} (hk : k.MayStart c) {out err : ℤ × ℤ}
    (hout : c.out = some out) (herr : c.err = some err) (child : Child) {fd : ℤ} :
    fd ∈ k.fds ∨ fd = out.1 ∨ fd = err.1 → fd ∈ (k.forked c out err child).fds := by
  obtain ⟨-, -, ho1, ho2, ho12⟩ := hk.1 out hout
  obtain ⟨-, -, he1, he2, he12, hne⟩ := hk.2.1 err herr
  obtain ⟨h1, h2, h3, h4⟩ := hne out hout
  have hfds : (k.forked c out err child).fds =
      ((err.1 :: err.2 :: out.1 :: out.2 :: k.fds).erase out.2).erase err.2 := by
    unfold forked
    cases c.fork <;> rfl
  rw [hfds]
  rintro (h | rfl | rfl)
  · have hn1 : fd ≠ out.2 := fun h' => ho2 (h' ▸ h)
    have hn2 : fd ≠ err.2 := fun h' => he2 (h' ▸ h)
    rw [List.mem_erase_of_ne hn2, List.mem_erase_of_ne hn1]
    simp [h]
  · rw [List.mem_erase_of_ne (Ne.symm h3), List.mem_erase_of_ne ho12]
    simp
  · rw [List.mem_erase_of_ne he12, List.mem_erase_of_ne h2]
    simp

theorem closeWriteEnd_pipes (k : Kernel) (p : ℤ × ℤ) (b : Bool) (fd : ℤ) :
    (k.closeWriteEnd p b).pipes[fd]? =
      k.pipes[fd]?.map fun q => if p.1 = fd ∧ b = false then { q with writers := false } else q := by
  unfold closeWriteEnd
  cases b
  · by_cases h : p.1 = fd
    · simp [h]
    · simp [Std.ExtTreeMap.getElem?_modify, h]
  · simp

/-- A pipe of the kernel after a fork was there before, or is new and empty. -/
theorem forked_pipes {k : Kernel} {c : StartCalls} {out err : ℤ × ℤ} {child : Child} {fd : ℤ} {q : Pipe}
    (h : (k.forked c out err child).pipes[fd]? = some q) :
    (fd = out.1 ∨ fd = err.1) ∧ q.written = [] ∧ q.got = [] ∨
      fd ≠ out.1 ∧ fd ≠ err.1 ∧ k.pipes[fd]? = some q := by
  have hp : ∀ k' : Kernel, k'.pipes = (k.pipes.insert out.1 {}).insert err.1 {} → ∀ b : Bool,
      ((k'.closeWriteEnd out b).closeWriteEnd err b).pipes[fd]? = some q →
      (fd = out.1 ∨ fd = err.1) ∧ q.written = [] ∧ q.got = [] ∨
        fd ≠ out.1 ∧ fd ≠ err.1 ∧ k.pipes[fd]? = some q := by
    intro k' hk' b hq
    simp only [closeWriteEnd_pipes, Option.map_map, hk', Option.map_eq_some_iff,
      Function.comp_apply] at hq
    obtain ⟨q₀, hq₀, rfl⟩ := hq
    simp only [Std.ExtTreeMap.getElem?_insert, Std.LawfulEqCmp.compare_eq_iff_eq] at hq₀
    by_cases he : err.1 = fd
    · rw [if_pos he, Option.some.injEq] at hq₀
      subst hq₀
      refine Or.inl ⟨Or.inr he.symm, ?_⟩
      split_ifs <;> exact ⟨rfl, rfl⟩
    · rw [if_neg he] at hq₀
      by_cases ho : out.1 = fd
      · rw [if_pos ho, Option.some.injEq] at hq₀
        subst hq₀
        refine Or.inl ⟨Or.inl ho.symm, ?_⟩
        split_ifs <;> exact ⟨rfl, rfl⟩
      · rw [if_neg ho] at hq₀
        refine Or.inr ⟨Ne.symm ho, Ne.symm he, ?_⟩
        simp [he, ho, hq₀]
  unfold forked at h
  cases hf : c.fork with
  | none =>
    rw [hf] at h
    exact hp ((k.openPair out).openPair err) rfl false h
  | some pid =>
    rw [hf] at h
    exact hp (((k.openPair out).openPair err).addChild pid child) rfl true h

end Kernel

/-! ### A descriptor that is not open -/

/-- In the loop the signals have an open descriptor. -/
theorem Fds.signalFd_open (hf : Fds s) (hpc : s.pc.inLoop = true) : s.handler.signalFd ∈ s.kernel.fds := by
  rcases hf.signalFd with h | h | h
  · rw [h] at hpc
    cases hpc
  · rw [Pc.inLoop, h, Bool.not_true, Bool.and_false] at hpc
    cases hpc
  · exact h

/-- A descriptor that is not open is in no table and in no epoll set. -/
theorem Fds.not_listed (hf : Fds s) (hpc : s.pc.inLoop = true) {fd : ℤ} (hfd : fd ∉ s.kernel.fds) :
    fd ≠ s.handler.signalFd ∧ fd ∉ s.handler.idForFd ∧ fd ∉ s.kernel.epoll := by
  have hsig : fd ≠ s.handler.signalFd := fun h => hfd (h ▸ hf.signalFd_open hpc)
  have hid : fd ∉ s.handler.idForFd := fun h => hfd (hf.mem_fds h)
  exact ⟨hsig, hid, fun h => hid ((hf.epoll fd).mp ⟨h, hsig⟩)⟩

/-- It has no pipe. -/
theorem Fds.pipes_none (hf : Fds s) {fd : ℤ} (hfd : fd ∉ s.kernel.fds) : s.kernel.pipes[fd]? = none := by
  cases h : s.kernel.pipes[fd]? with
  | none => rfl
  | some q => exact absurd (hf.pipes fd q h) hfd

/-- No process has it. -/
theorem Fds.streams_ne (hf : Fds s) {fd : ℤ} (hfd : fd ∉ s.kernel.fds) {r : Ref} {t : Text × ℤ × ℤ}
    (ht : streamsAt s.objs r = some t) : t.2.1 ≠ fd ∧ t.2.2 ≠ fd := by
  obtain ⟨-, hout, herr, -⟩ := hf.opened r t.1 t.2.1 t.2.2 ht
  exact ⟨fun h => hfd (h ▸ hout), fun h => hfd (h ▸ herr)⟩

/-- Nor two of them. -/
theorem Fds.streams_apart (hf : Fds s) {out err : ℤ} (hout : out ∉ s.kernel.fds) (herr : err ∉ s.kernel.fds)
    {r : Ref} {t : Text × ℤ × ℤ} (ht : streamsAt s.objs r = some t) :
    t.2.1 ≠ out ∧ t.2.1 ≠ err ∧ t.2.2 ≠ out ∧ t.2.2 ≠ err := by
  obtain ⟨h1, h2⟩ := hf.streams_ne hout ht
  obtain ⟨h3, h4⟩ := hf.streams_ne herr ht
  exact ⟨h1, h3, h2, h4⟩

/-! ### The process that forks -/

/-- A ready process has no descriptors. -/
theorem streamsAt_of_ready {objs : Objs} {ref : Ref} {p : ChildProcess} (hp : objs[ref]? = some p)
    (hr : p.state = .ready) : streamsAt objs ref = none := by
  cases h : streamsAt objs ref with
  | none => rfl
  | some t =>
    obtain ⟨q, hq, hst, -⟩ := streamsAt_eq_some.mp h
    rw [hp, Option.some.injEq] at hq
    subst hq
    exact absurd hr hst.2

/-- The process that forks has its two descriptors afterwards, the others have theirs. -/
theorem streamsAt_forked {objs : Objs} {ref : Ref} {p : ChildProcess} (hp : objs[ref]? = some p)
    (c : StartCalls) (out err : ℤ × ℤ) (b b' : PtyName) (r : Ref) :
    streamsAt (objs.set ref (p.forked c out err b b')) r =
      if r = ref then some (p.name, out.1, err.1) else streamsAt objs r := by
  by_cases h : r = ref
  · subst h
    rw [if_pos rfl]
    exact streamsAt_eq_some.mpr ⟨p.forked c out err b b',
      List.getElem?_set_self (List.getElem?_eq_some_iff.mp hp).1, ChildProcess.started_of_running rfl, rfl⟩
  · rw [if_neg h]
    exact streamsAt_congr (by rw [List.getElem?_set_ne (Ne.symm h)])

/-- Afterwards a process is the one that forked, or has what it had. -/
theorem streamsAt_forked_cases {objs : Objs} {ref : Ref} {p : ChildProcess} (hp : objs[ref]? = some p)
    {c : StartCalls} {out err : ℤ × ℤ} {b b' : PtyName} {r : Ref} {t : Text × ℤ × ℤ}
    (h : streamsAt (objs.set ref (p.forked c out err b b')) r = some t) :
    (r = ref ∧ t = (p.name, out.1, err.1)) ∨ (r ≠ ref ∧ streamsAt objs r = some t) := by
  rw [streamsAt_forked hp] at h
  by_cases he : r = ref
  · rw [if_pos he, Option.some.injEq] at h
    exact Or.inl ⟨he, h.symm⟩
  · rw [if_neg he] at h
    exact Or.inr ⟨he, h⟩

/-- Two descriptors that are registered are in the table, and others as before. -/
theorem listed_insert (m : Map ℤ ℕ) (out err : ℤ) (id : ℕ) :
    listed ((m.insert out id).insert err id) out err = 2 ∧
      ∀ o e, o ≠ out → o ≠ err → e ≠ out → e ≠ err →
        listed ((m.insert out id).insert err id) o e = listed m o e := by
  simp only [listed, List.countP_cons, List.countP_nil, Std.ExtTreeMap.mem_insert,
    Std.LawfulEqCmp.compare_eq_iff_eq]
  refine ⟨by simp, fun o e h1 h2 h3 h4 => ?_⟩
  simp [Ne.symm h1, Ne.symm h2, Ne.symm h3, Ne.symm h4]

/-- The fork and the registration of its two descriptors. -/
theorem Fds.forked (hw : WellFormed base) (hi : Ids base s) (hf : Fds s) {c : StartCalls} {site : Site}
    {ref : Ref} {todo : List Ref} {p : ChildProcess} (hpc : s.pc = .starting site (ref :: todo))
    (hp : s.objs[ref]? = some p) (hr : p.state = .ready) (hk : s.kernel.MayStart c) {out err : ℤ × ℤ}
    (hout : c.out = some out) (herr : c.err = some err) (b b' : PtyName) (environment : List Text) :
    Fds { (s.forked c ref p out err b b' environment).registered p.graphId out.1 err.1 with
      pc := .starting site todo } := by
  have hin : s.pc.inLoop = true := by rw [hpc]; rfl
  have hid := hi.graphId hw hp
  obtain ⟨-, -, ho1, -, -⟩ := hk.1 out hout
  obtain ⟨-, -, he1, -, -, hne⟩ := hk.2.1 err herr
  have hoe : out.1 ≠ err.1 := Ne.symm (hne out hout).1
  obtain ⟨hosig, -, honep⟩ := hf.not_listed hin ho1
  obtain ⟨hesig, -, henep⟩ := hf.not_listed hin he1
  have hopen : ∀ fd, fd ∈ s.kernel.fds ∨ fd = out.1 ∨ fd = err.1 →
      fd ∈ (s.kernel.forked c out err (childOf ref p out err environment)).fds :=
    fun fd => Kernel.mem_forked_fds hk hout herr _
  refine ⟨fun fd id h => ?_, fun fd h => ?_, fun fd => ?_, ?_,
    Or.inr (Or.inr (hopen _ (Or.inl (hf.signalFd_open hin)))),
    fun r name o e h => ?_, fun r r' t t' h h' hne' => ?_, fun r name o e h => ?_, fun fd q h => ?_,
    (fun h => by cases h), batchOk_nil _⟩
  · -- stream
    have hself : streamsAt (s.objs.set ref (p.forked c out err b b')) ref = some (p.name, out.1, err.1) := by
      rw [streamsAt_forked hp, if_pos rfl]
    simp only [Sys.registered, Sys.forked, Std.ExtTreeMap.getElem?_insert,
      Std.LawfulEqCmp.compare_eq_iff_eq] at h ⊢
    by_cases h1 : err.1 = fd
    · rw [if_pos h1, hid, Option.some.injEq] at h
      subst h
      exact ⟨_, _, _, hself, Or.inr ⟨h1.symm, by rw [if_pos h1]⟩⟩
    · rw [if_neg h1] at h ⊢
      by_cases h2 : out.1 = fd
      · rw [if_pos h2, hid, Option.some.injEq] at h
        subst h
        exact ⟨_, _, _, hself, Or.inl ⟨h2.symm, by rw [if_pos h2]⟩⟩
      · rw [if_neg h2] at h ⊢
        obtain ⟨name, o, e, hs, hfd⟩ := hf.stream fd id h
        have hne' : id ≠ ref := fun h' => by
          rw [h', streamsAt_of_ready hp hr] at hs
          cases hs
        refine ⟨name, o, e, ?_, hfd⟩
        rw [streamsAt_forked hp, if_neg hne', hs]
  · -- types
    simp only [Sys.registered, Sys.forked, Std.ExtTreeMap.mem_insert,
      Std.LawfulEqCmp.compare_eq_iff_eq] at h ⊢
    exact h.imp_right (Or.imp_right (hf.types fd))
  · -- epoll
    have hfd := hf.epoll fd
    simp only [Sys.registered, Sys.forked, Kernel.epollAdd, Kernel.forked_epoll, List.mem_cons,
      Std.ExtTreeMap.mem_insert, Std.LawfulEqCmp.compare_eq_iff_eq]
    constructor
    · rintro ⟨h | h | h, hs⟩
      · exact Or.inl h.symm
      · exact Or.inr (Or.inl h.symm)
      · exact Or.inr (Or.inr (hfd.mp ⟨h, hs⟩))
    · rintro (rfl | rfl | h)
      · exact ⟨Or.inl rfl, hesig⟩
      · exact ⟨Or.inr (Or.inl rfl), hosig⟩
      · exact ⟨Or.inr (Or.inr (hfd.mpr h).1), (hfd.mpr h).2⟩
  · -- nodup
    simp only [Sys.registered, Sys.forked, Kernel.epollAdd, Kernel.forked_epoll, List.nodup_cons,
      List.mem_cons, not_or]
    exact ⟨⟨Ne.symm hoe, henep⟩, honep, hf.nodup⟩
  · -- opened
    show name ∈ s.loggers ++ [p.name] ∧ _
    rcases streamsAt_forked_cases hp h with ⟨-, he⟩ | ⟨-, hs⟩
    · simp only [Prod.mk.injEq] at he
      obtain ⟨rfl, rfl, rfl⟩ := he
      exact ⟨by simp, hopen _ (Or.inr (Or.inl rfl)), hopen _ (Or.inr (Or.inr rfl)), hoe⟩
    · obtain ⟨h1, h2, h3, h4⟩ := hf.opened r name o e hs
      exact ⟨List.mem_append_left _ h1, hopen _ (Or.inl h2), hopen _ (Or.inl h3), h4⟩
  · -- distinct
    rcases streamsAt_forked_cases hp h with ⟨hr1, rfl⟩ | ⟨-, hs⟩
    · rcases streamsAt_forked_cases hp h' with ⟨hr2, -⟩ | ⟨-, hs'⟩
      · exact absurd (hr1.trans hr2.symm) hne'
      · obtain ⟨h1, h2, h3, h4⟩ := hf.streams_apart ho1 he1 hs'
        exact ⟨Ne.symm h1, Ne.symm h3, Ne.symm h2, Ne.symm h4⟩
    · rcases streamsAt_forked_cases hp h' with ⟨-, rfl⟩ | ⟨-, hs'⟩
      · exact hf.streams_apart ho1 he1 hs
      · exact hf.distinct r r' t t' hs hs' hne'
  · -- num
    obtain ⟨hboth, hothers⟩ := listed_insert s.handler.idForFd out.1 err.1 p.graphId
    simp only [Sys.registered, Sys.forked, Std.ExtTreeMap.getElem?_insert, Std.LawfulEqCmp.compare_eq_iff_eq]
    rcases streamsAt_forked_cases hp h with ⟨rfl, he⟩ | ⟨hne', hs⟩
    · simp only [Prod.mk.injEq] at he
      obtain ⟨rfl, rfl, rfl⟩ := he
      exact ⟨2, by rw [if_pos hid], hboth.symm⟩
    · obtain ⟨n, hn, hc⟩ := hf.num r name o e hs
      obtain ⟨h1, h2, h3, h4⟩ := hf.streams_apart ho1 he1 hs
      refine ⟨n, by rw [if_neg (fun h' => hne' (h'.symm.trans hid)), hn], ?_⟩
      rw [hc, hothers o e h1 h2 h3 h4]
  · -- pipes
    rcases Kernel.forked_pipes h with ⟨hfd, -⟩ | ⟨-, -, hq⟩
    · exact hopen fd (Or.inr hfd)
    · exact hopen fd (Or.inl (hf.pipes fd q hq))

/-- A descriptor leaves the tables and the count of its process. -/
theorem listed_erase {m : Map ℤ ℕ} {out err fd : ℤ} (hne : out ≠ err) (hm : fd ∈ m)
    (hfd : fd = out ∨ fd = err) : listed (m.erase fd) out err + 1 = listed m out err := by
  simp only [listed, List.countP_cons, List.countP_nil, Std.ExtTreeMap.mem_erase, ne_eq,
    Std.LawfulEqCmp.compare_eq_iff_eq, decide_eq_true_eq]
  rcases hfd with rfl | rfl
  · simp [hm, hne]
  · simp [hm, Ne.symm hne, Nat.add_comm]

theorem listed_erase_of_ne {m : Map ℤ ℕ} {out err fd : ℤ} (hout : fd ≠ out) (herr : fd ≠ err) :
    listed (m.erase fd) out err = listed m out err := by
  simp [listed, List.countP_cons, hout, herr]

/-- A hang-up takes the descriptor out of the tables and of epoll. -/
theorem Fds.hungUp (hf : Fds s) {e : Event} {batch : List Event} {id : ℕ} {num : UInt32}
    (hpc : s.pc = .handling (e :: batch)) (hid : s.handler.idForFd[e.fd]? = some id)
    (hnum : s.handler.numFdForId[id]? = some num) :
    Fds { s.hungUp e.fd id (num - 1) with pc := .handling batch } := by
  obtain ⟨name, out, err, hs, hfd⟩ := hf.stream e.fd id hid
  obtain ⟨-, -, -, hne⟩ := hf.opened id name out err hs
  have hmem : e.fd ∈ s.handler.idForFd := by
    rw [Std.ExtTreeMap.mem_iff_isSome_getElem?, hid]
    rfl
  have hoe : e.fd = out ∨ e.fd = err := hfd.imp And.left And.left
  have hb := hf.batch
  simp only [hpc, Pc.batch, List.map_cons, List.nodup_cons, List.mem_cons, forall_eq_or_imp] at hb
  refine ⟨fun fd id' h => ?_, fun fd h => ?_, fun fd => ?_, hf.nodup.erase _, ?_, hf.opened, hf.distinct,
    fun r name' o e' h => ?_, hf.pipes, (fun h => by cases h), hb.1.2, fun e' he' => ?_⟩
  · -- stream
    simp only [Sys.hungUp, Std.ExtTreeMap.getElem?_erase, Std.LawfulEqCmp.compare_eq_iff_eq,
      Option.ite_none_left_eq_some] at h ⊢
    obtain ⟨name', o, e', hs', hfd'⟩ := hf.stream fd id' h.2
    exact ⟨name', o, e', hs', hfd'.imp (And.imp_right fun h' => ⟨h.1, h'⟩)
      (And.imp_right fun h' => ⟨h.1, h'⟩)⟩
  · -- types
    simp only [Sys.hungUp, Std.ExtTreeMap.mem_erase] at h ⊢
    exact ⟨h.1, hf.types fd h.2⟩
  · -- epoll
    simp only [Sys.hungUp, Kernel.epollDel, hf.nodup.mem_erase_iff, Std.ExtTreeMap.mem_erase, ne_eq,
      Std.LawfulEqCmp.compare_eq_iff_eq, ← hf.epoll fd, and_assoc]
    rw [eq_comm]
  · -- signalFd
    exact Or.inr (Or.inr (hf.signalFd_open (by rw [hpc]; rfl)))
  · -- num
    obtain ⟨n, hn, hc⟩ := hf.num r name' o e' h
    simp only [Sys.hungUp, Std.ExtTreeMap.getElem?_insert, Std.LawfulEqCmp.compare_eq_iff_eq]
    by_cases hr : id = r
    · subst hr
      have he := hs.symm.trans h
      simp only [Option.some.injEq, Prod.mk.injEq] at he
      obtain ⟨rfl, rfl, rfl⟩ := he
      rw [hnum, Option.some.injEq] at hn
      subst hn
      have hl := listed_erase hne hmem hoe
      have h1 : (1 : UInt32) ≤ num := by
        rw [UInt32.le_iff_toNat_le, hc, ← hl]
        simp
      refine ⟨num - 1, if_pos rfl, ?_⟩
      rw [UInt32.toNat_sub_of_le _ _ h1, hc, ← hl]
      simp
    · obtain ⟨h1, h2, h3, h4⟩ := hf.distinct id r _ _ hs h hr
      refine ⟨n, by rw [if_neg hr, hn], ?_⟩
      rw [hc, listed_erase_of_ne]
      · rcases hoe with h' | h'
        · exact h' ▸ h1
        · exact h' ▸ h3
      · rcases hoe with h' | h'
        · exact h' ▸ h2
        · exact h' ▸ h4
  · -- batch
    obtain ⟨h1, h2⟩ := hb.2.2 e' he'
    refine ⟨?_, h2⟩
    have hne' : e'.fd ≠ e.fd := fun h => hb.1.1 (h ▸ List.mem_map.mpr ⟨e', he', rfl⟩)
    exact (List.mem_erase_of_ne hne').mpr h1

/-- After a batch was begun, what is left of it is still right. -/
theorem Fds.batch_tail (hf : Fds s) {e : Event} {batch : List Event}
    (hpc : s.pc = .handling (e :: batch)) : BatchOk s batch := by
  have hb := hf.batch
  simp only [hpc, Pc.batch, List.map_cons, List.nodup_cons, List.mem_cons, forall_eq_or_imp] at hb
  exact ⟨hb.1.2, hb.2.2⟩

/-- The places after a call of `start_programs` and after a batch hold no batch. -/
theorem afterStart_batch (site : Site) (s : Sys) :
    (afterStart site s).isSetup = false ∧ (afterStart site s).batch = [] := by
  rcases afterStart_cases site s with ⟨-, h⟩ | ⟨-, -, h⟩ | ⟨-, h⟩ <;> rw [h] <;> exact ⟨rfl, rfl⟩

theorem afterBatch_batch (s : Sys) : (afterBatch s).isSetup = false ∧ (afterBatch s).batch = [] := by
  rcases afterBatch_cases s with ⟨-, -, h⟩ | ⟨-, h⟩ | ⟨-, h⟩ <;> rw [h] <;> exact ⟨rfl, rfl⟩

/-- A notification changes no descriptor. -/
theorem streams_released (objs : Objs) (otherProcs : Map ℕ (Option Ref)) (p : ChildProcess) :
    (p.released objs otherProcs).streams = p.streams := by
  unfold ChildProcess.released
  split
  · rename_i h
    simp [ChildProcess.streams, ChildProcess.started, h.1]
  · rfl

/-- The exit of a running process neither. -/
theorem streams_exit {p : ChildProcess} (hrun : p.state = .running) (rc : ℤ) :
    (p.handleProcessEvent .exit rc).streams = p.streams := by
  simp only [ChildProcess.streams, ChildProcess.started, ChildProcess.handleProcessEvent, hrun]
  by_cases hrc : rc = 0 <;> simp [hrc]

/-- Before `setup_signal_handlers` no descriptor is registered. -/
theorem Fds.idForFd_of_setup (hf : Fds s) (hpc : s.pc = .setup) (fd : ℤ) : fd ∉ s.handler.idForFd := by
  intro h
  have hep := ((hf.epoll fd).mpr h).1
  rw [hf.unset hpc] at hep
  cases hep

/-! ### The steps -/

theorem Fds.setUp (hf : Fds s) (hpc : s.pc = .setup) (signalFd epollFd : ℤ) : Fds (s.setUp signalFd epollFd) := by
  refine ⟨hf.stream, hf.types, fun fd => ?_, ?_, Or.inr (Or.inr ?_), fun r name out err h => ?_,
    hf.distinct, hf.num, fun fd q h => ?_, (fun h => by cases h), batchOk_nil _⟩
  · simp [Sys.setUp, hf.unset hpc, hf.idForFd_of_setup hpc fd]
  · simp [Sys.setUp, hf.unset hpc]
  · simp [Sys.setUp]
  · obtain ⟨h1, h2, h3, h4⟩ := hf.opened r name out err h
    exact ⟨h1, List.mem_cons_of_mem _ (List.mem_cons_of_mem _ h2),
      List.mem_cons_of_mem _ (List.mem_cons_of_mem _ h3), h4⟩
  · exact List.mem_cons_of_mem _ (List.mem_cons_of_mem _ (hf.pipes fd q h))

theorem Fds.setupFailed (hf : Fds s) (hpc : s.pc = .setup) {fds : List ℤ} (hsub : s.kernel.fds ⊆ fds)
    (mask : List ℕ) (signalFd epollFd : ℤ) : Fds { s with
      kernel := { s.kernel with mask := mask, fds := fds }
      handler := { s.handler with signalFd := signalFd, epollFd := epollFd }
      pc := .thrown .processHandler } := by
  refine ⟨hf.stream, hf.types, fun fd => ?_, hf.nodup, Or.inr (Or.inl rfl), fun r name out err h => ?_,
    hf.distinct, hf.num, fun fd q h => hsub (hf.pipes fd q h), (fun h => by cases h), batchOk_nil _⟩
  · simp [hf.unset hpc, hf.idForFd_of_setup hpc fd]
  · obtain ⟨h1, h2, h3, h4⟩ := hf.opened r name out err h
    exact ⟨h1, hsub h2, hsub h3, h4⟩

theorem Fds.notified (hi : Ids base s) (hw : WellFormed base) (hf : Fds s) {site : Site} (hpc : s.pc = .notify site) :
    Fds { notifyAll s with pc := .starting site s.handler.allObjs } := by
  refine hf.congr (fun r => streamsAt_congr ?_) rfl rfl rfl rfl rfl (List.Subset.refl _)
    (List.Subset.refl _) hf.pipes (Or.inr ⟨by rw [hpc]; rfl, rfl⟩) (batchOk_nil s)
  show (notifyAll s).objs[r]?.map ChildProcess.streams = _
  rw [notifyAll_get (hi.sensible hw) r, Option.map_map]
  congr 1
  funext p
  simp only [Function.comp_apply]
  split
  · exact streams_released _ _ _
  · rfl

/-- An attempt that throws before the fork leaves descriptors open, which nothing lists. -/
theorem Fds.threw (hf : Fds s) {site : Site} {ref : Ref} {todo : List Ref} {p : ChildProcess} {k : Kernel} {pc : Pc}
    (hpc : s.pc = .starting site (ref :: todo)) (hp : s.objs[ref]? = some p) (hr : p.state = .ready)
    (hk : s.kernel.Opened k) (hset : pc.isSetup = false) (hb : pc.batch = []) (out err : ℤ × ℤ) (b b' : PtyName) :
    Fds { s with
      objs := s.objs.set ref (p.withStdio out err b b')
      loggers := s.loggers ++ [p.name]
      kernel := k
      pc := pc } := by
  refine hf.congr (fun r => streamsAt_congr (map_getElem?_set hp ?_ r)) rfl rfl rfl rfl hk.epoll
    (List.subset_append_left _ _) hk.fds (fun fd q h => ?_) (Or.inr ⟨by rw [hpc]; rfl, hset⟩)
    (hb ▸ batchOk_nil s)
  · simp [ChildProcess.streams, ChildProcess.started, ChildProcess.withStdio, hr]
  · rcases hk.fresh fd q h with h | ⟨-, h, -⟩
    · exact hk.fds (hf.pipes fd q h)
    · exact h

theorem Fds.reaped (hi : Ids base s) (hf : Fds s) {pid : ℤ} {c : Child} (hc : s.kernel.children[pid]? = some c)
    (rc : ℤ) : Fds (s.reaped pid rc c.owner) := by
  obtain ⟨p, hp, hrun, -⟩ := hi.pidOwner pid c.owner (hi.child pid c hc).2
  refine hf.congr (fun r => streamsAt_congr ?_) rfl rfl rfl rfl rfl (List.Subset.refl _)
    (List.Subset.refl _) hf.pipes (Or.inl rfl) hf.batch
  rw [Sys.reaped_objs hp]
  exact map_getElem?_set hp (streams_exit hrun rc) r

theorem Fds.output (hf : Fds s) {e : Event} {batch : List Event} (hpc : s.pc = .handling (e :: batch)) (fd : ℤ)
    (n : ℕ) (lines : List Line) : Fds { s with
      kernel := s.kernel.readBytes fd n
      output := s.output ++ lines
      pc := .handling batch } := by
  refine hf.congr (fun _ => rfl) rfl rfl rfl rfl rfl (List.Subset.refl _) (List.Subset.refl _)
    (fun fd' q h => ?_) (Or.inr ⟨by rw [hpc]; rfl, rfl⟩) (hf.batch_tail hpc)
  simp only [Kernel.readBytes, Std.ExtTreeMap.getElem?_modify] at h
  split at h
  · rename_i he
    rw [Std.LawfulEqCmp.compare_eq_iff_eq] at he
    subst he
    obtain ⟨q', hq', -⟩ := Option.map_eq_some_iff.mp h
    exact hf.pipes _ q' hq'
  · exact hf.pipes fd' q h

/-- **The descriptor tables** stay right, unless `epoll_ctl` fails in a start
attempt: then an exception ends scinit. -/
theorem Fds.step (hw : WellFormed base) (hi : Ids base s) (hf : Fds s) (he : Effect H s l s')
    (hl : l.epollOk = true ∨ s'.pc.isThrown = false) : Fds s' := by
  cases he with
  | setup hpc => exact hf.setUp hpc _ _
  | setupFailed hpc hsub => exact hf.setupFailed hpc hsub _ _ _
  | notify hpc => exact hf.notified hi hw hpc
  | skipped hpc => exact hf.goto (by rw [hpc]; rfl) rfl (batchOk_nil s)
  | threw hpc hp hr hn hk hpc' =>
    rcases hpc' with rfl | ⟨e, rfl⟩
    · exact hf.threw hpc hp hr hk rfl rfl _ _ _ _
    · exact hf.threw hpc hp hr hk rfl rfl _ _ _ _
  | unregistered hpc hp hr hn hk h1 h2 h0 h3 =>
    rcases hl with hl | hl
    · rcases h3 with h | h <;> simp [Label.epollOk, h] at hl
    · cases hl
  | forked hpc hp hr hn hk hout herr => exact hf.forked hw hi hpc hp hr hk hout herr _ _ _
  | @started site hpc =>
    obtain ⟨hset, hb⟩ := afterStart_batch site s
    exact hf.goto (by rw [hpc]; rfl) hset (hb ▸ batchOk_nil s)
  | epollWait hpc hk =>
    refine hf.goto (by rw [hpc]; rfl) rfl ⟨hk.2.1, fun e he => ?_⟩
    obtain ⟨h1, h2, h3⟩ := hk.2.2 e he
    refine ⟨h1, h2, fun h => ?_⟩
    rw [if_pos h] at h3
    exact h3.2
  | reap hpc hc hst => exact hf.reaped hi hc _
  | reapUnknown => exact hf
  | reaped hpc =>
    have hb := hf.batch
    rw [hpc] at hb
    exact hf.goto (by rw [hpc]; rfl) rfl hb
  | @signalled c e batch n hpc hfd hn hm =>
    obtain ⟨k, q, hk, he⟩ := signalReceived_eq n
      { s with kernel := { s.kernel with pending := s.kernel.pending.erase n } }
    obtain ⟨children, rfl⟩ := hk.same
    rw [he]
    exact hf.congr (fun _ => rfl) rfl rfl rfl rfl rfl (List.Subset.refl _) (List.Subset.refl _) hf.pipes
      (Or.inr ⟨by rw [hpc]; rfl, rfl⟩) (hf.batch_tail hpc)
  | output hpc => exact hf.output hpc _ _ _
  | hungUp hpc hfd hin hid hnum => exact hf.hungUp hpc hid hnum
  | eventFailed hpc => exact hf.goto (by rw [hpc]; rfl) rfl (batchOk_nil s)
  | exitTest hpc =>
    obtain ⟨hset, hb⟩ := afterBatch_batch s
    exact hf.goto (by rw [hpc]; rfl) hset (hb ▸ batchOk_nil s)
  | act _ ha =>
    have hk := Kernel.acted ha
    refine hf.congr (fun _ => rfl) rfl rfl rfl rfl hk.epoll (List.Subset.refl _)
      (fun fd h => hk.fds ▸ h) (fun fd q h => ?_) (Or.inl rfl) hf.batch
    obtain ⟨q', hq'⟩ := hk.pipe fd q h
    exact hk.fds ▸ hf.pipes fd q' hq'
  | @signal n hend hset hn =>
    rcases deliver_cases H n s with ⟨p, hp⟩ | ⟨-, -, hp⟩
    · rw [hp]
      exact hf.congr (fun _ => rfl) rfl rfl rfl rfl rfl (List.Subset.refl _) (List.Subset.refl _) hf.pipes
        (Or.inl rfl) hf.batch
    · rw [hp]
      exact hf.goto (Pc.inLoop_of_ne hset hend) rfl (batchOk_nil s)

end Scinit
