/-
# What scinit puts out for a program

The bytes of all children go through one log. What stands in it under the name
of a program, at the level of one of its two streams, is that stream, read in
chunks of at most `BUF_SIZE`: in the order it was written, nothing in between
left out or put out twice, and no line of another program among it
(`transcript`). The stream is complete once it is taken out of the tables, which
it is not listed in again: a hang-up is handled only when all is read
(`hungUp_run`, `transcript_of_hungUp`).

Key definitions: `textsOf`, `Transcribed`, `Complete`.
Key theorems: `quiet_step`, `read_step`, `hungUp_run`, `transcript`, `transcript_of_hungUp`.
-/
import Scinit.Attempts
import Scinit.Attribution
import Scinit.Chunks
import Scinit.Output

namespace Scinit

open Transition

variable {H : Host} {progs : List Program} {tr : List (Sys × Label)} {s s' : Sys} {l : Label}
  {r r' : Ref} {p p' : ChildProcess} {type type' : FDType} {name : Text} {fd : ℤ}

/-- The descriptor scinit reads a stream of a process from. -/
def ChildProcess.readEnd (p : ChildProcess) : FDType → ℤ
  | .stdout => p.stdout.1
  | .stderr => p.stderr.1

theorem ChildProcess.readEnd_congr (hout : p'.stdout = p.stdout) (herr : p'.stderr = p.stderr) (type : FDType) :
    p'.readEnd type = p.readEnd type := by
  cases type with
  | stdout => exact congrArg Prod.fst hout
  | stderr => exact congrArg Prod.fst herr

/-- What was put out under a name at a level. -/
def textsOf (output : List Line) (name : Text) (level : Level) : List Text :=
  (output.filter fun line => line.logger = name ∧ line.level = level).map Line.text

theorem textsOf_append (output lines : List Line) (name : Text) (level : Level) :
    textsOf (output ++ lines) name level = textsOf output name level ++ textsOf lines name level := by
  rw [textsOf, List.filter_append, List.map_append]
  rfl

theorem textsOf_lines (texts : List Text) (name : Text) (level : Level) :
    textsOf (texts.map fun text => ⟨name, level, text⟩) name level = texts := by
  have hall : ∀ line ∈ texts.map fun text => (⟨name, level, text⟩ : Line),
      decide (line.logger = name ∧ line.level = level) = true := fun line hm => by
    obtain ⟨text, -, rfl⟩ := List.mem_map.mp hm
    exact decide_eq_true ⟨rfl, rfl⟩
  rw [textsOf, List.filter_eq_self.mpr hall, map_text]

theorem textsOf_eq_nil {lines : List Line} {level : Level}
    (h : ∀ line ∈ lines, ¬ (line.logger = name ∧ line.level = level)) : textsOf lines name level = [] := by
  rw [textsOf, List.map_eq_nil_iff, List.filter_eq_nil_iff]
  exact fun line hm => by simpa using h line hm

/-! ### Whose lines they are -/

theorem FDType.level_injective : Function.Injective FDType.level := by
  rintro (_ | _) (_ | _) h <;> first | rfl | cases h

/-- No two started processes have one name. -/
theorem started_distinct (h : Runs H progs tr s) (hp : s.objs[r]? = some p) (hp' : s.objs[r']? = some p')
    (hs : p.started) (hs' : p'.started) (hname : p.name = p'.name) : r = r' := by
  obtain ⟨t, c, hm, hf, -⟩ := started_forked h hp hs
  obtain ⟨t', c', hm', hf', -⟩ := started_forked h hp' hs'
  obtain ⟨_, _, _, -, ht, -⟩ := h.step_of_mem hm
  obtain ⟨_, _, _, -, ht', -⟩ := h.step_of_mem hm'
  obtain ⟨_, _, _, q, -, -, hq, -⟩ := forkOf_eq_some hf
  obtain ⟨_, _, _, q', -, -, hq', -⟩ := forkOf_eq_some hf'
  exact forks_distinct h hm hm' hf hf' hq hq' (by rw [name_eq ht h hq hp, name_eq ht' h hq' hp', hname])

theorem streamsAt_of_started (hp : s.objs[r]? = some p) (hs : p.started) :
    streamsAt s.objs r = some (p.name, p.stdout.1, p.stderr.1) := streamsAt_eq_some.mpr ⟨p, hp, hs, rfl⟩

/-- A line under the name of a process at the level of a stream was read from that stream. -/
theorem readEnd_eq_iff (h : Runs H progs tr s) (hf : Fds s) (hp : s.objs[r]? = some p) (hs : p.started)
    (hp' : s.objs[r']? = some p') (hid : s.handler.idForFd[fd]? = some r')
    (htype : s.handler.fdType[fd]? = some type') :
    fd = p.readEnd type ↔ p'.name = p.name ∧ type'.level = type.level := by
  obtain ⟨q, type'', hq, htype'', hor⟩ := stream_of_listed hf hid
  rw [hp', Option.some.injEq] at hq
  rw [htype, Option.some.injEq] at htype''
  subst hq htype''
  have hend : fd = p'.readEnd type' := by
    rcases hor with ⟨rfl, h⟩ | ⟨rfl, h⟩ <;> exact h
  constructor
  · intro hfd
    have hown : s.handler.idForFd[fd]? = some r := by
      refine (idForFd_iff hf (streamsAt_of_started hp hs) fd).mpr ⟨?_, mem_of_getElem? hid⟩
      cases type with
      | stdout => exact Or.inl hfd
      | stderr => exact Or.inr hfd
    rw [hid, Option.some.injEq] at hown
    subst hown
    rw [hp, Option.some.injEq] at hp'
    subst hp'
    have hne := (hf.opened _ _ _ _ (streamsAt_of_started hp hs)).2.2.2
    refine ⟨rfl, congrArg _ ?_⟩
    rw [hend] at hfd
    cases type <;> cases type' <;> first | rfl | exact absurd hfd hne | exact absurd hfd.symm hne
  · rintro ⟨hname, hlevel⟩
    obtain ⟨q, hq, hsq, -⟩ := streamsAt_eq_some.mp (hf.stream fd r' hid).choose_spec.choose_spec.choose_spec.1
    rw [hp', Option.some.injEq] at hq
    subst hq
    obtain rfl := started_distinct h hp' hp hsq hs hname
    rw [hp, Option.some.injEq] at hp'
    subst hp'
    rw [hend, FDType.level_injective hlevel]

/-- Every line is that of a process that was started. -/
theorem run_output_logged (h : Runs H progs tr s) : ∀ line ∈ s.output, line.logger ∈ s.loggers := by
  refine run_inv_of (I := fun s => ∀ line ∈ s.output, line.logger ∈ s.loggers) (C := fun _ _ => True)
    (fun line hm => absurd hm List.not_mem_nil) (fun s l s' _ hf hI _ he => ?_) h fun _ _ => trivial
  have hmono := loggers_mono he
  have hsame : s'.output = s.output → ∀ line ∈ s'.output, line.logger ∈ s'.loggers := fun hout line hm =>
    hmono (hI line (hout ▸ hm))
  cases he with
  | setup | setupFailed | notify | skipped | threw | unregistered | forked | started | epollWait | reap
  | reapUnknown | reaped | hungUp | eventFailed | exitTest | act => exact hsame rfl
  | @signalled c e batch n =>
    obtain ⟨k, q, -, heq⟩ := signalReceived_eq n
      { s with kernel := { s.kernel with pending := s.kernel.pending.erase n } }
    exact hsame (by rw [heq])
  | @output c e batch id p type lines hpc hsig hin hmay hid hp htype hlines =>
    obtain ⟨name, out, err, hst, -⟩ := hf.stream e.fd id hid
    obtain ⟨q, hq, -, hq'⟩ := streamsAt_eq_some.mp hst
    rw [hp, Option.some.injEq] at hq
    subst hq
    have hlog := (hf.opened id name out err hst).1
    cases hq'
    rw [List.forall_mem_append]
    refine ⟨hI, fun line hm => ?_⟩
    rcases hlines with rfl | ⟨text, rfl⟩
    · cases hm
    · rw [List.mem_singleton.mp hm]
      exact hlog
  | @signal n =>
    rcases deliver_cases H n s with ⟨p, hd⟩ | ⟨-, -, hd⟩ <;> exact hsame (by rw [hd])

/-! ### A step -/

/-- The step reads a descriptor of a child. -/
def ReadsOutput (s : Sys) (l : Label) : Prop :=
  ∃ c e batch, l = .event c ∧ s.pc = .handling (e :: batch) ∧ e.fd ≠ s.handler.signalFd ∧ e.epollin = true

/-- A step that reads nothing puts nothing out. -/
theorem quiet_step (hf : Fds s) (he : Effect H s l s') (hno : ¬ ReadsOutput s l) : s'.output = s.output ∧
    ∀ (fd : ℤ) (q : Pipe), s.kernel.pipes[fd]? = some q →
      ∃ q', s'.kernel.pipes[fd]? = some q' ∧ q'.got = q.got := by
  constructor
  · cases he with
    | setup | setupFailed | notify | skipped | threw | unregistered | forked | started | epollWait | reap
    | reapUnknown | reaped | hungUp | eventFailed | exitTest | act => rfl
    | @signalled c e batch n =>
      obtain ⟨k, q, -, heq⟩ := signalReceived_eq n
        { s with kernel := { s.kernel with pending := s.kernel.pending.erase n } }
      rw [heq]
    | output hpc hsig hin => exact absurd ⟨_, _, _, rfl, hpc, hsig, hin⟩ hno
    | @signal n => rcases deliver_cases H n s with ⟨p, hd⟩ | ⟨-, -, hd⟩ <;> rw [hd]
  · intro fd q hq
    rcases pipes_step hf he fd with ⟨hnone, -⟩ | ⟨move, hmove, hafter⟩
    · rw [hq] at hnone
      cases hnone
    · rw [hq, Option.map_some] at hafter
      refine ⟨move q, hafter, ?_⟩
      cases hmove with
      | kept hkept => exact (hkept q).2
      | wrote _ hwrote => rw [hwrote q]
      | read hl hpc hfd hsig hin => exact absurd ⟨_, _, _, hl, hpc, hfd ▸ hsig, hin⟩ hno

/-- A step that reads appends a chunk to what was got of one stream, and its text to what was put out for it. -/
theorem read_step (h : Runs H progs tr s) (hs : step H s l = some s') (ht : s'.pc.isThrown = false)
    (hr : ReadsOutput s l) : ∃ chunk fd id p type, chunk.length ≤ bufSize ∧ s.handler.idForFd[fd]? = some id ∧
      s.objs[id]? = some p ∧ s.handler.fdType[fd]? = some type ∧
      s'.output = s.output ++ (called chunk).map (fun text => ⟨p.name, type.level, text⟩) ∧
      ∀ (fd' : ℤ) (q : Pipe), s.kernel.pipes[fd']? = some q → ∃ q', s'.kernel.pipes[fd']? = some q' ∧
        q'.got = q.got ++ if fd' = fd then chunk else [] := by
  obtain ⟨c, e, batch, rfl, hpc, hsig, hin⟩ := hr
  obtain ⟨-, -, he⟩ := run_effect h hs
  obtain ⟨-, id, p, type, hid, hp, htype, hout⟩ := output_called h hpc hsig hin hs
  cases he with
  | signalled hpc' hsig' =>
    rw [hpc] at hpc'
    cases hpc'
    exact absurd hsig' hsig
  | hungUp hpc' _ hin' =>
    rw [hpc] at hpc'
    cases hpc'
    rw [hin] at hin'
    cases hin'
  | eventFailed => cases ht
  | output hpc' _ _ hmay =>
    rw [hpc] at hpc'
    cases hpc'
    refine ⟨(s.kernel.unread e.fd).take (c.nread.getD 0), e.fd, id, p, type, ?_, hid, hp, htype, hout,
      fun fd' q hq => ?_⟩
    · rw [List.length_take]
      cases hn : c.nread with
      | none => simp
      | some n => exact (min_le_left _ _).trans (hmay.2 n hn).1
    · by_cases hfd : fd' = e.fd
      · subst hfd
        refine ⟨{ q with got := q.got ++ q.unread.take (c.nread.getD 0) }, ?_, ?_⟩
        · simp only [Kernel.readBytes, Std.ExtTreeMap.getElem?_modify_self, hq, Option.map_some]
        · rw [if_pos rfl, Kernel.unread, hq]
          rfl
      · refine ⟨q, ?_, by rw [if_neg hfd, List.append_nil]⟩
        simp [Kernel.readBytes, Std.ExtTreeMap.getElem?_modify, Ne.symm hfd, hq]

/-! ### The transcript of a stream -/

/-- What was got of a stream is chunks, and what was put out for it is their texts. -/
structure Transcribed (s : Sys) (name : Text) (type : FDType) (fd : ℤ) (q : Pipe) (chunks : List Text) : Prop where
  pipe : s.kernel.pipes[fd]? = some q
  got : q.got = chunks.flatten
  short : ∀ chunk ∈ chunks, chunk.length ≤ bufSize
  texts : textsOf s.output name type.level = chunks.flatMap called

theorem transcribed_step (h : Runs H progs tr s) (hs : step H s l = some s') (ht : s'.pc.isThrown = false)
    (hp : s.objs[r]? = some p) (hst : p.started) {q : Pipe} {chunks : List Text}
    (htr : Transcribed s p.name type (p.readEnd type) q chunks) :
    ∃ q' chunks', Transcribed s' p.name type (p.readEnd type) q' chunks' := by
  obtain ⟨-, hf, he⟩ := run_effect h hs
  by_cases hr : ReadsOutput s l
  · obtain ⟨chunk, fd, id, p', type', hlen, hid, hp', htype, hout, hpipes⟩ := read_step h hs ht hr
    obtain ⟨q', hq', hgot⟩ := hpipes _ q htr.pipe
    have hiff : p.readEnd type = fd ↔ p'.name = p.name ∧ type'.level = type.level :=
      eq_comm.trans (readEnd_eq_iff h hf hp hst hp' hid htype)
    by_cases hfd : p.readEnd type = fd
    · -- the chunk is of this stream
      obtain ⟨hname, hlevel⟩ := hiff.mp hfd
      refine ⟨q', chunks ++ [chunk], hq', ?_, ?_, ?_⟩
      · rw [hgot, if_pos hfd, htr.got, List.flatten_append, List.flatten_singleton]
      · rw [List.forall_mem_append, List.forall_mem_singleton]
        exact ⟨htr.short, hlen⟩
      · rw [hout, textsOf_append, htr.texts, hname, hlevel, textsOf_lines, List.flatMap_append,
          List.flatMap_singleton]
    · refine ⟨q', chunks, hq', ?_, htr.short, ?_⟩
      · rw [hgot, if_neg hfd, List.append_nil, htr.got]
      · have hother : textsOf ((called chunk).map fun text => ⟨p'.name, type'.level, text⟩) p.name type.level = [] :=
          textsOf_eq_nil fun line hm hline => by
            obtain ⟨text, -, rfl⟩ := List.mem_map.mp hm
            exact hfd (hiff.mpr hline)
        rw [hout, textsOf_append, hother, List.append_nil, htr.texts]
  · obtain ⟨hout, hpipes⟩ := quiet_step hf he hr
    obtain ⟨q', hq', hgot⟩ := hpipes _ q htr.pipe
    exact ⟨q', chunks, hq', hgot.trans htr.got, htr.short, by rw [hout, htr.texts]⟩

/-- A fork makes a pipe for each of the two streams. -/
theorem forked_pipe (k : Kernel) (c : StartCalls) (out err : ℤ × ℤ) (child : Child) (hfd : fd = out.1 ∨ fd = err.1) :
    ∃ q, (k.forked c out err child).pipes[fd]? = some q ∧ q.got = [] := by
  have hopen : ∃ q, ((k.openPair out).openPair err).pipes[fd]? = some q ∧ q.got = [] := by
    show ∃ q, ((k.pipes.insert out.1 {}).insert err.1 {})[fd]? = some q ∧ q.got = []
    simp only [Std.ExtTreeMap.getElem?_insert, Std.LawfulEqCmp.compare_eq_iff_eq]
    by_cases he : err.1 = fd
    · exact ⟨{}, if_pos he, rfl⟩
    · rw [if_neg he, if_pos (hfd.resolve_right (Ne.symm he)).symm]
      exact ⟨{}, rfl, rfl⟩
  have hclose : ∀ (k' : Kernel) (e : ℤ × ℤ) (b : Bool), (∃ q, k'.pipes[fd]? = some q ∧ q.got = []) →
      ∃ q, (k'.closeWriteEnd e b).pipes[fd]? = some q ∧ q.got = [] := by
    rintro k' e b ⟨q, hq, hgot⟩
    rw [Kernel.closeWriteEnd_pipes, hq]
    refine ⟨_, rfl, ?_⟩
    split <;> exact hgot
  unfold Kernel.forked
  cases c.fork with
  | none => exact hclose _ _ _ (hclose _ _ _ hopen)
  | some pid => exact hclose _ _ _ (hclose _ _ _ hopen)

/-- A process that was forked just now has put out nothing. -/
theorem transcribed_forked (h : Runs H progs tr s) (hs : step H s l = some s') (ht : s'.pc.isThrown = false)
    (hp' : s'.objs[r]? = some p') (hst : p'.started) (hf : forkOf H s l = some r) :
    ∃ q, Transcribed s' p'.name type (p'.readEnd type) q [] := by
  obtain ⟨-, -, he⟩ := run_effect h hs
  obtain ⟨c, site, todo, p, out, err, b, b', environment, -, -, hp, hn, -, -, -, -, rfl⟩ :=
    forked_of_forkOf he ht hf
  rcases getElem?_set_cases hp hp' with ⟨-, rfl⟩ | ⟨hne, -⟩
  · have hfd : (p.forked c out err b b').readEnd type = out.1 ∨ (p.forked c out err b b').readEnd type = err.1 := by
      cases type with
      | stdout => exact Or.inl rfl
      | stderr => exact Or.inr rfl
    obtain ⟨q, hq, hgot⟩ := forked_pipe s.kernel c out err (childOf r p out err environment) hfd
    refine ⟨q, hq, hgot, List.forall_mem_nil _, textsOf_eq_nil fun line hm hline => hn ?_⟩
    exact hline.1 ▸ run_output_logged h line hm
  · exact absurd rfl hne

theorem run_transcribed (h : Runs H progs tr s) (ht : s.pc.isThrown = false) (hp : s.objs[r]? = some p)
    (hst : p.started) (type : FDType) : ∃ q chunks, Transcribed s p.name type (p.readEnd type) q chunks := by
  induction h generalizing p with
  | refl => exact absurd hst (boot_not_running hp).2
  | @snoc tr s s' l h hs ih =>
    obtain ⟨hi, -, he⟩ := run_effect h hs
    rcases started_of_effect (boot_wellFormed H progs) hi he hp hst with ⟨p₀, hp₀, hst₀, hout, herr, -⟩ | ⟨c, -, hf, -⟩
    · have hname := name_eq h (h.snoc hs) hp₀ hp
      have hend : p₀.readEnd type = p.readEnd type := by
        cases type with
        | stdout => exact congrArg Prod.fst hout.symm
        | stderr => exact congrArg Prod.fst herr.symm
      obtain ⟨q, chunks, htr⟩ := ih (not_thrown_of_step hs) hp₀ hst₀
      have hstep := transcribed_step h hs ht hp₀ hst₀ htr
      rwa [hname, hend] at hstep
    · obtain ⟨q, hq⟩ := transcribed_forked h hs ht hp hst hf
      exact ⟨q, [], hq⟩

/-- **The transcript of a stream**: what was put out for a started process at the
level of a stream is what the beginning of that stream comes to, chunk by chunk. -/
theorem transcript (h : Runs H progs tr s) (ht : s.pc.isThrown = false) (hp : s.objs[r]? = some p)
    (hst : p.started) (type : FDType) : ∃ (q : Pipe) (chunks : List Text),
      s.kernel.pipes[p.readEnd type]? = some q ∧ chunks.flatten <+: q.written ∧
      (∀ chunk ∈ chunks, chunk.length ≤ bufSize) ∧
      textsOf s.output p.name type.level = chunks.flatMap called ∧
      ('\x00' ∉ chunks.flatten → textsOf s.output p.name type.level = chunks.flatMap delivered) := by
  obtain ⟨q, chunks, htr⟩ := run_transcribed h ht hp hst type
  refine ⟨q, chunks, htr.pipe, htr.got ▸ fifo h htr.pipe, htr.short, htr.texts, fun hnul => ?_⟩
  rw [htr.texts]
  exact List.flatMap_congr fun chunk hm => called_eq_iff.mpr fun hc =>
    hnul (List.mem_flatten.mpr ⟨chunk, hm, hc⟩)

/-! ### A stream that has come to its end -/

/-- Nobody writes to the pipe any more, and all that was written was got. -/
def Complete (s : Sys) (fd : ℤ) : Prop :=
  ∃ q, s.kernel.pipes[fd]? = some q ∧ q.writers = false ∧ q.got = q.written

/-- Nothing outside scinit changes a pipe without writers. -/
theorem closed_act {k k' : Kernel} {a : Act} (ha : k.act a = some k') {q : Pipe} (hq : k.pipes[fd]? = some q)
    (hw : q.writers = false) : k'.pipes[fd]? = some q := by
  cases a with
  | write pid stream bytes =>
    simp only [Kernel.act] at ha
    split at ha
    · cases ha
    · rename_i c hc
      split at ha
      · cases ha
      · rename_i q₀ hq₀
        simp only [Option.ite_none_right_eq_some, Option.some.injEq] at ha
        obtain ⟨⟨-, hopen⟩, rfl⟩ := ha
        have hne : Kernel.streamOf c stream ≠ fd := fun he => by
          rw [he, hq, Option.some.injEq] at hq₀
          rw [← hq₀, hw] at hopen
          cases hopen
        simp [Std.ExtTreeMap.getElem?_insert, hne, hq]
  | exit pid status =>
    simp only [Kernel.act] at ha
    split at ha
    · cases ha
    · simp only [Option.ite_none_right_eq_some, Option.some.injEq] at ha
      obtain ⟨-, rfl⟩ := ha
      obtain ⟨p, hp⟩ := Kernel.enqueue_eq { k with children := k.children.insert pid _ } sigChld
      rw [hp]
      exact hq
  | hangup fd' =>
    simp only [Kernel.act] at ha
    split at ha
    · cases ha
    · rename_i q₀ hq₀
      cases ha
      by_cases hfd : fd' = fd
      · subst hfd
        rw [hq, Option.some.injEq] at hq₀
        rw [Std.ExtTreeMap.getElem?_insert_self, ← hq₀, ← hw]
      · simp [Std.ExtTreeMap.getElem?_insert, hfd, hq]

/-- A pipe without writers stays so, and nothing is written to it. -/
theorem closed_step (hf : Fds s) (he : Effect H s l s') {q : Pipe} (hq : s.kernel.pipes[fd]? = some q)
    (hw : q.writers = false) : ∃ q' more, s'.kernel.pipes[fd]? = some q' ∧ q'.writers = false ∧
      q'.written = q.written ∧ q'.got = q.got ++ more := by
  have hfd := hf.pipes fd q hq
  have hsame : s'.kernel.pipes[fd]? = s.kernel.pipes[fd]? → ∃ q' more, s'.kernel.pipes[fd]? = some q' ∧
      q'.writers = false ∧ q'.written = q.written ∧ q'.got = q.got ++ more := fun h =>
    ⟨q, [], h.trans hq, hw, rfl, (List.append_nil _).symm⟩
  have hforked : ∀ {c : StartCalls} {out err : ℤ × ℤ} (child : Child), s.kernel.MayStart c → c.out = some out →
      c.err = some err → (s.kernel.forked c out err child).pipes[fd]? = s.kernel.pipes[fd]? :=
    fun child hk hout herr => Kernel.forked_pipes_of_ne (fun h => (hk.1 _ hout).2.2.1 (h ▸ hfd))
      fun h => (hk.2.1 _ herr).2.2.1 (h ▸ hfd)
  cases he with
  | setup | setupFailed | notify | skipped | started | epollWait | reap | reapUnknown | reaped | hungUp
  | eventFailed | exitTest => exact hsame rfl
  | threw _ _ _ _ hopen => exact hsame (hopen.pipes fd hfd)
  | unregistered _ _ _ _ hk hout herr => exact hsame (hforked _ hk hout herr)
  | forked _ _ _ _ hk hout herr => exact hsame (hforked _ hk hout herr)
  | @signalled c e batch n =>
    obtain ⟨k, p, hk, heq⟩ := signalReceived_eq n
      { s with kernel := { s.kernel with pending := s.kernel.pending.erase n } }
    obtain ⟨children, rfl⟩ := hk.same
    exact hsame (by rw [heq])
  | @output c e batch =>
    by_cases he : e.fd = fd
    · subst he
      refine ⟨{ q with got := q.got ++ q.unread.take (c.nread.getD 0) }, _, ?_, hw, rfl, rfl⟩
      simp only [Kernel.readBytes, Std.ExtTreeMap.getElem?_modify_self, hq, Option.map_some]
    · exact hsame (by simp [Kernel.readBytes, Std.ExtTreeMap.getElem?_modify, he])
  | act _ ha => exact hsame ((closed_act ha hq hw).trans hq.symm)
  | signal => exact hsame (by rw [deliver_pipes])

/-- A stream that is complete stays so. -/
theorem Complete.step (h : Runs H progs tr s) (hs : step H s l = some s') (hc : Complete s fd) : Complete s' fd := by
  obtain ⟨-, hf, he⟩ := run_effect h hs
  obtain ⟨q, hq, hw, hall⟩ := hc
  obtain ⟨q', more, hq', hw', hwritten, hgot⟩ := closed_step hf he hq hw
  have hpre := fifo (h.snoc hs) hq'
  rw [hgot, hwritten, hall] at hpre
  have hnil : more = [] := by
    have hlen := hpre.length_le
    rw [List.length_append] at hlen
    exact List.length_eq_zero_iff.mp (by omega)
  exact ⟨q', hq', hw', by rw [hgot, hwritten, hall, hnil, List.append_nil]⟩

/-- What is in a batch was in it before the step, or has just been reported. -/
theorem batch_of_effect (he : Effect H s l s') : (∀ e ∈ s'.pc.batch, e ∈ s.pc.batch) ∨
    s.kernel.MayReportAll s.handler.signalFd s'.pc.batch ∧ s'.kernel = s.kernel := by
  have hnil : s'.pc.batch = [] → (∀ e ∈ s'.pc.batch, e ∈ s.pc.batch) ∨
      s.kernel.MayReportAll s.handler.signalFd s'.pc.batch ∧ s'.kernel = s.kernel := fun h =>
    Or.inl fun e hm => absurd hm (h ▸ List.not_mem_nil)
  cases he with
  | setup | setupFailed | notify | skipped | unregistered | forked | eventFailed => exact hnil rfl
  | threw _ _ _ _ _ hpc' =>
    rcases hpc' with rfl | ⟨e, rfl⟩ <;> exact hnil rfl
  | started => exact hnil (afterStart_batch _ _).2
  | exitTest => exact hnil (afterBatch_batch _).2
  | epollWait hpc hk => exact Or.inr ⟨hk, rfl⟩
  | reap | reapUnknown | act => exact Or.inl fun _ hm => hm
  | reaped hpc =>
    rw [hpc]
    exact Or.inl fun _ hm => hm
  | signalled hpc | output hpc | hungUp hpc =>
    rw [hpc]
    exact Or.inl fun _ hm => List.mem_cons_of_mem _ hm
  | @signal n =>
    rcases deliver_cases H n s with ⟨p, hd⟩ | ⟨-, -, hd⟩
    · rw [hd]
      exact Or.inl fun _ hm => hm
    · exact hnil (by rw [hd]; rfl)

/-- A descriptor that is reported as hung up and not as readable is complete. -/
theorem complete_of_report (h : Runs H progs tr s) {e : Event} (hk : s.kernel.MayReport s.handler.signalFd e)
    (hin : e.epollin = false) : Complete s e.fd := by
  obtain ⟨-, hflag, hrep⟩ := hk
  have hhup := hflag.resolve_left (by rw [hin]; decide)
  split at hrep
  · rw [hrep.2] at hhup
    cases hhup
  · obtain ⟨q, hq, hw⟩ := Option.map_eq_some_iff.mp (hrep.2.mp hhup)
    have hread : s.kernel.unread e.fd = [] := by
      by_contra hne
      rw [hrep.1.mpr hne] at hin
      cases hin
    exact ⟨q, hq, hw, (unread_eq_nil_iff h).mp hread q hq⟩

theorem run_batch_complete (h : Runs H progs tr s) {e : Event} (hm : e ∈ s.pc.batch) (hin : e.epollin = false) :
    Complete s e.fd := by
  induction h with
  | refl =>
    rw [boot_pc] at hm
    cases hm
  | @snoc tr s s' l h hs ih =>
    obtain ⟨-, -, he⟩ := run_effect h hs
    refine Complete.step h hs ?_
    rcases batch_of_effect he with hold | ⟨hk, -⟩
    · exact ih (hold e hm)
    · exact complete_of_report h (hk.2.2 e hm) hin

/-- A descriptor leaves the tables when it has hung up. -/
theorem unlisted_of_effect (he : Effect H s l s') (hin : fd ∈ s.handler.idForFd) (hno : fd ∉ s'.handler.idForFd) :
    ∃ e ∈ s.pc.batch, e.fd = fd ∧ e.epollin = false := by
  have hsame : s'.handler.idForFd = s.handler.idForFd → ∃ e ∈ s.pc.batch, e.fd = fd ∧ e.epollin = false := fun h =>
    absurd hin (h ▸ hno)
  cases he with
  | setup | setupFailed | notify | skipped | threw | unregistered | started | epollWait | reap | reapUnknown | reaped
  | output | eventFailed | exitTest | act => exact hsame rfl
  | @forked c site ref todo p out err =>
    refine absurd ?_ hno
    show fd ∈ (s.handler.idForFd.insert out.1 p.graphId).insert err.1 p.graphId
    simp [hin]
  | @signalled c e batch n =>
    obtain ⟨k, p, -, heq⟩ := signalReceived_eq n
      { s with kernel := { s.kernel with pending := s.kernel.pending.erase n } }
    exact hsame (by rw [heq])
  | @hungUp c e batch id num hpc hsig hfalse =>
    refine ⟨e, by rw [hpc]; exact List.mem_cons_self, ?_, hfalse⟩
    by_contra hne
    refine hno ?_
    show fd ∈ s.handler.idForFd.erase e.fd
    simpa [Std.ExtTreeMap.mem_erase, hne] using hin
  | signal => exact hsame (by rw [deliver_handler])

/-- The two descriptors of a process are listed when it is forked. -/
theorem listed_of_forked (he : Effect H s l s') (ht : s'.pc.isThrown = false) (hp' : s'.objs[r]? = some p')
    (hf : forkOf H s l = some r) : p'.readEnd type ∈ s'.handler.idForFd := by
  obtain ⟨c, site, todo, p, out, err, b, b', environment, -, -, hp, -, -, -, -, -, rfl⟩ := forked_of_forkOf he ht hf
  rcases getElem?_set_cases hp hp' with ⟨-, rfl⟩ | ⟨hne, -⟩
  · show _ ∈ (s.handler.idForFd.insert out.1 p.graphId).insert err.1 p.graphId
    cases type with
    | stdout =>
      show out.1 ∈ _
      simp
    | stderr =>
      show err.1 ∈ _
      simp
  · exact absurd rfl hne

/-- A stream that has left the tables is complete. -/
theorem run_complete (h : Runs H progs tr s) (ht : s.pc.isThrown = false) (hp : s.objs[r]? = some p)
    (hst : p.started) (hno : p.readEnd type ∉ s.handler.idForFd) : Complete s (p.readEnd type) := by
  induction h generalizing p with
  | refl => exact absurd hst (boot_not_running hp).2
  | @snoc tr s s' l h hs ih =>
    obtain ⟨hi, -, he⟩ := run_effect h hs
    rcases started_of_effect (boot_wellFormed H progs) hi he hp hst with ⟨p₀, hp₀, hst₀, hout, herr, -⟩ | ⟨c, -, hf, -⟩
    · have hend := ChildProcess.readEnd_congr hout herr type
      rw [hend] at hno ⊢
      refine Complete.step h hs ?_
      by_cases hin : p₀.readEnd type ∈ s.handler.idForFd
      · obtain ⟨e, hm, hfd, hfalse⟩ := unlisted_of_effect he hin hno
        exact hfd ▸ run_batch_complete h hm hfalse
      · exact ih (not_thrown_of_step hs) hp₀ hst₀ hin
    · exact absurd (listed_of_forked he ht hp hf) hno

/-- A descriptor that is open is not listed again. -/
theorem unlisted_step (he : Effect H s l s') (hfd : fd ∈ s.kernel.fds) (hno : fd ∉ s.handler.idForFd) :
    fd ∉ s'.handler.idForFd := by
  cases he with
  | setup | setupFailed | notify | skipped | threw | unregistered | started | epollWait | reap | reapUnknown | reaped
  | output | eventFailed | exitTest | act => exact hno
  | @forked c site ref todo p out err _ _ _ _ _ _ _ hk hout herr =>
    have ho : out.1 ≠ fd := fun h => (hk.1 out hout).2.2.1 (h ▸ hfd)
    have he : err.1 ≠ fd := fun h => (hk.2.1 err herr).2.2.1 (h ▸ hfd)
    show fd ∉ (s.handler.idForFd.insert out.1 p.graphId).insert err.1 p.graphId
    simpa [ho, he] using hno
  | @signalled c e batch n =>
    obtain ⟨k, p, -, heq⟩ := signalReceived_eq n
      { s with kernel := { s.kernel with pending := s.kernel.pending.erase n } }
    rw [heq]
    exact hno
  | @hungUp c e batch =>
    show fd ∉ s.handler.idForFd.erase e.fd
    rw [Std.ExtTreeMap.mem_erase]
    exact fun h => hno h.2
  | signal => rwa [deliver_handler]

/-- A process that was started keeps its name and its descriptors. -/
theorem started_step (h : Runs H progs tr s) (hs : step H s l = some s') (hp : s.objs[r]? = some p)
    (hst : p.started) : ∃ p', s'.objs[r]? = some p' ∧ p'.started ∧ p'.name = p.name ∧
      ∀ type, p'.readEnd type = p.readEnd type := by
  obtain ⟨hi, -, he⟩ := run_effect h hs
  obtain ⟨p', hp', hmove⟩ := step_moves h hs hp
  have hst' : p'.started := by
    obtain ⟨hb, hr⟩ := hst
    unfold ChildProcess.started
    generalize p.state = a at hmove hb hr
    generalize p'.state = b at hmove
    rcases hmove with rfl | hm
    · exact ⟨hb, hr⟩
    · cases hm with
      | released => exact absurd rfl hb
      | forked => exact absurd rfl hr
      | done | crashed => simp
  refine ⟨p', hp', hst', (name_eq h (h.snoc hs) hp hp').symm, fun type => ?_⟩
  rcases started_of_effect (boot_wellFormed H progs) hi he hp' hst' with ⟨q, hq, -, hout, herr, -⟩ | ⟨c, -, hf, -⟩
  · obtain rfl := Option.some.inj (hq.symm.trans hp)
    exact ChildProcess.readEnd_congr hout herr type
  · -- a process that is forked was ready
    obtain ⟨-, -, -, q, -, -, hq, hr, -⟩ := forkOf_eq_some hf
    obtain rfl := Option.some.inj (hq.symm.trans hp)
    exact absurd hr hst.2

/-- A stream that has left the tables stays out of them, and nothing is written to it. -/
theorem hungUp_run (h : Runs H progs tr s) (hp : s.objs[r]? = some p) (hst : p.started)
    (hno : p.readEnd type ∉ s.handler.idForFd) {q : Pipe} (hq : s.kernel.pipes[p.readEnd type]? = some q)
    {post : List (Sys × Label)} {u : Sys} (hrun : Run (step H) s post u) (ht : u.pc.isThrown = false) :
    ∃ p' q', u.objs[r]? = some p' ∧ p'.started ∧ p'.name = p.name ∧ p'.readEnd type = p.readEnd type ∧
      p.readEnd type ∉ u.handler.idForFd ∧ u.kernel.pipes[p.readEnd type]? = some q' ∧ q'.written = q.written := by
  induction hrun with
  | refl => exact ⟨p, q, hp, hst, rfl, rfl, hno, hq, rfl⟩
  | @snoc post u u' l hrun hs ih =>
    obtain ⟨p₁, q₁, hp₁, hst₁, hname, hend, hno₁, hq₁, hwritten⟩ := ih (not_thrown_of_step hs)
    have hu := h.trans hrun
    obtain ⟨-, hf, he⟩ := run_effect hu hs
    obtain ⟨p₂, hp₂, hst₂, hname₂, hend₂⟩ := started_step hu hs hp₁ hst₁
    obtain ⟨q', hq', hw, -⟩ := run_complete hu (not_thrown_of_step hs) hp₁ hst₁ (hend ▸ hno₁)
    obtain rfl : q' = q₁ := Option.some.inj (hq'.symm.trans (hend ▸ hq₁))
    obtain ⟨q₂, -, hq₂, -, hwritten₂, -⟩ := closed_step hf he hq₁ hw
    exact ⟨p₂, q₂, hp₂, hst₂, hname₂.trans hname, (hend₂ type).trans hend,
      unlisted_step he (hf.pipes _ _ hq₁) hno₁, hq₂, hwritten₂.trans hwritten⟩

/-- **No output is lost by a hang-up**: once scinit has stopped listening to a stream
of a started process, all that was written to it has been put out, and nothing
more is written; and it does not listen to it again. -/
theorem transcript_of_hungUp (h : Runs H progs tr s) (ht : s.pc.isThrown = false) (hp : s.objs[r]? = some p)
    (hst : p.started) (type : FDType) (hno : s.handler.idForFd[p.readEnd type]? = none) :
    ∃ q : Pipe, s.kernel.pipes[p.readEnd type]? = some q ∧
      ∀ (post : List (Sys × Label)) (u : Sys), Run (step H) s post u → u.pc.isThrown = false →
        u.handler.idForFd[p.readEnd type]? = none ∧
        ∃ (q' : Pipe) (chunks : List Text), u.kernel.pipes[p.readEnd type]? = some q' ∧ q'.writers = false ∧
          q'.written = q.written ∧ chunks.flatten = q.written ∧
          textsOf u.output p.name type.level = chunks.flatMap called := by
  have hnot : p.readEnd type ∉ s.handler.idForFd := by
    rw [Std.ExtTreeMap.mem_iff_isSome_getElem?, hno]
    exact Bool.false_ne_true
  obtain ⟨q, hq, -⟩ := run_complete h ht hp hst hnot
  refine ⟨q, hq, fun post u hrun htu => ?_⟩
  obtain ⟨p', q', hp', hst', hname, hend, hno', hq', hwritten⟩ := hungUp_run h hp hst hnot hq hrun htu
  refine ⟨Std.ExtTreeMap.getElem?_eq_none hno', q', ?_⟩
  have hu := h.trans hrun
  obtain ⟨q₁, chunks, htr⟩ := run_transcribed hu htu hp' hst' type
  obtain ⟨q₂, hq₂, hw, hall⟩ := run_complete hu htu hp' hst' (hend ▸ hno')
  have hpipe := htr.pipe
  rw [hend] at hpipe hq₂
  obtain rfl := Option.some.inj (hpipe.symm.trans hq')
  obtain rfl := Option.some.inj (hq₂.symm.trans hq')
  exact ⟨chunks, hq', hw, hwritten, by rw [← htr.got, hall, hwritten], hname ▸ htr.texts⟩

/-- A program writes a line, which is read; it exits, and its stdout hangs up. -/
def lineThenEnd : List Label :=
  [.setup setupOk, .notify, .start (startOk 10 100), .started, .notify, .start (startOk 20 101), .started,
    .act (.write 100 .stdout ['x', '\n']), .epollWait [⟨10, true, false⟩], .reaped,
    .event { signal := none, nread := some 2, epollDel := true }, .exitTest, .notify, .start (startOk 20 101), .started,
    .notify, .start (startOk 20 101), .started, .act (.exit 100 0), .act (.hangup 10), .epollWait [⟨10, false, true⟩],
    .reaped, .event { signal := none, nread := none, epollDel := true }]

theorem lineThenEnd_possible :
    (exec (step bareHost) (boot bareHost [plain 'p' "simple" [] []]) lineThenEnd).isSome = true := by decide

/-- The process in it. -/
theorem lineThenEnd_started : ∃ p, ((exec (step bareHost) (boot bareHost [plain 'p' "simple" [] []]) lineThenEnd).get
    lineThenEnd_possible).objs[(0 : ℕ)]? = some p ∧ p.started ∧ p.name = ['p'] ∧ p.readEnd .stdout = 10 := by
  have hany : (((exec (step bareHost) (boot bareHost [plain 'p' "simple" [] []]) lineThenEnd).get
      lineThenEnd_possible).objs[(0 : ℕ)]?.any fun p =>
        p.started ∧ p.name = ['p'] ∧ p.readEnd .stdout = 10) = true := by decide
  obtain ⟨p, hp, hall⟩ := (Option.any_eq_true _ _).mp hany
  exact ⟨p, hp, of_decide_eq_true hall⟩

theorem transcript_lineThenEnd : ∃ chunks : List Text, (∀ chunk ∈ chunks, chunk.length ≤ bufSize) ∧
    textsOf ((exec (step bareHost) (boot bareHost [plain 'p' "simple" [] []]) lineThenEnd).get
      lineThenEnd_possible).output ['p'] .info = chunks.flatMap called := by
  obtain ⟨p, hp, hst, hname, -⟩ := lineThenEnd_started
  obtain ⟨q, chunks, -, -, hlen, htexts, -⟩ :=
    transcript (Run.of_isSome lineThenEnd_possible) (by decide) hp hst .stdout
  exact ⟨chunks, hlen, hname ▸ htexts⟩

theorem transcript_of_hungUp_lineThenEnd : ∃ chunks : List Text, chunks.flatten = ['x', '\n'] ∧
    textsOf ((exec (step bareHost) (boot bareHost [plain 'p' "simple" [] []]) lineThenEnd).get
      lineThenEnd_possible).output ['p'] .info = chunks.flatMap called := by
  obtain ⟨p, hp, hst, hname, hend⟩ := lineThenEnd_started
  have hunlisted : ((exec (step bareHost) (boot bareHost [plain 'p' "simple" [] []]) lineThenEnd).get
      lineThenEnd_possible).handler.idForFd[(10 : ℤ)]? = none := by decide
  have hpipe : (((exec (step bareHost) (boot bareHost [plain 'p' "simple" [] []]) lineThenEnd).get
      lineThenEnd_possible).kernel.pipes[(10 : ℤ)]?.map Pipe.written) = some ['x', '\n'] := by decide
  obtain ⟨q, hq, hlater⟩ := transcript_of_hungUp (Run.of_isSome lineThenEnd_possible) (by decide)
    hp hst .stdout (hend ▸ hunlisted)
  obtain ⟨-, q', chunks, -, -, -, hflat, htexts⟩ := hlater [] _ .refl (by decide)
  rw [hend] at hq
  rw [hq, Option.map_some, Option.some.injEq] at hpipe
  exact ⟨chunks, hflat.trans hpipe, hname ▸ htexts⟩

end Scinit
