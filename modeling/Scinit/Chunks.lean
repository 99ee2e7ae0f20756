/-
# What becomes of a chunk of output

`event_received` strips the newlines at the ends of what it read by two loops
over the buffer, and cuts a string made of the same buffer at the positions they
find. The string ends at the first NUL, the loops do not, so a chunk is put out
as it was read exactly if no byte of it is NUL (`chunk_intact_iff`).

Key definitions: `called`, `delivered`.
Key theorems: `strip_eq_trim`, `called_eq_iff`, `chunk_intact_iff`.
-/
import Scinit.Invariant

namespace Scinit

open Transition

variable {H : Host} {progs : List Program} {tr : List (Sys × Label)} {s s' : Sys} {buf str mid : Text} {b e : ℕ}

/-! ### The two loops -/

theorem beginOf_replicate_append (b : ℕ) (buf : Text) :
    beginOf (List.replicate b '\n' ++ buf) = b + beginOf buf := by
  induction b with
  | zero => simp
  | succ b ih =>
    rw [List.replicate_succ, List.cons_append, beginOf, if_neg (not_not.mpr rfl), ih]
    omega

theorem beginOf_of_head? (h : buf.head? ≠ some '\n') : beginOf buf = 0 := by
  cases buf with
  | nil => rfl
  | cons c buf => exact if_pos fun hc => h (congrArg some hc)

/-- The loop over `end` goes back over newlines to the first other byte. -/
theorem endFrom_eq {begin m : ℕ} (hm : buf[m]? ≠ some '\n') (hb : begin ≤ m) :
    ∀ e, m ≤ e → (∀ j, m < j → j ≤ e → buf[j]? = some '\n') → endFrom buf begin e = m
  | 0, he, _ => by
    have : m = 0 := by omega
    rw [this]
    rfl
  | e + 1, he, hnl => by
    rcases Nat.eq_or_lt_of_le he with rfl | hlt
    · exact if_neg fun h => hm h.2
    · have hgo : begin < e + 1 ∧ buf[e + 1]? = some '\n' := ⟨by omega, hnl _ hlt le_rfl⟩
      rw [endFrom, if_pos hgo]
      exact endFrom_eq hm hb e (by omega) fun j h1 h2 => hnl j h1 (by omega)

/-! ### The string -/

/-- Stripping leaves only bytes before the first NUL. -/
theorem nul_notMem_strip (h : strip buf = .ok str) : '\x00' ∉ str := by
  have hsub : str ⊆ cString buf := by
    rw [strip_eq, Except.ok.injEq] at h
    rw [← h]
    split
    · exact ((List.take_sublist _ _).trans (List.drop_sublist _ _)).subset
    · exact List.drop_subset _ _
  intro hm
  have hne := List.mem_takeWhile_imp (hsub hm)
  simp at hne

theorem cString_eq (h : '\x00' ∉ buf) : cString buf = buf :=
  List.takeWhile_eq_self_iff.mpr fun _ hc => decide_eq_true fun he => h (he ▸ hc)

/-- Of a chunk of newlines nothing is left. -/
theorem strip_newlines (n : ℕ) : strip (List.replicate n '\n') = .ok [] := by
  have hbegin : beginOf (List.replicate n '\n') = n := by
    have happ := beginOf_replicate_append n []
    rwa [List.append_nil, beginOf, Nat.add_zero] at happ
  have hstr : cString (List.replicate n '\n') = List.replicate n '\n' :=
    cString_eq fun hm => absurd (List.eq_of_mem_replicate hm) (by decide)
  rw [strip_eq, hbegin, hstr, List.drop_of_length_le (by rw [List.length_replicate]), List.take_nil, ite_self]

/-- Of any other chunk without NUL what is between the newlines at its ends is left. -/
theorem strip_framed (hn : '\x00' ∉ List.replicate b '\n' ++ mid ++ List.replicate e '\n') (hne : mid ≠ [])
    (hhead : mid.head? ≠ some '\n') (hlast : mid.getLast? ≠ some '\n') :
    strip (List.replicate b '\n' ++ mid ++ List.replicate e '\n') = .ok mid := by
  have hpos : 0 < mid.length := List.length_pos_of_ne_nil hne
  have hlen : (List.replicate b '\n' ++ mid ++ List.replicate e '\n').length = b + mid.length + e := by
    simp only [List.length_append, List.length_replicate]
  have hbegin : beginOf (List.replicate b '\n' ++ mid ++ List.replicate e '\n') = b := by
    rw [List.append_assoc, beginOf_replicate_append, beginOf_of_head?, Nat.add_zero]
    rwa [List.head?_append_of_ne_nil _ hne]
  have hend : endOf (List.replicate b '\n' ++ mid ++ List.replicate e '\n') = (b + mid.length - 1 : ℕ) := by
    rw [endOf, if_neg (by omega), hbegin, hlen]
    refine congrArg Nat.cast (endFrom_eq (fun hm => hlast ?_) (by omega) _ (by omega) fun j h1 h2 => ?_)
    · rw [List.getElem?_append_left (by simp; omega), List.getElem?_append_right (by simp; omega)] at hm
      rw [List.getLast?_eq_getElem?, ← hm, List.length_replicate]
      congr 1
      omega
    · rw [List.getElem?_append_right (by simp; omega), List.getElem?_replicate_of_lt (by simp; omega)]
  have hdrop : (cString (List.replicate b '\n' ++ mid ++ List.replicate e '\n')).drop b =
      mid ++ List.replicate e '\n' := by
    rw [cString_eq hn, List.append_assoc, List.drop_left' List.length_replicate]
  rw [strip_eq, hbegin, hend, hdrop, hlen]
  split
  · rw [List.take_left' (by omega)]
  · have he : e = 0 := by omega
    rw [he, List.replicate_zero, List.append_nil]

/-- **Stripping** a chunk without NUL takes the newlines at its ends off, and nothing else. -/
theorem strip_eq_trim (hn : '\x00' ∉ buf) : strip buf = .ok (Lines.trim '\n' buf) := by
  rcases Lines.trim_cases '\n' buf with ⟨hbuf, htrim⟩ | ⟨b, e, hbuf, hne, hhead, hlast⟩
  · rw [htrim, hbuf]
    exact strip_newlines _
  · rw [hbuf] at hn
    conv_lhs => rw [hbuf]
    exact strip_framed hn hne hhead hlast

/-! ### The call -/

/-- What `event_received` calls `handle_child_output` with for a chunk, if it does. -/
def called (chunk : Text) : List Text :=
  match strip chunk with
  | .ok str => if str.isEmpty then [] else [str]
  | .error _ => []

/-- What it is to be called with: the chunk less the newlines at its ends, if it has another byte. -/
def delivered (chunk : Text) : List Text := if chunk.all (· = '\n') then [] else [Lines.trim '\n' chunk]

theorem called_of_strip (h : strip buf = .ok str) : called buf = if str = [] then [] else [str] := by
  rw [called, h]
  cases str <;> rfl

/-- A chunk is handed over as it was read if and only if it has no NUL. -/
theorem called_eq_iff : called buf = delivered buf ↔ '\x00' ∉ buf := by
  unfold delivered
  constructor
  · intro h hm
    obtain ⟨str, hstr⟩ := strip_ok buf
    have hall : ¬ buf.all (· = '\n') = true := fun hall => absurd (List.all_eq_true.mp hall _ hm) (by decide)
    rw [called_of_strip hstr, if_neg hall] at h
    split at h
    · cases h
    · refine nul_notMem_strip hstr ?_
      rw [(List.cons.inj h).1]
      exact (Lines.mem_trim_iff (by decide)).mpr hm
  · intro hn
    rw [called_of_strip (strip_eq_trim hn)]
    refine if_congr (Lines.trim_eq_nil_iff.trans ?_) rfl rfl
    simp only [List.all_eq_true, decide_eq_true_eq]

/-- The event of a readable descriptor of a child ends in the call. -/
theorem output_called (h : Runs H progs tr s) {ev : Event} {batch : List Event} {c : EventCalls}
    (hpc : s.pc = .handling (ev :: batch)) (hfd : ev.fd ≠ s.handler.signalFd) (hin : ev.epollin = true)
    (hs : step H s (.event c) = some s') :
    s'.pc = .handling batch ∧ ∃ id p type, s.handler.idForFd[ev.fd]? = some id ∧ s.objs[id]? = some p ∧
      s.handler.fdType[ev.fd]? = some type ∧ s'.output = s.output ++
        (called ((s.kernel.unread ev.fd).take (c.nread.getD 0))).map fun text => ⟨p.name, type.level, text⟩ := by
  obtain ⟨hi, hf, -⟩ := run_effect h hs
  have hmem : ev ∈ s.pc.batch := by simp [hpc, Pc.batch]
  obtain ⟨id, hid⟩ := hf.of_batch hmem hfd
  obtain ⟨p, type, hp, htype, hout⟩ := handleChildOutput_eq hi hf hid
  obtain ⟨str, hstr⟩ := strip_ok ((s.kernel.unread ev.fd).take (c.nread.getD 0))
  simp only [step, hpc, Option.ite_none_right_eq_some, Option.some.injEq] at hs
  obtain ⟨-, rfl⟩ := hs
  have hev : eventReceived ev c s = ({ s with
      kernel := s.kernel.readBytes ev.fd (c.nread.getD 0)
      output := s.output ++ (called ((s.kernel.unread ev.fd).take (c.nread.getD 0))).map fun text =>
        ⟨p.name, type.level, text⟩ }, none) := by
    simp only [eventReceived, outputReceived, hin, if_true, hfd, if_false, called, hstr]
    split
    · simp
    · rw [hout]
      rfl
  rw [hev]
  exact ⟨rfl, id, p, type, hid, hp, htype, rfl⟩

/-- **Chunks are put out as they were read**: when a child's descriptor is read,
nothing is thrown, and what is put out under the program's name is the chunk less
the newlines at its ends, if and only if the chunk has no NUL. -/
theorem chunk_intact_iff (h : Runs H progs tr s) {ev : Event} {batch : List Event} {c : EventCalls}
    (hpc : s.pc = .handling (ev :: batch)) (hfd : ev.fd ≠ s.handler.signalFd) (hin : ev.epollin = true)
    (hs : step H s (.event c) = some s') :
    s'.pc = .handling batch ∧ ∃ id p type, s.handler.idForFd[ev.fd]? = some id ∧ s.objs[id]? = some p ∧
      s.handler.fdType[ev.fd]? = some type ∧
      (s'.output = s.output ++ (delivered ((s.kernel.unread ev.fd).take (c.nread.getD 0))).map
          (fun text => ⟨p.name, type.level, text⟩) ↔
        '\x00' ∉ (s.kernel.unread ev.fd).take (c.nread.getD 0)) := by
  obtain ⟨hgo, id, p, type, hid, hp, htype, hout⟩ := output_called h hpc hfd hin hs
  have hinj : Function.Injective fun text : Text => (⟨p.name, type.level, text⟩ : Line) := by
    intro a b hab
    exact (Line.mk.inj hab).2.2
  refine ⟨hgo, id, p, type, hid, hp, htype, ?_⟩
  rw [hout, List.append_cancel_left_eq, hinj.list_map.eq_iff, called_eq_iff]

theorem map_text (name : Text) (level : Level) (texts : List Text) :
    (texts.map fun text => (⟨name, level, text⟩ : Line)).map Line.text = texts := by
  rw [List.map_map]
  exact List.map_id texts

/-- A child has written `bytes`, and its descriptor is about to be read. -/
def written (bytes : Text) : List Label :=
  [.setup setupOk, .notify, .start (startOk 10 100), .started, .notify, .start (startOk 20 101), .started,
    .act (.write 100 .stdout bytes), .epollWait [⟨10, true, false⟩], .reaped]

/-- `read` returns `n` bytes. -/
def readSome (n : ℕ) : EventCalls := { signal := none, nread := some n, epollDel := true }

theorem line_possible : (exec (step bareHost) (boot bareHost [plain 'p' "simple" [] []])
    (written ['\n', 'a', '\n', 'b', '\n'])).isSome = true := by decide

theorem read_possible : (step bareHost ((exec (step bareHost) (boot bareHost [plain 'p' "simple" [] []])
    (written ['\n', 'a', '\n', 'b', '\n'])).get line_possible) (.event (readSome 5))).isSome = true := by decide

theorem chunk_intact_iff_line : ((step bareHost ((exec (step bareHost) (boot bareHost [plain 'p' "simple" [] []])
    (written ['\n', 'a', '\n', 'b', '\n'])).get line_possible) (.event (readSome 5))).get
      read_possible).output.map Line.text = [['a', '\n', 'b']] := by
  have hpc : ((exec (step bareHost) (boot bareHost [plain 'p' "simple" [] []])
      (written ['\n', 'a', '\n', 'b', '\n'])).get line_possible).pc = .handling [⟨10, true, false⟩] := by decide
  have hout : ((exec (step bareHost) (boot bareHost [plain 'p' "simple" [] []])
      (written ['\n', 'a', '\n', 'b', '\n'])).get line_possible).output = [] := by decide
  have hchunk : (((exec (step bareHost) (boot bareHost [plain 'p' "simple" [] []])
      (written ['\n', 'a', '\n', 'b', '\n'])).get line_possible).kernel.unread 10).take 5 =
        ['\n', 'a', '\n', 'b', '\n'] := by decide
  obtain ⟨-, id, p, type, -, -, -, hiff⟩ := chunk_intact_iff (Run.of_isSome line_possible) hpc (by decide) rfl
    (Option.some_get read_possible).symm
  rw [hiff.mpr (by decide), List.map_append, map_text]
  have hwhole : delivered ['\n', 'a', '\n', 'b', '\n'] = [['a', '\n', 'b']] := by decide
  exact (congrArg₂ (fun out chunk => List.map Line.text out ++ delivered chunk) hout hchunk).trans hwhole

theorem nul_possible : (exec (step bareHost) (boot bareHost [plain 'p' "simple" [] []])
    (written ['a', '\x00', 'b'])).isSome = true := by decide

theorem nulRead_possible : (step bareHost ((exec (step bareHost) (boot bareHost [plain 'p' "simple" [] []])
    (written ['a', '\x00', 'b'])).get nul_possible) (.event (readSome 3))).isSome = true := by decide

/-- Of a chunk with a NUL in it only what is before it is put out. -/
theorem chunk_cut : ¬ ∀ (H : Host) (progs : List Program) (tr : List (Sys × Label)) (s s' : Sys) (ev : Event)
    (batch : List Event) (c : EventCalls), Runs H progs tr s → s.pc = .handling (ev :: batch) →
      ev.fd ≠ s.handler.signalFd → ev.epollin = true → step H s (.event c) = some s' →
      ∃ (p : ChildProcess) (type : FDType), s'.output = s.output ++
        (delivered ((s.kernel.unread ev.fd).take (c.nread.getD 0))).map fun text => ⟨p.name, type.level, text⟩ := by
  intro hall
  have hpc : ((exec (step bareHost) (boot bareHost [plain 'p' "simple" [] []])
      (written ['a', '\x00', 'b'])).get nul_possible).pc = .handling [⟨10, true, false⟩] := by decide
  have hout : ((exec (step bareHost) (boot bareHost [plain 'p' "simple" [] []])
      (written ['a', '\x00', 'b'])).get nul_possible).output = [] := by decide
  have hchunk : (((exec (step bareHost) (boot bareHost [plain 'p' "simple" [] []])
      (written ['a', '\x00', 'b'])).get nul_possible).kernel.unread 10).take 3 = ['a', '\x00', 'b'] := by decide
  have hcut : ((step bareHost ((exec (step bareHost) (boot bareHost [plain 'p' "simple" [] []])
      (written ['a', '\x00', 'b'])).get nul_possible) (.event (readSome 3))).get
        nulRead_possible).output.map Line.text = [['a']] := by decide
  obtain ⟨p, type, hall⟩ := hall _ _ _ _ _ _ _ (readSome 3) (Run.of_isSome nul_possible) hpc (by decide) rfl
    (Option.some_get nulRead_possible).symm
  rw [hall, List.map_append, map_text] at hcut
  have hwhole : delivered ['a', '\x00', 'b'] ≠ [['a']] := by decide
  exact hwhole ((congrArg₂ (fun out chunk => List.map Line.text out ++ delivered chunk) hout hchunk).symm.trans hcut)

end Scinit
