/-
# Signals that scinit receives

`signal_received` forwards a signal to every pid it has a child for, and decides
by two bit tests whether scinit is asked to end. The tests are made on a signal
number, which is no bit mask: they are true of every number that is not a
multiple of 16. So a sequence of signals leaves `should_quit` as it is meant to
be if and only if it was set before, one of the signals asks for the end, or
none of them passes the tests (`signals_iff`).

Key definitions: `forwarded`, `kills`, `receiveAll`.
Key theorems: `signalReceived_kills`, `receiveAll_eq`, `signals_iff`, `quit_on_usr1`.
-/
import Scinit.Outside

namespace Scinit

variable {s : Sys} {signals : List ℕ} {n : ℕ}

/-- The number a signal is forwarded with. -/
def forwarded (signal : ℕ) : ℕ := if signal = sigInt then sigTerm else signal

/-- The calls of `kill` that `signal_received` makes: pid and signal. -/
def kills (signal : ℕ) (h : ProcessHandler) : List (ℤ × ℕ) :=
  if signal = sigChld then [] else h.idForPid.toList.map fun pair => (pair.1, forwarded signal)

/-- The two tests. -/
def asksToQuit (signal : ℕ) : Bool :=
  signal ≠ sigChld ∧ ((forwarded signal &&& sigTerm ≠ 0) ∨ (forwarded signal &&& sigQuit ≠ 0))

/-- `signal_received` makes the calls `kills` and sets `should_quit` if a test is true. -/
theorem signalReceived_kills (n : ℕ) (s : Sys) : signalReceived n s =
    { s with
      kernel := (kills n s.handler).foldl (fun k call => k.kill call.1 call.2) s.kernel
      handler := { s.handler with shouldQuit := s.handler.shouldQuit || asksToQuit n } } := by
  unfold signalReceived kills asksToQuit
  by_cases hn : n = sigChld
  · simp [hn]
  · simp only [hn, if_false, List.foldl_map, forwarded, ne_eq, not_false_eq_true, true_and]
    by_cases ht : ¬ (if n = sigInt then sigTerm else n) &&& sigTerm = 0 ∨
        ¬ (if n = sigInt then sigTerm else n) &&& sigQuit = 0
    · simp [ht]
    · simp [ht]

/-- The tests are true of a number that is not a multiple of 16. -/
theorem asksToQuit_iff : asksToQuit n = true ↔ n ≠ sigChld ∧ n % 16 ≠ 0 := by
  have h15 : ∀ m : ℕ, m &&& sigTerm = m % 16 := fun m => Nat.and_two_pow_sub_one_eq_mod m 4
  have h3 : ∀ m : ℕ, m &&& sigQuit = m % 4 := fun m => Nat.and_two_pow_sub_one_eq_mod m 2
  simp only [asksToQuit, h15, h3, decide_eq_true_eq, forwarded]
  by_cases hn : n = sigInt
  · subst hn
    decide
  · simp only [hn, if_false]
    refine and_congr_right fun _ => ?_
    omega

theorem asksToQuit_of_termination (h : n ∈ terminationSignals) : asksToQuit n = true := by
  rw [asksToQuit_iff]
  simp only [terminationSignals, List.mem_cons, List.not_mem_nil, or_false] at h
  rcases h with rfl | rfl | rfl <;> decide

/-! ### Sequences of signals -/

/-- `signal_received` for each signal in turn. -/
def receiveAll (signals : List ℕ) (s : Sys) : Sys := signals.foldl (fun s n => signalReceived n s) s

/-- A sequence of signals makes the calls of each and sets `should_quit` if one passes the tests. -/
theorem receiveAll_eq (signals : List ℕ) (s : Sys) : receiveAll signals s =
    { s with
      kernel := (signals.flatMap fun n => kills n s.handler).foldl (fun k call => k.kill call.1 call.2) s.kernel
      handler := { s.handler with shouldQuit := s.handler.shouldQuit || signals.any asksToQuit } } := by
  induction signals using List.reverseRecOn with
  | nil => simp [receiveAll]
  | append_singleton ns n ih =>
    have hstep : receiveAll (ns ++ [n]) s = signalReceived n (receiveAll ns s) := by
      simp [receiveAll]
    rw [hstep, signalReceived_kills, ih]
    simp [kills, List.foldl_append, Bool.or_assoc]

theorem kills_eq (hn : n ≠ sigChld) (h : ProcessHandler) :
    kills n h = h.idForPid.keys.map fun pid => (pid, forwarded n) := by
  rw [kills, if_neg hn, ← Std.ExtTreeMap.map_fst_toList_eq_keys, List.map_map]
  rfl

/-- One call of `kill` for each pid. -/
theorem count_kills (hn : n ≠ sigChld) (h : ProcessHandler) (pid : ℤ) (m : ℕ) :
    (kills n h).count (pid, m) = if h.idForPid.contains pid = true ∧ m = forwarded n then 1 else 0 := by
  have hnd : (kills n h).Nodup := by
    rw [kills_eq hn]
    exact Std.ExtTreeMap.nodup_keys.map fun a b hab => congrArg Prod.fst hab
  have hmem : (pid, m) ∈ kills n h ↔ h.idForPid.contains pid = true ∧ m = forwarded n := by
    rw [kills_eq hn, List.mem_map, Std.ExtTreeMap.contains_iff_mem]
    constructor
    · rintro ⟨q, hq, he⟩
      cases he
      exact ⟨Std.ExtTreeMap.mem_keys.mp hq, rfl⟩
    · rintro ⟨hq, rfl⟩
      exact ⟨pid, Std.ExtTreeMap.mem_keys.mpr hq, rfl⟩
  rw [hnd.count]
  simp only [hmem]

/-- What is meant of a sequence of signals: each but SIGCHLD is forwarded once to
each pid, SIGINT as SIGTERM; `should_quit` is set if one of them asks for the
end; and nothing else changes. -/
def Handled (signals : List ℕ) (s : Sys) : Prop :=
  (∀ pre n post, signals = pre ++ n :: post → n ≠ sigChld → ∀ pid m,
    (kills n (receiveAll pre s).handler).count (pid, m) =
      if s.handler.idForPid.contains pid = true ∧ m = (if n = sigInt then sigTerm else n) then 1 else 0) ∧
  ((receiveAll signals s).handler.shouldQuit = true ↔
    s.handler.shouldQuit = true ∨ ∃ n ∈ signals, n = sigInt ∨ n = sigTerm ∨ n = sigQuit) ∧
  receiveAll signals s =
    { s with
      kernel := (signals.flatMap fun n => kills n s.handler).foldl (fun k call => k.kill call.1 call.2) s.kernel
      handler := { s.handler with shouldQuit := (receiveAll signals s).handler.shouldQuit } }

/-- **Signals** are handled as they are meant to be if and only if `should_quit`
was set, one of them asks for the end, or each is SIGCHLD or a multiple of 16. -/
theorem signals_iff (signals : List ℕ) (s : Sys) : Handled signals s ↔
    (s.handler.shouldQuit = true ∨ (∃ n ∈ signals, n = sigInt ∨ n = sigTerm ∨ n = sigQuit) ∨
      ∀ n ∈ signals, n = sigChld ∨ n % 16 = 0) := by
  have hq : (receiveAll signals s).handler.shouldQuit = true ↔
      s.handler.shouldQuit = true ∨ ∃ n ∈ signals, n ≠ sigChld ∧ n % 16 ≠ 0 := by
    simp only [receiveAll_eq, Bool.or_eq_true, List.any_eq_true, asksToQuit_iff]
  have hends : ∀ n, (n = sigInt ∨ n = sigTerm ∨ n = sigQuit) → n ≠ sigChld ∧ n % 16 ≠ 0 := by
    rintro n (rfl | rfl | rfl) <;> decide
  constructor
  · rintro ⟨-, hquit, -⟩
    by_contra hno
    push Not at hno
    obtain ⟨h1, h2, n, hn, h3⟩ := hno
    rcases hquit.mp (hq.mpr (Or.inr ⟨n, hn, h3⟩)) with h | ⟨m, hm, h⟩
    · exact h1 h
    · have := h2 m hm
      tauto
  · intro h
    refine ⟨fun pre n post _ hn pid m => ?_, ?_, ?_⟩
    · rw [count_kills hn, receiveAll_eq]
      rfl
    · rw [hq]
      constructor
      · rintro (h1 | ⟨n, hn, h2, h3⟩)
        · exact Or.inl h1
        · rcases h with h | h | h
          · exact Or.inl h
          · exact Or.inr h
          · rcases h n hn with h | h
            · exact absurd h h2
            · exact absurd h h3
      · rintro (h1 | ⟨n, hn, h2⟩)
        · exact Or.inl h1
        · exact Or.inr ⟨n, hn, hends n h2⟩
    · rw [receiveAll_eq]

/-- SIGUSR1 sets `should_quit`. -/
theorem quit_on_usr1 : ¬ ∀ (signals : List ℕ) (s : Sys), Handled signals s := by
  intro hall
  obtain ⟨-, hquit, -⟩ := hall [10] (boot bareHost [])
  have := hquit.mp (by decide)
  revert this
  decide

end Scinit
