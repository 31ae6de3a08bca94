import EmbeddedKernel.DataLog.AutoFaults

/-!
# A log on a bus that refuses records

As long as the counter is read and updated, a record that is refused on the way costs
nothing but the record that would be overwritten next: the log holds the strings of the
calls of `WriteAuto` that returned 0, and the next call finds the same record number.
-/

namespace EmbeddedKernel.DataLog

open Iic Library

/-! ## One call -/

/-- The third transfer of a call that starts with the transfer `t` is the record. -/
def recordTaken (acks : ℕ → ℕ → Bool) (t : ℕ) : Bool := (List.range 35).all (acks (t + 2))

theorem recordTaken_iff {acks : ℕ → ℕ → Bool} {t : ℕ} :
    recordTaken acks t = true ↔ ∀ i < 35, acks (t + 2) i = true := by
  simp [recordTaken]

/-- The number of the transfer after a call. -/
def afterCall (acks : ℕ → ℕ → Bool) (t : ℕ) : ℕ := t + if recordTaken acks t then 4 else 3

/-- The counter is read, and updated if the record was taken. -/
structure CounterServed (acks : ℕ → ℕ → Bool) (t : ℕ) : Prop where
  address : ∀ i < 3, acks t i = true
  reading : acks (t + 1) 0 = true
  update : recordTaken acks t = true → ∀ i < 7, acks (t + 3) i = true

variable {port : Fin 8} {data : CString} {w : World FaultyBus} {k : ℕ}

/-- A call with a served counter: it returns 0 exactly if the record was taken, and otherwise
spoils no record but the one it is about. -/
theorem writeAuto_served (fs : Frames) (hs : data.chars.length ≤ 31) (hk : k < 2044)
    (hcount : Counts w.bus.bus port k) (hserved : CounterServed w.bus.acks w.bus.transfer) :
    ∃ w' rc, writeAuto FaultyBus.twi (device port) fs data w = .ok (w', rc) ∧
      w'.bus.acks = w.bus.acks ∧ w'.bus.transfer = afterCall w.bus.acks w.bus.transfer ∧
      (rc = 0 ↔ recordTaken w.bus.acks w.bus.transfer = true) ∧
      Counts w'.bus.bus port (if rc = 0 then (k + 1) % 2044 else k) ∧
      (rc = 0 → HoldsString w'.bus.bus port k data) ∧
      ∀ p < 2044, p ≠ k → SamePage w.bus.bus w'.bus.bus port p := by
  obtain ⟨v, s₁, s₂, w', rc, hauto, hacks, htransfer, -, hmemory, hvalue, hwrote, hfail, hdone⟩ :=
    writeAuto_faulty port fs w hs
  have hpage : autoPage v = k := by
    rw [hvalue k hk ⟨hserved.address, hserved.reading⟩ hcount, autoPage, if_neg (by omega)]
  have haddr : 32 * ((k : ℤ) % 2048).toNat = 32 * k := by omega
  rw [hpage, haddr] at hwrote
  rw [hpage, nextAddr_eq hk] at hdone
  have hack : s₁.acks s₁.transfer = w.bus.acks (w.bus.transfer + 2) := by
    rw [hacks, htransfer]
  have hack' : s₂.acks s₂.transfer = w.bus.acks (w.bus.transfer + 3) := by
    rw [hwrote.acks, hwrote.transfer, hacks, htransfer]
  have hrc : rc = 0 ↔ recordTaken w.bus.acks w.bus.transfer = true := by
    rw [recordTaken_iff]
    simpa [hack] using hwrote.success
  -- the bytes that were stored are in the record `k`
  have hout : ∀ a, (a < 32 * k ∨ 32 * k + 32 ≤ a) →
      s₂.bus.memory port a = w.bus.bus.memory port a := by
    intro a ha
    have hle := (storedBytes_isPrefix (s₁.acks s₁.transfer)
      ((List.range 32).map (strcpy data fs.write.junk))).length_le
    rw [List.length_map, List.length_range] at hle
    rw [hwrote.self, if_neg (by omega), hmemory port]
  refine ⟨w', rc, hauto, ?_⟩
  by_cases hzero : rc = 0
  · have htaken := hrc.mp hzero
    obtain ⟨rc', hupdate⟩ := hdone hzero
    have hall : ∀ i < 7, s₂.acks s₂.transfer i = true := by
      rw [hack']
      exact hserved.update htaken
    have hcell : ∀ i < 4, w'.bus.bus.memory port (0xff80 + i) = encode ((k + 1) % 2044 : ℕ) i := by
      intro i hi
      rw [cell_of_wrote hupdate hi, storedBytes_eq_self (by simpa using hall),
        if_pos (by simpa using hi)]
    subst hzero
    refine ⟨?_, ?_, hrc, ?_, fun _ => ?_, fun p hp hne i hi => ?_⟩
    · rw [hupdate.acks, hwrote.acks, hacks]
    · rw [hupdate.transfer, hwrote.transfer, htransfer, afterCall, if_pos htaken]
    · rw [if_pos rfl]
      exact hcell
    · refine holdsString_of_wrote hk hs ?_ hwrote hupdate
      rw [hack]
      exact recordTaken_iff.mp htaken
    · rw [hupdate.self, if_neg (by omega)]
      exact hout _ (by omega)
  · have hbus := hfail hzero
    rw [hbus, if_neg hzero]
    refine ⟨hwrote.acks.trans hacks, ?_, hrc, ?_, fun h => (hzero h).elim,
      fun p hp hne i hi => hout _ (by omega)⟩
    · rw [hwrote.transfer, htransfer, afterCall, if_neg fun h => hzero (hrc.mpr h)]
    · intro i hi
      rw [hout _ (by omega)]
      exact hcount i hi

/-! ## Any number of calls -/

def writeAutoFaulty (port : Fin 8) (w : World FaultyBus) (calls : AutoCalls) :
    Except Stop (World FaultyBus × List ℤ) :=
  callAll (fun w c => writeAuto FaultyBus.twi (device port) c.1 c.2 w) w calls

/-- The number of the transfer with which the call `n` starts. -/
def callStart (acks : ℕ → ℕ → Bool) (t : ℕ) : ℕ → ℕ
  | 0 => t
  | n + 1 => afterCall acks (callStart acks t n)

/-- The calls that returned 0. -/
def accepted (calls : AutoCalls) (results : List ℤ) : AutoCalls :=
  ((calls.zip results).filter fun call => call.2 = 0).map Prod.fst

theorem accepted_concat {calls : AutoCalls} {results : List ℤ}
    (hlength : results.length = calls.length) (c : Frames × CString) (rc : ℤ) :
    accepted (calls ++ [c]) (results ++ [rc]) =
      accepted calls results ++ if rc = 0 then [c] else [] := by
  unfold accepted
  rw [List.zip_append hlength.symm, List.filter_append, List.map_append]
  by_cases hrc : rc = 0
  · simp [hrc]
  · simp [hrc]

/-- The log after calls of which some were refused: the record that comes next may have been
spoiled by the last of them. -/
structure LoggedButNext (port : Fin 8) (b b' : Bus) (calls : AutoCalls) : Prop where
  counts : Counts b' port (calls.length % 2044)
  window : WindowButNext 2044 (fun p c => HoldsString b' port p c.2) calls
  unused : ∀ p < 2044, calls.length < p → SamePage b b' port p

theorem Logged.butNext {b b' : Bus} {calls : AutoCalls} (h : Logged port b b' calls) :
    LoggedButNext port b b' calls :=
  ⟨h.counts, h.window.butNext, fun p hp hlt => h.unused p hp hlt.le⟩

/-- A refused record spoils the next one only. -/
theorem LoggedButNext.refused {b b₁ b' : Bus} {calls : AutoCalls}
    (h : LoggedButNext port b b₁ calls) (hcount : Counts b' port (calls.length % 2044))
    (hkept : ∀ p < 2044, p ≠ calls.length % 2044 → SamePage b₁ b' port p) :
    LoggedButNext port b b' calls := by
  refine ⟨hcount, h.window.congr fun p hp hne c hc => hc.congr (hkept p hp hne), ?_⟩
  intro p hp hlt i hi
  have hne : p ≠ calls.length % 2044 := by
    rw [Nat.mod_eq_of_lt (hlt.trans hp)]
    exact hlt.ne'
  exact (hkept p hp hne i hi).trans (h.unused p hp hlt i hi)

/-- A record that is taken repairs whatever was spoiled. -/
theorem LoggedButNext.concat {b b₁ b' : Bus} {calls : AutoCalls} {c : Frames × CString}
    (h : LoggedButNext port b b₁ calls) (hcount : Counts b' port ((calls.length + 1) % 2044))
    (hholds : HoldsString b' port (calls.length % 2044) c.2)
    (hkept : ∀ p < 2044, p ≠ calls.length % 2044 → SamePage b₁ b' port p) :
    Logged port b b' (calls ++ [c]) := by
  refine ⟨?_, h.window.concat hholds fun p hp hne c hc => hc.congr (hkept p hp hne), ?_⟩
  · rwa [List.length_append, List.length_singleton]
  · intro p hp hle i hi
    rw [List.length_append, List.length_singleton] at hle
    have hne : p ≠ calls.length % 2044 := by omega
    exact (hkept p hp hne i hi).trans (h.unused p hp (by omega) i hi)

/-- `WriteAuto` may be called again after a refusal.  On a bus that serves the counter but may
refuse the records at any byte, and with strings of at most 31 characters, every call returns,
and returns 0 exactly if its record was taken as a whole; the counter is the number of these
calls modulo 2044, and their strings are in the records as if the other calls had not been
made, except that the record to be written next is spoiled if the last call was refused. -/
theorem log_retries (w : World FaultyBus) (port : Fin 8) (calls : AutoCalls)
    (hs : ∀ c ∈ calls, c.2.chars.length ≤ 31) (hcount : Counts w.bus.bus port 0)
    (hserved : ∀ n < calls.length,
      CounterServed w.bus.acks (callStart w.bus.acks w.bus.transfer n)) :
    ∃ w' results, writeAutoFaulty port w calls = .ok (w', results) ∧
      results.map (fun rc => decide (rc = 0)) = (List.range calls.length).map
        (fun n => recordTaken w.bus.acks (callStart w.bus.acks w.bus.transfer n)) ∧
      LoggedButNext port w.bus.bus w'.bus.bus (accepted calls results) ∧
      (results.getLastD 0 = 0 → Logged port w.bus.bus w'.bus.bus (accepted calls results)) := by
  -- the induction also needs where the transfers have got to
  suffices hrun : ∃ w' results, writeAutoFaulty port w calls = .ok (w', results) ∧
      (w'.bus.acks = w.bus.acks ∧
        w'.bus.transfer = callStart w.bus.acks w.bus.transfer calls.length) ∧
      results.map (fun rc => decide (rc = 0)) = (List.range calls.length).map
        (fun n => recordTaken w.bus.acks (callStart w.bus.acks w.bus.transfer n)) ∧
      LoggedButNext port w.bus.bus w'.bus.bus (accepted calls results) ∧
      (results.getLastD 0 = 0 → Logged port w.bus.bus w'.bus.bus (accepted calls results)) by
    obtain ⟨w', results, hcalls, -, hrest⟩ := hrun
    exact ⟨w', results, hcalls, hrest⟩
  induction calls using List.reverseRecOn with
  | nil =>
      have hlog : Logged port w.bus.bus w.bus.bus (accepted [] []) :=
        ⟨hcount, window_nil, fun _ _ _ _ _ => rfl⟩
      exact ⟨w, [], rfl, ⟨rfl, rfl⟩, rfl, hlog.butNext, fun _ => hlog⟩
  | append_singleton calls c ih =>
      rw [List.length_append, List.length_singleton] at hserved
      obtain ⟨w₁, results, hcalls, ⟨hacks, htransfer⟩, hzeros, hlog, -⟩ :=
        ih (fun c' hc' => hs c' (List.mem_append_left _ hc')) fun n hn => hserved n (by omega)
      have hlength : results.length = calls.length := by
        have hlengths := congrArg List.length hzeros
        simpa using hlengths
      have hlast : CounterServed w₁.bus.acks w₁.bus.transfer := by
        rw [hacks, htransfer]
        exact hserved calls.length (by omega)
      obtain ⟨w', rc, hauto, hacks', htransfer', hrc, hnext, hholds, hkept⟩ :=
        writeAuto_served c.1 (hs c (by simp)) (Nat.mod_lt _ (by decide)) hlog.counts hlast
      rw [hacks, htransfer] at hrc htransfer'
      refine ⟨w', results ++ [rc], callAll_concat hcalls hauto, ⟨hacks'.trans hacks, ?_⟩, ?_, ?_⟩
      · rw [List.length_append, List.length_singleton]
        exact htransfer'
      · rw [List.length_append, List.length_singleton, List.range_succ, List.map_append,
          List.map_append, hzeros]
        simp only [List.map_cons, List.map_nil, hrc, Bool.decide_eq_true]
      · rw [accepted_concat hlength, List.getLastD_concat]
        by_cases hzero : rc = 0
        · rw [if_pos hzero, Nat.mod_add_mod] at hnext
          rw [if_pos hzero]
          have hlog' := hlog.concat hnext (hholds hzero) hkept
          exact ⟨hlog'.butNext, fun _ => hlog'⟩
        · rw [if_neg hzero] at hnext
          rw [if_neg hzero, List.append_nil]
          exact ⟨hlog.refused hnext hkept, fun h => (hzero h).elim⟩

/-- EEPROMs with the counter at 0, on a bus that refuses the third transfer at its tenth byte. -/
def refusesOnce : World FaultyBus :=
  faulty (fun t i => !(t == 2 && i == 9)) ⟨⟨fun _ => ⟨fun _ => 48, 0⟩, .idle⟩, []⟩

/-- Two attempts to log one string. -/
def secondAttempt : AutoCalls :=
  List.replicate 2 (emptyFrames, ⟨[82, 101], by decide⟩)

theorem log_retries_refusesOnce :
    ∃ w' rc, writeAutoFaulty 0 refusesOnce secondAttempt = .ok (w', [rc, 0]) ∧ rc ≠ 0 ∧
      Counts w'.bus.bus 0 1 ∧ HoldsString w'.bus.bus 0 0 ⟨[82, 101], by decide⟩ := by
  have hcount : Counts refusesOnce.bus.bus 0 0 := by
    intro i hi
    interval_cases i <;> rfl
  have hserved : ∀ n < 2, CounterServed refusesOnce.bus.acks
      (callStart refusesOnce.bus.acks refusesOnce.bus.transfer n) := by
    intro n hn
    interval_cases n <;> exact ⟨by decide, by decide, by decide⟩
  obtain ⟨w', results, hcalls, hzeros, -, hlog⟩ :=
    log_retries refusesOnce 0 secondAttempt (by decide) hcount hserved
  have htaken : results.map (fun rc => decide (rc = 0)) = [false, true] := hzeros
  obtain ⟨rc, rest, rfl, hrc, hrest⟩ := List.map_eq_cons_iff.mp htaken
  obtain ⟨rc', rest', rfl, hrc', hnil⟩ := List.map_eq_cons_iff.mp hrest
  obtain rfl := List.map_eq_nil_iff.mp hnil
  obtain rfl : rc' = 0 := of_decide_eq_true hrc'
  have hne : rc ≠ 0 := of_decide_eq_false hrc
  have haccepted : accepted secondAttempt [rc, 0] =
      [(emptyFrames, ⟨[82, 101], by decide⟩)] := by
    simp [accepted, secondAttempt, hne, List.replicate_succ]
  rw [haccepted] at hlog
  have hlogged := hlog rfl
  exact ⟨w', rc, hcalls, hne, hlogged.counts, hlogged.window 0 (by decide) (by decide)⟩

end EmbeddedKernel.DataLog
