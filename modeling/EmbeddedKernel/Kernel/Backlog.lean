import EmbeddedKernel.Kernel.Loop
import EmbeddedKernel.Library.Service

/-!
# How many messages wait, and for how long

A round of `loop()` dispatches two messages, unless there were fewer when it began.  So if
no window of rounds brings more than two messages a round and a burst, the queue holds no
more than the burst and two, and every message is dispatched within a number of rounds
that depends on the burst only.
-/

namespace EmbeddedKernel.Kernel

open Library Mq

/-- The number of messages that have been accepted. -/
def posted (k : System) : ℕ := (postedMessages k.messageQueue.trace).length

/-- The number of messages that have been dispatched and deleted. -/
def dispatched (k : System) : ℕ := deletedCount k.messageQueue

def roundsEnded (k : System) : ℕ := loopsEnded k.trace

/-! ## The step -/

/-- At some time that is in `history`, with the messages posted and the rounds ended until
then, all of whose messages have been dispatched, the kernel began to dispatch two in every
round but one. -/
def Keeps (history : Set (ℕ × ℕ)) (rounds dispatched : ℕ) : Prop :=
  ∃ p ∈ history, p.1 ≤ dispatched ∧ p.1 + 2 * rounds ≤ dispatched + 2 * p.2 + 2

/-- The same at every point of `loop()`; a round that is past its messages counts as ended. -/
def Serving (history : Set (ℕ × ℕ)) (k : System) : Prop :=
  match k.point with
  | .outside => Keeps history (roundsEnded k) (dispatched k)
  | .messages => ∃ s₀, Spending s₀ 2 k.messageQueue ∧
      ((postedMessages s₀.trace).length, roundsEnded k) ∈ history ∧
      Keeps history (roundsEnded k) (deletedCount s₀)
  | .task => Keeps history (roundsEnded k + 1) (dispatched k)

variable {history history' : Set (ℕ × ℕ)} {k t : System} {l : Label} {rounds d d' : ℕ}

theorem Keeps.mono (h : Keeps history rounds d) (hd : d ≤ d') : Keeps history rounds d' := by
  obtain ⟨p, hp, hdone, hserved⟩ := h
  exact ⟨p, hp, hdone.trans hd, by omega⟩

theorem Keeps.subset (h : Keeps history rounds d) (hsub : history ⊆ history') :
    Keeps history' rounds d := by
  obtain ⟨p, hp, hdone, hserved⟩ := h
  exact ⟨p, hsub hp, hdone, hserved⟩

theorem Serving.subset (h : Serving history k) (hsub : history ⊆ history') :
    Serving history' k := by
  unfold Serving at *
  split at h
  · exact h.subset hsub
  · obtain ⟨s₀, hrun, hbegan, hkeeps⟩ := h
    exact ⟨s₀, hrun, hsub hbegan, hkeeps.subset hsub⟩
  · exact h.subset hsub

/-- A call of `Loop(2)` that has returned dispatched two messages, or all that it found. -/
theorem keeps_of_loop {s₀ s : Machine} (hrun : Spending s₀ 2 s) (hp : s.point = .outside)
    (hbegan : ((postedMessages s₀.trace).length, rounds) ∈ history)
    (hkeeps : Keeps history rounds (deletedCount s₀)) :
    Keeps history (rounds + 1) (deletedCount s) := by
  have hdrained := hrun.drained
  rw [hp] at hdrained
  simp only [Mq.Point.budget] at hdrained
  have hle := (deletedMessages_isPrefix hrun.trace).length_le
  rcases hdrained with htwo | hall
  · obtain ⟨p, hmem, hdone, hserved⟩ := hkeeps
    unfold deletedCount at *
    exact ⟨p, hmem, hdone.trans hle, by omega⟩
  · unfold deletedCount at *
    exact ⟨_, hbegan, hall, by simp only; omega⟩

theorem Serving.step (h : Serving history k) (hw : Wf k.messageQueue)
    (hledger : Ledger k.messageQueue) (hst : Stepped k l t)
    (hnow : (posted k, roundsEnded k) ∈ history) : Serving history t := by
  cases hst with
  | @loop mq hp hq =>
      simp only [Serving, hp, roundsEnded, dispatched] at h ⊢
      obtain ⟨-, rfl⟩ := loop_eq hq
      refine ⟨k.messageQueue, spending_loop _ (by decide), ?_, ?_⟩
      · simpa [posted, roundsEnded, loopsEnded] using hnow
      · simpa [loopsEnded] using h
  | @queue m mq hm hq =>
      have hle : deletedCount k.messageQueue ≤ deletedCount mq :=
        (deletedMessages_isPrefix (hw.stepped hq).trace_isPrefix).length_le
      cases hp : k.point with
      | outside =>
          simp only [Serving, hp, roundsEnded, dispatched, loopsEnded_dispatched] at h ⊢
          exact h.mono hle
      | task =>
          simp only [Serving, hp, roundsEnded, dispatched, loopsEnded_dispatched] at h ⊢
          exact h.mono hle
      | messages =>
          simp only [Serving, hp, roundsEnded, loopsEnded_dispatched] at h ⊢
          obtain ⟨s₀, hrun, hbegan, hkeeps⟩ := h
          exact ⟨s₀, hrun.step (by decide) hw hledger hm hq, hbegan, hkeeps⟩
  | @taskCalled tm x hp hq hcalls =>
      simp only [Serving, hp, roundsEnded, dispatched] at h ⊢
      obtain ⟨s₀, hrun, hbegan, hkeeps⟩ := h
      simpa [loopsEnded] using keeps_of_loop hrun hq hbegan hkeeps
  | @noTask tm hp hq hcalls =>
      simp only [Serving, hp, roundsEnded, dispatched] at h ⊢
      obtain ⟨s₀, hrun, hbegan, hkeeps⟩ := h
      simpa [loopsEnded] using keeps_of_loop hrun hq hbegan hkeeps
  | @taskReturn tm hp hcalls =>
      simp only [Serving, hp, roundsEnded, dispatched] at h ⊢
      simpa [loopsEnded] using h
  | tasks hcalls => exact h

/-! ## Runs -/

theorem messageQueue_step (h : k.step l = .ok t) :
    t.messageQueue = k.messageQueue ∨ ∃ m, k.messageQueue.step m = .ok t.messageQueue := by
  cases stepped_of_step h with
  | loop hp hq => exact .inr ⟨_, hq⟩
  | queue hl hq => exact .inr ⟨_, hq⟩
  | taskCalled hp hq hcalls => exact .inl rfl
  | noTask hp hq hcalls => exact .inl rfl
  | taskReturn hp hcalls => exact .inl rfl
  | tasks hcalls => exact .inl rfl

/-- Seen from the message queue a run of the kernel is one of its own runs. -/
theorem reaches_messageQueue {good : System → Label → Prop} {k₀ : System}
    (hs : Reaches System.step good k₀ k) :
    Reaches Machine.step (fun _ _ => True) k₀.messageQueue k.messageQueue := by
  induction hs with
  | start => exact .start
  | next _ _ hstep ih =>
      rcases messageQueue_step hstep with heq | ⟨m, hm⟩
      · rwa [heq]
      · exact ih.next trivial hm

/-- The messages posted and the rounds ended at the times of a run up to `n`. -/
def historyOf (run : ℕ → System) (n : ℕ) : Set (ℕ × ℕ) :=
  {p | ∃ i ≤ n, p = (posted (run i), roundsEnded (run i))}

variable {good : System → Label → Prop} {run : ℕ → System} {N n : ℕ} {b : Bool}

theorem reaches_of_isRun (hstart : run 0 = .constructed b) (hrun : IsRun System.step good run N)
    (hn : n ≤ N) :
    Reaches Machine.step (fun _ _ => True) (.constructed b) (run n).messageQueue := by
  have hreaches := reaches_messageQueue (hrun.reaches hn)
  rwa [hstart] at hreaches

theorem serving_of_isRun (hstart : run 0 = .constructed b) (hrun : IsRun System.step good run N)
    (hn : n ≤ N) : Serving (historyOf run n) (run n) := by
  induction n with
  | zero =>
      rw [hstart]
      exact ⟨(0, 0), ⟨0, le_refl 0, by rw [hstart]; rfl⟩, le_refl 0, Nat.zero_le _⟩
  | succ n ih =>
      obtain ⟨l, -, hstep⟩ := hrun n hn
      have hreaches := reaches_of_isRun hstart hrun (Nat.le_of_succ_le hn)
      have hnow : (posted (run n), roundsEnded (run n)) ∈ historyOf run n := ⟨n, le_refl n, rfl⟩
      have hserving := (ih (Nat.le_of_succ_le hn)).step (reaches_wf hreaches)
        (reaches_ledger hreaches) (stepped_of_step hstep) hnow
      refine hserving.subset ?_
      rintro p ⟨i, hi, rfl⟩
      exact ⟨i, hi.trans (Nat.le_succ n), rfl⟩

/-- The kernel as a server of messages. -/
theorem servedAt_of_isRun (hstart : run 0 = .constructed b)
    (hrun : IsRun System.step good run N) (hn : n ≤ N) :
    ServedAt (fun i => posted (run i)) (fun i => dispatched (run i))
      (fun i => roundsEnded (run i)) 2 n := by
  have hserving := serving_of_isRun hstart hrun hn
  have hkeeps : Keeps (historyOf run n) (roundsEnded (run n)) (dispatched (run n)) := by
    unfold Serving at hserving
    split at hserving
    · exact hserving
    · obtain ⟨s₀, hloop, -, hkeeps⟩ := hserving
      exact hkeeps.mono (deletedMessages_isPrefix hloop.trace).length_le
    · obtain ⟨p, hp, hdone, hserved⟩ := hserving
      exact ⟨p, hp, hdone, by omega⟩
  obtain ⟨p, ⟨i, hi, rfl⟩, hdone, hserved⟩ := hkeeps
  exact ⟨i, hi, hdone, hserved⟩

theorem posted_mono (hstart : run 0 = .constructed b) (hrun : IsRun System.step good run N)
    {i j : ℕ} (hij : i ≤ j) (hj : j ≤ N) : posted (run i) ≤ posted (run j) := by
  refine le_of_steps (f := fun n => posted (run n)) (fun n hn => ?_) hij hj
  obtain ⟨l, -, hstep⟩ := hrun n hn
  have hw := reaches_wf (reaches_of_isRun hstart hrun hn.le)
  rcases messageQueue_step hstep with heq | ⟨m, hq⟩
  · rw [posted, posted, heq]
  · exact (postedMessages_isPrefix (hw.stepped hq).trace_isPrefix).length_le

theorem Stepped.trace_isPrefix (h : Stepped k l t) : k.trace <+: t.trace := by
  cases h with
  | tasks hcalls => exact List.prefix_rfl
  | _ => exact List.prefix_append _ _

theorem roundsEnded_mono (hrun : IsRun System.step good run N) {i j : ℕ} (hij : i ≤ j)
    (hj : j ≤ N) : roundsEnded (run i) ≤ roundsEnded (run j) := by
  refine le_of_steps (f := fun n => roundsEnded (run n)) (fun n hn => ?_) hij hj
  obtain ⟨l, -, hstep⟩ := hrun n hn
  exact (stepped_of_step hstep).trace_isPrefix.sublist.count_le _

/-- In every run, whatever handlers, tasks and interrupts do: if in every window of it at most
two messages a round are posted, and `B` more, then at every time at most `B + 2` messages
wait, and every message has been dispatched when the rounds that have ended since it was
posted are at least `B / 2 + 1`. -/
theorem kernel_backlog (b : Bool) (run : ℕ → System) (N B : ℕ) (hstart : run 0 = .constructed b)
    (hrun : IsRun System.step (fun _ _ => True) run N)
    (hload : ∀ i j, i ≤ j → j ≤ N →
      posted (run j) + 2 * roundsEnded (run i) ≤ posted (run i) + 2 * roundsEnded (run j) + B) :
    (∀ n ≤ N, (run n).messageQueue.mq.queue.contents.length ≤ B + 2) ∧
      ∀ n m, n ≤ m → m ≤ N → 2 * roundsEnded (run n) + B + 2 ≤ 2 * roundsEnded (run m) →
        ∀ i < posted (run n), i ∈ deletedMessages (run m).messageQueue.trace := by
  have hload' : Loaded (fun i => posted (run i)) (fun i => roundsEnded (run i)) 2 B N := hload
  have hledger : ∀ n ≤ N, Ledger (run n).messageQueue :=
    fun n hn => reaches_ledger (reaches_of_isRun hstart hrun hn)
  refine ⟨fun n hn => ?_, fun n m hnm hm hrounds i hi => ?_⟩
  · have hbacklog := (servedAt_of_isRun hstart hrun hn).backlog hload' hn
    have hledger := hledger n hn
    have hdeleted : dispatched (run n) ≤ (poppedMessages (run n).messageQueue.trace).length := by
      have hlength := congrArg List.length hledger.deleted
      rw [List.length_append, List.length_range] at hlength
      unfold dispatched deletedCount
      omega
    rw [hledger.contents, List.length_drop]
    unfold posted at hbacklog
    omega
  · have hdelay := (servedAt_of_isRun hstart hrun hm).delay hload' hnm hm
      (fun _ _ hij hj => posted_mono hstart hrun hij hj) hrounds
    rw [(hledger m hm).deletedMessages_eq_range]
    exact List.mem_range.mpr (hi.trans_le hdelay)

/-- The two rounds, and a third one without messages. -/
def threeRounds : List Label :=
  taskAndHandler ++ threePosts.map .queue ++ [.loop] ++ twoRounds ++ [.loop] ++
    List.replicate 5 (.queue .tau) ++ [.taskLoop, .taskReturn]

theorem kernel_backlog_threeRounds :
    let run : ℕ → System := fun n => after System.step (.constructed true) (threeRounds.take n)
    (∀ n ≤ threeRounds.length, (run n).messageQueue.mq.queue.contents.length ≤ 6) ∧
      ∀ i < 3, i ∈ deletedMessages (run threeRounds.length).messageQueue.trace := by
  intro run
  have hrun : IsRun System.step (fun _ _ => True) run threeRounds.length :=
    isRun_of_execute (t := run threeRounds.length) (fun _ _ _ => trivial) rfl
  have hall : posted (run threeRounds.length) = 4 := rfl
  obtain ⟨hlength, hdispatched⟩ := kernel_backlog true run threeRounds.length 4 rfl hrun
    fun i j hij hj => by
      have hmono := posted_mono rfl hrun hj (le_refl _)
      have hrounds := roundsEnded_mono hrun hij hj
      omega
  refine ⟨hlength, fun i hi => ?_⟩
  exact hdispatched 5 threeRounds.length (by decide) (le_refl _) (by decide) i hi

end EmbeddedKernel.Kernel
