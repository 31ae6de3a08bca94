import EmbeddedKernel.Kernel.Loop
import EmbeddedKernel.Library.Simulation

/-!
# The share of a task

Every round of `loop()` calls one task, if any is registered, and the ring gives each its
turn.  So among `M` tasks, with others registered meanwhile, each is called in one round
of `M`, up to one, over every stretch of every run.
-/

namespace EmbeddedKernel.Kernel

open Library

variable {k t k₀ : System} {l : Label} {good : System → Label → Prop}

/-! ## The task ring within the kernel -/

theorem taskManager_step (h : k.step l = .ok t) :
    t.taskManager = k.taskManager ∨ ∃ m, k.taskManager.step m = .ok t.taskManager := by
  cases l with
  | loop =>
      simp only [System.step] at h
      split_ifs at h
      obtain ⟨mq, -, heq⟩ := bind_eq_ok.mp h
      cases heq
      exact .inl rfl
  | queue l =>
      cases stepped_of_step h
      exact .inl rfl
  | taskLoop =>
      simp only [System.step] at h
      split_ifs at h
      obtain ⟨tm, htm, heq⟩ := bind_eq_ok.mp h
      cases heq
      exact .inr ⟨_, htm⟩
  | taskReturn =>
      simp only [System.step] at h
      split_ifs at h
      obtain ⟨tm, htm, heq⟩ := bind_eq_ok.mp h
      cases heq
      exact .inr ⟨_, htm⟩
  | tasks l =>
      cases l <;> simp only [System.step] at h
      case loop => cases h
      case ret => cases h
      all_goals
        split_ifs at h
        obtain ⟨tm, htm, heq⟩ := bind_eq_ok.mp h
        cases heq
        exact .inr ⟨_, htm⟩

/-- Seen from the task ring a run of the kernel is one of its own runs. -/
theorem reaches_taskManager (hs : Reaches System.step good k₀ k) :
    Reaches TaskRing.System.step (fun _ _ => True) k₀.taskManager k.taskManager := by
  induction hs with
  | start => exact .start
  | next _ _ hstep ih =>
      rcases taskManager_step hstep with heq | ⟨m, hm⟩
      · rwa [heq]
      · exact ih.next trivial hm

/-! ## Rounds and calls -/

/-- A ring with a task calls one. -/
theorem point_of_taskLoop (h : k.step .taskLoop = .ok t) (hs : TaskRing.Shape k.taskManager)
    (hpos : 0 < k.taskManager.ring.heap.size) : t.point = .task := by
  simp only [System.step] at h
  split_ifs at h
  obtain ⟨tm, htm, heq⟩ := bind_eq_ok.mp h
  cases heq
  cases TaskRing.stepped_of_step htm with
  | register hl => cases hl
  | refuse hl => cases hl
  | idle hcur hhead =>
      have hnone := hs.head.symm.trans hhead
      obtain ⟨n, hn⟩ := Nat.exists_eq_add_one_of_ne_zero hpos.ne'
      rw [hn] at hnone
      cases hnone
  | call hrunning hcur hnode => simp

def calls (k : System) : ℕ := (TaskRing.calledNodes k.taskManager.trace).length

/-- 1 while a task is running, whose round has not ended. -/
def unfinished (k : System) : ℕ := if k.point = .task then 1 else 0

theorem calls_step (h : k.step l = .ok t) (hs : TaskRing.Shape k.taskManager)
    (hpos : 0 < k.taskManager.ring.heap.size) :
    calls t + loopsEnded k.trace + unfinished k =
      calls k + loopsEnded t.trace + unfinished t := by
  cases stepped_of_step h with
  | loop hp hq => simp [calls, unfinished, hp, loopsEnded]
  | queue hl hq => simp only [calls, unfinished, loopsEnded_dispatched]
  | taskCalled hp hq hcalls =>
      simp only [calls, unfinished, hcalls, hp, List.length_append, loopsEnded, List.count_append]
      simp
      omega
  | noTask hp hq hcalls =>
      have hpoint := point_of_taskLoop h hs hpos
      cases hpoint
  | taskReturn hp hcalls =>
      simp only [calls, unfinished, hcalls, hp, loopsEnded, List.count_append]
      simp
      omega
  | tasks hcalls => simp only [calls, unfinished, hcalls]

theorem calls_of_reaches (hs : TaskRing.Shape k.taskManager)
    (hpos : 0 < k.taskManager.ring.heap.size) (ht : Reaches System.step good k t) :
    calls t + loopsEnded k.trace + unfinished k =
      calls k + loopsEnded t.trace + unfinished t := by
  have hinv : TaskRing.Shape t.taskManager ∧ 0 < t.taskManager.ring.heap.size ∧
      calls t + loopsEnded k.trace + unfinished k =
        calls k + loopsEnded t.trace + unfinished t := by
    refine ht.invariant (fun t => TaskRing.Shape t.taskManager ∧
      0 < t.taskManager.ring.heap.size ∧ calls t + loopsEnded k.trace + unfinished k =
        calls k + loopsEnded t.trace + unfinished t) ⟨hs, hpos, rfl⟩ ?_
    rintro u l v ⟨hshape, hsize, hcount⟩ - hstep
    have hnext := calls_step hstep hshape hsize
    refine ⟨?_, ?_, by omega⟩
    · rcases taskManager_step hstep with heq | ⟨m, hm⟩
      · rwa [heq]
      · exact (TaskRing.stepped_of_step hm).shape hshape
    · rcases taskManager_step hstep with heq | ⟨m, hm⟩
      · rwa [heq]
      · obtain ⟨-, es, -, hsteps⟩ := TaskRing.reaches_rotation hshape (Reaches.single hm)
        obtain ⟨passes, -, hgrows, -⟩ := hsteps.accounted hshape.pending_le
        exact hsize.trans_le hgrows
  exact hinv.2.2

/-- Over every stretch of every run of the kernel, in which `R` rounds end, with `m` tasks
registered at its beginning and `M` at its end: a task that was registered at the beginning
is called at least `R / M - 1` times, and at most `R / m + 1` times. -/
theorem kernel_taskShares (b : Bool) (k t : System)
    (hs : Reaches System.step (fun _ _ => True) (.constructed b) k)
    (ht : Reaches System.step (fun _ _ => True) k t) (x : ℕ)
    (hx : x ∈ TaskRing.registeredNodes k.taskManager.trace) :
    ∃ es, t.taskManager.trace = k.taskManager.trace ++ es ∧
      loopsEnded t.trace ≤ loopsEnded k.trace +
        (TaskRing.registeredNodes t.taskManager.trace).length *
          ((TaskRing.calledNodes es).count x + 1) ∧
      (TaskRing.registeredNodes k.taskManager.trace).length * (TaskRing.calledNodes es).count x +
        loopsEnded k.trace ≤
          loopsEnded t.trace + (TaskRing.registeredNodes k.taskManager.trace).length := by
  have hshape : TaskRing.Shape k.taskManager := TaskRing.reaches_shape (reaches_taskManager hs)
  have hlt : x < k.taskManager.ring.heap.size := by
    rwa [hshape.numbered, List.mem_range] at hx
  obtain ⟨hshape', es, htrace, hsteps⟩ :=
    TaskRing.reaches_rotation hshape (reaches_taskManager ht)
  have hcalls := calls_of_reaches hshape (Nat.zero_lt_of_lt hlt) ht
  have hlength : calls t = calls k + (TaskRing.calledNodes es).length := by
    rw [calls, calls, htrace, TaskRing.calledNodes_append, List.length_append]
  have hbefore : unfinished k ≤ 1 := by
    unfold unfinished
    split_ifs <;> omega
  have hafter : unfinished t ≤ 1 := by
    unfold unfinished
    split_ifs <;> omega
  refine ⟨es, htrace, ?_, ?_⟩
  · have hshare := hsteps.length_lt hshape.pending_le hlt
    rw [hshape'.numbered, List.length_range]
    simp only [TaskRing.rotation] at hshare
    omega
  · have hshare := hsteps.mul_count_lt hshape.pending_le hlt
    rw [hshape.numbered, List.length_range]
    simp only [TaskRing.rotation] at hshare
    omega

/-- A function and a task. -/
def twoRegistrations : List Label :=
  [.tasks (.registerFunction 0x100 none true), .tasks (.registerTask 0x200 true)]

/-- Four rounds without messages. -/
def fourRounds : List Label :=
  (List.replicate 4 (.loop :: List.replicate 5 (.queue .tau) ++ [.taskLoop, .taskReturn])).flatten

theorem kernel_taskShares_fourRounds :
    ∃ k t es, execute System.step (.constructed true) twoRegistrations = .ok k ∧
      execute System.step k fourRounds = .ok t ∧
      t.taskManager.trace = k.taskManager.trace ++ es ∧
      1 ≤ (TaskRing.calledNodes es).count 0 ∧ (TaskRing.calledNodes es).count 0 ≤ 3 := by
  let k := after System.step (.constructed true) twoRegistrations
  let t := after System.step k fourRounds
  have hk : execute System.step (.constructed true) twoRegistrations = .ok k := rfl
  have ht : execute System.step k fourRounds = .ok t := rfl
  obtain ⟨es, htrace, hleast, hmost⟩ := kernel_taskShares true k t (reaches_of_execute hk)
    (reaches_of_execute ht) 0 (by decide)
  have hrounds : loopsEnded t.trace = 4 := by decide
  have hnone : loopsEnded k.trace = 0 := rfl
  have hmembers : (TaskRing.registeredNodes t.taskManager.trace).length = 2 := by decide
  have hmembers' : (TaskRing.registeredNodes k.taskManager.trace).length = 2 := rfl
  rw [hrounds, hnone, hmembers] at hleast
  rw [hrounds, hnone, hmembers'] at hmost
  exact ⟨k, t, es, hk, ht, htrace, by omega, by omega⟩

end EmbeddedKernel.Kernel
