import EmbeddedKernel.TaskRing.Fairness

/-!
# Deregistration of tasks

`DeregisterTaskHandler` has an empty body, and it is all `~Task` calls.  So the
nodes of a deregistered or destroyed task stay in the ring and `Loop` calls the
task when their turn comes; only for a task without a node does deregistration do
what it is for.
-/

namespace EmbeddedKernel.TaskRing

open Library

/-- The node `x` is one of the task. -/
def TaskInternals.IsNodeOf (s : TaskInternals) (task : Addr) (x : ℕ) : Prop :=
  s.handlerAt x = some (.taskStateC task)

instance (s : TaskInternals) (task : Addr) (x : ℕ) : Decidable (s.IsNodeOf task x) :=
  inferInstanceAs (Decidable (_ = _))

/-- The ring has a node of the task. -/
def TaskInternals.Holds (s : TaskInternals) (task : Addr) : Prop :=
  ∃ x ∈ s.nodes, s.IsNodeOf task x

instance (s : TaskInternals) (task : Addr) : Decidable (s.Holds task) :=
  inferInstanceAs (Decidable (∃ x ∈ s.nodes, _))

/-- The nodes from `pCur` on, which are the next ones in the rotation. -/
def TaskInternals.upcoming (s : TaskInternals) : List ℕ :=
  follow TaskState.pNext s.heap s.heap.size s.pCur

/-- The step deregisters or destroys the task. -/
def Label.Deregisters (l : Label) (task : Addr) : Prop := l = .deregister task ∨ l = .destroy task

/-- Only live tasks are registered. -/
def StartsLive (s : System) (l : Label) : Prop :=
  ∀ task, l.registers = some (.taskStateC task) → task ∈ s.live

/-- The step does not register the task; an attempt that fails does not. -/
def LeavesOut (task : Addr) (s : System) (l : Label) : Prop :=
  ∀ t x, s.step l = .ok t → t.trace ≠ s.trace ++ [.registered x (.taskStateC task)]

/-- No `Loop` calls the task until it is registered again. -/
def Silent (s : System) (task : Addr) : Prop :=
  ∀ u, Reaches System.step (LeavesOut task) s u →
    ∀ x v, u.step .loop = .ok v → v.trace ≠ u.trace ++ [.called x (.taskStateC task)]

/-- What deregistration is for: in `t` the ring and `pCur` hold no node of the task, which
is not called any more, and the other nodes keep their order and their place. -/
structure Deregistered (s t : System) (task : Addr) : Prop where
  ring : ¬t.ring.Holds task
  cursor : ∀ c, t.ring.pCur = some c → ¬t.ring.IsNodeOf task c
  silent : Silent t task
  order : t.ring.nodes = s.ring.nodes.filter fun x => ¬s.ring.IsNodeOf task x
  place : t.ring.upcoming = s.ring.upcoming.filter fun x => ¬s.ring.IsNodeOf task x

variable {s t u : System} {task : Addr}

theorem Shape.mem_nodes (hs : Shape s) {x : ℕ} : x ∈ s.ring.nodes ↔ x < s.ring.heap.size := by
  rw [hs.nodes_eq, hs.numbered, List.mem_reverse, List.mem_range]

theorem Shape.upcoming_eq (hs : Shape s) {k : ℕ} (hk : k ≤ s.ring.heap.size)
    (hcur : s.ring.pCur = before k) : s.ring.upcoming = (List.range k).reverse := by
  have hchain := hs.chain hk
  rw [← hcur] at hchain
  exact hchain.follow_eq hchain.length_le_size

/-! ## A task without a node is not called -/

theorem Stepped.not_holds {l : Label} (h : Stepped s l t) (hs : Shape s)
    (hl : ∀ x, t.trace ≠ s.trace ++ [.registered x (.taskStateC task)])
    (hnot : ¬s.ring.Holds task) : ¬t.ring.Holds task := by
  have ht := h.shape hs
  rintro ⟨x, hx, hxt⟩
  apply hnot
  rw [ht.mem_nodes] at hx
  cases h with
  | refuse _ => exact ⟨x, hs.mem_nodes.mpr hx, hxt⟩
  | idle _ _ => exact ⟨x, hs.mem_nodes.mpr hx, hxt⟩
  | call _ _ _ => exact ⟨x, hs.mem_nodes.mpr hx, hxt⟩
  | ret _ _ _ => exact ⟨x, hs.mem_nodes.mpr hx, hxt⟩
  | construct _ => exact ⟨x, hs.mem_nodes.mpr hx, hxt⟩
  | deregister => exact ⟨x, hs.mem_nodes.mpr hx, hxt⟩
  | destroy _ => exact ⟨x, hs.mem_nodes.mpr hx, hxt⟩
  | @register _ h _ =>
      by_cases hnew : x = s.ring.heap.size
      · subst hnew
        have hh : h = .taskStateC task := by
          simpa [TaskInternals.IsNodeOf, TaskInternals.handlerAt, TaskInternals.prepend] using hxt
        exact (hl s.ring.heap.size (by rw [hh])).elim
      · have hlt : x < s.ring.heap.size := by
          simp only [TaskInternals.prepend, Heap.size_new] at hx
          omega
        refine ⟨x, hs.mem_nodes.mpr hlt, ?_⟩
        simpa [TaskInternals.IsNodeOf, TaskInternals.handlerAt, TaskInternals.prepend,
          Heap.get_new, hnew] using hxt

theorem Shape.silent (hs : Shape s) (hnot : ¬s.ring.Holds task) : Silent s task := by
  intro u hu x v hstep htrace
  have hinv : Shape u ∧ ¬u.ring.Holds task := by
    refine hu.invariant (fun u => Shape u ∧ ¬u.ring.Holds task) ⟨hs, hnot⟩ ?_
    intro u l v hinv hl hstep
    have hstepped := stepped_of_step hstep
    exact ⟨hstepped.shape hinv.1, hstepped.not_holds hinv.1 (fun x => hl v x hstep) hinv.2⟩
  have hv := (stepped_of_step hstep).shape hinv.1
  have hreg := hv.called x (.taskStateC task) (by simp [htrace])
  have hold : Event.registered x (.taskStateC task) ∈ u.trace := by
    rw [htrace] at hreg
    simpa using hreg
  apply hinv.2
  refine ⟨x, hinv.1.mem_nodes.mpr (hinv.1.lt_of_registered hold), ?_⟩
  simp [TaskInternals.IsNodeOf, TaskInternals.handlerAt, hinv.1.node x _ hold]

/-! ## A node in the ring is called again -/

/-- A step of the kernel loop: a call of `Loop` or the return of the called task. -/
def Turns (_ : System) (l : Label) : Prop := l = .loop ∨ l = .ret

theorem Turns.leavesOut {l : Label} (hl : Turns s l) : LeavesOut task s l := by
  intro t x hstep htrace
  have hstepped := stepped_of_step hstep
  rcases hl with rfl | rfl
  · cases hstepped with
    | register hreg => cases hreg
    | refuse hreg => cases hreg
    | idle _ _ => simp at htrace
    | call _ _ _ => simp at htrace
  · cases hstepped with
    | register hreg => cases hreg
    | refuse hreg => cases hreg
    | ret _ _ _ => simp at htrace

theorem TaskInternals.select_eq {s : TaskInternals} {cur : ℕ}
    (hcur : s.pCur = some cur ∨ s.pCur = none ∧ s.pHead = some cur) :
    s.select = { s with pCur := some cur } := by
  obtain ⟨heap, pHead, pCur⟩ := s
  rcases hcur with hcur | ⟨hcur, hhead⟩
  · cases hcur
    simp [select]
  · cases hcur
    cases hhead
    simp [select]

theorem Shape.exists_loop (hs : Shape s) (hrunning : s.running = false) {cur : ℕ}
    (hcur : s.ring.pCur = some cur ∨ s.ring.pCur = none ∧ s.ring.pHead = some cur) :
    ∃ h, Event.registered cur h ∈ s.trace ∧ s.step .loop = .ok { s with
      ring := { s.ring with pCur := some cur }
      running := true
      trace := s.trace ++ [.called cur h] } := by
  obtain ⟨h, hh⟩ := hs.registered_of_lt (hs.call_lt hcur)
  refine ⟨h, hh, ?_⟩
  simp [System.step, hrunning, TaskInternals.select_eq hcur, Heap.deref_some (hs.node cur h hh)]

theorem Shape.exists_ret (hs : Shape s) (hrunning : s.running = true) {cur : ℕ}
    (hcur : s.ring.pCur = some cur) :
    s.step .ret = .ok { s with ring := { s.ring with pCur := before cur }, running := false } := by
  obtain ⟨h, hh⟩ := hs.registered_of_lt (hs.call_lt (Or.inl hcur))
  simp [System.step, hrunning, TaskInternals.advance, hcur, Heap.deref_some (hs.node cur h hh)]

/-- `Loop` can be called, and its task return, until `pCur` has come down to `j`. -/
theorem Shape.reaches_before (hs : Shape s) (hrunning : s.running = false) {k j : ℕ}
    (hcur : s.ring.pCur = before k) (hj : j ≤ k) :
    ∃ u, Reaches System.step Turns s u ∧ u.running = false ∧ u.ring.heap = s.ring.heap ∧
      u.ring.pCur = before j := by
  induction k generalizing s with
  | zero =>
      have hj0 : j = 0 := by omega
      subst hj0
      exact ⟨s, .start, hrunning, rfl, hcur⟩
  | succ k ih =>
      by_cases hjk : j = k + 1
      · subst hjk
        exact ⟨s, .start, hrunning, rfl, hcur⟩
      · obtain ⟨h, -, hloop⟩ := hs.exists_loop hrunning (Or.inl hcur)
        have hs₁ := (stepped_of_step hloop).shape hs
        have hret := hs₁.exists_ret rfl rfl
        have hs₂ := (stepped_of_step hret).shape hs₁
        obtain ⟨u, hu, hrun, hheap, hcur'⟩ := ih hs₂ rfl rfl (by omega)
        have hcalled : Reaches System.step Turns s _ := .next .start (Or.inl rfl) hloop
        have hreturned : Reaches System.step Turns s _ := .next hcalled (Or.inr rfl) hret
        exact ⟨u, hreturned.trans hu, hrun, hheap, hcur'⟩

theorem reaches_shape_of {good : System → Label → Prop} (hs : Shape s)
    (hu : Reaches System.step good s u) : Shape u :=
  (reaches_rotation hs hu).1

theorem Shape.exists_dispatches_of_lt (hs : Shape s) (hrunning : s.running = false) {k x : ℕ}
    (hcur : s.ring.pCur = before k) (hx : x < k) :
    ∃ u v, Reaches System.step Turns s u ∧ Dispatches u x v := by
  obtain ⟨u, hu, hrun, -, hcur'⟩ := hs.reaches_before hrunning hcur hx
  obtain ⟨h, -, hloop⟩ := (reaches_shape_of hs hu).exists_loop hrun (Or.inl hcur')
  exact ⟨u, _, hu, hloop, h, rfl⟩

/-- Every node of the ring is called again if `Loop` is called often enough. -/
theorem Shape.exists_dispatches (hs : Shape s) {x : ℕ} (hx : x < s.ring.heap.size) :
    ∃ u v, Reaches System.step Turns s u ∧ Dispatches u x v := by
  -- let the running task return first
  obtain ⟨s₁, hreach, hrunning, hheap⟩ : ∃ s₁, Reaches System.step Turns s s₁ ∧
      s₁.running = false ∧ s₁.ring.heap = s.ring.heap := by
    cases hrunning : s.running with
    | false => exact ⟨s, .start, hrunning, rfl⟩
    | true =>
        obtain ⟨cur, hcur⟩ := Option.ne_none_iff_exists'.mp (hs.running hrunning)
        exact ⟨_, .next .start (Or.inr rfl) (hs.exists_ret hrunning hcur), rfl, rfl⟩
  have hs₁ := reaches_shape_of hs hreach
  rw [← hheap] at hx
  obtain ⟨k, hk, hcur⟩ := hs₁.cursor
  by_cases hxk : x < k
  · obtain ⟨u, v, hu, hdisp⟩ := hs₁.exists_dispatches_of_lt hrunning hcur hxk
    exact ⟨u, v, hreach.trans hu, hdisp⟩
  -- the turn of `x` comes in the next pass, which starts at the last node
  · obtain ⟨s₂, hreach₂, hrunning₂, hheap₂, hcur₂⟩ :=
      hs₁.reaches_before hrunning hcur (Nat.zero_le k)
    have hs₂ := reaches_shape_of hs₁ hreach₂
    rw [← hheap₂] at hx
    obtain ⟨last, hlast⟩ := Nat.exists_eq_add_one_of_ne_zero (n := s₂.ring.heap.size) (by omega)
    have hhead : s₂.ring.pHead = some last := by
      rw [hs₂.head, hlast]
      rfl
    obtain ⟨h, -, hloop⟩ := hs₂.exists_loop hrunning₂ (Or.inr ⟨hcur₂, hhead⟩)
    by_cases hxlast : x = last
    · subst hxlast
      exact ⟨s₂, _, hreach.trans hreach₂, hloop, h, rfl⟩
    · have hs₃ := (stepped_of_step hloop).shape hs₂
      have hret := hs₃.exists_ret rfl rfl
      have hs₄ := (stepped_of_step hret).shape hs₃
      obtain ⟨u, v, hu, hdisp⟩ := hs₄.exists_dispatches_of_lt rfl rfl (by omega : x < last)
      have hcalled : Reaches System.step Turns s₂ _ := .next .start (Or.inl rfl) hloop
      have hreturned : Reaches System.step Turns s₂ _ := .next hcalled (Or.inr rfl) hret
      exact ⟨u, v, ((hreach.trans hreach₂).trans hreturned).trans hu, hdisp⟩

theorem Shape.registered_of_isNodeOf (hs : Shape s) {x : ℕ} (hx : x ∈ s.ring.nodes)
    (hxt : s.ring.IsNodeOf task x) : Event.registered x (.taskStateC task) ∈ s.trace := by
  obtain ⟨h, hh⟩ := hs.registered_of_lt (hs.mem_nodes.mp hx)
  have heq : h = .taskStateC task := by
    simpa [TaskInternals.IsNodeOf, TaskInternals.handlerAt, hs.node x h hh] using hxt
  rwa [heq] at hh

theorem Shape.not_silent (hs : Shape s) (hholds : s.ring.Holds task) : ¬Silent s task := by
  obtain ⟨x, hx, hxt⟩ := hholds
  obtain ⟨u, v, hu, hstep, h, htrace⟩ := hs.exists_dispatches (hs.mem_nodes.mp hx)
  obtain ⟨hus, es, hes, -⟩ := reaches_rotation hs hu
  have hreg : Event.registered x (.taskStateC task) ∈ u.trace := by
    rw [hes]
    exact List.mem_append_left _ (hs.registered_of_isNodeOf hx hxt)
  have hcalled : Event.registered x h ∈ u.trace := by
    have hv := (stepped_of_step hstep).shape hus
    have hmem := hv.called x h (by simp [htrace])
    rw [htrace] at hmem
    simpa using hmem
  have heq := (hus.node x _ hreg).symm.trans (hus.node x _ hcalled)
  simp only [Option.some.injEq, TaskState.mk.injEq, and_true] at heq
  intro hsilent
  rw [← heq] at htrace
  exact hsilent u (hu.mono fun _ _ hl => hl.leavesOut) x v hstep htrace

/-! ## What deregistration does -/

theorem ring_of_deregisters {l : Label} (hl : l.Deregisters task) (h : s.step l = .ok t) :
    t.ring = s.ring := by
  rcases hl with rfl | rfl
  · cases h
    rfl
  · simp only [System.step] at h
    split_ifs at h
    cases h
    rfl

theorem Shape.deregistered (hs : Shape s) (ht : Shape t) (hring : t.ring = s.ring)
    (hnot : ¬s.ring.Holds task) : Deregistered s t task := by
  have hother : ∀ x < s.ring.heap.size, ¬s.ring.IsNodeOf task x :=
    fun x hx hxt => hnot ⟨x, hs.mem_nodes.mpr hx, hxt⟩
  constructor
  · rwa [hring]
  · intro c hc
    rw [hring] at hc ⊢
    exact hother c (hs.call_lt (Or.inl hc))
  · apply ht.silent
    rwa [hring]
  · rw [hring, List.filter_eq_self.mpr]
    intro x hx
    simpa using hother x (hs.mem_nodes.mp hx)
  · obtain ⟨k, hk, hcur⟩ := hs.cursor
    rw [hring, List.filter_eq_self.mpr]
    intro x hx
    rw [hs.upcoming_eq hk hcur, List.mem_reverse, List.mem_range] at hx
    simpa using hother x (by omega)

/-- In every run, deregistering or destroying a task takes it out of the ring, and keeps
`Loop` from calling it until it is registered again, exactly if it had no node there. -/
theorem deregistration_complete_iff {l : Label}
    (hs : Reaches System.step (fun _ _ => True) .constructed s) (hl : l.Deregisters task)
    (hstep : s.step l = .ok t) :
    (Deregistered s t task ↔ ¬s.ring.Holds task) ∧ (Silent t task ↔ ¬s.ring.Holds task) := by
  have hshape := reaches_shape hs
  have ht := (stepped_of_step hstep).shape hshape
  have hring := ring_of_deregisters hl hstep
  refine ⟨⟨fun h => ?_, hshape.deregistered ht hring⟩, ⟨fun hsilent hholds => ?_, fun hnot => ?_⟩⟩
  · have hout := h.ring
    rwa [hring] at hout
  · rw [← hring] at hholds
    exact ht.not_silent hholds hsilent
  · exact (hshape.deregistered ht hring hnot).silent

theorem deregistration_complete_iff_neverStarted :
    ∃ s t, execute System.step .constructed
        [.construct 0x200, .construct 0x300, .start 0x300 true] = .ok s ∧
      s.step (.destroy 0x200) = .ok t ∧ Deregistered s t 0x200 := by
  let s := after System.step .constructed
    [.construct 0x200, .construct 0x300, .start 0x300 true]
  have hrun : execute System.step .constructed
    [.construct 0x200, .construct 0x300, .start 0x300 true] = .ok s := rfl
  have hstep : s.step (.destroy 0x200) = .ok (after System.step s [.destroy 0x200]) := rfl
  have hiff := deregistration_complete_iff (reaches_of_execute hrun) (Or.inr rfl) hstep
  exact ⟨s, _, hrun, hstep, hiff.1.mpr (by decide)⟩

/-- A task is started and destroyed; the next `Loop` calls it. -/
theorem destroyed_task_is_called :
    ¬∀ s, Reaches System.step StartsLive .constructed s →
      ∀ l task t, Label.Deregisters l task → s.step l = .ok t → Deregistered s t task := by
  intro hall
  let s := after System.step .constructed [.construct 0x200, .start 0x200 true]
  let t := after System.step s [.destroy 0x200]
  have hconstruct : Reaches System.step StartsLive .constructed
      (after System.step .constructed [.construct 0x200]) :=
    .next .start (l := .construct 0x200) (fun task htask => by cases htask) rfl
  have hs : Reaches System.step StartsLive .constructed s := by
    refine .next hconstruct (l := .start 0x200 true) (fun task htask => ?_) rfl
    cases htask
    exact (by decide : (0x200 : Addr) ∈
      (after System.step .constructed [.construct 0x200]).live)
  have hdereg := hall s hs (.destroy 0x200) 0x200 t (Or.inr rfl) rfl
  exact hdereg.silent t .start 0 _ rfl rfl

end EmbeddedKernel.TaskRing
