import EmbeddedKernel.Library.Rotation
import EmbeddedKernel.TaskRing.Model

/-!
# Fairness of the task ring

Registrations prepend nodes at any moment, also while a task runs and `pCur` is
about to move on.  Since nodes are numbered in the order of their registrations
and each leads to the one before it, the ring is a rotation: a pass starts at the
node registered last and goes down to node 0.
-/

namespace EmbeddedKernel.TaskRing

open Library

def calledNodes (es : List Event) : List ℕ :=
  es.filterMap fun
    | .called x _ => some x
    | _ => none

def registeredNodes (es : List Event) : List ℕ :=
  es.filterMap fun
    | .registered x _ => some x
    | _ => none

@[simp] theorem calledNodes_append (es fs : List Event) :
    calledNodes (es ++ fs) = calledNodes es ++ calledNodes fs := by
  simp [calledNodes]

@[simp] theorem registeredNodes_append (es fs : List Event) :
    registeredNodes (es ++ fs) = registeredNodes es ++ registeredNodes fs := by
  simp [registeredNodes]

theorem mem_registeredNodes {es : List Event} {x : ℕ} :
    x ∈ registeredNodes es ↔ ∃ h, Event.registered x h ∈ es := by
  simp only [registeredNodes, List.mem_filterMap]
  constructor
  · rintro ⟨e, he, hx⟩
    cases e with
    | registered y h =>
        cases hx
        exact ⟨h, he⟩
    | _ => cases hx
  · rintro ⟨h, hh⟩
    exact ⟨_, hh, rfl⟩

/-! ## The shape of the ring -/

/-- The pointer to the node registered before node `x`. -/
def before : ℕ → Ptr
  | 0 => none
  | x + 1 => some x

theorem before_inj {x y : ℕ} (h : before x = before y) : x = y := by
  cases x <;> cases y <;> simp_all [before]

/-- Every registration has one node, which leads to the node registered before it; `pHead`
is the last of them, `pCur` is one of them or null, and a call is of the handler the node
was registered with. -/
structure Shape (s : System) : Prop where
  numbered : registeredNodes s.trace = List.range s.ring.heap.size
  node : ∀ x h, Event.registered x h ∈ s.trace → s.ring.heap.get x = some ⟨h, before x⟩
  head : s.ring.pHead = before s.ring.heap.size
  cursor : ∃ k ≤ s.ring.heap.size, s.ring.pCur = before k
  running : s.running = true → s.ring.pCur ≠ none
  called : ∀ x h, Event.called x h ∈ s.trace → Event.registered x h ∈ s.trace

theorem shape_constructed : Shape .constructed where
  numbered := rfl
  node := by simp [System.constructed]
  head := rfl
  cursor := ⟨0, le_refl _, rfl⟩
  running := by simp [System.constructed]
  called := by simp [System.constructed]

variable {s t : System}

theorem Shape.registered_of_lt (hs : Shape s) {x : ℕ} (hx : x < s.ring.heap.size) :
    ∃ h, Event.registered x h ∈ s.trace := by
  apply mem_registeredNodes.mp
  rw [hs.numbered]
  exact List.mem_range.mpr hx

theorem Shape.lt_of_registered (hs : Shape s) {x : ℕ} {h : Handler}
    (hx : Event.registered x h ∈ s.trace) : x < s.ring.heap.size := by
  have hmem := mem_registeredNodes.mpr ⟨h, hx⟩
  rw [hs.numbered] at hmem
  exact List.mem_range.mp hmem

theorem Shape.chain (hs : Shape s) {n : ℕ} (hn : n ≤ s.ring.heap.size) :
    Chain TaskState.pNext s.ring.heap (before n) (List.range n).reverse := by
  induction n with
  | zero => rfl
  | succ n ih =>
      obtain ⟨h, hh⟩ := hs.registered_of_lt (by omega : n < s.ring.heap.size)
      rw [List.range_succ, List.reverse_append]
      exact ⟨rfl, _, hs.node n h hh, ih (by omega)⟩

theorem Shape.nodes_eq (hs : Shape s) : s.ring.nodes = (registeredNodes s.trace).reverse := by
  have hchain := hs.chain (le_refl s.ring.heap.size)
  rw [← hs.head] at hchain
  rw [hs.numbered]
  exact hchain.follow_eq hchain.length_le_size

/-- Events that are neither registrations nor calls leave the shape alone. -/
theorem Shape.quiet (hs : Shape s) {es : List Event} (live : List Addr)
    (hregistered : ∀ x h, Event.registered x h ∉ es) (hcalled : ∀ x h, Event.called x h ∉ es) :
    Shape { s with live := live, trace := s.trace ++ es } := by
  have hnil : registeredNodes es = [] := by
    rw [List.eq_nil_iff_forall_not_mem]
    intro x hx
    obtain ⟨h, hh⟩ := mem_registeredNodes.mp hx
    exact hregistered x h hh
  refine ⟨?_, ?_, hs.head, hs.cursor, hs.running, ?_⟩
  · simpa [hnil] using hs.numbered
  · intro x h hx
    exact hs.node x h ((List.mem_append.mp hx).resolve_right (hregistered x h))
  · intro x h hx
    have hold := (List.mem_append.mp hx).resolve_right (hcalled x h)
    exact List.mem_append_left _ (hs.called x h hold)

theorem Shape.prepend (hs : Shape s) (h : Handler) :
    Shape { s with
      ring := s.ring.prepend h
      trace := s.trace ++ [.registered s.ring.heap.size h] } := by
  have hsize : (s.ring.prepend h).heap.size = s.ring.heap.size + 1 := by
    simp [TaskInternals.prepend]
  refine ⟨?_, ?_, ?_, ?_, hs.running, ?_⟩
  · rw [hsize, List.range_succ, registeredNodes_append, hs.numbered]
    rfl
  · intro x h' hx
    simp only [List.mem_append, List.mem_singleton, Event.registered.injEq] at hx
    rcases hx with hx | ⟨rfl, rfl⟩
    · exact Heap.get_new_of_get _ (hs.node x h' hx)
    · simp [TaskInternals.prepend, hs.head]
  · simp only [hsize]
    rfl
  · obtain ⟨k, hk, hcur⟩ := hs.cursor
    exact ⟨k, by simp only [hsize]; omega, hcur⟩
  · intro x h' hx
    simp only [List.mem_append, List.mem_singleton, reduceCtorEq, or_false] at hx
    exact List.mem_append_left _ (hs.called x h' hx)

/-- The node `Loop` calls is the one under `pCur`, or the last one if `pCur` is null. -/
theorem Shape.call_lt (hs : Shape s) {cur : ℕ}
    (hcur : s.ring.pCur = some cur ∨ s.ring.pCur = none ∧ s.ring.pHead = some cur) :
    cur < s.ring.heap.size := by
  rcases hcur with hcur | ⟨-, hhead⟩
  · obtain ⟨k, hk, hk'⟩ := hs.cursor
    have hkc : k = cur + 1 := before_inj (hk'.symm.trans hcur)
    omega
  · have hsize : s.ring.heap.size = cur + 1 := before_inj (hs.head.symm.trans hhead)
    omega

theorem Stepped.shape {l : Label} (h : Stepped s l t) (hs : Shape s) : Shape t := by
  cases h with
  | register hl => exact hs.prepend _
  | refuse hl => exact hs
  | idle hcur hhead => exact hs
  | @call cur node hrunning hcur hnode =>
      have hlt := hs.call_lt hcur
      obtain ⟨h, hh⟩ := hs.registered_of_lt hlt
      have hget := hs.node cur h hh
      rw [hnode] at hget
      cases hget
      refine ⟨?_, ?_, hs.head, ⟨cur + 1, hlt, rfl⟩, by simp, ?_⟩
      · simpa [registeredNodes] using hs.numbered
      · intro x h' hx
        simp only [List.mem_append, List.mem_singleton, reduceCtorEq, or_false] at hx
        exact hs.node x h' hx
      · intro x h' hx
        simp only [List.mem_append, List.mem_singleton, Event.called.injEq] at hx
        rcases hx with hx | ⟨rfl, rfl⟩
        · exact List.mem_append_left _ (hs.called x h' hx)
        · exact List.mem_append_left _ hh
  | @ret cur node hrunning hcur hnode =>
      have hlt := hs.call_lt (Or.inl hcur)
      obtain ⟨h, hh⟩ := hs.registered_of_lt hlt
      have hget := hs.node cur h hh
      rw [hnode] at hget
      cases hget
      exact ⟨hs.numbered, hs.node, hs.head, ⟨cur, by simpa using hlt.le, rfl⟩, by simp, hs.called⟩
  | construct htask => exact hs.quiet _ (by simp) (by simp)
  | deregister => exact hs.quiet s.live (by simp) (by simp)
  | destroy htask => exact hs.quiet _ (by simp) (by simp)

theorem reaches_shape {good : System → Label → Prop}
    (hs : Reaches System.step good .constructed s) : Shape s :=
  hs.invariant Shape shape_constructed fun _ _ _ hshape _ hstep =>
    (stepped_of_step hstep).shape hshape

/-- Every pointer the ring follows is to one of its nodes. -/
theorem Shape.step_error (hs : Shape s) {l : Label} {e : Stop} (h : s.step l = .error e) :
    e = .notEnabled := by
  have hderef : ∀ cur, cur < s.ring.heap.size →
      ∃ node, s.ring.heap.deref (some cur) = .ok node := by
    intro cur hlt
    obtain ⟨g, hg⟩ := hs.registered_of_lt hlt
    exact ⟨_, Heap.deref_some (hs.node cur g hg)⟩
  cases l with
  | registerFunction handler context alloc => cases h
  | registerTask task alloc => cases h
  | start task alloc => cases h
  | deregister task => cases h
  | construct task =>
      simp only [System.step] at h
      split_ifs at h
      cases h
      rfl
  | destroy task =>
      simp only [System.step] at h
      split_ifs at h
      cases h
      rfl
  | loop =>
      simp only [System.step] at h
      split_ifs at h with hrunning
      · cases h
        rfl
      · rcases s.ring.select_cases with ⟨cur, hselect, hcur⟩ | ⟨hselect, hcur, hhead⟩
        · obtain ⟨node, hnode⟩ := hderef cur (hs.call_lt hcur)
          simp [hselect, hnode] at h
        · simp [hselect, hcur] at h
  | ret =>
      simp only [System.step] at h
      split_ifs at h with hrunning
      · cases hcur : s.ring.pCur with
        | none => exact (hs.running hrunning hcur).elim
        | some cur =>
            obtain ⟨node, hnode⟩ := hderef cur (hs.call_lt (Or.inl hcur))
            simp [TaskInternals.advance, hcur, hnode] at h
      · cases h
        rfl

/-! ## The ring as a rotation -/

/-- The members are the nodes; while a task runs its own turn of this pass is over. -/
def rotation (s : System) : Rotation where
  members := s.ring.heap.size
  pending :=
    match s.ring.pCur with
    | none => 0
    | some cur => if s.running = true then cur else cur + 1

theorem Shape.pending_le (hs : Shape s) : (rotation s).pending ≤ (rotation s).members := by
  cases hcur : s.ring.pCur with
  | none => simp [rotation, hcur]
  | some cur =>
      have hlt := hs.call_lt (Or.inl hcur)
      simp only [rotation, hcur]
      split_ifs <;> omega

/-- A call is a turn of the rotation, or the start of a pass if `pCur` is null. -/
theorem rotation_call {cur : ℕ} {es : List Event} (hs : Shape s) (hrunning : s.running = false)
    (hcur : s.ring.pCur = some cur ∨ s.ring.pCur = none ∧ s.ring.pHead = some cur) :
    Rotation.Step (rotation s) (some cur)
      (rotation { s with
        ring := { s.ring with pCur := some cur }
        running := true
        trace := es }) := by
  rcases hcur with hcur | ⟨hcur, hhead⟩
  · have hrot : rotation s = ⟨s.ring.heap.size, cur + 1⟩ := by
      simp [rotation, hcur, hrunning]
    rw [hrot]
    exact .turn _ _
  · have hsize : s.ring.heap.size = cur + 1 := before_inj (hs.head.symm.trans hhead)
    have hrot : rotation s = ⟨cur + 1, 0⟩ := by simp [rotation, hcur, hsize]
    rw [hrot]
    simpa [rotation, hsize] using Rotation.Step.restart cur

/-- A step of the ring is a step of the rotation, with the called node as its turn. -/
theorem Stepped.rotation {l : Label} (h : Stepped s l t) (hs : Shape s) :
    ∃ es turn, t.trace = s.trace ++ es ∧ calledNodes es = turn.toList ∧
      Rotation.Step (rotation s) turn (rotation t) := by
  cases h with
  | @register _ h hl =>
      refine ⟨_, none, rfl, rfl, ?_⟩
      have hrot : TaskRing.rotation { s with
          ring := s.ring.prepend h
          trace := s.trace ++ [.registered s.ring.heap.size h] } =
          ⟨s.ring.heap.size + 1, (TaskRing.rotation s).pending⟩ := by
        simp [TaskRing.rotation, TaskInternals.prepend]
      rw [hrot]
      exact .join s.ring.heap.size (TaskRing.rotation s).pending
  | refuse hl => exact ⟨[], none, by simp, rfl, .stay _⟩
  | idle hcur hhead => exact ⟨[], none, by simp, rfl, .stay _⟩
  | call hrunning hcur hnode => exact ⟨_, some _, rfl, rfl, rotation_call hs hrunning hcur⟩
  | @ret cur node hrunning hcur hnode =>
      obtain ⟨h, hh⟩ := hs.registered_of_lt (hs.call_lt (Or.inl hcur))
      have hget := hs.node cur h hh
      rw [hnode] at hget
      cases hget
      refine ⟨[], none, by simp, rfl, ?_⟩
      have hrot : TaskRing.rotation { s with
          ring := { s.ring with pCur := before cur }
          running := false } = TaskRing.rotation s := by
        cases cur <;> simp [TaskRing.rotation, hcur, hrunning, before]
      rw [hrot]
      exact .stay _
  | construct htask => exact ⟨_, none, rfl, rfl, .stay _⟩
  | deregister => exact ⟨_, none, rfl, rfl, .stay _⟩
  | destroy htask => exact ⟨_, none, rfl, rfl, .stay _⟩

theorem reaches_rotation {good : System → Label → Prop} (hs : Shape s)
    (hst : Reaches System.step good s t) :
    Shape t ∧ ∃ es, t.trace = s.trace ++ es ∧
      Rotation.Steps (rotation s) (calledNodes es) (rotation t) := by
  refine hst.invariant (fun t => Shape t ∧ ∃ es, t.trace = s.trace ++ es ∧
    Rotation.Steps (rotation s) (calledNodes es) (rotation t)) ⟨hs, [], by simp, .refl⟩ ?_
  intro u l v hinv _ hstep
  obtain ⟨hu, es, htrace, hsteps⟩ := hinv
  have hstepped := stepped_of_step hstep
  obtain ⟨fs, turn, htrace', hcalled, hturn⟩ := hstepped.rotation hu
  refine ⟨hstepped.shape hu, es ++ fs, by rw [htrace', htrace, List.append_assoc], ?_⟩
  rw [calledNodes_append, hcalled]
  exact hsteps.tail hturn

/-! ## Fairness -/

/-- The step is a `Loop` that calls the node `x`. -/
def Dispatches (s : System) (x : ℕ) (t : System) : Prop :=
  s.step .loop = .ok t ∧ ∃ h, t.trace = s.trace ++ [.called x h]

/-- The step is a registration that creates the node `x`. -/
def Registers (s : System) (x : ℕ) (t : System) : Prop :=
  ∃ l h, s.step l = .ok t ∧ t.trace = s.trace ++ [.registered x h]

theorem Dispatches.rotation {x : ℕ} (hs : Shape s) (h : Dispatches s x t) :
    Rotation.Step (TaskRing.rotation s) (some x) (TaskRing.rotation t) ∧
      (TaskRing.rotation t).pending = x ∧ x < (TaskRing.rotation t).members := by
  obtain ⟨hstep, h, htrace⟩ := h
  have hstepped := stepped_of_step hstep
  cases hstepped with
  | refuse hl => cases hl
  | idle hcur hhead => simp at htrace
  | register hl => cases hl
  | @call cur node hrunning hcur hnode =>
      have hx : cur = x := by
        simp only [List.append_cancel_left_eq, List.cons.injEq, Event.called.injEq] at htrace
        exact htrace.1.1
      subst hx
      exact ⟨rotation_call hs hrunning hcur, rfl, hs.call_lt hcur⟩

theorem Registers.rotation {x : ℕ} (hs : Shape s) (h : Registers s x t) :
    (TaskRing.rotation t).members = x + 1 ∧ (TaskRing.rotation t).pending ≤ x := by
  obtain ⟨l, h, hstep, htrace⟩ := h
  have hstepped := stepped_of_step hstep
  cases hstepped with
  | refuse hl => simp at htrace
  | idle hcur hhead => simp at htrace
  | call hrunning hcur hnode => simp at htrace
  | ret hrunning hcur hnode => simp at htrace
  | construct htask => simp at htrace
  | deregister => simp at htrace
  | destroy htask => simp at htrace
  | register hl =>
      have hx : s.ring.heap.size = x := by
        simp only [List.append_cancel_left_eq, List.cons.injEq, Event.registered.injEq] at htrace
        exact htrace.1.1
      subst hx
      refine ⟨by simp [TaskRing.rotation, TaskInternals.prepend], ?_⟩
      have hle := hs.pending_le
      simpa [TaskRing.rotation, TaskInternals.prepend] using hle

/-- In every state of every run: `pCur` is null or a node of the ring, every registration
has exactly one node, which holds what was registered, and a call is of what its node was
registered with; between two consecutive dispatches of a registration every other one
that existed at the first of them is dispatched exactly once, and no later one twice;
and between a registration and its first dispatch no other one is dispatched twice. -/
theorem taskRing_fair {s : System}
    (hs : Reaches System.step (fun _ _ => True) .constructed s) :
    (∀ l e, s.step l = .error e → e = .notEnabled) ∧
    (∀ c, s.ring.pCur = some c → ReachableFrom TaskState.pNext s.ring.heap s.ring.pHead c) ∧
    (s.ring.nodes = (registeredNodes s.trace).reverse ∧ s.ring.nodes.Nodup ∧
      ∀ x h, Event.registered x h ∈ s.trace → s.ring.handlerAt x = some h) ∧
    (∀ x h, Event.called x h ∈ s.trace → Event.registered x h ∈ s.trace) ∧
    (∀ x s₁ s₂ s₃, Dispatches s x s₁ → Reaches System.step (fun _ _ => True) s₁ s₂ →
      Dispatches s₂ x s₃ → ∃ es, s₂.trace = s₁.trace ++ es ∧
        (x ∉ calledNodes es → ∀ y, y ≠ x →
          (y ∈ registeredNodes s₁.trace → (calledNodes es).count y = 1) ∧
          (y ∈ registeredNodes es → (calledNodes es).count y ≤ 1))) ∧
    (∀ x s₁ s₂, Registers s x s₁ → Reaches System.step (fun _ _ => True) s₁ s₂ →
      ∃ es, s₂.trace = s₁.trace ++ es ∧
        (x ∉ calledNodes es → ∀ y, y ≠ x → (calledNodes es).count y ≤ 1)) := by
  have hshape := reaches_shape hs
  have hchain := hshape.chain (le_refl s.ring.heap.size)
  rw [← hshape.head] at hchain
  refine ⟨fun l e => hshape.step_error, ?_, ⟨hshape.nodes_eq, ?_, ?_⟩, hshape.called, ?_, ?_⟩
  · intro c hc
    rw [hchain.reachableFrom_iff, List.mem_reverse, List.mem_range]
    exact hshape.call_lt (Or.inl hc)
  · rw [hshape.nodes_eq, hshape.numbered, List.nodup_reverse]
    exact List.nodup_range
  · intro x h hx
    simp [TaskInternals.handlerAt, hshape.node x h hx]
  · intro x s₁ s₂ s₃ hfirst hs₂ hsecond
    have hshape₁ := (stepped_of_step hfirst.1).shape hshape
    obtain ⟨hshape₂, es, htrace, hsteps⟩ := reaches_rotation hshape₁ hs₂
    obtain ⟨-, hpending, hlt⟩ := hfirst.rotation hshape
    refine ⟨es, htrace, fun hnot y hne => ?_⟩
    obtain ⟨honce, htwice⟩ := hsteps.turns_between hshape₁.pending_le hpending hlt
      (hsecond.rotation hshape₂).1 hnot hne
    refine ⟨fun hy => honce ?_, fun _ => htwice⟩
    rwa [hshape₁.numbered, List.mem_range] at hy
  · intro x s₁ s₂ hregisters hs₂
    obtain ⟨hmembers, hpending⟩ := hregisters.rotation hshape
    obtain ⟨l, h, hstep, -⟩ := hregisters
    have hshape₁ := (stepped_of_step hstep).shape hshape
    obtain ⟨-, es, htrace, hsteps⟩ := reaches_rotation hshape₁ hs₂
    exact ⟨es, htrace, fun hnot y _ => hsteps.turns_before_first hmembers hpending hnot⟩

/-- A function and a task take turns; a second function is registered while the task runs. -/
def registeringRun : List Label :=
  [.registerFunction 0x100 (some 7) true, .registerTask 0x200 true, .loop,
    .registerFunction 0x300 none true, .ret, .loop, .ret, .loop]

theorem taskRing_fair_registeringRun :
    ∃ s, execute System.step .constructed registeringRun = .ok s ∧
      calledNodes s.trace = [1, 0, 2] ∧
      ∀ x h, Event.called x h ∈ s.trace → Event.registered x h ∈ s.trace := by
  let s := after System.step .constructed registeringRun
  have hrun : execute System.step .constructed registeringRun = .ok s := rfl
  obtain ⟨-, -, -, hcalled, -⟩ := taskRing_fair (reaches_of_execute hrun)
  exact ⟨s, hrun, rfl, hcalled⟩

end EmbeddedKernel.TaskRing
