import EmbeddedKernel.Mq.AtomicQueue
import EmbeddedKernel.Mq.AtomicLists

/-!
# The operations of the message queue are atomic

Every step of the system that runs one statement at a time either keeps the related state
or is matched by one step of the machine that runs whole operations, and runs into a fault
only where that machine does.  So whatever holds of the operations taken as one step each
holds of the code, wherever interrupts arrive.
-/

namespace EmbeddedKernel.Mq.Statements

open Library HeapSections Interleaving

/-! ## The loop over the handlers -/

section Steps

variable {s t : System} {a : Recorded}

theorem dispatching_eq_some {msg : ℕ} :
    s.dispatching = some msg ↔ s.sections.call = .outside ∧ s.sections.base.post = .outside ∧
      ∃ n, s.sections.base.loop = .dispatch n msg := by
  unfold System.dispatching
  constructor
  · intro h
    split at h
    · next n msg' hcall hpost hloop =>
        cases h
        exact ⟨hcall, hpost, n, hloop⟩
    · cases h
  · rintro ⟨hcall, hpost, n, hloop⟩
    simp [hcall, hpost, hloop]

/-- A statement of the loop over the handlers is a step of the atomic machine. -/
theorem Matches.walk_effect {b : Machine} {msg : ℕ} (h : Matches s a) (walk : Walk)
    (es : List Event) (hin : s.dispatching = some msg) (htau : a.machine.tau = .ok b)
    (hmq : b.mq = a.machine.mq) (hpoint : b.point = pointOf s.sections.base.loop walk)
    (hlive : b.live = a.machine.live) (htrace : b.trace = a.machine.trace ++ es) :
    ∃ b, Reaches Recorded.step (fun _ _ => True) a b ∧
      Matches { s with walk := walk, trace := s.trace ++ es } b := by
  obtain ⟨hcall, hpost, n, hloop⟩ := dispatching_eq_some.mp hin
  have hb := Recorded.step_tau htau
  have hctl := h.control
  refine ⟨_, .single hb, h.wf.step (Recorded.step_machine hb), hmq ▸ h.flag,
    ⟨hctl.masked, hctl.budget, ?_, hctl.single, ?_⟩, hmq ▸ h.queue, hmq ▸ h.lists, hpoint,
    hlive.trans h.live, by rw [htrace, h.trace], h.interruptResults, h.taskResults⟩
  · rintro (hne | hne)
    · exact (hne hcall).elim
    · exact (hne hpost).elim
  · exact fun hne => (hne n msg hloop).elim

theorem Matches.sameLists (h : Matches s a) (hcall : s.sections.call = .outside) :
    SameLists s.sections a.machine.mq := by
  have hlists := h.lists
  simpa only [ListsMatch, hcall] using hlists

/-- While `Loop` is in its loop over the handlers the message nodes are those of the atomic
machine. -/
theorem Matches.heap (h : Matches s a) {msg : ℕ} (hin : s.dispatching = some msg) :
    a.machine.mq.queue.heap = s.sections.base.queue.heap := by
  obtain ⟨-, hpost, n, hloop⟩ := dispatching_eq_some.mp hin
  have hq := (queueMatches_of_quiet _ (by simp [hpost, PostPoint.Quiet])
    (by simp [hloop, LoopPoint.Quiet])).mp h.queue
  rw [hq]
  rfl

theorem Matches.walkStatement {msg : ℕ} (h : Matches s a) (hin : s.dispatching = some msg)
    (hstep : s.walkStatement msg = .ok t) :
    ∃ b, Reaches Recorded.step (fun _ _ => True) a b ∧ Matches t b := by
  obtain ⟨hcall, hpost, n, hloop⟩ := dispatching_eq_some.mp hin
  obtain ⟨hhandlers, hblock⟩ := h.sameLists hcall
  have hheap := h.heap hin
  have hpoint := h.point
  rw [hloop] at hpoint
  cases hw : s.walk with
  | lookup =>
      simp only [System.walkStatement, hw] at hstep
      obtain ⟨m, hm, hstep⟩ := bind_eq_ok.mp hstep
      obtain ⟨id, hid, hstep⟩ := bind_eq_ok.mp hstep
      cases hstep
      rw [← hheap] at hm
      rw [hw] at hpoint
      have htau : a.machine.tau =
          .ok { a.machine with point := .walk n msg (a.machine.mq.queueBlock id) } := by
        simp [Machine.tau, hpoint, pointOf, hm, hid]
      have hmatch := h.walk_effect (.walk (s.sections.queueBlock id)) [] hin htau rfl
        (by rw [hloop, hblock]; rfl) rfl (List.append_nil _).symm
      simpa using hmatch
  | walk cur =>
      cases cur with
      | none =>
          simp only [System.walkStatement, hw] at hstep
          obtain ⟨sections, hdone, hstep⟩ := bind_eq_ok.mp hstep
          cases hstep
          simp only [HeapSections.System.step, HeapSections.System.callerRuns,
            Interleaving.System.callerRuns, hcall, hpost, hloop, Interleaving.System.step,
            ok_bind] at hdone
          cases hdone
          rw [hw] at hpoint
          have htau : a.machine.tau = .ok { a.machine with point := .free n msg } := by
            simp [Machine.tau, hpoint, pointOf]
          have hb := Recorded.step_tau htau
          have hq := h.queue
          rw [queueMatches_of_quiet _ (by simp [hpost, PostPoint.Quiet])
            (by simp [hloop, LoopPoint.Quiet])] at hq
          refine ⟨_, .single hb, h.wf.step (Recorded.step_machine hb), h.flag,
            ⟨by simp [PostPoint.Critical, LoopPoint.Critical], by simp [popping], by simp,
              fun _ => rfl, fun _ => rfl⟩, hq, ⟨hhandlers, hblock⟩, rfl, h.live, h.trace,
            h.interruptResults, ?_⟩
          have hpending := h.taskResults
          simpa only [System.pendingResults, hcall, hpost] using hpending
      | some cur =>
          simp only [System.walkStatement, hw] at hstep
          obtain ⟨m, hm, hstep⟩ := bind_eq_ok.mp hstep
          obtain ⟨node, hnode, hstep⟩ := bind_eq_ok.mp hstep
          cases hstep
          rw [← hheap] at hm
          rw [hhandlers] at hnode
          rw [hw] at hpoint
          refine h.walk_effect (.running cur)
            [.called cur (node.handler.call m.msgid m.context)] hin
            (b := { a.machine with
              point := .running n msg cur
              trace := a.machine.trace ++ [.called cur (node.handler.call m.msgid m.context)] })
            ?_ rfl (by rw [hloop]; rfl) rfl rfl
          simp [Machine.tau, hpoint, pointOf, hm, hnode]
  | running cur => simp [System.walkStatement, hw] at hstep
  | next cur =>
      simp only [System.walkStatement, hw] at hstep
      obtain ⟨node, hnode, hstep⟩ := bind_eq_ok.mp hstep
      cases hstep
      rw [hhandlers] at hnode
      rw [hw] at hpoint
      have htau : a.machine.tau =
          .ok { a.machine with point := .walk n msg node.pNextHandler } := by
        simp [Machine.tau, hpoint, pointOf, hnode]
      have hmatch := h.walk_effect (.walk node.pNextHandler) [] hin htau rfl
        (by rw [hloop]; rfl) rfl (List.append_nil _).symm
      simpa using hmatch

/-! ## Heap operations, calls, interrupts and returns -/

theorem baseStatement_cases {u v : HeapSections.System} {alloc : Bool}
    (hstep : u.baseStatement alloc = .ok v) :
    (∃ op, v = { u with heapOp := op }) ∨
      ∃ base op, u.base.step (.statement alloc) = .ok base ∧
        v = { u with base := base, heapOp := op } := by
  unfold HeapSections.System.baseStatement at hstep
  split at hstep
  · cases hstep
    exact Or.inl ⟨_, rfl⟩
  · obtain ⟨base, hbase, heq⟩ := bind_eq_ok.mp hstep
    cases heq
    exact Or.inr ⟨base, none, hbase, rfl⟩
  · split at hstep
    · split_ifs at hstep
      · cases hstep
        exact Or.inl ⟨_, rfl⟩
      · obtain ⟨base, hbase, heq⟩ := bind_eq_ok.mp hstep
        cases heq
        exact Or.inr ⟨base, _, hbase, rfl⟩
    · obtain ⟨m, -, hstep⟩ := bind_eq_ok.mp hstep
      split_ifs at hstep <;> cases hstep <;> exact Or.inl ⟨_, rfl⟩
    · obtain ⟨base, hbase, heq⟩ := bind_eq_ok.mp hstep
      cases heq
      exact Or.inr ⟨base, _, hbase, rfl⟩

theorem taskStep_unrecorded {u : HeapSections.System} (hcall : s.sections.call = .outside)
    (htrace : u.base.trace = s.sections.base.trace) (hfree : freeEvents s.sections u = []) :
    s.taskStep u = { s with sections := u } := by
  simp [System.taskStep, added_of_eq htrace, hfree, hcall, callEvents, callResults, queueEvents,
    returnedValues]

theorem Matches.op (h : Matches s a) (op : Option HeapOp) (hcall : s.sections.call = .outside) :
    Matches (s.taskStep { s.sections with heapOp := op }) a := by
  rw [taskStep_unrecorded (u := { s.sections with heapOp := op }) hcall rfl
    (freeEvents_of_loop_eq rfl)]
  exact ⟨h.wf, h.flag, ⟨h.control.masked, h.control.budget, h.control.caller, h.control.single,
    h.control.walk⟩, h.queue, h.lists, h.point, h.live, h.trace, h.interruptResults,
    h.taskResults⟩

/-- Every statement is matched. -/
theorem Matches.statement {alloc : Bool} {u : HeapSections.System} (h : Matches s a)
    (hidle : s.dispatching = none) (hstep : s.sections.step (.statement alloc) = .ok u) :
    ∃ b, Reaches Recorded.step (fun _ _ => True) a b ∧ Matches (s.taskStep u) b := by
  simp only [HeapSections.System.step] at hstep
  split_ifs at hstep with hcall
  · rcases baseStatement_cases hstep with ⟨op, rfl⟩ | ⟨base, op, hbase, rfl⟩
    · exact ⟨a, .start, h.op op hcall⟩
    · simp only [Interleaving.System.step] at hbase
      split_ifs at hbase with hpost
      · refine h.loopStatement ⟨hcall, hpost, fun n msg hloop => ?_⟩ hbase op
        have hsome := dispatching_eq_some.mpr ⟨hcall, hpost, n, hloop⟩
        rw [hidle] at hsome
        cases hsome
      · exact h.postStatement hpost hbase op
  · exact h.callStatement hcall hstep

theorem Passed.congr {mq mq' : MQClass} {id : Fin MSG_MAX_MSG_IDS} {handler : Addr}
    {front back : List ℕ} (h : Passed mq id handler front back)
    (hhandlers : mq'.handlers = mq.handlers) (hblock : mq'.queueBlock = mq.queueBlock) :
    Passed mq' id handler front back := by
  refine ⟨by rw [MQClass.nodes_congr hhandlers hblock, h.nodes], fun x hx => ?_⟩
  rw [← h.absent x hx, MQClass.matchesAddr, MQClass.matchesAddr,
    MQClass.handlerAt_congr hhandlers]

theorem ListsMatch.congr {u : HeapSections.System} {mq mq' : MQClass} (h : ListsMatch u mq)
    (hhandlers : mq'.handlers = mq.handlers) (hblock : mq'.queueBlock = mq.queueBlock) :
    ListsMatch u mq' := by
  have hsame : SameLists u mq → SameLists u mq' := by
    rintro ⟨hu, hu'⟩
    exact ⟨hu.trans hhandlers.symm, hu'.trans hblock.symm⟩
  have hnodes := MQClass.nodes_congr hhandlers hblock
  unfold ListsMatch at h ⊢
  split at h
  · obtain ⟨hs, hne, front, back, hpassed, hp⟩ := h
    exact ⟨hsame hs, hne, front, back, hpassed.congr hhandlers hblock, hp⟩
  · obtain ⟨hs, hne, hpassed⟩ := h
    exact ⟨hsame hs, hne, hnodes _ ▸ hpassed.congr hhandlers hblock⟩
  · obtain ⟨hs, hp, k, hne, hpassed, hnew⟩ := h
    refine ⟨hs.trans hblock.symm, by rw [hhandlers, hp], k, hne, ?_, ?_⟩
    · exact hnodes _ ▸ hpassed.congr hhandlers hblock
    · rw [hhandlers, hblock, hnew]
  · obtain ⟨hs, front, back, hpassed, hp⟩ := h
    exact ⟨hsame hs, front, back, hpassed.congr hhandlers hblock, hp⟩
  · obtain ⟨hs, k, front, back, hpassed, hmatch, hp⟩ := h
    refine ⟨hsame hs, k, front, back, hpassed.congr hhandlers hblock, ?_, hp⟩
    rw [← hmatch, MQClass.matchesAddr, MQClass.matchesAddr, MQClass.handlerAt_congr hhandlers]
  · exact ⟨hhandlers.trans h.1, hblock.trans h.2⟩
  · exact hsame h

theorem quiet_of_not_critical {base : Interleaving.System}
    (h : ¬(base.post.Critical ∨ base.loop.Critical)) : base.post.Quiet ∧ base.loop.Quiet := by
  obtain ⟨hpost, hloop⟩ := not_or.mp h
  constructor
  · cases hp : base.post <;> simp_all [PostPoint.Critical, PostPoint.Quiet]
  · cases hl : base.loop <;> simp_all [LoopPoint.Critical, LoopPoint.Quiet]

/-- Interrupts are enabled only outside the critical sections, where the queues are the same. -/
theorem Matches.queue_of_enabled (h : Matches s a)
    (hflag : s.sections.base.queue.masterInterrupts = true) :
    ¬(s.sections.base.post.Critical ∨ s.sections.base.loop.Critical) ∧
      a.machine.mq.queue = s.sections.base.queue := by
  have hopen : ¬(s.sections.base.post.Critical ∨ s.sections.base.loop.Critical) := by
    intro hc
    rw [h.control.masked hc] at hflag
    cases hflag
  obtain ⟨hpost, hloop⟩ := quiet_of_not_critical hopen
  refine ⟨hopen, ?_⟩
  rw [(queueMatches_of_quiet _ hpost hloop).mp h.queue, MsgQueue.intEnableMasterInterrupts,
    ← hflag]

/-- A posting interrupt is an interrupt of the atomic machine. -/
theorem Matches.interrupt {m : Payload} {alloc : Bool} {u : HeapSections.System} (h : Matches s a)
    (hstep : s.sections.step (.interrupt m alloc) = .ok u) :
    ∃ b, Reaches Recorded.step (fun _ _ => True) a b ∧ Matches (s.interruptStep u) b := by
  obtain ⟨base, hbase, heq⟩ := bind_eq_ok.mp hstep
  cases heq
  obtain ⟨hflag, hflag', -, -⟩ := interrupt_frame hbase
  obtain ⟨hopen, hsame⟩ := h.queue_of_enabled hflag
  obtain ⟨hpost, hloop⟩ := quiet_of_not_critical hopen
  simp only [Interleaving.System.step, hflag, if_true] at hbase
  obtain ⟨⟨q, rc⟩, hq, heq⟩ := bind_eq_ok.mp hbase
  cases heq
  have hadded := added_of_append (s := s.sections)
    (t := { s.sections with base := { s.sections.base with
      queue := q, calls := s.sections.base.calls + 1
      trace := s.sections.base.trace ++
        (if rc = 0 then [.appended s.sections.base.calls m] else []) ++
        [.returned s.sections.base.calls rc] } }) (List.append_assoc _ _ _)
  have hb : a.step (.interrupt m alloc) = .ok
      { machine := { a.machine with
          mq := { a.machine.mq with queue := q }
          trace := a.machine.trace ++ Machine.postedEvents m rc }
        taskResults := a.taskResults
        interruptResults := a.interruptResults ++ [rc] } := by
    simp [Recorded.step, Machine.step, hsame, hflag, hq]
  refine ⟨_, .single hb, h.wf.step (Recorded.step_machine hb), hflag', ?_, ?_, ?_, h.point,
    h.live, ?_, ?_, h.taskResults⟩
  · exact ⟨fun hc => (hopen hc).elim, h.control.budget, h.control.caller,
      h.control.single, h.control.walk⟩
  · have henabled : q = q.intEnableMasterInterrupts := by
      rw [MsgQueue.intEnableMasterInterrupts, ← hflag']
    exact (queueMatches_of_quiet ⟨q, _, _, _, _⟩ hpost hloop).mpr henabled
  · exact h.lists.congr rfl rfl
  · rw [System.interruptStep, hadded, h.trace]
    by_cases hrc : rc = 0 <;> simp [queueEvents, Machine.postedEvents, hrc]
  · rw [System.interruptStep, hadded, h.interruptResults]
    by_cases hrc : rc = 0 <;> simp [returnedValues, hrc]

theorem callerRuns_cases (h : s.callerRuns = true) :
    s.sections.call = .outside ∧ s.sections.base.post = .outside ∧
      (s.sections.base.loop = .outside ∨
        ∃ n msg cur, s.sections.base.loop = .dispatch n msg ∧ s.walk = .running cur) := by
  simp only [System.callerRuns, HeapSections.System.callerRuns, Bool.and_eq_true,
    beq_iff_eq] at h
  obtain ⟨⟨hbase, hcall⟩, hwalk⟩ := h
  unfold Interleaving.System.callerRuns at hbase
  split at hbase
  · next hpost hloop => exact ⟨hcall, hpost, Or.inl hloop⟩
  · next n msg hpost hloop =>
      refine ⟨hcall, hpost, Or.inr ⟨n, msg, ?_⟩⟩
      have hsome := dispatching_eq_some.mpr ⟨hcall, hpost, n, hloop⟩
      rw [hsome] at hwalk
      cases hw : s.walk <;> simp_all
  · cases hbase

/-- The caller begins a call or changes the interrupt flag. -/
theorem Matches.caller_silent {base : Interleaving.System} {call : CallPoint} (h : Matches s a)
    (hruns : s.callerRuns = true)
    (hqueue : base.queue.intEnableMasterInterrupts =
      s.sections.base.queue.intEnableMasterInterrupts)
    (hloop : base.loop = s.sections.base.loop) (htrace : base.trace = s.sections.base.trace)
    (hpost : base.post = .outside ∨ ∃ c, base.post = .disable c)
    (hcall : call = .outside ∨ (∃ msgid k, call = .subscribe msgid k) ∨
      ∃ msgid k, call = .unsubscribe msgid k)
    (hone : call ≠ .outside → base.post = .outside) :
    Matches (s.taskStep { s.sections with base := base, call := call }) a := by
  obtain ⟨hout, hidle, hpoint⟩ := callerRuns_cases hruns
  have hquiet : base.post.Quiet ∧ ¬base.post.Critical ∧ postPending base.post = [] := by
    rcases hpost with hp | ⟨c, hp⟩ <;>
      simp [hp, PostPoint.Quiet, PostPoint.Critical, postPending]
  have hlquiet : s.sections.base.loop.Quiet ∧ ¬s.sections.base.loop.Critical := by
    rcases hpoint with hl | ⟨n, msg, cur, hl, -⟩ <;>
      simp [hl, LoopPoint.Quiet, LoopPoint.Critical]
  rw [taskStep_unrecorded (u := { s.sections with base := base, call := call }) hout htrace
    (freeEvents_of_loop_eq hloop)]
  refine ⟨h.wf, h.flag, ⟨?_, ?_, fun _ => ?_, hone, ?_⟩, ?_, ?_, ?_, h.live, h.trace,
    h.interruptResults, ?_⟩
  · rintro (hc | hc)
    · exact (hquiet.2.1 hc).elim
    · exact (hlquiet.2 (hloop ▸ hc)).elim
  · exact fun n hn => h.control.budget n (hloop ▸ hn)
  · exact hloop ▸ hpoint
  · exact fun hne => h.control.walk (hloop ▸ hne)
  · have hq := (queueMatches_of_quiet _ (by simp [hidle, PostPoint.Quiet]) hlquiet.1).mp h.queue
    exact (queueMatches_of_quiet base hquiet.1 (hloop ▸ hlquiet.1)).mpr (hq.trans hqueue.symm)
  · have hsame := h.sameLists hout
    rcases hcall with rfl | ⟨msgid, k, rfl⟩ | ⟨msgid, k, rfl⟩ <;> exact hsame
  · simp only [h.point, hloop]
  · rw [h.taskResults]
    simp only [System.pendingResults, hout, hidle, hquiet.2.2]
    rcases hcall with rfl | ⟨msgid, k, rfl⟩ | ⟨msgid, k, rfl⟩ <;> rfl

/-- The steps that the caller takes itself. -/
def ofCaller : HeapSections.Label → Prop
  | .interrupt _ _ | .statement _ | .handlersDone => False
  | _ => True

theorem caller_step {l : HeapSections.Label} (hl : ofCaller l)
    (hstep : s.step (.sections l) = .ok t) :
    s.callerRuns = true ∧ ∃ u, s.sections.step l = .ok u ∧ t = s.taskStep u := by
  have hshape : s.step (.sections l) =
      if s.callerRuns = true then do
        let t ← s.sections.step l
        .ok (s.taskStep t)
      else .error .notEnabled := by
    cases l <;> first | rfl | exact hl.elim
  rw [hshape] at hstep
  split_ifs at hstep with hruns
  obtain ⟨u, hu, heq⟩ := bind_eq_ok.mp hstep
  cases heq
  exact ⟨hruns, u, hu, rfl⟩

/-- The steps of the caller that begin a call or change the interrupt flag are matched. -/
theorem Matches.caller {l : HeapSections.Label} (h : Matches s a)
    (hstep : s.step (.sections l) = .ok t) (hl : ofCaller l) :
    ∃ b, Reaches Recorded.step (fun _ _ => True) a b ∧ Matches t b := by
  obtain ⟨hruns, u, hu, rfl⟩ := caller_step hl hstep
  obtain ⟨hcall, hpost, hpoint⟩ := callerRuns_cases hruns
  cases l with
  | interrupt m alloc => exact hl.elim
  | statement alloc => exact hl.elim
  | handlersDone => exact hl.elim
  | subscribe msgid k =>
      simp only [HeapSections.System.step] at hu
      split_ifs at hu
      cases hu
      exact ⟨a, .start, h.caller_silent hruns rfl rfl rfl (Or.inl hpost)
        (Or.inr (Or.inl ⟨msgid, k, rfl⟩)) fun _ => hpost⟩
  | unsubscribe msgid k =>
      simp only [HeapSections.System.step] at hu
      split_ifs at hu
      cases hu
      exact ⟨a, .start, h.caller_silent hruns rfl rfl rfl (Or.inl hpost)
        (Or.inr (Or.inr ⟨msgid, k, rfl⟩)) fun _ => hpost⟩
  | post m =>
      simp only [HeapSections.System.step] at hu
      split_ifs at hu
      obtain ⟨base, hbase, heq⟩ := bind_eq_ok.mp hu
      cases heq
      simp only [Interleaving.System.step] at hbase
      split_ifs at hbase
      cases hbase
      exact ⟨a, .start, h.caller_silent hruns rfl rfl rfl (Or.inr ⟨_, rfl⟩) (Or.inl hcall)
        fun hne => (hne hcall).elim⟩
  | loop n =>
      simp only [HeapSections.System.step] at hu
      split_ifs at hu
      obtain ⟨base, hbase, heq⟩ := bind_eq_ok.mp hu
      cases heq
      simp only [Interleaving.System.step] at hbase
      split_ifs at hbase with houtside
      cases hbase
      have hwalk := h.control.walk (by simp [houtside.2])
      have hb : a.step (.loop n) =
          .ok { a with machine := { a.machine with point := .test n } } := by
        simp [Recorded.step, Machine.step, h.point, houtside.2, pointOf]
      rw [taskStep_unrecorded
        (u := { s.sections with base := { s.sections.base with loop := .test n } }) hcall rfl
        (by simp [freeEvents, houtside.2])]
      have hq := (queueMatches_of_quiet _ (by simp [hpost, PostPoint.Quiet])
        (by simp [houtside.2, LoopPoint.Quiet])).mp h.queue
      refine ⟨_, .single hb, h.wf.step (Recorded.step_machine hb), h.flag,
        ⟨by simp [hpost, PostPoint.Critical, LoopPoint.Critical], by simp [popping],
          by simp [hcall, hpost], fun _ => hpost, fun _ => hwalk⟩, ?_, h.lists, rfl, h.live,
        h.trace, h.interruptResults, h.taskResults⟩
      exact (queueMatches_of_quiet ⟨_, .test n, _, _, _⟩ (by simp [hpost, PostPoint.Quiet])
        trivial).mpr hq
  | disableInterrupts =>
      simp only [HeapSections.System.step] at hu
      split_ifs at hu
      cases hu
      exact ⟨a, .start, h.caller_silent hruns rfl rfl rfl (Or.inl hpost) (Or.inl hcall)
        fun _ => hpost⟩
  | enableInterrupts =>
      simp only [HeapSections.System.step] at hu
      split_ifs at hu
      cases hu
      exact ⟨a, .start, h.caller_silent hruns rfl rfl rfl (Or.inl hpost) (Or.inl hcall)
        fun _ => hpost⟩

theorem Matches.callerRuns_of_runs (h : Matches s a) (hruns : s.callerRuns = true) :
    a.machine.callerRuns = true := by
  obtain ⟨-, -, hpoint⟩ := callerRuns_cases hruns
  rcases hpoint with hloop | ⟨n, msg, cur, hloop, hwalk⟩
  · simp [Machine.callerRuns, h.point, hloop, pointOf]
  · simp [Machine.callerRuns, h.point, hloop, hwalk, pointOf]

/-- A step that changes only the live receivers, the trace and the atomic machine alike. -/
theorem Matches.receivers {live : List Addr} {e : Event} {c : Call} (h : Matches s a)
    (hruns : s.callerRuns = true) (hreturns : returns c 0 = [])
    (hperform : a.machine.perform c =
      .ok ({ a.machine with live := live, trace := a.machine.trace ++ [e] }, 0)) :
    ∃ b, Reaches Recorded.step (fun _ _ => True) a b ∧
      Matches { s with live := live, trace := s.trace ++ [e] } b := by
  have hb := Recorded.step_call (h.callerRuns_of_runs hruns) hperform
  rw [hreturns, List.append_nil] at hb
  exact ⟨_, .single hb, h.wf.step (Recorded.step_machine hb), h.flag,
    ⟨h.control.masked, h.control.budget, h.control.caller, h.control.single, h.control.walk⟩,
    h.queue, h.lists, h.point, rfl, by rw [h.trace], h.interruptResults, h.taskResults⟩

/-- Every step is matched. -/
theorem Matches.step {l : Label} (h : Matches s a) (hstep : s.step l = .ok t) :
    ∃ b, Reaches Recorded.step (fun _ _ => True) a b ∧ Matches t b := by
  cases l with
  | sections l =>
      cases l with
      | interrupt m alloc =>
          obtain ⟨u, hu, heq⟩ := bind_eq_ok.mp hstep
          cases heq
          exact h.interrupt hu
      | statement alloc =>
          simp only [System.step] at hstep
          split at hstep
          · next msg hin => exact h.walkStatement hin hstep
          · next hidle =>
              obtain ⟨u, hu, heq⟩ := bind_eq_ok.mp hstep
              cases heq
              exact h.statement hidle hu
      | handlersDone => cases hstep
      | subscribe msgid k => exact h.caller hstep trivial
      | unsubscribe msgid k => exact h.caller hstep trivial
      | post m => exact h.caller hstep trivial
      | loop n => exact h.caller hstep trivial
      | disableInterrupts => exact h.caller hstep trivial
      | enableInterrupts => exact h.caller hstep trivial
  | constructReceiver r =>
      simp only [System.step] at hstep
      split_ifs at hstep with hruns
      cases hstep
      refine h.receivers (c := .constructReceiver r) hruns.1 rfl ?_
      simp [Machine.perform, h.live, hruns.2]
  | destroyReceiver r =>
      simp only [System.step] at hstep
      split_ifs at hstep with hruns
      cases hstep
      refine h.receivers (c := .destroyReceiver r) hruns.1 rfl ?_
      simp [Machine.perform, h.live, hruns.2, eventReceiverDestructor]
  | ret =>
      simp only [System.step] at hstep
      split at hstep
      · next msg cur hin hw =>
          cases hstep
          obtain ⟨hcall, hpost, n, hloop⟩ := dispatching_eq_some.mp hin
          have hb : a.step .ret =
              .ok { a with machine := { a.machine with point := .next n msg cur } } := by
            simp [Recorded.step, Machine.step, h.point, hloop, hw, pointOf]
          refine ⟨_, .single hb, h.wf.step (Recorded.step_machine hb), h.flag,
            ⟨h.control.masked, h.control.budget, by simp [hcall, hpost], h.control.single, ?_⟩,
            h.queue, h.lists, by simp [hloop, pointOf], h.live, h.trace, h.interruptResults,
            h.taskResults⟩
          exact fun hne => (hne n msg hloop).elim
      · cases hstep

/-! ## Faults -/

/-- The statements of `Post` and of the pop follow only pointers to live messages. -/
theorem Matches.base_error {alloc : Bool} {e : Stop} (h : Matches s a)
    (herr : s.sections.base.step (.statement alloc) = .error e) : e = .notEnabled := by
  have hmatch := h.queue
  have hrep := h.wf.rep
  simp only [Interleaving.System.step] at herr
  split_ifs at herr with hpost
  · cases hl : s.sections.base.loop with
    | outside =>
        simp only [Interleaving.System.loopStatement, hl] at herr
        cases herr
        rfl
    | dispatch n msg =>
        simp only [Interleaving.System.loopStatement, hl] at herr
        cases herr
        rfl
    | readFirst n =>
        simp only [Interleaving.System.loopStatement, hl] at herr
        split at herr <;> cases herr
    | advance n msg =>
        simp only [QueueMatches, hpost, hl] at hmatch
        obtain ⟨hq, hfirst⟩ := hmatch
        have hchain := hrep.chain
        rw [hfirst] at hchain
        obtain ⟨m, hm⟩ := hchain.get_of_mem hchain.head_mem
        have hget : s.sections.base.queue.heap.get msg = some m := by
          rw [hq] at hm
          exact hm
        simp [Interleaving.System.loopStatement, hl, MsgQueue.advanceFirst,
          Heap.deref_some hget] at herr
    | free n msg =>
        have hq := (queueMatches_of_quiet _ (by simp [hpost, PostPoint.Quiet])
          (by simp [hl, LoopPoint.Quiet])).mp hmatch
        obtain ⟨⟨m, hm⟩, -⟩ := h.wf.held msg (by simp [h.point, hl, pointOf, Point.held])
        have hget : s.sections.base.queue.heap.get msg = some m := by
          rw [hq] at hm
          exact hm
        simp [Interleaving.System.loopStatement, hl, MsgQueue.deleteMessage,
          Heap.deref_some hget] at herr
    | test n => simp [Interleaving.System.loopStatement, hl] at herr
    | disable n => simp [Interleaving.System.loopStatement, hl] at herr
    | clearLast n msg => simp [Interleaving.System.loopStatement, hl] at herr
    | enable n msg => simp [Interleaving.System.loopStatement, hl] at herr
    | decrement n => simp [Interleaving.System.loopStatement, hl] at herr
  · cases hp : s.sections.base.post with
    | outside => exact (hpost hp).elim
    | linkLast c p =>
        simp only [QueueMatches, hp] at hmatch
        obtain ⟨⟨-, rfl, hqueue⟩, hsome⟩ := hmatch
        have hne : a.machine.mq.queue.nodes ≠ [] := by
          intro hnil
          have hchain := hrep.chain
          rw [hnil] at hchain
          exact hsome hchain
        have hfresh := MsgQueue.detached_newMessage c.payload hrep.chain
        have hnew : MsgQueue.Rep s.sections.base.queue a.machine.mq.queue.nodes := by
          rw [hqueue]
          exact ⟨(hrep.newMessage c.payload).chain, (hrep.newMessage c.payload).last⟩
        have hdet : MsgQueue.Detached s.sections.base.queue a.machine.mq.queue.heap.size
            c.payload a.machine.mq.queue.nodes := by
          rw [hqueue]
          exact hfresh
        obtain ⟨last, hlink, -⟩ := MsgQueue.linkLast_spec hnew hne hdet
        simp [Interleaving.System.postStatement, hp, hlink] at herr
    | alloc c =>
        simp only [Interleaving.System.postStatement, hp] at herr
        split_ifs at herr
    | testFirst c p =>
        simp only [Interleaving.System.postStatement, hp] at herr
        split_ifs at herr
    | disable c => simp [Interleaving.System.postStatement, hp] at herr
    | linkFirst c p => simp [Interleaving.System.postStatement, hp] at herr
    | setLast c p => simp [Interleaving.System.postStatement, hp] at herr
    | enable c rc => simp [Interleaving.System.postStatement, hp] at herr
    | ret c rc => simp [Interleaving.System.postStatement, hp] at herr

/-- `Subscribe` and `Unsubscribe` fail only with an id out of range, as the atomic calls do. -/
theorem Matches.call_error {alloc : Bool} {e : Stop} (h : Matches s a)
    (hcall : s.sections.call ≠ .outside) (herr : s.sections.callStatement alloc = .error e) :
    ∃ l, a.step l = .error e := by
  have hs := h.wf.subscriptions
  have hruns := h.callerRuns (Or.inl hcall)
  have hlists := h.lists
  have hlive : ∀ id p, p ∈ a.machine.mq.nodes id → s.sections.handlers = a.machine.mq.handlers →
      ∃ node, s.sections.handlers.deref (some p) = .ok node := by
    intro id p hp hsame
    obtain ⟨node, hnode⟩ := (hs.chain id).get_of_mem hp
    exact ⟨node, by rw [hsame, Heap.deref_some hnode]⟩
  cases hc : s.sections.call with
  | outside => exact (hcall hc).elim
  | subscribe msgid k =>
      simp only [HeapSections.System.callStatement, hc] at herr
      split_ifs at herr with hguard
      have hindex := bind_eq_error_of_ok herr fun _ => ⟨_, rfl⟩
      have hsub : MQClass.subscribeHandler (entryOf k) a.machine.mq msgid k.addr true =
          .error e := by
        simp [MQClass.subscribeHandler, hguard, hindex, bind, Except.bind]
      refine ⟨.call (subscribeCall k msgid true), ?_⟩
      cases k with
      | mhFunction f =>
          have hfun : a.machine.mq.subscribeFunction msgid f true = .error e := hsub
          simp [Recorded.step, hruns, subscribeCall, Machine.perform, hfun, bind, Except.bind]
      | mhClass r =>
          have hrec : a.machine.mq.subscribeReceiver msgid r true = .error e := hsub
          simp [Recorded.step, hruns, subscribeCall, Machine.perform, hrec, bind, Except.bind]
  | findHandler id k p =>
      simp only [ListsMatch, hc] at hlists
      obtain ⟨hsame, -, front, back, hpassed, rfl⟩ := hlists
      cases back with
      | nil => simp [HeapSections.System.callStatement, hc] at herr
      | cons p back =>
          obtain ⟨node, hnode⟩ := hlive id p hpassed.mem hsame.1
          simp only [HeapSections.System.callStatement, hc, List.head?_cons, hnode, ok_bind] at herr
          split_ifs at herr
  | newHandler id k =>
      simp only [HeapSections.System.callStatement, hc] at herr
      split_ifs at herr
  | linkHandler id p => simp [HeapSections.System.callStatement, hc] at herr
  | unsubscribe msgid k =>
      simp only [HeapSections.System.callStatement, hc] at herr
      split_ifs at herr with hguard
      have hindex := bind_eq_error_of_ok herr fun _ => ⟨_, rfl⟩
      have huns : a.machine.mq.unsubscribeHandler msgid k.addr = .error e := by
        simp [MQClass.unsubscribeHandler, hguard, hindex, bind, Except.bind]
      refine ⟨.call (unsubscribeCall k msgid), ?_⟩
      cases k with
      | mhFunction f =>
          have hfun : a.machine.mq.unsubscribeFunction msgid f = .error e := huns
          simp [Recorded.step, hruns, unsubscribeCall, Machine.perform, hfun, bind, Except.bind]
      | mhClass r =>
          have hrec : a.machine.mq.unsubscribeReceiver msgid r = .error e := huns
          simp [Recorded.step, hruns, unsubscribeCall, Machine.perform, hrec, bind, Except.bind]
  | findEntry id k p prev =>
      simp only [ListsMatch, hc] at hlists
      obtain ⟨hsame, front, back, hpassed, rfl, rfl⟩ := hlists
      cases back with
      | nil => simp [HeapSections.System.callStatement, hc] at herr
      | cons p back =>
          obtain ⟨node, hnode⟩ := hlive id p hpassed.mem hsame.1
          simp only [HeapSections.System.callStatement, hc, List.head?_cons, hnode, ok_bind] at herr
          split_ifs at herr
  | unlink id p prev =>
      simp only [ListsMatch, hc] at hlists
      obtain ⟨hsame, k, front, back, hpassed, -, -⟩ := hlists
      obtain ⟨node, hnode⟩ := hlive id p hpassed.mem hsame.1
      cases prev <;> simp [HeapSections.System.callStatement, hc, hnode] at herr
  | deleteHandler p =>
      simp only [HeapSections.System.callStatement, hc] at herr
      split_ifs at herr
  | ret rc => simp [HeapSections.System.callStatement, hc] at herr

/-- The loop over the handlers runs into the faults of the atomic machine. -/
theorem Matches.walk_error {msg : ℕ} {e : Stop} (h : Matches s a) (hin : s.dispatching = some msg)
    (herr : s.walkStatement msg = .error e) (hne : e ≠ .notEnabled) :
    ∃ l, a.step l = .error e := by
  obtain ⟨hcall, hpost, n, hloop⟩ := dispatching_eq_some.mp hin
  obtain ⟨hhandlers, hblock⟩ := h.sameLists hcall
  have hheap := h.heap hin
  have hpoint := h.point
  rw [hloop] at hpoint
  suffices htau : a.machine.tau = .error e from
    ⟨.tau, by simp [Recorded.step, Machine.step, htau, bind, Except.bind]⟩
  cases hw : s.walk with
  | lookup =>
      rw [hw] at hpoint
      simp only [System.walkStatement, hw, ← hheap] at herr
      cases hm : a.machine.mq.queue.heap.deref (some msg) with
      | error e' => simp_all [Machine.tau, pointOf, bind, Except.bind]
      | ok m =>
          rw [hm, ok_bind] at herr
          have hindex := bind_eq_error_of_ok herr fun _ => ⟨_, rfl⟩
          simp [Machine.tau, hpoint, pointOf, hm, hindex, bind, Except.bind]
  | walk cur =>
      rw [hw] at hpoint
      cases cur with
      | none =>
          simp [System.walkStatement, hw, HeapSections.System.step,
            HeapSections.System.callerRuns, Interleaving.System.callerRuns, hcall, hpost, hloop,
            Interleaving.System.step] at herr
      | some cur =>
          simp only [System.walkStatement, hw, ← hheap, hhandlers] at herr
          cases hm : a.machine.mq.queue.heap.deref (some msg) with
          | error e' => simp_all [Machine.tau, pointOf, bind, Except.bind]
          | ok m =>
              rw [hm, ok_bind] at herr
              have hnode := bind_eq_error_of_ok herr fun _ => ⟨_, rfl⟩
              simp [Machine.tau, hpoint, pointOf, hm, hnode, bind, Except.bind]
  | running cur =>
      simp only [System.walkStatement, hw, Except.error.injEq] at herr
      exact (hne herr.symm).elim
  | next cur =>
      rw [hw] at hpoint
      simp only [System.walkStatement, hw, hhandlers] at herr
      have hnode := bind_eq_error_of_ok herr fun _ => ⟨_, rfl⟩
      simp [Machine.tau, hpoint, pointOf, hnode, bind, Except.bind]

/-- A heap operation adds no fault to the statement it belongs to. -/
theorem baseStatement_error {u : HeapSections.System} {alloc : Bool} {e : Stop}
    (herr : u.baseStatement alloc = .error e) : u.base.step (.statement alloc) = .error e := by
  unfold HeapSections.System.baseStatement at herr
  split at herr
  · cases herr
  · exact bind_eq_error_of_ok herr fun _ => ⟨_, rfl⟩
  · split at herr
    · split_ifs at herr
      exact bind_eq_error_of_ok herr fun _ => ⟨_, rfl⟩
    · next n msg hpost hloop =>
        have hderef : u.base.queue.heap.deref (some msg) = .error e := by
          refine bind_eq_error_of_ok herr fun m => ?_
          split_ifs <;> exact ⟨_, rfl⟩
        simp [Interleaving.System.step, hpost, Interleaving.System.loopStatement, hloop,
          MsgQueue.deleteMessage, hderef, bind, Except.bind]
    · exact bind_eq_error_of_ok herr fun _ => ⟨_, rfl⟩

theorem Matches.interrupt_error {m : Payload} {alloc : Bool} {e : Stop} (h : Matches s a)
    (herr : s.sections.step (.interrupt m alloc) = .error e) : e = .notEnabled := by
  have hbase := bind_eq_error_of_ok herr fun _ => ⟨_, rfl⟩
  simp only [Interleaving.System.step] at hbase
  split_ifs at hbase with hflag
  · have hpost := bind_eq_error_of_ok hbase fun _ => ⟨_, rfl⟩
    rw [← (h.queue_of_enabled hflag).2] at hpost
    rcases MsgQueue.post_cases h.wf.rep m .interrupt alloc with ⟨q, hok, -⟩ | ⟨q, hok, -⟩ <;>
      simp [hok] at hpost
  · cases hbase
    rfl

theorem caller_error {l : HeapSections.Label} {e : Stop} (hl : ofCaller l)
    (herr : s.step (.sections l) = .error e) : e = .notEnabled := by
  have hbegin : ∀ {base : Interleaving.System} {k : Interleaving.Label},
      (∃ m, k = .beginPost m) ∨ (∃ n, k = .beginLoop n) → base.step k = .error e →
      e = .notEnabled := by
    rintro base k (⟨m, rfl⟩ | ⟨n, rfl⟩) hk
    all_goals
      simp only [Interleaving.System.step] at hk
      split_ifs at hk
      cases hk
      rfl
  cases l with
  | interrupt m alloc => exact hl.elim
  | statement alloc => exact hl.elim
  | handlersDone => exact hl.elim
  | post m =>
      simp only [System.step] at herr
      split_ifs at herr
      · have hu := bind_eq_error_of_ok herr fun _ => ⟨_, rfl⟩
        simp only [HeapSections.System.step] at hu
        split_ifs at hu
        · exact hbegin (Or.inl ⟨m, rfl⟩) (bind_eq_error_of_ok hu fun _ => ⟨_, rfl⟩)
        · cases hu
          rfl
      · cases herr
        rfl
  | loop n =>
      simp only [System.step] at herr
      split_ifs at herr
      · have hu := bind_eq_error_of_ok herr fun _ => ⟨_, rfl⟩
        simp only [HeapSections.System.step] at hu
        split_ifs at hu
        · exact hbegin (Or.inr ⟨n, rfl⟩) (bind_eq_error_of_ok hu fun _ => ⟨_, rfl⟩)
        · cases hu
          rfl
      · cases herr
        rfl
  | _ =>
      simp only [System.step] at herr
      split_ifs at herr
      · have hu := bind_eq_error_of_ok herr fun _ => ⟨_, rfl⟩
        simp only [HeapSections.System.step] at hu
        split_ifs at hu
        cases hu
        rfl
      · cases herr
        rfl

/-- Every fault is a fault of the atomic machine. -/
theorem Matches.fault {l : Label} {e : Stop} (h : Matches s a) (herr : s.step l = .error e)
    (hne : e ≠ .notEnabled) : ∃ l', a.step l' = .error e := by
  cases l with
  | sections l =>
      cases l with
      | interrupt m alloc =>
          exact (hne (h.interrupt_error (bind_eq_error_of_ok herr fun _ => ⟨_, rfl⟩))).elim
      | statement alloc =>
          simp only [System.step] at herr
          split at herr
          · next msg hin => exact h.walk_error hin herr hne
          · have hsections := bind_eq_error_of_ok herr fun _ => ⟨_, rfl⟩
            simp only [HeapSections.System.step] at hsections
            split_ifs at hsections with hcall
            · exact (hne (h.base_error (baseStatement_error hsections))).elim
            · exact h.call_error hcall hsections
      | handlersDone =>
          cases herr
          exact (hne rfl).elim
      | subscribe msgid k => exact (hne (caller_error (l := .subscribe msgid k) trivial herr)).elim
      | unsubscribe msgid k =>
          exact (hne (caller_error (l := .unsubscribe msgid k) trivial herr)).elim
      | post m => exact (hne (caller_error (l := .post m) trivial herr)).elim
      | loop n => exact (hne (caller_error (l := .loop n) trivial herr)).elim
      | disableInterrupts => exact (hne (caller_error (l := .disableInterrupts) trivial herr)).elim
      | enableInterrupts => exact (hne (caller_error (l := .enableInterrupts) trivial herr)).elim
  | constructReceiver r =>
      simp only [System.step] at herr
      split_ifs at herr
      cases herr
      exact (hne rfl).elim
  | destroyReceiver r =>
      simp only [System.step] at herr
      split_ifs at herr
      cases herr
      exact (hne rfl).elim
  | ret =>
      simp only [System.step] at herr
      split at herr <;> cases herr
      exact (hne rfl).elim

end Steps

/-! ## Atomicity -/

theorem simulation :
    Simulation System.step Recorded.step (fun e => e ≠ .notEnabled) Matches where
  matched := fun _ _ _ _ h hstep => h.step hstep
  faulty := fun _ _ _ _ h herr hne => h.fault herr hne

/-- No operation is in progress and `Loop` is not taking a message off the list. -/
def System.Quiescent (s : System) : Prop :=
  s.sections.call = .outside ∧ s.sections.base.post = .outside ∧ s.sections.base.loop.Quiet

theorem Matches.quiescent {s : System} {a : Recorded} (h : Matches s a) (hq : s.Quiescent) :
    a.machine.mq.handlers = s.sections.handlers ∧
      a.machine.mq.queueBlock = s.sections.queueBlock ∧
      MsgQueue.SameMessages s.sections.base.queue a.machine.mq.queue := by
  obtain ⟨hcall, hpost, hloop⟩ := hq
  obtain ⟨hhandlers, hblock⟩ := h.sameLists hcall
  refine ⟨hhandlers.symm, hblock.symm, ?_⟩
  rw [(queueMatches_of_quiet _ (by simp [hpost, PostPoint.Quiet]) hloop).mp h.queue]
  exact ⟨rfl, rfl, rfl⟩

/-- Every run of the operations, statement by statement and with interrupts between any two
statements at which they are enabled, is a run of the machine that makes each `Subscribe`,
`Unsubscribe` and `Post`, and in `Loop` each pop, call of a handler and deletion, in one step:
the same subscriptions, posts, pops, handler calls and deletions in the same order, the same
results of the calls that have returned, the same lists and queue whenever no operation is in
progress, and the same faults. -/
theorem operations_atomic {b : Bool} {s : System}
    (hs : Reaches System.step (fun _ _ => True) (.constructed b) s) :
    ∃ a : Recorded, Reaches Recorded.step (fun _ _ => True) (.constructed true) a ∧
      a.machine.trace = s.trace ∧ a.machine.live = s.live ∧
      a.machine.point = pointOf s.sections.base.loop s.walk ∧
      a.interruptResults = s.interruptResults ∧
      a.taskResults = s.taskResults ++ s.pendingResults ∧
      (s.Quiescent → a.machine.mq.handlers = s.sections.handlers ∧
        a.machine.mq.queueBlock = s.sections.queueBlock ∧
        MsgQueue.SameMessages s.sections.base.queue a.machine.mq.queue) ∧
      ∀ l e, s.step l = .error e → e ≠ .notEnabled → ∃ l', a.step l' = .error e := by
  obtain ⟨a, ha, h⟩ := simulation.reaches (matches_constructed b) hs
  exact ⟨a, ha, h.trace, h.live, h.point, h.interruptResults, h.taskResults, h.quiescent,
    fun l e herr hne => h.fault herr hne⟩

/-- A handler is subscribed while two interrupts post to it, up to the return of `Subscribe`. -/
def interruptedSubscribe : List Label :=
  [.sections (.subscribe 3 (.mhFunction 0x100)), .sections (.statement true),
    .sections (.interrupt ⟨3, none, .caller⟩ true), .sections (.statement true),
    .sections (.statement true), .sections (.statement true),
    .sections (.interrupt ⟨3, some 7, .mq⟩ true), .sections (.statement true)]

theorem operations_atomic_interruptedSubscribe :
    ∃ (s : System) (a : Recorded),
      execute System.step (.constructed true) interruptedSubscribe = .ok s ∧
      Reaches Recorded.step (fun _ _ => True) (.constructed true) a ∧
      a.machine.trace = [.posted ⟨3, none, .caller⟩, .posted ⟨3, some 7, .mq⟩,
        .subscribed ⟨3, by decide⟩ 0] ∧
      a.taskResults = [0] := by
  let s := after System.step (.constructed true) interruptedSubscribe
  have hrun : execute System.step (.constructed true) interruptedSubscribe = .ok s := rfl
  obtain ⟨a, ha, htrace, -, -, -, hresults, -⟩ := operations_atomic (reaches_of_execute hrun)
  exact ⟨s, a, hrun, ha, htrace, hresults⟩

end EmbeddedKernel.Mq.Statements
