import EmbeddedKernel.Mq.Matching

/-!
# The statements of `Post` and `Loop` are matched

A statement that links a message, fails to allocate it or takes one off the list is
matched by the whole operation of the atomic machine; the other statements of the
critical sections keep the state they are related to.
-/

namespace EmbeddedKernel.Mq.Statements

open Library HeapSections Interleaving

/-! ## Statements of `Post` -/

section Post

variable {s : System} {a : Recorded} {queue q : MsgQueue} {post : PostPoint}
  {trace es : List Interleaving.Event} {op : Option HeapOp} {c : PostCall}

/-- The state after a statement of `Post`. -/
def System.afterPost (s : System) (queue : MsgQueue) (post : PostPoint)
    (trace : List Interleaving.Event) (op : Option HeapOp) : HeapSections.System :=
  { s.sections with
    base := { s.sections.base with queue := queue, post := post, trace := trace }
    heapOp := op }

theorem Control.loop_of_post (h : Control s) (hpost : s.sections.base.post ≠ .outside) :
    s.sections.base.loop.Quiet ∧ ¬s.sections.base.loop.Critical := by
  rcases h.caller (Or.inr hpost) with hloop | ⟨n, msg, cur, hloop, -⟩ <;>
    simp [hloop, LoopPoint.Quiet, LoopPoint.Critical]

theorem Control.call_of_post (h : Control s) (hpost : s.sections.base.post ≠ .outside) :
    s.sections.call = .outside := by
  by_contra hne
  exact hpost (h.single hne)

theorem Control.afterPost (h : Control s) (hpost : s.sections.base.post ≠ .outside)
    (hmasked : post.Critical → queue.masterInterrupts = false) :
    Control (s.taskStep (s.afterPost queue post trace op)) where
  masked := by
    rintro (hc | hc)
    · exact hmasked hc
    · exact ((h.loop_of_post hpost).2 hc).elim
  budget := h.budget
  caller := fun _ => h.caller (Or.inr hpost)
  single := fun hne => (hne (h.call_of_post hpost)).elim
  walk := h.walk

/-- Between the statements that link a message, the atomic queue is the queue with interrupts
enabled. -/
theorem queueMatches_of_quiet (base : Interleaving.System) (hpost : base.post.Quiet)
    (hloop : base.loop.Quiet) :
    QueueMatches base q ↔ q = base.queue.intEnableMasterInterrupts := by
  unfold QueueMatches
  cases hp : base.post <;> simp [hp, PostPoint.Quiet] at hpost <;>
    cases hl : base.loop <;> simp [hl, LoopPoint.Quiet] at hloop <;> rfl

theorem queueMatches_afterPost (post : PostPoint) (hpost : post.Quiet)
    (hloop : s.sections.base.loop.Quiet) :
    QueueMatches (s.afterPost queue post trace op).base q ↔
      q = queue.intEnableMasterInterrupts :=
  queueMatches_of_quiet _ hpost hloop

/-- What a statement of `Post` records. -/
theorem taskStep_post (queue : MsgQueue) (post : PostPoint) (op : Option HeapOp)
    (hpost : s.sections.base.post ≠ .outside) (h : Control s)
    (htrace : trace = s.sections.base.trace ++ es) :
    s.taskStep (s.afterPost queue post trace op) =
      { s with
        sections := s.afterPost queue post trace op
        trace := s.trace ++ queueEvents es
        taskResults := s.taskResults ++ returnedValues es } := by
  have hadded : added s.sections (s.afterPost queue post trace op) = es := added_of_append htrace
  have hcall : callEvents s.sections.call s.sections.call = [] ∧
      callResults s.sections.call s.sections.call = [] := by
    rw [h.call_of_post hpost]
    exact ⟨rfl, rfl⟩
  have hfree : freeEvents s.sections (s.afterPost queue post trace op) = [] :=
    freeEvents_of_loop_eq rfl
  simp only [System.taskStep, hadded, hfree, List.append_nil]
  simp [System.afterPost, hcall]

/-- A statement of `Post` that the atomic machine does not see. -/
theorem Matches.post_silent (h : Matches s a) (hpost : s.sections.base.post ≠ .outside)
    (es : List Interleaving.Event) (htrace : trace = s.sections.base.trace ++ es)
    (hevents : queueEvents es = [])
    (hqueue : QueueMatches (s.afterPost queue post trace op).base a.machine.mq.queue)
    (hmasked : post.Critical → queue.masterInterrupts = false)
    (hresult : returnedValues es ++ postPending post = postPending s.sections.base.post) :
    Matches (s.taskStep (s.afterPost queue post trace op)) a := by
  have hcall := h.control.call_of_post hpost
  have hstep := taskStep_post queue post op hpost h.control htrace
  refine ⟨h.wf, h.flag, h.control.afterPost hpost hmasked, hqueue, ?_, h.point, h.live, ?_, ?_, ?_⟩
  · simpa [ListsMatch, System.taskStep, System.afterPost, hcall, SameLists] using h.lists
  · rw [hstep, h.trace, hevents, List.append_nil]
  · rw [hstep, h.interruptResults]
  · have hpending := h.taskResults
    simp only [System.pendingResults, hcall, callPending, List.nil_append] at hpending
    rw [hstep, hpending, ← hresult]
    simp [System.pendingResults, System.afterPost, hcall, callPending]

/-- The statement of `Post` that takes effect. -/
theorem Matches.post_effect {rc : ℤ} (h : Matches s a) (alloc : Bool) (c : PostCall)
    (hpost : s.sections.base.post ≠ .outside) (es : List Interleaving.Event)
    (htrace : trace = s.sections.base.trace ++ es)
    (hcall : a.machine.mq.queue.post c.payload .task alloc = .ok (q, rc))
    (hevents : queueEvents es = Machine.postedEvents c.payload rc)
    (hqueue : QueueMatches (s.afterPost queue post trace op).base q)
    (hflag : q.masterInterrupts = true)
    (hmasked : post.Critical → queue.masterInterrupts = false)
    (hbefore : postPending s.sections.base.post = [])
    (hresult : returnedValues es ++ postPending post = [rc]) :
    ∃ b, Reaches Recorded.step (fun _ _ => True) a b ∧
      Matches (s.taskStep (s.afterPost queue post trace op)) b := by
  have hout := h.control.call_of_post hpost
  have hstep := taskStep_post queue post op hpost h.control htrace
  have hperform : a.machine.perform (.post c.payload alloc) =
      .ok ({ a.machine with
        mq := { a.machine.mq with queue := q }
        trace := a.machine.trace ++ Machine.postedEvents c.payload rc }, rc) := by
    simp [Machine.perform, hcall]
  have hb := Recorded.step_call (h.callerRuns (Or.inr hpost)) hperform
  refine ⟨_, .single hb, h.wf.step (Recorded.step_machine hb), hflag,
    h.control.afterPost hpost hmasked, hqueue, ?_, h.point, h.live, ?_, ?_, ?_⟩
  · simpa [ListsMatch, System.taskStep, System.afterPost, hout, SameLists] using h.lists
  · rw [hstep, hevents, ← h.trace]
  · rw [hstep, ← h.interruptResults]
  · have hpending := h.taskResults
    simp only [System.pendingResults, hout, callPending, hbefore, List.append_nil] at hpending
    rw [hstep, hpending]
    simp only [System.pendingResults, System.afterPost, hout, callPending, returns,
      List.nil_append, List.append_assoc, hresult]

theorem post_of_empty {m : Payload} (haccepts : MsgQueue.Accepts m)
    (hnone : q.msgQueueFirst = none) :
    q.post m .task true =
      .ok (((q.newMessage m).linkFirst q.heap.size).intEnableMasterInterrupts, 0) := by
  simp [MsgQueue.post, MsgQueue.append, haccepts, MsgQueue.intDisableMasterInterrupts,
    MsgQueue.newMessage, hnone, MsgQueue.linkFirst, MsgQueue.intEnableMasterInterrupts]

theorem post_of_link {m : Payload} {linked : MsgQueue} (haccepts : MsgQueue.Accepts m)
    (hsome : q.msgQueueFirst ≠ none)
    (hlink : ({ q.newMessage m with masterInterrupts := false } : MsgQueue).linkLast q.heap.size =
      .ok linked) :
    q.post m .task true =
      .ok ((linked.setLast q.heap.size).intEnableMasterInterrupts, 0) := by
  have hnew : q.intDisableMasterInterrupts.newMessage m =
      { q.newMessage m with masterInterrupts := false } := rfl
  have hfirst : (q.intDisableMasterInterrupts.newMessage m).msgQueueFirst ≠ none := hsome
  have hsize : q.intDisableMasterInterrupts.heap.size = q.heap.size := rfl
  simp only [MsgQueue.post, MsgQueue.append, haccepts, hfirst, hsize, hnew ▸ hlink, ok_bind,
    ne_eq, reduceCtorEq, not_false_eq_true, if_true, and_self, if_false]

variable {alloc : Bool} {base : Interleaving.System}

theorem Matches.masked_of_post (h : Matches s a) (hcritical : s.sections.base.post.Critical) :
    s.sections.base.queue.masterInterrupts = false :=
  h.control.masked (Or.inl hcritical)

theorem Matches.post_disable {c : PostCall} (h : Matches s a)
    (hp : s.sections.base.post = .disable c)
    (hstep : s.sections.base.postStatement alloc = .ok base) (op : Option HeapOp) :
    ∃ b, Reaches Recorded.step (fun _ _ => True) a b ∧
      Matches (s.taskStep { s.sections with base := base, heapOp := op }) b := by
  have hpost : s.sections.base.post ≠ .outside := by simp [hp]
  have hquiet := (h.control.loop_of_post hpost).1
  have hmatch := h.queue
  simp only [Interleaving.System.postStatement, hp, Except.ok.injEq] at hstep
  subst hstep
  rw [queueMatches_of_quiet _ (by simp [hp, PostPoint.Quiet]) hquiet] at hmatch
  refine ⟨a, .start, h.post_silent hpost [] (by simp) rfl ?_ (fun _ => rfl) ?_⟩
  · apply (queueMatches_afterPost (.alloc c) trivial hquiet).mpr
    rw [hmatch]
    rfl
  · simp [hp, postPending, returnedValues]

theorem Matches.post_alloc {c : PostCall} (h : Matches s a)
    (hp : s.sections.base.post = .alloc c)
    (hstep : s.sections.base.postStatement alloc = .ok base) (op : Option HeapOp) :
    ∃ b, Reaches Recorded.step (fun _ _ => True) a b ∧
      Matches (s.taskStep { s.sections with base := base, heapOp := op }) b := by
  have hpost : s.sections.base.post ≠ .outside := by simp [hp]
  have hquiet := (h.control.loop_of_post hpost).1
  have hmask := h.masked_of_post (by simp [hp, PostPoint.Critical])
  have hmatch := h.queue
  simp only [Interleaving.System.postStatement, hp] at hstep
  rw [queueMatches_of_quiet _ (by simp [hp, PostPoint.Quiet]) hquiet] at hmatch
  split_ifs at hstep with hacc
  · cases hstep
    refine ⟨a, .start, h.post_silent hpost [] (by simp) rfl ?_ (fun _ => hmask) ?_⟩
    · refine ⟨hacc.1, by simp [hmatch, MsgQueue.intEnableMasterInterrupts], ?_⟩
      simp [System.afterPost, hmatch, MsgQueue.intEnableMasterInterrupts,
        MsgQueue.newMessage, ← hmask]
    · simp [hp, postPending, returnedValues]
  · cases hstep
    refine h.post_effect (q := a.machine.mq.queue) alloc c hpost [] (by simp) ?_ rfl ?_ h.flag
      (fun _ => hmask) (by simp [hp, postPending]) rfl
    · rw [hmatch]
      simp only [MsgQueue.post, MsgQueue.append_of_refused hacc, ok_bind]
      rfl
    · exact (queueMatches_afterPost (.enable c (-1)) trivial hquiet).mpr hmatch

theorem Matches.post_testFirst {c : PostCall} {p : ℕ} (h : Matches s a)
    (hp : s.sections.base.post = .testFirst c p)
    (hstep : s.sections.base.postStatement alloc = .ok base) (op : Option HeapOp) :
    ∃ b, Reaches Recorded.step (fun _ _ => True) a b ∧
      Matches (s.taskStep { s.sections with base := base, heapOp := op }) b := by
  have hpost : s.sections.base.post ≠ .outside := by simp [hp]
  have hmask := h.masked_of_post (by simp [hp, PostPoint.Critical])
  have hmatch := h.queue
  simp only [QueueMatches, hp] at hmatch
  have hfirst : s.sections.base.queue.msgQueueFirst = a.machine.mq.queue.msgQueueFirst := by
    rw [hmatch.queue]
    rfl
  simp only [Interleaving.System.postStatement, hp] at hstep
  split_ifs at hstep with hnone
  · cases hstep
    refine ⟨a, .start, h.post_silent hpost [] (by simp) rfl ?_ (fun _ => hmask) ?_⟩
    · exact ⟨hmatch, hfirst ▸ hnone⟩
    · simp [hp, postPending, returnedValues]
  · cases hstep
    refine ⟨a, .start, h.post_silent hpost [] (by simp) rfl ?_ (fun _ => hmask) ?_⟩
    · exact ⟨hmatch, hfirst ▸ hnone⟩
    · simp [hp, postPending, returnedValues]

/-- `Post` takes effect when the message is linked. -/
theorem Matches.post_linkFirst {c : PostCall} {p : ℕ} (h : Matches s a)
    (hp : s.sections.base.post = .linkFirst c p)
    (hstep : s.sections.base.postStatement alloc = .ok base) (op : Option HeapOp) :
    ∃ b, Reaches Recorded.step (fun _ _ => True) a b ∧
      Matches (s.taskStep { s.sections with base := base, heapOp := op }) b := by
  have hpost : s.sections.base.post ≠ .outside := by simp [hp]
  have hquiet := (h.control.loop_of_post hpost).1
  have hmask := h.masked_of_post (by simp [hp, PostPoint.Critical])
  have hmatch := h.queue
  simp only [QueueMatches, hp] at hmatch
  obtain ⟨⟨haccepts, rfl, hqueue⟩, hnone⟩ := hmatch
  simp only [Interleaving.System.postStatement, hp, Except.ok.injEq] at hstep
  subst hstep
  refine h.post_effect true c hpost [.appended c.ticket c.payload] rfl
    (post_of_empty haccepts hnone) rfl ?_ rfl (fun _ => hmask)
    (by simp [hp, postPending]) rfl
  apply (queueMatches_afterPost (.enable c 0) trivial hquiet).mpr
  rw [hqueue]
  rfl

theorem Matches.post_linkLast {c : PostCall} {p : ℕ} (h : Matches s a)
    (hp : s.sections.base.post = .linkLast c p)
    (hstep : s.sections.base.postStatement alloc = .ok base) (op : Option HeapOp) :
    ∃ b, Reaches Recorded.step (fun _ _ => True) a b ∧
      Matches (s.taskStep { s.sections with base := base, heapOp := op }) b := by
  have hpost : s.sections.base.post ≠ .outside := by simp [hp]
  have hmask := h.masked_of_post (by simp [hp, PostPoint.Critical])
  have hmatch := h.queue
  simp only [QueueMatches, hp] at hmatch
  obtain ⟨⟨haccepts, rfl, hqueue⟩, hsome⟩ := hmatch
  simp only [Interleaving.System.postStatement, hp] at hstep
  obtain ⟨linked, hlink, heq⟩ := bind_eq_ok.mp hstep
  cases heq
  rw [hqueue] at hlink
  exact h.post_effect true c hpost [.appended c.ticket c.payload] rfl
    (post_of_link haccepts hsome hlink) rfl rfl rfl (fun _ => MsgQueue.linkLast_flag hlink)
    (by simp [hp, postPending]) rfl

theorem Matches.post_setLast {c : PostCall} {p : ℕ} (h : Matches s a)
    (hp : s.sections.base.post = .setLast c p)
    (hstep : s.sections.base.postStatement alloc = .ok base) (op : Option HeapOp) :
    ∃ b, Reaches Recorded.step (fun _ _ => True) a b ∧
      Matches (s.taskStep { s.sections with base := base, heapOp := op }) b := by
  have hpost : s.sections.base.post ≠ .outside := by simp [hp]
  have hquiet := (h.control.loop_of_post hpost).1
  have hmask := h.masked_of_post (by simp [hp, PostPoint.Critical])
  have hmatch := h.queue
  simp only [QueueMatches, hp] at hmatch
  simp only [Interleaving.System.postStatement, hp, Except.ok.injEq] at hstep
  subst hstep
  refine ⟨a, .start, h.post_silent hpost [] (by simp) rfl ?_ (fun _ => hmask) ?_⟩
  · apply (queueMatches_afterPost (.enable c 0) trivial hquiet).mpr
    rw [hmatch]
  · simp [hp, postPending, returnedValues]

theorem Matches.post_enable {c : PostCall} {rc : ℤ} (h : Matches s a)
    (hp : s.sections.base.post = .enable c rc)
    (hstep : s.sections.base.postStatement alloc = .ok base) (op : Option HeapOp) :
    ∃ b, Reaches Recorded.step (fun _ _ => True) a b ∧
      Matches (s.taskStep { s.sections with base := base, heapOp := op }) b := by
  have hpost : s.sections.base.post ≠ .outside := by simp [hp]
  have hquiet := (h.control.loop_of_post hpost).1
  have hmatch := h.queue
  rw [queueMatches_of_quiet _ (by simp [hp, PostPoint.Quiet]) hquiet] at hmatch
  simp only [Interleaving.System.postStatement, hp, Except.ok.injEq] at hstep
  subst hstep
  refine ⟨a, .start, h.post_silent hpost [] (by simp) rfl ?_ (by simp [PostPoint.Critical]) ?_⟩
  · apply (queueMatches_afterPost (.ret c rc) trivial hquiet).mpr
    rw [hmatch]
    rfl
  · simp [hp, postPending, returnedValues]

theorem Matches.post_ret {c : PostCall} {rc : ℤ} (h : Matches s a)
    (hp : s.sections.base.post = .ret c rc)
    (hstep : s.sections.base.postStatement alloc = .ok base) (op : Option HeapOp) :
    ∃ b, Reaches Recorded.step (fun _ _ => True) a b ∧
      Matches (s.taskStep { s.sections with base := base, heapOp := op }) b := by
  have hpost : s.sections.base.post ≠ .outside := by simp [hp]
  have hquiet := (h.control.loop_of_post hpost).1
  have hmatch := h.queue
  rw [queueMatches_of_quiet _ (by simp [hp, PostPoint.Quiet]) hquiet] at hmatch
  simp only [Interleaving.System.postStatement, hp, Except.ok.injEq] at hstep
  subst hstep
  refine ⟨a, .start, h.post_silent hpost [.returned c.ticket rc] rfl rfl ?_
    (by simp [PostPoint.Critical]) ?_⟩
  · apply (queueMatches_afterPost .outside trivial hquiet).mpr
    rw [hmatch]
  · simp [hp, postPending, returnedValues]

/-- Every statement of `Post` is matched. -/
theorem Matches.postStatement (h : Matches s a) (hpost : s.sections.base.post ≠ .outside)
    (hstep : s.sections.base.postStatement alloc = .ok base) (op : Option HeapOp) :
    ∃ b, Reaches Recorded.step (fun _ _ => True) a b ∧
      Matches (s.taskStep { s.sections with base := base, heapOp := op }) b := by
  cases hp : s.sections.base.post with
  | outside => exact (hpost hp).elim
  | disable c => exact h.post_disable hp hstep op
  | alloc c => exact h.post_alloc hp hstep op
  | testFirst c p => exact h.post_testFirst hp hstep op
  | linkFirst c p => exact h.post_linkFirst hp hstep op
  | linkLast c p => exact h.post_linkLast hp hstep op
  | setLast c p => exact h.post_setLast hp hstep op
  | enable c rc => exact h.post_enable hp hstep op
  | ret c rc => exact h.post_ret hp hstep op

end Post

/-! ## Statements of `Loop` outside the loop over the handlers -/

section Loop

variable {s : System} {a : Recorded} {queue q : MsgQueue} {loop : LoopPoint}
  {trace es : List Interleaving.Event} {op : Option HeapOp}

/-- The state after a statement of `Loop`. -/
def System.afterLoop (s : System) (queue : MsgQueue) (loop : LoopPoint)
    (trace : List Interleaving.Event) (op : Option HeapOp) : HeapSections.System :=
  { s.sections with
    base := { s.sections.base with queue := queue, loop := loop, trace := trace }
    heapOp := op }

/-- `Loop` is in control and not in its loop over the handlers. -/
structure System.InLoop (s : System) : Prop where
  call : s.sections.call = .outside
  post : s.sections.base.post = .outside
  loop : ∀ n msg, s.sections.base.loop ≠ .dispatch n msg

theorem Control.afterLoop (h : Control s) (hin : s.InLoop)
    (hmasked : loop.Critical → queue.masterInterrupts = false)
    (hbudget : ∀ n, popping loop = some n → n ≠ 0) :
    Control (s.taskStep (s.afterLoop queue loop trace op)) where
  masked := by
    rintro (hc | hc)
    · have hout : s.sections.base.post.Critical := hc
      simp [hin.post, PostPoint.Critical] at hout
    · exact hmasked hc
  budget := hbudget
  caller := by
    rintro (hne | hne)
    · exact (hne hin.call).elim
    · exact (hne hin.post).elim
  single := fun hne => (hne hin.call).elim
  walk := fun _ => h.walk hin.loop

theorem System.InLoop.quiet (hin : s.InLoop) : s.sections.base.post.Quiet := by
  simp [hin.post, PostPoint.Quiet]

theorem queueMatches_afterLoop (loop : LoopPoint) (hin : s.InLoop) (hloop : loop.Quiet) :
    QueueMatches (s.afterLoop queue loop trace op).base q ↔
      q = queue.intEnableMasterInterrupts :=
  queueMatches_of_quiet _ hin.quiet hloop

/-- What a statement of `Loop` records. -/
theorem taskStep_loop (queue : MsgQueue) (loop : LoopPoint) (op : Option HeapOp) (hin : s.InLoop)
    (htrace : trace = s.sections.base.trace ++ es) :
    s.taskStep (s.afterLoop queue loop trace op) =
      { s with
        sections := s.afterLoop queue loop trace op
        trace := s.trace ++ (queueEvents es ++
          freeEvents s.sections (s.afterLoop queue loop trace op))
        taskResults := s.taskResults ++ returnedValues es } := by
  have hadded : added s.sections (s.afterLoop queue loop trace op) = es := added_of_append htrace
  have hcall : (s.afterLoop queue loop trace op).call = .outside := hin.call
  simp [System.taskStep, hadded, hcall, hin.call, callEvents, callResults]

/-- A statement of `Loop` that the atomic machine does not see. -/
theorem Matches.loop_silent (h : Matches s a) (hin : s.InLoop)
    (hqueue : QueueMatches (s.afterLoop queue loop s.sections.base.trace op).base
      a.machine.mq.queue)
    (hmasked : loop.Critical → queue.masterInterrupts = false)
    (hbudget : ∀ n, popping loop = some n → n ≠ 0)
    (hfree : freeEvents s.sections (s.afterLoop queue loop s.sections.base.trace op) = [])
    (hpoint : pointOf loop .lookup = pointOf s.sections.base.loop .lookup) :
    Matches (s.taskStep (s.afterLoop queue loop s.sections.base.trace op)) a := by
  have hstep := taskStep_loop queue loop op hin (List.append_nil s.sections.base.trace).symm
  have hwalk := h.control.walk hin.loop
  refine ⟨h.wf, h.flag, h.control.afterLoop hin hmasked hbudget, hqueue, ?_, ?_, h.live, ?_, ?_, ?_⟩
  · simpa [ListsMatch, System.taskStep, System.afterLoop, hin.call, SameLists] using h.lists
  · rw [h.point]
    simp only [System.taskStep, System.afterLoop, hwalk, hpoint]
  · rw [hstep, hfree, h.trace]
    exact (List.append_nil _).symm
  · rw [hstep, h.interruptResults]
  · rw [hstep, h.taskResults]
    simp [System.pendingResults, System.afterLoop, returnedValues]

/-- The statements of `Loop` that take effect. -/
theorem Matches.loop_effect {b : Machine} (h : Matches s a) (hin : s.InLoop)
    (es : List Interleaving.Event) (htrace : trace = s.sections.base.trace ++ es)
    (htau : a.machine.tau = .ok b)
    (hqueue : QueueMatches (s.afterLoop queue loop trace op).base b.mq.queue)
    (hflag : b.mq.queue.masterInterrupts = true)
    (hmasked : loop.Critical → queue.masterInterrupts = false)
    (hbudget : ∀ n, popping loop = some n → n ≠ 0)
    (hlists : b.mq.handlers = a.machine.mq.handlers ∧ b.mq.queueBlock = a.machine.mq.queueBlock)
    (hpoint : b.point = pointOf loop .lookup) (hlive : b.live = a.machine.live)
    (hevents : b.trace = a.machine.trace ++ (queueEvents es ++
      freeEvents s.sections (s.afterLoop queue loop trace op)))
    (hreturned : returnedValues es = []) :
    ∃ b, Reaches Recorded.step (fun _ _ => True) a b ∧
      Matches (s.taskStep (s.afterLoop queue loop trace op)) b := by
  have hstep := taskStep_loop queue loop op hin htrace
  have hwalk := h.control.walk hin.loop
  have hb := Recorded.step_tau htau
  refine ⟨_, .single hb, h.wf.step (Recorded.step_machine hb), hflag,
    h.control.afterLoop hin hmasked hbudget, hqueue, ?_, ?_, ?_, ?_, ?_, ?_⟩
  · have hsame := h.lists
    simp only [ListsMatch, hin.call, SameLists] at hsame
    simp [ListsMatch, System.taskStep, System.afterLoop, hin.call, SameLists, hlists, hsame]
  · simp only [System.taskStep, System.afterLoop, hwalk, hpoint]
  · exact hlive.trans h.live
  · rw [hstep, hevents, h.trace]
  · rw [hstep, ← h.interruptResults]
  · rw [hstep, hreturned]
    simpa [System.pendingResults, System.afterLoop] using h.taskResults

theorem clearLast_enable (q : MsgQueue) :
    q.clearLast.intEnableMasterInterrupts = q.intEnableMasterInterrupts.clearLast := by
  by_cases hnone : q.msgQueueFirst = none <;>
    simp [MsgQueue.clearLast, MsgQueue.intEnableMasterInterrupts, hnone]

theorem pop_of_empty (hnone : q.msgQueueFirst = none) (hflag : q.masterInterrupts = true) :
    q.pop = .ok (q, none) := by
  obtain ⟨heap, first, last, flag⟩ := q
  simp only at hnone hflag
  subst hnone hflag
  rfl

/-- The pop of the atomic machine in terms of the statements of `Loop`. -/
theorem pop_of_first {msg : ℕ} {m : Message} (hfirst : q.msgQueueFirst = some msg)
    (hm : q.heap.get msg = some m) :
    q.pop = .ok (({ q with msgQueueFirst := m.pNextMsg } :
      MsgQueue).clearLast.intEnableMasterInterrupts, some msg) := by
  simp only [MsgQueue.pop, MsgQueue.intDisableMasterInterrupts, hfirst, MsgQueue.advanceFirst,
    Heap.deref_some hm, ok_bind]
  rw [clearLast_enable, clearLast_enable]
  rfl

variable {base : Interleaving.System}

theorem Matches.masked_of_loop (h : Matches s a) (hcritical : s.sections.base.loop.Critical) :
    s.sections.base.queue.masterInterrupts = false :=
  h.control.masked (Or.inr hcritical)

theorem Matches.queue_of_quiet (h : Matches s a) (hin : s.InLoop)
    (hloop : s.sections.base.loop.Quiet) :
    a.machine.mq.queue = s.sections.base.queue.intEnableMasterInterrupts :=
  (queueMatches_of_quiet _ hin.quiet hloop).mp h.queue

theorem Matches.point_of_loop (h : Matches s a) (hin : s.InLoop) :
    a.machine.point = pointOf s.sections.base.loop .lookup := by
  rw [h.point, h.control.walk hin.loop]

theorem Matches.loop_test {n : ℤ} (h : Matches s a) (hin : s.InLoop)
    (hl : s.sections.base.loop = .test n)
    (hstep : s.sections.base.loopStatement = .ok base) (op : Option HeapOp) :
    ∃ b, Reaches Recorded.step (fun _ _ => True) a b ∧
      Matches (s.taskStep { s.sections with base := base, heapOp := op }) b := by
  have hquiet := h.queue_of_quiet hin
  have hpoint := h.point_of_loop hin
  simp only [Interleaving.System.loopStatement, hl, Except.ok.injEq] at hstep
  subst hstep
  rw [hl] at hquiet hpoint
  by_cases hn : n = 0
  · subst hn
    refine h.loop_effect hin [] (by simp) (b := { a.machine with point := .outside }) ?_ ?_
      h.flag ?_ ?_ ⟨rfl, rfl⟩ rfl rfl ?_ rfl
    · simp [Machine.tau, hpoint, pointOf]
    · exact (queueMatches_afterLoop .outside hin trivial).mpr (hquiet trivial)
    · simp [LoopPoint.Critical]
    · simp [popping]
    · simp [freeEvents, hl, queueEvents]
  · refine ⟨a, .start, ?_⟩
    rw [if_pos hn]
    apply h.loop_silent hin
    · exact (queueMatches_afterLoop (.disable n) hin trivial).mpr (hquiet trivial)
    · simp [LoopPoint.Critical]
    · simpa [popping] using hn
    · simp [freeEvents, hl]
    · simp [pointOf, hl]

theorem Matches.loop_disable {n : ℤ} (h : Matches s a) (hin : s.InLoop)
    (hl : s.sections.base.loop = .disable n)
    (hstep : s.sections.base.loopStatement = .ok base) (op : Option HeapOp) :
    ∃ b, Reaches Recorded.step (fun _ _ => True) a b ∧
      Matches (s.taskStep { s.sections with base := base, heapOp := op }) b := by
  have hquiet := h.queue_of_quiet hin
  have hbudget := h.control.budget
  simp only [Interleaving.System.loopStatement, hl, Except.ok.injEq] at hstep
  subst hstep
  rw [hl] at hquiet hbudget
  refine ⟨a, .start, ?_⟩
  apply h.loop_silent hin
  · exact (queueMatches_afterLoop (.readFirst n) hin trivial).mpr (hquiet trivial)
  · exact fun _ => rfl
  · exact hbudget
  · simp [freeEvents, hl]
  · simp [pointOf, hl]

/-- A pop that finds nothing takes effect when it reads `MsgQueueFirst`. -/
theorem Matches.loop_readFirst {n : ℤ} (h : Matches s a) (hin : s.InLoop)
    (hl : s.sections.base.loop = .readFirst n)
    (hstep : s.sections.base.loopStatement = .ok base) (op : Option HeapOp) :
    ∃ b, Reaches Recorded.step (fun _ _ => True) a b ∧
      Matches (s.taskStep { s.sections with base := base, heapOp := op }) b := by
  have hquiet := h.queue_of_quiet hin
  have hpoint := h.point_of_loop hin
  have hbudget := h.control.budget
  have hmask := h.masked_of_loop (by simp [hl, LoopPoint.Critical])
  rw [hl] at hquiet hbudget hpoint
  have hq := hquiet trivial
  have hn : n ≠ 0 := hbudget n rfl
  simp only [Interleaving.System.loopStatement, hl] at hstep
  split at hstep
  · next hnone =>
      cases hstep
      have hempty : a.machine.mq.queue.msgQueueFirst = none := by
        rw [hq]
        exact hnone
      have hpop := pop_of_empty hempty h.flag
      refine h.loop_effect hin [] (by simp) (b := { a.machine with point := .decrement n }) ?_
        ?_ h.flag (fun _ => hmask) ?_ ⟨rfl, rfl⟩ rfl rfl ?_ rfl
      · simp [Machine.tau, hpoint, pointOf, hn, hpop]
      · exact (queueMatches_afterLoop (.enable n none) hin trivial).mpr hq
      · simp [popping]
      · simp [freeEvents, hl, queueEvents]
  · next msg hsome =>
      cases hstep
      refine ⟨a, .start, ?_⟩
      apply h.loop_silent hin
      · simp only [QueueMatches, System.afterLoop, hin.post]
        refine ⟨hq, ?_⟩
        rw [hq]
        exact hsome
      · exact fun _ => hmask
      · exact hbudget
      · simp [freeEvents, hl]
      · simp [pointOf, hl]

/-- A pop takes effect when `MsgQueueFirst` is assigned. -/
theorem Matches.loop_advance {n : ℤ} {msg : ℕ} (h : Matches s a) (hin : s.InLoop)
    (hl : s.sections.base.loop = .advance n msg)
    (hstep : s.sections.base.loopStatement = .ok base) (op : Option HeapOp) :
    ∃ b, Reaches Recorded.step (fun _ _ => True) a b ∧
      Matches (s.taskStep { s.sections with base := base, heapOp := op }) b := by
  have hpoint := h.point_of_loop hin
  have hbudget := h.control.budget
  have hmask := h.masked_of_loop (by simp [hl, LoopPoint.Critical])
  rw [hl] at hbudget hpoint
  have hn : n ≠ 0 := hbudget n rfl
  have hmatch := h.queue
  simp only [QueueMatches, hin.post, hl] at hmatch
  obtain ⟨hq, hfirst⟩ := hmatch
  simp only [Interleaving.System.loopStatement, hl] at hstep
  obtain ⟨m, hm, hstep⟩ := bind_eq_ok.mp hstep
  simp only [MsgQueue.advanceFirst, hm, ok_bind, Except.ok.injEq] at hstep
  subst hstep
  have hget : a.machine.mq.queue.heap.get msg = some m := by
    rw [hq]
    exact Heap.get_of_deref hm
  have hpop := pop_of_first hfirst hget
  have hheap : (({ a.machine.mq.queue with msgQueueFirst := m.pNextMsg } :
      MsgQueue).clearLast.intEnableMasterInterrupts).heap = a.machine.mq.queue.heap := by
    by_cases hnone : m.pNextMsg = none <;>
      simp [MsgQueue.clearLast, MsgQueue.intEnableMasterInterrupts, hnone]
  refine h.loop_effect hin [.popped m.toPayload] rfl (b := { a.machine with
    mq := { a.machine.mq with
      queue := ({ a.machine.mq.queue with msgQueueFirst := m.pNextMsg } :
        MsgQueue).clearLast.intEnableMasterInterrupts }
    point := .lookup n msg
    trace := a.machine.trace ++ [.popped m.toPayload] }) ?_ ?_ rfl (fun _ => hmask) ?_
    ⟨rfl, rfl⟩ rfl rfl ?_ rfl
  · simp only [Machine.tau, hpoint, pointOf, hn, if_false, hpop, ok_bind, hheap,
      Heap.deref_some hget]
  · simp only [QueueMatches, System.afterLoop, hin.post]
    rw [hq, clearLast_enable, clearLast_enable]
    rfl
  · simp [popping]
  · simp [freeEvents, hl, queueEvents]

theorem Matches.loop_clearLast {n : ℤ} {msg : ℕ} (h : Matches s a) (hin : s.InLoop)
    (hl : s.sections.base.loop = .clearLast n msg)
    (hstep : s.sections.base.loopStatement = .ok base) (op : Option HeapOp) :
    ∃ b, Reaches Recorded.step (fun _ _ => True) a b ∧
      Matches (s.taskStep { s.sections with base := base, heapOp := op }) b := by
  have hmask := h.masked_of_loop (by simp [hl, LoopPoint.Critical])
  have hmatch := h.queue
  simp only [QueueMatches, hin.post, hl] at hmatch
  simp only [Interleaving.System.loopStatement, hl, Except.ok.injEq] at hstep
  subst hstep
  refine ⟨a, .start, ?_⟩
  apply h.loop_silent hin
  · exact (queueMatches_afterLoop (.enable n (some msg)) hin trivial).mpr hmatch
  · intro _
    rw [MsgQueue.clearLast_flag]
    exact hmask
  · simp [popping]
  · simp [freeEvents, hl]
  · simp [pointOf, hl]

theorem Matches.loop_enable {n : ℤ} {msg : Ptr} (h : Matches s a) (hin : s.InLoop)
    (hl : s.sections.base.loop = .enable n msg)
    (hstep : s.sections.base.loopStatement = .ok base) (op : Option HeapOp) :
    ∃ b, Reaches Recorded.step (fun _ _ => True) a b ∧
      Matches (s.taskStep { s.sections with base := base, heapOp := op }) b := by
  have hquiet := h.queue_of_quiet hin
  rw [hl] at hquiet
  simp only [Interleaving.System.loopStatement, hl, Except.ok.injEq] at hstep
  subst hstep
  refine ⟨a, .start, ?_⟩
  apply h.loop_silent hin
  · cases msg with
    | none => exact (queueMatches_afterLoop (.decrement n) hin trivial).mpr (hquiet trivial)
    | some p => exact (queueMatches_afterLoop (.dispatch n p) hin trivial).mpr (hquiet trivial)
  · cases msg <;> simp [LoopPoint.Critical]
  · cases msg <;> simp [popping]
  · cases msg <;> simp [freeEvents, hl]
  · cases msg <;> simp [pointOf, hl]

theorem Matches.loop_free {n : ℤ} {msg : ℕ} (h : Matches s a) (hin : s.InLoop)
    (hl : s.sections.base.loop = .free n msg)
    (hstep : s.sections.base.loopStatement = .ok base) (op : Option HeapOp) :
    ∃ b, Reaches Recorded.step (fun _ _ => True) a b ∧
      Matches (s.taskStep { s.sections with base := base, heapOp := op }) b := by
  have hquiet := h.queue_of_quiet hin
  have hpoint := h.point_of_loop hin
  rw [hl] at hquiet hpoint
  have hq := hquiet trivial
  simp only [Interleaving.System.loopStatement, hl, MsgQueue.deleteMessage] at hstep
  obtain ⟨queue, hdelete, hstep⟩ := bind_eq_ok.mp hstep
  obtain ⟨m, hm, hdelete⟩ := bind_eq_ok.mp hdelete
  cases hdelete
  cases hstep
  have hget := Heap.get_of_deref hm
  have hget' : a.machine.mq.queue.heap.get msg = some m := by
    rw [hq]
    exact hget
  refine h.loop_effect hin [] (by simp) (b := { a.machine with
    mq := { a.machine.mq with
      queue := { a.machine.mq.queue with heap := a.machine.mq.queue.heap.delete msg } }
    point := .decrement n
    trace := a.machine.trace ++ deletions s.sections.base.queue msg }) ?_ ?_ h.flag ?_ ?_
    ⟨rfl, rfl⟩ rfl rfl ?_ rfl
  · simp only [Machine.tau, hpoint, pointOf, Heap.deref_some hget', ok_bind,
      MsgQueue.deleteMessage, deletions, hget, List.append_assoc]
  · apply (queueMatches_afterLoop (.decrement n) hin trivial).mpr
    rw [hq]
    rfl
  · simp [LoopPoint.Critical]
  · simp [popping]
  · simp [freeEvents, hl, queueEvents, System.afterLoop]

theorem Matches.loop_decrement {n : ℤ} (h : Matches s a) (hin : s.InLoop)
    (hl : s.sections.base.loop = .decrement n)
    (hstep : s.sections.base.loopStatement = .ok base) (op : Option HeapOp) :
    ∃ b, Reaches Recorded.step (fun _ _ => True) a b ∧
      Matches (s.taskStep { s.sections with base := base, heapOp := op }) b := by
  have hquiet := h.queue_of_quiet hin
  have hpoint := h.point_of_loop hin
  simp only [Interleaving.System.loopStatement, hl, Except.ok.injEq] at hstep
  subst hstep
  rw [hl] at hquiet hpoint
  refine h.loop_effect hin [] (by simp)
    (b := { a.machine with point := .test (Avr.wrap16 (n - 1)) }) ?_ ?_
    h.flag ?_ ?_ ⟨rfl, rfl⟩ rfl rfl ?_ rfl
  · simp [Machine.tau, hpoint, pointOf]
  · exact (queueMatches_afterLoop (.test _) hin trivial).mpr (hquiet trivial)
  · simp [LoopPoint.Critical]
  · simp [popping]
  · simp [freeEvents, hl, queueEvents]

/-- Every statement of `Loop` outside the loop over the handlers is matched. -/
theorem Matches.loopStatement (h : Matches s a) (hin : s.InLoop)
    (hstep : s.sections.base.loopStatement = .ok base) (op : Option HeapOp) :
    ∃ b, Reaches Recorded.step (fun _ _ => True) a b ∧
      Matches (s.taskStep { s.sections with base := base, heapOp := op }) b := by
  cases hl : s.sections.base.loop with
  | outside => simp [Interleaving.System.loopStatement, hl] at hstep
  | dispatch n msg => exact (hin.loop n msg hl).elim
  | test n => exact h.loop_test hin hl hstep op
  | disable n => exact h.loop_disable hin hl hstep op
  | readFirst n => exact h.loop_readFirst hin hl hstep op
  | advance n msg => exact h.loop_advance hin hl hstep op
  | clearLast n msg => exact h.loop_clearLast hin hl hstep op
  | enable n msg => exact h.loop_enable hin hl hstep op
  | free n msg => exact h.loop_free hin hl hstep op
  | decrement n => exact h.loop_decrement hin hl hstep op

end Loop

end EmbeddedKernel.Mq.Statements
