import EmbeddedKernel.Mq.Interleaving

/-!
# The list at each point of the code

`Shape` says what the list of messages looks like at each point of the two
critical sections, and that the popped messages followed by the list are the
appended ones.  Every statement and every interrupt keeps it.
-/

namespace EmbeddedKernel.Mq.Interleaving

open Library MsgQueue

@[simp] theorem popped_append (t u : List Event) : popped (t ++ u) = popped t ++ popped u := by
  simp [popped]

@[simp] theorem appends_append (t u : List Event) :
    appends (t ++ u) = appends t ++ appends u := by
  simp [appends]

@[simp] theorem popped_nil : popped [] = [] := rfl

@[simp] theorem popped_returned (k : ℕ) (rc : ℤ) (t : List Event) :
    popped (.returned k rc :: t) = popped t := rfl

@[simp] theorem popped_appended (k : ℕ) (m : Payload) (t : List Event) :
    popped (.appended k m :: t) = popped t := rfl

@[simp] theorem popped_popped (m : Payload) (t : List Event) :
    popped (.popped m :: t) = m :: popped t := rfl

@[simp] theorem appends_nil : appends [] = [] := rfl

@[simp] theorem appends_returned (k : ℕ) (rc : ℤ) (t : List Event) :
    appends (.returned k rc :: t) = appends t := rfl

@[simp] theorem appends_appended (k : ℕ) (m : Payload) (t : List Event) :
    appends (.appended k m :: t) = (k, m) :: appends t := rfl

@[simp] theorem appends_popped (m : Payload) (t : List Event) :
    appends (.popped m :: t) = appends t := rfl

/-! ## The invariant -/

/-- The node a running `Post` has allocated and not linked. -/
def PostPoint.detached : PostPoint → Option (PostCall × ℕ)
  | .testFirst c p | .linkFirst c p | .linkLast c p => some (c, p)
  | _ => none

/-- The node `Loop` has popped and not deleted. -/
def LoopPoint.held : LoopPoint → Ptr
  | .clearLast _ msg | .dispatch _ msg | .free _ msg => some msg
  | .enable _ msg => msg
  | _ => none

/-- The list is `xs`. `MsgQueueLast` lags behind it between the two assignments of
each critical section. -/
structure Shape (s : System) (xs : List ℕ) : Prop where
  chain : Chain Message.pNextMsg s.queue.heap s.queue.msgQueueFirst xs
  last : (∀ c p, s.post ≠ .setLast c p) → (∀ n msg, s.loop ≠ .clearLast n msg) →
    s.queue.msgQueueLast = xs.getLast?
  linked : ∀ c p, s.post = .setLast c p → ∃ ys, xs = ys ++ [p]
  advanced : ∀ n msg, s.loop = .clearLast n msg → xs ≠ [] → s.queue.msgQueueLast = xs.getLast?
  order : popped s.trace ++ payloads s.queue.heap xs = (appends s.trace).map Prod.snd
  detached : ∀ c p, s.post.detached = some (c, p) →
    Detached s.queue p c.payload xs ∧ s.loop.held ≠ some p
  empty : ∀ c p, s.post = .linkFirst c p → xs = []
  nonempty : ∀ c p, s.post = .linkLast c p → xs ≠ []
  head : ∀ n msg, s.loop = .advance n msg → ∃ ys, xs = msg :: ys
  held : ∀ msg, s.loop.held = some msg →
    (∃ m, s.queue.heap.get msg = some m) ∧ msg ∉ xs
  masked : s.post.Critical ∨ s.loop.Critical → s.queue.masterInterrupts = false
  caller : s.post ≠ .outside → s.loop = .outside ∨ ∃ n msg, s.loop = .dispatch n msg

theorem shape_constructed (b : Bool) : Shape (.constructed b) [] := by
  constructor <;> simp [System.constructed, MsgQueue.constructed, popped, appends,
    PostPoint.detached, LoopPoint.held, PostPoint.Critical, LoopPoint.Critical]

theorem Shape.rep {s : System} {xs : List ℕ} (h : Shape s xs)
    (hpost : ∀ c p, s.post ≠ .setLast c p) (hloop : ∀ n msg, s.loop ≠ .clearLast n msg) :
    Rep s.queue xs :=
  ⟨h.chain, h.last hpost hloop⟩

/-- While a `Post` runs, `Loop` is not inside its own critical section. -/
theorem Shape.loop_of_post {s : System} {xs : List ℕ} (h : Shape s xs)
    (hpost : s.post ≠ .outside) :
    ¬s.loop.Critical ∧ (∀ n msg, s.loop ≠ .clearLast n msg) ∧
      ∀ n msg, s.loop ≠ .advance n msg := by
  rcases h.caller hpost with hloop | ⟨n, msg, hloop⟩ <;> simp [hloop, LoopPoint.Critical]

/-- `Post` is not between allocating its message and having it in the list. -/
def PostPoint.Quiet : PostPoint → Prop
  | .outside | .disable _ | .alloc _ | .enable _ _ | .ret _ _ => True
  | _ => False

/-- `Loop` is not between reading `MsgQueueFirst` and having taken it off the list. -/
def LoopPoint.Quiet : LoopPoint → Prop
  | .advance _ _ | .clearLast _ _ => False
  | _ => True

theorem Shape.loop_quiet {s : System} {xs : List ℕ} (h : Shape s xs) (hpost : s.post ≠ .outside) :
    s.loop.Quiet := by
  rcases h.caller hpost with hloop | ⟨n, msg, hloop⟩ <;> simp [hloop, LoopPoint.Quiet]

/-- Statements between quiet points: the list stays, and only the points, the flag and the
results of calls change. -/
theorem Shape.move {s : System} {xs : List ℕ} {post : PostPoint} {loop : LoopPoint} {flag : Bool}
    {calls : ℕ} {trace : List Event} (h : Shape s xs) (hpost : s.post.Quiet) (hloop : s.loop.Quiet)
    (hpost' : post.Quiet) (hloop' : loop.Quiet) (hpopped : popped trace = popped s.trace)
    (happends : appends trace = appends s.trace)
    (hheld : loop.held = none ∨ loop.held = s.loop.held)
    (hmasked : post.Critical ∨ loop.Critical → flag = false)
    (hcaller : post ≠ .outside → loop = .outside ∨ ∃ n msg, loop = .dispatch n msg) :
    Shape ⟨{ s.queue with masterInterrupts := flag }, loop, post, calls, trace⟩ xs := by
  have hrep := h.rep (by rintro c p hp; simp [hp, PostPoint.Quiet] at hpost)
    (by rintro n msg hl; simp [hl, LoopPoint.Quiet] at hloop)
  constructor
  · exact hrep.chain
  · exact fun _ _ => hrep.last
  · rintro c p rfl
    exact hpost'.elim
  · rintro n msg rfl
    exact hloop'.elim
  · rw [hpopped, happends]
    exact h.order
  · intro c p hd
    cases post <;> simp [PostPoint.detached] at hd <;> exact hpost'.elim
  · rintro c p rfl
    exact hpost'.elim
  · rintro c p rfl
    exact hpost'.elim
  · rintro n msg rfl
    exact hloop'.elim
  · intro msg hmsg
    rcases hheld with hnone | hsame
    · simp [hnone] at hmsg
    · exact h.held msg (hsame ▸ hmsg)
  · exact hmasked
  · exact hcaller

section Statements

variable {s t : System} {xs : List ℕ} {c : PostCall} {p : ℕ} {n : ℤ} {msg : ℕ}

/-! ## The statements of `Post` -/

/-- A statement of `Post` that leaves the list alone, outside the part that links. -/
theorem Shape.postMove {post : PostPoint} {flag : Bool} {trace : List Event} (h : Shape s xs)
    (hout : s.post ≠ .outside) (hpost : s.post.Quiet) (hpost' : post.Quiet)
    (hpopped : popped trace = popped s.trace) (happends : appends trace = appends s.trace)
    (hmasked : post.Critical → flag = false) :
    Shape ⟨{ s.queue with masterInterrupts := flag }, s.loop, post, s.calls, trace⟩ xs := by
  have hquiet := h.loop_quiet hout
  refine h.move hpost hquiet hpost' hquiet hpopped happends (Or.inr rfl) ?_ fun _ => h.caller hout
  rintro (hc | hc)
  · exact hmasked hc
  · exact ((h.loop_of_post hout).1 hc).elim

theorem Shape.alloc (h : Shape s xs) (hpost : s.post = .alloc c) :
    Shape { s with
      queue := s.queue.newMessage c.payload
      post := .testFirst c s.queue.heap.size } xs := by
  have hout : s.post ≠ .outside := by simp [hpost]
  have hrep := h.rep (by simp [hpost]) (h.loop_of_post hout).2.1
  have hdet := detached_newMessage (q := s.queue) c.payload h.chain
  constructor
  · exact h.chain.new _
  · exact fun _ _ => hrep.last
  · simp
  · exact h.advanced
  · simpa [newMessage, payloads_new _ h.chain.size_notMem] using h.order
  · rintro d q hd
    cases hd
    refine ⟨hdet, fun hp => ?_⟩
    obtain ⟨m, hm⟩ := (h.held _ hp).1
    rw [s.queue.heap.get_size] at hm
    cases hm
  · simp
  · simp
  · exact h.head
  · intro msg hmsg
    obtain ⟨⟨m, hm⟩, hnot⟩ := h.held msg hmsg
    exact ⟨⟨m, Heap.get_new_of_get _ hm⟩, hnot⟩
  · exact fun _ => h.masked (by simp [hpost, PostPoint.Critical])
  · exact fun _ => h.caller hout

/-- The test of `MsgQueueFirst` picks the statement that fits the list. -/
theorem Shape.testFirst {post : PostPoint} (h : Shape s xs) (hpost : s.post = .testFirst c p)
    (hnext : post = .linkFirst c p ∧ xs = [] ∨ post = .linkLast c p ∧ xs ≠ []) :
    Shape { s with post := post } xs := by
  have hout : s.post ≠ .outside := by simp [hpost]
  have hmask : s.queue.masterInterrupts = false :=
    h.masked (Or.inl (by simp [hpost, PostPoint.Critical]))
  have hrep := h.rep (by simp [hpost]) (h.loop_of_post hout).2.1
  have hdet := h.detached c p (by simp [hpost, PostPoint.detached])
  rcases hnext with ⟨rfl, hxs⟩ | ⟨rfl, hxs⟩
  all_goals
    constructor
    · exact h.chain
    · exact fun _ _ => hrep.last
    · simp
    · exact h.advanced
    · exact h.order
    · rintro d p' hd
      cases hd
      exact hdet
    · simp [hxs]
    · simp [hxs]
    · exact h.head
    · exact h.held
    · exact fun _ => hmask
    · exact fun _ => h.caller hout

theorem Shape.linkFirst (h : Shape s xs) (hpost : s.post = .linkFirst c p) :
    Shape { s with
      queue := s.queue.linkFirst p
      post := .enable c 0
      trace := s.trace ++ [Event.appended c.ticket c.payload] } [p] := by
  have hout : s.post ≠ .outside := by simp [hpost]
  have hl := h.loop_of_post hout
  obtain ⟨hd, hne⟩ := h.detached c p (by simp [hpost, PostPoint.detached])
  have hnil : xs = [] := h.empty c p hpost
  subst hnil
  constructor
  · exact chain_linkFirst hd
  · simp [MsgQueue.linkFirst]
  · simp
  · simp [hl.2.1]
  · simpa [MsgQueue.linkFirst, payloads_cons [] hd.1] using h.order
  · simp [PostPoint.detached]
  · simp
  · simp
  · simp [hl.2.2]
  · intro msg hmsg
    refine ⟨(h.held msg hmsg).1, ?_⟩
    rw [List.mem_singleton]
    rintro rfl
    exact hne hmsg
  · exact fun _ => h.masked (by simp [hpost, PostPoint.Critical])
  · exact fun _ => h.caller hout

theorem Shape.linkLast (h : Shape s xs) (hpost : s.post = .linkLast c p) :
    ∃ q, s.queue.linkLast p = .ok q ∧
      Shape { s with
        queue := q
        post := .setLast c p
        trace := s.trace ++ [Event.appended c.ticket c.payload] } (xs ++ [p]) := by
  have hout : s.post ≠ .outside := by simp [hpost]
  have hl := h.loop_of_post hout
  obtain ⟨hd, hne⟩ := h.detached c p (by simp [hpost, PostPoint.detached])
  have hrep := h.rep (by simp [hpost]) hl.2.1
  obtain ⟨last, hlink, -, hmem, hchain⟩ := linkLast_spec hrep (h.nonempty c p hpost) hd
  refine ⟨_, hlink, ?_⟩
  constructor
  · exact hchain
  · simp
  · rintro d p' hd'
    cases hd'
    exact ⟨xs, rfl⟩
  · simp [hl.2.1]
  · have hpay := payloads_linkLast last hd
    simp [hpay, ← h.order]
  · simp [PostPoint.detached]
  · simp
  · simp
  · simp [hl.2.2]
  · intro msg hmsg
    obtain ⟨⟨m, hm⟩, hnot⟩ := h.held msg hmsg
    obtain ⟨m', hm', -⟩ := keeps_relink s.queue.heap last (some p) msg m hm
    refine ⟨⟨m', hm'⟩, ?_⟩
    rw [List.mem_append, List.mem_singleton]
    rintro (hin | rfl)
    · exact hnot hin
    · exact hne hmsg
  · exact fun _ => h.masked (by simp [hpost, PostPoint.Critical])
  · exact fun _ => h.caller hout

theorem Shape.setLast (h : Shape s xs) (hpost : s.post = .setLast c p) :
    Shape { s with queue := s.queue.setLast p, post := .enable c 0 } xs := by
  have hout : s.post ≠ .outside := by simp [hpost]
  have hl := h.loop_of_post hout
  obtain ⟨ys, rfl⟩ := h.linked c p hpost
  constructor
  · exact h.chain
  · simp [MsgQueue.setLast]
  · simp
  · simp [hl.2.1]
  · exact h.order
  · simp [PostPoint.detached]
  · simp
  · simp
  · exact h.head
  · exact h.held
  · exact fun _ => h.masked (by simp [hpost, PostPoint.Critical])
  · exact fun _ => h.caller hout

/-- One statement of a task-context `Post`. Only the two linking statements change
the list; the others move the point or the flag. -/
theorem Shape.postStatement {alloc : Bool} (h : Shape s xs)
    (hstep : s.postStatement alloc = .ok t) : ∃ ys, Shape t ys := by
  have hmasked : s.post.Critical → s.queue.masterInterrupts = false :=
    fun hc => h.masked (Or.inl hc)
  cases hpost : s.post with
  | outside => simp [System.postStatement, hpost] at hstep
  | disable c =>
      simp only [System.postStatement, hpost, Except.ok.injEq] at hstep
      subst hstep
      exact ⟨xs, h.postMove (by simp [hpost]) (by simp [hpost, PostPoint.Quiet]) trivial rfl rfl
        fun _ => rfl⟩
  | alloc c =>
      simp only [System.postStatement, hpost] at hstep
      split_ifs at hstep with hacc
      · cases hstep
        exact ⟨xs, h.alloc hpost⟩
      · cases hstep
        refine ⟨xs, h.postMove (by simp [hpost]) (by simp [hpost, PostPoint.Quiet]) trivial rfl rfl
          fun _ => hmasked ?_⟩
        simp [hpost, PostPoint.Critical]
  | testFirst c p =>
      simp only [System.postStatement, hpost] at hstep
      split_ifs at hstep with hfirst
      · cases hstep
        have hnil : xs = [] := h.chain.unique (by simpa using hfirst)
        exact ⟨xs, h.testFirst hpost (Or.inl ⟨rfl, hnil⟩)⟩
      · cases hstep
        have hcons : xs ≠ [] := by
          rintro rfl
          exact hfirst h.chain
        exact ⟨xs, h.testFirst hpost (Or.inr ⟨rfl, hcons⟩)⟩
  | linkFirst c p =>
      simp only [System.postStatement, hpost, Except.ok.injEq] at hstep
      subst hstep
      exact ⟨[p], h.linkFirst hpost⟩
  | linkLast c p =>
      obtain ⟨q, hlink, hshape⟩ := h.linkLast hpost
      simp only [System.postStatement, hpost, hlink, ok_bind, Except.ok.injEq] at hstep
      subst hstep
      exact ⟨xs ++ [p], hshape⟩
  | setLast c p =>
      simp only [System.postStatement, hpost, Except.ok.injEq] at hstep
      subst hstep
      exact ⟨xs, h.setLast hpost⟩
  | enable c rc =>
      simp only [System.postStatement, hpost, Except.ok.injEq] at hstep
      subst hstep
      exact ⟨xs, h.postMove (by simp [hpost]) (by simp [hpost, PostPoint.Quiet]) trivial rfl rfl
        fun hc => hc.elim⟩
  | ret c rc =>
      simp only [System.postStatement, hpost, Except.ok.injEq] at hstep
      subst hstep
      exact ⟨xs, h.postMove (by simp [hpost]) (by simp [hpost, PostPoint.Quiet]) trivial (by simp)
        (by simp) fun hc => hc.elim⟩

/-! ## The statements of `Loop` -/

/-- A statement of `Loop` that leaves the list alone, outside the part that unlinks. -/
theorem Shape.loopMove {loop : LoopPoint} {flag : Bool} (h : Shape s xs)
    (hpost : s.post = .outside) (hloop : s.loop.Quiet) (hloop' : loop.Quiet)
    (hheld : loop.held = none ∨ loop.held = s.loop.held)
    (hmasked : loop.Critical → flag = false) :
    Shape ⟨{ s.queue with masterInterrupts := flag }, loop, s.post, s.calls, s.trace⟩ xs := by
  have hquiet : s.post.Quiet := by simp [hpost, PostPoint.Quiet]
  refine h.move hquiet hloop hquiet hloop' rfl rfl hheld ?_ (by simp [hpost])
  simpa [hpost, PostPoint.Critical] using hmasked

/-- `Loop` has read `MsgQueueFirst`. -/
theorem Shape.readFirst (h : Shape s xs) (hpost : s.post = .outside)
    (hloop : s.loop = .readFirst n) (hfirst : s.queue.msgQueueFirst = some msg) :
    Shape { s with loop := .advance n msg } xs := by
  have hrep := h.rep (by simp [hpost]) (by simp [hloop])
  obtain ⟨ys, hys⟩ : ∃ ys, xs = msg :: ys := by
    cases xs with
    | nil => simpa [hfirst] using h.chain
    | cons y ys =>
        have hy : s.queue.msgQueueFirst = some y := h.chain.1
        rw [hfirst] at hy
        cases hy
        exact ⟨ys, rfl⟩
  constructor
  · exact h.chain
  · exact fun _ _ => hrep.last
  · exact h.linked
  · simp
  · exact h.order
  · simp [hpost, PostPoint.detached]
  · exact h.empty
  · exact h.nonempty
  · rintro k q hq
    cases hq
    exact ⟨ys, hys⟩
  · simp [LoopPoint.held]
  · exact fun _ => h.masked (Or.inr (by simp [hloop, LoopPoint.Critical]))
  · simp [hpost]

/-- `MsgQueueFirst = msg->pNextMsg` takes the head off the list. -/
theorem Shape.advance (h : Shape s xs) (hpost : s.post = .outside)
    (hloop : s.loop = .advance n msg) :
    ∃ m ys, s.queue.heap.deref (some msg) = .ok m ∧ xs = msg :: ys ∧
      Shape { s with
        queue := { s.queue with msgQueueFirst := m.pNextMsg }
        loop := .clearLast n msg
        trace := s.trace ++ [Event.popped m.toPayload] } ys := by
  obtain ⟨ys, rfl⟩ := h.head n msg hloop
  have hnodup := h.chain.nodup
  have hlast := (h.rep (by simp [hpost]) (by simp [hloop])).last
  obtain ⟨-, m, hm, htail⟩ := chain_cons.mp h.chain
  refine ⟨m, ys, Heap.deref_some hm, rfl, ?_⟩
  constructor
  · exact htail
  · simp
  · simp [hpost]
  · intro k q _ hne
    obtain ⟨y, ys, rfl⟩ := List.exists_cons_of_ne_nil hne
    simpa using hlast
  · simpa [payloads_cons _ hm] using h.order
  · simp [hpost, PostPoint.detached]
  · simp [hpost]
  · simp [hpost]
  · simp
  · intro q hq
    cases hq
    exact ⟨⟨m, hm⟩, (List.nodup_cons.mp hnodup).1⟩
  · exact fun _ => h.masked (by simp [hloop, LoopPoint.Critical])
  · simp [hpost]

/-- `MsgQueueLast` is cleared when the list has become empty. -/
theorem Shape.clearLast (h : Shape s xs) (hpost : s.post = .outside)
    (hloop : s.loop = .clearLast n msg) :
    Shape { s with queue := s.queue.clearLast, loop := .enable n (some msg) } xs := by
  have hlast : s.queue.clearLast.msgQueueLast = xs.getLast? := by
    cases xs with
    | nil =>
        have hfirst : s.queue.msgQueueFirst = none := h.chain
        simp [MsgQueue.clearLast, hfirst]
    | cons x xs =>
        have hfirst : s.queue.msgQueueFirst = some x := h.chain.1
        simpa [MsgQueue.clearLast, hfirst] using h.advanced n msg hloop
  have hkept : s.queue.clearLast.heap = s.queue.heap ∧
      s.queue.clearLast.msgQueueFirst = s.queue.msgQueueFirst ∧
      s.queue.clearLast.masterInterrupts = s.queue.masterInterrupts := by
    unfold MsgQueue.clearLast
    split_ifs <;> simp
  constructor
  · simpa only [hkept.1, hkept.2.1] using h.chain
  · exact fun _ _ => hlast
  · exact h.linked
  · simp
  · simpa only [hkept.1] using h.order
  · simp [hpost, PostPoint.detached]
  · exact h.empty
  · exact h.nonempty
  · simp
  · intro q hq
    simpa only [hkept.1] using h.held q (by simpa [hloop, LoopPoint.held] using hq)
  · intro _
    rw [hkept.2.2]
    exact h.masked (Or.inr (by simp [hloop, LoopPoint.Critical]))
  · simp [hpost]

/-- The popped message is no node of the list when it is deleted. -/
theorem Shape.free (h : Shape s xs) (hpost : s.post = .outside) (hloop : s.loop = .free n msg) :
    ∃ m, s.queue.heap.deref (some msg) = .ok m ∧
      Shape { s with
        queue := { s.queue with heap := s.queue.heap.delete msg }
        loop := .decrement n } xs := by
  obtain ⟨⟨m, hm⟩, hnot⟩ := h.held msg (by simp [hloop, LoopPoint.held])
  have hrep := h.rep (by simp [hpost]) (by simp [hloop])
  refine ⟨m, Heap.deref_some hm, ?_⟩
  constructor
  · exact h.chain.delete_of_notMem hnot
  · exact fun _ _ => hrep.last
  · exact h.linked
  · simp
  · simpa [payloads_delete hnot] using h.order
  · simp [hpost, PostPoint.detached]
  · exact h.empty
  · exact h.nonempty
  · simp
  · simp [LoopPoint.held]
  · simp [hpost, PostPoint.Critical, LoopPoint.Critical]
  · simp [hpost]

/-- One statement of `Loop`. The node taken off the list is held by `Loop` until it is
deleted. -/
theorem Shape.loopStatement (h : Shape s xs) (hpost : s.post = .outside)
    (hstep : s.loopStatement = .ok t) : ∃ ys, Shape t ys := by
  cases hloop : s.loop with
  | outside => simp [System.loopStatement, hloop] at hstep
  | dispatch n msg => simp [System.loopStatement, hloop] at hstep
  | test n =>
      simp only [System.loopStatement, hloop, Except.ok.injEq] at hstep
      subst hstep
      refine ⟨xs, h.loopMove hpost (by simp [hloop, LoopPoint.Quiet]) ?_ ?_ ?_⟩
      · split_ifs <;> trivial
      · split_ifs <;> exact Or.inl rfl
      · split_ifs <;> exact fun hc => hc.elim
  | disable n =>
      simp only [System.loopStatement, hloop, Except.ok.injEq] at hstep
      subst hstep
      exact ⟨xs, h.loopMove hpost (by simp [hloop, LoopPoint.Quiet]) trivial (Or.inl rfl)
        fun _ => rfl⟩
  | readFirst n =>
      simp only [System.loopStatement, hloop] at hstep
      cases hfirst : s.queue.msgQueueFirst with
      | none =>
          simp only [hfirst, Except.ok.injEq] at hstep
          subst hstep
          refine ⟨xs, h.loopMove hpost (by simp [hloop, LoopPoint.Quiet]) trivial (Or.inl rfl)
            fun _ => h.masked (Or.inr ?_)⟩
          simp [hloop, LoopPoint.Critical]
      | some msg =>
          simp only [hfirst, Except.ok.injEq] at hstep
          subst hstep
          exact ⟨xs, h.readFirst hpost hloop hfirst⟩
  | advance n msg =>
      obtain ⟨m, ys, hderef, rfl, hshape⟩ := h.advance hpost hloop
      simp only [System.loopStatement, hloop, advanceFirst, hderef, ok_bind,
        Except.ok.injEq] at hstep
      subst hstep
      exact ⟨ys, hshape⟩
  | clearLast n msg =>
      simp only [System.loopStatement, hloop, Except.ok.injEq] at hstep
      subst hstep
      exact ⟨xs, h.clearLast hpost hloop⟩
  | enable n msg =>
      simp only [System.loopStatement, hloop, Except.ok.injEq] at hstep
      subst hstep
      refine ⟨xs, h.loopMove hpost (by simp [hloop, LoopPoint.Quiet]) ?_ ?_ ?_⟩
      · cases msg <;> trivial
      · cases msg <;> simp [hloop, LoopPoint.held]
      · cases msg <;> exact fun hc => hc.elim
  | free n msg =>
      obtain ⟨m, hderef, hshape⟩ := h.free hpost hloop
      simp only [System.loopStatement, hloop, deleteMessage, hderef, ok_bind,
        Except.ok.injEq] at hstep
      subst hstep
      exact ⟨xs, hshape⟩
  | decrement n =>
      simp only [System.loopStatement, hloop, Except.ok.injEq] at hstep
      subst hstep
      exact ⟨xs, h.loopMove hpost (by simp [hloop, LoopPoint.Quiet]) trivial (Or.inl rfl)
        fun hc => hc.elim⟩

end Statements

/-- With the flag set no critical section is open, so an interrupt finds a complete
list and appends to it. -/
theorem Shape.interrupt {s : System} {xs : List ℕ} (h : Shape s xs)
    (hflag : s.queue.masterInterrupts = true) (m : Payload) (alloc : Bool) :
    ∃ q rc, s.queue.post m .interrupt alloc = .ok (q, rc) ∧
      ∃ ys, Shape { s with
        queue := q, calls := s.calls + 1,
        trace := s.trace ++ (if rc = 0 then [.appended s.calls m] else []) ++
          [.returned s.calls rc] } ys := by
  have hopen : ¬(s.post.Critical ∨ s.loop.Critical) := by
    intro hc
    simp [h.masked hc] at hflag
  have hset : ∀ c p, s.post ≠ .setLast c p := by
    intro c p hp
    exact hopen (Or.inl (by simp [hp, PostPoint.Critical]))
  have hclear : ∀ n msg, s.loop ≠ .clearLast n msg := by
    intro n msg hl
    exact hopen (Or.inr (by simp [hl, LoopPoint.Critical]))
  have hadvance : ∀ n msg, s.loop ≠ .advance n msg := by
    intro n msg hl
    exact hopen (Or.inr (by simp [hl, LoopPoint.Critical]))
  have hdet : s.post.detached = none := by
    cases hp : s.post <;> simp_all [PostPoint.detached, PostPoint.Critical]
  have hfirst : ∀ c p, s.post ≠ .linkFirst c p := by
    intro c p hp
    simp [hp, PostPoint.detached] at hdet
  have hlast : ∀ c p, s.post ≠ .linkLast c p := by
    intro c p hp
    simp [hp, PostPoint.detached] at hdet
  have hrep := h.rep hset hclear
  by_cases hacc : Accepts m ∧ alloc = true
  · obtain ⟨hacc, rfl⟩ := hacc
    obtain ⟨q, happend, happ⟩ := append_of_accepts hrep hacc
    refine ⟨q, 0, by simp [post, happend], xs ++ [s.queue.heap.size], ?_⟩
    constructor
    · exact happ.rep.chain
    · exact fun _ _ => happ.rep.last
    · simp [hset]
    · simp [hclear]
    · simp [happ.payloads_eq, ← h.order]
    · simp [hdet]
    · simp [hfirst]
    · simp
    · simp [hadvance]
    · intro msg hmsg
      obtain ⟨⟨m', hm'⟩, hnot⟩ := h.held msg hmsg
      obtain ⟨m'', hm'', -⟩ := happ.keeps msg m' hm'
      refine ⟨⟨m'', hm''⟩, ?_⟩
      have hlt := Heap.lt_size_of_get hm'
      simp [hnot, hlt.ne]
    · exact fun hc => (hopen hc).elim
    · exact h.caller
  · refine ⟨s.queue, -1, by simp [post, append_of_refused hacc], xs, ?_⟩
    constructor
    · exact h.chain
    · exact h.last
    · exact h.linked
    · exact h.advanced
    · simpa using h.order
    · exact h.detached
    · exact h.empty
    · exact h.nonempty
    · exact h.head
    · exact h.held
    · exact h.masked
    · exact h.caller

theorem Shape.step {s t : System} {xs : List ℕ} {l : Label} (h : Shape s xs)
    (hstep : s.step l = .ok t) : ∃ ys, Shape t ys := by
  cases l with
  | interrupt m alloc =>
      simp only [System.step] at hstep
      split_ifs at hstep with hflag
      obtain ⟨q, rc, hpost, ys, hys⟩ := h.interrupt hflag m alloc
      simp only [hpost, ok_bind, Except.ok.injEq] at hstep
      exact ⟨ys, hstep ▸ hys⟩
  | beginPost m =>
      simp only [System.step] at hstep
      split_ifs at hstep with hruns
      cases hstep
      have hout : s.post = .outside := by
        cases hp : s.post <;> simp_all [System.callerRuns]
      have hcaller : s.loop = .outside ∨ ∃ n msg, s.loop = .dispatch n msg := by
        cases hl : s.loop <;> simp_all [System.callerRuns]
      have hquiet : s.loop.Quiet := by
        rcases hcaller with hl | ⟨n, msg, hl⟩ <;> simp [hl, LoopPoint.Quiet]
      refine ⟨xs, h.move (by simp [hout, PostPoint.Quiet]) hquiet trivial hquiet rfl rfl
        (Or.inr rfl) ?_ fun _ => hcaller⟩
      rcases hcaller with hl | ⟨n, msg, hl⟩ <;> simp [hl, LoopPoint.Critical, PostPoint.Critical]
  | beginLoop n =>
      simp only [System.step] at hstep
      split_ifs at hstep with hout
      cases hstep
      refine ⟨xs, h.move (by simp [hout.1, PostPoint.Quiet]) (by simp [hout.2, LoopPoint.Quiet])
        (by simp [hout.1, PostPoint.Quiet]) trivial rfl rfl (Or.inl rfl) ?_ ?_⟩
      · simp [hout.1, PostPoint.Critical, LoopPoint.Critical]
      · simp [hout.1]
  | handlersDone =>
      cases hp : s.post <;> cases hl : s.loop <;> simp [System.step, hp, hl] at hstep
      subst hstep
      refine ⟨xs, h.move (by simp [hp, PostPoint.Quiet]) (by simp [hl, LoopPoint.Quiet]) trivial
        trivial rfl rfl (Or.inr (by simp [hl, LoopPoint.held])) ?_ (by simp)⟩
      simp [PostPoint.Critical, LoopPoint.Critical]
  | statement alloc =>
      simp only [System.step] at hstep
      split_ifs at hstep with hpost
      · exact h.loopStatement hpost hstep
      · exact h.postStatement hstep

theorem reaches_shape {b : Bool} {s : System}
    (hs : Reaches System.step (fun _ _ => True) (.constructed b) s) : ∃ xs, Shape s xs := by
  refine hs.invariant (fun s => ∃ xs, Shape s xs) ⟨[], shape_constructed b⟩ ?_
  rintro s l t ⟨xs, h⟩ - hstep
  exact h.step hstep

/-- No statement follows a null or stale pointer: a step that is not taken is one
that the label does not offer in this state. -/
theorem Shape.step_error {s : System} {xs : List ℕ} {l : Label} {e : Stop} (h : Shape s xs)
    (hstep : s.step l = .error e) : e = .notEnabled := by
  cases l with
  | interrupt m alloc =>
      simp only [System.step] at hstep
      split_ifs at hstep with hflag
      · obtain ⟨q, rc, hpost, -⟩ := h.interrupt hflag m alloc
        simp [hpost] at hstep
      · cases hstep
        rfl
  | beginPost m =>
      simp only [System.step] at hstep
      split_ifs at hstep
      cases hstep
      rfl
  | beginLoop n =>
      simp only [System.step] at hstep
      split_ifs at hstep
      cases hstep
      rfl
  | handlersDone =>
      simp only [System.step] at hstep
      split at hstep
      · cases hstep
      · cases hstep
        rfl
  | statement alloc =>
      simp only [System.step] at hstep
      split_ifs at hstep with hpost
      · cases hl : s.loop <;> simp only [System.loopStatement, hl] at hstep
        case advance n msg =>
          obtain ⟨m, ys, hderef, -, -⟩ := h.advance hpost hl
          simp [advanceFirst, hderef] at hstep
        case free n msg =>
          obtain ⟨m, hderef, -⟩ := h.free hpost hl
          simp [deleteMessage, hderef] at hstep
        case readFirst n =>
          cases hfirst : s.queue.msgQueueFirst <;> simp [hfirst] at hstep
        all_goals
          cases hstep <;> rfl
      · cases hp : s.post <;> simp only [System.postStatement, hp] at hstep
        case alloc c =>
          split_ifs at hstep
        case testFirst c p =>
          split_ifs at hstep
        case linkLast c p =>
          obtain ⟨q, hlink, -⟩ := h.linkLast hp
          simp [hlink] at hstep
        all_goals
          cases hstep <;> rfl

theorem wellFormed_of_rep {q : MsgQueue} {xs : List ℕ} (h : Rep q xs) : WellFormed q := by
  constructor
  · cases xs with
    | nil =>
        have hfirst : q.msgQueueFirst = none := h.chain
        simp [hfirst, h.last]
    | cons x xs =>
        have hfirst : q.msgQueueFirst = some x := h.chain.1
        simp [hfirst, h.last]
  · intro p hp
    apply h.chain.reachableFrom_iff.mpr
    exact List.mem_of_getLast? (h.last ▸ hp)
  · intro p x m hp hx hm
    rw [h.chain.nxt_eq_none_iff (h.chain.reachableFrom_iff.mp hx) hm, ← h.last, hp]
    constructor
    · rintro heq
      cases heq
      rfl
    · rintro rfl
      rfl

/-! ## The uninterrupted calls -/

theorem execute_beginPost {s : System} (hruns : s.callerRuns = true) (m : Payload)
    (ls : List Label) :
    execute System.step s (.beginPost m :: ls) =
      execute System.step { s with post := .disable ⟨s.calls, m⟩, calls := s.calls + 1 } ls := by
  simp [execute, System.step, hruns]

/-- Run without interruption, the statements of `Post` compute `MsgQueue.post`. -/
theorem execute_post {s : System} {xs : List ℕ} (h : Shape s xs) (hruns : s.callerRuns = true)
    (m : Payload) (alloc : Bool) :
    ∃ n q rc, s.queue.post m .task alloc = .ok (q, rc) ∧
      execute System.step s (.beginPost m :: List.replicate n (.statement alloc)) =
        .ok { s with
          queue := q, calls := s.calls + 1,
          trace := s.trace ++ (if rc = 0 then [.appended s.calls m] else []) ++
            [.returned s.calls rc] } := by
  have hout : s.post = .outside := by
    cases hp : s.post <;> simp_all [System.callerRuns]
  have hclear : ∀ n msg, s.loop ≠ .clearLast n msg := by
    intro n msg hl
    simp [System.callerRuns, hl, hout] at hruns
  have hrep := h.rep (by simp [hout]) hclear
  by_cases hacc : Accepts m ∧ alloc = true
  · obtain ⟨hm, rfl⟩ := hacc
    have hnew := hrep.newMessage m
    have hdet := detached_newMessage m h.chain
    cases hfirst : s.queue.msgQueueFirst with
    | none =>
        refine ⟨6, ((s.queue.newMessage m).linkFirst
          s.queue.heap.size).intEnableMasterInterrupts, 0, ?_, ?_⟩
        · simp [post, append, hm, intDisableMasterInterrupts, intEnableMasterInterrupts,
            newMessage, MsgQueue.linkFirst, hfirst]
        · rw [execute_beginPost hruns]
          simp [execute, System.step, System.postStatement, hm, hout,
            intDisableMasterInterrupts, intEnableMasterInterrupts, List.replicate, newMessage,
            MsgQueue.linkFirst, hfirst]
    | some x =>
        have hcons : xs ≠ [] := by
          rintro rfl
          simpa [hfirst] using hrep.chain
        obtain ⟨last, -, hlast, -, -⟩ := linkLast_spec hnew hcons hdet
        obtain ⟨b, hb⟩ := hnew.chain.get_of_mem (List.mem_of_getLast? (hnew.last ▸ hlast))
        have hlast' : s.queue.msgQueueLast = some last := hlast
        simp only [newMessage] at hb
        refine ⟨7, { s.queue with
          heap := (s.queue.newMessage m).heap.modify last fun m' =>
            { m' with pNextMsg := some s.queue.heap.size }
          msgQueueLast := some s.queue.heap.size
          masterInterrupts := true }, 0, ?_, ?_⟩
        · simp [post, append, hm, intDisableMasterInterrupts, intEnableMasterInterrupts,
            newMessage, MsgQueue.linkLast, MsgQueue.setLast, hfirst, hlast', hb]
        · rw [execute_beginPost hruns]
          simp [execute, System.step, System.postStatement, hm, hout,
            intDisableMasterInterrupts, intEnableMasterInterrupts, List.replicate, newMessage,
            MsgQueue.linkLast, MsgQueue.setLast, hfirst, hlast', hb]
  · refine ⟨4, s.queue.intEnableMasterInterrupts, -1, ?_, ?_⟩
    · simp [post, append_of_refused hacc, intDisableMasterInterrupts, intEnableMasterInterrupts]
    · rw [execute_beginPost hruns]
      simp [execute, System.step, System.postStatement, hacc, hout,
        intDisableMasterInterrupts, intEnableMasterInterrupts, List.replicate]

/-- Run without interruption, the critical section of `Loop` computes `MsgQueue.pop`. -/
theorem execute_pop {s : System} {xs : List ℕ} {n : ℤ} (h : Shape s xs)
    (hpost : s.post = .outside) (hloop : s.loop = .disable n) :
    ∃ k q msg, s.queue.pop = .ok (q, msg) ∧
      execute System.step s (List.replicate k (.statement false)) =
        .ok { s with
          queue := q
          loop := match msg with
            | none => .decrement n
            | some p => .dispatch n p
          trace := s.trace ++ (payloads s.queue.heap msg.toList).map .popped } := by
  have hrep := h.rep (by simp [hpost]) (by simp [hloop])
  cases xs with
  | nil =>
      have hfirst : s.queue.msgQueueFirst = none := hrep.chain
      refine ⟨3, _, none, pop_of_nil hrep, ?_⟩
      simp [execute, System.step, System.loopStatement, hpost, hloop, hfirst,
        intDisableMasterInterrupts, intEnableMasterInterrupts, List.replicate]
  | cons x xs =>
      obtain ⟨hfirst, m, hm, -⟩ := chain_cons.mp hrep.chain
      have hderef : s.queue.heap.deref (some x) = .ok m := Heap.deref_some hm
      have hpop : s.queue.pop = .ok (({ s.queue with
          msgQueueFirst := m.pNextMsg
          masterInterrupts := false } : MsgQueue).clearLast.intEnableMasterInterrupts, some x) := by
        simp [pop, intDisableMasterInterrupts, hfirst, advanceFirst, hderef]
      refine ⟨5, _, some x, hpop, ?_⟩
      simp [execute, System.step, System.loopStatement, hpost, hloop, hfirst, advanceFirst, hderef,
        intDisableMasterInterrupts, List.replicate, payloads_cons [] hm]

end EmbeddedKernel.Mq.Interleaving
