import EmbeddedKernel.Mq.QueueShape

/-!
# Messages are neither lost, duplicated nor reordered

`Tickets` ties the appends to the calls of `Post` that return 0.  With the shape
of the list it gives the order in which messages are popped.
-/

namespace EmbeddedKernel.Mq.Interleaving

open Library MsgQueue

/-! ## Calls and their results -/

/-- The running call of `Post`, and whether its message is in the list already. -/
def PostPoint.call : PostPoint → Option (PostCall × Bool)
  | .outside => none
  | .disable c | .alloc c | .testFirst c _ | .linkFirst c _ | .linkLast c _ => some (c, false)
  | .setLast c _ => some (c, true)
  | .enable c rc | .ret c rc => some (c, rc == 0)

def tickets (t : List Event) : List ℕ := (appends t).map Prod.fst

structure Tickets (t : List Event) (calls : ℕ) (running : Option (PostCall × Bool)) : Prop where
  nodup : (tickets t).Nodup
  appended_lt : ∀ k ∈ tickets t, k < calls
  returned_lt : ∀ k rc, Event.returned k rc ∈ t → k < calls
  running_lt : ∀ c b, running = some (c, b) → c.ticket < calls
  not_returned : ∀ c b rc, running = some (c, b) → Event.returned c.ticket rc ∉ t
  linked_iff : ∀ c b, running = some (c, b) → (c.ticket ∈ tickets t ↔ b = true)
  of_zero : ∀ k, Event.returned k 0 ∈ t → k ∈ tickets t
  settled : ∀ k ∈ tickets t, Event.returned k 0 ∈ t ∨
    ∃ c, running = some (c, true) ∧ c.ticket = k

theorem tickets_nil : Tickets [] 0 none := by
  constructor <;> simp [tickets]

namespace Tickets

variable {t : List Event} {calls : ℕ} {running : Option (PostCall × Bool)}

theorem pop (h : Tickets t calls running) (m : Payload) :
    Tickets (t ++ [Event.popped m]) calls running := by
  have htickets : tickets (t ++ [Event.popped m]) = tickets t := by simp [tickets]
  constructor
  · simpa [htickets] using h.nodup
  · simpa [htickets] using h.appended_lt
  · simpa using h.returned_lt
  · exact h.running_lt
  · simpa using h.not_returned
  · simpa [htickets] using h.linked_iff
  · simpa [htickets] using h.of_zero
  · simpa [htickets] using h.settled

theorem begin (h : Tickets t calls none) (m : Payload) :
    Tickets t (calls + 1) (some (⟨calls, m⟩, false)) := by
  have hnew : calls ∉ tickets t := fun hmem => (h.appended_lt calls hmem).false
  constructor
  · exact h.nodup
  · exact fun k hk => (h.appended_lt k hk).trans (Nat.lt_succ_self calls)
  · exact fun k rc hk => (h.returned_lt k rc hk).trans (Nat.lt_succ_self calls)
  · rintro c b heq
    cases heq
    exact Nat.lt_succ_self calls
  · rintro c b rc heq hmem
    cases heq
    exact (h.returned_lt calls rc hmem).false
  · rintro c b heq
    cases heq
    simpa using hnew
  · exact h.of_zero
  · intro k hk
    refine (h.settled k hk).imp_right ?_
    rintro ⟨c, heq, -⟩
    cases heq

theorem link {c : PostCall} (h : Tickets t calls (some (c, false))) :
    Tickets (t ++ [Event.appended c.ticket c.payload]) calls (some (c, true)) := by
  have htickets : tickets (t ++ [Event.appended c.ticket c.payload]) = tickets t ++ [c.ticket] := by
    simp [tickets]
  have hnew : c.ticket ∉ tickets t := by simpa using h.linked_iff c false rfl
  constructor
  · rw [htickets, List.nodup_append_comm]
    exact List.nodup_cons.mpr ⟨hnew, h.nodup⟩
  · intro k hk
    rw [htickets, List.mem_append, List.mem_singleton] at hk
    rcases hk with hk | rfl
    · exact h.appended_lt k hk
    · exact h.running_lt c false rfl
  · simpa using h.returned_lt
  · rintro d b heq
    cases heq
    exact h.running_lt c false rfl
  · rintro d b rc heq
    cases heq
    simpa using h.not_returned c false rc rfl
  · rintro d b heq
    cases heq
    simp [htickets]
  · intro k hk
    rw [htickets]
    exact List.mem_append_left _ (h.of_zero k (by simpa using hk))
  · intro k hk
    rw [htickets, List.mem_append, List.mem_singleton] at hk
    rcases hk with hk | rfl
    · rcases h.settled k hk with hret | ⟨d, heq, -⟩
      · exact Or.inl (List.mem_append_left _ hret)
      · cases heq
    · exact Or.inr ⟨c, rfl, rfl⟩

theorem finish {c : PostCall} {rc : ℤ} (h : Tickets t calls (some (c, rc == 0))) :
    Tickets (t ++ [Event.returned c.ticket rc]) calls none := by
  have htickets : tickets (t ++ [Event.returned c.ticket rc]) = tickets t := by
    simp [tickets]
  constructor
  · simpa [htickets] using h.nodup
  · simpa [htickets] using h.appended_lt
  · intro k rc' hk
    rcases List.mem_append.mp hk with hk | hk
    · exact h.returned_lt k rc' hk
    · cases List.mem_singleton.mp hk
      exact h.running_lt c _ rfl
  · simp
  · simp
  · simp
  · intro k hk
    rw [htickets]
    rcases List.mem_append.mp hk with hk | hk
    · exact h.of_zero k hk
    · cases List.mem_singleton.mp hk
      exact (h.linked_iff c _ rfl).mpr rfl
  · intro k hk
    rw [htickets] at hk
    left
    rcases h.settled k hk with hret | ⟨d, heq, rfl⟩
    · exact List.mem_append_left _ hret
    · simp only [Option.some.injEq, Prod.mk.injEq, beq_iff_eq] at heq
      obtain ⟨rfl, rfl⟩ := heq
      exact List.mem_append_right _ (by simp)

/-- A whole `Post` in interrupt context takes the next ticket, whatever task-context
call it interrupts. -/
theorem interrupt (h : Tickets t calls running) (m : Payload) (rc : ℤ) :
    Tickets (t ++ (if rc = 0 then [Event.appended calls m] else []) ++ [Event.returned calls rc])
      (calls + 1) running := by
  have htickets : tickets (t ++ (if rc = 0 then [Event.appended calls m] else []) ++
      [Event.returned calls rc]) = tickets t ++ (if rc = 0 then [calls] else []) := by
    by_cases hrc : rc = 0 <;> simp [tickets, hrc]
  have hnew : calls ∉ tickets t := fun hmem => (h.appended_lt calls hmem).false
  have hret : ∀ k rc', Event.returned k rc' ∈
      t ++ (if rc = 0 then [Event.appended calls m] else []) ++ [Event.returned calls rc] ↔
        Event.returned k rc' ∈ t ∨ (k = calls ∧ rc' = rc) := by
    intro k rc'
    by_cases hrc : rc = 0 <;> simp [hrc]
  have hmem : ∀ k, k ∈ tickets t ++ (if rc = 0 then [calls] else []) ↔
      k ∈ tickets t ∨ (k = calls ∧ rc = 0) := by
    intro k
    by_cases hrc : rc = 0 <;> simp [hrc]
  constructor
  · rw [htickets]
    by_cases hrc : rc = 0
    · rw [if_pos hrc, List.nodup_append_comm]
      exact List.nodup_cons.mpr ⟨hnew, h.nodup⟩
    · simpa [hrc] using h.nodup
  · intro k hk
    rw [htickets, hmem] at hk
    rcases hk with hk | ⟨rfl, -⟩
    · exact (h.appended_lt k hk).trans (Nat.lt_succ_self calls)
    · exact Nat.lt_succ_self k
  · intro k rc' hk
    rcases (hret k rc').mp hk with hk | ⟨rfl, -⟩
    · exact (h.returned_lt k rc' hk).trans (Nat.lt_succ_self calls)
    · exact Nat.lt_succ_self k
  · exact fun c b heq => (h.running_lt c b heq).trans (Nat.lt_succ_self calls)
  · intro c b rc' heq hk
    rcases (hret c.ticket rc').mp hk with hk | ⟨hc, -⟩
    · exact h.not_returned c b rc' heq hk
    · exact (h.running_lt c b heq).ne hc
  · intro c b heq
    rw [htickets, hmem, ← h.linked_iff c b heq]
    have hne : c.ticket ≠ calls := (h.running_lt c b heq).ne
    simp [hne]
  · intro k hk
    rw [htickets, hmem]
    rcases (hret k 0).mp hk with hk | ⟨rfl, hrc⟩
    · exact Or.inl (h.of_zero k hk)
    · exact Or.inr ⟨rfl, hrc.symm⟩
  · intro k hk
    rw [htickets, hmem] at hk
    rw [hret]
    rcases hk with hk | ⟨rfl, hrc⟩
    · rcases h.settled k hk with hk | hrun
      · exact Or.inl (Or.inl hk)
      · exact Or.inr hrun
    · exact Or.inl (Or.inr ⟨rfl, hrc.symm⟩)

end Tickets

theorem Tickets.step {s t : System} {l : Label}
    (h : Tickets s.trace s.calls s.post.call) (hstep : s.step l = .ok t) :
    Tickets t.trace t.calls t.post.call := by
  cases l with
  | interrupt m alloc =>
      simp only [System.step] at hstep
      split_ifs at hstep with hflag
      obtain ⟨⟨q, rc⟩, -, hstep⟩ := bind_eq_ok.mp hstep
      cases hstep
      exact h.interrupt m rc
  | beginPost m =>
      simp only [System.step] at hstep
      split_ifs at hstep with hruns
      cases hstep
      have hnone : s.post.call = none := by
        cases hp : s.post <;> simp_all [System.callerRuns, PostPoint.call]
      rw [hnone] at h
      exact h.begin m
  | beginLoop n =>
      simp only [System.step] at hstep
      split_ifs at hstep
      cases hstep
      exact h
  | handlersDone =>
      cases hp : s.post <;> cases hl : s.loop <;> simp [System.step, hp, hl] at hstep
      subst hstep
      rw [hp] at h
      exact h
  | statement alloc =>
      simp only [System.step] at hstep
      split_ifs at hstep with hpost
      · cases hl : s.loop <;> simp only [System.loopStatement, hl] at hstep
        case advance n msg =>
          obtain ⟨m, -, hstep⟩ := bind_eq_ok.mp hstep
          obtain ⟨q, -, hstep⟩ := bind_eq_ok.mp hstep
          cases hstep
          exact h.pop m.toPayload
        case free n msg =>
          obtain ⟨q, -, hstep⟩ := bind_eq_ok.mp hstep
          cases hstep
          exact h
        case readFirst n =>
          cases hfirst : s.queue.msgQueueFirst <;> simp only [hfirst] at hstep <;>
            cases hstep <;> exact h
        all_goals
          cases hstep <;> exact h
      · cases hp : s.post <;> simp only [System.postStatement, hp] at hstep <;>
          rw [hp] at h
        case alloc c =>
          split_ifs at hstep <;> cases hstep <;> exact h
        case testFirst c p =>
          split_ifs at hstep <;> cases hstep <;> exact h
        case linkFirst c p =>
          cases hstep
          exact h.link
        case linkLast c p =>
          obtain ⟨q, -, hstep⟩ := bind_eq_ok.mp hstep
          cases hstep
          exact h.link
        case ret c rc =>
          cases hstep
          exact h.finish
        all_goals
          cases hstep <;> exact h

theorem reaches_tickets {b : Bool} {s : System}
    (hs : Reaches System.step (fun _ _ => True) (.constructed b) s) :
    Tickets s.trace s.calls s.post.call := by
  refine hs.invariant (fun s => Tickets s.trace s.calls s.post.call) tickets_nil ?_
  intro s l t h _ hstep
  exact h.step hstep

/-- Along every interleaving: outside the critical sections the list is well formed,
and the popped messages followed by the list are the messages of the successful
calls of `Post`, in the order of their appends. Each successful call has exactly one
append, and no statement of the queue code follows a stale pointer. -/
theorem messageQueue_fifo {b : Bool} {s : System}
    (hs : Reaches System.step (fun _ _ => True) (.constructed b) s) :
    (s.NoCriticalSection → WellFormed s.queue ∧
      popped s.trace ++ s.queue.contents =
        ((appends s.trace).filter fun e => s.succeeded e.1).map Prod.snd) ∧
    ((appends s.trace).map Prod.fst).Nodup ∧
    (∀ k, Event.returned k 0 ∈ s.trace → k ∈ (appends s.trace).map Prod.fst) ∧
    ∀ l e, s.step l = .error e → e = .notEnabled := by
  obtain ⟨xs, hshape⟩ := reaches_shape hs
  have htickets := reaches_tickets hs
  refine ⟨fun hclosed => ?_, htickets.nodup, htickets.of_zero, fun l e => hshape.step_error⟩
  have hrep : Rep s.queue xs := by
    apply hshape.rep
    · intro c p hp
      exact hclosed.1 (by simp [hp, PostPoint.Critical])
    · intro n msg hl
      exact hclosed.2 (by simp [hl, LoopPoint.Critical])
  refine ⟨wellFormed_of_rep hrep, ?_⟩
  -- outside a critical section every append belongs to a call that has succeeded
  have hall : ∀ e ∈ appends s.trace, s.succeeded e.1 = true := by
    intro e he
    rcases htickets.settled e.1 (List.mem_map_of_mem he) with hret | ⟨c, hc, hk⟩
    · simp [System.succeeded, hret]
    · cases hp : s.post <;> simp_all [PostPoint.call, System.succeeded,
        System.NoCriticalSection, PostPoint.Critical]
  rw [List.filter_eq_self.mpr hall, ← hshape.order]
  simp only [contents, nodes_eq hrep.chain]

/-- A `Post` interrupted before it masks interrupts and again before it returns, then a
pop. -/
def interruptedRun : List Label :=
  [Label.beginPost ⟨3, none, .caller⟩, Label.interrupt ⟨4, none, .mq⟩ true] ++
    List.replicate 6 (Label.statement true) ++
    [Label.interrupt ⟨5, none, .mq⟩ true, Label.statement true, Label.beginLoop 1] ++
    List.replicate 6 (Label.statement true)

def interruptedState : System where
  queue :=
    { heap := ⟨[some ⟨⟨4, none, .mq⟩, some 1⟩, some ⟨⟨3, none, .caller⟩, some 2⟩,
        some ⟨⟨5, none, .mq⟩, none⟩]⟩
      msgQueueFirst := some 1
      msgQueueLast := some 2
      masterInterrupts := true }
  loop := .dispatch 1 0
  post := .outside
  calls := 3
  trace := [.appended 1 ⟨4, none, .mq⟩, .returned 1 0, .appended 0 ⟨3, none, .caller⟩,
    .appended 2 ⟨5, none, .mq⟩, .returned 2 0, .returned 0 0, .popped ⟨4, none, .mq⟩]

theorem messageQueue_fifo_interruptedRun :
    execute System.step (.constructed true) interruptedRun = .ok interruptedState ∧
      popped interruptedState.trace ++ interruptedState.queue.contents =
        ((appends interruptedState.trace).filter fun e =>
          interruptedState.succeeded e.1).map Prod.snd := by
  have hrun : execute System.step (.constructed true) interruptedRun = .ok interruptedState := rfl
  exact ⟨hrun, ((messageQueue_fifo (reaches_of_execute hrun)).1 ⟨id, id⟩).2⟩

end EmbeddedKernel.Mq.Interleaving
