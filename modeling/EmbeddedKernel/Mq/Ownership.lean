import EmbeddedKernel.Library.Trace
import EmbeddedKernel.Mq.Ledger

/-!
# Who frees a context

`Loop` frees the context of a message that was posted as owned by the queue, and
then the message, after it has called the handlers.  So a context is in use from
the post to the end of the dispatch, whatever the handlers post meanwhile.  A
context is named by its allocation, so that two allocations never have the same
name.
-/

namespace EmbeddedKernel.Mq

open Library

/-- The context that `Loop` deletes with the message. -/
def Payload.owned (m : Payload) : List ℕ :=
  if m.callerOwns ≠ .caller then m.context.toList else []

def Invocation.context : Invocation → Ptr
  | .msgHandler _ context => context
  | .eventHandler _ _ context => context

/-- The message a step posts, if it does. -/
def Label.posts : Label → Option Payload
  | .call (.post m _) => some m
  | .interrupt m _ => some m
  | _ => none

/-- The two messages do not share a context, unless the caller owns it in both. -/
def Payload.Separate (m m' : Payload) : Prop :=
  ∀ c, m.context = some c → m'.context = some c →
    m.callerOwns = .caller ∧ m'.callerOwns = .caller

/-- A context that the queue is to own is in no other message. -/
def PostsSeparate (s : Machine) (l : Label) : Prop :=
  ∀ m, l.posts = some m → ∀ m' ∈ postedMessages s.trace, m'.Separate m

/-- No handler unsubscribes the entry it is called through, no negative id gets past the
tests, and contexts owned by the queue are posted once. -/
def OwnershipRules (s : Machine) (l : Label) : Prop :=
  SparesOwnEntry s l ∧ PassesNoNegativeId l ∧ PostsSeparate s l

/-- What `Loop` has done before it records an event: with `ms` the messages it has popped
earlier, these are deleted with their contexts when it pops the next one; it calls
handlers with the context of the message `m` in dispatch, then deletes this context, if
it owns it, and then the message. -/
def DispatchOrder (before : List Event) : Event → Prop
  | .popped _ =>
      deletedMessages before = List.range (poppedMessages before).length ∧
        deletedContexts before = (poppedMessages before).flatMap Payload.owned
  | .called _ i => ∃ ms m, poppedMessages before = ms ++ [m] ∧
      deletedMessages before = List.range ms.length ∧
      deletedContexts before = ms.flatMap Payload.owned ∧ i.context = m.context
  | .deletedContext c => ∃ ms m, poppedMessages before = ms ++ [m] ∧
      deletedMessages before = List.range ms.length ∧
      deletedContexts before = ms.flatMap Payload.owned ∧ m.owned = [c]
  | .deletedMessage k => ∃ ms m, poppedMessages before = ms ++ [m] ∧
      k = ms.length ∧ deletedMessages before = List.range ms.length ∧
      deletedContexts before = (ms ++ [m]).flatMap Payload.owned
  | _ => True

/-- What has been deleted agrees with what `Loop` has dispatched. -/
structure Deletions (s : Machine) : Prop where
  contexts : deletedContexts s.trace =
    ((postedMessages s.trace).take (deletedMessages s.trace).length).flatMap Payload.owned
  order : Everywhere DispatchOrder s.trace

variable {s t : Machine} {l : Label} {es : List Event} {n : ℤ} {msg : ℕ}

theorem deletions_constructed (b : Bool) : Deletions (.constructed b) :=
  ⟨rfl, everywhere_nil⟩

/-- The contexts and the message that `Loop` deletes at the end of a dispatch. -/
theorem tau_free (hp : s.point = .free n msg) (h : s.tau = .ok t) :
    ∃ m, s.mq.queue.heap.get msg = some m ∧
      t.trace = s.trace ++ m.owned.map .deletedContext ++ [.deletedMessage msg] := by
  simp only [Machine.tau, hp] at h
  obtain ⟨m, hm, h⟩ := bind_eq_ok.mp h
  obtain ⟨q, hq, h⟩ := bind_eq_ok.mp h
  cases h
  exact ⟨m, Heap.get_of_deref hm, rfl⟩

theorem Ledger.get_held (h : Ledger s) {m : Message} (hheld : s.point.held = some msg)
    (hm : s.mq.queue.heap.get msg = some m) :
    ∃ ms, poppedMessages s.trace = ms ++ [m.toPayload] ∧ msg = ms.length ∧
      deletedMessages s.trace = List.range ms.length := by
  obtain ⟨ms, m', hpopped, hmsg, hdeleted, hposted⟩ := h.held hheld
  have hget := h.get msg
  rw [hm, hposted, hdeleted, if_neg (by simp [hmsg]), Option.map_some, Option.some.injEq] at hget
  exact ⟨ms, by rw [hpopped, hget], hmsg, hdeleted⟩

theorem Ledger.take_popped (h : Ledger s) {ms ms' : List Payload}
    (hms : poppedMessages s.trace = ms ++ ms') : (postedMessages s.trace).take ms.length = ms := by
  obtain ⟨rest, hrest⟩ := h.popped
  rw [← hrest, hms, List.append_assoc, List.take_left]

namespace Deletions

/-- What has been deleted while no message is in dispatch. -/
theorem of_not_held (h : Deletions s) (hl : Ledger s) (hheld : s.point.held = none) :
    deletedMessages s.trace = List.range (poppedMessages s.trace).length ∧
      deletedContexts s.trace = (poppedMessages s.trace).flatMap Payload.owned := by
  have hdeleted := hl.not_held hheld
  have hcontexts := h.contexts
  have htake := hl.take_popped (List.append_nil (poppedMessages s.trace)).symm
  rw [hdeleted, List.length_range, htake] at hcontexts
  exact ⟨hdeleted, hcontexts⟩

/-- What has been deleted while the message `m` is in dispatch. -/
theorem of_held (h : Deletions s) (hl : Ledger s) {m : Message} (hheld : s.point.held = some msg)
    (hm : s.mq.queue.heap.get msg = some m) :
    ∃ ms, poppedMessages s.trace = ms ++ [m.toPayload] ∧ msg = ms.length ∧
      deletedMessages s.trace = List.range ms.length ∧
      deletedContexts s.trace = ms.flatMap Payload.owned := by
  obtain ⟨ms, hpopped, hmsg, hdeleted⟩ := hl.get_held hheld hm
  have hcontexts := h.contexts
  rw [hdeleted, List.length_range, hl.take_popped hpopped] at hcontexts
  exact ⟨ms, hpopped, hmsg, hdeleted, hcontexts⟩

theorem effect (h : Deletions s) (hl : Ledger s) (heff : Effect s.mq t.mq es)
    (htrace : t.trace = s.trace ++ es) : Deletions t := by
  have hcaller : ∀ e ∈ es, e.OfCaller := fun _ => heff.ofCaller
  constructor
  · have hle : (deletedMessages s.trace).length ≤ (postedMessages s.trace).length := by
      have hlen := congrArg List.length hl.deleted
      have hpop := hl.popped_le
      simp only [List.length_append, List.length_range] at hlen
      omega
    simp only [htrace, postedMessages_append, deletedMessages_append, deletedContexts_append,
      deletedMessages_ofCaller hcaller, deletedContexts_ofCaller hcaller, List.append_nil]
    rw [List.take_append_of_le_length hle]
    exact h.contexts
  · rw [htrace]
    apply h.order.append_of_forall
    intro e he before
    have hof := hcaller e he
    cases e <;> trivial

theorem silent (h : Deletions s) (htrace : t.trace = s.trace) : Deletions t :=
  ⟨by rw [htrace, h.contexts], by rw [htrace]; exact h.order⟩

theorem free (h : Deletions s) (hl : Ledger s) (hp : s.point = .free n msg)
    (htau : s.tau = .ok t) : Deletions t := by
  obtain ⟨m, hm, htrace⟩ := tau_free hp htau
  obtain ⟨ms, hpopped, hmsg, hdeleted, hcontexts⟩ :=
    h.of_held hl (by rw [hp]; rfl) hm
  have hfirst : Everywhere DispatchOrder (s.trace ++ m.owned.map .deletedContext) := by
    cases hown : m.owned with
    | nil => simpa using h.order
    | cons c cs =>
        have hcs : cs = [] := by
          unfold Payload.owned at hown
          split_ifs at hown
          cases hctx : m.context <;> simp_all
        subst hcs
        exact h.order.concat ⟨ms, m.toPayload, hpopped, hdeleted, hcontexts, hown⟩
  have hpop : poppedMessages (m.owned.map Event.deletedContext) = [] := by simp [poppedMessages]
  have hdel : deletedMessages (m.owned.map Event.deletedContext) = [] := by simp [deletedMessages]
  have hctx : deletedContexts (m.owned.map Event.deletedContext) = m.owned := by
    simp [deletedContexts]
  have hpost : postedMessages (m.owned.map Event.deletedContext ++ [.deletedMessage msg]) = [] := by
    simp [postedMessages]
  constructor
  · have htake : (postedMessages s.trace).take (ms ++ [m.toPayload]).length = ms ++ [m.toPayload] :=
      hl.take_popped (hpopped.trans (List.append_nil _).symm)
    rw [htrace, List.append_assoc, postedMessages_append, hpost, List.append_nil]
    simp only [deletedMessages_append, deletedContexts_append, hdel, hctx, hdeleted, hcontexts]
    have hlen : (List.range ms.length ++ ([] ++ deletedMessages [Event.deletedMessage msg])).length
        = (ms ++ [m.toPayload]).length := by simp [deletedMessages]
    rw [hlen, htake]
    simp [deletedContexts]
  · rw [htrace]
    refine hfirst.concat ⟨ms, m.toPayload, ?_, hmsg, ?_, ?_⟩
    · rw [poppedMessages_append, hpop, hpopped, List.append_nil]
    · rw [deletedMessages_append, hdel, hdeleted, List.append_nil]
    · rw [deletedContexts_append, hctx, hcontexts]
      simp

theorem tauStep (h : Deletions s) (hl : Ledger s) (htau : s.tau = .ok t) (hstep : TauStep s t) :
    Deletions t := by
  cases hstep with
  | leave hp => exact h.silent rfl
  | idle hp hn hq => exact h.silent rfl
  | lookup hp hm hid => exact h.silent rfl
  | exhausted hp => exact h.silent rfl
  | advance hp hnode => exact h.silent rfl
  | decrement hp => exact h.silent rfl
  | free hp hm contexts => exact h.free hl hp htau
  | pop hp hn hnodes hq hheap hx hm =>
      refine ⟨?_, h.order.concat (h.of_not_held hl (by rw [hp]; rfl))⟩
      simpa [postedMessages, deletedMessages, deletedContexts] using h.contexts
  | @call n msg cur m node hp hm hnode =>
      obtain ⟨ms, hpopped, -, hdeleted, hcontexts⟩ := h.of_held hl (by rw [hp]; rfl) hm
      refine ⟨?_, h.order.concat ⟨ms, m.toPayload, hpopped, hdeleted, hcontexts, ?_⟩⟩
      · simpa [postedMessages, deletedMessages, deletedContexts] using h.contexts
      · cases node.handler <;> rfl

theorem step (h : Deletions s) (hw : Wf s) (hl : Ledger s) (hstep : s.step l = .ok t) :
    Deletions t := by
  cases hw.stepped hstep with
  | call hruns hperform hpoint htrace heff hwhich hposted hadded => exact h.effect hl heff htrace
  | interrupt hpoint hlive htrace heff hes => exact h.effect hl heff htrace
  | loop hp => exact h.silent rfl
  | ret hp => exact h.silent rfl
  | tau htau => exact h.tauStep hl hstep htau

end Deletions

/-! ## Contexts that no two messages share -/

theorem mem_owned {m : Payload} {c : ℕ} :
    c ∈ m.owned ↔ m.context = some c ∧ m.callerOwns ≠ .caller := by
  unfold Payload.owned
  split_ifs with hown <;> simp [hown]

theorem separate_of_getElem? {ms : List Payload} (h : ms.Pairwise Payload.Separate) {i j : ℕ}
    {m m' : Payload} (hi : ms[i]? = some m) (hj : ms[j]? = some m') (hij : i ≠ j) :
    m.Separate m' := by
  obtain ⟨hilt, rfl⟩ := List.getElem?_eq_some_iff.mp hi
  obtain ⟨hjlt, rfl⟩ := List.getElem?_eq_some_iff.mp hj
  rcases lt_or_gt_of_ne hij with hlt | hgt
  · exact List.pairwise_iff_getElem.mp h i j hilt hjlt hlt
  · intro c hc hc'
    exact (List.pairwise_iff_getElem.mp h j i hjlt hilt hgt c hc' hc).symm

theorem Effect.postedMessages_eq {s t : MQClass} {m : Payload} (h : Effect s t es)
    (hm : m ∈ postedMessages es) : postedMessages es = [m] := by
  rw [mem_postedMessages] at hm
  cases h with
  | quiet hes _ _ _ => exact (hes _ hm).elim
  | pushed _ _ => simp at hm
  | removed _ => simp at hm
  | appended _ _ _ _ =>
      simp only [List.mem_singleton] at hm
      rw [← hm]
      rfl

theorem pairwise_separate_effect (heff : Effect s.mq t.mq es) (htrace : t.trace = s.trace ++ es)
    (hsep : (postedMessages s.trace).Pairwise Payload.Separate)
    (hnew : ∀ m, Event.posted m ∈ es → ∀ m' ∈ postedMessages s.trace, m'.Separate m) :
    (postedMessages t.trace).Pairwise Payload.Separate := by
  rw [htrace, postedMessages_append]
  refine List.pairwise_append.mpr ⟨hsep, ?_, fun m' hm' m hm => ?_⟩
  · cases hes : postedMessages es with
    | nil => exact List.Pairwise.nil
    | cons m ms =>
        have hone := heff.postedMessages_eq (m := m) (by simp [hes])
        rw [← hes, hone]
        exact List.pairwise_singleton _ _
  · exact hnew m (mem_postedMessages.mp hm) m' hm'

theorem pairwise_separate_step (hw : Wf s) (hgood : PostsSeparate s l) (hstep : s.step l = .ok t)
    (hsep : (postedMessages s.trace).Pairwise Payload.Separate) :
    (postedMessages t.trace).Pairwise Payload.Separate := by
  cases hw.stepped hstep with
  | call hruns hperform hpoint htrace heff hwhich hposted hadded =>
      refine pairwise_separate_effect heff htrace hsep fun m hm => ?_
      exact hgood m (by rw [hposted m hm]; rfl)
  | interrupt hpoint hlive htrace heff hes =>
      refine pairwise_separate_effect heff htrace hsep fun m hm => ?_
      obtain ⟨heq, -⟩ := hes _ hm
      cases heq
      exact hgood _ rfl
  | loop hp => exact hsep
  | ret hp => exact hsep
  | tau htau =>
      cases htau with
      | leave hp => exact hsep
      | idle hp hn hq => exact hsep
      | lookup hp hm hid => exact hsep
      | exhausted hp => exact hsep
      | advance hp hnode => exact hsep
      | decrement hp => exact hsep
      | pop hp hn hnodes hq hheap hx hm => simpa [postedMessages] using hsep
      | call hp hm hnode => simpa [postedMessages] using hsep
      | free hp hm contexts => simpa [postedMessages] using hsep

theorem reaches_deletions {b : Bool} (hs : Reaches Machine.step OwnershipRules (.constructed b) s) :
    Deletions s ∧ (postedMessages s.trace).Pairwise Payload.Separate := by
  have hall : Wf s ∧ Ledger s ∧ Deletions s ∧
      (postedMessages s.trace).Pairwise Payload.Separate := by
    refine hs.invariant (fun s => Wf s ∧ Ledger s ∧ Deletions s ∧
      (postedMessages s.trace).Pairwise Payload.Separate)
      ⟨wf_constructed b, ledger_constructed b, deletions_constructed b, List.Pairwise.nil⟩ ?_
    rintro s l t ⟨hw, hl, hd, hsep⟩ hgood hstep
    exact ⟨hw.step hstep, hl.step hw hstep, hd.step hw hl hstep,
      pairwise_separate_step hw hgood.2.2 hstep hsep⟩
  exact hall.2.2

/-! ## Each context once -/

section Once

variable (hl : Ledger s) (hd : Deletions s)
  (hsep : (postedMessages s.trace).Pairwise Payload.Separate)

include hd in
/-- A deleted context was posted for the queue to own, with a message deleted by now. -/
theorem exists_of_mem_deletedContexts {c : ℕ} (hc : c ∈ deletedContexts s.trace) :
    ∃ k m, k < (deletedMessages s.trace).length ∧ (postedMessages s.trace)[k]? = some m ∧
      m.context = some c ∧ m.callerOwns ≠ .caller := by
  rw [hd.contexts, List.mem_flatMap] at hc
  obtain ⟨m, hm, hc⟩ := hc
  obtain ⟨hctx, hown⟩ := mem_owned.mp hc
  obtain ⟨k, hk, hkm⟩ := List.mem_take_iff_getElem.mp hm
  refine ⟨k, m, by omega, ?_, hctx, hown⟩
  rw [List.getElem?_eq_some_iff]
  exact ⟨by omega, hkm⟩

include hd hsep in
theorem nodup_deletedContexts : (deletedContexts s.trace).Nodup := by
  rw [hd.contexts, List.nodup_flatMap]
  constructor
  · intro m _
    unfold Payload.owned
    split_ifs
    · cases m.context <;> simp
    · exact List.nodup_nil
  · refine (hsep.sublist (List.take_sublist _ _)).imp fun {m m'} hmm c hc hc' => ?_
    obtain ⟨hctx, hown⟩ := mem_owned.mp hc
    exact hown (hmm c hctx (mem_owned.mp hc').1).1

include hl hd hsep in
/-- The context of a message that no other message may share is deleted with it. -/
theorem mem_deletedContexts_iff {k : ℕ} {m : Payload} {c : ℕ}
    (hk : (postedMessages s.trace)[k]? = some m) (hown : m.callerOwns ≠ .caller)
    (hc : m.context = some c) :
    c ∈ deletedContexts s.trace ↔ k ∈ deletedMessages s.trace := by
  rw [hl.deletedMessages_eq_range, List.mem_range]
  constructor
  · intro hmem
    obtain ⟨j, m', hj, hjm, hctx, -⟩ := exists_of_mem_deletedContexts hd hmem
    by_cases hjk : j = k
    · rwa [← hjk]
    · exact (hown (separate_of_getElem? hsep hjm hk hjk c hctx hc).2).elim
  · intro hlt
    rw [hd.contexts, List.mem_flatMap]
    refine ⟨m, ?_, mem_owned.mpr ⟨hc, hown⟩⟩
    obtain ⟨hlen, hget⟩ := List.getElem?_eq_some_iff.mp hk
    exact List.mem_take_iff_getElem.mpr ⟨k, by omega, hget⟩

include hl hd hsep in
/-- No context is deleted before the messages that have it. -/
theorem notMem_deletedContexts {k : ℕ} {m : Payload} {c : ℕ}
    (hk : (postedMessages s.trace)[k]? = some m) (hc : m.context = some c)
    (hlive : k ∉ deletedMessages s.trace) : c ∉ deletedContexts s.trace := by
  intro hmem
  obtain ⟨j, m', hj, hjm, hctx, hown⟩ := exists_of_mem_deletedContexts hd hmem
  by_cases hjk : j = k
  · subst hjk
    apply hlive
    rw [hl.deletedMessages_eq_range]
    exact List.mem_range.mpr hj
  · exact hown (separate_of_getElem? hsep hjm hk hjk c hctx hc).1

include hl hd hsep in
/-- A handler is called before the context it is given is deleted. -/
theorem called_context_notMem {before after : List Event} {x : ℕ} {i : Invocation} {c : ℕ}
    (htrace : s.trace = before ++ .called x i :: after) (hc : i.context = some c) :
    c ∉ deletedContexts before := by
  obtain ⟨ms, m, hpopped, -, hcontexts, hctx⟩ := hd.order before _ after htrace
  have hprefix : ms ++ [m] <+: postedMessages s.trace := by
    apply List.IsPrefix.trans _ hl.popped
    rw [← hpopped, htrace, poppedMessages_append]
    exact List.prefix_append _ _
  have hpair := List.pairwise_append.mp (hsep.sublist hprefix.sublist)
  rw [hcontexts, List.mem_flatMap]
  rintro ⟨m', hm', hmem⟩
  obtain ⟨hctx', hown⟩ := mem_owned.mp hmem
  exact hown (hpair.2.2 m' hm' m (by simp) c hctx' (hctx.symm.trans hc)).1

end Once

/-- What becomes of messages and contexts. -/
structure FreesOnce (s : Machine) : Prop where
  /-- The queue holds the nodes of the messages posted and not popped. -/
  queued : s.mq.queue.nodes = List.range' (poppedMessages s.trace).length
    ((postedMessages s.trace).length - (poppedMessages s.trace).length)
  /-- The nodes that have left the queue are deleted, each of them once, apart from the one
  in dispatch. -/
  messages : deletedMessages s.trace ++ s.point.held.toList =
    List.range (poppedMessages s.trace).length
  /-- A context owned by the queue is deleted once, with its message. -/
  owned : ∀ k m c, (postedMessages s.trace)[k]? = some m → m.callerOwns = .mq →
    m.context = some c →
    (deletedContexts s.trace).count c = if k ∈ deletedMessages s.trace then 1 else 0
  /-- A context owned by the caller is never deleted. -/
  callers : ∀ m ∈ postedMessages s.trace, m.callerOwns = .caller → ∀ c, m.context = some c →
    c ∉ deletedContexts s.trace
  /-- Contexts and messages are deleted at the end of their dispatch, after all calls. -/
  order : Everywhere DispatchOrder s.trace
  /-- While a handler runs, neither its message nor its context has been deleted. -/
  inUse : ∀ n msg cur m, s.point = .running n msg cur → (postedMessages s.trace)[msg]? = some m →
    msg ∉ deletedMessages s.trace ∧ ∀ c, m.context = some c → c ∉ deletedContexts s.trace
  /-- No handler is called with a deleted context. -/
  called : ∀ before x i after c, s.trace = before ++ .called x i :: after →
    i.context = some c → c ∉ deletedContexts before
  /-- `Loop` does not get stuck between the calls. -/
  progress : s.callerRuns = false → ∃ t, s.step .tau = .ok t

/-- In every run in which no handler unsubscribes the entry it is called through, ids are
in range and every context that the queue is to own is posted once: contexts owned by the
queue and messages are freed exactly once, at the end of the dispatch, contexts owned by
the caller are not, and no handler is given a freed context. -/
theorem contexts_freed_once {b : Bool} {s : Machine}
    (hs : Reaches Machine.step OwnershipRules (.constructed b) s) : FreesOnce s := by
  have hw := reaches_wf hs
  have hl := reaches_ledger hs
  obtain ⟨hd, hsep⟩ := reaches_deletions hs
  have hc : CursorOk s := reaches_cursorOk (hs.mono fun _ _ hgood => hgood.1)
  have hi : IdsInRange s := reaches_idsInRange (hs.mono fun _ _ hgood => hgood.2.1)
  constructor
  · exact hl.nodes
  · exact hl.deleted
  · intro k m c hk hown hctx
    rw [(nodup_deletedContexts hd hsep).count]
    have hiff := mem_deletedContexts_iff hl hd hsep hk (by simp [hown]) hctx
    simp only [hiff]
  · intro m hm hown c hctx hmem
    obtain ⟨j, m', -, hjm, hctx', hown'⟩ := exists_of_mem_deletedContexts hd hmem
    obtain ⟨k, hk⟩ := List.getElem?_of_mem hm
    by_cases hjk : j = k
    · subst hjk
      rw [hjm] at hk
      cases hk
      exact hown' hown
    · exact hown' (separate_of_getElem? hsep hjm hk hjk c hctx' hctx).1
  · exact hd.order
  · intro n msg cur m hp hm
    have hlive : msg ∉ deletedMessages s.trace := by
      have hheld : s.point.held = some msg := by rw [hp]; rfl
      obtain ⟨ms, m', -, hmsg, hdeleted, -⟩ := hl.held hheld
      simp [hdeleted, hmsg]
    exact ⟨hlive, fun c hctx => notMem_deletedContexts hl hd hsep hm hctx hlive⟩
  · intro before x i after c htrace hctx
    exact called_context_notMem hl hd hsep htrace hctx
  · exact fun hruns => exists_tau hw hc hi hruns

/-- Both messages are dispatched; the handler of the second one has just been called. -/
def dispatchLabels : List Label :=
  [.loop 2, .tau, .tau, .tau, .tau, .tau, .tau, .tau, .tau]

/-- A message without subscribers and one with a handler, both with contexts owned by the
queue, and the state after `dispatchLabels`. -/
theorem contexts_freed_once_twoMessages :
    ∃ s, execute Machine.step (.constructed true)
        ([.call (.subscribeFunction 3 0x100 true), .call (.post ⟨4, some 8, .mq⟩ true),
          .call (.post ⟨3, some 7, .mq⟩ true)] ++ dispatchLabels) = .ok s ∧
      deletedContexts s.trace = [8] ∧ s.point = .running 1 1 0 ∧
      (deletedContexts s.trace).count 8 = 1 ∧ 7 ∉ deletedContexts s.trace := by
  let s := after Machine.step (.constructed true)
    ([.call (.subscribeFunction 3 0x100 true), .call (.post ⟨4, some 8, .mq⟩ true),
      .call (.post ⟨3, some 7, .mq⟩ true)] ++ dispatchLabels)
  have hs : Reaches Machine.step OwnershipRules (.constructed true) s := by
    refine .head (l := .call (.subscribeFunction 3 0x100 true))
      ⟨by simp [SparesOwnEntry, Call.unsubscribes], by simp [PassesNoNegativeId], ?_⟩ rfl ?_
    · intro m hm
      cases hm
    refine .head (l := .call (.post ⟨4, some 8, .mq⟩ true))
      ⟨by simp [SparesOwnEntry, Call.unsubscribes], ?_, ?_⟩ rfl ?_
    · simp [PassesNoNegativeId, MSG_ID_NOMESSAGE]
    · intro m _ m' hm'
      cases hm'
    refine .head (l := .call (.post ⟨3, some 7, .mq⟩ true))
      ⟨by simp [SparesOwnEntry, Call.unsubscribes], ?_, ?_⟩ rfl ?_
    · simp [PassesNoNegativeId, MSG_ID_NOMESSAGE]
    · intro m hm m' hm' c hc hc'
      cases hm
      have hmem : m' ∈ [(⟨4, some 8, .mq⟩ : Payload)] := hm'
      rw [List.mem_singleton] at hmem
      subst hmem
      have h8 : 8 = c := Option.some.inj hc
      have h7 : 7 = c := Option.some.inj hc'
      omega
    have hrun : execute Machine.step (after Machine.step (.constructed true)
        [.call (.subscribeFunction 3 0x100 true), .call (.post ⟨4, some 8, .mq⟩ true),
          .call (.post ⟨3, some 7, .mq⟩ true)]) dispatchLabels = .ok s := rfl
    refine Reaches.start.execute (fun u l hl => ?_) hrun
    have hquiet : l = .loop 2 ∨ l = .tau := by
      simpa [dispatchLabels] using hl
    rcases hquiet with rfl | rfl
    · exact ⟨trivial, trivial, by simp [PostsSeparate, Label.posts]⟩
    · exact ⟨trivial, trivial, by simp [PostsSeparate, Label.posts]⟩
  have hfrees := contexts_freed_once hs
  refine ⟨s, rfl, rfl, rfl, ?_, ?_⟩
  · exact hfrees.owned 0 ⟨4, some 8, .mq⟩ 8 rfl rfl rfl
  · exact (hfrees.inUse 1 1 0 ⟨3, some 7, .mq⟩ rfl rfl).2 7 rfl

end EmbeddedKernel.Mq
