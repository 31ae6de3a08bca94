import EmbeddedKernel.Library.Chain
import EmbeddedKernel.Library.Run

/-!
# The list of pending messages

`MsgQueue` holds the message nodes, the two ends of the list and the master
interrupt flag that guards it.  Each statement of `MQClass::Post` and of the pop
in `MQClass::Loop` is a function of its own; `post` and `pop` put them together
as the uninterrupted call does.
-/

namespace EmbeddedKernel.Mq

open Library

def MSG_ID_NOMESSAGE : ℤ := -1

def MSG_MAX_MSG_IDS : ℕ := 26

inductive MQContext
  | task
  | interrupt
  deriving DecidableEq

inductive MQOwner
  | caller
  | mq
  deriving DecidableEq

/-- What a caller of `Post` hands over. -/
structure Payload where
  msgid : ℤ
  context : Ptr
  callerOwns : MQOwner
  deriving DecidableEq

structure Message extends Payload where
  pNextMsg : Ptr
  deriving DecidableEq

structure MsgQueue where
  heap : Heap Message
  msgQueueFirst : Ptr
  msgQueueLast : Ptr
  masterInterrupts : Bool
  deriving DecidableEq

namespace MsgQueue

def constructed (masterInterrupts : Bool) : MsgQueue := ⟨.empty, none, none, masterInterrupts⟩

def intDisableMasterInterrupts (q : MsgQueue) : MsgQueue := { q with masterInterrupts := false }

def intEnableMasterInterrupts (q : MsgQueue) : MsgQueue := { q with masterInterrupts := true }

/-- `new MESSAGE(msgid, context, CallerOwns)`; the node is at `q.heap.size`. -/
def newMessage (q : MsgQueue) (m : Payload) : MsgQueue :=
  { q with heap := q.heap.new { m with pNextMsg := none } }

/-- `MsgQueueFirst = MsgQueueLast = newMessage`. -/
def linkFirst (q : MsgQueue) (p : ℕ) : MsgQueue :=
  { q with msgQueueFirst := some p, msgQueueLast := some p }

/-- `MsgQueueLast->pNextMsg = newMessage`. -/
def linkLast (q : MsgQueue) (p : ℕ) : Except Stop MsgQueue :=
  match q.msgQueueLast with
  | none => .error .nullPointer
  | some last =>
      match q.heap.get last with
      | none => .error (.freed last)
      | some _ =>
          .ok { q with heap := q.heap.modify last fun m => { m with pNextMsg := some p } }

/-- `MsgQueueLast = newMessage`. -/
def setLast (q : MsgQueue) (p : ℕ) : MsgQueue := { q with msgQueueLast := some p }

/-- `MsgQueueFirst = msg->pNextMsg`. -/
def advanceFirst (q : MsgQueue) (msg : ℕ) : Except Stop MsgQueue := do
  let m ← q.heap.deref (some msg)
  .ok { q with msgQueueFirst := m.pNextMsg }

/-- `if(MsgQueueFirst == NULL) MsgQueueLast = NULL`. -/
def clearLast (q : MsgQueue) : MsgQueue :=
  if q.msgQueueFirst = none then { q with msgQueueLast := none } else q

def deleteMessage (q : MsgQueue) (msg : ℕ) : Except Stop MsgQueue := do
  let _ ← q.heap.deref (some msg)
  .ok { q with heap := q.heap.delete msg }

/-- The guard of `Post`. -/
def Accepts (m : Payload) : Prop := m.msgid < MSG_MAX_MSG_IDS ∧ m.msgid ≠ MSG_ID_NOMESSAGE

instance (m : Payload) : Decidable (Accepts m) := inferInstanceAs (Decidable (_ ∧ _))

/-- The body of `Post` between its two interrupt statements. `alloc` says whether
`new` succeeds. -/
def append (q : MsgQueue) (m : Payload) (alloc : Bool) : Except Stop (MsgQueue × ℤ) :=
  if Accepts m ∧ alloc = true then
    let p := q.heap.size
    let q := q.newMessage m
    if q.msgQueueFirst = none then .ok (q.linkFirst p, 0)
    else do
      let q ← q.linkLast p
      .ok (q.setLast p, 0)
  else .ok (q, -1)

def post (q : MsgQueue) (m : Payload) (isIntCtx : MQContext) (alloc : Bool) :
    Except Stop (MsgQueue × ℤ) := do
  let q := if isIntCtx ≠ .interrupt then q.intDisableMasterInterrupts else q
  let (q, rc) ← q.append m alloc
  let q := if isIntCtx ≠ .interrupt then q.intEnableMasterInterrupts else q
  .ok (q, rc)

/-- Lines 363 to 371 of `Loop`: the popped node, if there is one. -/
def pop (q : MsgQueue) : Except Stop (MsgQueue × Ptr) := do
  let q := q.intDisableMasterInterrupts
  match q.msgQueueFirst with
  | none => .ok (q.intEnableMasterInterrupts, none)
  | some msg =>
      let q ← q.advanceFirst msg
      .ok (q.clearLast.intEnableMasterInterrupts, some msg)

/-! ## What the list holds -/

def payloads (h : Heap Message) (xs : List ℕ) : List Payload :=
  xs.filterMap fun p => (h.get p).map Message.toPayload

def nodes (q : MsgQueue) : List ℕ := follow Message.pNextMsg q.heap q.heap.size q.msgQueueFirst

def contents (q : MsgQueue) : List Payload := payloads q.heap q.nodes

/-- `xs` are the nodes from `MsgQueueFirst` on, and `MsgQueueLast` is the last of them. -/
structure Rep (q : MsgQueue) (xs : List ℕ) : Prop where
  chain : Chain Message.pNextMsg q.heap q.msgQueueFirst xs
  last : q.msgQueueLast = xs.getLast?

theorem nodes_eq {q : MsgQueue} {xs : List ℕ}
    (h : Chain Message.pNextMsg q.heap q.msgQueueFirst xs) : q.nodes = xs :=
  h.follow_eq h.length_le_size

theorem Rep.self {q : MsgQueue} {xs : List ℕ} (h : Rep q xs) : Rep q q.nodes := by
  rw [nodes_eq h.chain]
  exact h

theorem payloads_congr {h h' : Heap Message} {xs : List ℕ}
    (hsame : ∀ x ∈ xs, (h'.get x).map Message.toPayload = (h.get x).map Message.toPayload) :
    payloads h' xs = payloads h xs :=
  List.filterMap_congr hsame

@[simp] theorem payloads_nil (h : Heap Message) : payloads h [] = [] := rfl

@[simp] theorem payloads_append (h : Heap Message) (xs ys : List ℕ) :
    payloads h (xs ++ ys) = payloads h xs ++ payloads h ys := by
  simp [payloads]

theorem payloads_cons {h : Heap Message} {x : ℕ} {m : Message} (xs : List ℕ)
    (hx : h.get x = some m) : payloads h (x :: xs) = m.toPayload :: payloads h xs := by
  simp [payloads, hx]

theorem payloads_new {h : Heap Message} {xs : List ℕ} (m : Message) (hxs : h.size ∉ xs) :
    payloads (h.new m) xs = payloads h xs := by
  apply payloads_congr
  intro x hx
  rw [Heap.get_new, if_neg]
  rintro rfl
  exact hxs hx

theorem payloads_relink (h : Heap Message) (xs : List ℕ) (x : ℕ) (p : Ptr) :
    payloads (h.modify x fun m => { m with pNextMsg := p }) xs = payloads h xs := by
  apply payloads_congr
  intro y _
  by_cases hyx : y = x
  · subst hyx
    cases hy : h.get y <;> simp [hy]
  · rw [Heap.get_modify_of_ne _ _ hyx]

theorem payloads_delete {h : Heap Message} {xs : List ℕ} {x : ℕ} (hx : x ∉ xs) :
    payloads (h.delete x) xs = payloads h xs := by
  apply payloads_congr
  intro y hy
  rw [Heap.get_delete_of_ne]
  rintro rfl
  exact hx hy

/-! ## Specification of the two operations -/

/-- A node that has been allocated and is not linked yet. -/
def Detached (q : MsgQueue) (p : ℕ) (m : Payload) (xs : List ℕ) : Prop :=
  q.heap.get p = some { m with pNextMsg := none } ∧ p ∉ xs

theorem detached_newMessage {q : MsgQueue} {xs : List ℕ} (m : Payload)
    (hchain : Chain Message.pNextMsg q.heap q.msgQueueFirst xs) :
    Detached (q.newMessage m) q.heap.size m xs :=
  ⟨by simp [newMessage], hchain.size_notMem⟩

theorem Rep.newMessage {q : MsgQueue} {xs : List ℕ} (h : Rep q xs) (m : Payload) :
    Rep (q.newMessage m) xs :=
  ⟨h.chain.new _, h.last⟩

theorem chain_linkFirst {q : MsgQueue} {p : ℕ} {m : Payload} (hp : Detached q p m []) :
    Chain Message.pNextMsg (q.linkFirst p).heap (q.linkFirst p).msgQueueFirst [p] :=
  ⟨rfl, _, hp.1, rfl⟩

/-- Linking behind the last node. -/
theorem linkLast_spec {q : MsgQueue} {p : ℕ} {m : Payload} {xs : List ℕ} (h : Rep q xs)
    (hne : xs ≠ []) (hp : Detached q p m xs) :
    ∃ last, q.linkLast p =
        .ok { q with heap := q.heap.modify last fun m => { m with pNextMsg := some p } } ∧
      q.msgQueueLast = some last ∧ last ∈ xs ∧
      Chain Message.pNextMsg (q.heap.modify last fun m => { m with pNextMsg := some p })
        q.msgQueueFirst (xs ++ [p]) := by
  obtain ⟨ys, last, rfl⟩ := (List.eq_nil_or_concat' xs).resolve_left hne
  have hlast : q.msgQueueLast = some last := by simpa using h.last
  obtain ⟨b, hb⟩ := h.chain.get_of_mem (x := last) (by simp)
  refine ⟨last, by simp [linkLast, hlast, hb], hlast, by simp, ?_⟩
  exact h.chain.snoc hp.2 hp.1 rfl fun _ => rfl

theorem linkLast_flag {q q' : MsgQueue} {p : ℕ} (h : q.linkLast p = .ok q') :
    q'.masterInterrupts = q.masterInterrupts := by
  unfold linkLast at h
  split at h
  · cases h
  · split at h <;> cases h
    rfl

theorem clearLast_flag (q : MsgQueue) : q.clearLast.masterInterrupts = q.masterInterrupts := by
  unfold clearLast
  split_ifs <;> rfl

theorem payloads_linkLast {q : MsgQueue} {p : ℕ} {m : Payload} {xs : List ℕ} (last : ℕ)
    (hp : Detached q p m xs) :
    payloads (q.heap.modify last fun m => { m with pNextMsg := some p }) (xs ++ [p]) =
      payloads q.heap xs ++ [m] := by
  rw [payloads_relink, payloads_append, payloads_cons [] hp.1]
  rfl

/-- Every live node stays live and keeps its payload. -/
def Keeps (h h' : Heap Message) : Prop :=
  ∀ x m, h.get x = some m → ∃ m', h'.get x = some m' ∧ m'.toPayload = m.toPayload

theorem keeps_new (h : Heap Message) (m : Message) : Keeps h (h.new m) :=
  fun _ m' hm => ⟨m', Heap.get_new_of_get m hm, rfl⟩

theorem keeps_relink (h : Heap Message) (x : ℕ) (p : Ptr) :
    Keeps h (h.modify x fun m => { m with pNextMsg := p }) := by
  intro y m hm
  by_cases hyx : y = x
  · subst hyx
    exact ⟨{ m with pNextMsg := p }, by simp [hm], rfl⟩
  · exact ⟨m, by rw [Heap.get_modify_of_ne _ _ hyx, hm], rfl⟩

theorem Keeps.trans {h h' h'' : Heap Message} (h₁ : Keeps h h') (h₂ : Keeps h' h'') :
    Keeps h h'' := by
  intro x m hm
  obtain ⟨m', hm', heq⟩ := h₁ x m hm
  obtain ⟨m'', hm'', heq'⟩ := h₂ x m' hm'
  exact ⟨m'', hm'', heq'.trans heq⟩

/-- The message `m` has been appended to the list `xs` of `q`. -/
structure Appended (q q' : MsgQueue) (xs : List ℕ) (m : Payload) : Prop where
  rep : Rep q' (xs ++ [q.heap.size])
  payloads_eq : payloads q'.heap (xs ++ [q.heap.size]) = payloads q.heap xs ++ [m]
  keeps : Keeps q.heap q'.heap

theorem append_of_accepts {q : MsgQueue} {xs : List ℕ} (h : Rep q xs) {m : Payload}
    (hm : Accepts m) : ∃ q', q.append m true = .ok (q', 0) ∧ Appended q q' xs m := by
  have hdet := detached_newMessage m h.chain
  have hnew := h.newMessage m
  by_cases hxs : xs = []
  · subst hxs
    have hfirst : (q.newMessage m).msgQueueFirst = none := hnew.chain
    refine ⟨(q.newMessage m).linkFirst q.heap.size, by simp [append, hm, hfirst], ?_, ?_, ?_⟩
    · exact ⟨chain_linkFirst hdet, rfl⟩
    · exact payloads_cons [] hdet.1
    · exact keeps_new q.heap _
  · obtain ⟨last, hlink, -, -, hchain⟩ := linkLast_spec hnew hxs hdet
    have hfirst : (q.newMessage m).msgQueueFirst ≠ none := by
      intro hnone
      cases xs with
      | nil => exact hxs rfl
      | cons x xs => simpa [hnone] using hnew.chain
    have happend : q.append m true = .ok (({ q.newMessage m with
        heap := (q.newMessage m).heap.modify last fun m =>
          { m with pNextMsg := some q.heap.size } } : MsgQueue).setLast q.heap.size, 0) := by
      simp [append, hm, hfirst, hlink]
    refine ⟨_, happend, ⟨hchain, by simp [setLast]⟩, ?_, ?_⟩
    · have hpay := payloads_linkLast last hdet
      rw [show payloads (q.newMessage m).heap xs = payloads q.heap xs from
        payloads_new _ h.chain.size_notMem] at hpay
      exact hpay
    · exact (keeps_new q.heap _).trans (keeps_relink _ last _)

/-- `q'` differs from `q` at most in the master interrupt flag. -/
structure SameMessages (q q' : MsgQueue) : Prop where
  heap : q'.heap = q.heap
  first : q'.msgQueueFirst = q.msgQueueFirst
  last : q'.msgQueueLast = q.msgQueueLast

theorem SameMessages.nodes {q q' : MsgQueue} (h : SameMessages q q') : q'.nodes = q.nodes := by
  simp [MsgQueue.nodes, h.heap, h.first]

theorem SameMessages.contents {q q' : MsgQueue} (h : SameMessages q q') :
    q'.contents = q.contents := by
  simp [MsgQueue.contents, h.nodes, h.heap]

theorem append_of_refused {q : MsgQueue} {m : Payload} {alloc : Bool}
    (hm : ¬(Accepts m ∧ alloc = true)) : q.append m alloc = .ok (q, -1) := by
  simp [append, hm]

/-- What `append` can do, whatever the list looks like. -/
theorem append_eq_ok {q q' : MsgQueue} {m : Payload} {alloc : Bool} {rc : ℤ}
    (h : q.append m alloc = .ok (q', rc)) :
    (q' = q ∧ rc = -1) ∨
      (q' = (q.newMessage m).linkFirst q.heap.size ∧ rc = 0) ∨
      ∃ last, q' = ({ q.newMessage m with
        heap := (q.newMessage m).heap.modify last fun m =>
          { m with pNextMsg := some q.heap.size } } : MsgQueue).setLast q.heap.size ∧ rc = 0 := by
  unfold append at h
  split_ifs at h
  · simp only at h
    split_ifs at h
    · cases h
      exact Or.inr (Or.inl ⟨rfl, rfl⟩)
    · obtain ⟨q₁, hlink, heq⟩ := bind_eq_ok.mp h
      cases heq
      unfold linkLast at hlink
      split at hlink
      · cases hlink
      · split at hlink
        · cases hlink
        · cases hlink
          exact Or.inr (Or.inr ⟨_, rfl, rfl⟩)
  · cases h
    exact Or.inl ⟨rfl, rfl⟩

/-- `Post` in either context appends the message and returns 0, or returns -1 and
leaves the messages as they are. -/
theorem post_cases {q : MsgQueue} {xs : List ℕ} (h : Rep q xs) (m : Payload)
    (isIntCtx : MQContext) (alloc : Bool) :
    (∃ q', q.post m isIntCtx alloc = .ok (q', 0) ∧ Accepts m ∧ alloc = true ∧
      Appended q q' xs m) ∨
    ∃ q', q.post m isIntCtx alloc = .ok (q', -1) ∧ ¬(Accepts m ∧ alloc = true) ∧
      SameMessages q q' := by
  by_cases hacc : Accepts m ∧ alloc = true
  · obtain ⟨hm, rfl⟩ := hacc
    left
    cases isIntCtx with
    | interrupt =>
        obtain ⟨q', happend, happ⟩ := append_of_accepts h hm
        exact ⟨q', by simp [post, happend], hm, rfl, happ⟩
    | task =>
        have hmask : Rep q.intDisableMasterInterrupts xs := ⟨h.chain, h.last⟩
        obtain ⟨q', happend, happ⟩ := append_of_accepts hmask hm
        exact ⟨q'.intEnableMasterInterrupts, by simp [post, happend], hm, rfl,
          ⟨happ.rep.chain, happ.rep.last⟩, happ.payloads_eq, happ.keeps⟩
  · right
    cases isIntCtx with
    | interrupt => exact ⟨q, by simp [post, append_of_refused hacc], hacc, rfl, rfl, rfl⟩
    | task =>
        exact ⟨q.intDisableMasterInterrupts.intEnableMasterInterrupts,
          by simp [post, append_of_refused hacc], hacc, rfl, rfl, rfl⟩

/-- A popped node is no longer in the list, stays live, and was the first one. -/
theorem pop_of_cons {q : MsgQueue} {x : ℕ} {xs : List ℕ} (h : Rep q (x :: xs)) :
    ∃ q', q.pop = .ok (q', some x) ∧ Rep q' xs ∧ q'.heap = q.heap ∧ x ∉ xs ∧
      q'.masterInterrupts = true ∧ ∃ m, q.heap.get x = some m := by
  have hnodup := h.chain.nodup
  obtain ⟨hfirst, m, hm, htail⟩ := chain_cons.mp h.chain
  have hderef : q.heap.deref (some x) = .ok m := Heap.deref_some hm
  refine ⟨({ q with msgQueueFirst := m.pNextMsg, masterInterrupts := false } :
    MsgQueue).clearLast.intEnableMasterInterrupts, ?_, ⟨?_, ?_⟩, ?_,
    (List.nodup_cons.mp hnodup).1, rfl, m, hm⟩
  · simp [pop, intDisableMasterInterrupts, hfirst, advanceFirst, hderef]
  · cases hn : m.pNextMsg <;> simpa [clearLast, intEnableMasterInterrupts, hn] using htail
  · cases xs with
    | nil =>
        have hn : m.pNextMsg = none := htail
        simp [clearLast, intEnableMasterInterrupts, hn]
    | cons y ys =>
        have hn : m.pNextMsg = some y := htail.1
        have hlast : q.msgQueueLast = (y :: ys).getLast? := by simpa using h.last
        simpa [clearLast, intEnableMasterInterrupts, hn] using hlast
  · cases hn : m.pNextMsg <;> simp [clearLast, intEnableMasterInterrupts]

theorem pop_of_nil {q : MsgQueue} (h : Rep q []) :
    q.pop = .ok ({ q with masterInterrupts := true }, none) := by
  have hfirst : q.msgQueueFirst = none := h.chain
  simp [pop, intDisableMasterInterrupts, intEnableMasterInterrupts, hfirst]

theorem rep_constructed (b : Bool) : Rep (constructed b) [] := ⟨rfl, rfl⟩

end MsgQueue

end EmbeddedKernel.Mq
