import EmbeddedKernel.Avr
import EmbeddedKernel.Mq.Messages

/-!
# Subscription lists

Each message id has a singly linked list of handler nodes, a node being a
function entry or a receiver entry.  `Subscribe` and `Unsubscribe` walk such a
list and compare raw addresses.  The lists are described by their nodes, most
recently subscribed first: subscribing pushes a node, unsubscribing filters one
out, and nothing else changes.
-/

namespace EmbeddedKernel.Mq

open Library

/-- The two kinds of entry and the address each of them keeps. -/
inductive Handler
  | mhFunction (msgHandler : Addr)
  | mhClass (pReceiver : Addr)
  deriving DecidableEq

/-- What `MESSAGEHANDLER::Call` invokes. -/
inductive Invocation
  | msgHandler (f : Addr) (context : Ptr)
  | eventHandler (receiver : Addr) (id : ℤ) (context : Ptr)
  deriving DecidableEq

namespace Handler

def addr : Handler → Addr
  | .mhFunction f => f
  | .mhClass r => r

def checkHandler : Handler → Addr → Bool
  | .mhFunction f, handler => handler == f
  | .mhClass r, handler => handler == r

def call : Handler → ℤ → Ptr → Invocation
  | .mhFunction f, _, context => .msgHandler f context
  | .mhClass r, id, context => .eventHandler r id context

theorem checkHandler_iff {h : Handler} {a : Addr} : h.checkHandler a = true ↔ h.addr = a := by
  cases h <;> simp only [checkHandler, addr, beq_iff_eq] <;> exact eq_comm

end Handler

structure MessageHandler where
  handler : Handler
  pNextHandler : Ptr
  deriving DecidableEq

structure MQClass where
  handlers : Heap MessageHandler
  queueBlock : Fin MSG_MAX_MSG_IDS → Ptr
  queue : MsgQueue

namespace MQClass

def constructed (masterInterrupts : Bool) : MQClass :=
  ⟨.empty, fun _ => none, .constructed masterInterrupts⟩

/-- The index of an access to `QueueBlock`. -/
def index (msgid : ℤ) : Except Stop (Fin MSG_MAX_MSG_IDS) :=
  if h : 0 ≤ msgid ∧ msgid < MSG_MAX_MSG_IDS then .ok ⟨msgid.toNat, by omega⟩
  else .error (.badIndex msgid)

/-- The walk of `Subscribe`, stopping at the first entry with this address. -/
def findHandler (h : Heap MessageHandler) (handler : Addr) : ℕ → Ptr → Except Stop Ptr
  | _, none => .ok none
  | 0, some _ => .error .endless
  | n + 1, some p => do
      let node ← h.deref (some p)
      if node.handler.checkHandler handler then .ok (some p)
      else findHandler h handler n node.pNextHandler

/-- The two overloads of `Subscribe`, which differ in the node they create. -/
def subscribeHandler (mk : Addr → Handler) (s : MQClass) (msgid : ℤ) (handler : Addr)
    (alloc : Bool) : Except Stop (MQClass × ℤ) :=
  if msgid < MSG_MAX_MSG_IDS ∧ handler ≠ 0 then do
    let id ← index msgid
    let pHead ← findHandler s.handlers handler s.handlers.size (s.queueBlock id)
    if pHead = none ∧ alloc = true then
      .ok ({ s with
        handlers := s.handlers.new ⟨mk handler, s.queueBlock id⟩
        queueBlock := Function.update s.queueBlock id (some s.handlers.size) }, 0)
    else .ok (s, -1)
  else .ok (s, -1)

def subscribeFunction : MQClass → ℤ → Addr → Bool → Except Stop (MQClass × ℤ) :=
  subscribeHandler .mhFunction

def subscribeReceiver : MQClass → ℤ → Addr → Bool → Except Stop (MQClass × ℤ) :=
  subscribeHandler .mhClass

/-- Lines 217 to 222 of `Unsubscribe`: unlink `pHead` and delete it. -/
def unlink (s : MQClass) (id : Fin MSG_MAX_MSG_IDS) (pPrev : Ptr) (pHead : ℕ) (next : Ptr) :
    MQClass :=
  match pPrev with
  | none =>
      { s with
        queueBlock := Function.update s.queueBlock id next
        handlers := s.handlers.delete pHead }
  | some prev =>
      { s with
        handlers := (s.handlers.modify prev fun m =>
          { m with pNextHandler := next }).delete pHead }

/-- The walk of `Unsubscribe`, with the node before `pHead` in `pPrev`. -/
def unlinkHandler (s : MQClass) (id : Fin MSG_MAX_MSG_IDS) (handler : Addr) :
    ℕ → Ptr → Ptr → Except Stop (MQClass × ℤ)
  | _, none, _ => .ok (s, -1)
  | 0, some _, _ => .error .endless
  | n + 1, some p, pPrev => do
      let node ← s.handlers.deref (some p)
      if node.handler.checkHandler handler then .ok (s.unlink id pPrev p node.pNextHandler, 0)
      else unlinkHandler s id handler n node.pNextHandler (some p)

/-- The two overloads of `Unsubscribe` have the same body. -/
def unsubscribeHandler (s : MQClass) (msgid : ℤ) (handler : Addr) :
    Except Stop (MQClass × ℤ) :=
  if msgid < MSG_MAX_MSG_IDS then do
    let id ← index msgid
    unlinkHandler s id handler s.handlers.size (s.queueBlock id) none
  else .ok (s, -1)

def unsubscribeFunction : MQClass → ℤ → Addr → Except Stop (MQClass × ℤ) := unsubscribeHandler

def unsubscribeReceiver : MQClass → ℤ → Addr → Except Stop (MQClass × ℤ) := unsubscribeHandler

/-! ## The lists -/

def nodes (s : MQClass) (id : Fin MSG_MAX_MSG_IDS) : List ℕ :=
  follow MessageHandler.pNextHandler s.handlers s.handlers.size (s.queueBlock id)

def handlerAt (s : MQClass) (p : ℕ) : Option Handler := (s.handlers.get p).map (·.handler)

/-- The entries of a list, most recently subscribed first. -/
def entries (s : MQClass) (id : Fin MSG_MAX_MSG_IDS) : List Handler :=
  (s.nodes id).filterMap s.handlerAt

def matchesAddr (s : MQClass) (handler : Addr) (p : ℕ) : Bool :=
  (s.handlerAt p).any fun h => h.checkHandler handler

/-- The representation invariant of the subscription lists: they are chains, no two of
them share a node, and within a list no two entries have the same address. -/
structure Subscriptions (s : MQClass) : Prop where
  chain : ∀ id, Chain MessageHandler.pNextHandler s.handlers (s.queueBlock id) (s.nodes id)
  disjoint : ∀ i j, i ≠ j → List.Disjoint (s.nodes i) (s.nodes j)
  distinct : ∀ id, ((s.entries id).map Handler.addr).Nodup

theorem nodes_eq {s : MQClass} {id : Fin MSG_MAX_MSG_IDS} {xs : List ℕ}
    (h : Chain MessageHandler.pNextHandler s.handlers (s.queueBlock id) xs) :
    s.nodes id = xs :=
  h.follow_eq h.length_le_size

theorem subscriptions_constructed (b : Bool) : Subscriptions (constructed b) := by
  have hnodes : ∀ id, (constructed b).nodes id = [] := fun id => nodes_eq rfl
  constructor
  · intro id
    rw [hnodes]
    rfl
  · intro i j _
    simp [hnodes]
  · intro id
    simp [entries, hnodes]

theorem index_ok (id : Fin MSG_MAX_MSG_IDS) : index (id : ℕ) = .ok id := by
  have hlt : ((id : ℕ) : ℤ) < MSG_MAX_MSG_IDS := by exact_mod_cast id.isLt
  simp [index, hlt]

theorem index_eq_ok {msgid : ℤ} {id : Fin MSG_MAX_MSG_IDS} :
    index msgid = .ok id ↔ msgid = (id : ℕ) := by
  constructor
  · intro h
    unfold index at h
    split_ifs at h with hrange
    cases h
    simp [hrange.1]
  · rintro rfl
    exact index_ok id

theorem index_error (msgid : ℤ) (h : ¬(0 ≤ msgid ∧ msgid < MSG_MAX_MSG_IDS)) :
    index msgid = .error (.badIndex msgid) := by
  simp only [index, dif_neg h]

/-! ## What the walks find -/

variable {s s' : MQClass} {id : Fin MSG_MAX_MSG_IDS} {handler : Addr} {p : Ptr} {xs : List ℕ}

theorem findHandler_eq {n : ℕ} (handler : Addr)
    (hchain : Chain MessageHandler.pNextHandler s.handlers p xs)
    (hn : xs.length ≤ n) :
    findHandler s.handlers handler n p = .ok (xs.find? (s.matchesAddr handler)) := by
  induction xs generalizing p n with
  | nil =>
      rw [chain_nil] at hchain
      cases n <;> simp [hchain, findHandler]
  | cons x xs ih =>
      obtain ⟨rfl, node, hnode, htail⟩ := chain_cons.mp hchain
      obtain ⟨n, rfl⟩ := Nat.exists_eq_add_one_of_ne_zero (n := n) (by
        rintro rfl
        simp at hn)
      have hmatch : s.matchesAddr handler x = node.handler.checkHandler handler := by
        simp [matchesAddr, handlerAt, hnode]
      simp only [findHandler, Heap.deref_some hnode, ok_bind, List.find?_cons, hmatch]
      cases hc : node.handler.checkHandler handler with
      | true => simp
      | false =>
          simp only [Bool.false_eq_true, if_false]
          exact ih htail (by simpa using hn)

theorem handlerAt_of_mem (hs : Subscriptions s) {x : ℕ} (hx : x ∈ s.nodes id) :
    ∃ h, s.handlerAt x = some h := by
  obtain ⟨node, hnode⟩ := (hs.chain id).get_of_mem hx
  exact ⟨node.handler, by simp [handlerAt, hnode]⟩

theorem mem_entries {h : Handler} :
    h ∈ s.entries id ↔ ∃ x ∈ s.nodes id, s.handlerAt x = some h := by
  simp [entries]

/-- Two nodes of a list whose entries have the same address are the same node. -/
theorem handlerAt_inj (hs : Subscriptions s) {x y : ℕ} {e f : Handler} (hx : x ∈ s.nodes id)
    (hy : y ∈ s.nodes id) (he : s.handlerAt x = some e) (hf : s.handlerAt y = some f)
    (haddr : e.addr = f.addr) : x = y := by
  by_contra hne
  have hdistinct := hs.distinct id
  obtain ⟨as, bs, hsplit⟩ := List.append_of_mem hx
  have hrest : y ∈ as ∨ y ∈ bs := by
    rw [hsplit] at hy
    rcases List.mem_append.mp hy with hy | hy
    · exact Or.inl hy
    · exact Or.inr ((List.mem_cons.mp hy).resolve_left (Ne.symm hne))
  rw [entries, hsplit, List.filterMap_append, List.filterMap_cons_some he, List.map_append,
    List.map_cons, List.nodup_middle, List.nodup_cons] at hdistinct
  apply hdistinct.1
  rw [← List.map_append, ← List.filterMap_append, haddr]
  exact List.mem_map_of_mem (List.mem_filterMap.mpr ⟨y, List.mem_append.mpr hrest, hf⟩)

theorem find_eq_none_iff (handler : Addr) (hs : Subscriptions s) :
    (s.nodes id).find? (s.matchesAddr handler) = none ↔
      ∀ e ∈ s.entries id, e.addr ≠ handler := by
  rw [List.find?_eq_none]
  constructor
  · intro h e he heq
    obtain ⟨x, hx, hxe⟩ := mem_entries.mp he
    apply h x hx
    simp [matchesAddr, hxe, Handler.checkHandler_iff.mpr heq]
  · intro h x hx hmatch
    obtain ⟨e, he⟩ := handlerAt_of_mem hs hx
    simp only [matchesAddr, he, Option.any_some, Handler.checkHandler_iff] at hmatch
    exact h e (mem_entries.mpr ⟨x, hx, he⟩) hmatch

/-- Addresses are distinct within a list, so a walk that looks for the address of one of
its entries finds that entry. -/
theorem find_of_handlerAt (hs : Subscriptions s) {x : ℕ} {e : Handler} (hx : x ∈ s.nodes id)
    (he : s.handlerAt x = some e) (haddr : e.addr = handler) :
    (s.nodes id).find? (s.matchesAddr handler) = some x := by
  have hmem : e ∈ s.entries id := mem_entries.mpr ⟨x, hx, he⟩
  have hsome : (s.nodes id).find? (s.matchesAddr handler) ≠ none := by
    rw [Ne, find_eq_none_iff handler hs]
    push Not
    exact ⟨e, hmem, haddr⟩
  obtain ⟨y, hy⟩ := Option.ne_none_iff_exists'.mp hsome
  have hymem := List.mem_of_find?_eq_some hy
  obtain ⟨e', he'⟩ := handlerAt_of_mem hs hymem
  have haddr' : e'.addr = handler := by
    simpa [matchesAddr, he', Handler.checkHandler_iff] using List.find?_some hy
  rw [hy, handlerAt_inj hs hymem hx he' he (haddr'.trans haddr.symm)]

/-! ## Subscribing -/

/-- `s'` is `s` with a new entry `h` in front of the list of `id`. -/
structure Pushed (s s' : MQClass) (id : Fin MSG_MAX_MSG_IDS) (h : Handler) : Prop where
  nodes_self : s'.nodes id = s.handlers.size :: s.nodes id
  nodes_other : ∀ j, j ≠ id → s'.nodes j = s.nodes j
  handler_new : s'.handlerAt s.handlers.size = some h
  handler_old : ∀ x e, s.handlerAt x = some e → s'.handlerAt x = some e
  queue : s'.queue = s.queue

theorem size_notMem_nodes (hs : Subscriptions s) (id : Fin MSG_MAX_MSG_IDS) :
    s.handlers.size ∉ s.nodes id :=
  (hs.chain id).size_notMem

theorem filterMap_handlerAt_congr {xs : List ℕ}
    (h : ∀ x ∈ xs, s'.handlerAt x = s.handlerAt x) :
    xs.filterMap s'.handlerAt = xs.filterMap s.handlerAt :=
  List.filterMap_congr h

theorem Pushed.entries_self {h : Handler} (hp : Pushed s s' id h) (hs : Subscriptions s) :
    s'.entries id = h :: s.entries id := by
  have hold : (s.nodes id).filterMap s'.handlerAt = (s.nodes id).filterMap s.handlerAt := by
    apply filterMap_handlerAt_congr
    intro x hx
    obtain ⟨e, he⟩ := handlerAt_of_mem hs hx
    rw [he, hp.handler_old x e he]
  simp [entries, hp.nodes_self, hp.handler_new, hold]

theorem Pushed.entries_other {h : Handler} (hp : Pushed s s' id h) (hs : Subscriptions s)
    {j : Fin MSG_MAX_MSG_IDS} (hj : j ≠ id) : s'.entries j = s.entries j := by
  rw [entries, hp.nodes_other j hj]
  apply filterMap_handlerAt_congr
  intro x hx
  obtain ⟨e, he⟩ := handlerAt_of_mem hs hx
  rw [he, hp.handler_old x e he]

/-- The state after `new` and the assignment to `QueueBlock[id]`. -/
def push (s : MQClass) (id : Fin MSG_MAX_MSG_IDS) (h : Handler) : MQClass :=
  { s with
    handlers := s.handlers.new ⟨h, s.queueBlock id⟩
    queueBlock := Function.update s.queueBlock id (some s.handlers.size) }

theorem chain_push (hs : Subscriptions s) (h : Handler) :
    Chain MessageHandler.pNextHandler (s.push id h).handlers ((s.push id h).queueBlock id)
      (s.handlers.size :: s.nodes id) := by
  have hq : (s.push id h).queueBlock id = some s.handlers.size := by simp [push]
  rw [hq]
  exact (hs.chain id).push rfl

theorem chain_push_other (hs : Subscriptions s) (h : Handler) {j : Fin MSG_MAX_MSG_IDS}
    (hj : j ≠ id) :
    Chain MessageHandler.pNextHandler (s.push id h).handlers ((s.push id h).queueBlock j)
      (s.nodes j) := by
  have hq : (s.push id h).queueBlock j = s.queueBlock j := by simp [push, hj]
  rw [hq]
  exact (hs.chain j).new _

theorem pushed_push (id : Fin MSG_MAX_MSG_IDS) (hs : Subscriptions s) (h : Handler) :
    Pushed s (s.push id h) id h := by
  constructor
  · exact nodes_eq (chain_push hs h)
  · exact fun j hj => nodes_eq (chain_push_other hs h hj)
  · simp [handlerAt, push]
  · intro x e he
    obtain ⟨node, hnode, rfl⟩ := Option.map_eq_some_iff.mp he
    simp [handlerAt, push, Heap.get_new_of_get _ hnode]
  · rfl

theorem subscriptions_push (hs : Subscriptions s) {h : Handler}
    (habsent : ∀ e ∈ s.entries id, e.addr ≠ h.addr) : Subscriptions (s.push id h) := by
  have hp := pushed_push id hs h
  constructor
  · intro j
    by_cases hj : j = id
    · subst hj
      rw [hp.nodes_self]
      exact chain_push hs h
    · rw [hp.nodes_other j hj]
      exact chain_push_other hs h hj
  · intro i j hij
    by_cases hi : i = id
    · subst hi
      rw [hp.nodes_self, hp.nodes_other j (Ne.symm hij)]
      exact List.disjoint_cons_left.mpr ⟨size_notMem_nodes hs j, hs.disjoint i j hij⟩
    · by_cases hj : j = id
      · subst hj
        rw [hp.nodes_self, hp.nodes_other i hi]
        exact List.disjoint_cons_right.mpr ⟨size_notMem_nodes hs i, hs.disjoint i j hij⟩
      · rw [hp.nodes_other i hi, hp.nodes_other j hj]
        exact hs.disjoint i j hij
  · intro j
    by_cases hj : j = id
    · subst hj
      rw [hp.entries_self hs, List.map_cons, List.nodup_cons]
      refine ⟨?_, hs.distinct j⟩
      intro hmem
      obtain ⟨e, he, heq⟩ := List.mem_map.mp hmem
      exact habsent e he heq
    · rw [hp.entries_other hs hj]
      exact hs.distinct j

theorem subscribe_of_absent (hs : Subscriptions s) (mk : Addr → Handler) (hne : handler ≠ 0)
    (habsent : ∀ e ∈ s.entries id, e.addr ≠ handler) :
    subscribeHandler mk s (id : ℕ) handler true = .ok (s.push id (mk handler), 0) := by
  have hlt : ((id : ℕ) : ℤ) < MSG_MAX_MSG_IDS := by exact_mod_cast id.isLt
  have hfind := findHandler_eq handler (hs.chain id) (hs.chain id).length_le_size
  rw [(find_eq_none_iff handler hs).mpr habsent] at hfind
  simp [subscribeHandler, hlt, hne, index_ok, hfind, push]

theorem subscribe_of_present (hs : Subscriptions s) (mk : Addr → Handler) (alloc : Bool)
    (hpresent : ∃ e ∈ s.entries id, e.addr = handler) :
    subscribeHandler mk s (id : ℕ) handler alloc = .ok (s, -1) := by
  have hfind := findHandler_eq handler (hs.chain id) (hs.chain id).length_le_size
  have hsome : (s.nodes id).find? (s.matchesAddr handler) ≠ none := by
    rw [Ne, find_eq_none_iff handler hs]
    push Not
    exact hpresent
  by_cases hne : handler = 0
  · simp [subscribeHandler, hne]
  · have hlt : ((id : ℕ) : ℤ) < MSG_MAX_MSG_IDS := by exact_mod_cast id.isLt
    simp only [subscribeHandler, hlt, hne, index_ok, hfind, hsome, ok_bind, false_and, if_false,
      ne_eq, not_false_eq_true, and_self, if_true]

theorem subscribe_of_noAlloc (hs : Subscriptions s) (mk : Addr → Handler) :
    subscribeHandler mk s (id : ℕ) handler false = .ok (s, -1) := by
  have hfind := findHandler_eq handler (hs.chain id) (hs.chain id).length_le_size
  by_cases hne : handler = 0
  · simp [subscribeHandler, hne]
  · simp [subscribeHandler, hne, index_ok, hfind]

/-! ## Unsubscribing -/

/-- `s'` is `s` with the node `x` taken out of the list of `id` and deleted. -/
structure Removed (s s' : MQClass) (id : Fin MSG_MAX_MSG_IDS) (x : ℕ) : Prop where
  mem : x ∈ s.nodes id
  nodes_self : s'.nodes id = (s.nodes id).filter (· ≠ x)
  nodes_other : ∀ j, j ≠ id → s'.nodes j = s.nodes j
  freed : s'.handlers.Freed x
  size : s'.handlers.size = s.handlers.size
  handler_keep : ∀ y, y ≠ x → s'.handlerAt y = s.handlerAt y
  queue : s'.queue = s.queue
  subscriptions : Subscriptions s'

theorem unlink_size (id : Fin MSG_MAX_MSG_IDS) (pPrev : Ptr) (x : ℕ) (next : Ptr) :
    (s.unlink id pPrev x next).handlers.size = s.handlers.size := by
  cases pPrev <;> simp [unlink]

theorem unlink_queue (id : Fin MSG_MAX_MSG_IDS) (pPrev : Ptr) (x : ℕ) (next : Ptr) :
    (s.unlink id pPrev x next).queue = s.queue := by
  cases pPrev <;> rfl

theorem unlink_freed (id : Fin MSG_MAX_MSG_IDS) (pPrev : Ptr) {x : ℕ} (next : Ptr)
    {node : MessageHandler} (hnode : s.handlers.get x = some node) :
    (s.unlink id pPrev x next).handlers.Freed x := by
  constructor
  · rw [unlink_size]
    exact Heap.lt_size_of_get hnode
  · cases pPrev <;> simp [unlink]

theorem unlink_handlerAt (id : Fin MSG_MAX_MSG_IDS) (pPrev : Ptr) {x y : ℕ} (next : Ptr)
    (hy : y ≠ x) : (s.unlink id pPrev x next).handlerAt y = s.handlerAt y := by
  cases pPrev with
  | none => simp [unlink, handlerAt, Heap.get_delete_of_ne _ hy]
  | some prev =>
      by_cases hyp : y = prev
      · subst hyp
        cases hg : s.handlers.get y <;>
          simp [unlink, handlerAt, Heap.get_delete_of_ne _ hy, hg]
      · simp [unlink, handlerAt, Heap.get_delete_of_ne _ hy, Heap.get_modify_of_ne _ _ hyp]

theorem chain_unlink {front back : List ℕ} {x : ℕ} {node : MessageHandler}
    (hchain : Chain MessageHandler.pNextHandler s.handlers (s.queueBlock id)
      (front ++ x :: back)) (hnode : s.handlers.get x = some node) :
    Chain MessageHandler.pNextHandler (s.unlink id front.getLast? x node.pNextHandler).handlers
      ((s.unlink id front.getLast? x node.pNextHandler).queueBlock id) (front ++ back) := by
  rcases List.eq_nil_or_concat' front with rfl | ⟨ys, prev, rfl⟩
  · simpa [unlink] using hchain.unlink_head hnode
  · simpa [unlink] using hchain.unlink_next hnode (f := fun m =>
      { m with pNextHandler := node.pNextHandler }) fun _ => rfl

/-- A list that shares no node with the changed one stays as it is. -/
theorem chain_unlink_other {front : List ℕ} {x : ℕ} {next : Ptr} {j : Fin MSG_MAX_MSG_IDS}
    {ys : List ℕ} (hj : j ≠ id)
    (hchain : Chain MessageHandler.pNextHandler s.handlers (s.queueBlock j) ys)
    (hx : x ∉ ys) (hfront : ∀ y ∈ front, y ∉ ys) :
    Chain MessageHandler.pNextHandler (s.unlink id front.getLast? x next).handlers
      ((s.unlink id front.getLast? x next).queueBlock j) ys := by
  rcases List.eq_nil_or_concat' front with rfl | ⟨zs, prev, rfl⟩
  · simpa [unlink, hj] using hchain.delete_of_notMem hx
  · have hprev : prev ∉ ys := hfront prev (by simp)
    simpa [unlink] using (hchain.modify_of_notMem hprev _).delete_of_notMem hx

theorem filter_ne_of_nodup {front back : List ℕ} {x : ℕ} (h : (front ++ x :: back).Nodup) :
    (front ++ x :: back).filter (· ≠ x) = front ++ back := by
  have hparts := List.nodup_append.mp h
  have hfront : ∀ y ∈ front, y ≠ x := fun y hy => hparts.2.2 y hy x (by simp)
  have hback : ∀ y ∈ back, y ≠ x := by
    rintro y hy rfl
    exact (List.nodup_cons.mp hparts.2.1).1 hy
  rw [List.filter_append, List.filter_cons]
  simp only [ne_eq, not_true_eq_false, decide_false, Bool.false_eq_true, if_false]
  rw [List.filter_eq_self.mpr (by simpa using hfront), List.filter_eq_self.mpr
    (by simpa using hback)]

theorem removed_unlink (hs : Subscriptions s) {front back : List ℕ} {x : ℕ}
    {node : MessageHandler} (hnodes : s.nodes id = front ++ x :: back)
    (hnode : s.handlers.get x = some node) :
    Removed s (s.unlink id front.getLast? x node.pNextHandler) id x := by
  have hchain := hs.chain id
  have hnodup := hchain.nodup
  rw [hnodes] at hchain hnodup
  have hself := chain_unlink hchain hnode
  have hsub : ∀ y ∈ front ++ x :: back, y ∈ s.nodes id := by
    rw [hnodes]
    exact fun y hy => hy
  have hother : ∀ j, j ≠ id → Chain MessageHandler.pNextHandler
      (s.unlink id front.getLast? x node.pNextHandler).handlers
      ((s.unlink id front.getLast? x node.pNextHandler).queueBlock j) (s.nodes j) := by
    intro j hj
    have hdisj := hs.disjoint id j (Ne.symm hj)
    apply chain_unlink_other hj (hs.chain j)
    · exact hdisj (hsub x (by simp))
    · exact fun y hy => hdisj (hsub y (by simp [hy]))
  have hself' := nodes_eq hself
  have hother' := fun j hj => nodes_eq (hother j hj)
  have hfilter : (s.nodes id).filter (· ≠ x) = front ++ back := by
    rw [hnodes]
    exact filter_ne_of_nodup hnodup
  have hentries : ∀ ys : List ℕ, x ∉ ys →
      ys.filterMap (s.unlink id front.getLast? x node.pNextHandler).handlerAt =
        ys.filterMap s.handlerAt := by
    intro ys hx
    apply filterMap_handlerAt_congr
    intro y hy
    apply unlink_handlerAt
    rintro rfl
    exact hx hy
  have hxnot : x ∉ front ++ back := by
    rw [← hfilter]
    simp
  constructor
  · exact hsub x (by simp)
  · rw [hself', hfilter]
  · exact hother'
  · exact unlink_freed id _ _ hnode
  · exact unlink_size id _ x _
  · exact fun y hy => unlink_handlerAt id _ _ hy
  · exact unlink_queue id _ x _
  · constructor
    · intro j
      by_cases hj : j = id
      · subst hj
        rw [hself']
        exact hself
      · rw [hother' j hj]
        exact hother j hj
    · intro i j hij
      have hsubset : ∀ j, (s.unlink id front.getLast? x node.pNextHandler).nodes j ⊆
          s.nodes j := by
        intro j
        by_cases hj : j = id
        · subst hj
          rw [hself', ← hfilter]
          exact List.filter_sublist.subset
        · rw [hother' j hj]
          exact List.Subset.refl _
      exact fun y hy hy' => hs.disjoint i j hij (hsubset i hy) (hsubset j hy')
    · intro j
      by_cases hj : j = id
      · subst hj
        rw [entries, hself', hentries _ hxnot, ← hfilter]
        have hsubl : ((s.nodes j).filter (· ≠ x)).Sublist (s.nodes j) := List.filter_sublist
        exact ((hsubl.filterMap s.handlerAt).map Handler.addr).nodup (hs.distinct j)
      · have hxj : x ∉ s.nodes j := hs.disjoint id j (Ne.symm hj) (hsub x (by simp))
        rw [entries, hother' j hj, hentries _ hxj]
        exact hs.distinct j

theorem unlinkHandler_absent (id : Fin MSG_MAX_MSG_IDS) (front : List ℕ) {xs : List ℕ} {n : ℕ}
    (hchain : Chain MessageHandler.pNextHandler s.handlers p xs) (hn : xs.length ≤ n)
    (habsent : ∀ x ∈ xs, s.matchesAddr handler x = false) :
    unlinkHandler s id handler n p front.getLast? = .ok (s, -1) := by
  induction xs generalizing p n front with
  | nil =>
      rw [chain_nil] at hchain
      cases n <;> simp [hchain, unlinkHandler]
  | cons x xs ih =>
      obtain ⟨rfl, node, hnode, htail⟩ := chain_cons.mp hchain
      obtain ⟨n, rfl⟩ := Nat.exists_eq_add_one_of_ne_zero (n := n) (by
        rintro rfl
        simp at hn)
      have hmatch : node.handler.checkHandler handler = false := by
        simpa [matchesAddr, handlerAt, hnode] using habsent x (by simp)
      have hrec := ih (front ++ [x]) htail (by simpa using hn)
        fun y hy => habsent y (List.mem_cons_of_mem x hy)
      rw [List.getLast?_concat] at hrec
      simpa [unlinkHandler, Heap.deref_some hnode, hmatch] using hrec

/-- The walk stops at the first entry with the address; `pPrev` is the node before it. -/
theorem unlinkHandler_present (id : Fin MSG_MAX_MSG_IDS) (front : List ℕ) {pre back : List ℕ}
    {x n : ℕ} {node : MessageHandler}
    (hchain : Chain MessageHandler.pNextHandler s.handlers p (pre ++ x :: back))
    (hn : (pre ++ x :: back).length ≤ n)
    (hpre : ∀ y ∈ pre, s.matchesAddr handler y = false)
    (hnode : s.handlers.get x = some node)
    (hx : node.handler.checkHandler handler = true) :
    unlinkHandler s id handler n p front.getLast? =
      .ok (s.unlink id (front ++ pre).getLast? x node.pNextHandler, 0) := by
  induction pre generalizing p n front with
  | nil =>
      obtain ⟨rfl, -⟩ := chain_cons.mp hchain
      obtain ⟨n, rfl⟩ := Nat.exists_eq_add_one_of_ne_zero (n := n) (by
        rintro rfl
        simp at hn)
      simp [unlinkHandler, Heap.deref_some hnode, hx]
  | cons y pre ih =>
      obtain ⟨rfl, node', hnode', htail⟩ := chain_cons.mp hchain
      obtain ⟨n, rfl⟩ := Nat.exists_eq_add_one_of_ne_zero (n := n) (by
        rintro rfl
        simp at hn)
      have hmatch : node'.handler.checkHandler handler = false := by
        simpa [matchesAddr, handlerAt, hnode'] using hpre y (by simp)
      have hrec := ih (front ++ [y]) htail (by simpa using hn)
        fun z hz => hpre z (List.mem_cons_of_mem y hz)
      rw [List.getLast?_concat] at hrec
      simpa [unlinkHandler, Heap.deref_some hnode', hmatch] using hrec

theorem unsubscribe_of_absent (hs : Subscriptions s)
    (habsent : ∀ e ∈ s.entries id, e.addr ≠ handler) :
    unsubscribeHandler s (id : ℕ) handler = .ok (s, -1) := by
  have hlt : ((id : ℕ) : ℤ) < MSG_MAX_MSG_IDS := by exact_mod_cast id.isLt
  have hnone := List.find?_eq_none.mp ((find_eq_none_iff handler hs).mpr habsent)
  have hwalk := unlinkHandler_absent id [] (hs.chain id)
    (hs.chain id).length_le_size (by simpa using hnone)
  simpa [unsubscribeHandler, hlt, index_ok] using hwalk

theorem unsubscribe_of_present (hs : Subscriptions s) {e : Handler} (he : e ∈ s.entries id)
    (haddr : e.addr = handler) :
    ∃ s' x, unsubscribeHandler s (id : ℕ) handler = .ok (s', 0) ∧ Removed s s' id x ∧
      s.handlerAt x = some e := by
  have hlt : ((id : ℕ) : ℤ) < MSG_MAX_MSG_IDS := by exact_mod_cast id.isLt
  have hfind : (s.nodes id).find? (s.matchesAddr handler) ≠ none := by
    rw [Ne, find_eq_none_iff handler hs]
    push Not
    exact ⟨e, he, haddr⟩
  obtain ⟨x, hx⟩ := Option.ne_none_iff_exists'.mp hfind
  obtain ⟨hmatch, pre, back, hnodes, hpre⟩ := List.find?_eq_some_iff_append.mp hx
  have hchain := hs.chain id
  have hlen := hchain.length_le_size
  rw [hnodes] at hchain hlen
  obtain ⟨node, hnode⟩ := hchain.get_of_mem (x := x) (by simp)
  have hcheck : node.handler.checkHandler handler = true := by
    simpa [matchesAddr, handlerAt, hnode] using hmatch
  have hwalk := unlinkHandler_present id [] hchain hlen
    (by simpa using hpre) hnode hcheck
  refine ⟨_, x, by simpa [unsubscribeHandler, hlt, index_ok] using hwalk,
    removed_unlink hs hnodes hnode, ?_⟩
  -- the entry found is `e`, since addresses are distinct within the list
  obtain ⟨y, hy, hye⟩ := mem_entries.mp he
  have hxy := (find_of_handlerAt hs hy hye haddr).symm.trans hx
  cases hxy
  exact hye

/-! ## What a call can do -/

theorem cases_msgid {msgid : ℤ} (hlt : msgid < MSG_MAX_MSG_IDS) :
    msgid < 0 ∨ ∃ id : Fin MSG_MAX_MSG_IDS, msgid = (id : ℕ) := by
  rcases lt_or_ge msgid 0 with hneg | hpos
  · exact Or.inl hneg
  · exact Or.inr ⟨⟨msgid.toNat, by omega⟩, by simp [hpos]⟩

variable {mk : Addr → Handler} {msgid rc : ℤ} {alloc : Bool}

theorem subscribe_of_neg (mk : Addr → Handler) (s : MQClass) (hneg : msgid < 0)
    (hne : handler ≠ 0) (alloc : Bool) :
    subscribeHandler mk s msgid handler alloc = .error (.badIndex msgid) := by
  have hlt : msgid < MSG_MAX_MSG_IDS := hneg.trans (by decide)
  simp [subscribeHandler, hlt, hne, index_error msgid (by omega), bind, Except.bind]

theorem unsubscribe_of_neg (s : MQClass) (hneg : msgid < 0) (handler : Addr) :
    unsubscribeHandler s msgid handler = .error (.badIndex msgid) := by
  have hlt : msgid < MSG_MAX_MSG_IDS := hneg.trans (by decide)
  simp [unsubscribeHandler, hlt, index_error msgid (by omega), bind, Except.bind]

/-- `Subscribe` outside the list bounds, with the null handler, with an address that is
subscribed already or without memory changes nothing; otherwise it pushes an entry,
and a negative id makes it index out of bounds. -/
theorem subscribe_cases (hs : Subscriptions s) (mk : Addr → Handler) (msgid : ℤ)
    (handler : Addr) (alloc : Bool) :
    (subscribeHandler mk s msgid handler alloc = .ok (s, -1) ∧
      (handler = 0 ∨ MSG_MAX_MSG_IDS ≤ msgid ∨ alloc = false ∨
        ∃ id : Fin MSG_MAX_MSG_IDS, msgid = (id : ℕ) ∧ ∃ e ∈ s.entries id, e.addr = handler)) ∨
    (subscribeHandler mk s msgid handler alloc = .error (.badIndex msgid) ∧
      msgid < 0 ∧ handler ≠ 0) ∨
    ∃ id : Fin MSG_MAX_MSG_IDS, msgid = (id : ℕ) ∧ handler ≠ 0 ∧ alloc = true ∧
      (∀ e ∈ s.entries id, e.addr ≠ handler) ∧
      subscribeHandler mk s msgid handler alloc = .ok (s.push id (mk handler), 0) := by
  by_cases hne : handler = 0
  · exact Or.inl ⟨by simp [subscribeHandler, hne], Or.inl hne⟩
  by_cases hlt : msgid < MSG_MAX_MSG_IDS
  · rcases cases_msgid hlt with hneg | ⟨id, rfl⟩
    · exact Or.inr (Or.inl ⟨subscribe_of_neg mk s hneg hne alloc, hneg, hne⟩)
    · cases alloc with
      | false => exact Or.inl ⟨subscribe_of_noAlloc hs mk, by simp⟩
      | true =>
          by_cases hpresent : ∃ e ∈ s.entries id, e.addr = handler
          · exact Or.inl ⟨subscribe_of_present hs mk true hpresent,
              Or.inr (Or.inr (Or.inr ⟨id, rfl, hpresent⟩))⟩
          · push Not at hpresent
            exact Or.inr (Or.inr ⟨id, rfl, hne, rfl, hpresent,
              subscribe_of_absent hs mk hne hpresent⟩)
  · refine Or.inl ⟨by simp [subscribeHandler, hlt], Or.inr (Or.inl (not_lt.mp hlt))⟩

theorem unsubscribe_cases (hs : Subscriptions s) (msgid : ℤ) (handler : Addr) :
    (unsubscribeHandler s msgid handler = .ok (s, -1) ∧
      (MSG_MAX_MSG_IDS ≤ msgid ∨
        ∃ id : Fin MSG_MAX_MSG_IDS, msgid = (id : ℕ) ∧ ∀ e ∈ s.entries id, e.addr ≠ handler)) ∨
    (unsubscribeHandler s msgid handler = .error (.badIndex msgid) ∧ msgid < 0) ∨
    ∃ (id : Fin MSG_MAX_MSG_IDS) (x : ℕ) (e : Handler) (s' : MQClass), msgid = (id : ℕ) ∧
      e.addr = handler ∧ s.handlerAt x = some e ∧
      unsubscribeHandler s msgid handler = .ok (s', 0) ∧ Removed s s' id x := by
  by_cases hlt : msgid < MSG_MAX_MSG_IDS
  · rcases cases_msgid hlt with hneg | ⟨id, rfl⟩
    · exact Or.inr (Or.inl ⟨unsubscribe_of_neg s hneg handler, hneg⟩)
    · by_cases hpresent : ∃ e ∈ s.entries id, e.addr = handler
      · obtain ⟨e, he, haddr⟩ := hpresent
        obtain ⟨s', x, hok, hrem, hx⟩ := unsubscribe_of_present hs he haddr
        exact Or.inr (Or.inr ⟨id, x, e, s', rfl, haddr, hx, hok, hrem⟩)
      · push Not at hpresent
        exact Or.inl ⟨unsubscribe_of_absent hs hpresent, Or.inr ⟨id, rfl, hpresent⟩⟩
  · exact Or.inl ⟨by simp [unsubscribeHandler, hlt], Or.inl (not_lt.mp hlt)⟩

end MQClass

end EmbeddedKernel.Mq
