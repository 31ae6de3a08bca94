import EmbeddedKernel.Library.OrderedSet
import EmbeddedKernel.Mq.AddressSpaces

/-!
# The subscription lists as ordered sets

What the lists are for: each message id has a set of handlers, and the one
subscribed last comes first.  Handlers are told apart by their addresses.  The
operations on the linked lists give the same results as those on the sets, and
after every sequence of them the lists are the sets.
-/

namespace EmbeddedKernel.Mq

open Library

namespace MQClass

/-- The source declares a result but has no `return` statement. -/
def unsubscribeAllIDs (s : MQClass) (handler : Addr) : Except Stop MQClass :=
  (List.range MSG_MAX_MSG_IDS).foldlM
    (fun s (idx : ℕ) => do
      let (s, _) ← s.unsubscribeReceiver idx handler
      .ok s) s

end MQClass

/-- The calls that change subscriptions. -/
inductive SubscriptionCall
  | subscribe (id : Fin MSG_MAX_MSG_IDS) (handler : Handler)
  | unsubscribe (id : Fin MSG_MAX_MSG_IDS) (handler : Handler)
  | unsubscribeAllIDs (receiver : Addr)
  deriving DecidableEq

namespace SubscriptionCall

def addr : SubscriptionCall → Addr
  | .subscribe _ handler => handler.addr
  | .unsubscribe _ handler => handler.addr
  | .unsubscribeAllIDs receiver => receiver

/-- The call in the source, with memory left for the new node, and the value it returns. -/
def call (s : MQClass) : SubscriptionCall → Except Stop (MQClass × Option ℤ)
  | .subscribe id handler => do
      let (s, rc) ← s.subscribeOf (id : ℕ) true handler
      .ok (s, some rc)
  | .unsubscribe id handler => do
      let (s, rc) ← s.unsubscribeOf (id : ℕ) handler
      .ok (s, some rc)
  | .unsubscribeAllIDs receiver => do
      let s ← s.unsubscribeAllIDs receiver
      .ok (s, none)

/-- The call on ordered sets of addresses, one for each id. -/
def answer (t : Fin MSG_MAX_MSG_IDS → OrderedSet Addr) :
    SubscriptionCall → (Fin MSG_MAX_MSG_IDS → OrderedSet Addr) × Option ℤ
  | .subscribe id handler =>
      if handler.addr ∈ t id then (t, some (-1))
      else (Function.update t id ((t id).insert handler.addr), some 0)
  | .unsubscribe id handler =>
      if handler.addr ∈ t id then (Function.update t id ((t id).erase handler.addr), some 0)
      else (t, some (-1))
  | .unsubscribeAllIDs receiver => (fun id => (t id).erase receiver, none)

end SubscriptionCall

namespace MQClass

/-- The addresses in a list, most recently subscribed first. -/
def addrs (s : MQClass) (id : Fin MSG_MAX_MSG_IDS) : List Addr :=
  (s.entries id).map Handler.addr

/-- The lists of `s` are chains and hold the addresses of the sets `t`. -/
structure Represents (s : MQClass) (t : Fin MSG_MAX_MSG_IDS → OrderedSet Addr) : Prop where
  subscriptions : Subscriptions s
  addrs_eq : ∀ id, s.addrs id = (t id).toList

variable {s s' : MQClass} {t : Fin MSG_MAX_MSG_IDS → OrderedSet Addr}
  {id : Fin MSG_MAX_MSG_IDS} {handler : Addr} {x : ℕ}

theorem represents_constructed (b : Bool) : (constructed b).Represents fun _ => .empty := by
  refine ⟨subscriptions_constructed b, fun id => ?_⟩
  have hnodes : (constructed b).nodes id = [] := nodes_eq rfl
  simp [addrs, entries, hnodes, OrderedSet.empty]

theorem Subscriptions.map_handlerAt_addr (hs : Subscriptions s) (id : Fin MSG_MAX_MSG_IDS) :
    (s.nodes id).map (fun p => (s.handlerAt p).map Handler.addr) = (s.addrs id).map some := by
  have hgen : ∀ ys : List ℕ, (∀ y ∈ ys, y ∈ s.nodes id) →
      ys.map (fun p => (s.handlerAt p).map Handler.addr) =
        ((ys.filterMap s.handlerAt).map Handler.addr).map some := by
    intro ys hys
    induction ys with
    | nil => rfl
    | cons y ys ih =>
        obtain ⟨e, he⟩ := handlerAt_of_mem hs (hys y (by simp))
        simpa [he] using ih fun z hz => hys z (List.mem_cons_of_mem y hz)
  exact hgen (s.nodes id) fun y hy => hy

theorem Represents.mem_iff (hR : s.Represents t) :
    handler ∈ t id ↔ ∃ e ∈ s.entries id, e.addr = handler := by
  change handler ∈ (t id).toList ↔ _
  rw [← hR.addrs_eq, addrs, List.mem_map]

theorem Represents.notMem (hR : s.Represents t) (h : handler ∉ t id) :
    ∀ e ∈ s.entries id, e.addr ≠ handler := by
  intro e he haddr
  exact h (hR.mem_iff.mpr ⟨e, he, haddr⟩)

theorem Represents.push {h : Handler} (hR : s.Represents t) (habsent : h.addr ∉ t id) :
    (s.push id h).Represents (Function.update t id ((t id).insert h.addr)) := by
  have hs := hR.subscriptions
  have hp := pushed_push id hs h
  refine ⟨subscriptions_push hs (hR.notMem habsent), fun j => ?_⟩
  by_cases hj : j = id
  · subst hj
    rw [Function.update_self, OrderedSet.toList_insert_of_notMem habsent, addrs,
      hp.entries_self hs, List.map_cons, ← hR.addrs_eq, addrs]
  · rw [Function.update_of_ne hj, addrs, hp.entries_other hs hj, ← hR.addrs_eq, addrs]

/-- Taking the node `x` out of a list is the same as filtering out its address. -/
theorem Removed.addrs_self {e : Handler} (hr : Removed s s' id x) (hs : Subscriptions s)
    (he : s.handlerAt x = some e) : s'.addrs id = (s.addrs id).filter (· ≠ e.addr) := by
  have hgen : ∀ ys : List ℕ, (∀ y ∈ ys, y ∈ s.nodes id) →
      ((ys.filter (· ≠ x)).filterMap s'.handlerAt).map Handler.addr =
        ((ys.filterMap s.handlerAt).map Handler.addr).filter (· ≠ e.addr) := by
    intro ys hys
    induction ys with
    | nil => rfl
    | cons y ys ih =>
        have ih := ih fun z hz => hys z (List.mem_cons_of_mem y hz)
        have hy : y ∈ s.nodes id := hys y (by simp)
        obtain ⟨f, hf⟩ := handlerAt_of_mem hs hy
        by_cases hyx : y = x
        · subst hyx
          rw [he] at hf
          cases hf
          simpa [he] using ih
        · have haddr : f.addr ≠ e.addr := fun h => hyx (handlerAt_inj hs hy hr.mem hf he h)
          have hkeep : s'.handlerAt y = some f := by rw [hr.handler_keep y hyx, hf]
          simpa [hyx, hf, hkeep, haddr] using ih
  rw [addrs, entries, hr.nodes_self]
  exact hgen (s.nodes id) fun y hy => hy

theorem Removed.addrs_other (hr : Removed s s' id x) (hs : Subscriptions s)
    {j : Fin MSG_MAX_MSG_IDS} (hj : j ≠ id) : s'.addrs j = s.addrs j := by
  rw [addrs, addrs, entries, entries, hr.nodes_other j hj]
  congr 1
  apply filterMap_handlerAt_congr
  intro y hy
  apply hr.handler_keep
  rintro rfl
  exact hs.disjoint j id hj hy hr.mem

theorem Represents.removed {e : Handler} (hR : s.Represents t) (hr : Removed s s' id x)
    (he : s.handlerAt x = some e) :
    s'.Represents (Function.update t id ((t id).erase e.addr)) := by
  have hs := hR.subscriptions
  refine ⟨hr.subscriptions, fun j => ?_⟩
  by_cases hj : j = id
  · subst hj
    rw [Function.update_self, OrderedSet.toList_erase, hr.addrs_self hs he, hR.addrs_eq]
  · rw [Function.update_of_ne hj, hr.addrs_other hs hj, hR.addrs_eq]

/-! ## One call -/

theorem Represents.subscribe (hR : s.Represents t) (h : Handler) (hne : h.addr ≠ 0) :
    ∃ s', SubscriptionCall.call s (.subscribe id h) =
        .ok (s', (SubscriptionCall.answer t (.subscribe id h)).2) ∧
      s'.Represents (SubscriptionCall.answer t (.subscribe id h)).1 := by
  have hs := hR.subscriptions
  obtain ⟨mk, hself, hmk⟩ := subscribeOf_eq (s := s) (id : ℕ) true h
  by_cases hmem : h.addr ∈ t id
  · have hcall := subscribe_of_present hs mk true (hR.mem_iff.mp hmem)
    refine ⟨s, ?_, ?_⟩
    · simp [SubscriptionCall.call, SubscriptionCall.answer, hmk, hcall, hmem]
    · simpa [SubscriptionCall.answer, hmem] using hR
  · have hcall := subscribe_of_absent hs mk hne (hR.notMem hmem)
    rw [hself] at hcall
    refine ⟨s.push id h, ?_, ?_⟩
    · simp [SubscriptionCall.call, SubscriptionCall.answer, hmk, hcall, hmem]
    · simpa [SubscriptionCall.answer, hmem] using hR.push hmem

theorem Represents.unsubscribeHandler (hR : s.Represents t) (id : Fin MSG_MAX_MSG_IDS)
    (handler : Addr) :
    ∃ s', s.unsubscribeHandler (id : ℕ) handler =
        .ok (s', if handler ∈ t id then 0 else -1) ∧
      s'.Represents (Function.update t id ((t id).erase handler)) := by
  have hs := hR.subscriptions
  by_cases hmem : handler ∈ t id
  · obtain ⟨e, he, rfl⟩ := hR.mem_iff.mp hmem
    obtain ⟨s', x, hcall, hr, hx⟩ := unsubscribe_of_present hs he rfl
    exact ⟨s', by simpa [hmem] using hcall, hR.removed hr hx⟩
  · refine ⟨s, by simpa [hmem] using unsubscribe_of_absent hs (hR.notMem hmem), ?_⟩
    rwa [OrderedSet.erase_of_notMem hmem, Function.update_eq_self]

theorem Represents.unsubscribe (hR : s.Represents t) (h : Handler) :
    ∃ s', SubscriptionCall.call s (.unsubscribe id h) =
        .ok (s', (SubscriptionCall.answer t (.unsubscribe id h)).2) ∧
      s'.Represents (SubscriptionCall.answer t (.unsubscribe id h)).1 := by
  obtain ⟨s', hcall, hR'⟩ := hR.unsubscribeHandler id h.addr
  refine ⟨s', ?_, ?_⟩
  · by_cases hmem : h.addr ∈ t id <;>
      simp [SubscriptionCall.call, SubscriptionCall.answer, unsubscribeOf_eq, hcall, hmem]
  · by_cases hmem : h.addr ∈ t id
    · simpa [SubscriptionCall.answer, hmem] using hR'
    · rw [OrderedSet.erase_of_notMem hmem, Function.update_eq_self] at hR'
      simpa [SubscriptionCall.answer, hmem] using hR'

/-- The loop of `UnsubscribeAllIDs` over some of the ids. -/
theorem Represents.foldlM_unsubscribe (hR : s.Represents t) {ids : List ℕ}
    (hids : ∀ i ∈ ids, i < MSG_MAX_MSG_IDS) (handler : Addr) :
    ∃ s', ids.foldlM (fun s (idx : ℕ) => do
        let (s, _) ← s.unsubscribeReceiver idx handler
        .ok s) s = .ok s' ∧
      s'.Represents fun id => if (id : ℕ) ∈ ids then (t id).erase handler else t id := by
  induction ids generalizing s t with
  | nil => exact ⟨s, rfl, by simpa using hR⟩
  | cons i ids ih =>
      have hi : i < MSG_MAX_MSG_IDS := hids i (by simp)
      obtain ⟨s₁, hcall, hR₁⟩ := hR.unsubscribeHandler ⟨i, hi⟩ handler
      obtain ⟨s', hrest, hR'⟩ := ih hR₁ fun j hj => hids j (List.mem_cons_of_mem i hj)
      refine ⟨s', ?_, ?_⟩
      · simpa [List.foldlM_cons, unsubscribeReceiver, hcall] using hrest
      · convert hR' using 2 with id
        by_cases hid : id = ⟨i, hi⟩
        · subst hid
          by_cases hmem : i ∈ ids <;> simp [hmem, OrderedSet.erase_erase]
        · have hne : (id : ℕ) ≠ i := fun h => hid (Fin.ext h)
          simp [hne, hid]

theorem Represents.unsubscribeAllIDs (hR : s.Represents t) (receiver : Addr) :
    ∃ s', SubscriptionCall.call s (.unsubscribeAllIDs receiver) =
        .ok (s', (SubscriptionCall.answer t (.unsubscribeAllIDs receiver)).2) ∧
      s'.Represents (SubscriptionCall.answer t (.unsubscribeAllIDs receiver)).1 := by
  have hids : ∀ i ∈ List.range MSG_MAX_MSG_IDS, i < MSG_MAX_MSG_IDS := fun i hi =>
    List.mem_range.mp hi
  obtain ⟨s', hcall, hR'⟩ := hR.foldlM_unsubscribe hids receiver
  refine ⟨s', ?_, ?_⟩
  · simp [SubscriptionCall.call, SubscriptionCall.answer, MQClass.unsubscribeAllIDs, hcall]
  · simpa [SubscriptionCall.answer] using hR'

theorem Represents.call {c : SubscriptionCall} (hR : s.Represents t) (hne : c.addr ≠ 0) :
    ∃ s', c.call s = .ok (s', (c.answer t).2) ∧ s'.Represents (c.answer t).1 := by
  cases c with
  | subscribe id h => exact hR.subscribe h hne
  | unsubscribe id h => exact hR.unsubscribe h
  | unsubscribeAllIDs receiver => exact hR.unsubscribeAllIDs receiver

end MQClass

/-- Every sequence of calls that change subscriptions, with handlers that are not null,
returns what the same calls on ordered sets of addresses return.  Afterwards the nodes of
each list form a chain, and their addresses are the elements of the set, in its order. -/
theorem subscriptionLists_refine (b : Bool) (calls : List SubscriptionCall)
    (hne : ∀ c ∈ calls, c.addr ≠ 0) :
    ∃ s t results,
      answerAll (fun t c => SubscriptionCall.answer t c) (fun _ => .empty) calls = (t, results) ∧
      callAll SubscriptionCall.call (.constructed b) calls = .ok (s, results) ∧
      ∀ id, Chain MessageHandler.pNextHandler s.handlers (s.queueBlock id) (s.nodes id) ∧
        (s.nodes id).Nodup ∧
        (s.nodes id).map (fun p => (s.handlerAt p).map Handler.addr) =
          (t id).toList.map some := by
  have hcall : ∀ s t (c : SubscriptionCall), MQClass.Represents s t → c.addr ≠ 0 →
      ∃ s', c.call s = .ok (s', (c.answer t).2) ∧ s'.Represents (c.answer t).1 :=
    fun s t c hR hne => hR.call hne
  obtain ⟨s, hcalls, hR⟩ := callAll_refines MQClass.Represents hcall
    (MQClass.represents_constructed b) hne
  refine ⟨s, _, _, rfl, hcalls, fun id => ?_⟩
  have hchain := hR.subscriptions.chain id
  refine ⟨hchain, hchain.nodup, ?_⟩
  rw [← hR.addrs_eq, hR.subscriptions.map_handlerAt_addr]

/-- Three handlers on id 0, the first of them a second time, and the middle one taken out. -/
theorem subscriptionLists_refine_threeHandlers :
    ∃ s, callAll SubscriptionCall.call (.constructed true)
        [.subscribe ⟨0, by decide⟩ (.mhFunction 0x100),
          .subscribe ⟨0, by decide⟩ (.mhClass 0x200),
          .subscribe ⟨0, by decide⟩ (.mhClass 0x300),
          .subscribe ⟨0, by decide⟩ (.mhFunction 0x100),
          .unsubscribe ⟨0, by decide⟩ (.mhClass 0x200),
          .unsubscribe ⟨1, by decide⟩ (.mhClass 0x300),
          .unsubscribeAllIDs 0x300] =
        .ok (s, [some 0, some 0, some 0, some (-1), some 0, some (-1), none]) ∧
      (s.nodes ⟨0, by decide⟩).map (fun p => (s.handlerAt p).map Handler.addr) =
        [some 0x100] := by
  obtain ⟨s, t, results, hanswers, hcalls, hlists⟩ := subscriptionLists_refine true
    [.subscribe ⟨0, by decide⟩ (.mhFunction 0x100),
      .subscribe ⟨0, by decide⟩ (.mhClass 0x200),
      .subscribe ⟨0, by decide⟩ (.mhClass 0x300),
      .subscribe ⟨0, by decide⟩ (.mhFunction 0x100),
      .unsubscribe ⟨0, by decide⟩ (.mhClass 0x200),
      .unsubscribe ⟨1, by decide⟩ (.mhClass 0x300),
      .unsubscribeAllIDs 0x300] (by decide)
  cases hanswers
  exact ⟨s, hcalls, (hlists ⟨0, by decide⟩).2.2.trans (by decide)⟩

end EmbeddedKernel.Mq
