import EmbeddedKernel.DataLog.PageStore

/-!
# A bus that refuses bytes

The EEPROMs may refuse any byte they are sent.  They move their pointer when both
bytes of an address are acknowledged, and store the data bytes that they have
acknowledged when the STOP arrives.
-/

namespace EmbeddedKernel.DataLog

open Iic Library

/-- `acks t i` says whether byte `i` of transfer `t` is acknowledged.  `pending` are the bytes
to be stored at the end of the transfer, and `stored` all bytes stored so far. -/
structure FaultyBus where
  bus : Bus
  acks : ℕ → ℕ → Bool
  transfer : ℕ
  byte : ℕ
  pending : Option (Fin 8 × List UInt8)
  stored : List (Fin 8 × UInt8)

namespace FaultyBus

/-- A byte that is acknowledged. -/
def accept (x : UInt8) (s : FaultyBus) : UInt8 × FaultyBus :=
  match s.bus.phase with
  | .writing _ =>
      (0x28, { s with
        byte := s.byte + 1
        pending := s.pending.map fun (port, bs) => (port, bs ++ [x]) })
  | .addressLow port _ =>
      ((s.bus.send x).1,
        { s with bus := (s.bus.send x).2, byte := s.byte + 1, pending := some (port, []) })
  | _ => ((s.bus.send x).1, { s with bus := (s.bus.send x).2, byte := s.byte + 1 })

/-- A byte that is not acknowledged. -/
def refuse (x : UInt8) (s : FaultyBus) : UInt8 × FaultyBus :=
  (if s.bus.phase = .started then if x &&& 0x01 = 0 then 0x20 else 0x48 else 0x30,
    { s with bus := { s.bus with phase := .unanswered }, byte := s.byte + 1 })

/-- The end of a transfer. -/
def finish (s : FaultyBus) : FaultyBus :=
  match s.pending with
  | none => { s with bus := { s.bus with phase := .idle }, transfer := s.transfer + 1 }
  | some (port, bs) =>
      { s with
        bus := s.bus.setEeprom port ((s.bus.eeprom port).storeList bs) .idle
        transfer := s.transfer + 1
        pending := none
        stored := s.stored ++ bs.map (Prod.mk port) }

def twi : Twi FaultyBus where
  start s := (0x08, { s with bus := { s.bus with phase := .started }, byte := 0, pending := none })
  send x s := if s.acks s.transfer s.byte = true then s.accept x else s.refuse x
  receive ack s :=
    ((s.bus.receive ack).1, (s.bus.receive ack).2.1, { s with bus := (s.bus.receive ack).2.2 })
  stop := finish

end FaultyBus

/-! ## Sending data -/

/-- The bytes before the first one that is refused; `n` is the number of the first byte. -/
def taken (acks : ℕ → Bool) : ℕ → List UInt8 → List UInt8
  | _, [] => []
  | n, x :: xs => if acks n = true then x :: taken acks (n + 1) xs else []

/-- The data bytes that a transfer stores: none, unless the device address and the two bytes
of the address are acknowledged. -/
def storedBytes (acks : ℕ → Bool) (bytes : List UInt8) : List UInt8 :=
  if acks 0 = true ∧ acks 1 = true ∧ acks 2 = true then taken acks 3 bytes else []

variable {acks : ℕ → Bool} {n : ℕ} {xs : List UInt8}

theorem taken_isPrefix (acks : ℕ → Bool) (n : ℕ) (xs : List UInt8) : taken acks n xs <+: xs := by
  induction xs generalizing n with
  | nil => exact List.prefix_refl []
  | cons x xs ih =>
      unfold taken
      split_ifs
      · exact List.cons_prefix_cons.mpr ⟨rfl, ih (n + 1)⟩
      · exact List.nil_prefix

theorem taken_eq_self : taken acks n xs = xs ↔ ∀ i < xs.length, acks (n + i) = true := by
  induction xs generalizing n with
  | nil => simp [taken]
  | cons x xs ih =>
      unfold taken
      split_ifs with hack
      · rw [List.cons.injEq, ih, List.length_cons]
        constructor
        · rintro ⟨-, h⟩ i hi
          cases i with
          | zero => exact hack
          | succ i =>
              have hrest := h i (by omega)
              rwa [show n + 1 + i = n + (i + 1) by omega] at hrest
        · intro h
          refine ⟨rfl, fun i hi => ?_⟩
          rw [show n + 1 + i = n + (i + 1) by omega]
          exact h (i + 1) (by omega)
      · constructor
        · intro h
          cases h
        · intro h
          exact (hack (h 0 (by simp))).elim

theorem taken_eq_nil (hxs : xs ≠ []) : taken acks n xs = [] ↔ acks n = false := by
  cases xs with
  | nil => exact (hxs rfl).elim
  | cons x xs =>
      unfold taken
      split_ifs with hack
      · simp [hack]
      · simpa using hack

theorem storedBytes_isPrefix (acks : ℕ → Bool) (xs : List UInt8) : storedBytes acks xs <+: xs := by
  unfold storedBytes
  split_ifs
  · exact taken_isPrefix acks 3 xs
  · exact List.nil_prefix

/-- Everything is stored if every byte is acknowledged. -/
theorem storedBytes_eq_self (hall : ∀ i < xs.length + 3, acks i = true) :
    storedBytes acks xs = xs := by
  unfold storedBytes
  rw [if_pos ⟨hall 0 (by omega), hall 1 (by omega), hall 2 (by omega)⟩, taken_eq_self]
  intro i hi
  exact hall (3 + i) (by omega)

theorem storedBytes_ne_self (hxs : xs ≠ []) (hnot : ¬∀ i < xs.length + 3, acks i = true) :
    storedBytes acks xs ≠ xs := by
  intro heq
  unfold storedBytes at heq
  split_ifs at heq with haddr
  · apply hnot
    intro i hi
    rcases Nat.lt_or_ge i 3 with hlt | hge
    · interval_cases i
      · exact haddr.1
      · exact haddr.2.1
      · exact haddr.2.2
    · have hack := taken_eq_self.mp heq (i - 3) (by omega)
      rwa [show 3 + (i - 3) = i by omega] at hack
  · exact hxs heq.symm

/-- Nothing is stored exactly if one of the first four bytes is refused. -/
theorem storedBytes_eq_nil (hxs : xs ≠ []) :
    storedBytes acks xs = [] ↔ ¬∀ i < 4, acks i = true := by
  unfold storedBytes
  split_ifs with haddr
  · rw [taken_eq_nil hxs]
    constructor
    · intro hack hall
      rw [hall 3 (by decide)] at hack
      cases hack
    · intro hnot
      by_contra hack
      apply hnot
      intro i hi
      interval_cases i
      · exact haddr.1
      · exact haddr.2.1
      · exact haddr.2.2
      · simpa using hack
  · refine iff_of_true rfl fun hall => haddr ?_
    exact ⟨hall 0 (by decide), hall 1 (by decide), hall 2 (by decide)⟩

namespace FaultyBus

variable {s : FaultyBus} {port : Fin 8}

theorem send_of_ack (x : UInt8) (h : s.acks s.transfer s.byte = true) :
    twi.send x s = s.accept x := if_pos h

theorem send_of_refuse (x : UInt8) (h : ¬s.acks s.transfer s.byte = true) :
    twi.send x s = s.refuse x := if_neg h

/-- Data bytes are collected up to the first one that is refused. -/
theorem sendList_writing {done : List UInt8} (xs : List UInt8) (hp : s.bus.phase = .writing port)
    (hpending : s.pending = some (port, done)) :
    ∃ phase byte, sendList twi xs s =
      ({ s with
        bus := { s.bus with phase := phase }
        byte := byte
        pending := some (port, done ++ taken (s.acks s.transfer) s.byte xs) },
        if taken (s.acks s.transfer) s.byte xs = xs then 0 else -2) := by
  induction xs generalizing s done with
  | nil => exact ⟨s.bus.phase, s.byte, by simp [sendList, taken, ← hpending]⟩
  | cons x xs ih =>
      have hack : ¬((0x28 : UInt8) &&& 0xf8 ≠ 0x28) := by decide
      have hnack : (0x30 : UInt8) &&& 0xf8 ≠ 0x28 := by decide
      by_cases hbyte : s.acks s.transfer s.byte = true
      · have hsend : twi.send x s = (0x28, { s with
            byte := s.byte + 1
            pending := some (port, done ++ [x]) }) := by
          rw [send_of_ack x hbyte]
          simp [accept, hp, hpending]
        obtain ⟨phase, byte, hrest⟩ := ih (s := { s with
            byte := s.byte + 1
            pending := some (port, done ++ [x]) }) hp rfl
        refine ⟨phase, byte, ?_⟩
        simp only [sendList, hsend, hack, if_false, hrest, taken, hbyte, if_true,
          List.append_assoc, List.singleton_append, List.cons.injEq, true_and]
      · have hsend : twi.send x s = (0x30, { s with
            bus := { s.bus with phase := .unanswered }
            byte := s.byte + 1 }) := by
          rw [send_of_refuse x hbyte]
          simp [refuse, hp]
        refine ⟨.unanswered, s.byte + 1, ?_⟩
        simp [sendList, hsend, hnack, taken, hbyte, ← hpending]

/-! ## Transfers -/

/-- A write of `xs` behind an address: the bytes before the first refusal are stored. -/
structure Wrote (s s' : FaultyBus) (port : Fin 8) (addr : ℕ) (xs : List UInt8) (rc : ℤ) :
    Prop where
  acks : s'.acks = s.acks
  transfer : s'.transfer = s.transfer + 1
  stored : s'.stored = s.stored ++ (storedBytes (s.acks s.transfer) xs).map (Prod.mk port)
  self : ∀ a, s'.bus.memory port a =
    if addr ≤ a ∧ a < addr + (storedBytes (s.acks s.transfer) xs).length then xs.getD (a - addr) 0
    else s.bus.memory port a
  other : ∀ q, q ≠ port → s'.bus.memory q = s.bus.memory q
  success : rc = 0 ↔ ∀ i < xs.length + 3, s.acks s.transfer i = true
  pointer : rc = 0 → xs = [] → (s'.bus.eeprom port).pointer = addr

/-- A write without data changes no memory. -/
theorem Wrote.memory_eq {s' : FaultyBus} {addr : ℕ} {rc : ℤ} (h : Wrote s s' port addr [] rc)
    (q : Fin 8) : s'.bus.memory q = s.bus.memory q := by
  rcases eq_or_ne q port with rfl | hq
  · funext a
    have hnil : (storedBytes (s.acks s.transfer) []).length = 0 := by simp [storedBytes, taken]
    rw [h.self, if_neg (by omega)]
  · exact h.other q hq

/-- A write that is refused before its data. -/
theorem wrote_of_refused {s' : FaultyBus} {addr : ℕ} (hacks : s'.acks = s.acks)
    (htransfer : s'.transfer = s.transfer + 1) (hstored : s'.stored = s.stored)
    (heeprom : s'.bus.eeprom = s.bus.eeprom)
    (hrefused : ¬(s.acks s.transfer 0 = true ∧ s.acks s.transfer 1 = true ∧
      s.acks s.transfer 2 = true)) : Wrote s s' port addr xs (-2) := by
  have hnil : storedBytes (s.acks s.transfer) xs = [] := if_neg hrefused
  refine ⟨hacks, htransfer, by simp [hstored, hnil], fun a => ?_, fun q _ => ?_, ?_, by omega⟩
  · rw [hnil, if_neg (by simp), Bus.memory, heeprom]
    rfl
  · rw [Bus.memory, heeprom]
    rfl
  · refine iff_of_false (by decide) fun hall => hrefused ?_
    exact ⟨hall 0 (by omega), hall 1 (by omega), hall 2 (by omega)⟩

/-- A write whose address is acknowledged. -/
theorem wrote_of_addressed {high low : UInt8} {phase : Phase} {byte : ℕ}
    (hzero : s.acks s.transfer 0 = true) (hone : s.acks s.transfer 1 = true)
    (htwo : s.acks s.transfer 2 = true)
    (hfit : (high.toNat * 256 + low.toNat) % 128 + xs.length ≤ 128) :
    Wrote s (finish { s with
        bus := { s.bus.setEeprom port ((s.bus.eeprom port).setPointer high low) (.writing port) with
          phase := phase }
        byte := byte
        pending := some (port, taken (s.acks s.transfer) 3 xs) }) port
      (high.toNat * 256 + low.toNat) xs
      (if taken (s.acks s.transfer) 3 xs = xs then 0 else -2) := by
  have hstored : storedBytes (s.acks s.transfer) xs = taken (s.acks s.transfer) 3 xs :=
    if_pos ⟨hzero, hone, htwo⟩
  have htaken := taken_isPrefix (s.acks s.transfer) 3 xs
  have hroom : ((s.bus.eeprom port).setPointer high low).pointer % 128 +
      (taken (s.acks s.transfer) 3 xs).length ≤ 128 := by
    have hle := htaken.length_le
    simp only [Eeprom.setPointer]
    omega
  have hmemory : ∀ a, (((s.bus.eeprom port).setPointer high low).storeList
      (taken (s.acks s.transfer) 3 xs)).memory a =
        if high.toNat * 256 + low.toNat ≤ a ∧
          a < high.toNat * 256 + low.toNat + (taken (s.acks s.transfer) 3 xs).length
        then (taken (s.acks s.transfer) 3 xs).getD (a - (high.toNat * 256 + low.toNat)) 0
        else (s.bus.eeprom port).memory a :=
    Eeprom.memory_storeList hroom
  refine ⟨rfl, rfl, by rw [hstored]; rfl, fun a => ?_, fun q hq => ?_, ?_, fun _ hnil => ?_⟩
  · simp only [finish, Bus.memory, Bus.setEeprom, Function.update_self, hstored]
    rw [hmemory]
    split_ifs with ha
    · obtain ⟨rest, hrest⟩ := htaken
      have hlt : a - (high.toNat * 256 + low.toNat) < (taken (s.acks s.transfer) 3 xs).length := by
        omega
      nth_rewrite 2 [← hrest]
      rw [List.getD_append _ _ _ _ hlt]
    · rfl
  · simp only [finish, Bus.memory, Bus.setEeprom, Function.update_of_ne hq]
  · by_cases hall : ∀ i < xs.length + 3, s.acks s.transfer i = true
    · rw [← hstored, storedBytes_eq_self hall, if_pos rfl]
      exact iff_of_true rfl hall
    · have hne : xs ≠ [] := by
        rintro rfl
        apply hall
        intro i hi
        have hthree : i < 3 := by simpa using hi
        interval_cases i
        · exact hzero
        · exact hone
        · exact htwo
      rw [← hstored, if_neg (storedBytes_ne_self hne hall)]
      exact iff_of_false (by decide) hall
  · subst hnil
    simp only [finish, taken, Eeprom.storeList, List.foldl_nil, Bus.setEeprom,
      Function.update_self, Eeprom.setPointer]

/-- The state after a START. -/
def started (s : FaultyBus) : FaultyBus :=
  { s with bus := { s.bus with phase := .started }, byte := 0, pending := none }

/-- The state in which the device has been addressed for writing. -/
def addressed (s : FaultyBus) (port : Fin 8) : FaultyBus :=
  { s with bus := { s.bus with phase := .addressHigh port }, byte := 1, pending := none }

/-- The device address is acknowledged, or the transfer ends. -/
theorem iicWrite_cases (port : Fin 8) (s : FaultyBus) (dbytes : ℕ → UInt8) (len : UInt16) :
    (s.acks s.transfer 0 = true ∧ iicWrite twi (Bus.address port) dbytes len s =
      ((sendList twi ((List.range len.toNat).map dbytes) (s.addressed port)).1.finish,
        (sendList twi ((List.range len.toNat).map dbytes) (s.addressed port)).2)) ∨
    ¬s.acks s.transfer 0 = true ∧ iicWrite twi (Bus.address port) dbytes len s =
      ({ s with
        bus := { s.bus with phase := .idle }
        byte := 1
        pending := none
        transfer := s.transfer + 1 }, -2) := by
  have hstart : ¬(0x08 : UInt8) &&& 0x08 = 0 := by decide
  have haddr : (0x18 : UInt8) &&& 0xf8 = 0x18 := by decide
  have hnaddr : ¬(0x20 : UInt8) &&& 0xf8 = 0x18 := by decide
  have hwrite : ∀ port : Fin 8, (Bus.address port &&& 0xfe) &&& 0x01 = 0 := by decide
  have hstarted : twi.start s = (0x08, s.started) := rfl
  rw [Iic.iicWrite_eq]
  by_cases hack : s.acks s.transfer 0 = true
  · left
    refine ⟨hack, ?_⟩
    have hsend : twi.send (Bus.address port &&& 0xfe) s.started = (0x18, s.addressed port) := by
      rw [send_of_ack _ hack]
      simp only [accept, started, Bus.send, Bus.select_write]
      rfl
    simp only [hstarted, hstart, ne_eq, not_false_eq_true, if_true, hsend, haddr]
    rfl
  · right
    refine ⟨hack, ?_⟩
    have hsend : twi.send (Bus.address port &&& 0xfe) s.started = (0x20, { s.started with
        bus := { s.bus with phase := .unanswered }, byte := 1 }) := by
      rw [send_of_refuse _ hack]
      simp only [refuse, started, hwrite, if_true]
    simp only [hstarted, hstart, ne_eq, not_false_eq_true, if_true, hsend, hnaddr, if_false]
    rfl

/-- The two bytes of the address are acknowledged, or the transfer ends. -/
theorem sendList_addressed (s : FaultyBus) (port : Fin 8) (high low : UInt8) (xs : List UInt8) :
    (s.acks s.transfer 1 = true ∧ s.acks s.transfer 2 = true ∧
      sendList twi (high :: low :: xs) (s.addressed port) = sendList twi xs { s with
        bus := s.bus.setEeprom port ((s.bus.eeprom port).setPointer high low) (.writing port)
        byte := 3
        pending := some (port, []) }) ∨
    ¬(s.acks s.transfer 1 = true ∧ s.acks s.transfer 2 = true) ∧
      ∃ byte, sendList twi (high :: low :: xs) (s.addressed port) = ({ s with
        bus := { s.bus with phase := .unanswered }
        byte := byte
        pending := none }, -2) := by
  have hack : ¬((0x28 : UInt8) &&& 0xf8 ≠ 0x28) := by decide
  have hnack : (0x30 : UInt8) &&& 0xf8 ≠ 0x28 := by decide
  by_cases hhigh : s.acks s.transfer 1 = true
  · have hfirst : twi.send high (s.addressed port) = (0x28, { s with
        bus := { s.bus with phase := .addressLow port high }, byte := 2, pending := none }) :=
      send_of_ack high hhigh
    by_cases hlow : s.acks s.transfer 2 = true
    · left
      refine ⟨hhigh, hlow, ?_⟩
      have hsecond : twi.send low { s with
          bus := { s.bus with phase := .addressLow port high }, byte := 2, pending := none } =
          (0x28, { s with
            bus := s.bus.setEeprom port ((s.bus.eeprom port).setPointer high low) (.writing port)
            byte := 3
            pending := some (port, []) }) := send_of_ack low hlow
      simp only [sendList, hfirst, hsecond, hack, if_false]
    · right
      refine ⟨fun h => hlow h.2, 3, ?_⟩
      have hsecond : twi.send low { s with
          bus := { s.bus with phase := .addressLow port high }, byte := 2, pending := none } =
          (0x30, { s with
            bus := { s.bus with phase := .unanswered }, byte := 3, pending := none }) :=
        send_of_refuse low hlow
      simp only [sendList, hfirst, hsecond, hack, if_false]
      exact if_pos hnack
  · right
    refine ⟨fun h => hhigh h.1, 2, ?_⟩
    have hfirst : twi.send high (s.addressed port) = (0x30, { s with
        bus := { s.bus with phase := .unanswered }, byte := 2, pending := none }) :=
      send_of_refuse high hhigh
    simp only [sendList, hfirst]
    exact if_pos hnack

theorem iicWrite_wrote (port : Fin 8) (s : FaultyBus) (high low : UInt8) (data : ℕ → UInt8)
    {len : UInt16} (hlen : len.toNat = n + 2)
    (hfit : (high.toNat * 256 + low.toNat) % 128 + n ≤ 128) :
    ∃ s' rc, iicWrite twi (device port).iicAddrE2 (withAddress high low data) len s = (s', rc) ∧
      Wrote s s' port (high.toNat * 256 + low.toNat) ((List.range n).map data) rc := by
  have hdevice : (device port).iicAddrE2 = Bus.address port := rfl
  rw [hdevice]
  rcases iicWrite_cases port s (withAddress high low data) len with
    ⟨hzero, hwrite⟩ | ⟨hzero, hwrite⟩
  · rw [hlen, map_withAddress] at hwrite
    rcases sendList_addressed s port high low ((List.range n).map data) with
      ⟨hone, htwo, hlist⟩ | ⟨hnot, byte, hlist⟩
    · obtain ⟨phase, byte, hdata⟩ := sendList_writing (s := { s with
        bus := s.bus.setEeprom port ((s.bus.eeprom port).setPointer high low) (.writing port)
        byte := 3
        pending := some (port, []) }) ((List.range n).map data) rfl rfl
      rw [hlist, hdata, List.nil_append] at hwrite
      refine ⟨_, _, hwrite, wrote_of_addressed hzero hone htwo ?_⟩
      rwa [List.length_map, List.length_range]
    · rw [hlist] at hwrite
      refine ⟨_, _, hwrite, wrote_of_refused rfl rfl rfl rfl fun h => hnot h.2⟩
  · refine ⟨_, _, hwrite, wrote_of_refused rfl rfl rfl rfl fun h => hzero h.1⟩

/-- A write whose address is refused leaves the EEPROMs alone. -/
theorem eeprom_iicWrite_of_refused (port : Fin 8) (s : FaultyBus) (high low : UInt8)
    (data : ℕ → UInt8) {len : UInt16} (hlen : len.toNat = n + 2)
    (hrefused : ¬∀ i < 3, s.acks s.transfer i = true) :
    (iicWrite twi (device port).iicAddrE2 (withAddress high low data) len s).1.bus.eeprom =
      s.bus.eeprom := by
  have hdevice : (device port).iicAddrE2 = Bus.address port := rfl
  rw [hdevice]
  rcases iicWrite_cases port s (withAddress high low data) len with
    ⟨hzero, hwrite⟩ | ⟨-, hwrite⟩
  · rw [hlen, map_withAddress] at hwrite
    rcases sendList_addressed s port high low ((List.range n).map data) with
      ⟨hone, htwo, -⟩ | ⟨-, byte, hlist⟩
    · exfalso
      apply hrefused
      intro i hi
      interval_cases i
      · exact hzero
      · exact hone
      · exact htwo
    · rw [hwrite, hlist]
      rfl
  · rw [hwrite]

/-- Receptions do not depend on acknowledgements of the device. -/
theorem receiveList_eq (k i : ℕ) (dbytes : ℕ → UInt8) (s : FaultyBus) :
    receiveList twi k i dbytes s =
      ({ s with bus := (receiveList Bus.twi k i dbytes s.bus).1 },
        (receiveList Bus.twi k i dbytes s.bus).2) := by
  induction k generalizing i dbytes s with
  | zero => rfl
  | succ k ih =>
      have hreceive : twi.receive (k ≠ 0) s = ((Bus.twi.receive (k ≠ 0) s.bus).1,
          (Bus.twi.receive (k ≠ 0) s.bus).2.1,
          { s with bus := (Bus.twi.receive (k ≠ 0) s.bus).2.2 }) := rfl
      simp only [receiveList, hreceive]
      split_ifs
      · rw [ih]
      · rfl

theorem iicRead_spec (port : Fin 8) (s : FaultyBus) (junk : ℕ → UInt8) (len : UInt16) :
    ∃ s' buffer rc, iicRead twi (device port).iicAddrE2 junk len s = (s', buffer, rc) ∧
      s'.acks = s.acks ∧ s'.transfer = s.transfer + 1 ∧ s'.stored = s.stored ∧
      (∀ q, s'.bus.memory q = s.bus.memory q) ∧
      (s.acks s.transfer 0 = true → rc = 0 ∧
        ((s.bus.eeprom port).pointer < 65536 → ∀ j < len.toNat,
          buffer j = s.bus.memory port (((s.bus.eeprom port).pointer + j) % 65536))) ∧
      (¬s.acks s.transfer 0 = true → rc = -2 ∧ buffer = junk) := by
  have hstart : ¬(0x08 : UInt8) &&& 0x08 = 0 := by decide
  have haddr : (0x40 : UInt8) &&& 0xf8 = 0x40 := by decide
  have hnaddr : ¬(0x48 : UInt8) &&& 0xf8 = 0x40 := by decide
  have hread : ∀ port : Fin 8, ¬(Bus.address port ||| 0x01) &&& 0x01 = 0 := by decide
  have hstarted : twi.start s = (0x08, s.started) := rfl
  have hdevice : (device port).iicAddrE2 = Bus.address port := rfl
  rw [hdevice, Iic.iicRead_eq]
  by_cases hack : s.acks s.transfer 0 = true
  · have hsend : twi.send (Bus.address port ||| 0x01) s.started = (0x40, { s.started with
        bus := { s.bus with phase := .reading port }, byte := 1 }) := by
      rw [send_of_ack _ hack]
      simp only [accept, started, Bus.send, Bus.select_read]
    simp only [hstarted, hstart, ne_eq, not_false_eq_true, if_true, hsend, haddr, receiveList_eq]
    refine ⟨_, _, _, rfl, rfl, rfl, rfl, fun q => ?_, fun _ => ?_,
      fun hnot => (hnot hack).elim⟩
    · exact Bus.memory_receiveList len.toNat 0 junk { s.bus with phase := .reading port } q
    · obtain ⟨pointer, buffer, hlist, hbuffer, -⟩ :=
        Bus.receiveList_reading (b := { s.bus with phase := .reading port }) len.toNat 0 junk rfl
      rw [hlist]
      refine ⟨rfl, fun hpointer j hj => ?_⟩
      have hbyte := hbuffer hpointer j hj
      rwa [Nat.zero_add] at hbyte
  · have hsend : twi.send (Bus.address port ||| 0x01) s.started = (0x48, { s.started with
        bus := { s.bus with phase := .unanswered }, byte := 1 }) := by
      rw [send_of_refuse _ hack]
      simp only [refuse, started, hread, if_true, if_false]
    simp only [hstarted, hstart, ne_eq, not_false_eq_true, if_true, hsend, hnaddr, if_false]
    exact ⟨_, _, _, rfl, rfl, rfl, rfl, fun _ => rfl, fun h => (hack h).elim, fun _ => ⟨rfl, rfl⟩⟩

end FaultyBus

end EmbeddedKernel.DataLog
