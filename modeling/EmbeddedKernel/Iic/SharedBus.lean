import EmbeddedKernel.Iic.Driver
import EmbeddedKernel.Library.Independence

/-!
# Devices on one bus

The devices of a bus see every START, every byte and every STOP, and the device whose
address follows a START answers.  A transfer to one of two devices then does to it what it
does on a bus of its own, and the other device is as it was.
-/

namespace EmbeddedKernel.Iic

open Library

variable {σ τ ρ : Type*} {a : Twi σ} {b : Twi τ}

/-- The statuses with which the driver goes on after the START. -/
def answered (twsr : UInt8) : Prop :=
  twsr &&& 0xf8 = 0x18 ∨ twsr &&& 0xf8 = 0x28 ∨ twsr &&& 0xf8 = 0x40 ∨ twsr &&& 0xf8 = 0x50 ∨
    twsr &&& 0xf8 = 0x58

instance (twsr : UInt8) : Decidable (answered twsr) := by
  unfold answered
  infer_instance

/-- The status on a bus where each device would give one of its own. -/
def joined (p q : UInt8) : UInt8 := if answered p then p else q

/-- The statuses agree in every test that the driver makes after the START. -/
def SameTests (p q : UInt8) : Prop :=
  ∀ v ∈ [0x18, 0x28, 0x40, 0x50, 0x58], p &&& 0xf8 = v ↔ q &&& 0xf8 = v

theorem joined_of_silent_right {p q : UInt8} (hq : ¬answered q) : SameTests (joined p q) p := by
  intro v hv
  unfold joined
  split_ifs with hp
  · exact Iff.rfl
  · simp only [answered, not_or] at hp hq
    simp only [List.mem_cons, List.not_mem_nil, or_false] at hv
    rcases hv with rfl | rfl | rfl | rfl | rfl
    · exact iff_of_false hq.1 hp.1
    · exact iff_of_false hq.2.1 hp.2.1
    · exact iff_of_false hq.2.2.1 hp.2.2.1
    · exact iff_of_false hq.2.2.2.1 hp.2.2.2.1
    · exact iff_of_false hq.2.2.2.2 hp.2.2.2.2

theorem joined_of_silent_left {p q : UInt8} (hp : ¬answered p) : SameTests (joined p q) q := by
  intro v _
  rw [joined, if_neg hp]

/-! ## Transfers in a larger system -/

/-- A unit within a larger one.  Between transfers the larger one is in the states `rest s`; an
address brings it to the states `mid s`, in which it does what the unit does. -/
structure Within (ab : Twi ρ) (a : Twi σ) (address : UInt8) (rest mid : σ → ρ) : Prop where
  start : ∀ s, (ab.start (rest s)).1 = (a.start s).1
  address_status : ∀ s, (a.start s).1 &&& 0x08 ≠ 0 →
    SameTests (ab.send address (ab.start (rest s)).2).1 (a.send address (a.start s).2).1
  address_state : ∀ s, (a.start s).1 &&& 0x08 ≠ 0 →
    (ab.send address (ab.start (rest s)).2).2 = mid (a.send address (a.start s).2).2
  send_status : ∀ s byte, SameTests (ab.send byte (mid s)).1 (a.send byte s).1
  send_state : ∀ s byte, (ab.send byte (mid s)).2 = mid (a.send byte s).2
  receive_status : ∀ s ack, SameTests (ab.receive ack (mid s)).1 (a.receive ack s).1
  receive_data : ∀ s ack, (ab.receive ack (mid s)).2.1 = (a.receive ack s).2.1
  receive_state : ∀ s ack, (ab.receive ack (mid s)).2.2 = mid (a.receive ack s).2.2
  stop : ∀ s, ab.stop (mid s) = rest (a.stop s)

namespace Within

variable {ab : Twi ρ} {address addr : UInt8} {rest mid : σ → ρ}

theorem sendList (h : Within ab a address rest mid) (bytes : List UInt8) (s : σ) :
    sendList ab bytes (mid s) = (mid (sendList a bytes s).1, (sendList a bytes s).2) := by
  induction bytes generalizing s with
  | nil => rfl
  | cons byte bytes ih =>
      have htest := h.send_status s byte 0x28 (by decide)
      simp only [Iic.sendList, h.send_state, ne_eq, htest]
      split_ifs
      · exact ih _
      · rfl

theorem receiveList (h : Within ab a address rest mid) (n i : ℕ) (dbytes : ℕ → UInt8) (s : σ) :
    receiveList ab n i dbytes (mid s) =
      (mid (receiveList a n i dbytes s).1, (receiveList a n i dbytes s).2) := by
  induction n generalizing i dbytes s with
  | zero => rfl
  | succ n ih =>
      have hack := h.receive_status s (n ≠ 0) 0x50 (by decide)
      have hnack := h.receive_status s (n ≠ 0) 0x58 (by decide)
      simp only [Iic.receiveList, h.receive_state, h.receive_data, hack, hnack]
      split_ifs
      · exact ih _ _ _
      · rfl

theorem iicWrite (h : Within ab a (addr &&& 0xfe) rest mid) (dbytes : ℕ → UInt8) (n : UInt16)
    (s : σ) (hstart : (a.start s).1 &&& 0x08 ≠ 0) :
    iicWrite ab addr dbytes n (rest s) =
      (rest (iicWrite a addr dbytes n s).1, (iicWrite a addr dbytes n s).2) := by
  have htest := h.address_status s hstart 0x18 (by decide)
  simp only [iicWrite_eq, h.start, if_pos hstart, h.address_state s hstart, htest]
  split_ifs
  · simp only [h.sendList, h.stop]
  · simp only [h.stop]

theorem iicRead (h : Within ab a (addr ||| 0x01) rest mid) (dbytes : ℕ → UInt8) (n : UInt16)
    (s : σ) (hstart : (a.start s).1 &&& 0x08 ≠ 0) :
    iicRead ab addr dbytes n (rest s) =
      (rest (iicRead a addr dbytes n s).1, (iicRead a addr dbytes n s).2) := by
  have htest := h.address_status s hstart 0x40 (by decide)
  simp only [iicRead_eq, h.start, if_pos hstart, h.address_state s hstart, htest]
  split_ifs
  · simp only [h.receiveList, h.stop]
  · simp only [h.stop]

end Within

/-! ## Two devices -/

/-- Two units as one: a byte on the bus is the conjunction of what the devices drive. -/
def shared (a : Twi σ) (b : Twi τ) : Twi (σ × τ) where
  start x := ((a.start x.1).1, (a.start x.1).2, (b.start x.2).2)
  send byte x :=
    (joined (a.send byte x.1).1 (b.send byte x.2).1, (a.send byte x.1).2, (b.send byte x.2).2)
  receive ack x :=
    (joined (a.receive ack x.1).1 (b.receive ack x.2).1,
      (a.receive ack x.1).2.1 &&& (b.receive ack x.2).2.1,
      (a.receive ack x.1).2.2, (b.receive ack x.2).2.2)
  stop x := (a.stop x.1, b.stop x.2)

/-- A device on a bus with others: between a START with an address that is not one of its own
and the STOP it is `deaf`, drives nothing and does not change. -/
structure Slave (b : Twi τ) (own : UInt8 → Prop) (deaf : τ → Prop) : Prop where
  start : ∀ s, (b.start s).1 = 0x08
  foreign : ∀ s byte, ¬own byte →
    ¬answered (b.send byte (b.start s).2).1 ∧ deaf (b.send byte (b.start s).2).2 ∧
      b.stop (b.send byte (b.start s).2).2 = b.stop s
  send : ∀ s byte, deaf s → ¬answered (b.send byte s).1 ∧ (b.send byte s).2 = s
  receive : ∀ s ack, deaf s →
    ¬answered (b.receive ack s).1 ∧ (b.receive ack s).2.1 = 0xff ∧ (b.receive ack s).2.2 = s
  stop : ∀ s, b.stop (b.stop s) = b.stop s

namespace Slave

variable {own : UInt8 → Prop} {deaf : τ → Prop}

theorem start_test (hb : Slave b own deaf) (t : τ) : (b.start t).1 &&& 0x08 ≠ 0 := by
  rw [hb.start]
  decide

/-- Every transfer ends with a STOP. -/
theorem stop_iicWrite (hb : Slave b own deaf) (addr : UInt8) (dbytes : ℕ → UInt8) (n : UInt16)
    (t : τ) : b.stop (iicWrite b addr dbytes n t).1 = (iicWrite b addr dbytes n t).1 := by
  simp only [iicWrite_eq, if_pos (hb.start_test t), hb.stop]

theorem stop_iicRead (hb : Slave b own deaf) (addr : UInt8) (dbytes : ℕ → UInt8) (n : UInt16)
    (t : τ) : b.stop (iicRead b addr dbytes n t).1 = (iicRead b addr dbytes n t).1 := by
  simp only [iicRead_eq, if_pos (hb.start_test t), hb.stop]

end Slave

section

variable {own : UInt8 → Prop} {deaf : τ → Prop} {own' : UInt8 → Prop} {deaf' : σ → Prop}
  {address : UInt8}

theorem within_shared_left (hb : Slave b own deaf) {t : τ} (ht : b.stop t = t)
    (haddress : ¬own address) :
    Within (shared a b) a address (fun s => (s, t))
      fun s => (s, (b.send address (b.start t).2).2) := by
  obtain ⟨hsilent, hdeaf, hstop⟩ := hb.foreign t address haddress
  constructor
  · exact fun _ => rfl
  · exact fun _ _ => joined_of_silent_right hsilent
  · exact fun _ _ => rfl
  · exact fun _ byte => joined_of_silent_right (hb.send _ byte hdeaf).1
  · intro s byte
    simp only [shared, (hb.send _ byte hdeaf).2]
  · exact fun _ ack => joined_of_silent_right (hb.receive _ ack hdeaf).1
  · intro s ack
    simp only [shared, (hb.receive _ ack hdeaf).2.1]
    exact UInt8.and_neg_one
  · intro s ack
    simp only [shared, (hb.receive _ ack hdeaf).2.2]
  · intro s
    simp only [shared, hstop, ht]

theorem within_shared_right (ha : Slave a own' deaf') (hb : Slave b own deaf) {s : σ}
    (hs : a.stop s = s) (haddress : ¬own' address) :
    Within (shared a b) b address (fun t => (s, t))
      fun t => ((a.send address (a.start s).2).2, t) := by
  obtain ⟨hsilent, hdeaf, hstop⟩ := ha.foreign s address haddress
  constructor
  · intro t
    simp only [shared, ha.start, hb.start]
  · exact fun _ _ => joined_of_silent_left hsilent
  · exact fun _ _ => rfl
  · exact fun _ byte => joined_of_silent_left (ha.send _ byte hdeaf).1
  · intro t byte
    simp only [shared, (ha.send _ byte hdeaf).2]
  · exact fun _ ack => joined_of_silent_left (ha.receive _ ack hdeaf).1
  · intro t ack
    simp only [shared, (ha.receive _ ack hdeaf).2.1]
    exact UInt8.neg_one_and
  · intro t ack
    simp only [shared, (ha.receive _ ack hdeaf).2.2]
  · intro t
    simp only [shared, hstop, hs]

/-! ## Programs that transfer -/

/-- Transfers to the address have the same results on both units and keep their states
related. -/
structure SameTransfers (twi : Twi ρ) (twi' : Twi σ) (addr : UInt8) (R : ρ → σ → Prop) :
    Prop where
  write : ∀ {x s} (dbytes : ℕ → UInt8) (n : UInt16), R x s →
    (iicWrite twi addr dbytes n x).2 = (iicWrite twi' addr dbytes n s).2 ∧
      R (iicWrite twi addr dbytes n x).1 (iicWrite twi' addr dbytes n s).1
  read : ∀ {x s} (dbytes : ℕ → UInt8) (n : UInt16), R x s →
    (iicRead twi addr dbytes n x).2 = (iicRead twi' addr dbytes n s).2 ∧
      R (iicRead twi addr dbytes n x).1 (iicRead twi' addr dbytes n s).1

/-- The address is not one of those that a device answers to, in either direction. -/
def Foreign (own : UInt8 → Prop) (addr : UInt8) : Prop :=
  ¬own (addr &&& 0xfe) ∧ ¬own (addr ||| 0x01)

variable {addr : UInt8}

theorem sameTransfers_left (ha : Slave a own' deaf') (hb : Slave b own deaf) {t : τ}
    (ht : b.stop t = t) (haddr : Foreign own addr) :
    SameTransfers (shared a b) a addr fun x s => x = (s, t) ∧ a.stop s = s := by
  constructor
  · rintro x s dbytes n ⟨rfl, -⟩
    rw [(within_shared_left hb ht haddr.1).iicWrite dbytes n s (ha.start_test s)]
    exact ⟨rfl, rfl, ha.stop_iicWrite addr dbytes n s⟩
  · rintro x s dbytes n ⟨rfl, -⟩
    rw [(within_shared_left hb ht haddr.2).iicRead dbytes n s (ha.start_test s)]
    exact ⟨rfl, rfl, ha.stop_iicRead addr dbytes n s⟩

theorem sameTransfers_right (ha : Slave a own' deaf') (hb : Slave b own deaf) {s : σ}
    (hs : a.stop s = s) (haddr : Foreign own' addr) :
    SameTransfers (shared a b) b addr fun x t => x = (s, t) ∧ b.stop t = t := by
  constructor
  · rintro x t dbytes n ⟨rfl, -⟩
    rw [(within_shared_right ha hb hs haddr.1).iicWrite dbytes n t (hb.start_test t)]
    exact ⟨rfl, rfl, hb.stop_iicWrite addr dbytes n t⟩
  · rintro x t dbytes n ⟨rfl, -⟩
    rw [(within_shared_right ha hb hs haddr.2).iicRead dbytes n t (hb.start_test t)]
    exact ⟨rfl, rfl, hb.stop_iicRead addr dbytes n t⟩

end

end EmbeddedKernel.Iic
