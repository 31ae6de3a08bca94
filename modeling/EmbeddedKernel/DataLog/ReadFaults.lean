import EmbeddedKernel.DataLog.FaultyBus

/-!
# Reading on a bus that refuses bytes

`ReadPage` makes two transfers: the first sets the pointer of the EEPROM, the second
reads 32 bytes from the pointer on.  Only the result of the second is looked at, so
the bytes come from the page if the first was acknowledged, and from wherever the
pointer was before if it was not.
-/

namespace EmbeddedKernel.DataLog

open Iic Library

variable {σ : Type*} {port : Fin 8} {p : ℕ} {dl : ℤ}

/-- The two transfers of `ReadPage`, with the contents of `rd.data` after them. -/
def pageData (twi : Twi σ) (d : LogData) (f : Frame) (pg : ℤ) (bus : σ) : σ × (ℕ → UInt8) × ℤ :=
  let (bus, _) := iicWrite twi d.iicAddrE2 (withAddress (pageHigh pg) (pageLow pg) f.junk) 2 bus
  iicRead twi d.iicAddrE2 f.junk 32 bus

/-- `ReadPage` prints `rd.data` and returns the result of the second transfer. -/
theorem readPage_eq (twi : Twi σ) (d : LogData) (f : Frame) (pg dl : ℤ) (w : World σ) :
    readPage twi d f pg dl w =
      let (w, bad) := ok pg dl w
      if bad = true then (w, 1)
      else
        let (bus, data, rc) := pageData twi d f pg w.bus
        (World.print { w with bus := bus } (printed ((List.range 32).map data) f.beyond), rc) :=
  rfl

theorem readPage_of_accepted {page : ℤ} (twi : Twi σ) (d : LogData) (f : Frame) (w : World σ)
    (hpage : page < 2044 ∨ dl = DEVLOCK) :
    readPage twi d f page dl w =
      (⟨(pageData twi d f page w.bus).1, w.serial ++ okText dl ++
        printed ((List.range 32).map (pageData twi d f page w.bus).2.1) f.beyond⟩,
        (pageData twi d f page w.bus).2.2) := by
  rw [readPage_eq, ok_of_accepted w hpage]
  rfl

theorem readPage_accepted (twi : Twi σ) (d : LogData) (f : Frame) (w : World σ)
    (hdl : p ≤ 2043 ∨ dl = DEVLOCK) :
    readPage twi d f p dl w =
      (⟨(pageData twi d f p w.bus).1, w.serial ++ okText dl ++
        printed ((List.range 32).map (pageData twi d f p w.bus).2.1) f.beyond⟩,
        (pageData twi d f p w.bus).2.2) :=
  readPage_of_accepted twi d f w (hdl.imp_left fun hp => by omega)

/-- The address from which the second transfer reads. -/
def readAddress (s : FaultyBus) (port : Fin 8) (p : ℕ) : ℕ :=
  if ∀ i < 3, s.acks s.transfer i = true then 32 * p else (s.bus.eeprom port).pointer

theorem pageData_faulty (port : Fin 8) (f : Frame) (s : FaultyBus) (hp : p ≤ 2047) :
    ∃ s' buffer rc, pageData FaultyBus.twi (device port) f p s = (s', buffer, rc) ∧
      s'.acks = s.acks ∧ s'.transfer = s.transfer + 2 ∧
      (∀ q, s'.bus.memory q = s.bus.memory q) ∧
      (s.acks (s.transfer + 1) 0 = true → rc = 0 ∧
        ((s.bus.eeprom port).pointer < 65536 → ∀ j < 32,
          buffer j = s.bus.memory port ((readAddress s port p + j) % 65536))) ∧
      (¬s.acks (s.transfer + 1) 0 = true → rc = -2 ∧ buffer = f.junk) := by
  have haddr := pageHigh_pageLow hp
  obtain ⟨s₁, rc₁, hwrite, hwrote⟩ :=
    FaultyBus.iicWrite_wrote port s (pageHigh p) (pageLow p) f.junk
      (show (2 : UInt16).toNat = 0 + 2 from rfl) (by omega)
  have hrefused := FaultyBus.eeprom_iicWrite_of_refused port s (pageHigh p) (pageLow p) f.junk
    (show (2 : UInt16).toNat = 0 + 2 from rfl)
  rw [hwrite] at hrefused
  rw [haddr] at hwrote
  obtain ⟨s₂, buffer, rc, hread, hacks, htransfer, -, hmemory, hacked, hnot⟩ :=
    FaultyBus.iicRead_spec port s₁ f.junk 32
  rw [hwrote.acks, hwrote.transfer] at hacked hnot
  have hsame : ∀ q, s₁.bus.memory q = s.bus.memory q := fun q => hwrote.memory_eq q
  have hpointer : (s₁.bus.eeprom port).pointer = readAddress s port p := by
    unfold readAddress
    split_ifs with hall
    · exact hwrote.pointer (hwrote.success.mpr (by simpa using hall)) rfl
    · exact congrArg (fun e => (e port).pointer) (hrefused hall)
  refine ⟨s₂, buffer, rc, ?_, hacks.trans hwrote.acks, ?_, ?_, fun hack => ?_, hnot⟩
  · simp only [pageData, hwrite, hread]
  · rw [htransfer, hwrote.transfer]
  · exact fun q => (hmemory q).trans (hsame q)
  · obtain ⟨hrc, hbuffer⟩ := hacked hack
    refine ⟨hrc, fun hbelow j hj => ?_⟩
    rw [hpointer, hsame port] at hbuffer
    refine hbuffer ?_ j hj
    unfold readAddress
    split_ifs
    · omega
    · exact hbelow

/-- If `ReadPage` returns 0, then the bytes in `rd.data` are the contents of the page. -/
def ReadsPage (port : Fin 8) (f : Frame) (p : ℕ) (dl : ℤ) (w : World FaultyBus) : Prop :=
  (readPage FaultyBus.twi (device port) f p dl w).2 = 0 → ∀ j < 32,
    (pageData FaultyBus.twi (device port) f p w.bus).2.1 j = w.bus.bus.memory port (32 * p + j)

/-- A return value of 0 means that the page has been read, exactly if the reading is refused,
or all three bytes of the first transfer are acknowledged, or the pointer was already at bytes
equal to those of the page. -/
theorem readPage_success_iff (port : Fin 8) (f : Frame) (p : ℕ) (dl : ℤ) (w : World FaultyBus)
    (hp : p ≤ 2043) (hpointer : (w.bus.bus.eeprom port).pointer < 65536) :
    ReadsPage port f p dl w ↔
      w.bus.acks (w.bus.transfer + 1) 0 = false ∨
      (∀ i < 3, w.bus.acks w.bus.transfer i = true) ∨
      ∀ j < 32, w.bus.bus.memory port (((w.bus.bus.eeprom port).pointer + j) % 65536) =
        w.bus.bus.memory port (32 * p + j) := by
  obtain ⟨s', buffer, rc, hdata, -, -, -, hacked, hnot⟩ :=
    pageData_faulty port f w.bus (show p ≤ 2047 by omega)
  unfold ReadsPage
  rw [readPage_accepted _ _ _ _ (Or.inl hp), hdata]
  by_cases hack : w.bus.acks (w.bus.transfer + 1) 0 = true
  · obtain ⟨rfl, hbuffer⟩ := hacked hack
    have hbuffer := hbuffer hpointer
    by_cases haddress : ∀ i < 3, w.bus.acks w.bus.transfer i = true
    · refine iff_of_true (fun _ j hj => ?_) (Or.inr (Or.inl haddress))
      have hbyte := hbuffer j hj
      rwa [readAddress, if_pos haddress, Nat.mod_eq_of_lt (by omega)] at hbyte
    · rw [readAddress, if_neg haddress] at hbuffer
      constructor
      · intro h
        exact Or.inr (Or.inr fun j hj => (hbuffer j hj).symm.trans (h rfl j hj))
      · rintro (hrefused | hall | hsame) _ j hj
        · rw [hack] at hrefused
          cases hrefused
        · exact (haddress hall).elim
        · exact (hbuffer j hj).trans (hsame j hj)
  · obtain ⟨rfl, -⟩ := hnot hack
    refine iff_of_true (fun hzero => absurd hzero ?_) (Or.inl (by simpa using hack))
    exact show ¬(-2 : ℤ) = 0 by decide

def erasedFaulty (acks : ℕ → ℕ → Bool) : World FaultyBus :=
  ⟨⟨erased.bus, acks, 0, 0, none, []⟩, []⟩

def twoPages (acks : ℕ → ℕ → Bool) : World FaultyBus :=
  ⟨⟨⟨fun _ => ⟨fun a => if a < 32 then 65 else 66, 0⟩, .idle⟩, acks, 0, 0, none, []⟩, []⟩

theorem readPage_success_iff_twoPages :
    ReadsPage 0 ⟨fun _ => 0, []⟩ 1 0 (twoPages fun _ _ => true) :=
  (readPage_success_iff 0 ⟨fun _ => 0, []⟩ 1 0 (twoPages fun _ _ => true) (by decide)
    (by decide)).mpr (Or.inr (Or.inl fun _ _ => rfl))

/-- The first transfer is refused and the second is not: page 0 is read for page 1. -/
theorem readPage_wrong_page :
    ¬ReadsPage 0 ⟨fun _ => 0, []⟩ 1 0 (twoPages fun t _ => t = 1) := by
  intro h
  obtain ⟨s', buffer, rc, hdata, -, -, -, hacked, -⟩ :=
    pageData_faulty 0 ⟨fun _ => 0, []⟩ (twoPages fun t _ => t = 1).bus (show 1 ≤ 2047 by decide)
  obtain ⟨rfl, hbuffer⟩ := hacked (by decide)
  unfold ReadsPage at h
  rw [readPage_accepted _ _ _ _ (Or.inl (by decide)), hdata] at h
  have hread := hbuffer (by decide) 0 (by decide)
  have hpage : buffer 0 = 66 := h rfl 0 (by decide)
  rw [hpage] at hread
  exact absurd hread (by decide)

end EmbeddedKernel.DataLog
