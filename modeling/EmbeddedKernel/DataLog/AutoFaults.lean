import EmbeddedKernel.DataLog.CircularLog
import EmbeddedKernel.DataLog.FaultyBus

/-!
# `WriteAuto` on a bus that refuses bytes

`WriteAuto` makes four transfers: the address of the counter, the counter, the
record, and the new counter.  Only the result of the third one is looked at.
-/

namespace EmbeddedKernel.DataLog

open Iic Library

variable {port : Fin 8} {data : CString} {w : World FaultyBus}

/-! ## The functions it calls -/

/-- The counter has been read: its address is acknowledged, and so is the reading. -/
def CounterRead (s : FaultyBus) : Prop :=
  (∀ i < 3, s.acks s.transfer i = true) ∧ s.acks (s.transfer + 1) 0 = true

theorem getAddr_faulty (port : Fin 8) (f : Frame) (w : World FaultyBus) :
    ∃ w' v, getAddr FaultyBus.twi (device port) f w = (w', v) ∧ w'.bus.acks = w.bus.acks ∧
      w'.bus.transfer = w.bus.transfer + 2 ∧ w'.bus.stored = w.bus.stored ∧
      (∀ q, w'.bus.bus.memory q = w.bus.bus.memory q) ∧
      ∀ k < 2044, CounterRead w.bus → Counts w.bus.bus port k → v = (k : ℤ) := by
  obtain ⟨s₁, rc₁, hwrite, hwrote⟩ :=
    FaultyBus.iicWrite_wrote port w.bus (Avr.toUChar (L_ADDR / 256)) (Avr.toUChar L_ADDR) f.junk
      (show (2 : UInt16).toNat = 0 + 2 from rfl) (by omega)
  rw [L_ADDR_bytes] at hwrote
  obtain ⟨s₂, buffer, rc₂, hread, hacks, htransfer, hstored, hmemory, hbuffer, -⟩ :=
    FaultyBus.iicRead_spec port s₁ f.junk 4
  have hsame : ∀ q, s₁.bus.memory q = w.bus.bus.memory q := fun q => hwrote.memory_eq q
  refine ⟨World.println ⟨s₂, w.serial⟩ (printed ((List.range 4).map buffer) f.beyond),
    decode buffer, ?_, ?_, ?_, ?_, ?_, ?_⟩
  · simp only [getAddr, hwrite, hread]
  · exact hacks.trans hwrote.acks
  · exact htransfer.trans (by rw [hwrote.transfer])
  · refine hstored.trans ?_
    rw [hwrote.stored]
    simp [storedBytes, taken]
  · exact fun q => (hmemory q).trans (hsame q)
  · intro k hk hcounter hcount
    have hrc : rc₁ = 0 := hwrote.success.mpr (by simpa using hcounter.1)
    have hpointer : (s₁.bus.eeprom port).pointer = 0xff80 := hwrote.pointer hrc rfl
    have hack : s₁.acks s₁.transfer 0 = true := by
      rw [hwrote.acks, hwrote.transfer]
      exact hcounter.2
    have hbytes := (hbuffer hack).2 (by rw [hpointer]; decide)
    rw [hpointer, hsame port] at hbytes
    refine decode_encode hk fun i hi => ?_
    have hfour : i < (4 : UInt16).toNat := hi
    rw [hbytes i hfour, Nat.mod_eq_of_lt (by omega)]
    exact hcount i hi

theorem write_faulty (port : Fin 8) (f : Frame) (page : ℤ) (data : CString) (w : World FaultyBus)
    (hpage : page < 2044) (hs : data.chars.length ≤ 31) :
    ∃ w' rc, write FaultyBus.twi (device port) f page data 0 w = .ok (w', rc) ∧
      FaultyBus.Wrote w.bus w'.bus port (32 * (page % 2048).toNat)
        ((List.range 32).map (strcpy data f.junk)) rc := by
  have haddr := pageHigh_pageLow_emod page
  obtain ⟨s', rc, hwrite, hwrote⟩ :=
    FaultyBus.iicWrite_wrote port w.bus (pageHigh page) (pageLow page) (strcpy data f.junk)
      (show (34 : UInt16).toNat = 32 + 2 from rfl) (by omega)
  rw [haddr] at hwrote
  refine ⟨⟨s', w.serial⟩, rc, ?_, hwrote⟩
  rw [write_of_fits w (Or.inl hpage) hs hwrite, ok_accept w hpage (by decide)]

theorem updAddr_faulty (port : Fin 8) (f : Frame) (caddr : ℤ) (w : World FaultyBus) :
    ∃ rc, FaultyBus.Wrote w.bus (updAddr FaultyBus.twi (device port) f caddr w).bus port 0xff80
      ((List.range 4).map (encode (nextAddr caddr))) rc := by
  obtain ⟨s', rc, hwrite, hwrote⟩ :=
    FaultyBus.iicWrite_wrote port w.bus (Avr.toUChar (L_ADDR / 256)) (Avr.toUChar L_ADDR)
      (encode (nextAddr caddr)) (show (6 : UInt16).toNat = 4 + 2 from rfl)
      (by rw [L_ADDR_bytes]; decide)
  rw [L_ADDR_bytes] at hwrote
  refine ⟨rc, ?_⟩
  simpa only [updAddr, World.print, World.println, hwrite] using hwrote

/-- The transfers of a call: the value `v` for the counter, the record, and, if the record was
acknowledged, the new counter. -/
theorem writeAuto_faulty (port : Fin 8) (fs : Frames) (w : World FaultyBus)
    (hs : data.chars.length ≤ 31) :
    ∃ v s₁ s₂ w' rc, writeAuto FaultyBus.twi (device port) fs data w = .ok (w', rc) ∧
      s₁.acks = w.bus.acks ∧ s₁.transfer = w.bus.transfer + 2 ∧ s₁.stored = w.bus.stored ∧
      (∀ q, s₁.bus.memory q = w.bus.bus.memory q) ∧
      (∀ k < 2044, CounterRead w.bus → Counts w.bus.bus port k → v = (k : ℤ)) ∧
      FaultyBus.Wrote s₁ s₂ port (32 * (autoPage v % 2048).toNat)
        ((List.range 32).map (strcpy data fs.write.junk)) rc ∧
      (rc ≠ 0 → w'.bus = s₂) ∧
      (rc = 0 → ∃ rc', FaultyBus.Wrote s₂ w'.bus port 0xff80
        ((List.range 4).map (encode (nextAddr (autoPage v)))) rc') := by
  obtain ⟨w₁, v, hget, hacks, htransfer, hstored, hmemory, hvalue⟩ :=
    getAddr_faulty port fs.getAddr w
  set page := autoPage v with hpage
  -- between the calls only the serial output changes
  set w₂ : World FaultyBus := ((((w₁.print (ascii "WriteAuto - addr1: ")).println
    (ascii (toString v))).print (ascii "WriteAuto - addr2: ")).println
    (ascii (toString page))) with hw₂
  obtain ⟨w₃, rc, hwrite, hwrote⟩ := write_faulty port fs.write page data w₂
    (autoPage_lt v) hs
  set w₄ : World FaultyBus := (w₃.print (ascii "WriteAuto - writing result: ")).println
    (ascii (toString rc)) with hw₄
  refine ⟨v, w₁.bus, w₃.bus, if rc = 0 then updAddr FaultyBus.twi (device port) fs.updAddr page w₄
    else w₄, rc, ?_, hacks, htransfer, hstored, hmemory, hvalue, hwrote, fun hrc => ?_,
    fun hrc => ?_⟩
  · have hclamp : (if v ≥ 2044 then 0 else v) = page := rfl
    simp only [writeAuto, hget, hclamp, ← hw₂, hwrite, ok_bind, ← hw₄]
  · rw [if_neg hrc]
    rfl
  · rw [if_pos hrc]
    exact updAddr_faulty port fs.updAddr page w₄

/-! ## Partial updates of the counter -/

/-- A counter whose last digit has not been written is not the next one. -/
theorem decode_ne_next {digits : ℕ → UInt8} {k n : ℕ} (hn : n < 4)
    (hnew : ∀ i < n, digits i = encode ((k + 1) % 2044 : ℕ) i)
    (hold : ∀ i < 4, n ≤ i → digits i = encode k i) :
    decode digits ≠ ((k + 1) % 2044 : ℕ) := by
  have hmixed : decode digits = _ := decode_digits
    (d := fun i => digit (if i < n then (k + 1) % 2044 else k) i) (fun i => digit_mem _ i)
    (fun i hi => by
      split_ifs with hlt
      · exact (hnew i hlt).trans (encode_eq_digit _ hi)
      · exact (hold i hi (not_lt.mp hlt)).trans (encode_eq_digit _ hi))
  have hlast : digit (if 3 < n then (k + 1) % 2044 else k) 3 = k % 10 := by
    rw [if_neg (by omega)]
    rfl
  rw [hmixed, hlast]
  omega

theorem decode_ne_next_self {digits : ℕ → UInt8} {k : ℕ} (h : ∀ i < 4, digits i = encode k i) :
    decode digits ≠ ((k + 1) % 2044 : ℕ) :=
  decode_ne_next (n := 0) (by decide) (fun i hi => by omega) fun i hi _ => h i hi

/-! ## Honesty -/

/-- The world with a bus on which nothing has been transferred yet. -/
def faulty (acks : ℕ → ℕ → Bool) (w : World Bus) : World FaultyBus :=
  ⟨⟨w.bus, acks, 0, 0, none, []⟩, w.serial⟩

/-- `WriteAuto` returns 0 exactly if the record `k` holds the string and the counter is the
next one; otherwise it leaves the counter alone.  If it could not read the counter, then it
writes nothing. -/
def Honest (port : Fin 8) (fs : Frames) (data : CString) (k : ℕ) (acks : ℕ → ℕ → Bool)
    (w : World Bus) : Prop :=
  ∃ w' rc, writeAuto FaultyBus.twi (device port) fs data (faulty acks w) = .ok (w', rc) ∧
    (rc = 0 ↔ HoldsString w'.bus.bus port k data ∧
      decode (fun i => w'.bus.bus.memory port (0xff80 + i)) = ((k + 1) % 2044 : ℕ)) ∧
    (rc ≠ 0 → SameCell w.bus w'.bus.bus port) ∧
    (¬CounterRead (faulty acks w).bus → w'.bus.stored = [])

variable {fs : Frames} {k : ℕ} {acks : ℕ → ℕ → Bool} {w : World Bus}

/-- The cells of the counter after an update that may have been cut short. -/
theorem cell_of_wrote {s s' : FaultyBus} {m rc : ℤ}
    (h : FaultyBus.Wrote s s' port 0xff80 ((List.range 4).map (encode m)) rc) {i : ℕ} (hi : i < 4) :
    s'.bus.memory port (0xff80 + i) =
      if i < (storedBytes (s.acks s.transfer) ((List.range 4).map (encode m))).length then
        encode m i
      else s.bus.memory port (0xff80 + i) := by
  rw [h.self]
  by_cases hlt : i < (storedBytes (s.acks s.transfer) ((List.range 4).map (encode m))).length
  · rw [if_pos (by omega), if_pos hlt, Nat.add_sub_cancel_left]
    simp [hi]
  · rw [if_neg (by omega), if_neg hlt]

/-- A call that could not read the counter must not write a byte of a record. -/
theorem honest_unread (hs : data.chars.length ≤ 31) (hcount : Counts w.bus port k)
    (hunread : ¬CounterRead (faulty acks w).bus) :
    Honest port fs data k acks w ↔ ¬∀ i < 4, acks 2 i = true := by
  obtain ⟨v, s₁, s₂, w', rc, hauto, hacks, htransfer, hstored, hmemory, -, hwrote, hfail, hdone⟩ :=
    writeAuto_faulty port fs (faulty acks w) hs
  have hack : s₁.acks s₁.transfer = acks 2 := by
    rw [hacks, htransfer]
    rfl
  have hnil : s₁.stored = [] := hstored
  have hrecord : (List.range 32).map (strcpy data fs.write.junk) ≠ [] := by simp
  have hwritten := hwrote.stored
  rw [hack, hnil, List.nil_append] at hwritten
  rw [← storedBytes_eq_nil hrecord]
  constructor
  · rintro ⟨w'', rc'', hauto', -, -, hnone⟩
    rw [hauto] at hauto'
    cases hauto'
    have hempty : s₂.stored = [] := by
      by_cases hrc : rc = 0
      · obtain ⟨rc', hupdate⟩ := hdone hrc
        have hall := hupdate.stored
        rw [hnone hunread] at hall
        exact (List.append_eq_nil_iff.mp hall.symm).1
      · rw [← hfail hrc]
        exact hnone hunread
    rw [hempty] at hwritten
    exact List.map_eq_nil_iff.mp hwritten.symm
  · intro hempty
    have hrc : rc ≠ 0 := by
      intro hrc
      have hall := hwrote.success.mp hrc
      rw [hack] at hall
      rw [storedBytes_eq_self hall] at hempty
      exact hrecord hempty
    have hsame : w'.bus.bus.memory port = w.bus.memory port := by
      rw [hfail hrc]
      funext a
      rw [hwrote.self, hack, hempty, if_neg (by simp), hmemory port]
      rfl
    refine ⟨w', rc, hauto, iff_of_false hrc fun h => ?_, fun _ i _ => by rw [hsame], fun _ => ?_⟩
    · refine decode_ne_next_self (fun i hi => ?_) h.2
      rw [hsame]
      exact hcount i hi
    · rw [hfail hrc, hwritten, hempty]
      rfl

/-- A record that is acknowledged as a whole holds the string, whatever becomes of the
counter. -/
theorem holdsString_of_wrote {s₁ s₂ s' : FaultyBus} {f : Frame} {m rc : ℤ} (hk : k < 2044)
    (hs : data.chars.length ≤ 31)
    (hall : ∀ i < 35, s₁.acks s₁.transfer i = true)
    (hrecord : FaultyBus.Wrote s₁ s₂ port (32 * k) ((List.range 32).map (strcpy data f.junk)) 0)
    (hupdate : FaultyBus.Wrote s₂ s' port 0xff80 ((List.range 4).map (encode m)) rc) :
    HoldsString s'.bus port k data := by
  refine ⟨hs, f.junk, fun i hi => ?_⟩
  rw [hupdate.self, if_neg (by omega), hrecord.self, storedBytes_eq_self (by simpa using hall)]
  rw [if_pos (by simp only [List.length_map, List.length_range]; omega), Nat.add_sub_cancel_left]
  simp [hi]

/-- The counter is the next one exactly if its update was acknowledged as a whole: the last
digit is always a new one. -/
theorem decode_of_wrote {s s' : FaultyBus} {rc : ℤ}
    (hcell : ∀ i < 4, s.bus.memory port (0xff80 + i) = encode k i)
    (h : FaultyBus.Wrote s s' port 0xff80 ((List.range 4).map (encode ((k + 1) % 2044 : ℕ))) rc) :
    decode (fun i => s'.bus.memory port (0xff80 + i)) = ((k + 1) % 2044 : ℕ) ↔
      ∀ i < 7, s.acks s.transfer i = true := by
  have hdigits : (List.range 4).map (encode ((k + 1) % 2044 : ℕ)) ≠ [] := by simp
  constructor
  · intro heq
    by_contra hcut
    have hne : storedBytes (s.acks s.transfer) _ ≠ _ :=
      storedBytes_ne_self hdigits (by simpa using hcut)
    have hlt : (storedBytes (s.acks s.transfer)
        ((List.range 4).map (encode ((k + 1) % 2044 : ℕ)))).length < 4 := by
      by_contra hge
      apply hne
      apply (storedBytes_isPrefix _ _).eq_of_length_le
      simpa using hge
    refine decode_ne_next hlt (fun i hi => ?_) (fun i hi hge => ?_) heq
    · rw [cell_of_wrote h (by omega), if_pos hi]
    · rw [cell_of_wrote h hi, if_neg (by omega), hcell i hi]
  · intro hall
    refine decode_encode (Nat.mod_lt _ (by decide)) fun i hi => ?_
    rw [cell_of_wrote h hi, storedBytes_eq_self (by simpa using hall), if_pos (by simpa using hi)]

/-- A call that has read the counter must have its update acknowledged if its record is. -/
theorem honest_read (hs : data.chars.length ≤ 31) (hk : k < 2044) (hcount : Counts w.bus port k)
    (hread : CounterRead (faulty acks w).bus) :
    Honest port fs data k acks w ↔
      ((∀ i < 35, acks 2 i = true) → ∀ i < 7, acks 3 i = true) := by
  obtain ⟨v, s₁, s₂, w', rc, hauto, hacks, htransfer, -, hmemory, hvalue, hwrote, hfail, hdone⟩ :=
    writeAuto_faulty port fs (faulty acks w) hs
  have hack : s₁.acks s₁.transfer = acks 2 := by
    rw [hacks, htransfer]
    rfl
  have hack' : s₂.acks s₂.transfer = acks 3 := by
    rw [hwrote.acks, hwrote.transfer, hacks, htransfer]
    rfl
  have hpage : autoPage v = k := by
    rw [hvalue k hk hread hcount, autoPage, if_neg (by omega)]
  have haddr : 32 * ((k : ℤ) % 2048).toNat = 32 * k := by omega
  rw [hpage, haddr] at hwrote
  rw [hpage, nextAddr_eq hk] at hdone
  -- the record is below the counter
  have hcell : ∀ i < 4, s₂.bus.memory port (0xff80 + i) = encode k i := by
    intro i hi
    have hle := (storedBytes_isPrefix (s₁.acks s₁.transfer)
      ((List.range 32).map (strcpy data fs.write.junk))).length_le
    rw [List.length_map, List.length_range] at hle
    rw [hwrote.self, if_neg (by omega), hmemory port]
    exact hcount i hi
  have hsuccess : rc = 0 ↔ ∀ i < 35, acks 2 i = true := by simpa [hack] using hwrote.success
  by_cases hrc : rc = 0
  · have hall := hsuccess.mp hrc
    obtain ⟨rc', hupdate⟩ := hdone hrc
    subst hrc
    have hholds : HoldsString w'.bus.bus port k data :=
      holdsString_of_wrote hk hs (by rwa [hack]) hwrote hupdate
    have hnext := decode_of_wrote hcell hupdate
    rw [hack'] at hnext
    constructor
    · rintro ⟨w'', rc'', hauto', hiff, -, -⟩ -
      rw [hauto] at hauto'
      cases hauto'
      exact hnext.mp (hiff.mp rfl).2
    · intro himp
      exact ⟨w', 0, hauto, iff_of_true rfl ⟨hholds, hnext.mpr (himp hall)⟩,
        fun hne => (hne rfl).elim, fun hunread => (hunread hread).elim⟩
  · refine iff_of_true ⟨w', rc, hauto, iff_of_false hrc fun h => ?_, fun _ i hi => ?_,
      fun hunread => (hunread hread).elim⟩ fun hall => (hrc (hsuccess.mpr hall)).elim
    · rw [hfail hrc] at h
      exact decode_ne_next_self hcell h.2
    · rw [hfail hrc, hcell i hi]
      exact (hcount i hi).symm

/-- `WriteAuto` is honest exactly if two things do not happen: the counter has been read and
the record acknowledged, but not the update of the counter; or the counter has not been read
and the record gets as far as its first byte. -/
theorem writeAuto_honest (port : Fin 8) (fs : Frames) (data : CString) (k : ℕ)
    (acks : ℕ → ℕ → Bool) (w : World Bus) (hs : data.chars.length ≤ 31) (hk : k < 2044)
    (hcount : Counts w.bus port k) :
    Honest port fs data k acks w ↔
      (CounterRead (faulty acks w).bus →
        (∀ i < 35, acks 2 i = true) → ∀ i < 7, acks 3 i = true) ∧
      (¬CounterRead (faulty acks w).bus → ¬∀ i < 4, acks 2 i = true) := by
  by_cases hread : CounterRead (faulty acks w).bus
  · rw [honest_read hs hk hcount hread]
    constructor
    · intro h
      exact ⟨fun _ => h, fun hunread => (hunread hread).elim⟩
    · intro h
      exact h.1 hread
  · rw [honest_unread hs hcount hread]
    constructor
    · intro h
      exact ⟨fun hyes => (hread hyes).elim, fun _ => h⟩
    · intro h
      exact h.2 hread

/-- EEPROMs with the counter at 7. -/
def atSeven : World Bus :=
  ⟨⟨fun _ => ⟨fun a => if a = 0xff83 then 55 else 48, 0⟩, .idle⟩, []⟩

theorem counts_atSeven : Counts atSeven.bus 0 7 := by
  intro i hi
  interval_cases i <;> rfl

/-- A record that is refused at its tenth byte. -/
theorem writeAuto_honest_atSeven :
    Honest 0 emptyFrames zeros 7
      (fun t i => !(t == 2 && i == 9)) atSeven := by
  refine (writeAuto_honest 0 _ zeros 7 _ atSeven (by decide) (by decide) counts_atSeven).mpr ?_
  refine ⟨fun _ hall => ?_, fun hunread => (hunread ⟨by decide, rfl⟩).elim⟩
  exact absurd (hall 9 (by decide)) (by decide)

/-- The update of the counter is refused, and `WriteAuto` returns 0; or the address of the
counter is refused, and `WriteAuto` writes a record somewhere. -/
theorem writeAuto_dishonest :
    ¬Honest 0 emptyFrames zeros 7
      (fun t _ => t != 3) atSeven ∧
    ¬Honest 0 emptyFrames zeros 7
      (fun t _ => t != 0) atSeven := by
  constructor
  · have hread : CounterRead (faulty (fun t _ => t != 3) atSeven).bus := ⟨by decide, rfl⟩
    rw [honest_read (by decide) (by decide) counts_atSeven hread]
    intro h
    exact absurd (h (by decide) 0 (by decide)) (by decide)
  · have hunread : ¬CounterRead (faulty (fun t _ => t != 0) atSeven).bus :=
      fun h => absurd (h.1 0 (by decide)) (by decide)
    rw [honest_unread (by decide) counts_atSeven hunread]
    intro h
    exact h (by decide)

end EmbeddedKernel.DataLog
