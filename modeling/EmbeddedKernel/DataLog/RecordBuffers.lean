import EmbeddedKernel.DataLog.ReadFaults

/-!
# The buffers of the records

`Write` copies its string with `strcpy`, which ends with the string and not with the
record, and `ReadPage` prints its record as a string, which ends at a zero and not with
the record.  So the copy stays in its buffer if the string has at most 31 characters, and
then leaves a zero in the record; an erased record has none.
-/

namespace EmbeddedKernel.DataLog

open Iic Library

section

variable {σ : Type*} {twi : Twi σ} {d : LogData} {f : Frame} {page dl : ℤ} {data : CString}
  {w : World σ}

/-! ## The copy of `Write` -/

/-- What `Write` does after the copy. -/
def sendRecord (twi : Twi σ) (d : LogData) (page : ℤ) (wrData : ℕ → UInt8) (w : World σ) :
    World σ × ℤ :=
  let (bus, rc) :=
    iicWrite twi d.iicAddrE2 (withAddress (pageHigh page) (pageLow page) wrData) 34 w.bus
  ({ w with bus := bus }, rc)

/-- Wherever the string is, the copy puts at most 32 bytes, the terminator included, and
`Write` goes on with what the copy has left in `wr.data`. -/
def CopyFits (twi : Twi σ) (d : LogData) (f : Frame) (page : ℤ) (data : CString) (dl : ℤ)
    (w : World σ) : Prop :=
  ∀ src, data.At src → ∃ fuel n wrData, stringCopy src fuel 0 f.junk = some (n, wrData) ∧
    n ≤ 32 ∧ write twi d f page data dl w = .ok (sendRecord twi d page wrData (ok page dl w).1)

theorem CString.At.copied_eq {src : ℕ → UInt8} (h : data.At src) (junk : ℕ → UInt8) :
    (fun j => if 0 ≤ j ∧ j ≤ data.chars.length then src j else junk j) = strcpy data junk := by
  have hat := strcpy_at data junk
  funext j
  rcases Nat.lt_trichotomy j data.chars.length with hlt | rfl | hgt
  · rw [if_pos ⟨Nat.zero_le j, hlt.le⟩]
    exact List.map_inj_left.mp (h.chars.trans hat.chars.symm) j (List.mem_range.mpr hlt)
  · rw [if_pos ⟨Nat.zero_le _, le_rfl⟩, h.terminator, hat.terminator]
  · have hlength : (data.chars ++ [0]).length ≤ j := by simpa using hgt
    rw [if_neg (by omega), strcpy, List.getD_eq_default _ _ hlength]

/-- The loop of the copy puts the characters and the terminator. -/
theorem CString.At.stringCopy_iff {src junk wrData : ℕ → UInt8} {fuel n : ℕ} (h : data.At src) :
    stringCopy src fuel 0 junk = some (n, wrData) ↔
      data.chars.length < fuel ∧ n = data.chars.length + 1 ∧ wrData = strcpy data junk := by
  rw [stringCopy_eq, Option.map_eq_some_iff]
  constructor
  · rintro ⟨k, hk, heq⟩
    obtain ⟨hlt, hend⟩ := stringEnd_zero_iff.mp hk
    obtain rfl := hend.unique h.endsAt
    obtain ⟨rfl, rfl⟩ := Prod.mk.inj heq
    exact ⟨hlt, rfl, h.copied_eq junk⟩
  · rintro ⟨hlt, rfl, rfl⟩
    exact ⟨_, stringEnd_zero_iff.mpr ⟨hlt, h.endsAt⟩, Prod.ext rfl (h.copied_eq junk)⟩

theorem write_of_length_le (hpage : page < 2044 ∨ dl = DEVLOCK) (hlength : data.chars.length ≤ 31) :
    write twi d f page data dl w =
      .ok (sendRecord twi d page (strcpy data f.junk) (ok page dl w).1) := by
  rw [write_of_fits w hpage hlength rfl, ok_of_accepted w hpage]
  rfl

theorem copyFits_iff (hpage : page < 2044 ∨ dl = DEVLOCK) :
    CopyFits twi d f page data dl w ↔ data.chars.length ≤ 31 := by
  constructor
  · intro h
    obtain ⟨fuel, n, wrData, hcopy, hn, -⟩ := h _ (strcpy_at data f.junk)
    obtain ⟨-, rfl, -⟩ := (strcpy_at data f.junk).stringCopy_iff.mp hcopy
    omega
  · intro hlength src hat
    exact ⟨data.chars.length + 1, _, _, hat.stringCopy_iff.mpr ⟨Nat.lt_succ_self _, rfl, rfl⟩,
      by omega, write_of_length_le hpage hlength⟩

/-! ## The string `ReadPage` prints -/

/-- The memory from `rd.data` on. -/
def fromBuffer (buffer : ℕ → UInt8) (beyond : List UInt8) (i : ℕ) : UInt8 :=
  if i < 32 then buffer i else (beyond ++ [0]).getD (i - 32) 0

/-- The string that starts with `rd.data` ends in it, and is what `ReadPage` prints. -/
def PrintEnds (twi : Twi σ) (d : LogData) (f : Frame) (page dl : ℤ) (w : World σ) : Prop :=
  ∃ fuel n, stringEnd (fromBuffer (pageData twi d f page w.bus).2.1 f.beyond) fuel 0 = some n ∧
    n < 32 ∧ (readPage twi d f page dl w).1.serial =
      (ok page dl w).1.serial ++ (List.range n).map (pageData twi d f page w.bus).2.1

theorem endsAt_fromBuffer_iff {buffer : ℕ → UInt8} {beyond : List UInt8} {n : ℕ} (hn : n < 32) :
    EndsAt (fromBuffer buffer beyond) n ↔ EndsAt buffer n := by
  have hsame : ∀ i ≤ n, fromBuffer buffer beyond i = buffer i := fun i hi => if_pos (by omega)
  constructor
  · rintro ⟨hzero, hnonzero⟩
    exact ⟨(hsame n le_rfl).symm.trans hzero, fun i hi => hsame i hi.le ▸ hnonzero i hi⟩
  · rintro ⟨hzero, hnonzero⟩
    exact ⟨(hsame n le_rfl).trans hzero, fun i hi => (hsame i hi.le).symm ▸ hnonzero i hi⟩

theorem printEnds_iff_zero (hpage : page < 2044 ∨ dl = DEVLOCK) :
    PrintEnds twi d f page dl w ↔ ∃ i < 32, (pageData twi d f page w.bus).2.1 i = 0 := by
  rw [← exists_endsAt_iff]
  constructor
  · rintro ⟨fuel, n, hend, hn, -⟩
    exact ⟨n, hn, (endsAt_fromBuffer_iff hn).mp (stringEnd_zero_iff.mp hend).2⟩
  · rintro ⟨n, hn, hend⟩
    refine ⟨n + 1, n, ?_, hn, ?_⟩
    · exact stringEnd_zero_iff.mpr ⟨Nat.lt_succ_self n, (endsAt_fromBuffer_iff hn).mpr hend⟩
    · rw [readPage_of_accepted twi d f w hpage, ok_of_accepted w hpage, printed_of_endsAt hend hn]
      rfl

end

/-! ## Records -/

theorem pageHigh_eq_and_pageLow_eq (page : ℤ) :
    pageHigh page = pageHigh (page % 2048).toNat ∧ pageLow page = pageLow (page % 2048).toNat := by
  have haddr := pageHigh_pageLow_emod page
  have hsame := pageHigh_pageLow (p := (page % 2048).toNat) (by omega)
  have hlow := (pageLow page).toNat_lt
  have hlow' := (pageLow (page % 2048).toNat).toNat_lt
  rw [← UInt8.toNat_inj, ← UInt8.toNat_inj]
  omega

/-- Pages that differ by a multiple of 2048 are the same record. -/
theorem pageData_emod {σ : Type*} (twi : Twi σ) (d : LogData) (f : Frame) (page : ℤ) (bus : σ) :
    pageData twi d f page bus = pageData twi d f (page % 2048).toNat bus := by
  obtain ⟨hhigh, hlow⟩ := pageHigh_eq_and_pageLow_eq page
  simp only [pageData, hhigh, hlow]

/-- The bytes that a reading of the page gets from the EEPROM, or, if the EEPROM does not
answer to it, those that were in `rd.data` before. -/
def recordByte (s : FaultyBus) (f : Frame) (port : Fin 8) (page : ℤ) (i : ℕ) : UInt8 :=
  if s.acks (s.transfer + 1) 0 = true then
    s.bus.memory port ((readAddress s port (page % 2048).toNat + i) % 65536)
  else f.junk i

theorem printEnds_iff {port : Fin 8} {f : Frame} {page dl : ℤ} {w : World FaultyBus}
    (hpage : page < 2044 ∨ dl = DEVLOCK) (hpointer : (w.bus.bus.eeprom port).pointer < 65536) :
    PrintEnds FaultyBus.twi (device port) f page dl w ↔
      ∃ i < 32, recordByte w.bus f port page i = 0 := by
  obtain ⟨s', buffer, rc, hdata, -, -, -, hacked, hnot⟩ :=
    pageData_faulty port f w.bus (p := (page % 2048).toNat) (by omega)
  have hbuffer : ∀ i < 32, buffer i = recordByte w.bus f port page i := by
    intro i hi
    unfold recordByte
    split_ifs with hack
    · exact (hacked hack).2 hpointer i hi
    · rw [(hnot hack).2]
  rw [printEnds_iff_zero hpage, pageData_emod, hdata]
  refine exists_congr fun i => and_congr_right fun hi => ?_
  exact iff_of_eq (congrArg (· = 0) (hbuffer i hi))

/-- On an accepted page, `Write` stays in `wr.data` exactly if the string has at most 31
characters, and `ReadPage` in `rd.data` exactly if one of the bytes of the record is zero. -/
theorem recordBuffers_iff (port : Fin 8) (f : Frame) (page : ℤ) (data : CString) (dl : ℤ)
    (w : World FaultyBus) (hpage : page < 2044 ∨ dl = DEVLOCK)
    (hpointer : (w.bus.bus.eeprom port).pointer < 65536) :
    (CopyFits FaultyBus.twi (device port) f page data dl w ↔ data.chars.length ≤ 31) ∧
      (PrintEnds FaultyBus.twi (device port) f page dl w ↔
        ∃ i < 32, recordByte w.bus f port page i = 0) :=
  ⟨copyFits_iff hpage, printEnds_iff hpage hpointer⟩

/-- An entry of the log as the notes on the format have it. -/
def entry : CString := ⟨ascii "dd/mm/yy,hh:mm:ss,tt,aaa,ddd\n", by decide +kernel⟩

/-- Every record holds a string of 29 characters. -/
def entries : World FaultyBus :=
  ⟨⟨⟨fun _ => ⟨fun a => if a % 32 = 29 then 0 else 65, 0⟩, .idle⟩, fun _ _ => true, 0, 0, none, []⟩,
    []⟩

theorem recordBuffers_iff_entries :
    CopyFits FaultyBus.twi (device 0) ⟨fun _ => 0, []⟩ 7 entry 0 entries ∧
      PrintEnds FaultyBus.twi (device 0) ⟨fun _ => 0, []⟩ 7 0 entries := by
  obtain ⟨hcopy, hprint⟩ := recordBuffers_iff 0 ⟨fun _ => 0, []⟩ 7 entry 0 entries
    (Or.inl (by decide)) (by decide)
  exact ⟨hcopy.mpr (by decide +kernel), hprint.mpr ⟨29, by decide, by decide⟩⟩

/-- A string that is as long as the record. -/
def longEntry : CString := ⟨List.replicate 32 65, by decide⟩

/-- The terminator of a string of 32 characters is put behind `wr.data`, and an erased page is
printed on behind `rd.data`. -/
theorem recordBuffers_overrun :
    ¬CopyFits FaultyBus.twi (device 0) ⟨fun _ => 0, []⟩ 0 longEntry 0
        (erasedFaulty fun _ _ => true) ∧
      ¬PrintEnds FaultyBus.twi (device 0) ⟨fun _ => 0, []⟩ 0 0 (erasedFaulty fun _ _ => true) := by
  constructor
  · rw [copyFits_iff (Or.inl (by decide))]
    decide
  · rw [printEnds_iff (Or.inl (by decide)) (by decide)]
    rintro ⟨i, -, hzero⟩
    have herased :
        recordByte (erasedFaulty fun _ _ => true).bus ⟨fun _ => 0, []⟩ 0 0 i = 0xff := rfl
    rw [herased] at hzero
    exact absurd hzero (by decide)

end EmbeddedKernel.DataLog
