import EmbeddedKernel.Iic.Driver

/-!
# EEPROMs on the bus

Up to eight EEPROMs of 64 KiB, told apart by their port address.  They acknowledge
every byte.  A write sets the address pointer from its first two bytes and stores
the others from there on, wrapping within a physical page of 128 bytes; a read
returns bytes from the pointer on.
-/

namespace EmbeddedKernel.DataLog

open Iic

structure Eeprom where
  memory : ℕ → UInt8
  pointer : ℕ

namespace Eeprom

/-- The next address within the physical page. -/
def nextInPage (p : ℕ) : ℕ := p / 128 * 128 + (p + 1) % 128

def store (e : Eeprom) (b : UInt8) : Eeprom where
  memory := Function.update e.memory e.pointer b
  pointer := nextInPage e.pointer

def storeList (e : Eeprom) (bs : List UInt8) : Eeprom := bs.foldl store e

def setPointer (e : Eeprom) (high low : UInt8) : Eeprom :=
  { e with pointer := high.toNat * 256 + low.toNat }

def skip (e : Eeprom) : Eeprom := { e with pointer := (e.pointer + 1) % 65536 }

end Eeprom

/-- What the bus expects next. -/
inductive Phase
  | idle
  | started
  | addressHigh (port : Fin 8)
  | addressLow (port : Fin 8) (high : UInt8)
  | writing (port : Fin 8)
  | reading (port : Fin 8)
  | unanswered
  deriving DecidableEq

structure Bus where
  eeprom : Fin 8 → Eeprom
  phase : Phase

namespace Bus

def setEeprom (b : Bus) (port : Fin 8) (e : Eeprom) (phase : Phase) : Bus :=
  ⟨Function.update b.eeprom port e, phase⟩

/-- The port of a device address. -/
def portOf (addr : UInt8) : Fin 8 := ⟨addr.toNat / 2 % 8, Nat.mod_lt _ (by decide)⟩

/-- The address byte after a START, which the EEPROMs answer if it is one of theirs. -/
def select (b : Bus) (addr : UInt8) : UInt8 × Bus :=
  if addr &&& 0xf0 = 0xa0 then
    if addr &&& 0x01 = 0 then (0x18, { b with phase := .addressHigh (portOf addr) })
    else (0x40, { b with phase := .reading (portOf addr) })
  else if addr &&& 0x01 = 0 then (0x20, { b with phase := .unanswered })
  else (0x48, { b with phase := .unanswered })

def send (byte : UInt8) (b : Bus) : UInt8 × Bus :=
  match b.phase with
  | .started => b.select byte
  | .addressHigh port => (0x28, { b with phase := .addressLow port byte })
  | .addressLow port high =>
      (0x28, b.setEeprom port ((b.eeprom port).setPointer high byte) (.writing port))
  | .writing port => (0x28, b.setEeprom port ((b.eeprom port).store byte) (.writing port))
  | _ => (0xf8, b)

def receive (ack : Bool) (b : Bus) : UInt8 × UInt8 × Bus :=
  match b.phase with
  | .reading port =>
      (if ack then 0x50 else 0x58, (b.eeprom port).memory (b.eeprom port).pointer,
        b.setEeprom port (b.eeprom port).skip (.reading port))
  | _ => (0xf8, 0xff, b)

def twi : Twi Bus where
  start b := (0x08, { b with phase := .started })
  send := send
  receive := receive
  stop b := { b with phase := .idle }

/-- The contents of the EEPROM at a port. -/
def memory (b : Bus) (port : Fin 8) : ℕ → UInt8 := (b.eeprom port).memory

@[simp] theorem setEeprom_eeprom_self (b : Bus) (port : Fin 8) (e : Eeprom) (phase : Phase) :
    (b.setEeprom port e phase).eeprom port = e := by
  simp [setEeprom]

theorem setEeprom_eeprom_of_ne (b : Bus) {port q : Fin 8} (e : Eeprom) (phase : Phase)
    (hq : q ≠ port) : (b.setEeprom port e phase).eeprom q = b.eeprom q := by
  simp [setEeprom, hq]

@[simp] theorem setEeprom_setEeprom (b : Bus) (port : Fin 8) (e e' : Eeprom)
    (phase phase' : Phase) :
    (b.setEeprom port e phase).setEeprom port e' phase' = b.setEeprom port e' phase' := by
  simp [setEeprom]

end Bus

/-! ## Contents after a write -/

namespace Eeprom

/-- Bytes that fit into the physical page are stored at consecutive addresses. -/
theorem memory_storeList {e : Eeprom} {bs : List UInt8}
    (hfit : e.pointer % 128 + bs.length ≤ 128) (a : ℕ) :
    (e.storeList bs).memory a =
      if e.pointer ≤ a ∧ a < e.pointer + bs.length then bs.getD (a - e.pointer) 0
      else e.memory a := by
  induction bs generalizing e with
  | nil =>
      have hnone : ¬(e.pointer ≤ a ∧ a < e.pointer + 0) := by omega
      rw [List.length_nil, if_neg hnone]
      rfl
  | cons b bs ih =>
      rw [List.length_cons] at hfit
      have hcons : e.storeList (b :: bs) = (e.store b).storeList bs := rfl
      by_cases hnil : bs = []
      · subst hnil
        rw [hcons]
        by_cases ha : a = e.pointer
        · subst ha
          simp [storeList, store]
        · have hout : ¬(e.pointer ≤ a ∧ a < e.pointer + 1) := by omega
          rw [List.length_singleton, if_neg hout]
          simp [storeList, store, ha]
      · have hpos : 0 < bs.length := List.length_pos_of_ne_nil hnil
        have hnext : (e.store b).pointer = e.pointer + 1 := by
          simp only [store, nextInPage]
          omega
        rw [hcons, ih (by omega), hnext, List.length_cons]
        by_cases ha : a = e.pointer
        · subst ha
          have hout : ¬(e.pointer + 1 ≤ e.pointer ∧ e.pointer < e.pointer + 1 + bs.length) := by
            omega
          have hin : e.pointer ≤ e.pointer ∧ e.pointer < e.pointer + (bs.length + 1) := by omega
          rw [if_neg hout, if_pos hin]
          simp [store]
        · by_cases hin : e.pointer + 1 ≤ a ∧ a < e.pointer + 1 + bs.length
          · have hin' : e.pointer ≤ a ∧ a < e.pointer + (bs.length + 1) := by omega
            rw [if_pos hin, if_pos hin']
            have hsub : a - e.pointer = (a - (e.pointer + 1)) + 1 := by omega
            rw [hsub, List.getD_cons_succ]
          · have hout : ¬(e.pointer ≤ a ∧ a < e.pointer + (bs.length + 1)) := by omega
            rw [if_neg hin, if_neg hout]
            simp [store, ha]

end Eeprom

/-! ## Transfers -/

namespace Bus

/-- The device address of a port. -/
def address (port : Fin 8) : UInt8 := (0xa0 : UInt8) ||| (UInt8.ofNat port <<< (1 : UInt8))

theorem sendList_writing {b : Bus} {port : Fin 8} (bs : List UInt8)
    (hp : b.phase = .writing port) :
    sendList twi bs b =
      (b.setEeprom port ((b.eeprom port).storeList bs) (.writing port), 0) := by
  induction bs generalizing b with
  | nil =>
      obtain ⟨eeprom, phase⟩ := b
      simp only at hp
      subst hp
      simp [sendList, Eeprom.storeList, setEeprom]
  | cons x bs ih =>
      have hack : ¬((0x28 : UInt8) &&& 0xf8 ≠ 0x28) := by decide
      have hsend : twi.send x b =
          (0x28, b.setEeprom port ((b.eeprom port).store x) (.writing port)) := by
        simp [twi, send, hp]
      rw [sendList, hsend]
      simp only [hack, if_false]
      rw [ih rfl, setEeprom_eeprom_self, setEeprom_setEeprom]
      rfl

theorem select_write (b : Bus) (port : Fin 8) :
    b.select (address port &&& 0xfe) = (0x18, { b with phase := .addressHigh port }) := by
  have hport : ∀ port : Fin 8, (address port &&& 0xfe) &&& 0xf0 = 0xa0 ∧
      (address port &&& 0xfe) &&& 0x01 = 0 ∧ portOf (address port &&& 0xfe) = port := by
    decide
  obtain ⟨hfamily, hwrite, hself⟩ := hport port
  simp [select, hfamily, hwrite, hself]

theorem select_read (b : Bus) (port : Fin 8) :
    b.select (address port ||| 0x01) = (0x40, { b with phase := .reading port }) := by
  have hport : ∀ port : Fin 8, (address port ||| 0x01) &&& 0xf0 = 0xa0 ∧
      (address port ||| 0x01) &&& 0x01 ≠ 0 ∧ portOf (address port ||| 0x01) = port := by
    decide
  obtain ⟨hfamily, hread, hself⟩ := hport port
  simp [select, hfamily, hread, hself]

/-- A write to an EEPROM is acknowledged; its first two bytes are the address. -/
theorem iicWrite_eq {b : Bus} {port : Fin 8} {dbytes : ℕ → UInt8} {n : UInt16} {bs : List UInt8}
    (hbytes : (List.range n.toNat).map dbytes = dbytes 0 :: dbytes 1 :: bs) :
    iicWrite twi (address port) dbytes n b =
      (b.setEeprom port
        (((b.eeprom port).setPointer (dbytes 0) (dbytes 1)).storeList bs) .idle, 0) := by
  have hstart : ¬(0x08 : UInt8) &&& 0x08 = 0 := by decide
  have haddr : (0x18 : UInt8) &&& 0xf8 = 0x18 := by decide
  have hack : ¬((0x28 : UInt8) &&& 0xf8 ≠ 0x28) := by decide
  have hsend : (twi.send (address port &&& 0xfe) { b with phase := .started }) =
      (0x18, { b with phase := .addressHigh port }) := select_write _ port
  rw [Iic.iicWrite_eq]
  simp only [show twi.start b = (0x08, { b with phase := .started }) from rfl, hstart, ne_eq,
    not_false_eq_true, if_true, hsend, haddr, hbytes]
  have hlist : sendList twi (dbytes 0 :: dbytes 1 :: bs) { b with phase := .addressHigh port } =
      sendList twi bs (b.setEeprom port ((b.eeprom port).setPointer (dbytes 0) (dbytes 1))
        (.writing port)) := by
    simp only [sendList, twi, send, hack, if_false]
    rfl
  rw [hlist, sendList_writing bs rfl]
  simp only [setEeprom_eeprom_self, setEeprom_setEeprom]
  rfl

/-- Receiving from an EEPROM fills the buffer from position `i` on; the pointer wraps at the
end of the memory. -/
theorem receiveList_reading {b : Bus} {port : Fin 8} (n i : ℕ) (dbytes : ℕ → UInt8)
    (hp : b.phase = .reading port) :
    ∃ pointer buffer, receiveList twi n i dbytes b =
        (b.setEeprom port { b.eeprom port with pointer := pointer } (.reading port), buffer, 0) ∧
      ((b.eeprom port).pointer < 65536 → ∀ j < n,
        buffer (i + j) = (b.eeprom port).memory (((b.eeprom port).pointer + j) % 65536)) ∧
      ∀ j < i, buffer j = dbytes j := by
  induction n generalizing b i dbytes with
  | zero =>
      obtain ⟨eeprom, phase⟩ := b
      simp only at hp
      subst hp
      refine ⟨(eeprom port).pointer, dbytes, ?_, by omega, fun _ _ => rfl⟩
      simp [receiveList, setEeprom]
  | succ n ih =>
      have hstatus : ∀ ack : Bool, (if ack then (0x50 : UInt8) else 0x58) &&& 0xf8 = 0x50 ∨
          (if ack then (0x50 : UInt8) else 0x58) &&& 0xf8 = 0x58 := by decide
      have hreceive : ∀ ack, twi.receive ack b = (if ack then 0x50 else 0x58,
          (b.eeprom port).memory (b.eeprom port).pointer,
          b.setEeprom port (b.eeprom port).skip (.reading port)) := by
        intro ack
        simp [twi, receive, hp]
      rw [receiveList, hreceive]
      simp only [hstatus, if_true]
      obtain ⟨pointer, buffer, hlist, hread, hold⟩ :=
        ih (b := b.setEeprom port (b.eeprom port).skip (.reading port)) (i + 1)
          (Function.update dbytes i ((b.eeprom port).memory (b.eeprom port).pointer)) rfl
      refine ⟨pointer, buffer, ?_, ?_, ?_⟩
      · rw [hlist, setEeprom_eeprom_self, setEeprom_setEeprom]
        rfl
      · intro hpointer j hj
        cases j with
        | zero =>
            rw [Nat.add_zero, hold i (Nat.lt_succ_self i), Function.update_self, Nat.add_zero,
              Nat.mod_eq_of_lt hpointer]
        | succ j =>
            have hnext : ((b.eeprom port).skip.pointer + j) % 65536 =
                ((b.eeprom port).pointer + (j + 1)) % 65536 := by
              simp only [Eeprom.skip]
              omega
            have hskip : (b.eeprom port).skip.pointer < 65536 := Nat.mod_lt _ (by decide)
            have hrec := hread (by simpa using hskip) j (by omega)
            rw [setEeprom_eeprom_self, hnext] at hrec
            rw [show i + (j + 1) = i + 1 + j by omega, hrec]
            rfl
      · intro j hj
        rw [hold j (by omega), Function.update_of_ne (by omega)]

theorem memory_receive (ack : Bool) (b : Bus) (q : Fin 8) :
    (twi.receive ack b).2.2.memory q = b.memory q := by
  simp only [twi, receive]
  split
  · next port _ =>
      rcases eq_or_ne q port with rfl | hq
      · rw [memory, setEeprom_eeprom_self]
        rfl
      · rw [memory, setEeprom_eeprom_of_ne _ _ _ hq]
        rfl
  · rfl

/-- Receiving does not change what is stored. -/
theorem memory_receiveList (n i : ℕ) (dbytes : ℕ → UInt8) (b : Bus) (q : Fin 8) :
    (receiveList twi n i dbytes b).1.memory q = b.memory q := by
  induction n generalizing i dbytes b with
  | zero => rfl
  | succ n ih =>
      simp only [receiveList]
      split_ifs
      · rw [ih, memory_receive]
      · exact memory_receive _ b q

/-- A read from an EEPROM is acknowledged and returns the bytes from the pointer on. -/
theorem iicRead_eq {b : Bus} (port : Fin 8) (dbytes : ℕ → UInt8) {n : UInt16}
    (hpointer : (b.eeprom port).pointer < 65536) :
    ∃ pointer buffer, iicRead twi (address port) dbytes n b =
        (b.setEeprom port { b.eeprom port with pointer := pointer } .idle, buffer, 0) ∧
      ∀ j < n.toNat,
        buffer j = (b.eeprom port).memory (((b.eeprom port).pointer + j) % 65536) := by
  have hstart : ¬(0x08 : UInt8) &&& 0x08 = 0 := by decide
  have haddr : (0x40 : UInt8) &&& 0xf8 = 0x40 := by decide
  have hsend : (twi.send (address port ||| 0x01) { b with phase := .started }) =
      (0x40, { b with phase := .reading port }) := select_read _ port
  obtain ⟨pointer, buffer, hlist, hread, -⟩ :=
    receiveList_reading (b := { b with phase := .reading port }) n.toNat 0 dbytes rfl
  refine ⟨pointer, buffer, ?_, fun j hj => ?_⟩
  · rw [Iic.iicRead_eq]
    simp only [show twi.start b = (0x08, { b with phase := .started }) from rfl, hstart, ne_eq,
      not_false_eq_true, if_true, hsend, haddr, hlist]
    rfl
  · rw [← hread hpointer j hj, Nat.zero_add]

end Bus

end EmbeddedKernel.DataLog
