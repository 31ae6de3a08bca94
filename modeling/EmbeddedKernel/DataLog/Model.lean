import EmbeddedKernel.Iic.Driver
import EmbeddedKernel.Library.Run
import EmbeddedKernel.Library.Strings

/-!
# The data logger

Records of 32 bytes in an EEPROM, with the number of the next record as four
decimal digits at `L_ADDR`.  The functions run over an arbitrary two-wire unit.
Local buffers start with whatever the stack holds, and `Serial.print` of a buffer
without a terminator goes on with what follows it; both are parameters of the
functions, in a `Frame`.
-/

namespace EmbeddedKernel.DataLog

open Iic Library

def DEVLOCK : ℤ := 312

def L_ADDR : ℤ := 0xff80

def E2_END_ADDR : ℕ := 0xffff

/-- A string of C, without its terminator. -/
structure CString where
  chars : List UInt8
  nonzero : 0 ∉ chars

/-- What the stack holds: the initial contents of a local buffer, and what follows it up to
the next zero. -/
structure Frame where
  junk : ℕ → UInt8
  beyond : List UInt8

/-- The bus and what has been written to the serial port. -/
structure World (σ : Type*) where
  bus : σ
  serial : List UInt8

def ascii (s : String) : List UInt8 := s.toList.map fun c => UInt8.ofNat c.toNat

/-- The characters `Serial.print` writes for a buffer. -/
def printed (buffer beyond : List UInt8) : List UInt8 :=
  if 0 ∈ buffer then buffer.takeWhile (· ≠ 0) else buffer ++ beyond

namespace World

variable {σ : Type*}

def print (w : World σ) (text : List UInt8) : World σ := { w with serial := w.serial ++ text }

def println (w : World σ) (text : List UInt8) : World σ := w.print (text ++ [13, 10])

end World

/-- A buffer that starts with two address bytes. -/
def withAddress (high low : UInt8) (data : ℕ → UInt8) : ℕ → UInt8
  | 0 => high
  | 1 => low
  | i + 2 => data i

/-- A buffer into which a string has been copied. -/
def strcpy (s : CString) (junk : ℕ → UInt8) (i : ℕ) : UInt8 := (s.chars ++ [0]).getD i (junk i)

/-- `(_page * 32) >> 8`, where the shift is arithmetic, as `u_char`. -/
def pageHigh (page : ℤ) : UInt8 := Avr.toUChar (Avr.wrap16 (page * 32) / 256)

/-- `_page * 32` as `u_char`. -/
def pageLow (page : ℤ) : UInt8 := Avr.toUChar (Avr.wrap16 (page * 32))

structure LogData where
  iicAddrE2 : UInt8

def LogData.constructed (port_addr : UInt8) : LogData :=
  ⟨(0xa0 : UInt8) ||| (port_addr <<< (1 : UInt8))⟩

section

variable {σ : Type*}

/-- `LogData::ok`, which is true for an error. -/
def ok (a d : ℤ) (w : World σ) : World σ × Bool :=
  if a ≥ 2044 ∧ d ≠ DEVLOCK then
    (w.println (ascii ("ERROR: Invalid address!\nYou can only enter values between 0 and 2043, " ++
      "unless you have the devlock.")), true)
  else if d = DEVLOCK then (w.println (ascii "VALID: DEVLOCK"), false)
  else (w, false)

variable (twi : Twi σ) (d : LogData)

/-- `LogData::Write`, with `_page` for the name `_pg` it passes to `ok`. -/
def write (f : Frame) (page : ℤ) (data : CString) (dl : ℤ) (w : World σ) :
    Except Stop (World σ × ℤ) :=
  let (w, bad) := ok page dl w
  if bad = true then .ok (w, 1)
  else if data.chars.length + 1 > 32 then .error .overrun
  else
    let wr := withAddress (pageHigh page) (pageLow page) (strcpy data f.junk)
    let (bus, rc) := iicWrite twi d.iicAddrE2 wr 34 w.bus
    .ok ({ w with bus := bus }, rc)

def readPage (f : Frame) (pg dl : ℤ) (w : World σ) : World σ × ℤ :=
  let (w, bad) := ok pg dl w
  if bad = true then (w, 1)
  else
    let (bus, _) := iicWrite twi d.iicAddrE2 (withAddress (pageHigh pg) (pageLow pg) f.junk) 2 w.bus
    let (bus, data, rc) := iicRead twi d.iicAddrE2 f.junk 32 bus
    (World.print { w with bus := bus } (printed ((List.range 32).map data) f.beyond), rc)

/-- The loop of `ReadFT` and of `ReadAll`, with its index and the result so far; `none` if it
has not ended after `fuel` tests of its condition. -/
def readLoop {τ : Type*} (more : ℤ → Bool) (read : ℤ → τ → τ × ℤ) :
    ℕ → ℤ → ℤ → τ → Option (τ × ℤ)
  | 0, _, _, _ => none
  | fuel + 1, i, rc, w =>
      if more i = true then
        let (w, rc) := read i w
        readLoop more read fuel (Avr.wrap16 (i + 1)) rc w
      else some (w, rc)

/-- The body of `ReadFT`.  `E2_END_ADDR` is unsigned, so products are compared as unsigned. -/
def readRange {τ : Type*} (read : ℤ → τ → τ × ℤ) (fuel : ℕ) (saddr eaddr : ℤ) (w : τ) :
    Option (τ × ℤ) :=
  if Avr.toUnsigned (Avr.wrap16 (eaddr * 32)) > E2_END_ADDR then some (w, 1)
  else if Avr.toUnsigned (Avr.wrap16 (saddr * 32)) > E2_END_ADDR then some (w, 1)
  else if saddr > eaddr then some (w, 1)
  else if Avr.toUnsigned (Avr.wrap16 (saddr * 32)) > E2_END_ADDR - 32 then some (w, 1)
  else readLoop (fun i => i ≤ eaddr) read fuel saddr 1 w

/-- `LogData::ReadFT`, which does not pass its devlock on.  `frames i` is the frame of the call
for page `i`. -/
def readFT (frames : ℤ → Frame) (fuel : ℕ) (saddr eaddr _dl : ℤ) (w : World σ) :
    Option (World σ × ℤ) :=
  readRange (fun i => readPage twi d (frames i) i 0) fuel saddr eaddr w

def readAll (frames : ℤ → Frame) (fuel : ℕ) (w : World σ) : Option (World σ × ℤ) :=
  readLoop (fun i => i < 2044) (fun i => readPage twi d (frames i) i 0) fuel 0 0 w

/-- The value of four decimal digits, computed in `int`. -/
def decode (data : ℕ → UInt8) : ℤ :=
  let v := Avr.wrap16 ((Avr.ofChar (data 0) - 48) * 1000)
  let v := Avr.wrap16 (v + Avr.wrap16 ((Avr.ofChar (data 1) - 48) * 100))
  let v := Avr.wrap16 (v + Avr.wrap16 ((Avr.ofChar (data 2) - 48) * 10))
  Avr.wrap16 (v + (Avr.ofChar (data 3) - 48))

def getAddr (f : Frame) (w : World σ) : World σ × ℤ :=
  let addr := withAddress (Avr.toUChar (L_ADDR / 256)) (Avr.toUChar L_ADDR) f.junk
  let (bus, _) := iicWrite twi d.iicAddrE2 addr 2 w.bus
  let (bus, data, _) := iicRead twi d.iicAddrE2 f.junk 4 bus
  (World.println { w with bus := bus } (printed ((List.range 4).map data) f.beyond), decode data)

/-- The counter after `caddr`. -/
def nextAddr (caddr : ℤ) : ℤ :=
  if Avr.wrap16 (caddr + 1) ≥ 2044 then 0 else Avr.wrap16 (caddr + 1)

/-- The four decimal digits of the counter, in ASCII. -/
def encode (caddr : ℤ) : ℕ → UInt8
  | 0 => Avr.toUChar ((((caddr.tdiv 10).tdiv 10).tdiv 10).tmod 10 + 48)
  | 1 => Avr.toUChar (((caddr.tdiv 10).tdiv 10).tmod 10 + 48)
  | 2 => Avr.toUChar ((caddr.tdiv 10).tmod 10 + 48)
  | _ => Avr.toUChar (caddr.tmod 10 + 48)

def updAddr (f : Frame) (caddr : ℤ) (w : World σ) : World σ :=
  let dbuff := encode (nextAddr caddr)
  let w := w.print (ascii "Update Address - final upd value: ")
  let w := w.println (printed ((List.range 4).map dbuff) f.beyond)
  let upd := withAddress (Avr.toUChar (L_ADDR / 256)) (Avr.toUChar L_ADDR) dbuff
  let (bus, _) := iicWrite twi d.iicAddrE2 upd 6 w.bus
  { w with bus := bus }

/-- The string `"0000"`. -/
def zeros : CString := ⟨[48, 48, 48, 48], by decide⟩

def reset (f : Frame) (dl : ℤ) (w : World σ) : Except Stop (World σ) := do
  let (w, _) ← write twi d f 2044 zeros dl w
  .ok w

/-- The frames of the functions `WriteAuto` calls. -/
structure Frames where
  getAddr : Frame
  write : Frame
  updAddr : Frame

def writeAuto (fs : Frames) (data : CString) (w : World σ) : Except Stop (World σ × ℤ) := do
  let (w, a) := getAddr twi d fs.getAddr w
  let w := (w.print (ascii "WriteAuto - addr1: ")).println (ascii (toString a))
  let a := if a ≥ 2044 then 0 else a
  let w := (w.print (ascii "WriteAuto - addr2: ")).println (ascii (toString a))
  let (w, rc) ← write twi d fs.write a data 0 w
  let w := (w.print (ascii "WriteAuto - writing result: ")).println (ascii (toString rc))
  let w := if rc = 0 then updAddr twi d fs.updAddr a w else w
  .ok (w, rc)

end

/-! ## Addresses and strings -/

/-- The address of a record, for any number. -/
theorem pageHigh_pageLow_emod (page : ℤ) :
    (pageHigh page).toNat * 256 + (pageLow page).toNat = 32 * (page % 2048).toNat := by
  have hhigh := Avr.toNat_toUChar (Avr.wrap16 (page * 32) / 256)
  have hlow := Avr.toNat_toUChar (Avr.wrap16 (page * 32))
  rw [← pageHigh] at hhigh
  rw [← pageLow] at hlow
  unfold Avr.wrap16 at hhigh hlow
  omega

theorem pageHigh_pageLow {p : ℕ} (hp : p ≤ 2047) :
    (pageHigh p).toNat * 256 + (pageLow p).toNat = 32 * p := by
  have haddr := pageHigh_pageLow_emod p
  omega

theorem ok_accept {σ : Type*} {page dl : ℤ} (w : World σ) (hpage : page < 2044)
    (hdl : dl ≠ DEVLOCK) : ok page dl w = (w, false) := by
  have hsmall : ¬(page ≥ 2044 ∧ dl ≠ DEVLOCK) := by omega
  unfold ok
  rw [if_neg hsmall, if_neg hdl]

/-- The memory from `src` on holds the string with its terminator. -/
structure CString.At (s : CString) (src : ℕ → UInt8) : Prop where
  chars : (List.range s.chars.length).map src = s.chars
  terminator : src s.chars.length = 0

theorem CString.At.endsAt {s : CString} {src : ℕ → UInt8} (h : s.At src) :
    EndsAt src s.chars.length := by
  refine ⟨h.terminator, fun i hi hzero => s.nonzero ?_⟩
  rw [← h.chars, ← hzero]
  exact List.mem_map.mpr ⟨i, List.mem_range.mpr hi, rfl⟩

theorem strcpy_at (s : CString) (junk : ℕ → UInt8) : s.At (strcpy s junk) := by
  constructor
  · apply List.ext_getElem (by simp)
    intro i hi hi'
    simp [strcpy, List.getElem?_append_left hi', hi']
  · simp [strcpy]

/-- A buffer with a zero is printed up to the first one. -/
theorem printed_of_endsAt {buffer : ℕ → UInt8} {n k : ℕ} (h : EndsAt buffer n) (hk : n < k)
    (beyond : List UInt8) :
    printed ((List.range k).map buffer) beyond = (List.range n).map buffer := by
  obtain ⟨rest, hrest⟩ := h.map_range hk
  have hzero : 0 ∈ (List.range k).map buffer := by simp [hrest]
  rw [printed, if_pos hzero, h.takeWhile_map_range hk]

/-- A record that holds a string prints as that string. -/
theorem printed_strcpy {s : CString} (hs : s.chars.length ≤ 31) (junk : ℕ → UInt8)
    (beyond : List UInt8) : printed ((List.range 32).map (strcpy s junk)) beyond = s.chars := by
  have hat := strcpy_at s junk
  rw [printed_of_endsAt hat.endsAt (by omega), hat.chars]

end EmbeddedKernel.DataLog
