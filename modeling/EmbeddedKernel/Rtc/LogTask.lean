import EmbeddedKernel.DataLog.Model
import EmbeddedKernel.Timer.Model

/-!
# The clock

`SetDate` checks a date and a time and writes them to the registers of the clock,
in binary coded decimal with control bits.  `LogToSerial` reads the registers,
converts them back and prints a line.  The `%s` of the weekday gets the variable
`weekday`, which is a `char` and keeps one byte of the address of the name.
-/

namespace EmbeddedKernel.Rtc

open Iic Library Timer

open DataLog (World CString ascii)

def IIC_ADDR_RTC : UInt8 := 0xde

/-- `bitshift_bcd`, as it is stored in a register. -/
def bitshiftBcd (n : ℤ) : UInt8 :=
  Avr.toUChar (n.tmod 10) ||| (Avr.toUChar (n.tdiv 10) <<< (4 : UInt8))

def bitshiftDec (n m : UInt8) : ℕ := (n &&& 0x0f).toNat + 10 * ((n >>> 4) &&& m).toNat

structure RtcDateRegs where
  sec : UInt8
  min : UInt8
  hour : UInt8
  wkday : UInt8
  date : UInt8
  month : UInt8
  year : UInt8
  deriving DecidableEq

namespace RtcDateRegs

def bytes (r : RtcDateRegs) : List UInt8 :=
  [r.sec, r.min, r.hour, r.wkday, r.date, r.month, r.year]

def ofBytes (data : ℕ → UInt8) : RtcDateRegs :=
  ⟨data 0, data 1, data 2, data 3, data 4, data 5, data 6⟩

end RtcDateRegs

/-! ## Setting the clock -/

/-- The arguments of `SetDate`. -/
structure DateArgs where
  dow : ℤ
  day : ℤ
  month : ℤ
  year : ℤ
  hrs : ℤ
  mins : ℤ
  secs : ℤ
  is24hr : Bool
  ampm : Bool
  deriving DecidableEq

def maxmonthdays : List ℤ := [31, 29, 31, 30, 31, 30, 31, 31, 30, 31, 30, 31]

namespace DateArgs

/-- The checks of `SetDate`, each of which leaves its loop. -/
def accepted (a : DateArgs) : Bool :=
  if a.dow < 1 ∨ a.dow > 7 then false
  else if a.month < 1 ∨ a.month > 12 then false
  else if a.day < 1 ∨ a.day > maxmonthdays.getD (a.month - 1).toNat 0 then false
  else if a.year < 0 ∨ a.year > 99 then false
  else if a.is24hr = false ∧ (a.hrs < 1 ∨ a.hrs > 12) then false
  else if a.hrs < 0 ∨ a.hrs > 23 then false
  else if a.mins < 0 ∨ a.mins > 59 then false
  else if a.secs < 0 ∨ a.secs > 59 then false
  else true

def regs (a : DateArgs) : RtcDateRegs where
  sec := bitshiftBcd a.secs ||| 0x80
  min := bitshiftBcd a.mins ||| 0x80
  hour :=
    if a.is24hr then bitshiftBcd a.hrs
    else if a.ampm then bitshiftBcd a.hrs ||| 0x40
    else bitshiftBcd a.hrs ||| 0x60
  wkday := Avr.toUChar a.dow ||| 0x20
  date := bitshiftBcd a.day
  month := bitshiftBcd a.month
  year := bitshiftBcd a.year

/-- The register address and the registers, as `SetDate` writes them. -/
def buffer (a : DateArgs) (i : ℕ) : UInt8 := (0 :: a.regs.bytes).getD i 0

end DateArgs

section

variable {σ : Type*} (twi : Twi σ)

/-- `LogTask::SetDate`, which returns 0 for arguments that it does not accept. -/
def setDate (a : DateArgs) (s : σ) : σ × ℤ :=
  if a.accepted = true then iicWrite twi IIC_ADDR_RTC a.buffer 8 s else (s, 0)

end

/-! ## Reading the clock -/

/-- The variables of `LogToSerial`, with the index into `days` for the weekday. -/
structure LogDate where
  seconds : ℕ
  minutes : ℕ
  hours : ℕ
  day : ℕ
  month : ℕ
  year : ℕ
  weekday : ℕ
  amIndicator : String
  deriving DecidableEq

/-- The conversion of the registers. -/
def RtcDateRegs.convert (r : RtcDateRegs) : Except Stop LogDate :=
  let is12hr := r.hour &&& 0x40 ≠ 0
  let ampm := r.hour &&& 0x20 ≠ 0
  let index : ℤ := (r.wkday &&& 0x0f).toNat - 1
  if 0 ≤ index ∧ index < 7 then
    .ok {
      seconds := bitshiftDec r.sec 0x07
      minutes := bitshiftDec r.min 0x07
      hours := if is12hr then bitshiftDec r.hour 0x01 else bitshiftDec r.hour 0x07
      day := bitshiftDec r.date 0x07
      month := bitshiftDec r.month 0x07
      year := (r.year &&& 0x0f).toNat + 10 * (r.year >>> 4).toNat
      weekday := index.toNat
      amIndicator := if is12hr then if ampm then "am" else "pm" else "" }
  else .error (.badIndex index)

def days : List String :=
  ["Sunday", "Monday", "Tuesday", "Wednesday", "Thursday", "Friday", "Saturday"]

/-- The memory that `%s` reads from, with the addresses of the names of the days. -/
structure Strings where
  stringAt : Addr → List UInt8
  daysAt : ℕ → Addr
  days : ∀ i < 7, stringAt (daysAt i) = ascii (Rtc.days.getD i "")

/-- What `%02d` writes for a number that is not negative. -/
def twoDigits (n : ℕ) : String := if n < 10 then "0" ++ toString n else toString n

/-- The value of `weekday` as the pointer that `%s` takes it for. -/
def weekdayAddr (m : Strings) (d : LogDate) : Addr :=
  UInt16.ofNat (Avr.toUnsigned (Avr.ofChar (Avr.toUChar (m.daysAt d.weekday).toNat)))

/-- The string that `sprintf` makes. -/
def logstring (m : Strings) (d : LogDate) (message : CString) : List UInt8 :=
  m.stringAt (weekdayAddr m d) ++
    ascii (" " ++ toString d.hours ++ ":" ++ twoDigits d.minutes ++ ":" ++ twoDigits d.seconds ++
      " " ++ d.amIndicator ++ " " ++ toString d.day ++ "/" ++ twoDigits d.month ++ "/" ++
      twoDigits d.year ++ ": ") ++
    message.chars.take 127 ++ ascii "\n"

section

variable {σ : Type} (twi : Twi σ)

/-- `LogToSerial` up to the conversion. `junk` is what the stack holds in `date`. -/
def readDate (junk : ℕ → UInt8) (s : σ) : Except Stop (σ × LogDate) := do
  let (s, _) := iicWrite twi IIC_ADDR_RTC (fun _ => 0) 1 s
  let (s, data, _) := iicRead twi IIC_ADDR_RTC junk 7 s
  let date ← (RtcDateRegs.ofBytes data).convert
  .ok (s, date)

/-- `LogTask::LogToSerial`; `logstring` has 200 bytes. -/
def logToSerial (m : Strings) (junk : ℕ → UInt8) (message : CString) (w : World σ) :
    Except Stop (World σ) := do
  let (bus, date) ← readDate twi junk w.bus
  let line := logstring m date message
  if line.length + 1 > 200 then .error .overrun
  else .ok (World.print { w with bus := bus } line)

/-! ## The task -/

/-- The constructor, which also starts the clock. -/
def constructed (timestamp : ℤ) (now : UInt32) (s : σ) : OSTimer × σ :=
  (.constructed (UInt32.ofNat (timestamp % 2 ^ 32).toNat) now,
    (iicWrite twi IIC_ADDR_RTC (fun _ => 0) 2 s).1)

def logMessage : CString := ⟨ascii "log message", by decide⟩

/-- `LogTask::TaskLoop`, with the readings of `isExpired` and of `Restart`. -/
def taskLoop (m : Strings) (junk : ℕ → UInt8) (now restarted : UInt32) (tm : OSTimer)
    (w : World σ) : Except Stop (OSTimer × World σ) :=
  if tm.isExpired now then do
    let w ← logToSerial twi m junk logMessage w
    .ok (tm.restart restarted, w)
  else .ok (tm, w)

end

end EmbeddedKernel.Rtc
