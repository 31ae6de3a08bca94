import EmbeddedKernel.Rtc.LogTask

/-!
# Setting and reading the clock

`LogToSerial` recovers the numbers that `SetDate` has written.  The two do not
agree on the bit for the afternoon in the 12-hour format.
-/

namespace EmbeddedKernel.Rtc

open Iic Library

open DataLog (World CString ascii)

/-! ## Binary coded decimal -/

/-- Lift a statement about all small naturals to the integers of that range. -/
theorem forall_int_of_forall_fin {n : ℕ} {P : ℤ → Prop} (h : ∀ k : Fin n, P k) {x : ℤ}
    (hpos : 0 ≤ x) (hlt : x < n) : P x := by
  obtain ⟨k, rfl⟩ := Int.eq_ofNat_of_zero_le hpos
  exact h ⟨k, by omega⟩

theorem bitshiftDec_sixty {x : ℤ} (hpos : 0 ≤ x) (hlt : x < 60) :
    (bitshiftDec (bitshiftBcd x ||| 0x80) 0x07 : ℤ) = x :=
  forall_int_of_forall_fin (n := 60)
    (P := fun x => (bitshiftDec (bitshiftBcd x ||| 0x80) 0x07 : ℤ) = x) (by decide) hpos hlt

theorem bitshiftDec_bitshiftBcd {x : ℤ} (hpos : 0 ≤ x) (hlt : x < 80) :
    (bitshiftDec (bitshiftBcd x) 0x07 : ℤ) = x :=
  forall_int_of_forall_fin (n := 80)
    (P := fun x => (bitshiftDec (bitshiftBcd x) 0x07 : ℤ) = x) (by decide) hpos hlt

theorem year_bitshiftBcd {x : ℤ} (hpos : 0 ≤ x) (hlt : x < 100) :
    (((bitshiftBcd x &&& 0x0f).toNat + 10 * (bitshiftBcd x >>> 4).toNat : ℕ) : ℤ) = x :=
  forall_int_of_forall_fin (n := 100)
    (P := fun x =>
      (((bitshiftBcd x &&& 0x0f).toNat + 10 * (bitshiftBcd x >>> 4).toNat : ℕ) : ℤ) = x)
    (by decide) hpos hlt

theorem weekday_or {x : ℤ} (hpos : 0 ≤ x) (hlt : x < 8) :
    (((Avr.toUChar x ||| 0x20) &&& 0x0f).toNat : ℤ) = x :=
  forall_int_of_forall_fin (n := 8)
    (P := fun x => (((Avr.toUChar x ||| 0x20) &&& 0x0f).toNat : ℤ) = x) (by decide) hpos hlt

/-- Hours up to 23 leave the bit of the 12-hour format clear. -/
theorem hour_and_of_lt {x : ℤ} (hpos : 0 ≤ x) (hlt : x < 24) : bitshiftBcd x &&& 0x40 = 0 :=
  forall_int_of_forall_fin (n := 24) (P := fun x => bitshiftBcd x &&& 0x40 = 0) (by decide) hpos hlt

theorem hour_am {x : ℤ} (hpos : 0 ≤ x) (hlt : x < 13) :
    (bitshiftBcd x ||| 0x40) &&& 0x40 ≠ 0 ∧ (bitshiftBcd x ||| 0x40) &&& 0x20 = 0 ∧
      (bitshiftDec (bitshiftBcd x ||| 0x40) 0x01 : ℤ) = x :=
  forall_int_of_forall_fin (n := 13)
    (P := fun x => (bitshiftBcd x ||| 0x40) &&& 0x40 ≠ 0 ∧ (bitshiftBcd x ||| 0x40) &&& 0x20 = 0 ∧
      (bitshiftDec (bitshiftBcd x ||| 0x40) 0x01 : ℤ) = x) (by decide) hpos hlt

theorem hour_pm {x : ℤ} (hpos : 0 ≤ x) (hlt : x < 13) :
    (bitshiftBcd x ||| 0x60) &&& 0x40 ≠ 0 ∧ (bitshiftBcd x ||| 0x60) &&& 0x20 ≠ 0 ∧
      (bitshiftDec (bitshiftBcd x ||| 0x60) 0x01 : ℤ) = x :=
  forall_int_of_forall_fin (n := 13)
    (P := fun x => (bitshiftBcd x ||| 0x60) &&& 0x40 ≠ 0 ∧ (bitshiftBcd x ||| 0x60) &&& 0x20 ≠ 0 ∧
      (bitshiftDec (bitshiftBcd x ||| 0x60) 0x01 : ℤ) = x) (by decide) hpos hlt

/-! ## The whole date -/

/-- What the checks of `SetDate` ensure. -/
structure InRange (a : DateArgs) : Prop where
  dow : 1 ≤ a.dow ∧ a.dow ≤ 7
  month : 1 ≤ a.month ∧ a.month ≤ 12
  day : 1 ≤ a.day ∧ a.day ≤ 31
  year : 0 ≤ a.year ∧ a.year ≤ 99
  hrs : 0 ≤ a.hrs ∧ a.hrs ≤ 23
  hrs12 : a.is24hr = false → 1 ≤ a.hrs ∧ a.hrs ≤ 12
  mins : 0 ≤ a.mins ∧ a.mins ≤ 59
  secs : 0 ≤ a.secs ∧ a.secs ≤ 59

theorem maxmonthdays_le (i : ℕ) : maxmonthdays.getD i 0 ≤ 31 := by
  by_cases hi : i < 12
  · interval_cases i <;> decide
  · rw [List.getD_eq_default _ _ (by simpa [maxmonthdays] using hi)]
    decide

theorem inRange_of_accepted {a : DateArgs} (h : a.accepted = true) : InRange a := by
  have hmax := maxmonthdays_le (a.month - 1).toNat
  unfold DateArgs.accepted at h
  split_ifs at h with hdow hmonth hday hyear hhrs12 hhrs hmins hsecs
  refine ⟨by omega, by omega, by omega, by omega, by omega, fun h24 => ?_, by omega, by omega⟩
  by_contra hout
  exact hhrs12 ⟨h24, by omega⟩

/-- What `LogToSerial` prints for the half of the day. -/
def printedIndicator (a : DateArgs) : String :=
  if a.is24hr then "" else if a.ampm then "pm" else "am"

/-- The hours in all three formats. -/
theorem convert_hours {a : DateArgs} (h : InRange a) :
    (((if a.regs.hour &&& 0x40 ≠ 0 then bitshiftDec a.regs.hour 0x01
      else bitshiftDec a.regs.hour 0x07 : ℕ) : ℤ) = a.hrs) ∧
    (if a.regs.hour &&& 0x40 ≠ 0 then if a.regs.hour &&& 0x20 ≠ 0 then "am" else "pm" else "") =
      printedIndicator a := by
  have hhrs := h.hrs
  unfold printedIndicator DateArgs.regs
  cases h24 : a.is24hr with
  | true =>
      have hbit := hour_and_of_lt hhrs.1 (by omega)
      have hdec := bitshiftDec_bitshiftBcd hhrs.1 (by omega)
      simp only [if_true, hbit, ne_eq, not_true_eq_false, if_false]
      exact ⟨hdec, trivial⟩
  | false =>
      have hhrs12 := h.hrs12 h24
      cases hampm : a.ampm with
      | true =>
          obtain ⟨hbit, hpm, hdec⟩ := hour_am hhrs.1 (by omega)
          simp only [Bool.false_eq_true, if_false, if_true, hbit, hpm, ne_eq, not_false_eq_true,
            not_true_eq_false]
          exact ⟨hdec, trivial⟩
      | false =>
          obtain ⟨hbit, hpm, hdec⟩ := hour_pm hhrs.1 (by omega)
          simp only [Bool.false_eq_true, if_false, if_true, hbit, hpm, ne_eq, not_false_eq_true]
          exact ⟨hdec, trivial⟩

/-- The date is the one that was set. -/
structure Recovers (a : DateArgs) (d : LogDate) : Prop where
  seconds : (d.seconds : ℤ) = a.secs
  minutes : (d.minutes : ℤ) = a.mins
  hours : (d.hours : ℤ) = a.hrs
  day : (d.day : ℤ) = a.day
  month : (d.month : ℤ) = a.month
  year : (d.year : ℤ) = a.year
  weekday : (d.weekday : ℤ) = a.dow - 1
  amIndicator : d.amIndicator = if a.is24hr then "" else if a.ampm then "am" else "pm"

theorem recovers_indicator_iff (a : DateArgs) :
    (printedIndicator a = if a.is24hr then "" else if a.ampm then "am" else "pm") ↔
      a.is24hr = true := by
  unfold printedIndicator
  cases a.is24hr <;> cases a.ampm <;> decide

/-- All fields but the indicator are recovered, and the indicator only in the 24-hour format. -/
theorem convert_regs {a : DateArgs} (h : InRange a) :
    ∃ d, a.regs.convert = .ok d ∧ (Recovers a d ↔ a.is24hr = true) := by
  obtain ⟨hdow, hmonth, hday, hyear, hhrs, hhrs12, hmins, hsecs⟩ := h
  have hweekday := weekday_or (x := a.dow) (by omega) (by omega)
  obtain ⟨hhours, hindicator⟩ :=
    convert_hours (a := a) ⟨hdow, hmonth, hday, hyear, hhrs, hhrs12, hmins, hsecs⟩
  have hindex : ((a.regs.wkday &&& 0x0f).toNat : ℤ) - 1 = a.dow - 1 := by
    simp only [DateArgs.regs, hweekday]
  unfold RtcDateRegs.convert
  simp only [hindex]
  rw [if_pos (by omega)]
  refine ⟨_, rfl, ?_⟩
  rw [← recovers_indicator_iff a]
  constructor
  · intro hrec
    exact hindicator.symm.trans hrec.amIndicator
  · intro heq
    refine ⟨?_, ?_, hhours, ?_, ?_, ?_, ?_, hindicator.trans heq⟩
    · exact bitshiftDec_sixty (by omega) (by omega)
    · exact bitshiftDec_sixty (by omega) (by omega)
    · exact bitshiftDec_bitshiftBcd (by omega) (by omega)
    · exact bitshiftDec_bitshiftBcd (by omega) (by omega)
    · exact year_bitshiftBcd (by omega) (by omega)
    · exact Int.toNat_of_nonneg (by omega)

theorem ofBytes_buffer {a : DateArgs} {data : ℕ → UInt8} (h : ∀ i < 7, data i = a.buffer (i + 1)) :
    RtcDateRegs.ofBytes data = a.regs := by
  unfold RtcDateRegs.ofBytes
  rw [h 0 (by decide), h 1 (by decide), h 2 (by decide), h 3 (by decide), h 4 (by decide),
    h 5 (by decide), h 6 (by decide)]
  rfl

/-- A clock that returns the registers as `SetDate` has written them gives the date back
exactly if it was set in the 24-hour format.  What is read is what `LogToSerial` prints. -/
theorem setDate_readDate {σ : Type} (twi : Twi σ) (a : DateArgs) (haccepted : a.accepted = true)
    (m : Strings) (junk : ℕ → UInt8) (message : CString) (s : σ) (w : World σ)
    (hread : ∀ i < 7, (iicRead twi IIC_ADDR_RTC junk 7
      (iicWrite twi IIC_ADDR_RTC (fun _ => 0) 1 w.bus).1).2.1 i = a.buffer (i + 1)) :
    setDate twi a s = iicWrite twi IIC_ADDR_RTC a.buffer 8 s ∧
      ∃ bus d, readDate twi junk w.bus = .ok (bus, d) ∧
        ((logstring m d message).length < 200 → logToSerial twi m junk message w =
          .ok ⟨bus, w.serial ++ logstring m d message⟩) ∧
        (Recovers a d ↔ a.is24hr = true) := by
  obtain ⟨d, hconvert, hrecovers⟩ := convert_regs (inRange_of_accepted haccepted)
  have hregs := ofBytes_buffer hread
  have hdate : readDate twi junk w.bus = .ok ((iicRead twi IIC_ADDR_RTC junk 7
      (iicWrite twi IIC_ADDR_RTC (fun _ => 0) 1 w.bus).1).1, d) := by
    simp only [readDate, hregs, hconvert, ok_bind]
  refine ⟨if_pos haccepted, _, d, hdate, fun hfits => ?_, hrecovers⟩
  have hroom : ¬(logstring m d message).length + 1 > 200 := by omega
  simp only [logToSerial, hdate, ok_bind, hroom, if_false]
  rfl

/-! ## A clock that stands still -/

/-- What the clock expects next. -/
inductive Phase
  | idle
  | started
  | pointer
  | writing
  | reading
  deriving DecidableEq

/-- A register file behind an address pointer. -/
structure Clock where
  regs : ℕ → UInt8
  pointer : ℕ
  phase : Phase

namespace Clock

def twi : Twi Clock where
  start c := (0x08, { c with phase := .started })
  send byte c :=
    match c.phase with
    | .started =>
        if byte = 0xde then (0x18, { c with phase := .pointer })
        else if byte = 0xdf then (0x40, { c with phase := .reading })
        else (if byte &&& 0x01 = 0 then 0x20 else 0x48, { c with phase := .idle })
    | .pointer => (0x28, { c with pointer := byte.toNat, phase := .writing })
    | .writing =>
        (0x28, { c with regs := Function.update c.regs c.pointer byte, pointer := c.pointer + 1 })
    | _ => (0xf8, c)
  receive ack c :=
    match c.phase with
    | .reading =>
        (if ack then 0x50 else 0x58, c.regs c.pointer, { c with pointer := c.pointer + 1 })
    | _ => (0xf8, 0xff, c)
  stop c := { c with phase := .idle }

/-- A clock after power-up. -/
def blank : Clock := ⟨fun _ => 0, 0, .idle⟩

end Clock

/-- The clock returns what `SetDate` has written. -/
theorem clock_returns {a : DateArgs} (haccepted : a.accepted = true) (junk : ℕ → UInt8)
    (c : Clock) : ∀ i < 7, (iicRead Clock.twi IIC_ADDR_RTC junk 7
      (iicWrite Clock.twi IIC_ADDR_RTC (fun _ => 0) 1 (setDate Clock.twi a c).1).1).2.1 i =
        a.buffer (i + 1) := by
  rw [setDate, if_pos haccepted]
  intro i hi
  interval_cases i <;> rfl

/-- A memory with the names of the days at the addresses 0 to 6. -/
def nameTable : Strings where
  stringAt a := ascii (days.getD a.toNat "")
  daysAt i := UInt16.ofNat i
  days := by
    intro i hi
    interval_cases i <;> rfl

/-- Monday, 10/10/22, 13:05:09. -/
def afternoon : DateArgs := ⟨2, 10, 10, 22, 13, 5, 9, true, false⟩

theorem setDate_readDate_afternoon :
    ∃ bus d, readDate Clock.twi (fun _ => 0) (setDate Clock.twi afternoon .blank).1 = .ok (bus, d) ∧
      Recovers afternoon d := by
  obtain ⟨-, bus, d, hdate, -, hrecovers⟩ :=
    setDate_readDate Clock.twi afternoon rfl nameTable (fun _ => 0) logMessage .blank
      ⟨(setDate Clock.twi afternoon .blank).1, []⟩ (clock_returns rfl _ _)
  exact ⟨bus, d, hdate, hrecovers.mpr rfl⟩

/-- One in the morning, in the 12-hour format. -/
def morning : DateArgs := ⟨2, 10, 10, 22, 1, 5, 9, false, true⟩

/-- The registers of `morning` come back unchanged and are printed as `pm`. -/
theorem morning_printed_pm :
    (∀ i < 7, (iicRead Clock.twi IIC_ADDR_RTC (fun _ => 0) 7 (iicWrite Clock.twi IIC_ADDR_RTC
      (fun _ => 0) 1 (setDate Clock.twi morning .blank).1).1).2.1 i = morning.buffer (i + 1)) ∧
    ∃ bus d, readDate Clock.twi (fun _ => 0) (setDate Clock.twi morning .blank).1 = .ok (bus, d) ∧
      morning.accepted = true ∧ morning.is24hr = false ∧ morning.ampm = true ∧
      d.amIndicator = "pm" ∧ ¬Recovers morning d := by
  refine ⟨clock_returns rfl _ _, _, _, rfl, rfl, rfl, rfl, rfl, ?_⟩
  intro h
  have hindicator := h.amIndicator
  exact absurd hindicator (by decide)

end EmbeddedKernel.Rtc
