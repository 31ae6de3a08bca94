import EmbeddedKernel.Iic.Trace
import EmbeddedKernel.Rtc.RoundTrip

/-!
# What `SetDate` accepts and reports

A rejected date leaves the loop of the checks and reaches the same `return 0` that
stands for success.  The table of the lengths of the months gives February 29 days
in every year.
-/

namespace EmbeddedKernel.Rtc

open Iic Library

/-! ## The result -/

/-- A bus on which each byte of a transfer, the first of them the device address, is
acknowledged or refused. -/
def acking (acks : ℕ → Bool) : Oracle where
  twsr t :=
    if t = 0 then 0x08
    else if t = 1 then if acks 0 then 0x18 else 0x20
    else if acks (t - 1) then 0x28 else 0x30
  twdr _ := 0xff

/-- `SetDate` returns 0 exactly if it accepts the arguments and all nine bytes of the transfer
are acknowledged; without accepting them it leaves the bus alone and fails. -/
def ReportsHonestly (a : DateArgs) (acks : ℕ → Bool) : Prop :=
  ((setDate (recorded (acking acks).twi) a (0, [])).2 = 0 ↔
      a.accepted = true ∧ ∀ i < 9, acks i = true) ∧
    (a.accepted = false →
      operations (setDate (recorded (acking acks).twi) a (0, [])).1 = [] ∧
        (setDate (recorded (acking acks).twi) a (0, [])).2 ≠ 0)

theorem acked_acking (acks : ℕ → Bool) (i : ℕ) :
    (acking acks).Acked 2 i ↔ acks (i + 1) = true := by
  have hstatus : (acking acks).twsr (2 + i) = if acks (i + 1) then 0x28 else 0x30 := by
    rw [show 2 + i = i + 2 by omega]
    rfl
  rw [Oracle.Acked, hstatus]
  cases acks (i + 1) <;> decide

theorem iicWrite_acking (acks : ℕ → Bool) (addr : UInt8) (dbytes : ℕ → UInt8) :
    (iicWrite (recorded (acking acks).twi) addr dbytes 8 (0, [])).2 = 0 ↔
      ∀ i < 9, acks i = true := by
  obtain ⟨m, rc, new, hwrite, -, hcourse⟩ :=
    iicWrite_of_passed (acking acks) addr dbytes 8 0 [] (show (0x08 : UInt8) &&& 0x08 ≠ 0 by decide)
  have haddress : (acking acks).twsr (0 + 1) &&& 0xf8 = 0x18 ↔ acks 0 = true := by
    have hstatus : (acking acks).twsr (0 + 1) = if acks 0 then 0x18 else 0x20 := rfl
    rw [hstatus]
    cases acks 0 <;> decide
  have hresult := hcourse.result_iff
  rw [haddress] at hresult
  rw [hwrite, hresult]
  constructor
  · rintro ⟨hzero, hdata⟩ i hi
    cases i with
    | zero => exact hzero
    | succ i => exact (acked_acking acks i).mp (hdata i (show i < 8 by omega))
  · intro hall
    refine ⟨hall 0 (by decide), fun i hi => ?_⟩
    have hlt : i < 8 := hi
    exact (acked_acking acks i).mpr (hall (i + 1) (by omega))

/-- `SetDate` reports honestly exactly on the arguments that it accepts. -/
theorem setDate_reports_iff (a : DateArgs) (acks : ℕ → Bool) :
    ReportsHonestly a acks ↔ a.accepted = true := by
  unfold ReportsHonestly setDate
  by_cases haccepted : a.accepted = true
  · rw [if_pos haccepted, iicWrite_acking]
    simp [haccepted]
  · rw [if_neg haccepted]
    refine iff_of_false (fun h => ?_) haccepted
    exact haccepted (h.1.mp rfl).1

/-- The thirtieth of February is rejected with the result for success. -/
theorem setDate_rejects_with_zero :
    (setDate (recorded (acking fun _ => true).twi) ⟨1, 30, 2, 22, 0, 0, 0, true, false⟩ (0, [])) =
        ((0, []), 0) ∧
      ¬ReportsHonestly ⟨1, 30, 2, 22, 0, 0, 0, true, false⟩ fun _ => true := by
  refine ⟨rfl, ?_⟩
  rintro ⟨-, hrejected⟩
  exact (hrejected rfl).2 rfl

/-! ## The checks -/

def IsLeap (y : ℤ) : Prop := y % 4 = 0 ∧ (y % 100 ≠ 0 ∨ y % 400 = 0)

instance (y : ℤ) : Decidable (IsLeap y) := inferInstanceAs (Decidable (_ ∧ _))

/-- The length of a month in the Gregorian calendar. -/
def monthLength (y month : ℤ) : ℤ :=
  if month = 2 then if IsLeap y then 29 else 28
  else if month = 4 ∨ month = 6 ∨ month = 9 ∨ month = 11 then 30
  else 31

/-- The arguments are a date of the years 2000 to 2099, with a weekday, and a time. -/
structure RealDate (a : DateArgs) : Prop where
  dow : 1 ≤ a.dow ∧ a.dow ≤ 7
  year : 0 ≤ a.year ∧ a.year ≤ 99
  month : 1 ≤ a.month ∧ a.month ≤ 12
  day : 1 ≤ a.day ∧ a.day ≤ monthLength (2000 + a.year) a.month
  mins : 0 ≤ a.mins ∧ a.mins ≤ 59
  secs : 0 ≤ a.secs ∧ a.secs ≤ 59
  hrs : if a.is24hr = true then 0 ≤ a.hrs ∧ a.hrs ≤ 23 else 1 ≤ a.hrs ∧ a.hrs ≤ 12

def LeaplessDay (a : DateArgs) : Prop :=
  a.month = 2 ∧ a.day = 29 ∧ ¬IsLeap (2000 + a.year)

/-- The table is right but for February. -/
theorem le_maxmonthdays_iff {y month : ℤ} (hlo : 1 ≤ month) (hhi : month ≤ 12) (day : ℤ) :
    day ≤ maxmonthdays.getD (month - 1).toNat 0 ↔
      day ≤ monthLength y month ∨ month = 2 ∧ day = 29 ∧ ¬IsLeap y := by
  have htable : maxmonthdays.getD (month - 1).toNat 0 =
      if month = 2 then 29
      else if month = 4 ∨ month = 6 ∨ month = 9 ∨ month = 11 then 30
      else 31 := by
    interval_cases month <;> rfl
  rw [htable]
  unfold monthLength
  by_cases hleap : IsLeap y
  · simp only [hleap, if_true, not_true_eq_false, and_false, or_false]
  · simp only [hleap, if_false, not_false_eq_true, and_true]
    split_ifs <;> omega

variable {a : DateArgs}

theorem RealDate.not_leaplessDay (h : RealDate a) : ¬LeaplessDay a := by
  rintro ⟨hmonth, hday, hleap⟩
  have hlength := h.day.2
  rw [hmonth, monthLength, if_pos rfl, if_neg hleap] at hlength
  omega

theorem accepted_of_realDate (h : RealDate a) : a.accepted = true := by
  obtain ⟨hdow, hyear, hmonth, hday, hmins, hsecs, hhrs⟩ := h
  have hmax : a.day ≤ maxmonthdays.getD (a.month - 1).toNat 0 :=
    (le_maxmonthdays_iff hmonth.1 hmonth.2 a.day).mpr (Or.inl hday.2)
  have hhrs12 : ¬(a.is24hr = false ∧ (a.hrs < 1 ∨ a.hrs > 12)) := by
    rintro ⟨h24, hout⟩
    rw [h24, if_neg (by decide)] at hhrs
    omega
  have hhrs24 : ¬(a.hrs < 0 ∨ a.hrs > 23) := by
    split_ifs at hhrs <;> omega
  unfold DateArgs.accepted
  rw [if_neg (by omega), if_neg (by omega), if_neg (by omega), if_neg (by omega), if_neg hhrs12,
    if_neg hhrs24, if_neg (by omega), if_neg (by omega)]

theorem day_of_accepted (h : a.accepted = true) :
    a.day ≤ maxmonthdays.getD (a.month - 1).toNat 0 := by
  unfold DateArgs.accepted at h
  split_ifs at h with hdow hmonth hday hyear hhrs12 hhrs hmins hsecs
  omega

theorem realDate_or_leaplessDay (h : a.accepted = true) : RealDate a ∨ LeaplessDay a := by
  obtain ⟨hdow, hmonth, hday, hyear, hhrs, hhrs12, hmins, hsecs⟩ := inRange_of_accepted h
  rcases (le_maxmonthdays_iff hmonth.1 hmonth.2 a.day).mp (day_of_accepted h) with hlength | hleap
  · left
    refine ⟨hdow, hyear, hmonth, ⟨hday.1, hlength⟩, hmins, hsecs, ?_⟩
    cases h24 : a.is24hr with
    | true => exact hhrs
    | false => exact hhrs12 h24
  · exact Or.inr hleap

/-! ## The registers -/

/-- The bits of a register under the mask are two decimal digits of the number `x`. -/
def IsBcd (b mask : UInt8) (x : ℤ) : Prop :=
  (b &&& mask &&& 0x0f).toNat ≤ 9 ∧ ((b &&& mask) >>> 4).toNat ≤ 9 ∧
    ((b &&& mask &&& 0x0f).toNat : ℤ) + 10 * ((b &&& mask) >>> 4).toNat = x

instance (b mask : UInt8) (x : ℤ) : Decidable (IsBcd b mask x) :=
  inferInstanceAs (Decidable (_ ∧ _))

/-- Outside of their control bits the registers are the arguments in decimal digits. -/
structure ValidRegs (a : DateArgs) : Prop where
  sec : IsBcd a.regs.sec 0x7f a.secs
  min : IsBcd a.regs.min 0x7f a.mins
  hour : IsBcd a.regs.hour (if a.is24hr = true then 0x3f else 0x1f) a.hrs
  wkday : IsBcd a.regs.wkday 0x07 a.dow
  date : IsBcd a.regs.date 0x3f a.day
  month : IsBcd a.regs.month 0x1f a.month
  year : IsBcd a.regs.year 0xff a.year

theorem isBcd_sixty {x : ℤ} (hpos : 0 ≤ x) (hlt : x < 60) : IsBcd (bitshiftBcd x ||| 0x80) 0x7f x :=
  forall_int_of_forall_fin (n := 60) (P := fun x => IsBcd (bitshiftBcd x ||| 0x80) 0x7f x)
    (by decide) hpos hlt

theorem isBcd_bitshiftBcd {x : ℤ} (hpos : 0 ≤ x) (hlt : x < 40) : IsBcd (bitshiftBcd x) 0x3f x :=
  forall_int_of_forall_fin (n := 40) (P := fun x => IsBcd (bitshiftBcd x) 0x3f x) (by decide) hpos
    hlt

theorem isBcd_twenty {x : ℤ} (hpos : 0 ≤ x) (hlt : x < 20) :
    IsBcd (bitshiftBcd x) 0x1f x ∧ IsBcd (bitshiftBcd x ||| 0x40) 0x1f x ∧
      IsBcd (bitshiftBcd x ||| 0x60) 0x1f x :=
  forall_int_of_forall_fin (n := 20)
    (P := fun x => IsBcd (bitshiftBcd x) 0x1f x ∧ IsBcd (bitshiftBcd x ||| 0x40) 0x1f x ∧
      IsBcd (bitshiftBcd x ||| 0x60) 0x1f x) (by decide) hpos hlt

theorem isBcd_hundred {x : ℤ} (hpos : 0 ≤ x) (hlt : x < 100) : IsBcd (bitshiftBcd x) 0xff x :=
  forall_int_of_forall_fin (n := 100) (P := fun x => IsBcd (bitshiftBcd x) 0xff x) (by decide) hpos
    hlt

theorem isBcd_weekday {x : ℤ} (hpos : 0 ≤ x) (hlt : x < 8) :
    IsBcd (Avr.toUChar x ||| 0x20) 0x07 x :=
  forall_int_of_forall_fin (n := 8) (P := fun x => IsBcd (Avr.toUChar x ||| 0x20) 0x07 x)
    (by decide) hpos hlt

theorem validRegs (h : InRange a) : ValidRegs a := by
  obtain ⟨hdow, hmonth, hday, hyear, hhrs, hhrs12, hmins, hsecs⟩ := h
  refine ⟨isBcd_sixty hsecs.1 (by omega), isBcd_sixty hmins.1 (by omega), ?_,
    isBcd_weekday (by omega) (by omega), isBcd_bitshiftBcd (by omega) (by omega),
    (isBcd_twenty (by omega) (by omega)).1, isBcd_hundred hyear.1 (by omega)⟩
  unfold DateArgs.regs
  cases h24 : a.is24hr with
  | true => exact isBcd_bitshiftBcd hhrs.1 (by omega)
  | false =>
      have hpos := hhrs12 h24
      obtain ⟨-, ham, hpm⟩ := isBcd_twenty hhrs.1 (by omega)
      cases a.ampm with
      | true => exact ham
      | false => exact hpm

/-- `SetDate` starts a transfer exactly for a real date and time, and then it is the transfer of
the registers, which are valid. -/
def Validates {σ : Type*} (twi : Twi σ) (a : DateArgs) (x : σ × List (σ × Operation)) : Prop :=
  ((setDate (recorded twi) a x).1.2 ≠ x.2 ↔ RealDate a) ∧
    ((setDate (recorded twi) a x).1.2 ≠ x.2 →
      setDate (recorded twi) a x = iicWrite (recorded twi) IIC_ADDR_RTC a.buffer 8 x ∧
        ValidRegs a)

theorem setDate_starts_iff {σ : Type*} (twi : Twi σ) (a : DateArgs)
    (x : σ × List (σ × Operation)) :
    (setDate (recorded twi) a x).1.2 ≠ x.2 ↔ a.accepted = true := by
  unfold setDate
  split_ifs with haccepted
  · refine iff_of_true (fun heq => ?_) haccepted
    have hstart : x.2 ++ [(x.1, Operation.start)] <+:
        (iicWrite (recorded twi) IIC_ADDR_RTC a.buffer 8 x).1.2 := isPrefix_iicWrite _ _ _ _
    have hlength := hstart.length_le
    rw [heq, List.length_append, List.length_singleton] at hlength
    omega
  · exact iff_of_false (fun h => h rfl) haccepted

/-- The checks of `SetDate` accept the real dates and times, exactly if the arguments are not
the 29th of February of a year without one, with everything else in range. -/
theorem setDate_validates_iff {σ : Type*} (twi : Twi σ) (a : DateArgs)
    (x : σ × List (σ × Operation)) :
    Validates twi a x ↔ ¬(LeaplessDay a ∧ a.accepted = true) := by
  unfold Validates
  rw [setDate_starts_iff]
  constructor
  · rintro ⟨haccepts, -⟩ ⟨hleapless, haccepted⟩
    exact (haccepts.mp haccepted).not_leaplessDay hleapless
  · intro hnot
    refine ⟨⟨fun haccepted => ?_, accepted_of_realDate⟩, fun haccepted => ⟨?_, ?_⟩⟩
    · rcases realDate_or_leaplessDay haccepted with hreal | hleapless
      · exact hreal
      · exact (hnot ⟨hleapless, haccepted⟩).elim
    · exact if_pos haccepted
    · exact validRegs (inRange_of_accepted haccepted)

/-- The 29th of February 2023 is sent to the clock. -/
theorem setDate_accepts_leapless :
    ¬Validates Clock.twi ⟨4, 29, 2, 23, 12, 0, 0, true, false⟩ (.blank, []) := by
  rintro ⟨haccepts, -⟩
  have hreal := haccepts.mp ((setDate_starts_iff _ _ _).mpr rfl)
  exact hreal.not_leaplessDay ⟨rfl, rfl, by decide⟩

end EmbeddedKernel.Rtc
