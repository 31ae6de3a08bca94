import EmbeddedKernel.Rtc.RoundTrip

/-!
# The line that `LogToSerial` prints

Whatever the read leaves in the registers, the decoded numbers are small, so that the
line fits if the weekday is printed as its name.  That takes a weekday nibble from 1
to 7, and a name whose address survives being kept in a `char`.
-/

namespace EmbeddedKernel.Rtc

open Iic Library

open DataLog (World CString ascii)

/-! ## The numbers of a line -/

theorem bitshiftDec_lt (n : UInt8) {m : UInt8} (hm : m.toNat ≤ 7) : bitshiftDec n m < 100 := by
  have hones : (n &&& 0x0f).toNat ≤ 15 := by
    rw [UInt8.toNat_and]
    exact Nat.and_le_right
  have htens : ((n >>> 4) &&& m).toNat ≤ m.toNat := by
    rw [UInt8.toNat_and]
    exact Nat.and_le_right
  unfold bitshiftDec
  omega

theorem year_lt (n : UInt8) : (n &&& 0x0f).toNat + 10 * (n >>> 4).toNat < 1000 := by
  have hones : (n &&& 0x0f).toNat ≤ 15 := by
    rw [UInt8.toNat_and]
    exact Nat.and_le_right
  have htens : (n >>> 4).toNat ≤ 15 := by
    have hlt := n.toNat_lt
    have hshift : (n >>> 4).toNat = n.toNat / 2 ^ 4 := by
      rw [UInt8.toNat_shiftRight, Nat.shiftRight_eq_div_pow]
      rfl
    rw [hshift]
    omega
  omega

/-- The widest values that arbitrary registers decode to. -/
structure Narrow (d : LogDate) : Prop where
  seconds : d.seconds < 100
  minutes : d.minutes < 100
  hours : d.hours < 100
  day : d.day < 100
  month : d.month < 100
  year : d.year < 1000
  weekday : d.weekday < 7
  amIndicator : d.amIndicator.length ≤ 2

def weekdayIndex (wkday : UInt8) : ℤ := (wkday &&& 0x0f).toNat - 1

theorem convert_of_index {r : RtcDateRegs} (hlo : 0 ≤ weekdayIndex r.wkday)
    (hhi : weekdayIndex r.wkday < 7) :
    ∃ d, r.convert = .ok d ∧ Narrow d ∧ (d.weekday : ℤ) = weekdayIndex r.wkday := by
  have hseven : (0x07 : UInt8).toNat ≤ 7 := by decide
  have hhours : (if r.hour &&& 0x40 ≠ 0 then bitshiftDec r.hour 0x01
      else bitshiftDec r.hour 0x07) < 100 := by
    split_ifs
    · exact bitshiftDec_lt r.hour (by decide)
    · exact bitshiftDec_lt r.hour hseven
  have hindicator : (if r.hour &&& 0x40 ≠ 0 then if r.hour &&& 0x20 ≠ 0 then "am" else "pm"
      else "").length ≤ 2 := by
    split_ifs <;> decide
  refine ⟨_, if_pos ⟨hlo, hhi⟩, ⟨bitshiftDec_lt r.sec hseven, bitshiftDec_lt r.min hseven, hhours,
    bitshiftDec_lt r.date hseven, bitshiftDec_lt r.month hseven, year_lt r.year, ?_, hindicator⟩,
    ?_⟩
  · unfold weekdayIndex at hlo hhi
    simp only
    omega
  · exact Int.toNat_of_nonneg hlo

/-! ## The length of a line -/

theorem length_ascii (s : String) : (ascii s).length = s.length := by
  rw [ascii, List.length_map, String.length_toList]

theorem length_toString_le {n k : ℕ} (hk : 0 < k) (hn : n < 10 ^ k) : (toString n).length ≤ k :=
  (Nat.length_repr_le_iff hk).mpr hn

theorem length_twoDigits_le {n k : ℕ} (hk : 2 ≤ k) (hn : n < 10 ^ k) :
    (twoDigits n).length ≤ k := by
  unfold twoDigits
  split_ifs with hone
  · have hdigit := length_toString_le (k := 1) (by decide) (show n < 10 ^ 1 by omega)
    have hzero : "0".length = 1 := by decide
    rw [String.length_append, hzero]
    omega
  · exact length_toString_le (by omega) hn

theorem length_days_le (i : ℕ) (hi : i < 7) : (days.getD i "").length ≤ 9 := by
  interval_cases i <;> decide

theorem length_logstring_le {m : Strings} {d : LogDate} (message : CString) (h : Narrow d)
    (haddr : weekdayAddr m d = m.daysAt d.weekday) : (logstring m d message).length + 1 ≤ 200 := by
  have hname := length_days_le d.weekday h.weekday
  have hhours := length_toString_le (k := 2) (by decide) h.hours
  have hminutes := length_twoDigits_le (k := 2) (by decide) h.minutes
  have hseconds := length_twoDigits_le (k := 2) (by decide) h.seconds
  have hday := length_toString_le (k := 2) (by decide) h.day
  have hmonth := length_twoDigits_le (k := 2) (by decide) h.month
  have hyear := length_twoDigits_le (k := 3) (by decide) h.year
  have hindicator := h.amIndicator
  have hmessage : (message.chars.take 127).length ≤ 127 := List.length_take_le _ _
  have hspace : " ".length = 1 := by decide
  have hcolon : ":".length = 1 := by decide
  have hslash : "/".length = 1 := by decide
  have hend : ": ".length = 2 := by decide
  have hnewline : (ascii "\n").length = 1 := by decide
  unfold logstring
  rw [haddr, m.days _ h.weekday]
  simp only [List.length_append, length_ascii, String.length_append, hspace, hcolon, hslash, hend]
    at hnewline ⊢
  omega

/-! ## The pointer to the name -/

/-- The addresses that survive being kept in a signed `char`. -/
theorem narrowed_eq_iff (a : Addr) :
    UInt16.ofNat (Avr.toUnsigned (Avr.ofChar (Avr.toUChar a.toNat))) = a ↔
      a.toNat < 0x80 ∨ 0xff80 ≤ a.toNat := by
  have hlt := a.toNat_lt
  have hchar := Avr.toNat_toUChar a.toNat
  rw [← UInt16.toNat_inj, UInt16.toNat_ofNat']
  unfold Avr.toUnsigned Avr.ofChar
  split_ifs <;> omega

/-- What the read of the clock leaves in `date`. -/
def dateRead {σ : Type} (twi : Twi σ) (junk : ℕ → UInt8) (s : σ) : RtcDateRegs :=
  .ofBytes (iicRead twi IIC_ADDR_RTC junk 7 (iicWrite twi IIC_ADDR_RTC (fun _ => 0) 1 s).1).2.1

/-- The index into `days` is in range, `%s` gets that name, and the line fits into `logstring`;
so the line is printed. -/
def LogsSafely {σ : Type} (twi : Twi σ) (m : Strings) (junk : ℕ → UInt8) (message : CString)
    (w : World σ) : Prop :=
  0 ≤ weekdayIndex (dateRead twi junk w.bus).wkday ∧
    weekdayIndex (dateRead twi junk w.bus).wkday ≤ 6 ∧
    ∃ bus d, readDate twi junk w.bus = .ok (bus, d) ∧
      (d.weekday : ℤ) = weekdayIndex (dateRead twi junk w.bus).wkday ∧
      weekdayAddr m d = m.daysAt d.weekday ∧ (logstring m d message).length + 1 ≤ 200 ∧
      logToSerial twi m junk message w = .ok ⟨bus, w.serial ++ logstring m d message⟩

theorem readDate_eq {σ : Type} (twi : Twi σ) (junk : ℕ → UInt8) (s : σ) :
    ∃ bus, readDate twi junk s = (dateRead twi junk s).convert >>= fun d => .ok (bus, d) :=
  ⟨_, rfl⟩

/-- Logging is safe exactly if the low nibble of the weekday register is from 1 to 7 and the
address of the name of that day survives being kept in a `char`. -/
theorem logToSerial_safe_iff {σ : Type} (twi : Twi σ) (m : Strings) (junk : ℕ → UInt8)
    (message : CString) (w : World σ) :
    LogsSafely twi m junk message w ↔
      1 ≤ ((dateRead twi junk w.bus).wkday &&& 0x0f).toNat ∧
      ((dateRead twi junk w.bus).wkday &&& 0x0f).toNat ≤ 7 ∧
      ((m.daysAt (((dateRead twi junk w.bus).wkday &&& 0x0f).toNat - 1)).toNat < 0x80 ∨
        0xff80 ≤ (m.daysAt (((dateRead twi junk w.bus).wkday &&& 0x0f).toNat - 1)).toNat) := by
  set nibble := ((dateRead twi junk w.bus).wkday &&& 0x0f).toNat with hnibble
  have hindex : weekdayIndex (dateRead twi junk w.bus).wkday = (nibble : ℤ) - 1 := rfl
  unfold LogsSafely
  rw [hindex]
  constructor
  · rintro ⟨hlo, hhi, bus, d, -, hweekday, haddr, -⟩
    have hday : d.weekday = nibble - 1 := by omega
    refine ⟨by omega, by omega, ?_⟩
    rw [← hday]
    exact (narrowed_eq_iff _).mp haddr
  · rintro ⟨hlo, hhi, hname⟩
    obtain ⟨d, hconvert, hnarrow, hweekday⟩ :=
      convert_of_index (r := dateRead twi junk w.bus) (by omega) (by omega)
    have hday : d.weekday = nibble - 1 := by omega
    rw [← hday] at hname
    have haddr : weekdayAddr m d = m.daysAt d.weekday := (narrowed_eq_iff _).mpr hname
    have hfits := length_logstring_le message hnarrow haddr
    obtain ⟨bus, hread⟩ := readDate_eq twi junk w.bus
    rw [hconvert, ok_bind] at hread
    refine ⟨by omega, by omega, bus, d, hread, by omega, haddr, hfits, ?_⟩
    simp only [logToSerial, hread, ok_bind]
    exact if_neg (by omega)

/-- The names of the days in the RAM of the target, which starts at 0x100. -/
def ramTable : Strings where
  stringAt a := ascii (days.getD (a.toNat - 0x200) "")
  daysAt i := UInt16.ofNat (0x200 + i)
  days := by
    intro i hi
    interval_cases i <;> rfl

/-- A clock that has not been set gives the index -1; and for a date that has been set the
pointer to the name is cut off. -/
theorem logToSerial_unsafe :
    ¬LogsSafely Clock.twi nameTable (fun _ => 0) logMessage ⟨.blank, []⟩ ∧
      ¬LogsSafely Clock.twi ramTable (fun _ => 0) logMessage
        ⟨(setDate Clock.twi afternoon .blank).1, []⟩ := by
  refine ⟨?_, ?_⟩
  · rintro ⟨hlo, -⟩
    exact absurd hlo (by decide)
  · rintro ⟨-, -, bus, d, -, hweekday, haddr, -⟩
    have hday : d.weekday = 1 := by
      have hindex : weekdayIndex (dateRead Clock.twi (fun _ => 0)
        (setDate Clock.twi afternoon .blank).1).wkday = 1 := rfl
      exact_mod_cast hweekday.trans hindex
    rw [weekdayAddr, hday] at haddr
    exact absurd haddr (by decide)

end EmbeddedKernel.Rtc
