import EmbeddedKernel.DataLog.Eeprom
import EmbeddedKernel.DataLog.Model
import EmbeddedKernel.Iic.SharedBus
import EmbeddedKernel.Rtc.RoundTrip

/-!
# The data logger and the clock on one bus

The functions of `LogData` and `LogTask` use the bus only through `IICWrite` and `IICRead`,
each with the address of its device.  The addresses of the EEPROMs and of the clock differ
for every port address, so calls to the two classes can be mixed in any order.
-/

namespace EmbeddedKernel.Application

open Iic Library DataLog

/-! ## Functions that transfer -/

section Programs

variable {σ τ : Type} {twi : Twi σ} {twi' : Twi τ} {R : σ → τ → Prop} {d : LogData}
  {w : World σ} {w' : World τ}

/-- The buses are related and the serial port has received the same. -/
structure Alike (R : σ → τ → Prop) (w : World σ) (w' : World τ) : Prop where
  bus : R w.bus w'.bus
  serial : w.serial = w'.serial

/-- The same result in worlds that are alike. -/
def AlikeResult {α : Type} (R : σ → τ → Prop) (x : World σ × α) (y : World τ × α) : Prop :=
  Alike R x.1 y.1 ∧ x.2 = y.2

theorem Alike.print (h : Alike R w w') (text : List UInt8) :
    Alike R (w.print text) (w'.print text) :=
  ⟨h.bus, congrArg (· ++ text) h.serial⟩

theorem Alike.println (h : Alike R w w') (text : List UInt8) :
    Alike R (w.println text) (w'.println text) :=
  h.print _

theorem ok_alike (h : Alike R w w') (a dl : ℤ) : AlikeResult R (ok a dl w) (ok a dl w') := by
  unfold ok
  split_ifs
  · exact ⟨h.println _, rfl⟩
  · exact ⟨h.println _, rfl⟩
  · exact ⟨h, rfl⟩

/-- What the functions of `LogData` do on the bus: they write to an address within a page of
the EEPROM, or set an address and read from there. -/
structure SameAccesses (twi : Twi σ) (twi' : Twi τ) (d : LogData) (R : σ → τ → Prop) : Prop where
  write : ∀ {x y} (high low : UInt8) (data : ℕ → UInt8) {n : ℕ} (len : UInt16),
    len.toNat = n + 2 → (high.toNat * 256 + low.toNat) % 128 + n ≤ 128 → R x y →
    (iicWrite twi d.iicAddrE2 (withAddress high low data) len x).2 =
        (iicWrite twi' d.iicAddrE2 (withAddress high low data) len y).2 ∧
      R (iicWrite twi d.iicAddrE2 (withAddress high low data) len x).1
        (iicWrite twi' d.iicAddrE2 (withAddress high low data) len y).1
  fetch : ∀ {x y} (high low : UInt8) (junk : ℕ → UInt8) (n : UInt16),
    high.toNat * 256 + low.toNat + n.toNat ≤ 65536 → R x y →
    let r := iicRead twi d.iicAddrE2 junk n
      (iicWrite twi d.iicAddrE2 (withAddress high low junk) 2 x).1
    let r' := iicRead twi' d.iicAddrE2 junk n
      (iicWrite twi' d.iicAddrE2 (withAddress high low junk) 2 y).1
    (∀ i < n.toNat, r.2.1 i = r'.2.1 i) ∧ r.2.2 = r'.2.2 ∧ R r.1 r'.1

theorem sameAccesses_of_transfers (ht : SameTransfers twi twi' d.iicAddrE2 R) :
    SameAccesses twi twi' d R where
  write high low data n len _ _ h := ht.write (withAddress high low data) len h
  fetch high low junk n _ h := by
    obtain ⟨-, hbus⟩ := ht.write (withAddress high low junk) 2 h
    obtain ⟨hread, hbus⟩ := ht.read junk n hbus
    exact ⟨fun i _ => by rw [hread], by rw [hread], hbus⟩

theorem decode_congr {data data' : ℕ → UInt8} (h : ∀ i < 4, data i = data' i) :
    decode data = decode data' := by
  unfold decode
  rw [h 0 (by decide), h 1 (by decide), h 2 (by decide), h 3 (by decide)]

section Logger

variable (ht : SameAccesses twi twi' d R)

include ht

theorem write_alike (h : Alike R w w') (f : Frame) (page : ℤ) (data : CString) (dl : ℤ) :
    Outcome (AlikeResult R) (write twi d f page data dl w) (write twi' d f page data dl w') := by
  obtain ⟨hok, hbad⟩ := ok_alike h page dl
  unfold write
  simp only [hbad]
  split_ifs
  · exact .ok ⟨hok, rfl⟩
  · exact .error _
  · have haddr := pageHigh_pageLow_emod page
    obtain ⟨hrc, hbus⟩ := ht.write (pageHigh page) (pageLow page) (strcpy data f.junk) 34
      (show (34 : UInt16).toNat = 32 + 2 from rfl) (by omega) hok.bus
    exact .ok ⟨⟨hbus, hok.serial⟩, hrc⟩

theorem readPage_alike (h : Alike R w w') (f : Frame) (pg dl : ℤ) :
    AlikeResult R (readPage twi d f pg dl w) (readPage twi' d f pg dl w') := by
  obtain ⟨hok, hbad⟩ := ok_alike h pg dl
  unfold readPage
  simp only [hbad]
  split_ifs
  · exact ⟨hok, rfl⟩
  · have haddr := pageHigh_pageLow_emod pg
    have hend : (pageHigh pg).toNat * 256 + (pageLow pg).toNat + (32 : UInt16).toNat ≤ 65536 := by
      have hlen : (32 : UInt16).toNat = 32 := rfl
      omega
    obtain ⟨hdata, hrc, hbus⟩ := ht.fetch (pageHigh pg) (pageLow pg) f.junk 32 hend hok.bus
    have hbytes := List.map_congr_left fun i hi => hdata i (List.mem_range.mp hi)
    refine ⟨⟨hbus, ?_⟩, hrc⟩
    simp only [World.print]
    rw [hok.serial]
    exact congrArg (fun bytes => _ ++ printed bytes f.beyond) hbytes

theorem getAddr_alike (h : Alike R w w') (f : Frame) :
    AlikeResult R (getAddr twi d f w) (getAddr twi' d f w') := by
  unfold getAddr
  obtain ⟨hdata, -, hbus⟩ := ht.fetch (Avr.toUChar (L_ADDR / 256)) (Avr.toUChar L_ADDR) f.junk 4
    (by decide) h.bus
  have hbytes := List.map_congr_left fun i hi => hdata i (List.mem_range.mp hi)
  refine ⟨⟨hbus, ?_⟩, decode_congr hdata⟩
  simp only [World.println, World.print]
  rw [h.serial]
  exact congrArg (fun bytes => _ ++ (printed bytes f.beyond ++ [13, 10])) hbytes

theorem updAddr_alike (h : Alike R w w') (f : Frame) (caddr : ℤ) :
    Alike R (updAddr twi d f caddr w) (updAddr twi' d f caddr w') := by
  obtain ⟨-, hbus⟩ := ht.write (Avr.toUChar (L_ADDR / 256)) (Avr.toUChar L_ADDR)
    (encode (nextAddr caddr)) 6 (show (6 : UInt16).toNat = 4 + 2 from rfl) (by decide) h.bus
  have hprinted := (h.print (ascii "Update Address - final upd value: ")).println
    (printed ((List.range 4).map (encode (nextAddr caddr))) f.beyond)
  exact ⟨hbus, hprinted.serial⟩

theorem reset_alike (h : Alike R w w') (f : Frame) (dl : ℤ) :
    Outcome (Alike R) (reset twi d f dl w) (reset twi' d f dl w') :=
  (write_alike ht h f 2044 zeros dl).bind fun _ _ hresult => .ok hresult.1

theorem writeAuto_alike (h : Alike R w w') (fs : Frames) (data : CString) :
    Outcome (AlikeResult R) (writeAuto twi d fs data w) (writeAuto twi' d fs data w') := by
  obtain ⟨hget, haddr⟩ := getAddr_alike ht h fs.getAddr
  unfold writeAuto
  simp only [haddr]
  have hprinted := (((hget.print (ascii "WriteAuto - addr1: ")).println
    (ascii (toString (getAddr twi' d fs.getAddr w').2))).print
    (ascii "WriteAuto - addr2: ")).println (ascii (toString
      (if (getAddr twi' d fs.getAddr w').2 ≥ 2044 then 0 else (getAddr twi' d fs.getAddr w').2)))
  refine (write_alike ht hprinted fs.write _ data 0).bind ?_
  rintro ⟨v, rc⟩ ⟨v', rc'⟩ ⟨hv, hrc⟩
  obtain rfl : rc = rc' := hrc
  have hresult := (hv.print (ascii "WriteAuto - writing result: ")).println (ascii (toString rc))
  refine .ok ⟨?_, rfl⟩
  by_cases hzero : rc = 0
  · simp only [if_pos hzero]
    exact updAddr_alike ht hresult fs.updAddr _
  · simp only [if_neg hzero]
    exact hresult

omit ht in
/-- The loop over pages. -/
theorem readLoop_alike {more : ℤ → Bool} {read : ℤ → World σ → World σ × ℤ}
    {read' : ℤ → World τ → World τ × ℤ}
    (hread : ∀ i {v v'}, Alike R v v' → AlikeResult R (read i v) (read' i v')) (fuel : ℕ)
    (i rc : ℤ) (h : Alike R w w') :
    Option.Rel (AlikeResult R) (readLoop more read fuel i rc w)
      (readLoop more read' fuel i rc w') := by
  induction fuel generalizing i rc w w' with
  | zero => exact .none
  | succ fuel ih =>
      unfold readLoop
      split_ifs
      · obtain ⟨hnext, hrc⟩ := hread i h
        simp only [hrc]
        exact ih _ _ hnext
      · exact .some ⟨h, rfl⟩

theorem readFT_alike (h : Alike R w w') (frames : ℤ → Frame) (fuel : ℕ) (s e dl : ℤ) :
    Option.Rel (AlikeResult R) (readFT twi d frames fuel s e dl w)
      (readFT twi' d frames fuel s e dl w') := by
  unfold readFT readRange
  split_ifs
  · exact .some ⟨h, rfl⟩
  · exact .some ⟨h, rfl⟩
  · exact .some ⟨h, rfl⟩
  · exact .some ⟨h, rfl⟩
  · exact readLoop_alike (fun i _ _ hv => readPage_alike ht hv (frames i) i 0) fuel s 1 h

theorem readAll_alike (h : Alike R w w') (frames : ℤ → Frame) (fuel : ℕ) :
    Option.Rel (AlikeResult R) (readAll twi d frames fuel w) (readAll twi' d frames fuel w') :=
  readLoop_alike (fun i _ _ hv => readPage_alike ht hv (frames i) i 0) fuel 0 0 h

end Logger

section Clock

variable (ht : SameTransfers twi twi' Rtc.IIC_ADDR_RTC R)

include ht

theorem setDate_alike {s : σ} {t : τ} (h : R s t) (a : Rtc.DateArgs) :
    R (Rtc.setDate twi a s).1 (Rtc.setDate twi' a t).1 ∧
      (Rtc.setDate twi a s).2 = (Rtc.setDate twi' a t).2 := by
  unfold Rtc.setDate
  split_ifs
  · exact (ht.write a.buffer 8 h).symm
  · exact ⟨h, rfl⟩

theorem logToSerial_alike (h : Alike R w w') (m : Rtc.Strings) (junk : ℕ → UInt8)
    (message : CString) :
    Outcome (Alike R) (Rtc.logToSerial twi m junk message w)
      (Rtc.logToSerial twi' m junk message w') := by
  obtain ⟨-, hbus⟩ := ht.write (fun _ => 0) 1 h.bus
  obtain ⟨hread, hbus⟩ := ht.read junk 7 hbus
  have hdate : Outcome (fun x y => R x.1 y.1 ∧ x.2 = y.2) (Rtc.readDate twi junk w.bus)
      (Rtc.readDate twi' junk w'.bus) := by
    unfold Rtc.readDate
    simp only [hread]
    cases (Rtc.RtcDateRegs.ofBytes (iicRead twi' Rtc.IIC_ADDR_RTC junk 7
      (iicWrite twi' Rtc.IIC_ADDR_RTC (fun _ => 0) 1 w'.bus).1).2.1).convert with
    | error e => exact .error e
    | ok date => exact .ok ⟨hbus, rfl⟩
  refine hdate.bind ?_
  rintro ⟨s, date⟩ ⟨t, date'⟩ ⟨hst, hdates⟩
  obtain rfl : date = date' := hdates
  simp only
  split_ifs
  · exact .error _
  · exact .ok ⟨hst, congrArg (· ++ _) h.serial⟩

end Clock

end Programs

/-! ## Calls -/

/-- A call of a function of `LogData`. -/
inductive LoggerCall
  | write (page : ℤ) (data : CString) (dl : ℤ) (f : Frame)
  | readPage (pg dl : ℤ) (f : Frame)
  | readFT (saddr eaddr dl : ℤ) (frames : ℤ → Frame) (fuel : ℕ)
  | readAll (frames : ℤ → Frame) (fuel : ℕ)
  | reset (dl : ℤ) (f : Frame)
  | getAddr (f : Frame)
  | writeAuto (data : CString) (fs : Frames)

/-- A call of a function of `LogTask`; `started` is the transfer of its constructor. -/
inductive ClockCall
  | started
  | setDate (a : Rtc.DateArgs)
  | logToSerial (message : CString) (junk : ℕ → UInt8)

/-- What a call prints, and what it returns unless it is `void`. -/
abbrev Answer := List UInt8 × Option ℤ

section Calls

variable {σ : Type} (twi : Twi σ)

/-- The call with what it writes to the serial port. -/
def LoggerCall.run (d : LogData) (w : World σ) : LoggerCall → Except Stop (World σ × Option ℤ)
  | .write page data dl f => do
      let (w, rc) ← DataLog.write twi d f page data dl w
      .ok (w, some rc)
  | .readPage pg dl f =>
      .ok ((DataLog.readPage twi d f pg dl w).1, some (DataLog.readPage twi d f pg dl w).2)
  | .readFT saddr eaddr dl frames fuel =>
      (DataLog.readFT twi d frames fuel saddr eaddr dl w).elim (.error .endless) fun r =>
        .ok (r.1, some r.2)
  | .readAll frames fuel =>
      (DataLog.readAll twi d frames fuel w).elim (.error .endless) fun r => .ok (r.1, some r.2)
  | .reset dl f => do
      let w ← DataLog.reset twi d f dl w
      .ok (w, none)
  | .getAddr f => .ok ((DataLog.getAddr twi d f w).1, some (DataLog.getAddr twi d f w).2)
  | .writeAuto data fs => do
      let (w, rc) ← DataLog.writeAuto twi d fs data w
      .ok (w, some rc)

def ClockCall.run (m : Rtc.Strings) (w : World σ) : ClockCall → Except Stop (World σ × Option ℤ)
  | .started =>
      .ok ({ w with bus := (iicWrite twi Rtc.IIC_ADDR_RTC (fun _ => 0) 2 w.bus).1 }, none)
  | .setDate a =>
      .ok ({ w with bus := (Rtc.setDate twi a w.bus).1 }, some (Rtc.setDate twi a w.bus).2)
  | .logToSerial message junk => do
      let w ← Rtc.logToSerial twi m junk message w
      .ok (w, none)

/-- The answer of a call and the bus after it. -/
def answer (run : World σ → Except Stop (World σ × Option ℤ)) (s : σ) : Except Stop (σ × Answer) :=
  do
    let (w, rc) ← run ⟨s, []⟩
    .ok (w.bus, w.serial, rc)

/-- A call to the logger with a port address. -/
def loggerCall (s : σ) (c : UInt8 × LoggerCall) : Except Stop (σ × Answer) :=
  answer (fun w => c.2.run twi (.constructed c.1) w) s

def clockCall (m : Rtc.Strings) (s : σ) (c : ClockCall) : Except Stop (σ × Answer) :=
  answer (fun w => c.run twi m w) s

/-- A call to either class. -/
def mixedCall (m : Rtc.Strings) (s : σ) :
    (UInt8 × LoggerCall) ⊕ ClockCall → Except Stop (σ × (Answer ⊕ Answer))
  | .inl c => do
      let (s, a) ← loggerCall twi s c
      .ok (s, .inl a)
  | .inr c => do
      let (s, a) ← clockCall twi m s c
      .ok (s, .inr a)

end Calls

section Alike

variable {σ τ : Type} {twi : Twi σ} {twi' : Twi τ} {R : σ → τ → Prop}

theorem outcome_of_rel {x : Option (World σ × ℤ)} {y : Option (World τ × ℤ)}
    (h : Option.Rel (AlikeResult R) x y) :
    Outcome (AlikeResult R)
      (x.elim (.error .endless) fun r => (.ok (r.1, some r.2) : Except Stop (World σ × Option ℤ)))
      (y.elim (.error .endless) fun r => .ok (r.1, some r.2)) := by
  cases h with
  | some h => exact .ok ⟨h.1, congrArg some h.2⟩
  | none => exact .error _

theorem LoggerCall.run_alike {d : LogData} (ht : SameAccesses twi twi' d R)
    {w : World σ} {w' : World τ} (h : Alike R w w') (c : LoggerCall) :
    Outcome (AlikeResult R) (c.run twi d w) (c.run twi' d w') := by
  cases c with
  | write page data dl f =>
      exact (write_alike ht h f page data dl).bind fun _ _ hr => .ok ⟨hr.1, congrArg some hr.2⟩
  | readPage pg dl f =>
      have hr := readPage_alike ht h f pg dl
      exact .ok ⟨hr.1, congrArg some hr.2⟩
  | readFT saddr eaddr dl frames fuel =>
      exact outcome_of_rel (readFT_alike ht h frames fuel saddr eaddr dl)
  | readAll frames fuel => exact outcome_of_rel (readAll_alike ht h frames fuel)
  | reset dl f => exact (reset_alike ht h f dl).bind fun _ _ hr => .ok ⟨hr, rfl⟩
  | getAddr f =>
      have hr := getAddr_alike ht h f
      exact .ok ⟨hr.1, congrArg some hr.2⟩
  | writeAuto data fs =>
      exact (writeAuto_alike ht h fs data).bind fun _ _ hr => .ok ⟨hr.1, congrArg some hr.2⟩

theorem ClockCall.run_alike (ht : SameTransfers twi twi' Rtc.IIC_ADDR_RTC R) (m : Rtc.Strings)
    {w : World σ} {w' : World τ} (h : Alike R w w') (c : ClockCall) :
    Outcome (AlikeResult R) (c.run twi m w) (c.run twi' m w') := by
  cases c with
  | started => exact .ok ⟨⟨(ht.write (fun _ => 0) 2 h.bus).2, h.serial⟩, rfl⟩
  | setDate a =>
      obtain ⟨hbus, hrc⟩ := setDate_alike ht h.bus a
      exact .ok ⟨⟨hbus, h.serial⟩, congrArg some hrc⟩
  | logToSerial message junk =>
      exact (logToSerial_alike ht h m junk message).bind fun _ _ hr => .ok ⟨hr, rfl⟩

theorem answer_alike {run : World σ → Except Stop (World σ × Option ℤ)}
    {run' : World τ → Except Stop (World τ × Option ℤ)}
    (hrun : ∀ w w', Alike R w w' → Outcome (AlikeResult R) (run w) (run' w')) {s : σ} {t : τ}
    (h : R s t) : Outcome (fun x y => R x.1 y.1 ∧ x.2 = y.2) (answer run s) (answer run' t) := by
  refine (hrun ⟨s, []⟩ ⟨t, []⟩ ⟨h, rfl⟩).bind ?_
  rintro ⟨w, rc⟩ ⟨w', rc'⟩ ⟨hw, hrc⟩
  exact .ok ⟨hw.bus, Prod.ext hw.serial hrc⟩

end Alike

/-! ## The addresses -/

theorem bus_slave :
    Slave Bus.twi (fun byte => byte &&& 0xf0 = 0xa0) fun b => b.phase = .unanswered where
  start _ := rfl
  foreign b byte hforeign := by
    have hselect : Bus.twi.send byte (Bus.twi.start b).2 =
        (if byte &&& 0x01 = 0 then 0x20 else 0x48, { b with phase := .unanswered }) := by
      simp only [Bus.twi, Bus.send, Bus.select, if_neg hforeign]
      split_ifs <;> rfl
    rw [hselect]
    refine ⟨?_, rfl, rfl⟩
    simp only
    split_ifs <;> decide
  send b byte hdeaf := by
    simp only [Bus.twi, Bus.send, hdeaf]
    decide
  receive b ack hdeaf := by
    simp only [Bus.twi, Bus.receive, hdeaf]
    decide
  stop _ := rfl

theorem clock_slave :
    Slave Rtc.Clock.twi (fun byte => byte = 0xde ∨ byte = 0xdf) fun c => c.phase = .idle where
  start _ := rfl
  foreign c byte hforeign := by
    have hselect : Rtc.Clock.twi.send byte (Rtc.Clock.twi.start c).2 =
        (if byte &&& 0x01 = 0 then 0x20 else 0x48, { c with phase := .idle }) := by
      rw [not_or] at hforeign
      simp only [Rtc.Clock.twi, if_neg hforeign.1, if_neg hforeign.2]
    rw [hselect]
    refine ⟨?_, rfl, rfl⟩
    simp only
    split_ifs <;> decide
  send c byte hdeaf := by
    simp only [Rtc.Clock.twi, hdeaf]
    decide
  receive c ack hdeaf := by
    simp only [Rtc.Clock.twi, hdeaf]
    decide
  stop _ := rfl

/-- No port address makes a logger call the clock: bit 5 of its address is set. -/
theorem logger_foreign (port_addr : UInt8) :
    Foreign (fun byte => byte = 0xde ∨ byte = 0xdf) (LogData.constructed port_addr).iicAddrE2 := by
  have hbit : ∀ byte : UInt8, byte.toBitVec.getLsbD 5 = true → ¬(byte = 0xde ∨ byte = 0xdf) := by
    rintro byte hbyte (rfl | rfl)
    · exact absurd hbyte (by decide)
    · exact absurd hbyte (by decide)
  constructor
  · apply hbit
    simp [LogData.constructed]
  · apply hbit
    simp [LogData.constructed]

theorem clock_foreign : Foreign (fun byte => byte &&& 0xf0 = 0xa0) Rtc.IIC_ADDR_RTC := by
  constructor <;> decide

theorem mixed_independent (m : Rtc.Strings) :
    Independent (mixedCall (shared Bus.twi Rtc.Clock.twi) m) (loggerCall Bus.twi)
      (clockCall Rtc.Clock.twi m) (fun b => Bus.twi.stop b = b)
      fun c => Rtc.Clock.twi.stop c = c where
  left_call b c call hb hc := by
    have ht := sameAccesses_of_transfers
      (sameTransfers_left bus_slave clock_slave hc (logger_foreign call.1))
    have hanswer : Outcome _ (loggerCall (shared Bus.twi Rtc.Clock.twi) (b, c) call)
        (loggerCall Bus.twi b call) :=
      answer_alike (fun w w' h => LoggerCall.run_alike ht h call.2) ⟨rfl, hb⟩
    unfold mixedCall
    rw [← bind_pure (loggerCall Bus.twi b call)]
    refine hanswer.bind ?_
    rintro ⟨x, a⟩ ⟨b', a'⟩ ⟨⟨hx, hrest⟩, ha⟩
    simp only at hx ha
    subst hx ha
    exact .ok ⟨rfl, hrest⟩
  right_call b c call hb hc := by
    have ht := sameTransfers_right bus_slave clock_slave hb clock_foreign
    have hanswer : Outcome _ (clockCall (shared Bus.twi Rtc.Clock.twi) m (b, c) call)
        (clockCall Rtc.Clock.twi m c call) :=
      answer_alike (fun w w' h => ClockCall.run_alike ht m h call) ⟨rfl, hc⟩
    unfold mixedCall
    rw [← bind_pure (clockCall Rtc.Clock.twi m c call)]
    refine hanswer.bind ?_
    rintro ⟨x, a⟩ ⟨c', a'⟩ ⟨⟨hx, hrest⟩, ha⟩
    simp only at hx ha
    subst hx ha
    exact .ok ⟨rfl, hrest⟩

/-- Calls to loggers with any port addresses and to the clock, mixed in any order on one bus.
Each call comes with what the stack holds for it, and the registers of the clock change only
when they are written.  Every call prints and returns what it does when the devices of the
other kind are not on the bus, the EEPROMs and the clock end as in the separate runs, and the
mixed run stops early only if one of the separate runs does. -/
theorem sharedBus_independent (m : Rtc.Strings) (b : Bus) (c : Rtc.Clock) (hb : b.phase = .idle)
    (hc : c.phase = .idle) (calls : List ((UInt8 × LoggerCall) ⊕ ClockCall)) :
    (∀ b' c' answers,
      callAll (mixedCall (shared Bus.twi Rtc.Clock.twi) m) (b, c) calls = .ok ((b', c'), answers) →
        callAll (loggerCall Bus.twi) b (calls.filterMap Sum.getLeft?) =
          .ok (b', answers.filterMap Sum.getLeft?) ∧
        callAll (clockCall Rtc.Clock.twi m) c (calls.filterMap Sum.getRight?) =
          .ok (c', answers.filterMap Sum.getRight?) ∧
        answers.map Sum.isLeft = calls.map Sum.isLeft) ∧
    ((∃ x, callAll (mixedCall (shared Bus.twi Rtc.Clock.twi) m) (b, c) calls = .ok x) ↔
      (∃ y, callAll (loggerCall Bus.twi) b (calls.filterMap Sum.getLeft?) = .ok y) ∧
        ∃ z, callAll (clockCall Rtc.Clock.twi m) c (calls.filterMap Sum.getRight?) = .ok z) := by
  have hrestBus : Bus.twi.stop b = b := by
    cases b
    cases hb
    rfl
  have hrestClock : Rtc.Clock.twi.stop c = c := by
    cases c
    cases hc
    rfl
  have hindependent := mixed_independent m
  refine ⟨fun b' c' answers hrun => hindependent.of_joint hrestBus hrestClock hrun, ?_, ?_⟩
  · rintro ⟨⟨⟨b', c'⟩, answers⟩, hrun⟩
    obtain ⟨hloggers, hclock, -⟩ := hindependent.of_joint hrestBus hrestClock hrun
    exact ⟨⟨_, hloggers⟩, ⟨_, hclock⟩⟩
  · rintro ⟨⟨⟨b', as⟩, hloggers⟩, ⟨⟨c', bs⟩, hclock⟩⟩
    obtain ⟨answers, hrun⟩ := hindependent.to_joint hrestBus hrestClock hloggers hclock
    exact ⟨_, hrun⟩

/-- A record is written, the date set, the record read back and the clock started. -/
def mixture : List ((UInt8 × LoggerCall) ⊕ ClockCall) :=
  [.inl (0, .write 3 ⟨[72, 73], by decide⟩ 0 ⟨fun _ => 0, []⟩), .inr (.setDate Rtc.afternoon),
    .inl (0, .readPage 3 0 ⟨fun _ => 7, []⟩), .inr .started]

theorem exists_eq_ok_of_map {σ α : Type} {x : Except Stop (σ × α)} {a : α}
    (h : x.map Prod.snd = .ok a) : ∃ s, x = .ok (s, a) := by
  cases x with
  | error e => cases h
  | ok r =>
      cases h
      exact ⟨r.1, rfl⟩

theorem sharedBus_independent_mixture :
    ∃ b c answers,
      callAll (mixedCall (shared Bus.twi Rtc.Clock.twi) Rtc.nameTable)
        (⟨fun _ => ⟨fun _ => 0xff, 0⟩, .idle⟩, .blank) mixture = .ok ((b, c), answers) ∧
      answers.filterMap Sum.getLeft? = [([], some 0), ([72, 73], some 0)] ∧
      answers.filterMap Sum.getRight? = [([], some 0), ([], none)] := by
  obtain ⟨hanswers, hends⟩ := sharedBus_independent Rtc.nameTable
    ⟨fun _ => ⟨fun _ => 0xff, 0⟩, .idle⟩ .blank rfl rfl mixture
  obtain ⟨b, hloggers⟩ := exists_eq_ok_of_map (x := callAll (loggerCall Bus.twi)
    ⟨fun _ => ⟨fun _ => 0xff, 0⟩, .idle⟩ (mixture.filterMap Sum.getLeft?))
    (a := [([], some 0), ([72, 73], some 0)]) (by decide +kernel)
  obtain ⟨c, hclock⟩ := exists_eq_ok_of_map (x := callAll (clockCall Rtc.Clock.twi Rtc.nameTable)
    .blank (mixture.filterMap Sum.getRight?)) (a := [([], some 0), ([], none)]) (by decide +kernel)
  obtain ⟨⟨⟨b', c'⟩, answers⟩, hrun⟩ := hends.mpr ⟨⟨_, hloggers⟩, ⟨_, hclock⟩⟩
  obtain ⟨hleft, hright, -⟩ := hanswers b' c' answers hrun
  rw [hloggers, Except.ok.injEq, Prod.mk.injEq] at hleft
  rw [hclock, Except.ok.injEq, Prod.mk.injEq] at hright
  exact ⟨b', c', answers, hrun, hleft.2.symm, hright.2.symm⟩

end EmbeddedKernel.Application
