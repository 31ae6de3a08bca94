import EmbeddedKernel.Iic.Driver
import EmbeddedKernel.Library.Polling

/-!
# The registers of the two-wire unit

The driver writes `TWCR` to start an operation and then polls `TWCR` until the unit has set
`TWINT`, or cleared `TWSTO` after a STOP.  Here it runs one statement at a time, with a unit
that takes any time for an operation and may never complete it.  When every operation
completes, `IICWrite` and `IICRead` do what the driver does on a unit without waits; they
return only if every operation they start completes.
-/

namespace EmbeddedKernel.Iic

open Library

def TWINT : UInt8 := 0x80

def TWEA : UInt8 := 0x40

def TWSTA : UInt8 := 0x20

def TWSTO : UInt8 := 0x10

def TWEN : UInt8 := 0x04

/-- What the unit does with a byte: after a START it is an address, whose lowest bit says
whether data are sent or received. -/
inductive Mode
  | address
  | transmit
  | receive
  deriving DecidableEq

/-- The unit with its registers; `device` is what is connected to it and `pending` the operation
in progress. -/
structure TwiUnit (σ : Type*) where
  device : σ
  twcr : UInt8
  twsr : UInt8
  twdr : UInt8
  mode : Mode
  pending : Option Operation

namespace TwiUnit

variable {σ : Type*} (twi : Twi σ)

/-- The operation that a write of `TWCR` starts. -/
def operation (u : TwiUnit σ) (twcr : UInt8) : Operation :=
  if twcr &&& TWSTA ≠ 0 then .start
  else if twcr &&& TWSTO ≠ 0 then .stop
  else if u.mode = .receive then .receive (twcr &&& TWEA ≠ 0)
  else .send u.twdr

/-- Writing a one to `TWINT` clears it and starts the operation. -/
def writeTwcr (u : TwiUnit σ) (twcr : UInt8) : TwiUnit σ :=
  { u with twcr := twcr &&& ~~~TWINT, pending := some (u.operation twcr) }

/-- The operation in progress completes. -/
def complete (u : TwiUnit σ) : TwiUnit σ :=
  match u.pending with
  | none => u
  | some .start =>
      { u with
        device := (twi.start u.device).2
        twsr := (twi.start u.device).1
        twcr := u.twcr ||| TWINT
        mode := .address
        pending := none }
  | some (.send byte) =>
      { u with
        device := (twi.send byte u.device).2
        twsr := (twi.send byte u.device).1
        twcr := u.twcr ||| TWINT
        mode := if u.mode = .address ∧ byte &&& 0x01 ≠ 0 then .receive else .transmit
        pending := none }
  | some (.receive ack) =>
      { u with
        device := (twi.receive ack u.device).2.2
        twsr := (twi.receive ack u.device).1
        twdr := (twi.receive ack u.device).2.1
        twcr := u.twcr ||| TWINT
        pending := none }
  | some .stop =>
      { u with
        device := twi.stop u.device
        twcr := u.twcr &&& ~~~TWSTO
        pending := none }

end TwiUnit

/-- A call of `IICWrite` or `IICRead`. -/
inductive Transfer
  | write (addr : UInt8) (nToSend : UInt16)
  | read (addr : UInt8) (nToRecv : UInt16)
  deriving DecidableEq

namespace Transfer

/-- The byte that is sent as the address. -/
def address : Transfer → UInt8
  | .write addr _ => addr &&& 0xfe
  | .read addr _ => addr ||| 0x01

/-- The status of an acknowledged address. -/
def addressed : Transfer → UInt8
  | .write _ _ => 0x18
  | .read _ _ => 0x40

def length : Transfer → UInt16
  | .write _ n | .read _ n => n

/-- What is written to `TWCR` for the byte at `idx`. -/
def byteControl : Transfer → ℤ → UInt8
  | .write _ _, _ => TWINT ||| TWEN
  | .read _ nToRecv, idx =>
      if Avr.toUnsigned idx = (nToRecv - 1).toNat then TWINT ||| TWEN
      else TWINT ||| TWEN ||| TWEA

end Transfer

/-- The operations that are waited for by polling `TWINT`. -/
inductive Phase
  | start
  | address
  | byte (idx : ℤ)
  deriving DecidableEq

def Phase.control (t : Transfer) : Phase → UInt8
  | .start => TWINT ||| TWEN ||| TWSTA
  | .address => TWINT ||| TWEN
  | .byte idx => t.byteControl idx

/-- The next statement of the driver. -/
inductive Point
  | go (phase : Phase)
  | wait (phase : Phase)
  | test (phase : Phase)
  | loadAddress
  | loop (idx : ℤ)
  | loadByte (idx : ℤ)
  | stop (rc : ℤ)
  | waitStop (rc : ℤ)
  | returned (rc : ℤ)
  deriving DecidableEq

structure Driver (σ : Type*) where
  point : Point
  dbytes : ℕ → UInt8
  unit : TwiUnit σ

namespace Driver

variable {σ : Type*} (twi : Twi σ) (t : Transfer)

/-- One statement of `IICWrite` or `IICRead`. -/
def statement (x : Driver σ) : Driver σ :=
  match x.point with
  | .go phase => { x with point := .wait phase, unit := x.unit.writeTwcr (phase.control t) }
  | .wait phase => if x.unit.twcr &&& TWINT = 0 then x else { x with point := .test phase }
  | .test .start =>
      if x.unit.twsr &&& 0x08 ≠ 0 then { x with point := .loadAddress }
      else { x with point := .returned (-1) }
  | .loadAddress =>
      { x with point := .go .address, unit := { x.unit with twdr := t.address } }
  | .test .address =>
      if x.unit.twsr &&& 0xf8 = t.addressed then { x with point := .loop 0 }
      else { x with point := .stop (-2) }
  | .loop idx =>
      if Avr.toUnsigned idx < t.length.toNat then { x with point := .loadByte idx }
      else { x with point := .stop 0 }
  | .loadByte idx =>
      match t with
      | .write _ _ =>
          { x with
            point := .go (.byte idx)
            unit := { x.unit with twdr := x.dbytes (Avr.toUnsigned idx) } }
      | .read _ _ => { x with point := .go (.byte idx) }
  | .test (.byte idx) =>
      match t with
      | .write _ _ =>
          if x.unit.twsr &&& 0xf8 ≠ 0x28 then { x with point := .stop (-2) }
          else { x with point := .loop (Avr.wrap16 (idx + 1)) }
      | .read _ _ =>
          if x.unit.twsr &&& 0xf8 = 0x50 ∨ x.unit.twsr &&& 0xf8 = 0x58 then
            { x with
              point := .loop (Avr.wrap16 (idx + 1))
              dbytes := Function.update x.dbytes (Avr.toUnsigned idx) x.unit.twdr }
          else { x with point := .stop (-2) }
  | .stop rc =>
      { x with point := .waitStop rc, unit := x.unit.writeTwcr (TWINT ||| TWEN ||| TWSTO) }
  | .waitStop rc =>
      if x.unit.twcr &&& TWSTO ≠ 0 then x else { x with point := .returned rc }
  | .returned _ => x

/-- A statement of the driver, after which the unit may complete its operation. -/
def step (x : Driver σ) (completes : Bool) : Driver σ :=
  let x := x.statement t
  if completes = true then { x with unit := x.unit.complete twi } else x

end Driver

/-- The same call on a unit without waits. -/
def transfer {σ : Type*} (twi : Twi σ) (dbytes : ℕ → UInt8) (s : σ) :
    Transfer → σ × (ℕ → UInt8) × ℤ
  | .write addr nToSend =>
      let (s, rc) := iicWrite twi addr dbytes nToSend s
      (s, dbytes, rc)
  | .read addr nToRecv => iicRead twi addr dbytes nToRecv s

/-! ## Single operations -/

section Operations

variable {σ : Type*} {twi : Twi σ} {t : Transfer} {schedule : ℕ → Bool} {x y : Driver σ} {i : ℕ}
  {dbytes : ℕ → UInt8} {s : σ} {mode : Mode}

/-- Every operation in progress completes at some time. -/
def Completing (twi : Twi σ) (t : Transfer) (schedule : ℕ → Bool) (x : Driver σ) : Prop :=
  ∀ i, (course (Driver.step twi t) schedule x i).unit.pending ≠ none → CompletesFrom schedule i

theorem step_idle (hidle : (y.statement t).unit.pending = none) (completes : Bool) :
    y.step twi t completes = y.statement t := by
  cases completes with
  | false => rfl
  | true => simp [Driver.step, TwiUnit.complete, hidle]

/-- `TWCR` after it has been written for a phase, before and after the operation completes. -/
theorem control_flags (t : Transfer) (phase : Phase) :
    (phase.control t &&& ~~~TWINT) &&& TWINT = 0 ∧
      (phase.control t &&& ~~~TWINT ||| TWINT) &&& TWINT ≠ 0 ∧ phase.control t &&& TWSTO = 0 := by
  cases phase with
  | start =>
      simp only [Phase.control]
      decide
  | address =>
      simp only [Phase.control]
      decide
  | byte idx =>
      cases t with
      | write addr n =>
          simp only [Phase.control, Transfer.byteControl]
          decide
      | read addr n =>
          simp only [Phase.control, Transfer.byteControl]
          split_ifs <;> decide

/-- The state in which an operation has been started. -/
def Driver.started (t : Transfer) (y : Driver σ) (phase : Phase) : Driver σ :=
  { y with point := .wait phase, unit := y.unit.writeTwcr (phase.control t) }

/-- The state in which it has completed. -/
def Driver.completed (twi : Twi σ) (t : Transfer) (y : Driver σ) (phase : Phase) : Driver σ :=
  { y.started t phase with unit := (y.started t phase).unit.complete twi }

theorem operation_ne_stop (u : TwiUnit σ) (phase : Phase) :
    u.operation (phase.control t) ≠ .stop := by
  have hflag := (control_flags t phase).2.2
  unfold TwiUnit.operation
  split_ifs <;> simp_all

theorem completed_unit (twi : Twi σ) (t : Transfer) (y : Driver σ) (phase : Phase) :
    (y.completed twi t phase).unit.pending = none ∧
      (y.completed twi t phase).unit.twcr &&& TWINT ≠ 0 := by
  have hflag := (control_flags t phase).2.1
  have hne := operation_ne_stop (t := t) y.unit phase
  simp only [Driver.completed, Driver.started, TwiUnit.writeTwcr, TwiUnit.complete]
  cases hop : y.unit.operation (phase.control t) with
  | stop => exact (hne hop).elim
  | start => exact ⟨rfl, hflag⟩
  | send byte => exact ⟨rfl, hflag⟩
  | receive ack => exact ⟨rfl, hflag⟩

/-- An operation that the driver starts is completed and its wait left. -/
theorem eventually_operation {phase : Phase} (hfair : Completing twi t schedule x)
    (hi : course (Driver.step twi t) schedule x i = y) (hpoint : y.point = .go phase) :
    Eventually (Driver.step twi t) schedule x i fun z =>
      z = { y.completed twi t phase with point := .test phase } := by
  have hstatement : y.statement t = y.started t phase := by
    simp [Driver.statement, hpoint, Driver.started]
  have hpoll : (y.started t phase).statement t = y.started t phase := by
    have hflag := (control_flags t phase).1
    simp [Driver.statement, Driver.started, TwiUnit.writeTwcr, hflag]
  -- the operation completes with the statement that starts it or while the driver polls
  have hcompleted : Eventually (Driver.step twi t) schedule x i fun z =>
      z = y.completed twi t phase := by
    cases hb : schedule i with
    | true =>
        apply Eventually.of_step
        rw [hi, hb]
        simp [Driver.step, hstatement, Driver.completed]
    | false =>
        have hnext : course (Driver.step twi t) schedule x (i + 1) = y.started t phase := by
          rw [course, hi, hb]
          simp [Driver.step, hstatement]
        have hwait : (y.started t phase).step twi t false = y.started t phase := by
          simp [Driver.step, hpoll]
        have hcompletes : CompletesFrom schedule (i + 1) := by
          apply hfair
          rw [hnext]
          simp [Driver.started, TwiUnit.writeTwcr]
        obtain ⟨j, hij, hj⟩ := Eventually.of_wait hnext hwait hcompletes
        refine ⟨j, (Nat.le_succ i).trans hij, ?_⟩
        rw [hj]
        simp [Driver.step, hpoll, Driver.completed]
  refine hcompleted.trans fun j _ hj => ?_
  obtain ⟨hidle, hflag⟩ := completed_unit twi t y phase
  have hleave : (y.completed twi t phase).statement t =
      { y.completed twi t phase with point := .test phase } := by
    have hwait : (y.completed twi t phase).point = .wait phase := rfl
    simp only [Driver.statement, hwait, hflag, if_false]
  apply Eventually.of_step
  rw [hj, step_idle, hleave]
  rw [hleave]
  exact hidle

/-! ## The states that the driver comes to -/

/-- The driver is about to execute the statement at `p`, and the unit is idle. -/
structure At (y : Driver σ) (p : Point) (dbytes : ℕ → UInt8) (s : σ) (mode : Mode) : Prop where
  point : y.point = p
  dbytes : y.dbytes = dbytes
  device : y.unit.device = s
  mode : y.unit.mode = mode
  idle : y.unit.pending = none

theorem eventually_statement {P : Driver σ → Prop}
    (hidle : ((course (Driver.step twi t) schedule x i).statement t).unit.pending = none)
    (h : P ((course (Driver.step twi t) schedule x i).statement t)) :
    Eventually (Driver.step twi t) schedule x i P := by
  apply Eventually.of_step
  rwa [step_idle hidle]

/-- A statement that only moves the point. -/
theorem eventually_move {p q : Point}
    (hy : At (course (Driver.step twi t) schedule x i) p dbytes s mode)
    (hstatement : (course (Driver.step twi t) schedule x i).statement t =
      { course (Driver.step twi t) schedule x i with point := q }) :
    Eventually (Driver.step twi t) schedule x i fun z => At z q dbytes s mode := by
  apply eventually_statement
  · rw [hstatement]
    exact hy.idle
  · rw [hstatement]
    exact ⟨rfl, hy.dbytes, hy.device, hy.mode, hy.idle⟩

theorem eventually_start (hfair : Completing twi t schedule x)
    (hy : At (course (Driver.step twi t) schedule x i) (.go .start) dbytes s mode) :
    Eventually (Driver.step twi t) schedule x i fun z =>
      At z (.test .start) dbytes (twi.start s).2 .address ∧ z.unit.twsr = (twi.start s).1 := by
  refine (eventually_operation hfair rfl hy.point).trans fun j _ hj => .now ?_
  rw [hj]
  have hop : ∀ u : TwiUnit σ, u.operation (Phase.control t .start) = .start := by
    intro u
    have hstart : Phase.control t .start &&& TWSTA ≠ 0 := by
      simp only [Phase.control]
      decide
    simp [TwiUnit.operation, hstart]
  simp only [Driver.completed, Driver.started, TwiUnit.writeTwcr, TwiUnit.complete, hop]
  exact ⟨⟨rfl, hy.dbytes, by simp [hy.device], rfl, rfl⟩, by simp [hy.device]⟩

/-- A byte is sent unless the unit receives. -/
theorem eventually_send {phase : Phase} {byte : UInt8} (hfair : Completing twi t schedule x)
    (hy : At (course (Driver.step twi t) schedule x i) (.go phase) dbytes s mode)
    (hcontrol : phase.control t = TWINT ||| TWEN) (hmode : mode ≠ .receive)
    (hbyte : (course (Driver.step twi t) schedule x i).unit.twdr = byte) :
    Eventually (Driver.step twi t) schedule x i fun z =>
      At z (.test phase) dbytes (twi.send byte s).2
        (if mode = .address ∧ byte &&& 0x01 ≠ 0 then .receive else .transmit) ∧
      z.unit.twsr = (twi.send byte s).1 := by
  refine (eventually_operation hfair rfl hy.point).trans fun j _ hj => .now ?_
  rw [hj]
  have hop : (course (Driver.step twi t) schedule x i).unit.operation (phase.control t) =
      .send byte := by
    have hstart : (TWINT ||| TWEN) &&& TWSTA = 0 := by decide
    have hstop : (TWINT ||| TWEN) &&& TWSTO = 0 := by decide
    simp [TwiUnit.operation, hcontrol, hstart, hstop, hy.mode, hmode, hbyte]
  simp only [Driver.completed, Driver.started, TwiUnit.writeTwcr, TwiUnit.complete, hop]
  exact ⟨⟨rfl, hy.dbytes, by simp [hy.device], by simp [hy.mode], rfl⟩, by simp [hy.device]⟩

/-- A byte is received with the acknowledgement that `TWEA` asks for. -/
theorem eventually_receive {idx : ℤ} {ack : Bool} (hfair : Completing twi t schedule x)
    (hy : At (course (Driver.step twi t) schedule x i) (.go (.byte idx)) dbytes s .receive)
    (hcontrol : t.byteControl idx = if ack then TWINT ||| TWEN ||| TWEA else TWINT ||| TWEN) :
    Eventually (Driver.step twi t) schedule x i fun z =>
      At z (.test (.byte idx)) dbytes (twi.receive ack s).2.2 .receive ∧
      z.unit.twsr = (twi.receive ack s).1 ∧ z.unit.twdr = (twi.receive ack s).2.1 := by
  refine (eventually_operation hfair rfl hy.point).trans fun j _ hj => .now ?_
  rw [hj]
  have hop : (course (Driver.step twi t) schedule x i).unit.operation
      (Phase.control t (.byte idx)) = .receive ack := by
    simp only [TwiUnit.operation, Phase.control, hcontrol, hy.mode]
    cases ack <;> rfl
  simp only [Driver.completed, Driver.started, TwiUnit.writeTwcr, TwiUnit.complete, hop]
  exact ⟨⟨rfl, hy.dbytes, by simp [hy.device], hy.mode, rfl⟩, by simp [hy.device],
    by simp [hy.device]⟩

/-- The STOP at the end of a transfer. -/
theorem eventually_stop {rc : ℤ} (hfair : Completing twi t schedule x)
    (hy : At (course (Driver.step twi t) schedule x i) (.stop rc) dbytes s mode) :
    Eventually (Driver.step twi t) schedule x i fun z =>
      At z (.returned rc) dbytes (twi.stop s) mode := by
  generalize hx : course (Driver.step twi t) schedule x i = y at hy
  let w : Driver σ :=
    { y with point := .waitStop rc, unit := y.unit.writeTwcr (TWINT ||| TWEN ||| TWSTO) }
  have hstatement : y.statement t = w := by
    simp [Driver.statement, hy.point, w]
  have hpoll : w.statement t = w := by
    have hflag : ((TWINT ||| TWEN ||| TWSTO) &&& ~~~TWINT) &&& TWSTO ≠ 0 := by decide
    simp [Driver.statement, w, TwiUnit.writeTwcr, hflag]
  have hop : y.unit.operation (TWINT ||| TWEN ||| TWSTO) = .stop := by
    have hstart : (TWINT ||| TWEN ||| TWSTO) &&& TWSTA = 0 := by decide
    have hstop : (TWINT ||| TWEN ||| TWSTO) &&& TWSTO ≠ 0 := by decide
    simp [TwiUnit.operation, hstart, hstop]
  have hcompleted : Eventually (Driver.step twi t) schedule x i fun z =>
      z = { w with unit := w.unit.complete twi } := by
    cases hb : schedule i with
    | true =>
        apply Eventually.of_step
        rw [hx, hb]
        simp [Driver.step, hstatement]
    | false =>
        have hnext : course (Driver.step twi t) schedule x (i + 1) = w := by
          rw [course, hx, hb]
          simp [Driver.step, hstatement]
        have hcompletes : CompletesFrom schedule (i + 1) := by
          apply hfair
          rw [hnext]
          simp [w, TwiUnit.writeTwcr]
        obtain ⟨j, hij, hj⟩ :=
          Eventually.of_wait hnext (by simp [Driver.step, hpoll]) hcompletes
        refine ⟨j, (Nat.le_succ i).trans hij, ?_⟩
        rw [hj]
        simp [Driver.step, hpoll]
  refine hcompleted.trans fun j _ hj => ?_
  have hflag : ((TWINT ||| TWEN ||| TWSTO) &&& ~~~TWINT) &&& ~~~TWSTO &&& TWSTO = 0 := by decide
  have hleave : ({ w with unit := w.unit.complete twi } : Driver σ).statement t =
      { w with unit := w.unit.complete twi, point := .returned rc } := by
    simp only [Driver.statement, w, TwiUnit.writeTwcr, hop, TwiUnit.complete]
    simp [hflag]
  have hdone : At ({ w with unit := w.unit.complete twi, point := .returned rc } : Driver σ)
      (.returned rc) dbytes (twi.stop s) mode := by
    simp only [w, TwiUnit.writeTwcr, hop, TwiUnit.complete]
    exact ⟨rfl, hy.dbytes, by simp [hy.device], hy.mode, rfl⟩
  apply eventually_statement
  · rw [hj, hleave]
    exact hdone.idle
  · rw [hj, hleave]
    exact hdone

/-! ## The loops over the bytes -/

/-- The test of a loop that goes on. -/
theorem eventually_loadByte {n j : ℕ}
    (hy : At (course (Driver.step twi t) schedule x i) (.loop (Avr.wrap16 j)) dbytes s mode)
    (hn : t.length.toNat = n) (hj : j < n) :
    Eventually (Driver.step twi t) schedule x i fun z =>
      At z (.loadByte (Avr.wrap16 j)) dbytes s mode := by
  have hidx : Avr.toUnsigned (Avr.wrap16 j) < t.length.toNat := by
    rw [toUnsigned_wrap16_of_le t.length (by omega), hn]
    exact hj
  apply eventually_move hy
  simp only [Driver.statement, hy.point, hidx, if_true]

/-- The test of a loop that has come to its end. -/
theorem eventually_loop_end {n : ℕ}
    (hy : At (course (Driver.step twi t) schedule x i) (.loop (Avr.wrap16 n)) dbytes s mode)
    (hn : t.length.toNat = n) :
    Eventually (Driver.step twi t) schedule x i fun z => At z (.stop 0) dbytes s mode := by
  have hidx : ¬Avr.toUnsigned (Avr.wrap16 n) < t.length.toNat := by
    rw [toUnsigned_wrap16_of_le t.length (by omega), hn]
    exact Nat.lt_irrefl n
  apply eventually_move hy
  simp only [Driver.statement, hy.point, hidx, if_false]

/-- The loop of `IICWrite` sends the bytes up to the first one that is refused. -/
theorem eventually_sent {addr : UInt8} {n : UInt16} {j k : ℕ}
    (hfair : Completing twi (.write addr n) schedule x) (hk : j + k = n.toNat)
    (hy : At (course (Driver.step twi (.write addr n)) schedule x i) (.loop (Avr.wrap16 j)) dbytes s
      .transmit) :
    Eventually (Driver.step twi (.write addr n)) schedule x i fun z =>
      At z (.stop (sendList twi ((List.range' j k).map dbytes) s).2) dbytes
        (sendList twi ((List.range' j k).map dbytes) s).1 .transmit := by
  induction k generalizing j s i with
  | zero =>
      rw [Nat.add_zero] at hk
      subst hk
      exact eventually_loop_end hy rfl
  | succ k ih =>
      have hidx : Avr.toUnsigned (Avr.wrap16 j) = j := toUnsigned_wrap16_of_le n (by omega)
      refine (eventually_loadByte hy rfl (by simp only [Transfer.length]; omega)).trans
        fun i₁ _ h₁ => ?_
      -- `TWDR` is loaded and the byte is sent
      have hload : Eventually (Driver.step twi (.write addr n)) schedule x i₁ fun z =>
          At z (.go (.byte (Avr.wrap16 j))) dbytes s .transmit ∧ z.unit.twdr = dbytes j := by
        have hstatement : (course (Driver.step twi (.write addr n)) schedule x i₁).statement
            (.write addr n) =
            { course (Driver.step twi (.write addr n)) schedule x i₁ with
              point := .go (.byte (Avr.wrap16 j))
              unit := { (course (Driver.step twi (.write addr n)) schedule x i₁).unit with
                twdr := dbytes j } } := by
          simp only [Driver.statement, h₁.point, hidx, h₁.dbytes]
        apply eventually_statement
        · rw [hstatement]
          exact h₁.idle
        · rw [hstatement]
          exact ⟨⟨rfl, h₁.dbytes, h₁.device, h₁.mode, h₁.idle⟩, rfl⟩
      refine hload.trans fun i₂ _ h₂ => ?_
      refine (eventually_send hfair h₂.1 rfl (by decide) h₂.2).trans fun i₃ _ h₃ => ?_
      obtain ⟨h₃, htwsr⟩ := h₃
      rw [List.range'_succ, List.map_cons]
      by_cases hack : (twi.send (dbytes j) s).1 &&& 0xf8 ≠ 0x28
      · have hlist : sendList twi (dbytes j :: (List.range' (j + 1) k).map dbytes) s =
            ((twi.send (dbytes j) s).2, -2) := by
          simp only [sendList]
          rw [if_pos hack]
        rw [hlist]
        apply eventually_move h₃
        simp only [Driver.statement, h₃.point, htwsr]
        rw [if_pos hack]
      · have hlist : sendList twi (dbytes j :: (List.range' (j + 1) k).map dbytes) s =
            sendList twi ((List.range' (j + 1) k).map dbytes) (twi.send (dbytes j) s).2 := by
          simp only [sendList]
          rw [if_neg hack]
        rw [hlist]
        have hnext : Eventually (Driver.step twi (.write addr n)) schedule x i₃ fun z =>
            At z (.loop (Avr.wrap16 ((j + 1 : ℕ) : ℤ))) dbytes (twi.send (dbytes j) s).2
              .transmit := by
          apply eventually_move h₃
          simp only [Driver.statement, h₃.point, htwsr, wrap16_succ]
          rw [if_neg hack]
        exact hnext.trans fun i₄ _ h₄ => ih (by omega) h₄

/-- The loop of `IICRead` stores the bytes up to the first one with a bad status. -/
theorem eventually_received {addr : UInt8} {n : UInt16} {j k : ℕ}
    (hfair : Completing twi (.read addr n) schedule x) (hk : j + k = n.toNat)
    (hy : At (course (Driver.step twi (.read addr n)) schedule x i) (.loop (Avr.wrap16 j)) dbytes s
      .receive) :
    Eventually (Driver.step twi (.read addr n)) schedule x i fun z =>
      At z (.stop (receiveList twi k j dbytes s).2.2) (receiveList twi k j dbytes s).2.1
        (receiveList twi k j dbytes s).1 .receive := by
  induction k generalizing j s i dbytes with
  | zero =>
      rw [Nat.add_zero] at hk
      subst hk
      exact eventually_loop_end hy rfl
  | succ k ih =>
      have hidx : Avr.toUnsigned (Avr.wrap16 j) = j := toUnsigned_wrap16_of_le n (by omega)
      refine (eventually_loadByte hy rfl (by simp only [Transfer.length]; omega)).trans
        fun i₁ _ h₁ => ?_
      have hgo : Eventually (Driver.step twi (.read addr n)) schedule x i₁ fun z =>
          At z (.go (.byte (Avr.wrap16 j))) dbytes s .receive := by
        apply eventually_move h₁
        simp only [Driver.statement, h₁.point]
      refine hgo.trans fun i₂ _ h₂ => ?_
      have hcontrol : Transfer.byteControl (.read addr n) (Avr.wrap16 j) =
          if decide (k ≠ 0) then TWINT ||| TWEN ||| TWEA else TWINT ||| TWEN := by
        have hlast : (n - 1).toNat = n.toNat - 1 := by
          have hn := n.toNat_lt
          rw [UInt16.toNat_sub]
          simp only [UInt16.toNat_one]
          omega
        rw [Transfer.byteControl, hidx, hlast]
        by_cases hk0 : k = 0
        · rw [if_pos (by omega), if_neg (by simp [hk0])]
        · rw [if_neg (by omega), if_pos (by simp [hk0])]
      refine (eventually_receive hfair h₂ hcontrol).trans fun i₃ _ h₃ => ?_
      obtain ⟨h₃, htwsr, htwdr⟩ := h₃
      by_cases hack : (twi.receive (decide (k ≠ 0)) s).1 &&& 0xf8 = 0x50 ∨
          (twi.receive (decide (k ≠ 0)) s).1 &&& 0xf8 = 0x58
      · have hlist : receiveList twi (k + 1) j dbytes s =
            receiveList twi k (j + 1)
              (Function.update dbytes j (twi.receive (decide (k ≠ 0)) s).2.1)
              (twi.receive (decide (k ≠ 0)) s).2.2 := by
          simp only [receiveList]
          rw [if_pos hack]
        rw [hlist]
        have hstatement : (course (Driver.step twi (.read addr n)) schedule x i₃).statement
            (.read addr n) =
            { course (Driver.step twi (.read addr n)) schedule x i₃ with
              point := .loop (Avr.wrap16 ((j + 1 : ℕ) : ℤ))
              dbytes := Function.update dbytes j (twi.receive (decide (k ≠ 0)) s).2.1 } := by
          simp only [Driver.statement, h₃.point, htwsr, htwdr, h₃.dbytes, hidx, wrap16_succ]
          rw [if_pos hack]
        have hnext : Eventually (Driver.step twi (.read addr n)) schedule x i₃ fun z =>
            At z (.loop (Avr.wrap16 ((j + 1 : ℕ) : ℤ)))
              (Function.update dbytes j (twi.receive (decide (k ≠ 0)) s).2.1)
              (twi.receive (decide (k ≠ 0)) s).2.2 .receive := by
          apply eventually_statement
          · rw [hstatement]
            exact h₃.idle
          · rw [hstatement]
            exact ⟨rfl, rfl, h₃.device, h₃.mode, h₃.idle⟩
        exact hnext.trans fun i₄ _ h₄ => ih (by omega) h₄
      · have hlist : receiveList twi (k + 1) j dbytes s =
            ((twi.receive (decide (k ≠ 0)) s).2.2, dbytes, -2) := by
          simp only [receiveList]
          rw [if_neg hack]
        rw [hlist]
        apply eventually_move h₃
        simp only [Driver.statement, h₃.point, htwsr]
        rw [if_neg hack]

/-! ## Whole transfers -/

/-- The mode of the unit while the bytes of a transfer go over the bus. -/
def Transfer.dataMode : Transfer → Mode
  | .write _ _ => .transmit
  | .read _ _ => .receive

/-- The bytes of a transfer, after an acknowledged address. -/
def Transfer.data (twi : Twi σ) (dbytes : ℕ → UInt8) (s : σ) : Transfer → σ × (ℕ → UInt8) × ℤ
  | .write _ n =>
      ((sendList twi ((List.range n.toNat).map dbytes) s).1, dbytes,
        (sendList twi ((List.range n.toNat).map dbytes) s).2)
  | .read _ n => receiveList twi n.toNat 0 dbytes s

theorem transfer_eq (dbytes : ℕ → UInt8) (s : σ) (t : Transfer) :
    transfer twi dbytes s t =
      let (twsr, s) := twi.start s
      if twsr &&& 0x08 ≠ 0 then
        let (twsr, s) := twi.send t.address s
        let (s, dbytes, rc) :=
          if twsr &&& 0xf8 = t.addressed then t.data twi dbytes s else (s, dbytes, -2)
        (twi.stop s, dbytes, rc)
      else (s, dbytes, -1) := by
  cases t with
  | write addr n =>
      rw [Transfer.address, Transfer.addressed]
      simp only [transfer, iicWrite_eq, Transfer.data]
      by_cases hstart : (twi.start s).1 &&& 0x08 ≠ 0
      · by_cases hack : (twi.send (addr &&& 0xfe) (twi.start s).2).1 &&& 0xf8 = 0x18
        · simp only [if_pos hstart, if_pos hack]
        · simp only [if_pos hstart, if_neg hack]
      · simp only [if_neg hstart]
  | read addr n => exact iicRead_eq addr dbytes n s

/-- The lowest bit of the address byte says which way the data go. -/
theorem address_mode (t : Transfer) :
    (if Mode.address = .address ∧ t.address &&& 0x01 ≠ 0 then Mode.receive else .transmit) =
      t.dataMode := by
  cases t with
  | write addr n =>
      have hclear : (addr &&& 0xfe) &&& 0x01 = 0 := by
        rw [UInt8.and_assoc]
        exact UInt8.and_zero
      simp [Transfer.address, Transfer.dataMode, hclear]
  | read addr n =>
      have hset : (addr ||| 0x01) &&& 0x01 ≠ 0 := by
        intro h
        have hbit := congrArg (fun b : UInt8 => b.toBitVec.getLsbD 0) h
        simp at hbit
      simp [Transfer.address, Transfer.dataMode, hset]

theorem eventually_address (hfair : Completing twi t schedule x)
    (hy : At (course (Driver.step twi t) schedule x i) .loadAddress dbytes s .address) :
    Eventually (Driver.step twi t) schedule x i fun z =>
      At z (.test .address) dbytes (twi.send t.address s).2 t.dataMode ∧
      z.unit.twsr = (twi.send t.address s).1 := by
  have hload : Eventually (Driver.step twi t) schedule x i fun z =>
      At z (.go .address) dbytes s .address ∧ z.unit.twdr = t.address := by
    have hstatement : (course (Driver.step twi t) schedule x i).statement t =
        { course (Driver.step twi t) schedule x i with
          point := .go .address
          unit := { (course (Driver.step twi t) schedule x i).unit with twdr := t.address } } := by
      simp only [Driver.statement, hy.point]
    apply eventually_statement
    · rw [hstatement]
      exact hy.idle
    · rw [hstatement]
      exact ⟨⟨rfl, hy.dbytes, hy.device, hy.mode, hy.idle⟩, rfl⟩
  refine hload.trans fun j _ hj => ?_
  rw [← address_mode t]
  exact eventually_send hfair hj.1 rfl (by decide) hj.2

theorem eventually_data (hfair : Completing twi t schedule x)
    (hy : At (course (Driver.step twi t) schedule x i) (.loop 0) dbytes s t.dataMode) :
    Eventually (Driver.step twi t) schedule x i fun z =>
      At z (.stop (t.data twi dbytes s).2.2) (t.data twi dbytes s).2.1 (t.data twi dbytes s).1
        t.dataMode := by
  cases t with
  | write addr n =>
      simp only [Transfer.data, List.range_eq_range']
      exact eventually_sent (j := 0) hfair (Nat.zero_add _) hy
  | read addr n => exact eventually_received (j := 0) hfair (Nat.zero_add _) hy

/-- When every operation completes, the call returns what it returns on a unit without waits. -/
theorem eventually_returned (hfair : Completing twi t schedule x)
    (hy : At x (.go .start) dbytes s mode) :
    Eventually (Driver.step twi t) schedule x 0 fun z =>
      z.point = .returned (transfer twi dbytes s t).2.2 ∧
        z.dbytes = (transfer twi dbytes s t).2.1 ∧
        z.unit.device = (transfer twi dbytes s t).1 ∧ z.unit.pending = none := by
  refine (eventually_start hfair (i := 0) hy).trans fun i₁ _ h₁ => ?_
  obtain ⟨h₁, htwsr⟩ := h₁
  simp only [transfer_eq]
  by_cases hstart : (twi.start s).1 &&& 0x08 ≠ 0
  · have hload : Eventually (Driver.step twi t) schedule x i₁ fun z =>
        At z .loadAddress dbytes (twi.start s).2 .address := by
      apply eventually_move h₁
      simp only [Driver.statement, h₁.point, htwsr]
      rw [if_pos hstart]
    simp only [if_pos hstart]
    refine hload.trans fun i₂ _ h₂ => ?_
    refine (eventually_address hfair h₂).trans fun i₃ _ h₃ => ?_
    obtain ⟨h₃, htwsr⟩ := h₃
    -- the loop over the bytes, or a refused address, leads to the STOP
    have hstop : ∀ {i : ℕ} {r : σ × (ℕ → UInt8) × ℤ},
        At (course (Driver.step twi t) schedule x i) (.stop r.2.2) r.2.1 r.1 t.dataMode →
        Eventually (Driver.step twi t) schedule x i fun z =>
          z.point = .returned r.2.2 ∧ z.dbytes = r.2.1 ∧ z.unit.device = twi.stop r.1 ∧
            z.unit.pending = none := by
      intro i r hr
      refine (eventually_stop hfair hr).trans fun j _ hj => .now ?_
      exact ⟨hj.point, hj.dbytes, hj.device, hj.idle⟩
    by_cases hack : (twi.send t.address (twi.start s).2).1 &&& 0xf8 = t.addressed
    · have hloop : Eventually (Driver.step twi t) schedule x i₃ fun z =>
          At z (.loop 0) dbytes (twi.send t.address (twi.start s).2).2 t.dataMode := by
        apply eventually_move h₃
        simp only [Driver.statement, h₃.point, htwsr]
        rw [if_pos hack]
      simp only [if_pos hack]
      refine hloop.trans fun i₄ _ h₄ => ?_
      exact (eventually_data hfair h₄).trans fun i₅ _ h₅ => hstop h₅
    · have hrefused : Eventually (Driver.step twi t) schedule x i₃ fun z =>
          At z (.stop (-2)) dbytes (twi.send t.address (twi.start s).2).2 t.dataMode := by
        apply eventually_move h₃
        simp only [Driver.statement, h₃.point, htwsr]
        rw [if_neg hack]
      simp only [if_neg hack]
      exact hrefused.trans fun i₄ _ h₄ =>
        hstop (r := ((twi.send t.address (twi.start s).2).2, dbytes, -2)) h₄
  · have hleave : Eventually (Driver.step twi t) schedule x i₁ fun z =>
        At z (.returned (-1)) dbytes (twi.start s).2 .address := by
      apply eventually_move h₁
      simp only [Driver.statement, h₁.point, htwsr]
      rw [if_neg hstart]
    simp only [if_neg hstart]
    exact hleave.trans fun i₂ _ h₂ => .now ⟨h₂.point, h₂.dbytes, h₂.device, h₂.idle⟩

/-! ## Operations that do not complete -/

/-- While an operation is in progress the driver polls for its end. -/
def Driver.Polling (y : Driver σ) : Prop :=
  y.unit.pending ≠ none →
    (∃ phase, y.point = .wait phase ∧ y.unit.twcr &&& TWINT = 0) ∨
      ∃ rc, y.point = .waitStop rc ∧ y.unit.twcr &&& TWSTO ≠ 0

theorem Driver.Polling.of_idle (h : y.unit.pending = none) : y.Polling :=
  fun hpending => (hpending h).elim

theorem Driver.Polling.statement_eq (h : y.Polling) (hpending : y.unit.pending ≠ none) :
    y.statement t = y := by
  obtain ⟨phase, hpoint, hflag⟩ | ⟨rc, hpoint, hflag⟩ := h hpending
  · simp [Driver.statement, hpoint, hflag]
  · simp [Driver.statement, hpoint, hflag]

/-- Only the statements that write `TWCR` start an operation. -/
theorem statement_pending (hidle : y.unit.pending = none)
    (hgo : ∀ phase, y.point ≠ .go phase) (hstop : ∀ rc, y.point ≠ .stop rc) :
    (y.statement t).unit.pending = none := by
  cases hpoint : y.point with
  | go phase => exact (hgo phase hpoint).elim
  | stop rc => exact (hstop rc hpoint).elim
  | wait phase =>
      simp only [Driver.statement, hpoint]
      split_ifs <;> exact hidle
  | test phase =>
      cases phase with
      | start =>
          simp only [Driver.statement, hpoint]
          split_ifs <;> exact hidle
      | address =>
          simp only [Driver.statement, hpoint]
          split_ifs <;> exact hidle
      | byte idx =>
          cases t with
          | write addr n =>
              simp only [Driver.statement, hpoint]
              split_ifs <;> exact hidle
          | read addr n =>
              simp only [Driver.statement, hpoint]
              split_ifs <;> exact hidle
  | loadAddress => simpa only [Driver.statement, hpoint] using hidle
  | loop idx =>
      simp only [Driver.statement, hpoint]
      split_ifs <;> exact hidle
  | loadByte idx =>
      cases t with
      | write addr n => simpa only [Driver.statement, hpoint] using hidle
      | read addr n => simpa only [Driver.statement, hpoint] using hidle
  | waitStop rc =>
      simp only [Driver.statement, hpoint]
      split_ifs <;> exact hidle
  | returned rc => simpa only [Driver.statement, hpoint] using hidle

theorem Driver.Polling.statement (h : y.Polling) : (y.statement t).Polling := by
  by_cases hpending : y.unit.pending = none
  · cases hpoint : y.point with
    | go phase =>
        intro _
        refine .inl ⟨phase, ?_, ?_⟩
        · simp only [Driver.statement, hpoint]
        · simpa only [Driver.statement, hpoint, TwiUnit.writeTwcr] using
            (control_flags t phase).1
    | stop rc =>
        intro _
        refine .inr ⟨rc, ?_, ?_⟩
        · simp only [Driver.statement, hpoint]
        · simp only [Driver.statement, hpoint, TwiUnit.writeTwcr]
          decide
    | _ => exact .of_idle (statement_pending hpending (by simp [hpoint]) (by simp [hpoint]))
  · rw [h.statement_eq hpending]
    exact h

theorem pending_complete (u : TwiUnit σ) : (u.complete twi).pending = none := by
  unfold TwiUnit.complete
  split
  · assumption
  all_goals rfl

theorem Driver.Polling.step (h : y.Polling) (completes : Bool) :
    (y.step twi t completes).Polling := by
  cases completes with
  | false => exact h.statement
  | true => exact .of_idle (pending_complete _)

theorem Driver.Polling.course (h : x.Polling) (twi : Twi σ) (t : Transfer)
    (schedule : ℕ → Bool) (k : ℕ) : (course (Driver.step twi t) schedule x k).Polling := by
  induction k with
  | zero => exact h
  | succ k ih => exact ih.step _

/-- A call that has returned leaves the unit alone. -/
theorem step_returned {rc : ℤ} (h : y.Polling) (hpoint : y.point = .returned rc) (b : Bool) :
    y.step twi t b = y := by
  have hidle : y.unit.pending = none := by
    by_contra hpending
    obtain ⟨phase, hwait, -⟩ | ⟨rc, hwait, -⟩ := h hpending
    · simp [hpoint] at hwait
    · simp [hpoint] at hwait
  have hstatement : y.statement t = y := by
    simp only [Driver.statement, hpoint]
  rw [step_idle (by rwa [hstatement]), hstatement]

/-- A call that returns has had all its operations completed. -/
theorem completing_of_returned {k : ℕ} {rc : ℤ} (hx : x.Polling)
    (hk : (course (Driver.step twi t) schedule x k).point = .returned rc) :
    Completing twi t schedule x := by
  intro i hpending
  by_contra hnever
  have hpolling := hx.course twi t schedule i
  have hwait : (course (Driver.step twi t) schedule x i).step twi t false =
      course (Driver.step twi t) schedule x i := by
    simp [Driver.step, hpolling.statement_eq hpending]
  have hpoint : (course (Driver.step twi t) schedule x i).point = .returned rc := by
    rcases Nat.le_total k i with hki | hik
    · rw [course_absorbed (step_returned (hx.course twi t schedule k) hk) hki rfl]
      exact hk
    · rwa [course_stuck hwait rfl hnever hik] at hk
  obtain ⟨phase, hpoll, -⟩ | ⟨rc', hpoll, -⟩ := hpolling hpending
  · simp [hpoint] at hpoll
  · simp [hpoint] at hpoll

/-- With a unit that takes any time for its operations, and has none to complete when the call
begins, a call returns if and only if every operation that it starts completes, and then with
the result, the buffer and the devices of the same call on a unit without waits. -/
theorem polled_transfer (twi : Twi σ) (t : Transfer) (schedule : ℕ → Bool) (x : Driver σ)
    (hstart : x.point = .go .start) (hidle : x.unit.pending = none) :
    (∀ k rc, (course (Driver.step twi t) schedule x k).point = .returned rc →
      ((course (Driver.step twi t) schedule x k).unit.device,
        (course (Driver.step twi t) schedule x k).dbytes, rc) =
          transfer twi x.dbytes x.unit.device t) ∧
      ((∃ k rc, (course (Driver.step twi t) schedule x k).point = .returned rc) ↔
        Completing twi t schedule x) := by
  have hx : x.Polling := .of_idle hidle
  have hat : At x (.go .start) x.dbytes x.unit.device x.unit.mode := ⟨hstart, rfl, rfl, rfl, hidle⟩
  refine ⟨fun k rc hk => ?_, ⟨fun ⟨k, rc, hk⟩ => completing_of_returned hx hk, fun hfair => ?_⟩⟩
  · -- the same course up to the return, with a unit that completes everything from there on
    let prompt : ℕ → Bool := fun i => if i < k then schedule i else true
    have hsame : course (Driver.step twi t) prompt x k =
        course (Driver.step twi t) schedule x k :=
      course_congr fun i hi => by simp [prompt, hi]
    have hfair : Completing twi t prompt x :=
      fun i _ => ⟨max i k, le_max_left i k, by simp [prompt]⟩
    obtain ⟨j, -, hpoint, hdbytes, hdevice, -⟩ := eventually_returned hfair hat
    have hpolling := hx.course twi t prompt
    have hjk : course (Driver.step twi t) prompt x k = course (Driver.step twi t) prompt x j :=
      (course_absorbed (step_returned (hpolling k) (hsame ▸ hk)) (le_max_left k j) rfl).symm.trans
        (course_absorbed (step_returned (hpolling j) hpoint) (le_max_right k j) rfl)
    rw [← hsame, hjk] at hk ⊢
    rw [hpoint] at hk
    rw [hdevice, hdbytes, ← Point.returned.inj hk]
  · obtain ⟨j, -, hpoint, -⟩ := eventually_returned hfair hat
    exact ⟨j, _, hpoint⟩

/-- A device that acknowledges everything and keeps what it is sent. -/
def keeper : Twi (List UInt8) where
  start _ := (0x08, [])
  send byte sent := (if sent = [] then 0x18 else 0x28, sent ++ [byte])
  receive _ sent := (0xf8, 0, sent)
  stop sent := sent

theorem polled_transfer_keeper :
    let x : Driver (List UInt8) :=
      ⟨.go .start, fun i => i.toUInt8 + 1, [], 0, 0xf8, 0, .address, none⟩
    let schedule : ℕ → Bool := fun i => i % 3 = 2
    (∃ k rc, (course (Driver.step keeper (.write 0xa0 2)) schedule x k).point = .returned rc) ∧
      ∀ k rc, (course (Driver.step keeper (.write 0xa0 2)) schedule x k).point = .returned rc →
        (course (Driver.step keeper (.write 0xa0 2)) schedule x k).unit.device = [0xa0, 1, 2] ∧
          rc = 0 := by
  intro x schedule
  obtain ⟨hresult, hreturns⟩ := polled_transfer keeper (.write 0xa0 2) schedule x rfl rfl
  refine ⟨hreturns.mpr fun i _ => ⟨3 * i + 2, by omega, ?_⟩, fun k rc hk => ?_⟩
  · simp only [schedule, decide_eq_true_eq]
    omega
  · have hdevice : (transfer keeper x.dbytes x.unit.device (.write 0xa0 2)).1 = [0xa0, 1, 2] := by
      decide
    have hrc : (transfer keeper x.dbytes x.unit.device (.write 0xa0 2)).2.2 = 0 := by decide
    rw [← hresult k rc hk] at hdevice hrc
    exact ⟨hdevice, hrc⟩

end Operations

end EmbeddedKernel.Iic
