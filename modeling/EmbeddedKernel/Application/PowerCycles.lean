import EmbeddedKernel.Application.SharedBus
import EmbeddedKernel.DataLog.PageStore

/-!
# Switching the board off and on

An EEPROM keeps its memory without power, but not its address pointer.  The functions of
`LogData` have no variables that outlive a call, and they set the address before they read.
So the board can be switched off and on between any two calls.
-/

namespace EmbeddedKernel.Application

open Iic Library DataLog

def SameMemory (b b' : Bus) : Prop := ∀ q, b.memory q = b'.memory q

/-- Accesses depend on the memories only, and change them in the same way. -/
theorem sameAccesses_memory (port : Fin 8) :
    SameAccesses Bus.twi Bus.twi (device port) SameMemory where
  write {x y} high low data n len hlen hfit h := by
    obtain ⟨x', hx, hself, hother, -⟩ := memory_iicWrite port x high low data hlen hfit
    obtain ⟨y', hy, hself', hother', -⟩ := memory_iicWrite port y high low data hlen hfit
    rw [hx, hy]
    refine ⟨rfl, fun q => ?_⟩
    rcases eq_or_ne q port with rfl | hq
    · funext a
      rw [hself, hself', h]
    · rw [hother q hq, hother' q hq, h]
  fetch {x y} high low junk n hend h := by
    obtain ⟨x₁, x₂, data, hwrite, hread, hmemory, hdata⟩ :=
      memory_iicRead port x high low junk hend
    obtain ⟨y₁, y₂, data', hwrite', hread', hmemory', hdata'⟩ :=
      memory_iicRead port y high low junk hend
    simp only [hwrite, hwrite', hread, hread']
    refine ⟨fun i hi => ?_, trivial, fun q => ?_⟩
    · rw [hdata i hi, hdata' i hi, h]
    · rw [hmemory, hmemory', h]

/-- A call to the logger at a port, or the board is switched off and on. -/
inductive BoardEvent
  | call (port : Fin 8) (c : LoggerCall)
  | powerCycle (pointers : Fin 8 → ℕ) (phase : DataLog.Phase)

/-- What a loss of power leaves: the memories. -/
def powerCycle (pointers : Fin 8 → ℕ) (phase : DataLog.Phase) (b : Bus) : Bus :=
  ⟨fun q => { b.eeprom q with pointer := pointers q }, phase⟩

def boardStep (b : Bus) : BoardEvent → Except Stop (Bus × Option Answer)
  | .call port c => do
      let (b, a) ← loggerCall Bus.twi b (UInt8.ofNat port, c)
      .ok (b, some a)
  | .powerCycle pointers phase => .ok (powerCycle pointers phase b, none)

def BoardEvent.loggerCall? : BoardEvent → Option (UInt8 × LoggerCall)
  | .call port c => some (UInt8.ofNat port, c)
  | .powerCycle _ _ => none

theorem loggerCall_alike {b b' : Bus} (h : SameMemory b b') (port : Fin 8) (c : LoggerCall) :
    Outcome (fun x y => SameMemory x.1 y.1 ∧ x.2 = y.2)
      (loggerCall Bus.twi b (UInt8.ofNat port, c)) (loggerCall Bus.twi b' (UInt8.ofNat port, c)) :=
  answer_alike (fun _ _ hw => LoggerCall.run_alike (sameAccesses_memory port) hw c) h

theorem boardEvents_alike {b b' : Bus} (h : SameMemory b b') (events : List BoardEvent) :
    Outcome (fun x y => SameMemory x.1 y.1 ∧ x.2.filterMap id = y.2) (callAll boardStep b events)
      (callAll (loggerCall Bus.twi) b' (events.filterMap BoardEvent.loggerCall?)) := by
  induction events generalizing b b' with
  | nil => exact .ok ⟨h, rfl⟩
  | cons event events ih =>
      cases event with
      | call port c =>
          rw [List.filterMap_cons_some (show BoardEvent.loggerCall? (.call port c) = _ from rfl)]
          simp only [callAll, boardStep, bind_assoc]
          refine (loggerCall_alike h port c).bind ?_
          rintro ⟨x, a⟩ ⟨y, a'⟩ ⟨hxy, ha⟩
          obtain rfl : a = a' := ha
          refine (ih hxy).bind ?_
          rintro ⟨x', as⟩ ⟨y', as'⟩ ⟨hxy', has⟩
          obtain rfl : as.filterMap id = as' := has
          exact .ok ⟨hxy', rfl⟩
      | powerCycle pointers phase =>
          rw [List.filterMap_cons_none (show BoardEvent.loggerCall? (.powerCycle ..) = _ from rfl),
            ← bind_pure (callAll (loggerCall Bus.twi) b' _)]
          have hcycle : SameMemory (powerCycle pointers phase b) b' := h
          refine (ih hcycle).bind ?_
          rintro ⟨x', as⟩ ⟨y', as'⟩ ⟨hxy', has⟩
          exact .ok ⟨hxy', has⟩

/-- Nothing that a logger does can tell whether the board has been switched off and on: a run
of calls to loggers at any ports, each with what the stack holds for it, and with power cycles
at any places in between, prints and returns what the calls alone do, leaves the memories that
they leave, and stops early only if they do. -/
theorem powerCycles_invisible (b : Bus) (events : List BoardEvent) :
    Outcome (fun x y => (∀ q, x.1.memory q = y.1.memory q) ∧ x.2.filterMap id = y.2)
      (callAll boardStep b events)
      (callAll (loggerCall Bus.twi) b (events.filterMap BoardEvent.loggerCall?)) :=
  boardEvents_alike (fun _ => rfl) events

end EmbeddedKernel.Application
