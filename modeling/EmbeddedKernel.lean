import EmbeddedKernel.Avr
import EmbeddedKernel.Library.Chain
import EmbeddedKernel.Library.Rotation
import EmbeddedKernel.Library.Strings
import EmbeddedKernel.Library.Trace
import EmbeddedKernel.Library.CircularBuffer
import EmbeddedKernel.Mq.QueueShape
import EmbeddedKernel.Mq.QueueOrder
import EmbeddedKernel.Mq.HeapSections
import EmbeddedKernel.Library.Simulation
import EmbeddedKernel.Library.Polling
import EmbeddedKernel.Mq.Statements
import EmbeddedKernel.Mq.Leaks
import EmbeddedKernel.Mq.Cursor
import EmbeddedKernel.Mq.Delivery
import EmbeddedKernel.Mq.AddressSpaces
import EmbeddedKernel.Mq.OrderedSets
import EmbeddedKernel.Mq.Receivers
import EmbeddedKernel.Mq.MessageIds
import EmbeddedKernel.Mq.Ledger
import EmbeddedKernel.Mq.Ownership
import EmbeddedKernel.Mq.LoopBudget
import EmbeddedKernel.Mq.InterruptLatency
import EmbeddedKernel.TaskRing.Fairness
import EmbeddedKernel.TaskRing.Deregistration
import EmbeddedKernel.Kernel.Loop
import EmbeddedKernel.Iic.Driver
import EmbeddedKernel.Iic.Trace
import EmbeddedKernel.DataLog.Eeprom
import EmbeddedKernel.DataLog.Model
import EmbeddedKernel.DataLog.PageStore
import EmbeddedKernel.DataLog.CircularLog
import EmbeddedKernel.DataLog.Metadata
import EmbeddedKernel.DataLog.FaultyBus
import EmbeddedKernel.DataLog.AutoFaults
import EmbeddedKernel.Timer.Expiry
import EmbeddedKernel.Leds.Blinking
import EmbeddedKernel.Leds.OnTime
import EmbeddedKernel.Rtc.RoundTrip
import EmbeddedKernel.Rtc.LogTask
import EmbeddedKernel.DataLog.ReadFaults
import EmbeddedKernel.DataLog.ReadRange
import EmbeddedKernel.DataLog.RecordBuffers
import EmbeddedKernel.DataLog.ReadAgreement
import EmbeddedKernel.Rtc.LogLine
import EmbeddedKernel.Rtc.Validation
import EmbeddedKernel.Timer.Freezing
import EmbeddedKernel.Iic.Registers
import EmbeddedKernel.Application.SharedBus
import EmbeddedKernel.Application.Periods
import EmbeddedKernel.Application.PowerCycles
import EmbeddedKernel.Kernel.Backlog
import EmbeddedKernel.Kernel.TaskShares
import EmbeddedKernel.DataLog.Dump
import EmbeddedKernel.DataLog.Retries
