import Dufay.Sched.WorkConserving
import Dufay.Wait.WaitAny
import Dufay.Wait.Signals
import Dufay.Timer.Heap
import Dufay.Timer.Early
import Dufay.Lock.Irqsave
import Dufay.Dpc.Queue
import Dufay.Capability.Rights
import Dufay.Capability.Refcount
import Dufay.Sched.RoundRobinPlaces
import Dufay.Ipl.Softints
import Dufay.Sched.AddressSpace
import Dufay.Sched.ThreadLock
import Dufay.Mm.KernelHalf
import Dufay.Mm.PartialMap
import Dufay.Port.Delivery
import Dufay.Mm.Metadata
import Dufay.Mm.Ranges
import Dufay.Nvme.Completion
import Dufay.Capability.ObjectClass
import Dufay.Sched.PinQueued
import Dufay.Mm.Exhausted
import Dufay.Sched.Balance
import Dufay.Wait.Events
import Dufay.Timer.Expiry
import Dufay.Wait.Polling
import Dufay.Wait.Timeout
import Dufay.Sched.History
import Dufay.Sched.Overtaking
import Dufay.Mm.Walkers
import Dufay.Slab.Constructed
import Dufay.Mm.Portal
import Dufay.Resource.Pool
import Dufay.Acpi.Processors
import Dufay.Acpi.Tables
import Dufay.Nvme.Commands
import Dufay.Pci.Enumeration
import Dufay.Elf.Buffer
