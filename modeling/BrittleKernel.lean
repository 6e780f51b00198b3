import BrittleKernel.Common
import BrittleKernel.Mpu
import BrittleKernel.State
import BrittleKernel.Queue
import BrittleKernel.Key
import BrittleKernel.Scheduler
import BrittleKernel.Delivery
import BrittleKernel.Memory
import BrittleKernel.Protocols
import BrittleKernel.Dispatch
import BrittleKernel.Entry
import BrittleKernel.Lib.Hoare
import BrittleKernel.Lib.Intrusive
import BrittleKernel.Lib.Fifo
import BrittleKernel.Lib.Blocks
import BrittleKernel.Lib.Links
import BrittleKernel.Lib.Rings
import BrittleKernel.Lib.Forest
import BrittleKernel.Lib.Tiling
import BrittleKernel.Lib.Epochs
import BrittleKernel.Pointers
import BrittleKernel.Frame
import BrittleKernel.Seats
import BrittleKernel.WellFormed
import BrittleKernel.SeatMoves
import BrittleKernel.Acts
import BrittleKernel.Ipc
import BrittleKernel.Sends
import BrittleKernel.Effects
import BrittleKernel.Rebuilding
import BrittleKernel.Stored
import BrittleKernel.Steps
import BrittleKernel.Registers
import BrittleKernel.Growth
import BrittleKernel.Booting
import BrittleKernel.Settled
import BrittleKernel.Keeping
import BrittleKernel.Runs
import BrittleKernel.ListSafety
import BrittleKernel.Chains
import BrittleKernel.Outcomes
import BrittleKernel.Requests
import BrittleKernel.Methods
import BrittleKernel.Generations
import BrittleKernel.Coherence
import BrittleKernel.Replies
import BrittleKernel.NullRegister
import BrittleKernel.Waiting
import BrittleKernel.Turns
import BrittleKernel.Rendezvous
import BrittleKernel.OneShot
import BrittleKernel.Confinement
import BrittleKernel.GateRendezvous
import BrittleKernel.Termination
import BrittleKernel.Payload
import BrittleKernel.Elections
import BrittleKernel.Routing
import BrittleKernel.Geometry
import BrittleKernel.Weakening
import BrittleKernel.Children
import BrittleKernel.SaveArea
import BrittleKernel.MemoryTree
import BrittleKernel.Isolation
import BrittleKernel.Stores
import BrittleKernel.KernelCalls
import BrittleKernel.Refusals
import BrittleKernel.System.Client
import BrittleKernel.System.Alloc
import BrittleKernel.System.Load
import BrittleKernel.System.Calls
import BrittleKernel.System.OnKernel
import BrittleKernel.System.Sizing
import BrittleKernel.System.Bounds
import BrittleKernel.System.Slots
import BrittleKernel.System.Pool
import BrittleKernel.System.Halving
import BrittleKernel.System.Exhaustion
import BrittleKernel.System.Ownership
import BrittleKernel.System.Server
import BrittleKernel.System.Inflation
import BrittleKernel.MemoryBrand
import BrittleKernel.Panics
import BrittleKernel.Brands
