import FabricBench.Lib.Spmd
import FabricBench.Lib.RoundRobin
import FabricBench.Account.Ledger
import FabricBench.Account.Settled
import FabricBench.Account.Fair
import FabricBench.CommExp.Program
import FabricBench.Config
import FabricBench.CommExp.Barrier
import FabricBench.CommExp.Lockstep
import FabricBench.PingpongPrg.Accounts
import FabricBench.PingpongPrg.Conservation
import FabricBench.PingpongPrg.Progress
import FabricBench.PingpongPrg.Resets
import FabricBench.PingpongPrg.Routing
import FabricBench.Symmetric
import FabricBench.PingpongPrgUcx.Wiring
import FabricBench.Backend.Addresses
import FabricBench.Admission
import FabricBench.CommExp.Sweep
import FabricBench.CommExp.Reported
import FabricBench.Backend.Send
import FabricBench.Backend.Receive
import FabricBench.UcxDelivery
import FabricBench.PingpongPrg.Buffers
import FabricBench.PingpongPrg.Credits
import FabricBench.PingpongPrg.Bounds
import FabricBench.PingpongPrgUcx.Receive
import FabricBench.Lib.Variant
import FabricBench.CommExp.Work
import FabricBench.CommExp.Turns
import FabricBench.PingpongSymUcx.Termination
import FabricBench.PingpongSym.Termination
import FabricBench.PingpongPrg.Lifecycle
import FabricBench.Pmi1.Exchange
import FabricBench.Pmi1.Limits
import FabricBench.PingpongPrgUcx.Lifecycle
import FabricBench.PingpongPrgUcx.Copies
