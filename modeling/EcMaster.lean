import EcMaster.Api.AllowLoad
import EcMaster.Api.Framing
import EcMaster.Api.Integers
import EcMaster.Api.Rate
import EcMaster.Api.Sha256
import EcMaster.Api.Stats
import EcMaster.Cia402.Handshake
import EcMaster.Cia402.Hold
import EcMaster.Cia402.Homing
import EcMaster.Cia402.OutputFrame
import EcMaster.Cia402.Publish
import EcMaster.Cia402.Shutdown
import EcMaster.Cia402.StepLimit
import EcMaster.Cia402.Stream
import EcMaster.Config.EniDc
import EcMaster.Config.EniNumbers
import EcMaster.Core.DcClock
import EcMaster.Core.DcControl
import EcMaster.Diag.Counters
import EcMaster.Diag.Emcy
import EcMaster.Diag.Findings
import EcMaster.EcmRun.Fence
import EcMaster.EcmRun.LeaveOp
import EcMaster.EcmRun.Quarantine
import EcMaster.EcmRun.Reply
import EcMaster.Esc.Sync0
import EcMaster.Pdo.Table
import EcMaster.Policy.Bounded
import EcMaster.Policy.Fresh
import EcMaster.Telemetry.Pairing
import EcMaster.Xchg.Delivery
import EcMaster.Xchg.Handoff
import EcMaster.Xchg.Rings
import EcMaster.Xchg.Snapshot
