import EcMaster.Cia402.Image
import EcMaster.Policy.Bus

/-!
# The main loop and the recovery of the monitor

The RT thread of `ecm_run` with the CiA402 hook, and the part of the monitor
thread that recovers the bus.  Both send process data from the same IOmap: the
RT thread in RUN and DEGRADED, the monitor in `recover_full`, which it runs
between a request (`g_recover_req`) and its answer (`g_recover_done`).

`Master` is the shared state, with the frames that the last step has sent.
`rtTick` is one round of the main loop, `monitorStep` one step of the monitor.
What the bus does is an argument of each: the working counters, the answer to a
probe, the inputs, the states the slaves report.  A run is a list of events, so
it has every interleaving of the two threads and of the application.

The monitor does not send while the RT thread does, and the RT thread does not
touch the outputs without a bus, so the steps may be as large as they are here.
-/

namespace EcMaster.EcmRun

open EcMaster.ByteImage EcMaster.Pdo EcMaster.Cia402 EcMaster.Policy EcMaster.Run

/-- Where the monitor is.  `scan` is the part of `recover_full` before the first
process data, `keepalive` the loop of `request_op_keepalive`, and `finish` what
comes after it.  Each carries the generation it answers. -/
inductive Monitor where
  | idle
  | scan (req : Nat)
  | keepalive (req : Nat)
  | finish (req : Nat)
deriving DecidableEq, Repr

/-- The layer, its image, the bus state machine of the RT thread, the hand-over of
the bus, and what the last step has sent. -/
structure Master extends Sys where
  pdoSet : List (Handle × Nat)
  bus : BusFsm
  tick : Nat
  recoverEnabled : Bool
  recoverGen : Nat
  recoverReq : Nat
  recoverDone : Nat
  recoverOk : Bool
  monitor : Monitor
  sent : List Image

/-- What one round of the main loop finds on the bus. -/
structure TickIn where
  motionClass : WkcClass
  ioClass : Option WkcClass
  brdWkc : Int
  tSendNs : Nat
  inputs : Image
  xeCmd : Nat → AxErr
  xeRt : Nat → AxErr

/-- What one step of the monitor finds: the inputs of an exchange, whether all
slaves are in OP, whether the time for that is over, and whether any slave is in
OP in the end. -/
structure MonitorIn where
  inputs : Image
  allOp : Bool
  timedOut : Bool
  anyOp : Bool

/-- The values of `--pdo-set` in the motion group. -/
def setFixed (fixed : List (Handle × Nat)) (io : Image) : Image :=
  fixed.foldl (fun io q => ecmPdoSet q.1 io q.2) io

/-- The part of the round that depends on the bus state: process data, a probe, or
waiting for the monitor.  Returns `hook_in_valid` as well. -/
def busTurn (x : TickIn) (m : Master) : Master × Bool :=
  match m.bus.state with
  | .run | .degraded =>
      let io := setFixed m.pdoSet m.io
      ({ m with
          io := io
          sent := [io]
          bus := (ecmBusOnCycle m.bus m.tick x.motionClass x.ioClass).1 },
        x.motionClass = .wkcOk)
  | .lost =>
      if ecmBusProbeDue m.bus m.tick then
        let r := ecmBusOnProbe m.bus m.tick x.brdWkc
        let gen := if r.2.isSome then (m.recoverGen + 1) % 2 ^ 32 else m.recoverGen
        ({ m with
            bus := r.1
            recoverGen := gen
            recoverReq := if r.2.isSome then gen else m.recoverReq },
          false)
      else (m, false)
  | .recover =>
      if m.recoverDone = m.recoverGen then
        ({ m with bus := (ecmBusOnRecoverDone m.bus m.tick m.recoverOk).1 }, false)
      else (m, false)

/-- The arguments of the hook at the end of the round. -/
def hookEnv (x : TickIn) (m : Master) (inValid : Bool) : HookEnv :=
  { tick := m.tick
    tSendNs := x.tSendNs
    inValid := inValid
    busLost := !m.bus.state.cyclic
    inputs := x.inputs
    xeCmd := x.xeCmd
    xeRt := x.xeRt }

/-- The round up to the hook. -/
def rtBus (x : TickIn) (m : Master) : Master × Bool :=
  busTurn x { m with bus := ecmBusTick m.bus, sent := [] }

/-- The hook of the round. -/
def rtHook (x : TickIn) (m : Master) : Event := .hook (hookEnv x (rtBus x m).1 (rtBus x m).2)

/-- One round of the main loop. -/
def rtTick (x : TickIn) (m : Master) : Master :=
  { (rtBus x m).1 with
    toSys := (rtBus x m).1.toSys.step (rtHook x m)
    tick := u64 (m.tick + 1) }

/-- `pd_exchange_all`, as far as the motion group is concerned. -/
def pdExchangeAll (x : MonitorIn) (m : Master) : Master :=
  { m with io := freshImage m.obytes m.io x.inputs, sent := [m.io] }

/-- One step of the monitor: `recover_full` up to the next process data, and its
answer to the RT thread. -/
def monitorStep (x : MonitorIn) (m : Master) : Master :=
  let m := { m with sent := [] }
  match m.monitor with
  | .idle =>
      if m.recoverReq = m.recoverDone then m
      else if m.recoverEnabled then { m with monitor := .scan m.recoverReq }
      else { m with recoverOk := false, recoverDone := m.recoverReq }
  | .scan req => { pdExchangeAll x m with monitor := .keepalive req }
  | .keepalive req =>
      let m := pdExchangeAll x m
      if x.allOp || x.timedOut then { m with monitor := .finish req } else m
  | .finish req => { m with recoverOk := x.anyOp, recoverDone := req, monitor := .idle }

/-- What can happen: a round of the RT thread, a step of the monitor, or a call of
the application. -/
inductive MEvent where
  | tick (x : TickIn)
  | monitor (x : MonitorIn)
  | app (e : Event)

/-- A call of the application is any event of the layer but the hook, which is the
RT thread's. -/
def appStep (e : Event) (m : Master) : Master :=
  match e with
  | .hook _ => { m with sent := [] }
  | e => { m with toSys := m.toSys.step e, sent := [] }

/-- One event. -/
def Master.step (m : Master) : MEvent → Master
  | .tick x => rtTick x m
  | .monitor x => monitorStep x m
  | .app e => appStep e m

/-- The master when the main loop starts. -/
def start (cfg : Config) (busCfg : BusCfg) (fixed : List (Handle × Nat))
    (recoverEnabled : Bool) : Master :=
  { cfg.boot with
    pdoSet := fixed
    bus := ecmBusInit busCfg
    tick := 0
    recoverEnabled := recoverEnabled
    recoverGen := 0
    recoverReq := 0
    recoverDone := 0
    recoverOk := false
    monitor := .idle
    sent := [] }

end EcMaster.EcmRun
