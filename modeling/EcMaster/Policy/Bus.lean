import Mathlib

/-!
# The bus state machine

`ecm_bus_*` of `ecm_policy.c`: RUN and DEGRADED while process data is exchanged,
LOST after `n_lost` motion cycles without a frame, RECOVER while the monitor
owns the bus.  Every function is called by the RT thread only, and each returns
the event of a transition, if it makes one.  Ticks and totals are natural numbers,
64 bits wide in the source.
-/

namespace EcMaster.Policy

/-- `ECM_POL_WKC_*`: the class of the working counter of one cycle. -/
inductive WkcClass where
  | wkcOk | wkcNoframe | wkcZero | wkcPartial | wkcOver
deriving DecidableEq, Repr

def WkcClass.code : WkcClass → Int
  | .wkcOk => 0 | .wkcNoframe => 1 | .wkcZero => 2 | .wkcPartial => 3 | .wkcOver => 4

/-- `ecm_bus_state_t`. -/
inductive BusState where
  | run | degraded | lost | recover
deriving DecidableEq, Repr

/-- Process data is exchanged in this state. -/
def BusState.cyclic : BusState → Bool
  | .run | .degraded => true
  | _ => false

/-- `ecm_bus_cfg_t`. -/
structure BusCfg where
  nLost : Nat
  probeTicks : Nat
  recoverBackoffTicks : Nat
deriving DecidableEq, Repr

/-- `ecm_bus_default_cfg`. -/
def ecmBusDefaultCfg : BusCfg := { nLost := 100, probeTicks := 10, recoverBackoffTicks := 1000 }

/-- `ecm_bus_fsm_t`. -/
structure BusFsm where
  cfg : BusCfg
  state : BusState
  noframeRun : Nat
  ioOk : Bool
  ioLastClass : WkcClass
  sinceTick : Nat
  nextProbeTick : Nat
  entered : BusState → Nat
  ticksIn : BusState → Nat

/-- An `ecm_event_t` of the type `ECM_EV_BUS`. -/
structure BusEvent where
  tick : Nat
  source : BusState
  target : BusState
  reason : Int
  group : Nat
deriving DecidableEq, Repr

/-- `ecm_bus_init`. -/
def ecmBusInit (cfg : BusCfg) : BusFsm :=
  { cfg :=
      { cfg with
        nLost := if cfg.nLost = 0 then 1 else cfg.nLost
        probeTicks := if cfg.probeTicks = 0 then 1 else cfg.probeTicks }
    state := .run
    noframeRun := 0
    ioOk := true
    ioLastClass := .wkcOk
    sinceTick := 0
    nextProbeTick := 0
    entered := Function.update (fun _ => 0) .run 1
    ticksIn := fun _ => 0 }

/-- `go`: a transition and its event. -/
def BusFsm.go (f : BusFsm) (tick : Nat) (target : BusState) (reason : Int) (group : Nat) :
    BusFsm × Option BusEvent :=
  ({ f with
      state := target
      sinceTick := tick
      entered := Function.update f.entered target (f.entered target + 1) },
    some { tick := tick, source := f.state, target := target, reason := reason, group := group })

/-- `ecm_bus_on_cycle`.  `ioClass` is `none` when the IO group was not serviced. -/
def ecmBusOnCycle (f : BusFsm) (tick : Nat) (motionClass : WkcClass)
    (ioClass : Option WkcClass) : BusFsm × Option BusEvent :=
  if !f.state.cyclic then (f, none)
  else
    let f :=
      { f with
        noframeRun := if motionClass = .wkcNoframe then f.noframeRun + 1 else 0
        ioOk := match ioClass with
          | some c => c = .wkcOk
          | none => f.ioOk
        ioLastClass := ioClass.getD f.ioLastClass }
    if f.noframeRun ≥ f.cfg.nLost then
      { f with nextProbeTick := tick + 1 }.go tick .lost WkcClass.wkcNoframe.code 0
    else
      let motionBad := motionClass ≠ .wkcOk
      let bad := motionBad ∨ !f.ioOk
      if f.state = .run ∧ bad then
        f.go tick .degraded (if motionBad then motionClass.code else f.ioLastClass.code)
          (if motionBad then 0 else 1)
      else if f.state = .degraded ∧ ¬ bad then f.go tick .run WkcClass.wkcOk.code 0
      else (f, none)

/-- `ecm_bus_probe_due`. -/
def ecmBusProbeDue (f : BusFsm) (tick : Nat) : Bool :=
  f.state = .lost && tick ≥ f.nextProbeTick

/-- `ecm_bus_on_probe`. -/
def ecmBusOnProbe (f : BusFsm) (tick : Nat) (brdWkc : Int) : BusFsm × Option BusEvent :=
  if f.state ≠ .lost then (f, none)
  else if brdWkc > 0 then f.go tick .recover brdWkc 0
  else ({ f with nextProbeTick := tick + f.cfg.probeTicks }, none)

/-- `ecm_bus_on_recover_done`. -/
def ecmBusOnRecoverDone (f : BusFsm) (tick : Nat) (ok : Bool) : BusFsm × Option BusEvent :=
  if f.state ≠ .recover then (f, none)
  else
    let f := { f with noframeRun := 0, ioOk := true }
    if ok then f.go tick .run 0 0
    else { f with nextProbeTick := tick + f.cfg.recoverBackoffTicks }.go tick .lost (-1) 0

/-- `ecm_bus_tick`. -/
def ecmBusTick (f : BusFsm) : BusFsm :=
  { f with ticksIn := Function.update f.ticksIn f.state (f.ticksIn f.state + 1) }

end EcMaster.Policy
