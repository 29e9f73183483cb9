import EcMaster.Cia402.Axis

/-!
# The hook: all axes, commands and published state

`ecm_cia402_rt` of `ecm_cia402_axis.c` is called once per tick.  It applies the
commands that are due, at most `ECM_XCHG_CMD_PER_TICK` of them, then runs
`axis_rt` and publishes the state of every axis in turn, and publishes the
clock.  This module has the record `ecm_cia402_t`, the set-up functions, the
hook and the calls of the application.

A hook is one step here.  An application thread may push while a hook runs, but
such a push is the same as one before or after the hook: a hook pops at most
eight commands, and seventeen setpoints of one axis, and the rings hold 256 and
512 elements, so a push that is accepted only because the hook has just made
room is not reached by the loop of that hook.

The external error of an axis can change at any moment, so it is not a field of
the record: every read of it in a hook has a value of its own in `HookEnv`.
-/

namespace EcMaster.Cia402

open EcMaster.ByteImage EcMaster.Pdo EcMaster.Xchg

/-- `ECM_AXIS_MAX`. -/
def axisMax : Nat := 32

/-- `ecm_cia402_t`. -/
structure EcmCia402 where
  p : Params
  naxes : Nat
  ax : Nat → Axis
  cmd : XRing XCmd
  sp : Nat → XRing XSp
  st : Nat → Xst
  clock : Xst
  cmdApplied : Nat
  cmdDeferred : Nat
  cmdBad : Nat
  shutdown : Bool

/-! ## Set-up -/

/-- A binding and an axis after `memset`. -/
def Bind.zero : Bind :=
  { cw := .absent, sw := .absent, tpos := .absent, apos := .absent, tvel := .absent
    avel := .absent, mode := .absent, modeDisp := .absent, err := .absent }

def Axis.zero : Axis :=
  { modes := 0, b := Bind.zero, maxStepPos := 0, maxStepVel := 0
    ds := .unknown, sw := 0, apos := 0, avel := 0, aposPrev := 0, aposPrevOk := false
    ecode := 0, modeDisp := 0, transitions := 0
    modeReq := .none, modeOk := false
    target := .disabled, err := .none, errDs := .unknown, resetPulse := 0
    reachedOe := false, dsWait := .unknown, stepSince := 0
    armed := false, lastSp := 0, lastDelta := 0, lastSent := 0, stepSeen := 0
    stepRefused := 0, used := 0, late := 0, underrun := 0, dropped := 0
    ppQ := fun _ => 0, ppQf := fun _ => 0, ppHead := 0, ppN := 0, ppPhase := .idle
    ppFlags := 0, ppCur := 0, ppSince := 0, ppSent := 0, ppAcked := 0, ppLost := 0
    pvVel := 0, hmPhase := .idle, hmSeenLow := false, homed := false, hmSince := 0
    cw := 0, running := false, lastSeq := 0 }

/-- A time in milliseconds as a number of ticks, rounded up, at least 1. -/
def ticksOfMs (cycleNs ms : Nat) : Nat :=
  let n := (ms * 1000000 + cycleNs - 1) / cycleNs % 2 ^ 32
  if n = 0 then 1 else n

/-- `ecm_cia402_set_home_timeout`. -/
def ecmCia402SetHomeTimeout (c : EcmCia402) (ms : Nat) : EcmCia402 :=
  { c with p := { c.p with homeTimeoutTicks := ticksOfMs c.p.cycleNs ms } }

/-- `ecm_cia402_init`. -/
def ecmCia402Init (cycleNs stepTimeoutMs : Nat) : EcmCia402 :=
  let cycleNs := if cycleNs = 0 then 1000000 else cycleNs
  let xst : Xst := { seq := 0, tick := 0, w := List.replicate xstWords 0 }
  ecmCia402SetHomeTimeout
    { p :=
        { cycleNs := cycleNs
          stepTimeoutTicks := ticksOfMs cycleNs stepTimeoutMs
          homeTimeoutTicks := 0 }
      naxes := 0
      ax := fun _ => Axis.zero
      cmd := ecmXringInit { tick := 0, target := 0, op := .other, seq := 0, arg0 := 0, arg1 := 0 }
        xchgCmdCap
      sp := fun _ => ecmXringInit { tick := 0, v := 0 } xringCap
      st := fun _ => xst
      clock := xst
      cmdApplied := 0
      cmdDeferred := 0
      cmdBad := 0
      shutdown := false } 30000

/-- The mode an axis starts with: the first configured one, the cyclic modes
before the profile modes. -/
def firstMode (modes : Nat) : OpMode :=
  if modes &&& modeCsp ≠ 0 then .csp
  else if modes &&& modeCsv ≠ 0 then .csv
  else if modes &&& modePp ≠ 0 then .pp
  else if modes &&& modePv ≠ 0 then .pv
  else if modes &&& modeHm ≠ 0 then .hm
  else .none

/-- `ecm_cia402_add_axis`; `none` is its return value -1. -/
def ecmCia402AddAxis (c : EcmCia402) (modes : Nat) (b : Bind) : Option EcmCia402 :=
  if c.naxes ≥ axisMax then none
  else
    let a := { Axis.zero with modes := modes, b := b, modeReq := firstMode modes }
    some { c with ax := Function.update c.ax c.naxes a, naxes := c.naxes + 1 }

/-- `ecm_cia402_set_step_limit`. -/
def ecmCia402SetStepLimit (c : EcmCia402) (axis : Int) (maxPos maxVel : Int) : EcmCia402 :=
  if axis < 0 ∨ axis ≥ c.naxes then c
  else
    let a := c.ax axis.toNat
    { c with
      ax := Function.update c.ax axis.toNat
        { a with
          maxStepPos := if maxPos > 0 then maxPos else 0
          maxStepVel := if maxVel > 0 then maxVel else 0 } }

/-- `ecm_cia402_shutdown`. -/
def ecmCia402Shutdown (c : EcmCia402) : EcmCia402 :=
  { c with
    shutdown := true
    ax := fun i => if i < c.naxes then { c.ax i with target := .disabled } else c.ax i }

/-! ## The application side -/

/-- `ecm_cia402_cmd2`, and `ecm_cia402_cmd` with `arg1 = 0`. -/
def ecmCia402Cmd2 (c : EcmCia402) (axis : Int) (op : Op) (arg0 arg1 : Int) (seq tick : Nat) :
    EcmCia402 × Bool :=
  if axis < 0 ∨ axis ≥ c.naxes then (c, false)
  else
    let x : XCmd :=
      { tick := tick, target := axis.toNat, op := op, seq := seq, arg0 := arg0, arg1 := arg1 }
    let r := ecmXringPush c.cmd x
    ({ c with cmd := r.1 }, r.2)

/-- `ecm_cia402_setpoint`. -/
def ecmCia402Setpoint (c : EcmCia402) (axis : Int) (tick : Nat) (v : Int) : EcmCia402 × Bool :=
  if axis < 0 ∨ axis ≥ c.naxes then (c, false)
  else
    let r := ecmXringPush (c.sp axis.toNat) { tick := tick, v := v }
    ({ c with sp := Function.update c.sp axis.toNat r.1 }, r.2)

/-! ## The hook -/

/-- What one call of `ecm_cia402_rt` gets from outside: its arguments, the
inputs of the image, and the external errors as they are read in it, by the
n-th last command the hook still may apply and by each axis. -/
structure HookEnv where
  tick : Nat
  tSendNs : Nat
  inValid : Bool
  busLost : Bool
  inputs : Image
  xeCmd : Nat → AxErr
  xeRt : Nat → AxErr

/-- The arguments of `axis_rt` for axis `i`, when its turn finds the image `io`. -/
def HookEnv.axHook (env : HookEnv) (i : Nat) (io : Image) : AxHook :=
  { tick := env.tick, inValid := env.inValid, busLost := env.busLost, io := io
    xe := env.xeRt i }

/-- One command: `apply_cmd` of its axis. -/
def applyTo (c : EcmCia402) (tick : Nat) (xe : AxErr) (x : XCmd) : EcmCia402 :=
  if x.target < c.naxes then
    { c with
      ax := Function.update c.ax x.target (applyCmd c.shutdown xe tick x (c.ax x.target))
      cmdBad := if x.op = .other then c.cmdBad + 1 else c.cmdBad }
  else { c with cmdBad := c.cmdBad + 1 }

/-- The command loop of `ecm_cia402_rt`, with the commands it applied.  The
counter is what is left of `ECM_XCHG_CMD_PER_TICK`. -/
def cmdLoop (env : HookEnv) (budget : Nat) (c : EcmCia402) : EcmCia402 × List (XCmd × AxErr) :=
  match ecmXringPeek c.cmd with
  | none => (c, [])
  | some x =>
      if x.tick > u64 (env.tick + 1) then (c, [])
      else
        match budget with
        | 0 => ({ c with cmdDeferred := c.cmdDeferred + 1 }, [])
        | n + 1 =>
            let c := applyTo c env.tick (env.xeCmd n) x
            let r := cmdLoop env n
              { c with cmdApplied := c.cmdApplied + 1, cmd := ecmXringPop c.cmd }
            (r.1, (x, env.xeCmd n) :: r.2)

/-- The words of `publish`. -/
def publishWords (a : Axis) : List Nat :=
  [ a.sw ||| a.cw <<< 16 ||| a.ds.code <<< 32 ||| a.target.code <<< 40 |||
      a.err.code <<< 48 ||| a.errDs.code <<< 56,
    toU64 a.apos % 2 ^ 32 ||| (toU64 a.avel % 2 ^ 32) <<< 32,
    a.ecode ||| (toU64 a.modeDisp % 2 ^ 8) <<< 16 ||| a.modeOk.toNat <<< 24 |||
      (toU64 a.modeReq.code % 2 ^ 8) <<< 32 ||| a.homed.toNat <<< 40 |||
      a.hmPhase.code <<< 41 ||| a.ppPhase.code <<< 43 ||| a.ppN <<< 45,
    a.used,
    a.late,
    a.underrun,
    a.lastSeq ||| (a.stepRefused % 2 ^ 32) <<< 32,
    a.dropped % 2 ^ 32 ||| (a.ppAcked % 2 ^ 32) <<< 32 ]

/-- The turn of axis `i`: `axis_rt`, its output writes and `publish`. -/
def axisTurn (env : HookEnv) (s : EcmCia402 × Image) (i : Nat) : EcmCia402 × Image :=
  let c := s.1
  let o := axisRt c.p (env.axHook i s.2) (c.sp i) (c.ax i)
  ({ c with
      ax := Function.update c.ax i o.a
      sp := Function.update c.sp i o.ring
      st := Function.update c.st i (ecmXstWrite (c.st i) env.tick (publishWords o.a)) },
    writeOutputs (c.ax i).b o.out s.2)

/-- The turns of the first `n` axes. -/
def axesLoop (env : HookEnv) (n : Nat) (s : EcmCia402 × Image) : EcmCia402 × Image :=
  (List.range n).foldl (axisTurn env) s

/-- `ecm_cia402_rt`. -/
def ecmCia402Rt (env : HookEnv) (c : EcmCia402) (io : Image) : EcmCia402 × Image :=
  let c := (cmdLoop env xchgCmdPerTick c).1
  let s := axesLoop env c.naxes (c, io)
  let w := [env.tSendNs, s.1.p.cycleNs, env.inValid.toNat, env.busLost.toNat,
    s.1.cmdApplied, s.1.cmdDeferred, s.1.cmdBad, 0]
  ({ s.1 with clock := ecmXstWrite s.1.clock env.tick w }, s.2)

end EcMaster.Cia402
