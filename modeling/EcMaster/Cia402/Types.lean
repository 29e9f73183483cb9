import EcMaster.Pdo.Access
import EcMaster.Xchg.Primitives

/-!
# The data of the CiA402 axis layer

The types of `libecm_cia402/ecm_cia402_axis.h` and of the parts of
`ecm_cia402_cfg.h` that the RT code reads.  Every C enumeration is an
inductive type; the 0/1 flags are `Bool`; positions and velocities are `Int`;
ticks are `Nat` below `2 ^ 64` with explicit wrap where the code adds to or
subtracts from one.

The counters of an axis (`used`, `late`, `ppLost` and so on) are plain `Nat`:
they are only ever incremented and printed.

The build modelled here is the product build, with every latch on
(`ECM_CIA402_BROKEN = 0`).
-/

namespace EcMaster.Cia402

open EcMaster.ByteImage EcMaster.Pdo EcMaster.Xchg

/-- `ecm_ds_t`: the drive state as read from the statusword. -/
inductive DriveState where
  | unknown | notReady | sod | rtso | so | oe | qsa | fra | fault
deriving DecidableEq, Repr

/-- The numeric value of a drive state, as it is published. -/
def DriveState.code : DriveState → Nat
  | .unknown => 0 | .notReady => 1 | .sod => 2 | .rtso => 3 | .so => 4
  | .oe => 5 | .qsa => 6 | .fra => 7 | .fault => 8

/-- `ECM_DS_FAULT` or `ECM_DS_FRA`. -/
def DriveState.faulty : DriveState → Bool
  | .fault | .fra => true
  | _ => false

/-- `ECM_TGT_*`: what the master wants the axis to be. -/
inductive Target where
  | disabled | enabled | quickstop
deriving DecidableEq, Repr

def Target.code : Target → Nat
  | .disabled => 0 | .enabled => 1 | .quickstop => 2

/-- `ECM_AXERR_*`. -/
inductive AxErr where
  | none | timeout | fault | busLost | mode | inFault | dropped | step
  | shutdown | handshake | homing | config | slaveFailed
deriving DecidableEq, Repr

def AxErr.code : AxErr → Nat
  | .none => 0 | .timeout => 1 | .fault => 2 | .busLost => 3 | .mode => 4
  | .inFault => 5 | .dropped => 6 | .step => 7 | .shutdown => 8
  | .handshake => 9 | .homing => 10 | .config => 11 | .slaveFailed => 12

/-- `ECM_HM_*`. -/
inductive HmPhase where
  | idle | running | done | failed
deriving DecidableEq, Repr

def HmPhase.code : HmPhase → Nat
  | .idle => 0 | .running => 1 | .done => 2 | .failed => 3

/-- `pp_phase`: idle, bit 4 up, or waiting for the acknowledge to go low. -/
inductive PpPhase where
  | idle | up | waitLow
deriving DecidableEq, Repr

def PpPhase.code : PpPhase → Nat
  | .idle => 0 | .up => 1 | .waitLow => 2

/-- `ECM_OPMODE_*` as far as the axis code handles them.  `none` is the
requested mode of an axis that has no handled mode. -/
inductive OpMode where
  | none | pp | pv | hm | csp | csv
deriving DecidableEq, Repr

/-- The 0x6060 value of a mode. -/
def OpMode.code : OpMode → Int
  | .none => 0 | .pp => 1 | .pv => 3 | .hm => 6 | .csp => 8 | .csv => 9

/-- The handled mode with this 0x6060 value. -/
def OpMode.ofCode (m : Int) : OpMode :=
  if m = 1 then .pp
  else if m = 3 then .pv
  else if m = 6 then .hm
  else if m = 8 then .csp
  else if m = 9 then .csv
  else .none

/-- A mode fed by the setpoint ring. -/
def OpMode.cyclic : OpMode → Bool
  | .csp | .csv => true
  | _ => false

/-- `ECM_CIA_OP_*`.  Every other operation code is `other`. -/
inductive Op where
  | enable | disable | quickstop | faultReset | setMode | ppPoint | pvVel | home
  | other
deriving DecidableEq, Repr

/-- `ecm_xcmd_t`. -/
structure XCmd where
  tick : Nat
  target : Nat
  op : Op
  seq : Nat
  arg0 : Int
  arg1 : Int
deriving DecidableEq, Repr

/-- `ecm_xsp_t`; the axis layer uses the first of its three values. -/
structure XSp where
  tick : Nat
  v : Int
deriving DecidableEq, Repr

/-- `ecm_axis_bind_t`: the bound process data of one axis. -/
structure Bind where
  cw : Handle
  sw : Handle
  tpos : Handle
  apos : Handle
  tvel : Handle
  avel : Handle
  mode : Handle
  modeDisp : Handle
  err : Handle
deriving DecidableEq, Repr

/-! ## The axis record

`ecm_cia402_axis_t` is one flat C structure.  Here its fields are grouped by
the step of `axis_rt` that writes them, so that "this step leaves the setpoint
stream alone" is one equation.  The fields keep the names of the source, and
`Axis` has all of them. -/

/-- What the set-up fixes. -/
structure AxisCfg where
  modes : Nat
  b : Bind
  maxStepPos : Int
  maxStepVel : Int
deriving DecidableEq

/-- What step 1 copies from the inputs. -/
structure Inputs where
  ds : DriveState
  sw : Nat
  apos : Int
  avel : Int
  aposPrev : Int
  aposPrevOk : Bool
  ecode : Nat
  modeDisp : Int
  transitions : Nat
deriving DecidableEq

/-- The requested mode of operation and whether the drive shows it. -/
structure ModeState where
  modeReq : OpMode
  modeOk : Bool
deriving DecidableEq

/-- The target of the axis and its error latch. -/
structure Control where
  target : Target
  err : AxErr
  errDs : DriveState
  resetPulse : Nat
  reachedOe : Bool
  dsWait : DriveState
  stepSince : Nat
deriving DecidableEq

/-- The setpoint stream of the cyclic modes. -/
structure Stream where
  armed : Bool
  lastSp : Int
  lastDelta : Int
  lastSent : Int
  stepSeen : Int
  stepRefused : Nat
  used : Nat
  late : Nat
  underrun : Nat
  dropped : Nat
deriving DecidableEq

/-- Profile position: the queue of points and the handshake. -/
structure PpState where
  ppQ : Nat → Int
  ppQf : Nat → Nat
  ppHead : Nat
  ppN : Nat
  ppPhase : PpPhase
  ppFlags : Nat
  ppCur : Int
  ppSince : Nat
  ppSent : Nat
  ppAcked : Nat
  ppLost : Nat

/-- Profile velocity and homing. -/
structure HmState where
  pvVel : Int
  hmPhase : HmPhase
  hmSeenLow : Bool
  homed : Bool
  hmSince : Nat
deriving DecidableEq

/-- `ecm_cia402_axis_t`. -/
structure Axis extends AxisCfg, Inputs, ModeState, Control, Stream, PpState, HmState where
  cw : Nat
  running : Bool
  lastSeq : Nat

/-- What an axis reads of the shared `ecm_cia402_t`. -/
structure Params where
  cycleNs : Nat
  stepTimeoutTicks : Nat
  homeTimeoutTicks : Nat

/-! ## Constants -/

/-- `ECM_CIA402_PP_QUEUE`. -/
def ppQueue : Nat := 16

/-- `ECM_CIA402_HM_SETTLE`. -/
def hmSettle : Nat := 10

/-- `ECM_PP_REL` and `ECM_PP_IMM`. -/
def ppRel : Nat := 1
def ppImm : Nat := 2

/-- `ECM_XCHG_CMD_PER_TICK` and `ECM_XCHG_SP_SKIP_MAX`. -/
def xchgCmdPerTick : Nat := 8
def xchgSpSkipMax : Nat := 16

/-- `ECM_MODE_*`: the modes as bits of 0x6502. -/
def modePp : Nat := 1 <<< 0
def modePv : Nat := 1 <<< 2
def modeHm : Nat := 1 <<< 5
def modeCsp : Nat := 1 <<< 7
def modeCsv : Nat := 1 <<< 8

/-! ## Machine arithmetic -/

/-- A `uint64_t` sum. -/
def u64 (n : Nat) : Nat := n % 2 ^ 64

/-- A `uint64_t` difference. -/
def sub64 (a b : Nat) : Nat := if b ≤ a then a - b else a + 2 ^ 64 - b

/-- The conversion of an `int64_t` to `uint64_t`. -/
def toU64 (v : Int) : Nat := (v % 2 ^ 64).toNat

/-- The conversions to `int32_t` and `int8_t`. -/
def toI32 (v : Int) : Int := Int.bmod v (2 ^ 32)
def toI8 (v : Int) : Int := Int.bmod v (2 ^ 8)

/-- `sext`: sign extension of a field of `bits` bits. -/
def sext (v bits : Nat) : Int :=
  if bits = 0 ∨ bits ≥ 64 then Int.bmod v (2 ^ 64)
  else
    let m := 2 ^ (bits - 1)
    ((v % 2 ^ bits ^^^ m : Nat) : Int) - m

/-- Without a wrap a `uint64_t` difference is the difference. -/
theorem sub64_of_le {a b : Nat} (hle : b ≤ a) : sub64 a b = a - b :=
  if_pos hle

theorem u64_of_lt {n : Nat} (h : n < 2 ^ 64) : u64 n = n :=
  Nat.mod_eq_of_lt h

end EcMaster.Cia402
