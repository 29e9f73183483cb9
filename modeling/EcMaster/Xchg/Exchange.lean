import EcMaster.Pdo.Access
import EcMaster.Xchg.Primitives

/-!
# The exchange between the application and the RT thread

`ecm_xchg_rt` of `libecmaster/xchg/ecm_xchg.c` is a hook of the RT thread that
moves plain numbers: an output slot takes one setpoint per tick from its ring or
holds its last value, an input slot publishes its value, and commands may set an
output slot once.

A hook is one step here.  An application thread may push while a hook runs, but
such a push is the same as one before or after the hook: a hook pops at most
eight commands, and seventeen setpoints of one slot, and the rings hold 256 and
512 elements, so a push that is accepted only because the hook has just made room
is not reached by the loop of that hook.

`XHook` is the state of a hook while it runs.  Besides the exchange and the IOmap
it records what the hook takes from the rings and what it writes to the IOmap,
in order; the code keeps no such record.  Ticks and counters are natural numbers, 64
bits wide in the source.
-/

namespace EcMaster.Xchg

open EcMaster.ByteImage EcMaster.Pdo

/-- `ECM_XCHG_MAX_SLOTS`, `ECM_XCHG_CMD_PER_TICK` and `ECM_XCHG_SP_SKIP_MAX`. -/
def maxSlots : Nat := 32
def cmdPerTick : Nat := 8
def spSkipMax : Nat := 16

/-- `ECM_XOP_*`; every other code is for the owner of the hook. -/
inductive Xop where
  | nop | set | other (code : Nat)
deriving DecidableEq, Repr

/-- `ecm_xcmd_t`; the exchange does not read `arg1`. -/
structure Xcmd where
  tick : Nat
  target : Nat
  op : Xop
  seq : Nat
  arg0 : Int
deriving DecidableEq, Repr

/-- `ecm_xsp_t`; the exchange uses the first of its three values. -/
structure Xsp where
  tick : Nat
  v : Int
deriving DecidableEq, Repr

/-- `ecm_xslot_t`. -/
structure Xslot where
  h : Handle
  isOut : Bool
  armed : Bool
  last : Int
  used : Nat
  late : Nat
  underrun : Nat
  droppedLost : Nat

/-- `ecm_xchg_t`. -/
structure EcmXchg where
  nslots : Nat
  cycleNs : Nat
  slot : Nat → Xslot
  cmd : XRing Xcmd
  sp : Nat → XRing Xsp
  st : Nat → Xst
  clock : Xst
  cmdApplied : Nat
  cmdDeferred : Nat
  cmdUnknown : Nat
  lastSeq : Nat

/-- `(uint64_t)v` of an `int64_t`. -/
def xword (v : Int) : Nat := (v % 2 ^ 64).toNat

/-- `ecm_xchg_init`. -/
def ecmXchgInit (cycleNs : Nat) : EcmXchg :=
  let xst : Xst := { seq := 0, tick := 0, w := List.replicate xstWords 0 }
  { nslots := 0
    cycleNs := cycleNs
    slot := fun _ =>
      { h := Handle.absent, isOut := false, armed := false, last := 0, used := 0, late := 0
        underrun := 0, droppedLost := 0 }
    cmd := ecmXringInit { tick := 0, target := 0, op := .nop, seq := 0, arg0 := 0 } xchgCmdCap
    sp := fun _ => ecmXringInit { tick := 0, v := 0 } xringCap
    st := fun _ => xst
    clock := xst
    cmdApplied := 0
    cmdDeferred := 0
    cmdUnknown := 0
    lastSeq := 0 }

/-- `ecm_xchg_add_slot`; `isOut` is the direction of the handle. -/
def ecmXchgAddSlot (x : EcmXchg) (h : Handle) (isOut : Bool) : Option EcmXchg :=
  if x.nslots ≥ maxSlots ∨ !h.mapped then none
  else
    some
      { x with
        slot := Function.update x.slot x.nslots
          { h := h, isOut := isOut, armed := false, last := 0, used := 0, late := 0
            underrun := 0, droppedLost := 0 }
        nslots := x.nslots + 1 }

/-! ## The application side -/

/-- `ecm_xchg_cmd`. -/
def ecmXchgCmd (x : EcmXchg) (c : Xcmd) : EcmXchg × Bool :=
  let r := ecmXringPush x.cmd c
  ({ x with cmd := r.1 }, r.2)

/-- `ecm_xchg_setpoint`. -/
def ecmXchgSetpoint (x : EcmXchg) (slot : Int) (tick : Nat) (v0 : Int) : EcmXchg × Bool :=
  if slot < 0 ∨ slot ≥ x.nslots ∨ !(x.slot slot.toNat).isOut then (x, false)
  else
    let r := ecmXringPush (x.sp slot.toNat) { tick := tick, v := v0 }
    ({ x with sp := Function.update x.sp slot.toNat r.1 }, r.2)

/-! ## The hook -/

/-- A write of a hook to the IOmap: a `SET` command, a setpoint, or the last value
of a slot again. -/
inductive Xwrite where
  | set (c : Xcmd)
  | setpoint (slot : Nat) (e : Xsp)
  | hold (slot : Nat) (v : Int)
deriving DecidableEq, Repr

def Xwrite.slot : Xwrite → Nat
  | .set c => c.target
  | .setpoint slot _ => slot
  | .hold slot _ => slot

def Xwrite.value : Xwrite → Int
  | .set c => c.arg0
  | .setpoint _ e => e.v
  | .hold _ v => v

/-- The arguments of `ecm_xchg_rt`, with the IOmap it finds. -/
structure XchgArgs where
  iomap : Image
  tick : Nat
  tSendNs : Nat
  inValid : Bool
  busLost : Bool

/-- The frame the outputs of this hook go out in. -/
def XchgArgs.k1 (env : XchgArgs) : Nat := (env.tick + 1) % 2 ^ 64

/-- A hook while it runs: the exchange, the IOmap, and what the hook has done: the
commands and setpoints it took, and its writes. -/
structure XHook where
  x : EcmXchg
  io : Image
  cmds : List Xcmd
  popped : Nat → List Xsp
  writes : List Xwrite

/-- One write. -/
def XHook.put (t : XHook) (w : Xwrite) : XHook :=
  { t with
    io := ecmPdoSet (t.x.slot w.slot).h t.io (xword w.value)
    writes := t.writes ++ [w] }

/-- `apply`: a write whose value the slot keeps. -/
def XHook.apply (t : XHook) (w : Xwrite) : XHook :=
  let t := t.put w
  { t with
    x :=
      { t.x with
        slot := Function.update t.x.slot w.slot
          { t.x.slot w.slot with last := w.value, armed := true } } }

/-- The body of the command loop. -/
def execCmd (busLost : Bool) (c : Xcmd) (t : XHook) : XHook :=
  let t :=
    if c.op = .set ∧ c.target < t.x.nslots ∧ (t.x.slot c.target).isOut ∧ !busLost then
      t.apply (.set c)
    else if c.op ≠ .nop ∧ c.op ≠ .set then
      { t with x := { t.x with cmdUnknown := t.x.cmdUnknown + 1 } }
    else t
  { t with
    x :=
      { t.x with
        lastSeq := c.seq
        cmdApplied := t.x.cmdApplied + 1
        cmd := ecmXringPop t.x.cmd }
    cmds := t.cmds ++ [c] }

/-- Step 1: the commands.  The counter is what is left of `ECM_XCHG_CMD_PER_TICK`. -/
def cmdLoop (k1 : Nat) (busLost : Bool) (budget : Nat) (t : XHook) : XHook :=
  match ecmXringPeek t.x.cmd with
  | none => t
  | some c =>
      if c.tick > k1 then t
      else
        match budget with
        | 0 => { t with x := { t.x with cmdDeferred := t.x.cmdDeferred + 1 } }
        | n + 1 => cmdLoop k1 busLost n (execCmd busLost c t)

/-- Slot `i` after its setpoint `e` left the ring, with the record of that. -/
def XHook.popSp (t : XHook) (i : Nat) (e : Xsp) (s : Xslot) : XHook :=
  { t with
    x :=
      { t.x with
        slot := Function.update t.x.slot i s
        sp := Function.update t.x.sp i (ecmXringPop (t.x.sp i)) }
    popped := Function.update t.popped i (t.popped i ++ [e]) }

/-- The `while` loop of step 2 for slot `i`, and whether it used a setpoint.  The
counter is what is left of `ECM_XCHG_SP_SKIP_MAX`. -/
def spLoop (k1 : Nat) (busLost : Bool) (i : Nat) (budget : Nat) (t : XHook) : XHook × Bool :=
  match ecmXringPeek (t.x.sp i) with
  | none => (t, false)
  | some e =>
      if e.tick < k1 ∨ (busLost ∧ e.tick = k1) then
        match budget with
        | 0 => (t, false)
        | n + 1 =>
            let s := t.x.slot i
            spLoop k1 busLost i n
              (t.popSp i e
                (if busLost then { s with droppedLost := s.droppedLost + 1 }
                  else { s with late := s.late + 1 }))
      else if busLost then (t, false)
      else if e.tick = k1 then
        let t := t.apply (.setpoint i e)
        let s := t.x.slot i
        (t.popSp i e { s with used := s.used + 1 }, true)
      else (t, false)

/-- Step 2 for slot `i`. -/
def slotTurn (k1 : Nat) (busLost : Bool) (t : XHook) (i : Nat) : XHook :=
  if !(t.x.slot i).isOut then t
  else
    let r := spLoop k1 busLost i spSkipMax t
    let t := r.1
    let s := t.x.slot i
    if !r.2 ∧ s.armed ∧ !busLost then
      XHook.put
        { t with
          x := { t.x with slot := Function.update t.x.slot i { s with underrun := s.underrun + 1 } } }
        (.hold i s.last)
    else t

/-- The words of the state record of a slot (`ECM_XS_*`). -/
def slotWords (env : XchgArgs) (io : Image) (s : Xslot) (st : Xst) : List Nat :=
  let valid := if s.isOut then s.armed else env.inValid
  let value := if s.isOut ∨ env.inValid then ecmPdoGet s.h io else 0
  -- An input that is not valid keeps the value published last.
  let value :=
    if !s.isOut ∧ !env.inValid then
      match ecmXstRead st 6 with
      | some (_, old) => old.headD 0
      | none => value
    else value
  [value, s.used, s.late, s.underrun, s.droppedLost, valid.toNat]

/-- Step 3 for slot `i`. -/
def publishSlot (env : XchgArgs) (t : XHook) (i : Nat) : XHook :=
  { t with
    x :=
      { t.x with
        st := Function.update t.x.st i
          (ecmXstWrite (t.x.st i) env.tick (slotWords env t.io (t.x.slot i) (t.x.st i))) } }

/-- `ecm_xchg_rt`. -/
def ecmXchgRt (env : XchgArgs) (x : EcmXchg) : XHook :=
  let t : XHook := { x := x, io := env.iomap, cmds := [], popped := fun _ => [], writes := [] }
  let t := cmdLoop env.k1 env.busLost cmdPerTick t
  let t := (List.range t.x.nslots).foldl (slotTurn env.k1 env.busLost) t
  let t := (List.range t.x.nslots).foldl (publishSlot env) t
  let cw := [env.tSendNs, t.x.cycleNs, env.inValid.toNat, env.busLost.toNat,
    t.x.cmdApplied, t.x.cmdDeferred, t.x.lastSeq, t.x.cmdUnknown]
  { t with x := { t.x with clock := ecmXstWrite t.x.clock env.tick cw } }

end EcMaster.Xchg
