import EcMaster.Cia402.Types

/-!
# The front half of `axis_rt`: inputs, latches, controlword

`axis_rt` of `ecm_cia402_axis.c` runs once per axis and hook.  Its first five
numbered steps read the inputs, apply the safety latches S1 and S5, choose the
controlword from the target and the drive state, and watch a commanded
transition for its time-out.  They are run on every hook, with or without a
bus.  Each step is one definition here, in the order of the source.

`Work` holds the local variables of `axis_rt` besides the axis itself.

The spec lemma of this half is `front_target_enabled`: if the target is still
enabled when the controlword has been chosen, then it was enabled before the
hook and none of the latches fired.
-/

namespace EcMaster.Cia402

open EcMaster.ByteImage EcMaster.Pdo EcMaster.Xchg

/-- The arguments of one call of `axis_rt`.  `io` is the image at the turn of
the axis and `xe` its external error as read in the call. -/
structure AxHook where
  tick : Nat
  inValid : Bool
  busLost : Bool
  io : Image
  xe : AxErr

/-- The local variables of `axis_rt`: `got` and `running`, and the values it
has passed to `ecm_pdo_set` for 0x607A and 0x60FF so far. -/
structure Work where
  a : Axis
  cw : Nat
  enablingNow : Bool
  running : Bool
  got : Bool
  tpos : Option Int
  tvel : Option Int

/-- `ecm_cia402_decode`. -/
def ecmCia402Decode (sw : Nat) : DriveState :=
  match sw &&& 0x4F with
  | 0x00 => .notReady
  | 0x40 => .sod
  | 0x0F => .fra
  | 0x08 => .fault
  | _ =>
      match sw &&& 0x6F with
      | 0x21 => .rtso
      | 0x23 => .so
      | 0x27 => .oe
      | 0x07 => .qsa
      | _ => .unknown

/-- The actual velocity of an axis without 0x606C: the position difference of
two good frames, in increments per second. -/
def derivedVel (p : Params) (a : Axis) (apos : Int) : Int :=
  if a.aposPrevOk then
    toI32 (Int.tdiv (toI32 (apos - a.aposPrev) * 1000000000) p.cycleNs)
  else 0

/-- Step 1: the inputs.  A bad frame keeps the last good ones. -/
def readInputs (p : Params) (h : AxHook) (a : Axis) : Axis :=
  if h.inValid then
    let sw := ecmPdoGet a.b.sw h.io % 2 ^ 16
    let apos :=
      if a.b.apos.mapped then toI32 (sext (ecmPdoGet a.b.apos h.io) a.b.apos.bits)
      else a.apos
    let differs := !a.b.avel.mapped && a.b.apos.mapped
    let ds := ecmCia402Decode sw
    { a with
      sw := sw
      apos := apos
      avel :=
        if a.b.avel.mapped then toI32 (sext (ecmPdoGet a.b.avel h.io) a.b.avel.bits)
        else if a.b.apos.mapped then derivedVel p a apos
        else a.avel
      aposPrev := if differs then apos else a.aposPrev
      aposPrevOk := differs || a.aposPrevOk
      ecode := if a.b.err.mapped then ecmPdoGet a.b.err h.io % 2 ^ 16 else a.ecode
      modeDisp :=
        if a.b.modeDisp.mapped then
          toI8 (sext (ecmPdoGet a.b.modeDisp h.io) a.b.modeDisp.bits)
        else a.modeReq.code
      transitions := if ds ≠ a.ds then a.transitions + 1 else a.transitions
      ds := ds }
  else { a with aposPrevOk := false }

/-- The requested mode is confirmed by 0x6061. -/
def confirmMode (a : Axis) : Axis :=
  { a with modeOk := a.modeReq ≠ .none && a.modeDisp = a.modeReq.code }

/-- Step 2: bus lost (S5) and drive fault. -/
def latchFault (h : AxHook) (a : Axis) : Axis :=
  if h.busLost then
    if a.target ≠ .disabled then { a with target := .disabled, err := .busLost } else a
  else if a.ds.faulty ∧ a.target ≠ .disabled then
    { a with target := .disabled, err := .fault, errDs := a.ds }
  else a

/-- Step 2: an error found by the monitor. -/
def latchExt (h : AxHook) (a : Axis) : Axis :=
  if h.xe ≠ .none then { a with target := .disabled, err := h.xe } else a

/-- Step 2: Operation enabled left without a command (S1). -/
def latchDropped (h : AxHook) (a : Axis) : Axis :=
  if h.inValid ∧ a.target = .enabled then
    if a.ds = .oe then { a with reachedOe := true }
    else if a.reachedOe then
      { a with target := .disabled, err := .dropped, errDs := a.ds }
    else a
  else a

/-- Step 4: the controlword for a target, a drive state and a mode that is or
is not confirmed. -/
def walkCw (target : Target) (ds : DriveState) (modeOk : Bool) : Nat :=
  match target, ds with
  | .enabled, .sod => 0x0006
  | .enabled, .rtso => 0x0007
  | .enabled, .so => if modeOk then 0x000F else 0x0007
  | .enabled, .oe => 0x000F
  | .enabled, _ => 0x0000
  | .quickstop, .oe | .quickstop, .qsa => 0x0002
  | .quickstop, _ => 0x0000
  | .disabled, .oe => 0x0007
  | .disabled, .so => 0x0006
  | .disabled, _ => 0x0000

/-- Step 4: a quick stop is over when the drive is neither in Operation
enabled nor in Quick stop active. -/
def endQuickstop (a : Axis) : Axis :=
  if a.target = .quickstop ∧ a.ds ≠ .oe ∧ a.ds ≠ .qsa then { a with target := .disabled }
  else a

/-- Step 4: the controlword, with the one-tick pulse of a fault reset. -/
def controlword (a : Axis) : Work :=
  let w : Work :=
    { a := endQuickstop a
      cw := walkCw a.target a.ds a.modeOk
      enablingNow := a.target = .enabled && a.ds = .so && a.modeOk
      running := false
      got := false
      tpos := none
      tvel := none }
  if a.resetPulse = 2 then { w with cw := 0x0080, a := { w.a with resetPulse := 1 } }
  else if a.resetPulse = 1 then { w with cw := 0x0000, a := { w.a with resetPulse := 0 } }
  else w

/-- Step 5: time-out of a commanded transition. -/
def stepTimeout (p : Params) (h : AxHook) (w : Work) : Work :=
  if w.a.target = .enabled ∧ w.a.ds ≠ .oe ∧ !h.busLost then
    if w.a.ds ≠ w.a.dsWait then
      { w with a := { w.a with dsWait := w.a.ds, stepSince := h.tick } }
    else if sub64 h.tick w.a.stepSince > p.stepTimeoutTicks then
      { w with
        a := { w.a with err := .timeout, errDs := w.a.ds, target := .disabled }
        cw := if w.a.ds = .so then 0x0006 else 0x0000 }
    else w
  else w

/-- Steps 1 and 2: the axis when the controlword is chosen. -/
def latched (p : Params) (h : AxHook) (a : Axis) : Axis :=
  latchDropped h (latchExt h (latchFault h (confirmMode (readInputs p h a))))

/-- Steps 1 to 5. -/
def front (p : Params) (h : AxHook) (a : Axis) : Work :=
  stepTimeout p h (controlword (latched p h a))

/-! ## What the front half leaves alone

The setpoint stream, the profile modes and the configuration are not touched
by any of the five steps, and only step 1 writes the inputs. -/

@[simp] theorem readInputs_frame (p : Params) (h : AxHook) (a : Axis) :
    (readInputs p h a).toAxisCfg = a.toAxisCfg ∧
      (readInputs p h a).toModeState = a.toModeState ∧
      (readInputs p h a).toControl = a.toControl ∧
      (readInputs p h a).toStream = a.toStream ∧
      (readInputs p h a).toPpState = a.toPpState ∧
      (readInputs p h a).toHmState = a.toHmState ∧
      (readInputs p h a).cw = a.cw ∧
      (readInputs p h a).running = a.running := by
  unfold readInputs
  split <;> simp

/-! The latches and the choice of the controlword change the control group of
the axis only, and none of the latches touches the reset pulse. -/

theorem latchFault_frame (h : AxHook) (a : Axis) :
    latchFault h a = { a with toControl := (latchFault h a).toControl } ∧
      (latchFault h a).resetPulse = a.resetPulse := by
  unfold latchFault
  split_ifs <;> exact ⟨rfl, rfl⟩

theorem latchExt_frame (h : AxHook) (a : Axis) :
    latchExt h a = { a with toControl := (latchExt h a).toControl } ∧
      (latchExt h a).resetPulse = a.resetPulse := by
  unfold latchExt
  split_ifs <;> exact ⟨rfl, rfl⟩

theorem latchDropped_frame (h : AxHook) (a : Axis) :
    latchDropped h a = { a with toControl := (latchDropped h a).toControl } ∧
      (latchDropped h a).resetPulse = a.resetPulse := by
  unfold latchDropped
  split_ifs <;> exact ⟨rfl, rfl⟩

theorem latched_frame (p : Params) (h : AxHook) (a : Axis) :
    latched p h a =
      { confirmMode (readInputs p h a) with toControl := (latched p h a).toControl } := by
  unfold latched
  rw [(latchDropped_frame h _).1, (latchExt_frame h _).1, (latchFault_frame h _).1]

@[simp] theorem latched_resetPulse (p : Params) (h : AxHook) (a : Axis) :
    (latched p h a).resetPulse = a.resetPulse := by
  unfold latched
  rw [(latchDropped_frame h _).2, (latchExt_frame h _).2, (latchFault_frame h _).2]
  simp [confirmMode]

theorem controlword_frame (a : Axis) :
    (controlword a).a = { a with toControl := (controlword a).a.toControl } := by
  unfold controlword endQuickstop
  split_ifs <;> rfl

theorem stepTimeout_frame (p : Params) (h : AxHook) (w : Work) :
    stepTimeout p h w =
      { w with
        a := { w.a with toControl := (stepTimeout p h w).a.toControl }
        cw := (stepTimeout p h w).cw } := by
  unfold stepTimeout
  split_ifs <;> rfl

/-- The whole front half: the inputs are those of step 1, the mode is confirmed
against them, and besides that only the control group changes. -/
theorem front_frame (p : Params) (h : AxHook) (a : Axis) :
    (front p h a).a =
      { confirmMode (readInputs p h a) with toControl := (front p h a).a.toControl } := by
  unfold front
  rw [stepTimeout_frame, controlword_frame, latched_frame]

@[simp] theorem front_groups (p : Params) (h : AxHook) (a : Axis) :
    (front p h a).a.toAxisCfg = a.toAxisCfg ∧
      (front p h a).a.toInputs = (readInputs p h a).toInputs ∧
      (front p h a).a.modeReq = a.modeReq ∧
      (front p h a).a.modeOk = (confirmMode (readInputs p h a)).modeOk ∧
      (front p h a).a.toStream = a.toStream ∧
      (front p h a).a.toPpState = a.toPpState ∧
      (front p h a).a.toHmState = a.toHmState ∧
      (front p h a).a.cw = a.cw ∧
      (front p h a).a.running = a.running := by
  rw [front_frame]
  simp [confirmMode]

@[simp] theorem front_outputs (p : Params) (h : AxHook) (a : Axis) :
    (front p h a).tpos = none ∧ (front p h a).tvel = none := by
  unfold front
  rw [stepTimeout_frame]
  unfold controlword
  split_ifs <;> simp

/-! ## The target after the latches -/

theorem latchFault_lost {h : AxHook} (a : Axis) (hlost : h.busLost = true) :
    (latchFault h a).target = .disabled := by
  unfold latchFault
  rw [if_pos hlost]
  split_ifs with hne
  · rfl
  · simpa using hne

theorem latchFault_enabled {h : AxHook} {a : Axis}
    (ht : (latchFault h a).target = .enabled) :
    latchFault h a = a ∧ h.busLost = false ∧ a.ds.faulty = false := by
  have hlost : ¬ h.busLost = true := by
    intro hlost
    simp [latchFault_lost a hlost] at ht
  unfold latchFault at ht ⊢
  rw [if_neg hlost] at ht ⊢
  by_cases hfault : a.ds.faulty = true ∧ a.target ≠ .disabled
  · simp [hfault] at ht
  · rw [if_neg hfault] at ht ⊢
    exact ⟨rfl, by simpa using hlost, by simpa [ht] using hfault⟩

theorem latchExt_enabled {h : AxHook} {a : Axis}
    (ht : (latchExt h a).target = .enabled) :
    latchExt h a = a ∧ h.xe = .none := by
  unfold latchExt at ht ⊢
  by_cases hxe : h.xe ≠ .none
  · simp [hxe] at ht
  · rw [if_neg hxe]
    exact ⟨rfl, by simpa using hxe⟩

theorem latchDropped_enabled {h : AxHook} {a : Axis}
    (ht : (latchDropped h a).target = .enabled) :
    a.target = .enabled ∧ (h.inValid → a.ds ≠ .oe → a.reachedOe = false) ∧
      (latchDropped h a).reachedOe = (a.reachedOe || (h.inValid && a.ds = .oe)) := by
  unfold latchDropped at ht ⊢
  split_ifs at ht ⊢ with hv hoe hr
  · simp [hv, hoe]
  · simp [hv, hoe, hr]
  · have htarget : a.target = .enabled := ht
    have hinv : h.inValid = false := by simpa [htarget] using hv
    simp [htarget, hinv]

/-- A target that is still enabled after the latches was enabled before, and no
latch had a reason to fire. -/
theorem latched_target_enabled {p : Params} {h : AxHook} {a : Axis}
    (ht : (latched p h a).target = .enabled) :
    a.target = .enabled ∧ h.busLost = false ∧ h.xe = .none ∧
      (readInputs p h a).ds.faulty = false ∧
      (h.inValid → (readInputs p h a).ds ≠ .oe → a.reachedOe = false) ∧
      (latched p h a).reachedOe =
        (a.reachedOe || (h.inValid && (readInputs p h a).ds = .oe)) := by
  obtain ⟨hext, hdrop, hreach⟩ := latchDropped_enabled ht
  obtain ⟨heq, hxe⟩ := latchExt_enabled hext
  rw [heq] at hext hdrop hreach
  obtain ⟨heq', hlost, hfault⟩ := latchFault_enabled hext
  rw [heq'] at hext hdrop hreach
  have hctl : (confirmMode (readInputs p h a)).toControl = a.toControl := by
    simp [confirmMode]
  rw [hctl] at hext hdrop
  refine ⟨hext, hlost, hxe, hfault, hdrop, ?_⟩
  rw [latched, heq, heq']
  rw [hctl] at hreach
  exact hreach

theorem latchExt_disabled (h : AxHook) {a : Axis} (ht : a.target = .disabled) :
    (latchExt h a).target = .disabled := by
  unfold latchExt
  split_ifs
  · rfl
  · exact ht

theorem latchDropped_disabled (h : AxHook) {a : Axis} (ht : a.target = .disabled) :
    (latchDropped h a).target = .disabled := by
  unfold latchDropped
  rw [if_neg (by simp [ht])]
  exact ht

/-- Without a bus the target is disabled. -/
theorem latched_lost {p : Params} {h : AxHook} {a : Axis} (hlost : h.busLost = true) :
    (latched p h a).target = .disabled :=
  latchDropped_disabled h (latchExt_disabled h (latchFault_lost _ hlost))

/-! ## The controlword -/

/-- The low nibble 0xF is chosen for the target enabled only. -/
theorem walkCw_nibble {t : Target} {ds : DriveState} {ok : Bool}
    (hcw : walkCw t ds ok % 16 = 15) : t = .enabled := by
  cases t <;> cases ds <;> simp_all [walkCw]

theorem walkCw_testBit_seven (t : Target) (ds : DriveState) (ok : Bool) :
    (walkCw t ds ok).testBit 7 = false := by
  cases t <;> cases ds <;> cases ok <;> decide

theorem walkCw_lt (t : Target) (ds : DriveState) (ok : Bool) : walkCw t ds ok < 16 := by
  cases t <;> cases ds <;> cases ok <;> decide

theorem endQuickstop_enabled {a : Axis} :
    (endQuickstop a).target = .enabled ↔ a.target = .enabled := by
  unfold endQuickstop
  split_ifs with hq <;> simp_all

/-- The reset pulse lasts one hook: bit 7 is up when it was armed by a command
of this hook, and no hook leaves it armed. -/
theorem controlword_pulse (a : Axis) :
    ((controlword a).cw.testBit 7 = true → a.resetPulse = 2) ∧
      (controlword a).a.resetPulse ≠ 2 := by
  have hwalk := walkCw_testBit_seven a.target a.ds a.modeOk
  have hend : (endQuickstop a).resetPulse = a.resetPulse := by
    unfold endQuickstop
    split_ifs <;> rfl
  unfold controlword
  split_ifs with htwo hone
  · simp [htwo]
  · simp
  · simp [hwalk, hend, htwo]

theorem controlword_nibble {a : Axis} (hcw : (controlword a).cw % 16 = 15) :
    a.target = .enabled := by
  unfold controlword at hcw
  split_ifs at hcw
  · simp at hcw
  · simp at hcw
  · exact walkCw_nibble hcw

theorem controlword_enabled {a : Axis} :
    (controlword a).a.target = .enabled ↔ a.target = .enabled := by
  rw [← endQuickstop_enabled (a := a)]
  unfold controlword
  split_ifs <;> rfl

theorem controlword_disabled {a : Axis} (ht : a.target = .disabled) :
    (controlword a).a.target = .disabled := by
  have hend : (endQuickstop a).target = .disabled := by
    unfold endQuickstop
    rw [if_neg (by simp [ht])]
    exact ht
  unfold controlword
  split_ifs <;> exact hend

theorem controlword_reachedOe (a : Axis) : (controlword a).a.reachedOe = a.reachedOe := by
  unfold controlword endQuickstop
  split_ifs <;> rfl

/-- The time-out keeps the target or takes it away, and nothing else in the
control group matters for what follows. -/
theorem stepTimeout_control (p : Params) (h : AxHook) (w : Work) :
    ((stepTimeout p h w).a.target = .enabled → w.a.target = .enabled) ∧
      (w.a.target = .disabled → (stepTimeout p h w).a.target = .disabled) ∧
      (stepTimeout p h w).a.resetPulse = w.a.resetPulse ∧
      (stepTimeout p h w).a.reachedOe = w.a.reachedOe := by
  unfold stepTimeout
  split_ifs with henabled hmoved hover hso
  · simp
  · simp [henabled]
  · simp [henabled]
  · simp
  · simp

/-- A time-out also takes the low nibble 0xF away. -/
theorem stepTimeout_nibble {p : Params} {h : AxHook} {w : Work}
    (hcw : (stepTimeout p h w).cw % 16 = 15) :
    w.cw % 16 = 15 ∧ (stepTimeout p h w).a.target = w.a.target := by
  unfold stepTimeout at hcw ⊢
  split_ifs at hcw ⊢ with henabled hmoved hover hso
  · exact ⟨hcw, rfl⟩
  · simp at hcw
  · simp at hcw
  · exact ⟨hcw, rfl⟩
  · exact ⟨hcw, rfl⟩

theorem stepTimeout_testBit_seven {p : Params} {h : AxHook} {w : Work}
    (hbit : (stepTimeout p h w).cw.testBit 7 = true) : w.cw.testBit 7 = true := by
  have hsix : Nat.testBit 6 7 = false := by decide
  unfold stepTimeout at hbit
  split_ifs at hbit with henabled hmoved hover hso
  · exact hbit
  · simp [hsix] at hbit
  · simp at hbit
  · exact hbit
  · exact hbit

/-! ## The front half as a whole -/

/-- If the target is still enabled after the front half, no latch fired. -/
theorem front_target_enabled {p : Params} {h : AxHook} {a : Axis}
    (ht : (front p h a).a.target = .enabled) :
    a.target = .enabled ∧ h.busLost = false ∧ h.xe = .none ∧
      (readInputs p h a).ds.faulty = false ∧
      (h.inValid → (readInputs p h a).ds ≠ .oe → a.reachedOe = false) ∧
      (front p h a).a.reachedOe =
        (a.reachedOe || (h.inValid && (readInputs p h a).ds = .oe)) := by
  obtain ⟨henabled, -, -, hreach⟩ := stepTimeout_control p h (controlword (latched p h a))
  have hlat := latched_target_enabled (controlword_enabled.1 (henabled ht))
  rw [front, hreach, controlword_reachedOe]
  exact hlat

/-- The low nibble 0xF goes with the target enabled. -/
theorem front_nibble {p : Params} {h : AxHook} {a : Axis}
    (hcw : (front p h a).cw % 16 = 15) : (front p h a).a.target = .enabled := by
  obtain ⟨hctl, htarget⟩ := stepTimeout_nibble hcw
  rw [front, htarget]
  exact controlword_enabled.2 (controlword_nibble hctl)

/-- Bit 7 is the reset pulse, and the pulse does not outlast the hook. -/
theorem front_pulse (p : Params) (h : AxHook) (a : Axis) :
    ((front p h a).cw.testBit 7 = true → a.resetPulse = 2) ∧
      (front p h a).a.resetPulse ≠ 2 := by
  obtain ⟨hbit, hne⟩ := controlword_pulse (latched p h a)
  rw [latched_resetPulse] at hbit
  obtain ⟨-, -, hpulse, -⟩ := stepTimeout_control p h (controlword (latched p h a))
  refine ⟨fun hseven => hbit (stepTimeout_testBit_seven hseven), ?_⟩
  rw [front, hpulse]
  exact hne

/-- The front half sets no bit above the low nibble but the reset pulse. -/
theorem front_cw (p : Params) (h : AxHook) (a : Axis) :
    (front p h a).cw < 16 ∨ (front p h a).cw = 0x0080 := by
  have hctl : (controlword (latched p h a)).cw < 16 ∨
      (controlword (latched p h a)).cw = 0x0080 := by
    unfold controlword
    split_ifs
    · exact .inr rfl
    · exact .inl (by simp)
    · exact .inl (walkCw_lt _ _ _)
  unfold front stepTimeout
  split_ifs
  · exact hctl
  · exact .inl (by simp)
  · exact .inl (by simp)
  · exact hctl
  · exact hctl

/-- Without a bus the target is disabled. -/
theorem front_lost {p : Params} {h : AxHook} {a : Axis} (hlost : h.busLost = true) :
    (front p h a).a.target = .disabled := by
  apply (stepTimeout_control p h _).2.1
  exact controlword_disabled (latched_lost hlost)

/-- The axis is not just being enabled while the drive is in Operation enabled. -/
theorem front_enablingNow {p : Params} {h : AxHook} {a : Axis}
    (hen : (front p h a).enablingNow = true) : (front p h a).a.ds = .so := by
  have hds : (front p h a).a.ds = (latched p h a).ds := by
    unfold front
    rw [stepTimeout_frame, controlword_frame]
  rw [hds]
  rw [front, stepTimeout_frame] at hen
  unfold controlword at hen
  split_ifs at hen <;> simp_all

/-! ## Whether the axis will run

`runsOn` says it in terms of the arguments of the hook and of the axis before
it: there is a bus, no external error, the target is enabled, and the last good
inputs show Operation enabled and the requested mode. -/

/-- The drive state the hook works with. -/
def shownDs (h : AxHook) (a : Axis) : DriveState :=
  if h.inValid then ecmCia402Decode (ecmPdoGet a.b.sw h.io % 2 ^ 16) else a.ds

/-- The displayed mode the hook works with. -/
def shownMode (h : AxHook) (a : Axis) : Int :=
  if h.inValid then
    if a.b.modeDisp.mapped then toI8 (sext (ecmPdoGet a.b.modeDisp h.io) a.b.modeDisp.bits)
    else a.modeReq.code
  else a.modeDisp

/-- The axis runs at this hook. -/
def runsOn (h : AxHook) (a : Axis) : Bool :=
  !h.busLost && h.xe = .none && a.target = .enabled && shownDs h a = .oe &&
    a.modeReq ≠ .none && shownMode h a = a.modeReq.code

/-- The axis runs: enabled, in Operation enabled and in the requested mode. -/
def Axis.runs (a : Axis) : Bool :=
  a.target = .enabled && a.ds = .oe && a.modeOk

theorem readInputs_ds (p : Params) (h : AxHook) (a : Axis) :
    (readInputs p h a).ds = shownDs h a := by
  unfold readInputs shownDs
  split_ifs <;> rfl

theorem readInputs_modeDisp (p : Params) (h : AxHook) (a : Axis) :
    (readInputs p h a).modeDisp = shownMode h a := by
  unfold readInputs shownMode
  by_cases hv : h.inValid = true
  · rw [if_pos hv, if_pos hv]
  · rw [if_neg hv, if_neg hv]

/-- With Operation enabled shown and nothing against it, no latch fires and no
transition is watched. -/
theorem front_at_oe {p : Params} {h : AxHook} {a : Axis} (hbus : h.busLost = false)
    (hxe : h.xe = .none) (ht : a.target = .enabled) (hds : shownDs h a = .oe) :
    (latched p h a).target = .enabled ∧ (latched p h a).ds = .oe ∧
      front p h a = controlword (latched p h a) := by
  have hds1 : (confirmMode (readInputs p h a)).ds = .oe := (readInputs_ds p h a).trans hds
  have ht1 : (confirmMode (readInputs p h a)).target = .enabled := by simp [confirmMode, ht]
  generalize hb : confirmMode (readInputs p h a) = b at hds1 ht1
  have hfault : latchFault h b = b := by
    unfold latchFault
    rw [if_neg (by simp [hbus]), if_neg (by simp [hds1, DriveState.faulty])]
  have hext : latchExt h b = b := if_neg (by simp [hxe])
  have hlat : latched p h a = latchDropped h b := by rw [latched, hb, hfault, hext]
  have hds2 : (latched p h a).ds = .oe := by
    rw [hlat, (latchDropped_frame h b).1]
    exact hds1
  have ht2 : (latched p h a).target = .enabled := by
    rw [hlat]
    unfold latchDropped
    split_ifs
    · exact ht1
    · exact ht1
  have hds3 : (controlword (latched p h a)).a.ds = .oe := by
    rw [controlword_frame]
    exact hds2
  exact ⟨ht2, hds2, if_neg (by simp [hds3])⟩

/-- With Operation enabled shown, the front half takes the target away only
without a bus or for an external error. -/
theorem front_keeps_target {p : Params} {h : AxHook} {a : Axis} (hbus : h.busLost = false)
    (hxe : h.xe = .none) (ht : a.target = .enabled) (hds : shownDs h a = .oe) :
    (front p h a).a.target = .enabled := by
  obtain ⟨htarget, -, heq⟩ := front_at_oe (p := p) hbus hxe ht hds
  rw [heq]
  exact controlword_enabled.2 htarget

/-- The controlword of an axis that runs, outside a reset pulse. -/
theorem front_cw_runs {p : Params} {h : AxHook} {a : Axis} (hruns : runsOn h a = true)
    (hpulse : a.resetPulse = 0) : (front p h a).cw = 0x000F := by
  simp only [runsOn, Bool.and_eq_true, Bool.not_eq_true', decide_eq_true_eq] at hruns
  obtain ⟨⟨⟨⟨⟨hbus, hxe⟩, ht⟩, hoe⟩, -⟩, -⟩ := hruns
  obtain ⟨htarget, hds, heq⟩ := front_at_oe (p := p) hbus hxe ht hoe
  rw [heq, controlword, if_neg (by simp [hpulse]), if_neg (by simp [hpulse])]
  show walkCw _ _ _ = _
  rw [htarget, hds]
  rfl

/-- The axis runs after the front half exactly if `runsOn` says so. -/
theorem front_runs_eq (p : Params) (h : AxHook) (a : Axis) :
    (front p h a).a.runs = runsOn h a := by
  have hds : (front p h a).a.ds = shownDs h a := by simp [readInputs_ds]
  have hok : (front p h a).a.modeOk =
      (a.modeReq ≠ .none && shownMode h a = a.modeReq.code) := by
    simp [confirmMode, readInputs_modeDisp]
  rw [Bool.eq_iff_iff]
  constructor
  · intro hruns
    simp only [Axis.runs, Bool.and_eq_true, decide_eq_true_eq] at hruns
    obtain ⟨ht, hbus, hxe, -⟩ := front_target_enabled hruns.1.1
    rw [hds, hok] at hruns
    simp only [Bool.and_eq_true, decide_eq_true_eq] at hruns
    simp [runsOn, ht, hbus, hxe, hruns]
  · intro hruns
    simp only [runsOn, Bool.and_eq_true, Bool.not_eq_true', decide_eq_true_eq] at hruns
    obtain ⟨⟨⟨⟨⟨hbus, hxe⟩, ht⟩, hoe⟩, hne⟩, hmode⟩ := hruns
    simp [Axis.runs, front_keeps_target hbus hxe ht hoe, readInputs_ds, hoe, confirmMode,
      readInputs_modeDisp, hne, hmode]

end EcMaster.Cia402
