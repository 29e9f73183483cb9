import EcMaster.Cia402.Types

/-!
# Commands of the application

`apply_cmd` of `ecm_cia402_axis.c`: what one command does to the axis it is
for.  Each operation has a definition of its own, and `applyCmd` dispatches
on the operation code.

The results are of two kinds:

* what a command can do to the target (`target_applyCmd`), to the reset pulse
  (`resetPulse_applyCmd`) and to the setpoint stream (`stream_applyCmd`);
* which fields no command touches (`applyCmd_frame`): the configuration, the
  inputs, and the controlword and the flag `running` of the last hook.
-/

namespace EcMaster.Cia402

open EcMaster.ByteImage EcMaster.Pdo EcMaster.Xchg

/-- `mode_allowed`: the mode is one of the configured ones. -/
def modeAllowed (a : Axis) : OpMode → Bool
  | .csp => a.modes &&& modeCsp != 0
  | .csv => a.modes &&& modeCsv != 0
  | .pp => a.modes &&& modePp != 0
  | .pv => a.modes &&& modePv != 0
  | .hm => a.modes &&& modeHm != 0
  | .none => false

/-- `ECM_CIA_OP_ENABLE`.  `xe` is the external error of the axis as read by
this command. -/
def cmdEnable (shutdown : Bool) (xe : AxErr) (tick : Nat) (a : Axis) : Axis :=
  if shutdown then { a with err := .shutdown }
  else if xe ≠ .none then { a with err := xe, target := .disabled }
  else if a.ds.faulty then { a with err := .inFault, target := .disabled }
  else if !modeAllowed a a.modeReq then { a with err := .mode, target := .disabled }
  else
    { a with
      target := .enabled
      err := .none
      errDs := .unknown
      dsWait := a.ds
      stepSince := tick
      reachedOe := false }

/-- `ECM_CIA_OP_FAULT_RESET`: after a reset the axis stays disabled. -/
def cmdFaultReset (a : Axis) : Axis :=
  { a with
    target := .disabled
    resetPulse := if a.ds = .fault then 2 else a.resetPulse
    err := if a.err = .fault ∨ a.err = .inFault then .none else a.err }

/-- `ECM_CIA_OP_SET_MODE`. -/
def cmdSetMode (arg0 : Int) (a : Axis) : Axis :=
  let m := OpMode.ofCode arg0
  if !modeAllowed a m || (!a.b.mode.mapped && m ≠ a.modeReq) then { a with err := .mode }
  else if m ≠ a.modeReq then { a with modeReq := m, modeOk := false, armed := false }
  else a

/-- `ECM_CIA_OP_PP_POINT`: only while running in PP, and only if the queue has
room. -/
def cmdPpPoint (arg0 arg1 : Int) (a : Axis) : Axis :=
  if !a.running || a.modeReq ≠ .pp then { a with err := .mode, ppLost := a.ppLost + 1 }
  else if a.ppN = ppQueue then { a with ppLost := a.ppLost + 1 }
  else
    let i := (a.ppHead + a.ppN) % ppQueue
    { a with
      ppQ := Function.update a.ppQ i arg0
      ppQf := Function.update a.ppQf i (arg1 % 256).toNat
      ppN := a.ppN + 1 }

/-- `ECM_CIA_OP_PV_VEL`. -/
def cmdPvVel (arg0 : Int) (a : Axis) : Axis :=
  if !a.running || a.modeReq ≠ .pv then { a with err := .mode }
  else { a with pvVel := arg0 }

/-- `ECM_CIA_OP_HOME`: no homing is queued for a later enable. -/
def cmdHome (tick : Nat) (a : Axis) : Axis :=
  if !a.running || a.modeReq ≠ .hm then { a with err := .mode }
  else { a with hmPhase := .running, hmSince := tick, hmSeenLow := false, homed := false }

/-- The `switch` of `apply_cmd`. -/
def dispatchCmd (shutdown : Bool) (xe : AxErr) (tick : Nat) (x : XCmd) (a : Axis) : Axis :=
  match x.op with
  | .enable => cmdEnable shutdown xe tick a
  | .disable => { a with target := .disabled }
  | .quickstop => { a with target := .quickstop }
  | .faultReset => cmdFaultReset a
  | .setMode => cmdSetMode x.arg0 a
  | .ppPoint => cmdPpPoint x.arg0 x.arg1 a
  | .pvVel => cmdPvVel x.arg0 a
  | .home => cmdHome tick a
  | .other => a

/-- `apply_cmd`. -/
def applyCmd (shutdown : Bool) (xe : AxErr) (tick : Nat) (x : XCmd) (a : Axis) : Axis :=
  dispatchCmd shutdown xe tick x { a with lastSeq := x.seq }

/-- `ENABLE` is accepted: the axis gets the target enabled. -/
def enableAccepted (shutdown : Bool) (xe : AxErr) (a : Axis) : Bool :=
  !shutdown && xe = .none && !a.ds.faulty && modeAllowed a a.modeReq

/-! ## What a command can change -/

/-- Everything a command never touches: the configuration, the inputs, what
the last hook sent and whether it ran. -/
@[simp] theorem applyCmd_frame (shutdown : Bool) (xe : AxErr) (tick : Nat) (x : XCmd)
    (a : Axis) :
    (applyCmd shutdown xe tick x a).toAxisCfg = a.toAxisCfg ∧
      (applyCmd shutdown xe tick x a).toInputs = a.toInputs ∧
      (applyCmd shutdown xe tick x a).cw = a.cw ∧
      (applyCmd shutdown xe tick x a).running = a.running := by
  unfold applyCmd dispatchCmd
  cases x.op with
  | enable => simp only [cmdEnable]; split_ifs <;> simp
  | disable => simp
  | quickstop => simp
  | faultReset => simp [cmdFaultReset]
  | setMode => simp only [cmdSetMode]; split_ifs <;> simp
  | ppPoint => simp only [cmdPpPoint]; split_ifs <;> simp
  | pvVel => simp only [cmdPvVel]; split_ifs <;> simp
  | home => simp only [cmdHome]; split_ifs <;> simp
  | other => simp

/-- After a command the target is enabled by an accepted `ENABLE`, or as before
and the command is none of those that take it away. -/
theorem target_applyCmd {shutdown : Bool} {xe : AxErr} {tick : Nat} {x : XCmd} {a : Axis}
    (ht : (applyCmd shutdown xe tick x a).target = .enabled) :
    (x.op = .enable ∧ enableAccepted shutdown xe a = true ∧
        (applyCmd shutdown xe tick x a).reachedOe = false) ∨
      (a.target = .enabled ∧ (x.op = .enable → shutdown = true) ∧ x.op ≠ .disable ∧
        x.op ≠ .quickstop ∧ x.op ≠ .faultReset ∧
        (applyCmd shutdown xe tick x a).reachedOe = a.reachedOe) := by
  unfold applyCmd dispatchCmd at *
  cases hop : x.op with
  | enable =>
    simp only [hop, cmdEnable] at ht ⊢
    split_ifs at ht ⊢ with hsd hxe hfault hmode
    · right
      simpa [hsd] using ht
    · left
      simp only [ne_eq, not_not] at hxe
      simp_all [enableAccepted, modeAllowed]
  | disable => simp [hop] at ht
  | quickstop => simp [hop] at ht
  | faultReset => simp [hop, cmdFaultReset] at ht
  | setMode =>
    right
    simp only [hop, cmdSetMode] at ht ⊢
    split_ifs at ht ⊢ <;> simpa using ht
  | ppPoint =>
    right
    simp only [hop, cmdPpPoint] at ht ⊢
    split_ifs at ht ⊢ <;> simpa using ht
  | pvVel =>
    right
    simp only [hop, cmdPvVel] at ht ⊢
    split_ifs at ht ⊢ <;> simpa using ht
  | home =>
    right
    simp only [hop, cmdHome] at ht ⊢
    split_ifs at ht ⊢ <;> simpa using ht
  | other =>
    right
    simpa [hop] using ht

/-- Only `FAULT_RESET` in the drive state Fault arms the reset pulse. -/
theorem resetPulse_applyCmd {shutdown : Bool} {xe : AxErr} {tick : Nat} {x : XCmd} {a : Axis}
    (hpulse : (applyCmd shutdown xe tick x a).resetPulse = 2) :
    a.resetPulse = 2 ∨ (x.op = .faultReset ∧ a.ds = .fault) := by
  unfold applyCmd dispatchCmd at hpulse
  cases hop : x.op with
  | enable =>
    simp only [hop, cmdEnable] at hpulse
    split_ifs at hpulse <;> exact .inl hpulse
  | disable => simp only [hop] at hpulse; exact .inl hpulse
  | quickstop => simp only [hop] at hpulse; exact .inl hpulse
  | faultReset =>
    simp only [hop, cmdFaultReset] at hpulse
    by_cases hds : a.ds = .fault
    · exact .inr ⟨rfl, hds⟩
    · exact .inl (by simpa [hds] using hpulse)
  | setMode =>
    simp only [hop, cmdSetMode] at hpulse
    split_ifs at hpulse <;> exact .inl hpulse
  | ppPoint =>
    simp only [hop, cmdPpPoint] at hpulse
    split_ifs at hpulse <;> exact .inl hpulse
  | pvVel =>
    simp only [hop, cmdPvVel] at hpulse
    split_ifs at hpulse <;> exact .inl hpulse
  | home =>
    simp only [hop, cmdHome] at hpulse
    split_ifs at hpulse <;> exact .inl hpulse
  | other => simp only [hop] at hpulse; exact .inl hpulse

/-- Of the setpoint stream a command can only take the flag `armed` away, and it
does so when it changes the requested mode. -/
theorem stream_applyCmd (shutdown : Bool) (xe : AxErr) (tick : Nat) (x : XCmd) (a : Axis) :
    (applyCmd shutdown xe tick x a).toStream =
      { a.toStream with
        armed := a.armed && decide ((applyCmd shutdown xe tick x a).modeReq = a.modeReq) } := by
  have hkeep : ∀ a' : Axis, a'.toStream = a.toStream → a'.modeReq = a.modeReq →
      a'.toStream = { a.toStream with armed := a.armed && decide (a'.modeReq = a.modeReq) } := by
    intro a' hs hm
    rw [hs, hm]
    simp
  unfold applyCmd dispatchCmd
  cases x.op with
  | enable => simp only [cmdEnable]; split_ifs <;> exact hkeep _ rfl rfl
  | disable => exact hkeep _ rfl rfl
  | quickstop => exact hkeep _ rfl rfl
  | faultReset => exact hkeep _ rfl rfl
  | setMode =>
    simp only [cmdSetMode]
    split_ifs with hbad hne
    · exact hkeep _ rfl rfl
    · simp [hne]
    · exact hkeep _ rfl rfl
  | ppPoint => simp only [cmdPpPoint]; split_ifs <;> exact hkeep _ rfl rfl
  | pvVel => simp only [cmdPvVel]; split_ifs <;> exact hkeep _ rfl rfl
  | home => simp only [cmdHome]; split_ifs <;> exact hkeep _ rfl rfl
  | other => exact hkeep _ rfl rfl

/-! ## The profile modes -/

/-- The mode a command of the profile modes is for. -/
def Op.profileMode : Op → Option OpMode
  | .ppPoint => some .pp
  | .pvVel => some .pv
  | .home => some .hm
  | _ => none

/-- A command for a profile mode is accepted: the axis ran at its last hook with a
bus, the mode is the requested one, and the queue has room for a point. -/
def profileAccepted (c : XCmd) (a : Axis) : Bool :=
  a.running && c.op.profileMode = some a.modeReq && !(c.op = .ppPoint && a.ppN = ppQueue)

/-- What a command does to the profile modes. -/
inductive ProfileCmd (tick : Nat) (c : XCmd) (a a' : Axis) : Prop where
  | refused (hacc : profileAccepted c a = false)
      (hpp : a'.toPpState = { a.toPpState with ppLost := a'.ppLost })
      (hhm : a'.toHmState = a.toHmState)
  | point (hop : c.op = .ppPoint) (hacc : profileAccepted c a = true) (hroom : a.ppN ≠ ppQueue)
      (hpp : a'.toPpState =
        { a.toPpState with
          ppQ := Function.update a.ppQ ((a.ppHead + a.ppN) % ppQueue) c.arg0
          ppQf := Function.update a.ppQf ((a.ppHead + a.ppN) % ppQueue) (c.arg1 % 256).toNat
          ppN := a.ppN + 1 })
      (hhm : a'.toHmState = a.toHmState)
  | vel (hop : c.op = .pvVel) (hacc : profileAccepted c a = true)
      (hpp : a'.toPpState = a.toPpState)
      (hhm : a'.toHmState = { a.toHmState with pvVel := c.arg0 })
  | home (hop : c.op = .home) (hacc : profileAccepted c a = true)
      (hpp : a'.toPpState = a.toPpState)
      (hhm : a'.toHmState =
        { a.toHmState with
          hmPhase := .running, hmSince := tick, hmSeenLow := false, homed := false })

/-- The check of the three commands. -/
theorem profileAccepted_false {c : XCmd} {a : Axis} {m : OpMode}
    (hop : c.op.profileMode = some m) (hidle : (!a.running || a.modeReq ≠ m) = true) :
    profileAccepted c a = false := by
  simp only [Bool.or_eq_true, Bool.not_eq_true', decide_eq_true_eq] at hidle
  rcases hidle with hrun | hmode
  · simp [profileAccepted, hrun]
  · simp [profileAccepted, hop, Ne.symm hmode]

theorem profile_applyCmd (shutdown : Bool) (xe : AxErr) (tick : Nat) (c : XCmd) (a : Axis) :
    ProfileCmd tick c a (applyCmd shutdown xe tick c a) := by
  unfold applyCmd dispatchCmd
  cases hop : c.op with
  | enable =>
    have hacc : profileAccepted c a = false := by simp [profileAccepted, hop, Op.profileMode]
    simp only [cmdEnable]
    split_ifs <;> exact .refused hacc rfl rfl
  | disable => exact .refused (by simp [profileAccepted, hop, Op.profileMode]) rfl rfl
  | quickstop => exact .refused (by simp [profileAccepted, hop, Op.profileMode]) rfl rfl
  | faultReset => exact .refused (by simp [profileAccepted, hop, Op.profileMode]) rfl rfl
  | setMode =>
    have hacc : profileAccepted c a = false := by simp [profileAccepted, hop, Op.profileMode]
    simp only [cmdSetMode]
    split_ifs <;> exact .refused hacc rfl rfl
  | ppPoint =>
    simp only [cmdPpPoint]
    split_ifs with hidle hfull
    · exact .refused (profileAccepted_false (by rw [hop]; rfl) hidle) rfl rfl
    · exact .refused (by simp [profileAccepted, hop, hfull]) rfl rfl
    · obtain ⟨hrun, hmode⟩ : a.running = true ∧ a.modeReq = .pp := by simpa using hidle
      exact .point hop (by simp [profileAccepted, hop, Op.profileMode, hrun, hmode, hfull]) hfull rfl rfl
  | pvVel =>
    simp only [cmdPvVel]
    split_ifs with hidle
    · exact .refused (profileAccepted_false (by rw [hop]; rfl) hidle) rfl rfl
    · obtain ⟨hrun, hmode⟩ : a.running = true ∧ a.modeReq = .pv := by simpa using hidle
      exact .vel hop (by simp [profileAccepted, hop, Op.profileMode, hrun, hmode]) rfl rfl
  | home =>
    simp only [cmdHome]
    split_ifs with hidle
    · exact .refused (profileAccepted_false (by rw [hop]; rfl) hidle) rfl rfl
    · obtain ⟨hrun, hmode⟩ : a.running = true ∧ a.modeReq = .hm := by simpa using hidle
      exact .home hop (by simp [profileAccepted, hop, Op.profileMode, hrun, hmode]) rfl rfl
  | other => exact .refused (by simp [profileAccepted, hop, Op.profileMode]) rfl rfl

end EcMaster.Cia402
