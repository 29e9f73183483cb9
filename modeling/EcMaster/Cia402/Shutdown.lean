import EcMaster.Cia402.Enable

/-!
# The walk down at shutdown

S6 of `docs/safety_boundary.md`: from `ecm_cia402_shutdown` on every axis is walked
down with 0x0007, 0x0006 and 0x0000.  The shutdown takes the target of every axis
away and `ENABLE` is refused from then on, so what is left are the other commands.
A `FAULT_RESET` in the drive state Fault sends its pulse, which takes two hooks.  A
`QUICKSTOP` is obeyed: as long as the drive is in Operation enabled or in Quick stop
active the controlword is 0x0002, and in the first hook that shows another drive
state it is 0x0000.

`walks_down` says that these are the only exceptions, and `quickstop_walks_otherwise`
is a run with the second one.
-/

namespace EcMaster.Cia402

open EcMaster.Run EcMaster.Xchg

/-! ## A hook of an axis whose target is not enabled -/

/-- The controlwords of the walk down. -/
def walkDown : DriveState → Nat
  | .oe => 0x0007
  | .so => 0x0006
  | _ => 0x0000

/-- The controlword of a quick stop. -/
def quickstopCw : DriveState → Nat
  | .oe | .qsa => 0x0002
  | _ => 0x0000

theorem walkCw_disabled (ds : DriveState) (ok : Bool) : walkCw .disabled ds ok = walkDown ds := by
  cases ds <;> rfl

theorem walkCw_quickstop (ds : DriveState) (ok : Bool) :
    walkCw .quickstop ds ok = quickstopCw ds := by
  cases ds <;> rfl

theorem latchFault_quickstop {h : AxHook} {a : Axis} (ht : (latchFault h a).target = .quickstop) :
    a.target = .quickstop ∧ h.busLost = false := by
  have hlost : ¬ h.busLost = true := by
    intro hlost
    simp [latchFault_lost a hlost] at ht
  unfold latchFault at ht
  rw [if_neg hlost] at ht
  by_cases hfault : a.ds.faulty = true ∧ a.target ≠ .disabled
  · simp [hfault] at ht
  · rw [if_neg hfault] at ht
    exact ⟨ht, by simpa using hlost⟩

theorem latchExt_quickstop {h : AxHook} {a : Axis} (ht : (latchExt h a).target = .quickstop) :
    a.target = .quickstop ∧ h.xe = .none := by
  unfold latchExt at ht
  by_cases hxe : h.xe ≠ .none
  · simp [hxe] at ht
  · rw [if_neg hxe] at ht
    exact ⟨ht, by simpa using hxe⟩

theorem latchDropped_quickstop {h : AxHook} {a : Axis}
    (ht : (latchDropped h a).target = .quickstop) : a.target = .quickstop := by
  unfold latchDropped at ht
  split_ifs at ht
  · exact ht
  · exact ht
  · exact ht

/-- A quick stop outlives the latches only with a bus and without an external
error. -/
theorem latched_quickstop {p : Params} {h : AxHook} {a : Axis}
    (ht : (latched p h a).target = .quickstop) :
    a.target = .quickstop ∧ h.busLost = false ∧ h.xe = .none := by
  obtain ⟨hext, hxe⟩ := latchExt_quickstop (latchDropped_quickstop ht)
  obtain ⟨hfault, hbus⟩ := latchFault_quickstop hext
  refine ⟨?_, hbus, hxe⟩
  simpa [confirmMode] using hfault

theorem latched_ds (p : Params) (h : AxHook) (a : Axis) : (latched p h a).ds = shownDs h a := by
  rw [latched_frame, ← readInputs_ds p h a]
  rfl

/-- The front half of an axis that is not enabled: no transition is watched, and the
axis will not run. -/
theorem front_down {p : Params} {h : AxHook} {a : Axis} (ht : a.target ≠ .enabled) :
    (latched p h a).target ≠ .enabled ∧ front p h a = controlword (latched p h a) ∧
      runsOn h a = false := by
  have hlat : (latched p h a).target ≠ .enabled := fun he => ht (latched_target_enabled he).1
  have hctl : (controlword (latched p h a)).a.target ≠ .enabled :=
    fun he => hlat (controlword_enabled.1 he)
  refine ⟨hlat, if_neg (by simp [hctl]), ?_⟩
  simp [runsOn, ht]

/-- The back half of an axis that does not run. -/
theorem back_idle {p : Params} {h : AxHook} (ring : XRing XSp) {w : Work}
    (hidle : w.a.runs = false) :
    (back p h ring w).cw = w.cw ∧ (back p h ring w).a.target = w.a.target := by
  have hgot := takeSetpoint_idle h ring hidle
  have hlim : stepLimit (takeSetpoint h ring w).1 = (takeSetpoint h ring w).1 :=
    stepLimit_of_not_refuses fun hr => by simpa [hgot] using hr.1
  have hrun : (csvOut (cspOut (takeSetpoint h ring w).1)).running = false := by simpa using hidle
  have hprof := profileOut_cw p h (csvOut (cspOut (takeSetpoint h ring w).1))
  unfold back
  rw [hlim]
  cases hprof with
  | same hcw ht => simpa using And.intro hcw ht
  | timeout _ _ hrun' => exact absurd hrun' (by rw [hrun]; decide)
  | ppUp _ _ _ hrun' => exact absurd hrun' (by rw [hrun]; decide)
  | hmUp _ _ _ hrun' => exact absurd hrun' (by rw [hrun]; decide)

/-- What a hook writes for an axis that is not enabled. -/
theorem axisRt_down {p : Params} {h : AxHook} (ring : XRing XSp) {a : Axis}
    (hbus : h.busLost = false) (ht : a.target ≠ .enabled) :
    (axisRt p h ring a).out.cw = some (
      if a.resetPulse = 2 then 0x0080
      else if a.resetPulse = 1 then 0x0000
      else walkCw (latched p h a).target (shownDs h a) (latched p h a).modeOk) := by
  obtain ⟨-, heq, hruns⟩ := front_down (p := p) (h := h) ht
  have hidle : (front p h a).a.runs = false := (front_runs_eq p h a).trans hruns
  rw [(axisRt_live ring a hbus).2.1, (back_idle ring hidle).1, heq, ← latched_ds p h a,
    ← latched_resetPulse p h a]
  unfold controlword
  split_ifs <;> rfl

/-- A quick stop that outlives the hook. -/
theorem axisRt_quickstop {p : Params} {h : AxHook} {ring : XRing XSp} {a : Axis}
    (ht : a.target ≠ .enabled) (hpost : (axisRt p h ring a).a.target = .quickstop) :
    a.target = .quickstop ∧ h.busLost = false ∧ h.xe = .none ∧
      ((axisRt p h ring a).a.ds = .oe ∨ (axisRt p h ring a).a.ds = .qsa) := by
  have hbus : h.busLost = false := by
    by_contra hlost
    rw [(axisRt_lost ring a (by simpa using hlost)).2] at hpost
    cases hpost
  obtain ⟨-, heq, hruns⟩ := front_down (p := p) (h := h) ht
  have hidle : (front p h a).a.runs = false := (front_runs_eq p h a).trans hruns
  rw [(axisRt_live ring a hbus).1] at hpost
  have hpost : (endQuickstop (latched p h a)).target = .quickstop := by
    rw [show (endQuickstop (latched p h a)).target = (controlword (latched p h a)).a.target by
      unfold controlword
      split_ifs <;> rfl]
    rw [← heq, ← (back_idle (p := p) (h := h) ring hidle).2]
    exact hpost
  have hds : (axisRt p h ring a).a.ds = (latched p h a).ds := by
    rw [latched_ds, ← readInputs_ds p h a]
    simp
  rw [hds]
  unfold endQuickstop at hpost
  split_ifs at hpost with hend
  obtain ⟨hwas, -, hxe⟩ := latched_quickstop hpost
  refine ⟨hwas, hbus, hxe, ?_⟩
  by_contra hno
  rw [not_or] at hno
  exact hend ⟨hpost, hno⟩

/-! ## Histories -/

/-- The step is the call of `ecm_cia402_shutdown`. -/
def isShutdown (q : AxRec) : Bool :=
  match q.ev with
  | .shutdown => true
  | _ => false

/-- The step applies a `QUICKSTOP`. -/
def isQuickstop (q : AxRec) : Bool :=
  match q.ev with
  | .cmd x _ _ => x.op = .quickstop
  | _ => false

/-- The step does not end a quick stop. -/
def keepsQuickstop (q : AxRec) : Bool :=
  match q.ev with
  | .cmd x _ _ => x.op ≠ .disable && x.op ≠ .faultReset
  | .setpoint _ => true
  | .shutdown => false
  | .hook h => !h.busLost && h.xe = .none && (q.post.a.ds = .oe || q.post.a.ds = .qsa)

/-- A `QUICKSTOP` was applied, and nothing has ended it: no `DISABLE`, `FAULT_RESET` or
shutdown, no lost bus and no external error, and the drive is in Operation enabled
or in Quick stop active. -/
def QuickstopStands (hist : List AxRec) : Prop :=
  Since (fun q => isQuickstop q = true) (fun after => ∀ q ∈ after, keepsQuickstop q = true) hist

/-- There have been `n` hooks since a `FAULT_RESET` in the drive state Fault. -/
def ResetAgo (n : Nat) (hist : List AxRec) : Prop :=
  Since ResetsFault (fun after => after.countP (fun q => q.ev.hook?.isSome) = n) hist

/-- What an axis writes after the shutdown. -/
inductive WalksDown (hist : List AxRec) (ds : DriveState) (cw : Nat) : Prop where
  | walk (hcw : cw = walkDown ds)
  | pulse (hcw : cw = 0x0080) (hreset : ResetAgo 0 hist)
  | trail (hcw : cw = 0x0000) (hreset : ResetAgo 1 hist)
  | quickstop (hcw : cw = quickstopCw ds) (hquick : QuickstopStands hist)

/-- What is known after a history. -/
structure DownInv (hist : List AxRec) (s : AxSt) : Prop where
  called : hist.any isShutdown = true → s.shutdown = true
  enable : EnableInv hist s
  quick : s.shutdown = true → s.a.target = .quickstop → QuickstopStands hist
  armed : s.a.resetPulse = 2 → ResetAgo 0 hist
  trails : s.a.resetPulse = 1 → ResetAgo 1 hist

theorem downInv_init (x : AxisSetup) : DownInv [] x.init :=
  ⟨by simp, enableInv_init x, (fun hsd => by cases hsd), (fun hp => by cases hp),
    (fun hp => by cases hp)⟩

theorem ResetAgo.keep {n : Nat} {hist : List AxRec} {r : AxRec} (hago : ResetAgo n hist)
    (hno : r.ev.hook? = none) : ResetAgo n (hist ++ [r]) := by
  refine Since.concat hago fun after hafter => ?_
  rw [List.countP_append, hafter, List.countP_singleton, hno]
  rfl

theorem ResetAgo.hook {n : Nat} {hist : List AxRec} {r : AxRec} (hago : ResetAgo n hist)
    (hhook : r.ev.hook?.isSome = true) : ResetAgo (n + 1) (hist ++ [r]) := by
  refine Since.concat hago fun after hafter => ?_
  rw [List.countP_append, hafter, List.countP_singleton, if_pos hhook]

theorem QuickstopStands.concat {hist : List AxRec} {r : AxRec} (hquick : QuickstopStands hist)
    (hkeep : keepsQuickstop r = true) : QuickstopStands (hist ++ [r]) := by
  refine Since.concat hquick fun after hafter => ?_
  exact List.forall_mem_append.2 ⟨hafter, List.forall_mem_singleton.2 hkeep⟩

/-- After a command the target is quick stop by a `QUICKSTOP`, or as before and the
command is none of those that end it. -/
theorem quickstop_applyCmd {shutdown : Bool} {xe : AxErr} {tick : Nat} {x : XCmd} {a : Axis}
    (ht : (applyCmd shutdown xe tick x a).target = .quickstop) :
    x.op = .quickstop ∨ (a.target = .quickstop ∧ x.op ≠ .disable ∧ x.op ≠ .faultReset) := by
  unfold applyCmd dispatchCmd at ht
  cases hop : x.op with
  | enable =>
    simp only [hop, cmdEnable] at ht
    split_ifs at ht
    exact .inr ⟨ht, by simp⟩
  | disable => simp [hop] at ht
  | quickstop => exact .inl rfl
  | faultReset => simp [hop, cmdFaultReset] at ht
  | setMode =>
    simp only [hop, cmdSetMode] at ht
    split_ifs at ht <;> exact .inr ⟨ht, by simp⟩
  | ppPoint =>
    simp only [hop, cmdPpPoint] at ht
    split_ifs at ht <;> exact .inr ⟨ht, by simp⟩
  | pvVel =>
    simp only [hop, cmdPvVel] at ht
    split_ifs at ht <;> exact .inr ⟨ht, by simp⟩
  | home =>
    simp only [hop, cmdHome] at ht
    split_ifs at ht <;> exact .inr ⟨ht, by simp⟩
  | other =>
    simp only [hop] at ht
    exact .inr ⟨ht, by simp⟩

/-- A command arms the reset pulse or keeps it. -/
theorem resetPulse_applyCmd_eq (shutdown : Bool) (xe : AxErr) (tick : Nat) (x : XCmd) (a : Axis) :
    (applyCmd shutdown xe tick x a).resetPulse =
      if x.op = .faultReset ∧ a.ds = .fault then 2 else a.resetPulse := by
  unfold applyCmd dispatchCmd
  cases hop : x.op with
  | faultReset => simp [cmdFaultReset]
  | _ =>
    simp only [cmdEnable, cmdSetMode, cmdPpPoint, cmdPvVel, cmdHome, reduceCtorEq, false_and,
      if_false]
    try split_ifs <;> rfl

theorem controlword_resetPulse (a : Axis) :
    (controlword a).a.resetPulse =
      if a.resetPulse = 2 then 1 else if a.resetPulse = 1 then 0 else a.resetPulse := by
  have hend : (endQuickstop a).resetPulse = a.resetPulse := by
    unfold endQuickstop
    split_ifs <;> rfl
  unfold controlword
  split_ifs
  · rfl
  · rfl
  · exact hend

/-- The reset pulse after a hook. -/
theorem axisRt_resetPulse (p : Params) (h : AxHook) (ring : XRing XSp) (a : Axis) :
    (axisRt p h ring a).a.resetPulse =
      if a.resetPulse = 2 then 1 else if a.resetPulse = 1 then 0 else a.resetPulse := by
  obtain ⟨-, -, hpulse, -⟩ := stepTimeout_control p h (controlword (latched p h a))
  simp only [axisRt_frame]
  rw [front, hpulse, controlword_resetPulse, latched_resetPulse]

theorem DownInv.cmd {hist : List AxRec} {s : AxSt} (hI : DownInv hist s) (p : Params)
    (x : XCmd) (xe : AxErr) (tick : Nat) :
    DownInv (hist ++ [⟨s, .cmd x xe tick, axStep p s (.cmd x xe tick)⟩])
      (axStep p s (.cmd x xe tick)) := by
  have hpulse := resetPulse_applyCmd_eq s.shutdown xe tick x s.a
  refine ⟨fun hcalled => ?_, hI.enable.step p _, fun hsd ht => ?_, fun hp => ?_, fun hp => ?_⟩
  · exact hI.called (by simpa [isShutdown] using hcalled)
  · rcases quickstop_applyCmd ht with hop | ⟨hold, hd, hf⟩
    · exact Since.now hist (by simp [isQuickstop, hop]) (by simp)
    · exact (hI.quick hsd hold).concat (by simp [keepsQuickstop, hd, hf])
  · have hp : (applyCmd s.shutdown xe tick x s.a).resetPulse = 2 := hp
    rcases resetPulse_applyCmd hp with hold | ⟨hop, hds⟩
    · exact (hI.armed hold).keep rfl
    · exact Since.now hist ⟨x, xe, tick, rfl, hop, hds⟩ rfl
  · have hp : (applyCmd s.shutdown xe tick x s.a).resetPulse = 1 := hp
    rw [hpulse] at hp
    split_ifs at hp
    · cases hp
    · exact (hI.trails hp).keep rfl

theorem DownInv.hook {hist : List AxRec} {s : AxSt} (hI : DownInv hist s) (p : Params)
    (h : AxHook) :
    DownInv (hist ++ [⟨s, .hook h, axStep p s (.hook h)⟩]) (axStep p s (.hook h)) := by
  have hpulse := axisRt_resetPulse p h s.ring s.a
  refine ⟨fun hcalled => ?_, hI.enable.step p _, fun hsd ht => ?_, fun hp => ?_, fun hp => ?_⟩
  · exact hI.called (by simpa [isShutdown] using hcalled)
  · obtain ⟨hold, hbus, hxe, hds⟩ := axisRt_quickstop (hI.enable.shutdown hsd) ht
    refine (hI.quick hsd hold).concat ?_
    simp only [keepsQuickstop, hbus, hxe, axStep]
    simpa using hds
  · have hp : (axisRt p h s.ring s.a).a.resetPulse = 2 := hp
    rw [hpulse] at hp
    split_ifs at hp with htwo hone
    · cases hp
    · exact absurd hp htwo
  · have hp : (axisRt p h s.ring s.a).a.resetPulse = 1 := hp
    rw [hpulse] at hp
    split_ifs at hp with htwo hone
    · exact (hI.armed htwo).hook rfl
    · exact absurd hp hone

theorem DownInv.step {hist : List AxRec} {s : AxSt} (hI : DownInv hist s) (p : Params)
    (e : AxEv) : DownInv (hist ++ [⟨s, e, axStep p s e⟩]) (axStep p s e) := by
  cases e with
  | cmd x xe tick => exact hI.cmd p x xe tick
  | setpoint sp =>
    refine ⟨fun hcalled => hI.called (by simpa [isShutdown] using hcalled),
      hI.enable.step p _,
      fun hsd ht => (hI.quick hsd ht).concat rfl, fun hp => (hI.armed hp).keep rfl,
      fun hp => (hI.trails hp).keep rfl⟩
  | shutdown =>
    have hdown : (axStep p s .shutdown).a.target = .disabled := rfl
    exact ⟨fun _ => rfl, hI.enable.step p _, by simp [hdown], fun hp => (hI.armed hp).keep rfl,
      fun hp => (hI.trails hp).keep rfl⟩
  | hook h => exact hI.hook p h

/-! ## Every run -/

/-- **S6.**  After the shutdown every hook with a bus writes the controlword of the walk
down, with two exceptions: the two hooks of the pulse of a `FAULT_RESET`, and a
`QUICKSTOP` that was applied after the shutdown and that nothing has ended. -/
theorem walks_down (cfg : Config) (evs : List Event) (i : Fin cfg.axes.length) :
    cfg.AxisAlong evs i fun hist r =>
      ∀ h ∈ r.ev.hook?, hist.any isShutdown = true → h.busLost = false →
        ∃ cw ∈ r.post.out.cw, WalksDown hist (shownDs h r.pre.a) cw := by
  refine Along.of_invariant' (I := DownInv) (downInv_init _) (fun hist s e hI => hI.step _ e)
    (fun hist s e hI h hh hcalled hbus => ?_) _
  obtain ⟨h', rfl⟩ := exists_hook (Option.isSome_of_mem hh)
  cases (Option.some.inj hh)
  have hsd := hI.called hcalled
  have hlat := (front_down (p := cfg.boot.c.p) (h := h) (hI.enable.shutdown hsd)).1
  refine ⟨_, axisRt_down s.ring hbus (hI.enable.shutdown hsd), ?_⟩
  split_ifs with htwo hone
  · exact .pulse rfl (hI.armed htwo)
  · exact .trail rfl (hI.trails hone)
  · cases ht : (latched cfg.boot.c.p h s.a).target with
    | enabled => exact absurd ht hlat
    | disabled => exact .walk (walkCw_disabled _ _)
    | quickstop =>
      exact .quickstop (walkCw_quickstop _ _) (hI.quick hsd (latched_quickstop ht).1)

/-- A `QUICKSTOP` after the shutdown, with the drive in Operation enabled. -/
def quickstopAfterShutdown : List Event :=
  [ smallCmd .enable 0, smallHook 6 0x27 1000 8, .shutdown,
    smallCmd .quickstop 0, smallHook 7 0x27 1000 8 ]

/-- In `quickstopAfterShutdown` the controlword is neither that of the walk down nor one
of a reset pulse. -/
theorem quickstop_walks_otherwise :
    ¬ smallConfig.AxisAlong quickstopAfterShutdown ⟨0, by decide⟩ fun hist r =>
      ∀ h ∈ r.ev.hook?, hist.any isShutdown = true → h.busLost = false →
        ∃ cw ∈ r.post.out.cw,
          cw = walkDown (shownDs h r.pre.a) ∨ cw = 0x0080 ∨ cw = 0x0000 := by
  decide +kernel

end EcMaster.Cia402
