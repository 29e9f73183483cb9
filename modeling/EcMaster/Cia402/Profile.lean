import EcMaster.Cia402.Front

/-!
# Step 7 of `axis_rt`: the profile modes

PP hands one point at a time to the drive, with a handshake over bit 4 of the
controlword and bit 12 of the statusword.  PV writes the commanded velocity.
HM holds bit 4 up until the statusword shows the end of the homing, an error,
or the time-out.  `clearProfile` is the rule that nothing in flight survives a
stop.
-/

namespace EcMaster.Cia402

open EcMaster.ByteImage EcMaster.Pdo EcMaster.Xchg

/-- Bits of the statusword as they are tested here. -/
def swBit (sw mask : Nat) : Bool := sw &&& mask != 0

/-- Nothing in flight survives a stop. -/
def clearProfile (w : Work) : Work :=
  if w.running then w
  else
    let inFlight := w.a.ppN + (if w.a.ppPhase = .up then 1 else 0)
    let a :=
      { w.a with
        ppLost := w.a.ppLost + inFlight
        ppN := 0
        ppPhase := .idle
        pvVel := 0 }
    { w with
      a :=
        if a.hmPhase = .running then
          { a with hmPhase := .failed, err := if a.err ≠ .none then a.err else .homing }
        else a }

/-- The next point of the queue is raised. -/
def ppRaise (h : AxHook) (w : Work) : Work :=
  { w with
    a :=
      { w.a with
        ppCur := w.a.ppQ w.a.ppHead
        ppFlags := w.a.ppQf w.a.ppHead
        ppHead := (w.a.ppHead + 1) % ppQueue
        ppN := w.a.ppN - 1
        ppPhase := .up
        ppSince := h.tick
        ppSent := w.a.ppSent + 1 } }

/-- The drive did not acknowledge the point in time. -/
def ppTimeout (w : Work) : Work :=
  { w with
    a :=
      { w.a with
        err := .handshake
        target := .disabled
        ppPhase := .idle
        ppLost := w.a.ppLost + 1 }
    cw := 0x0007 }

/-- The handshake of PP. -/
def ppHandshake (p : Params) (h : AxHook) (w : Work) : Work :=
  if !w.running then { w with a := { w.a with ppCur := w.a.apos } }
  else
    match w.a.ppPhase with
    | .idle =>
        if w.a.ppN ≠ 0 ∧ !swBit w.a.sw 0x1000 ∧
            (swBit (w.a.ppQf w.a.ppHead) ppImm ∨ swBit w.a.sw 0x0400) then
          ppRaise h w
        else w
    | .up =>
        if swBit w.a.sw 0x1000 ∧ h.tick ≥ u64 (w.a.ppSince + 2) then
          { w with a := { w.a with ppPhase := .waitLow, ppAcked := w.a.ppAcked + 1 } }
        else if sub64 h.tick w.a.ppSince > p.stepTimeoutTicks then ppTimeout w
        else w
    | .waitLow =>
        if !swBit w.a.sw 0x1000 then { w with a := { w.a with ppPhase := .idle } } else w

/-- Bit 4, with bits 5 and 6 from the flags of the point. -/
def ppBits (flags : Nat) : Nat :=
  0x0010 ||| (if swBit flags ppImm then 0x0020 else 0) |||
    (if swBit flags ppRel then 0x0040 else 0)

/-- PP: the handshake, 0x607A and bit 4. -/
def ppOut (p : Params) (h : AxHook) (w : Work) : Work :=
  let w := ppHandshake p h w
  let w := if w.a.b.tpos.mapped then { w with tpos := some w.a.ppCur } else w
  if w.running && w.cw = 0x000F && w.a.ppPhase = .up then
    { w with cw := w.cw ||| ppBits w.a.ppFlags }
  else w

/-- PV: the commanded velocity. -/
def pvOut (w : Work) : Work :=
  if w.a.b.tvel.mapped then { w with tvel := some (if w.running then w.a.pvVel else 0) } else w

/-- HM: the progress of a homing that runs. -/
def hmProgress (p : Params) (h : AxHook) (a : Axis) : Axis :=
  let seen := decide (h.tick ≥ u64 (a.hmSince + 2))
  let a := if seen && !swBit a.sw 0x1000 then { a with hmSeenLow := true } else a
  if seen && swBit a.sw 0x2000 then { a with hmPhase := .failed, err := .homing }
  else if seen && a.sw &&& 0x1400 = 0x1400 &&
      (a.hmSeenLow || h.tick ≥ u64 (a.hmSince + hmSettle)) then
    { a with hmPhase := .done, homed := true }
  else if sub64 h.tick a.hmSince > p.homeTimeoutTicks then
    { a with hmPhase := .failed, err := .homing }
  else a

/-- HM: the homing and bit 4. -/
def hmOut (p : Params) (h : AxHook) (w : Work) : Work :=
  if w.running && w.a.hmPhase = .running then
    let w := { w with a := hmProgress p h w.a }
    if w.a.hmPhase = .running && w.cw = 0x000F then { w with cw := w.cw ||| 0x0010 } else w
  else w

/-- Step 7. -/
def profileOut (p : Params) (h : AxHook) (w : Work) : Work :=
  let w := clearProfile w
  match w.a.modeReq with
  | .pp => ppOut p h w
  | .pv => pvOut w
  | .hm => hmOut p h w
  | _ => w

/-! ## What step 7 leaves alone

The inputs, the mode, the setpoint stream and the flag `running` are not
touched by the profile modes, and of the control group only the target and the
error are. -/

/-- The groups that step 7 keeps. -/
structure ProfileFrame (w w' : Work) : Prop where
  cfg : w'.a.toAxisCfg = w.a.toAxisCfg
  inputs : w'.a.toInputs = w.a.toInputs
  mode : w'.a.toModeState = w.a.toModeState
  stream : w'.a.toStream = w.a.toStream
  pulse : w'.a.resetPulse = w.a.resetPulse
  reached : w'.a.reachedOe = w.a.reachedOe
  axisRunning : w'.a.running = w.a.running
  running : w'.running = w.running

theorem ProfileFrame.refl (w : Work) : ProfileFrame w w :=
  ⟨rfl, rfl, rfl, rfl, rfl, rfl, rfl, rfl⟩

theorem ProfileFrame.trans {w w' w'' : Work} (h : ProfileFrame w w')
    (h' : ProfileFrame w' w'') : ProfileFrame w w'' :=
  ⟨h'.cfg.trans h.cfg, h'.inputs.trans h.inputs, h'.mode.trans h.mode,
    h'.stream.trans h.stream, h'.pulse.trans h.pulse, h'.reached.trans h.reached,
    h'.axisRunning.trans h.axisRunning, h'.running.trans h.running⟩

theorem clearProfile_frame (w : Work) : ProfileFrame w (clearProfile w) := by
  unfold clearProfile
  dsimp only
  split_ifs <;> exact ⟨rfl, rfl, rfl, rfl, rfl, rfl, rfl, rfl⟩

theorem ppHandshake_frame (p : Params) (h : AxHook) (w : Work) :
    ProfileFrame w (ppHandshake p h w) := by
  unfold ppHandshake ppRaise ppTimeout
  split
  · exact ⟨rfl, rfl, rfl, rfl, rfl, rfl, rfl, rfl⟩
  · split <;> split_ifs <;> exact ⟨rfl, rfl, rfl, rfl, rfl, rfl, rfl, rfl⟩

theorem ppOut_frame (p : Params) (h : AxHook) (w : Work) : ProfileFrame w (ppOut p h w) := by
  apply (ppHandshake_frame p h w).trans
  unfold ppOut
  dsimp only
  split_ifs <;> exact ⟨rfl, rfl, rfl, rfl, rfl, rfl, rfl, rfl⟩

theorem pvOut_frame (w : Work) : ProfileFrame w (pvOut w) := by
  unfold pvOut
  split_ifs <;> exact ⟨rfl, rfl, rfl, rfl, rfl, rfl, rfl, rfl⟩

theorem hmProgress_frame (p : Params) (h : AxHook) (w : Work) :
    ProfileFrame w { w with a := hmProgress p h w.a } := by
  unfold hmProgress
  dsimp only
  split_ifs <;> exact ⟨rfl, rfl, rfl, rfl, rfl, rfl, rfl, rfl⟩

theorem hmOut_frame (p : Params) (h : AxHook) (w : Work) : ProfileFrame w (hmOut p h w) := by
  unfold hmOut
  split
  · apply (hmProgress_frame p h w).trans
    dsimp only
    split_ifs <;> exact ⟨rfl, rfl, rfl, rfl, rfl, rfl, rfl, rfl⟩
  · exact .refl w

theorem profileOut_frame (p : Params) (h : AxHook) (w : Work) :
    ProfileFrame w (profileOut p h w) := by
  apply (clearProfile_frame w).trans
  unfold profileOut
  dsimp only
  split
  · exact ppOut_frame p h _
  · exact pvOut_frame _
  · exact hmOut_frame p h _
  · exact .refl _

/-- In the cyclic modes step 7 only clears. -/
theorem profileOut_of_cyclic {w : Work} (p : Params) (h : AxHook)
    (hmode : w.a.modeReq.cyclic = true) : profileOut p h w = clearProfile w := by
  have hmode' : (clearProfile w).a.modeReq = w.a.modeReq :=
    congrArg ModeState.modeReq (clearProfile_frame w).mode
  unfold profileOut
  dsimp only
  rw [hmode']
  cases hm : w.a.modeReq <;> simp_all [OpMode.cyclic]

/-- Clearing writes nothing, and keeps an error that is set. -/
theorem clearProfile_outputs (w : Work) :
    (clearProfile w).tpos = w.tpos ∧ (clearProfile w).tvel = w.tvel ∧
      (w.a.err ≠ .none → (clearProfile w).a.err = w.a.err) := by
  unfold clearProfile
  dsimp only
  split_ifs with hrun hhm herr <;> simp_all

/-! ## The axis after each mode -/

theorem ppOut_axis (p : Params) (h : AxHook) (w : Work) :
    (ppOut p h w).a = (ppHandshake p h w).a := by
  unfold ppOut
  dsimp only
  split_ifs <;> rfl

theorem pvOut_axis (w : Work) : (pvOut w).a = w.a := by
  unfold pvOut
  split_ifs <;> rfl

theorem hmOut_axis (p : Params) (h : AxHook) (w : Work) :
    (hmOut p h w).a = w.a ∨
      (w.running = true ∧ w.a.hmPhase = .running ∧ (hmOut p h w).a = hmProgress p h w.a) := by
  unfold hmOut
  split_ifs with hrun
  · simp only [Bool.and_eq_true, decide_eq_true_eq] at hrun
    refine .inr ⟨hrun.1, hrun.2, ?_⟩
    dsimp only
    split_ifs <;> rfl
  · exact .inl rfl

/-- Outside a homing that runs, step 7 keeps what clearing leaves of it. -/
theorem profileOut_hm_of_not {w : Work} (p : Params) (h : AxHook)
    (hno : ¬ (w.a.modeReq = .hm ∧ w.running = true ∧ w.a.hmPhase = .running)) :
    (profileOut p h w).a.toHmState = (clearProfile w).a.toHmState := by
  have hfr := clearProfile_frame w
  unfold profileOut
  dsimp only
  split
  · rw [ppOut_axis]
    unfold ppHandshake ppRaise ppTimeout
    split
    · rfl
    · split <;> split_ifs <;> rfl
  · rw [pvOut_axis]
  · rename_i hmode
    rcases hmOut_axis p h (clearProfile w) with heq | ⟨hrun, hphase, -⟩
    · rw [heq]
    · have hrun : w.running = true := hfr.running ▸ hrun
      have hkeep : clearProfile w = w := if_pos hrun
      rw [hkeep] at hmode hphase
      exact absurd ⟨hmode, hrun, hphase⟩ hno
  · rfl

/-- A homing that runs. -/
theorem profileOut_hm {w : Work} (p : Params) (h : AxHook) (hmode : w.a.modeReq = .hm)
    (hrun : w.running = true) (hphase : w.a.hmPhase = .running) :
    (profileOut p h w).a = hmProgress p h w.a := by
  have hkeep : clearProfile w = w := if_pos hrun
  unfold profileOut
  dsimp only
  rw [hkeep, hmode]
  dsimp only
  unfold hmOut
  rw [if_pos (by simp [hrun, hphase])]
  dsimp only
  split_ifs <;> rfl

/-- What clearing leaves of a homing. -/
theorem clearProfile_hm (w : Work) :
    (clearProfile w).a.hmSeenLow = w.a.hmSeenLow ∧ (clearProfile w).a.hmSince = w.a.hmSince ∧
      (clearProfile w).a.hmPhase =
        if w.running = false ∧ w.a.hmPhase = .running then .failed else w.a.hmPhase := by
  unfold clearProfile
  dsimp only
  by_cases hrun : w.running = true
  · simp [hrun]
  · by_cases hphase : w.a.hmPhase = .running
    · simp [hrun, hphase]
    · simp [hrun, hphase]

/-! ## The controlword after step 7 -/

/-- What step 7 can make of the controlword and the target. -/
inductive ProfileCw (w w' : Work) : Prop where
  | same (hcw : w'.cw = w.cw) (ht : w'.a.target = w.a.target)
  | timeout (hcw : w'.cw = 0x0007) (ht : w'.a.target = .disabled) (hrun : w.running = true)
      (hmode : w.a.modeReq = .pp)
  | ppUp (hwas : w.cw = 0x000F) (hcw : w'.cw = 0x000F ||| ppBits w'.a.ppFlags)
      (ht : w'.a.target = w.a.target) (hrun : w.running = true) (hmode : w.a.modeReq = .pp)
      (hup : w'.a.ppPhase = .up)
  | hmUp (hwas : w.cw = 0x000F) (hcw : w'.cw = 0x001F)
      (ht : w'.a.target = w.a.target) (hrun : w.running = true) (hmode : w.a.modeReq = .hm)
      (hup : w'.a.hmPhase = .running)

theorem clearProfile_control (w : Work) :
    (clearProfile w).cw = w.cw ∧ (clearProfile w).a.target = w.a.target := by
  unfold clearProfile
  dsimp only
  split_ifs <;> exact ⟨rfl, rfl⟩

/-- The handshake of PP changes the controlword in its time-out only. -/
theorem ppHandshake_control (p : Params) (h : AxHook) (w : Work) :
    ((ppHandshake p h w).cw = w.cw ∧ (ppHandshake p h w).a.target = w.a.target) ∨
      ((ppHandshake p h w).cw = 0x0007 ∧ (ppHandshake p h w).a.target = .disabled ∧
        w.running = true) := by
  unfold ppHandshake ppRaise ppTimeout
  split
  · exact .inl ⟨rfl, rfl⟩
  · rename_i hrun
    have hrun : w.running = true := by simpa using hrun
    split <;> split_ifs <;> simp [hrun]

theorem ppOut_cw (p : Params) (h : AxHook) {w : Work} (hmode : w.a.modeReq = .pp) :
    ProfileCw w (ppOut p h w) := by
  have hctl := ppHandshake_control p h w
  have hfr := (ppHandshake_frame p h w).running
  unfold ppOut
  generalize ppHandshake p h w = w1 at hctl hfr
  have hmapped : ∃ w2 : Work, (if w1.a.b.tpos.mapped then { w1 with tpos := some w1.a.ppCur }
      else w1) = w2 ∧ w2.a = w1.a ∧ w2.cw = w1.cw ∧ w2.running = w1.running := by
    split_ifs <;> exact ⟨_, rfl, rfl, rfl, rfl⟩
  obtain ⟨w2, heq, ha, hcw, hrunning⟩ := hmapped
  dsimp only
  rw [heq]
  split_ifs with hup
  · simp only [Bool.and_eq_true, decide_eq_true_eq, hcw, ha, hrunning, hfr] at hup
    obtain ⟨⟨hrun, hf⟩, hphase⟩ := hup
    rcases hctl with ⟨hcw1, ht1⟩ | ⟨hcw1, _, _⟩
    · exact .ppUp (by rw [← hcw1, hf]) (by rw [hcw, hf]) (by rw [ha, ht1]) hrun hmode
        (by rw [ha, hphase])
    · omega
  · rcases hctl with ⟨hcw1, ht1⟩ | ⟨hcw1, ht1, hrun⟩
    · exact .same (by rw [hcw, hcw1]) (by rw [ha, ht1])
    · exact .timeout (by rw [hcw, hcw1]) (by rw [ha, ht1]) hrun hmode

theorem pvOut_cw (w : Work) : ProfileCw w (pvOut w) := by
  unfold pvOut
  split_ifs <;> exact .same rfl rfl

theorem hmProgress_target (p : Params) (h : AxHook) (a : Axis) :
    (hmProgress p h a).target = a.target := by
  unfold hmProgress
  dsimp only
  split_ifs <;> rfl

theorem hmOut_cw (p : Params) (h : AxHook) {w : Work} (hmode : w.a.modeReq = .hm) :
    ProfileCw w (hmOut p h w) := by
  unfold hmOut
  split_ifs with hrun
  · simp only [Bool.and_eq_true, decide_eq_true_eq] at hrun
    dsimp only
    split_ifs with hup
    · simp only [Bool.and_eq_true, decide_eq_true_eq] at hup
      exact .hmUp hup.2 (by simp [hup.2]) (hmProgress_target p h w.a) hrun.1 hmode hup.1
    · exact .same rfl (hmProgress_target p h w.a)
  · exact .same rfl rfl

/-- Step 7 as a whole. -/
theorem profileOut_cw (p : Params) (h : AxHook) (w : Work) :
    ProfileCw w (profileOut p h w) := by
  obtain ⟨hcw, ht⟩ := clearProfile_control w
  have hfr := clearProfile_frame w
  have hmode : (clearProfile w).a.modeReq = w.a.modeReq := congrArg ModeState.modeReq hfr.mode
  have hstep : ProfileCw (clearProfile w) (profileOut p h w) := by
    unfold profileOut
    dsimp only
    split
    · exact ppOut_cw p h ‹_›
    · exact pvOut_cw _
    · exact hmOut_cw p h ‹_›
    · exact .same rfl rfl
  cases hstep with
  | same hcw' ht' => exact .same (hcw'.trans hcw) (ht'.trans ht)
  | timeout hcw' ht' hrun hpp => exact .timeout hcw' ht' (hfr.running ▸ hrun) (hmode ▸ hpp)
  | ppUp hwas hcw' ht' hrun hpp hup =>
    exact .ppUp (hcw ▸ hwas) hcw' (ht'.trans ht) (hfr.running ▸ hrun) (hmode ▸ hpp) hup
  | hmUp hwas hcw' ht' hrun hhm hup =>
    exact .hmUp (hcw ▸ hwas) hcw' (ht'.trans ht) (hfr.running ▸ hrun) (hmode ▸ hhm) hup

/-! ## The target velocity after step 7 -/

theorem ppOut_tvel (p : Params) (h : AxHook) (w : Work) : (ppOut p h w).tvel = w.tvel := by
  have hshake : (ppHandshake p h w).tvel = w.tvel := by
    unfold ppHandshake ppRaise ppTimeout
    split
    · rfl
    · split <;> split_ifs <;> rfl
  unfold ppOut
  dsimp only
  split_ifs <;> exact hshake

theorem hmOut_tvel (p : Params) (h : AxHook) (w : Work) : (hmOut p h w).tvel = w.tvel := by
  unfold hmOut
  dsimp only
  split_ifs <;> rfl

/-- Only PV writes 0x60FF, and 0 unless the axis runs. -/
theorem profileOut_tvel (p : Params) (h : AxHook) (w : Work) :
    (profileOut p h w).tvel =
      if w.a.modeReq = .pv ∧ w.a.b.tvel.mapped then
        some (if w.running then w.a.pvVel else 0)
      else w.tvel := by
  have hfr := clearProfile_frame w
  have htvel := (clearProfile_outputs w).2.1
  unfold profileOut
  dsimp only
  rw [hfr.mode]
  cases hmode : w.a.modeReq with
  | pp => rw [ppOut_tvel, if_neg (by simp), htvel]
  | pv =>
    simp only [pvOut, hfr.cfg, hfr.running, true_and]
    by_cases hmap : w.a.b.tvel.mapped = true
    · rw [if_pos hmap, if_pos hmap]
      by_cases hrun : w.running = true
      · have hkeep : clearProfile w = w := if_pos hrun
        simp [hkeep]
      · simp [hrun]
    · rw [if_neg hmap, if_neg hmap]
      exact htvel
  | hm => rw [hmOut_tvel, if_neg (by simp), htvel]
  | csp => simpa using htvel
  | csv => simpa using htvel
  | none => simpa using htvel

end EcMaster.Cia402
