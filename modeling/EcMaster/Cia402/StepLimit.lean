import EcMaster.Cia402.Run

/-!
# The step limit S4

`docs/safety_boundary.md`: a setpoint that is further than the limit from the
value sent before it is not sent; the axis quick stops with the error STEP.

The code compares with `last_sent`, which is also written by CSV and is not
written by a hook without a bus.  So the reference is the right one only if the
hook before had a bus and its requested mode was CSP.  `step_limited` is the
property for runs in which every hook with a setpoint for a running CSP axis
follows such a hook, and `step_not_limited` a run without: `SET_MODE` to CSV and back,
which the drive never confirms, leaves 0 in `last_sent`, and a setpoint near 0
is sent to an axis that stands at 50050.
-/

namespace EcMaster.Cia402

open EcMaster.Run EcMaster.Xchg

/-- The positions a setpoint of this hook may be compared with: what was last
written to 0x607A if the axis ran in CSP at the hook before, and otherwise the
actual position as known at this hook or at the one before. -/
def stepRefs (hist : List AxRec) (r : AxRec) : List Int :=
  match lastHook hist with
  | some q =>
      if ranIn q .csp then (lastTpos hist).toList else [r.post.a.apos, q.post.a.apos]
  | none => [r.post.a.apos]

/-- `v` is at most `limit` away from `ref`. -/
def WithinStep (limit ref v : Int) : Prop := v - ref ≤ limit ∧ -limit ≤ v - ref

instance (limit ref v : Int) : Decidable (WithinStep limit ref v) :=
  inferInstanceAs (Decidable (_ ∧ _))

/-- S4 at one step: a setpoint taken in CSP is written if it is within the limit
of its reference, and otherwise the axis quick stops at the actual position with
the error STEP. -/
def StepLimited (limit : Int) (hist : List AxRec) (r : AxRec) : Prop :=
  r.ev.hook?.isSome → r.post.a.modeReq = .csp → ∀ e ∈ r.post.used,
    ∃ ref ∈ stepRefs hist r,
      (WithinStep limit ref e.v ∧ r.post.out.tpos = some e.v) ∨
      (¬ WithinStep limit ref e.v ∧ r.post.out.tpos = some r.post.a.apos ∧
        r.post.a.target = .quickstop ∧ r.post.a.err = .step)

instance (limit : Int) (hist : List AxRec) (r : AxRec) : Decidable (StepLimited limit hist r) :=
  inferInstanceAs (Decidable (_ → _))

/-- A hook that finds the axis ready to run in CSP and a setpoint due directly
follows a hook with a bus whose requested mode was CSP. -/
def FollowsCsp (hist : List AxRec) (r : AxRec) : Prop :=
  ∀ h ∈ r.ev.hook?, runsOn h r.pre.a = true → r.pre.a.modeReq = .csp →
    (dueSetpoint h r.pre.ring).isSome →
    ∃ q ∈ lastHook hist, live q ∧ q.post.a.modeReq = .csp

instance (hist : List AxRec) (r : AxRec) : Decidable (FollowsCsp hist r) :=
  inferInstanceAs (Decidable (∀ h ∈ r.ev.hook?, _))

/-! ## What `last_sent` is -/

/-- After a hook with a bus in CSP, `last_sent` is what the hook wrote to 0x607A,
and the actual position unless the axis ran. -/
structure SentInv (x : AxisSetup) (hist : List AxRec) (s : AxSt) : Prop where
  base : AxBase x s
  sent : ∀ q ∈ lastHook hist, live q = true → q.post.a.modeReq = .csp →
    lastTpos hist = some s.a.lastSent ∧
      (q.post.a.running = true ∨ s.a.lastSent = q.post.a.apos)

theorem sentInv_init (x : AxisSetup) : SentInv x [] x.init :=
  ⟨axBase_init x, by simp [lastHook]⟩

theorem SentInv.step {x : AxisSetup} (hmap : x.b.tpos.mapped = true) {hist : List AxRec}
    {s : AxSt} (hI : SentInv x hist s) (p : Params) (e : AxEv) :
    SentInv x (hist ++ [⟨s, e, axStep p s e⟩]) (axStep p s e) := by
  refine ⟨hI.base.step p e, ?_⟩
  cases e with
  | cmd c xe tick =>
    have hsent : (axStep p s (.cmd c xe tick)).a.lastSent = s.a.lastSent := by
      rw [axStep, stream_applyCmd]
    simpa [hsent, AxEv.hook?, lastTpos_concat] using hI.sent
  | setpoint sp => simpa [axStep, AxEv.hook?, lastTpos_concat] using hI.sent
  | shutdown => simpa [axStep, AxEv.hook?, lastTpos_concat] using hI.sent
  | hook h =>
    simp only [lastHook_concat, lastTpos_concat, AxEv.hook?, Option.isSome_some, if_true,
      Option.mem_some_iff, forall_eq']
    intro hlive hmode
    have hlive : h.busLost = false := by simpa [live] using hlive
    have hmode : s.a.modeReq = .csp := by simpa [axStep] using hmode
    have hmap' : s.a.b.tpos.mapped = true := by rw [hI.base.cfg]; exact hmap
    obtain ⟨t, htpos, hsent, -, hcase⟩ := axisRt_csp (p := p) s.ring hlive hmode hmap'
    refine ⟨by simp [axStep, htpos, hsent], ?_⟩
    change (axisRt p h s.ring s.a).a.running = true ∨
      (axisRt p h s.ring s.a).a.lastSent = (axisRt p h s.ring s.a).a.apos
    rw [hsent]
    cases hcase with
    | refused e hused hruns => exact .inl hruns
    | sent e hused hruns => exact .inl hruns
    | held hused hruns => exact .inl hruns
    | actual hused hidle => exact .inr rfl

/-! ## Every run -/

/-- **S4.**  In every run in which a setpoint is due for a running CSP axis only
directly after a hook with a bus in CSP, a setpoint is written if it is within
the limit, and otherwise the axis quick stops with the error STEP. -/
theorem step_limited (cfg : Config) (evs : List Event) (i : Fin cfg.axes.length)
    (hmap : (cfg.axes.get i).b.tpos.mapped = true) (hlim : 0 < (cfg.axes.get i).maxPos)
    (hcsp : cfg.AxisAlong evs i FollowsCsp) :
    cfg.AxisAlong evs i (StepLimited (cfg.axes.get i).maxPos) := by
  refine Along.of_invariant (I := SentInv (cfg.axes.get i)) (sentInv_init _)
    (fun hist s e hI _ => hI.step hmap _ e) ?_ hcsp
  intro hist s ev hI hC hhook hmode e hused
  obtain ⟨h, rfl⟩ := exists_hook hhook
  have hused : (axisRt cfg.boot.c.p h s.ring s.a).used = some e := hused
  have hmode : s.a.modeReq = .csp := by simpa [axStep] using hmode
  obtain ⟨hbus, -, hrun, -⟩ := axisRt_used hused
  rw [axisRt_running s.ring s.a hbus] at hrun
  have hdue : dueSetpoint h s.ring = some e := by
    simpa [axisRt_used_eq _ _ _ hI.base.ring, hrun, hmode, OpMode.cyclic] using hused
  obtain ⟨q, hq, hlive, hqmode⟩ := hC h rfl hrun hmode (by simp [hdue])
  obtain ⟨htpos, hran⟩ := hI.sent q hq hlive hqmode
  have hmap' : s.a.b.tpos.mapped = true := by rw [hI.base.cfg]; exact hmap
  have hmax : s.a.maxStepPos = (cfg.axes.get i).maxPos := by
    rw [hI.base.cfg]
    exact if_pos hlim
  -- the reference of the code is one of those allowed
  refine ⟨s.a.lastSent, ?_, ?_⟩
  · have hq : lastHook hist = some q := hq
    unfold stepRefs
    rw [hq]
    simp only
    split_ifs with hrun
    · simp [htpos]
    · rcases hran with hran | hran
      · simp [ranIn, hlive, hran, hqmode] at hrun
      · simp [hran]
  · obtain ⟨t, htp, -, -, hcase⟩ := axisRt_csp (p := cfg.boot.c.p) s.ring hbus hmode hmap'
    change (WithinStep _ _ _ ∧ (axisRt _ h s.ring s.a).out.tpos = _) ∨ (¬ WithinStep _ _ _ ∧
      (axisRt _ h s.ring s.a).out.tpos = some (axisRt _ h s.ring s.a).a.apos ∧
      (axisRt _ h s.ring s.a).a.target = _ ∧ (axisRt _ h s.ring s.a).a.err = _)
    rw [htp, ← hmax]
    cases hcase with
    | refused e' hu hruns hne hbig ht herr =>
      cases hu.symm.trans hused
      refine .inr ⟨?_, rfl, ht, herr⟩
      unfold WithinStep
      omega
    | sent e' hu hruns hsmall =>
      cases hu.symm.trans hused
      exact .inl ⟨hsmall (by omega), rfl⟩
    | held hu => simp [hu] at hused
    | actual hu => simp [hu] at hused

/-- `SET_MODE` to CSV and back while the axis runs at 50050. -/
def modeToggle : List Event :=
  [ smallCmd .enable 0, smallHook 6 0x27 50000 8,
    .setpoint 0 8 50050, smallHook 7 0x27 50000 8,
    smallCmd .setMode 9, smallHook 8 0x27 50050 8,
    smallCmd .setMode 8, .setpoint 0 10 20, smallHook 9 0x27 50050 8 ]

/-- After `modeToggle` the setpoint 20 is sent, 50030 away from the actual
position, with a limit of 100. -/
theorem step_not_limited :
    ¬ smallConfig.AxisAlong modeToggle ⟨0, by decide⟩ (StepLimited 100) := by
  decide

/-- A run that meets the condition: two setpoints are sent and one is refused. -/
theorem step_limited_small :
    smallConfig.AxisAlong
      [ smallCmd .enable 0, smallHook 6 0x27 50000 8,
        .setpoint 0 8 50050, smallHook 7 0x27 50000 8,
        .setpoint 0 9 50100, smallHook 8 0x27 50050 8,
        .setpoint 0 10 20, smallHook 9 0x27 50100 8 ]
      ⟨0, by decide⟩ (StepLimited 100) :=
  step_limited smallConfig _ ⟨0, by decide⟩ (by decide) (by decide) (by decide)

end EcMaster.Cia402
