import EcMaster.Cia402.Run

/-!
# No stale target position

S2 and S3 of `docs/safety_boundary.md`: in CSP the master sends the actual
position until the axis runs on a setpoint, then the setpoints, and in an
underrun the last value again.  A value is sent again only by an axis that ran
in the hook before.

The hold path is guarded by the flag `armed`, which a hook without a bus leaves
as it is.  An `ENABLE` applied in the first hook after the bus is back finds
the flag still set if the drive is still in Operation enabled, and the position
commanded before the bus loss is sent again.  `target_not_stale` is the property
for runs without such a hook, `target_stale` a run with one.
-/

namespace EcMaster.Cia402

open EcMaster.Run EcMaster.Xchg

/-- What a hook with a bus may write to 0x607A in CSP: (a) the actual position,
(b) a setpoint taken in this hook for the next tick, (c) what the hook before
wrote, if that had a bus and the axis ran in CSP there. -/
def TargetFresh (hist : List AxRec) (r : AxRec) : Prop :=
  ∀ h ∈ r.ev.hook?, h.busLost = false → r.post.a.modeReq = .csp →
    ∃ t ∈ r.post.out.tpos,
      t = r.post.a.apos ∨
      (∃ e ∈ r.post.used, e.tick = u64 (h.tick + 1) ∧ t = e.v) ∨
      (∃ q ∈ lastHook hist, ranIn q .csp = true ∧ q.post.out.tpos = some t)

instance (hist : List AxRec) (r : AxRec) : Decidable (TargetFresh hist r) :=
  inferInstanceAs (Decidable (∀ h ∈ r.ev.hook?, _))

/-- A hook that finds the axis ready to run in CSP and still armed, and no
setpoint due, does not follow a hook without a bus. -/
def NoBlindHold (hist : List AxRec) (r : AxRec) : Prop :=
  ∀ h ∈ r.ev.hook?, runsOn h r.pre.a = true → r.pre.a.modeReq = .csp →
    r.pre.a.armed = true → dueSetpoint h r.pre.ring = none →
    ∀ q ∈ lastHook hist, live q = true

instance (hist : List AxRec) (r : AxRec) : Decidable (NoBlindHold hist r) :=
  inferInstanceAs (Decidable (∀ h ∈ r.ev.hook?, _))

/-- An axis that is armed in CSP has run in CSP at the last hook and its last
setpoint is what that hook wrote, unless that hook had no bus. -/
structure HoldInv (x : AxisSetup) (hist : List AxRec) (s : AxSt) : Prop where
  base : AxBase x s
  held : s.a.modeReq = .csp → s.a.armed = true → ∃ q ∈ lastHook hist,
    live q = true → ranIn q .csp = true ∧ q.post.out.tpos = some s.a.lastSp

theorem holdInv_init (x : AxisSetup) : HoldInv x [] x.init :=
  ⟨axBase_init x, fun _ harmed => by cases harmed⟩

theorem HoldInv.step {x : AxisSetup} (hmap : x.b.tpos.mapped = true) {hist : List AxRec}
    {s : AxSt} (hI : HoldInv x hist s) (p : Params) (e : AxEv) :
    HoldInv x (hist ++ [⟨s, e, axStep p s e⟩]) (axStep p s e) := by
  refine ⟨hI.base.step p e, fun hmode harmed => ?_⟩
  cases e with
  | cmd c xe tick =>
    have hsp : (axStep p s (.cmd c xe tick)).a.lastSp = s.a.lastSp := by
      rw [axStep, stream_applyCmd]
    have harmed : (applyCmd s.shutdown xe tick c s.a).armed = true := harmed
    rw [stream_applyCmd] at harmed
    simp only [Bool.and_eq_true, decide_eq_true_eq] at harmed
    obtain ⟨hwas, hsame⟩ := harmed
    simpa [hsp, AxEv.hook?] using hI.held (hsame ▸ hmode) hwas
  | setpoint sp => simpa [axStep, AxEv.hook?] using hI.held hmode harmed
  | shutdown => simpa [axStep, AxEv.hook?] using hI.held hmode harmed
  | hook h =>
    refine ⟨⟨s, .hook h, axStep p s (.hook h)⟩, by simp [AxEv.hook?], fun hlive => ?_⟩
    have hbus : h.busLost = false := by simpa [live] using hlive
    have hmode' : s.a.modeReq = .csp := by simpa [axStep] using hmode
    have hmap' : s.a.b.tpos.mapped = true := by rw [hI.base.cfg]; exact hmap
    obtain ⟨t, htpos, -, hsp, hcase⟩ := axisRt_csp (p := p) s.ring hbus hmode' hmap'
    have hrun : (axisRt p h s.ring s.a).a.running = true := by
      change (axisRt p h s.ring s.a).a.armed = true at harmed
      cases hcase with
      | refused e hused hruns hlim hbig ht herr hoff => simp [hoff] at harmed
      | sent e hused hruns => exact hruns
      | held hused hruns => exact hruns
      | actual hused hidle hoff => simp [hoff] at harmed
    refine ⟨?_, ?_⟩
    · simp only [ranIn, hlive, hmode, decide_true, Bool.and_true, Bool.true_and]
      exact hrun
    · change (axisRt p h s.ring s.a).out.tpos = some (axisRt p h s.ring s.a).a.lastSp
      rw [htpos, hsp]

/-- **S2, S3.**  In every run in which no armed axis is ready to run without a
setpoint at the first hook after the bus was lost, the value written to 0x607A
in CSP is never stale. -/
theorem target_not_stale (cfg : Config) (evs : List Event) (i : Fin cfg.axes.length)
    (hmap : (cfg.axes.get i).b.tpos.mapped = true)
    (hblind : cfg.AxisAlong evs i NoBlindHold) :
    cfg.AxisAlong evs i TargetFresh := by
  refine Along.of_invariant (I := HoldInv (cfg.axes.get i)) (holdInv_init _)
    (fun hist s e hI _ => hI.step hmap _ e) ?_ hblind
  intro hist s ev hI hC h hh hbus hmode
  obtain ⟨h', rfl⟩ := exists_hook (Option.isSome_of_mem hh)
  cases (Option.some.inj hh)
  have hmode' : s.a.modeReq = .csp := by simpa [axStep] using hmode
  have hmap' : s.a.b.tpos.mapped = true := by rw [hI.base.cfg]; exact hmap
  obtain ⟨t, htpos, -, -, hcase⟩ := axisRt_csp (p := cfg.boot.c.p) s.ring hbus hmode' hmap'
  refine ⟨t, htpos, ?_⟩
  cases hcase with
  | refused => exact .inl rfl
  | sent e hused => exact .inr (.inl ⟨e, hused, (axisRt_used hused).2.1, rfl⟩)
  | actual => exact .inl rfl
  | held hused hruns hwas =>
    obtain ⟨q, hq, hheld⟩ := hI.held hmode' hwas
    rw [axisRt_running s.ring s.a hbus] at hruns
    have hdue : dueSetpoint h s.ring = none := by
      simpa [axisRt_used_eq _ _ _ hI.base.ring, hruns, hmode', OpMode.cyclic] using hused
    have hlive := hC h rfl hruns hmode' hwas hdue q hq
    exact .inr (.inr ⟨q, hq, hheld hlive⟩)

/-- The bus is lost while the axis runs at 1000, the axis is moved to 200 in the
meantime, and `ENABLE` comes in the first hook after. -/
def enableAfterLoss : List Event :=
  [ smallCmd .enable 0, smallHook 6 0x27 1000 8,
    .setpoint 0 8 1000, smallHook 7 0x27 1000 8,
    smallLost 8,
    smallCmd .enable 0, smallHook 9 0x27 200 8 ]

/-- After `enableAfterLoss` the position 1000 from before the bus loss is sent to
the axis at 200. -/
theorem target_stale :
    ¬ smallConfig.AxisAlong enableAfterLoss ⟨0, by decide⟩ TargetFresh := by
  decide

/-- A run that meets the condition: the bus is lost and back, and `ENABLE` comes
one hook later. -/
theorem target_not_stale_small :
    smallConfig.AxisAlong
      [ smallCmd .enable 0, smallHook 6 0x27 1000 8,
        .setpoint 0 8 1000, smallHook 7 0x27 1000 8, smallHook 8 0x27 1000 8,
        smallLost 9, smallHook 10 0x27 200 8,
        smallCmd .enable 0, smallHook 11 0x27 200 8 ]
      ⟨0, by decide⟩ TargetFresh :=
  target_not_stale smallConfig _ ⟨0, by decide⟩ (by decide) (by decide)

end EcMaster.Cia402
