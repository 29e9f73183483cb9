import EcMaster.Cia402.Image

/-!
# The target velocity of an axis that does not run

CSV and PV write 0x60FF in every hook with a bus, and write 0 unless the axis
runs.  The other modes do not write it at all.  So the velocity of an axis that
does not run in CSV or PV is 0 as long as CSV and PV are left at rest:
`velocity_zero`.

`SET_MODE` can leave them in full run.  The velocity written last then stays in
the image for as long as the axis is in CSP, PP or HM, whether it runs there or
is disabled, and a drive that is still in its old mode goes on moving with it.
`velocity_left_behind` is such a run.
-/

namespace EcMaster.Cia402

open EcMaster.ByteImage EcMaster.Pdo EcMaster.Xchg EcMaster.Run

/-- CSV and PV, the modes with a target velocity. -/
def OpMode.velocity : OpMode → Bool
  | .csv | .pv => true
  | _ => false

/-- The axis runs in CSV or PV. -/
def Axis.runsVelocity (a : Axis) : Bool :=
  a.running && a.target = .enabled && a.modeReq.velocity

/-! ## One hook -/

/-- A hook with a bus in CSV. -/
theorem axisRt_csv {p : Params} {h : AxHook} (ring : XRing XSp) {a : Axis}
    (hlive : h.busLost = false) (hmode : a.modeReq = .csv) (hmap : a.b.tvel.mapped = true) :
    ∃ v, (axisRt p h ring a).out.tvel = some v ∧
      (v ≠ 0 → (axisRt p h ring a).a.running = true ∧
        (axisRt p h ring a).a.target = .enabled) := by
  obtain ⟨ha, -, -, htvel, -⟩ := axisRt_live (p := p) ring a hlive
  have hrunning := axisRt_running (p := p) ring a hlive
  generalize hw : (takeSetpoint h ring (front p h a)).1 = w at *
  have hwm : w.a.modeReq = .csv := by simp [← hw, hmode]
  have hwr : w.running = runsOn h a := by simp [← hw, front_runs_eq]
  have hback : back p h ring (front p h a) = clearProfile (csvOut (stepLimit w)) := by
    unfold back
    rw [hw, cspOut_of_ne (by simp [hwm]), profileOut_of_cyclic _ _ (by simp [hwm, OpMode.cyclic])]
  rw [hback] at ha htvel
  rw [(clearProfile_outputs _).2.1, csvOut_spec (by simp [hwm]) (by simp [← hw, hmap])] at htvel
  refine ⟨_, htvel, fun hne => ?_⟩
  have hrun : (stepLimit w).running = true := by
    by_contra hno
    simp [hno] at hne
  -- a refused setpoint would have stopped the axis
  have hnot : ¬ w.refuses := fun hr => by simp [(stepLimit_of_refuses hr).2.2.1] at hrun
  rw [stepLimit_of_not_refuses hnot] at hrun ha
  refine ⟨by rw [hrunning, ← hwr, hrun], ?_⟩
  have htarget : (axisRt p h ring a).a.target = (front p h a).a.target := by
    rw [ha]
    show (clearProfile (csvOut w)).a.target = _
    rw [(clearProfile_control _).2]
    simp [← hw]
  rw [htarget]
  refine (front_runs (p := p) (h := h) (a := a) ?_).1
  rw [front_runs_eq, ← hwr, hrun]

/-- A hook with a bus in PV. -/
theorem axisRt_pv_writes {p : Params} {h : AxHook} (ring : XRing XSp) {a : Axis}
    (hlive : h.busLost = false) (hmode : a.modeReq = .pv) (hmap : a.b.tvel.mapped = true) :
    ∃ v, (axisRt p h ring a).out.tvel = some v ∧
      (v ≠ 0 → (axisRt p h ring a).a.running = true ∧
        (axisRt p h ring a).a.target = .enabled) := by
  obtain ⟨ha, -, -, htvel, -⟩ := axisRt_live (p := p) ring a hlive
  have hrunning := axisRt_running (p := p) ring a hlive
  obtain ⟨w, heq, hfr⟩ := back_eq p h ring (front p h a)
  have hwm : w.a.modeReq = .pv := by
    simpa [hmode] using congrArg ModeState.modeReq hfr.mode
  have hwmap : w.a.b.tvel.mapped = true := by rw [hfr.cfg]; simpa using hmap
  obtain ⟨hrun, -, -, ht⟩ := hfr.profile (by simp [hmode, OpMode.cyclic])
  rw [heq] at ha htvel
  rw [profileOut_tvel, if_pos ⟨hwm, hwmap⟩] at htvel
  refine ⟨_, htvel, fun hne => ?_⟩
  have hwr : w.running = true := by
    by_contra hno
    simp [hno] at hne
  have hruns : (front p h a).a.runs = true := hrun ▸ hwr
  refine ⟨by rw [hrunning, ← front_runs_eq p h a, hruns], ?_⟩
  have htarget : (axisRt p h ring a).a.target = w.a.target := by
    rw [ha]
    cases profileOut_cw p h w with
    | same _ ht' => exact ht'
    | timeout _ _ _ hpp => simp [hwm] at hpp
    | ppUp _ _ ht' => exact ht'
    | hmUp _ _ ht' => exact ht'
  rw [htarget, ht]
  exact (front_runs hruns).1

/-- Every other mode leaves 0x60FF alone. -/
theorem axisRt_tvel_none {p : Params} {h : AxHook} (ring : XRing XSp) {a : Axis}
    (hmode : a.modeReq.velocity = false) : (axisRt p h ring a).out.tvel = none := by
  have hcsv : a.modeReq ≠ .csv := fun heq => by simp [heq, OpMode.velocity] at hmode
  have hpv : a.modeReq ≠ .pv := fun heq => by simp [heq, OpMode.velocity] at hmode
  cases hlost : h.busLost with
  | true => rw [(axisRt_lost ring a hlost).1, Outputs.silent]
  | false =>
    obtain ⟨-, -, -, htvel, -⟩ := axisRt_live (p := p) ring a hlost
    rw [htvel, back, profileOut_tvel, csvOut_of_ne (by simpa using hcsv)]
    simp [hpv]

/-! ## Histories -/

/-- CSV and PV are left at rest: a hook with a bus in another mode does not follow,
as the next one with a bus, a hook in CSV or PV that wrote a velocity. -/
def LeftAtRest (hist : List AxRec) (r : AxRec) : Prop :=
  ∀ h ∈ r.ev.hook?, h.busLost = false → r.pre.a.modeReq.velocity = false →
    ∀ l ∈ lastLive hist, l.post.a.modeReq.velocity = true →
      ∀ v ∈ l.post.out.tvel, toU64 v % 2 ^ r.pre.a.b.tvel.bits = 0

instance (hist : List AxRec) (r : AxRec) : Decidable (LeftAtRest hist r) :=
  inferInstanceAs (Decidable (∀ h ∈ r.ev.hook?, _))

/-- The bits of 0x60FF after a history. -/
def velocityBits (x : AxisSetup) (hist : List AxRec) : Nat :=
  stored x.b.tvel (lastOut .tvel hist) 0

/-- After a hook with a bus, 0x60FF is what the hook wrote if that was in CSV or
PV, and 0 otherwise. -/
structure VelocityInv (x : AxisSetup) (hist : List AxRec) (s : AxSt) : Prop where
  base : AxBase x s
  fresh : lastLive hist = none → velocityBits x hist = 0
  rest : ∀ l ∈ lastLive hist, l.post.a.modeReq.velocity = false → velocityBits x hist = 0
  written : ∀ l ∈ lastLive hist, l.post.a.modeReq.velocity = true →
    ∃ v ∈ l.post.out.tvel, velocityBits x hist = toU64 v % 2 ^ x.b.tvel.bits

theorem velocityInv_init (x : AxisSetup) : VelocityInv x [] x.init :=
  ⟨axBase_init x, fun _ => rfl, by simp [lastLive], by simp [lastLive]⟩

/-- A step that writes nothing to 0x60FF. -/
theorem velocityBits_concat (x : AxisSetup) (hist : List AxRec) (r : AxRec) :
    velocityBits x (hist ++ [r]) =
      if r.ev.hook?.isSome then stored x.b.tvel (r.post.out.raw .tvel) (velocityBits x hist)
      else velocityBits x hist := by
  unfold velocityBits
  rw [lastOut_append, stored_or]
  simp only [lastOut, List.reverse_singleton, List.findSome?_singleton]
  split_ifs <;> rfl

/-- A hook with a bus: CSV and PV write the object, the other modes find it at
rest. -/
theorem VelocityInv.hook {x : AxisSetup} {hist : List AxRec} {s : AxSt}
    (hmap : x.b.tvel.mapped = true) (hI : VelocityInv x hist s) (p : Params) {h : AxHook}
    (hbus : h.busLost = false) (hC : LeftAtRest hist ⟨s, .hook h, axStep p s (.hook h)⟩) :
    (s.a.modeReq.velocity = false →
      velocityBits x (hist ++ [⟨s, .hook h, axStep p s (.hook h)⟩]) = 0) ∧
    (s.a.modeReq.velocity = true → ∃ v ∈ (axStep p s (.hook h)).out.tvel,
      velocityBits x (hist ++ [⟨s, .hook h, axStep p s (.hook h)⟩]) =
        toU64 v % 2 ^ x.b.tvel.bits ∧
      (v ≠ 0 → (axStep p s (.hook h)).a.runsVelocity = true)) := by
  have hb : s.a.b = x.b := by rw [hI.base.cfg]; rfl
  rw [velocityBits_concat, if_pos (by simp [AxEv.hook?])]
  constructor
  · intro hmode
    have hnone : (axStep p s (.hook h)).out.tvel = none := axisRt_tvel_none s.ring hmode
    show stored _ ((axStep p s (.hook h)).out.tvel.map toU64) _ = 0
    rw [hnone]
    show velocityBits x hist = 0
    cases hlast : lastLive hist with
    | none => exact hI.fresh hlast
    | some l =>
      cases hl : l.post.a.modeReq.velocity with
      | false => exact hI.rest l hlast hl
      | true =>
        obtain ⟨v, hv, heq⟩ := hI.written l hlast hl
        rw [heq, ← hb]
        exact hC h rfl hbus hmode l hlast hl v hv
  · intro hmode
    have hwrite : ∃ v, (axisRt p h s.ring s.a).out.tvel = some v ∧
        (v ≠ 0 → (axisRt p h s.ring s.a).a.running = true ∧
          (axisRt p h s.ring s.a).a.target = .enabled) := by
      cases hm : s.a.modeReq with
      | csv => exact axisRt_csv s.ring hbus hm (hb ▸ hmap)
      | pv => exact axisRt_pv_writes s.ring hbus hm (hb ▸ hmap)
      | _ => simp [hm, OpMode.velocity] at hmode
    obtain ⟨v, hv, hruns⟩ := hwrite
    refine ⟨v, hv, ?_, fun hne => ?_⟩
    · show stored _ ((axisRt p h s.ring s.a).out.tvel.map toU64) _ = _
      rw [hv]
      rfl
    · simp [Axis.runsVelocity, axStep, hruns hne, hmode]

theorem VelocityInv.step {x : AxisSetup} {hist : List AxRec} {s : AxSt}
    (hmap : x.b.tvel.mapped = true) (hI : VelocityInv x hist s) (p : Params) (e : AxEv)
    (hC : LeftAtRest hist ⟨s, e, axStep p s e⟩) :
    VelocityInv x (hist ++ [⟨s, e, axStep p s e⟩]) (axStep p s e) := by
  have hbase := hI.base.step p e
  -- without a hook, or in a hook without a bus, nothing is written
  have hquiet : live ⟨s, e, axStep p s e⟩ = false →
      velocityBits x (hist ++ [⟨s, e, axStep p s e⟩]) = velocityBits x hist →
      VelocityInv x (hist ++ [⟨s, e, axStep p s e⟩]) (axStep p s e) := by
    intro hlive hsame
    have hlast : lastLive (hist ++ [⟨s, e, axStep p s e⟩]) = lastLive hist := by
      rw [lastLive_concat, if_neg (by simp [hlive])]
    exact ⟨hbase, hlast ▸ hsame ▸ hI.fresh, hlast ▸ hsame ▸ hI.rest, hlast ▸ hsame ▸ hI.written⟩
  cases e with
  | cmd c xe tick => exact hquiet rfl (by simp [velocityBits_concat, AxEv.hook?])
  | setpoint sp => exact hquiet rfl (by simp [velocityBits_concat, AxEv.hook?])
  | shutdown => exact hquiet rfl (by simp [velocityBits_concat, AxEv.hook?])
  | hook h =>
    cases hbus : h.busLost with
    | true =>
      refine hquiet (by simp [live, hbus]) ?_
      rw [velocityBits_concat, if_pos (by simp [AxEv.hook?])]
      show stored _ ((axisRt p h s.ring s.a).out.raw .tvel) _ = _
      rw [(axisRt_lost s.ring s.a hbus).1]
      rfl
    | false =>
      obtain ⟨hrest, hwritten⟩ := hI.hook hmap p hbus hC
      have hmode : (axStep p s (.hook h)).a.modeReq = s.a.modeReq := by simp [axStep]
      have hlast : lastLive (hist ++ [⟨s, .hook h, axStep p s (.hook h)⟩]) =
          some ⟨s, .hook h, axStep p s (.hook h)⟩ := by
        rw [lastLive_concat, if_pos (by simp [live, hbus])]
      refine ⟨hbase, by simp [hlast], ?_, ?_⟩
      · rw [hlast]
        rintro l ⟨⟩ hl
        exact hrest (hmode ▸ hl)
      · rw [hlast]
        rintro l ⟨⟩ hl
        obtain ⟨v, hv, heq, -⟩ := hwritten (hmode ▸ hl)
        exact ⟨v, hv, heq⟩

/-! ## Every run -/

/-- After a hook with a bus at which axis `i` does not run in CSV or PV, the bits
of its 0x60FF in the image are 0. -/
def VelocityAtRest (i : Nat) (r : Rec Sys Event) : Prop :=
  match r.ev with
  | .hook env =>
      env.busLost = false → (r.post.c.ax i).runsVelocity = false →
        ecmPdoGet (r.post.c.ax i).b.tvel r.post.io = 0
  | _ => True

instance (i : Nat) : DecidablePred (VelocityAtRest i) := fun r => by
  unfold VelocityAtRest
  split <;> infer_instance

/-- **The velocity target.**  In every run in which CSV and PV are left at rest,
0x60FF is 0 in the image after every hook with a bus at which the axis does not
run in CSV or PV. -/
theorem velocity_zero (cfg : Config) (hlaid : cfg.Laid) (evs : List Event)
    (i : Fin cfg.axes.length) (hmap : (cfg.axes.get i).b.tvel.mapped = true)
    (hrest : cfg.AxisAlong evs i LeftAtRest) :
    Along Sys.step cfg.boot evs fun _ r => VelocityAtRest i r := by
  -- the axis by itself
  have haxis : cfg.AxisAlong evs i fun hist r => ∀ h ∈ r.ev.hook?, h.busLost = false →
      r.post.a.runsVelocity = false → velocityBits (cfg.axes.get i) (hist ++ [r]) = 0 := by
    refine Along.of_invariant (I := VelocityInv (cfg.axes.get i)) (velocityInv_init _)
      (fun hist s e hI hC => hI.step hmap _ e hC) ?_ hrest
    intro hist s ev hI hC h hh hbus hidle
    obtain ⟨h', rfl⟩ := exists_hook (Option.isSome_of_mem hh)
    cases (Option.some.inj hh)
    obtain ⟨hzero, hwritten⟩ := hI.hook hmap cfg.boot.c.p hbus hC
    cases hmode : s.a.modeReq.velocity with
    | false => exact hzero hmode
    | true =>
      obtain ⟨v, -, heq, hruns⟩ := hwritten hmode
      have hv : v = 0 := by
        by_contra hne
        simp [hruns hne] at hidle
      rw [heq, hv]
      simp [toU64]
  -- the image holds what the axis wrote last
  intro hist r rest htrace
  obtain ⟨es₁, es₂, rfl, -, hpre, hpost⟩ := trace_split htrace
  obtain ⟨pre, ev, post⟩ := r
  simp only at hpre hpost haxis
  cases ev with
  | hook env =>
    intro hbus hidle
    obtain ⟨hist', q, hq, ⟨io, hev⟩, hax, htr⟩ := haxis.at_hook
    have hrun : post = run Sys.step cfg.boot (es₁ ++ [.hook env]) := by
      rw [hpost, hpre, run_append]
      rfl
    have hread := read_image cfg hlaid (es₁ ++ [.hook env]) i .tvel
    rw [htr, ← hrun] at hread
    rw [← hrun] at hax
    have hbind : (post.c.ax i).b = (cfg.axes.get i).b := by
      rw [hrun]
      exact bind_of_config cfg _ i
    show ecmPdoGet (post.c.ax i).b.tvel post.io = 0
    rw [hbind]
    refine hread.trans (hq _ (by rw [hev]; rfl) hbus ?_)
    rw [hax]
    exact hidle
  | cmd axis op arg0 arg1 seq tick => trivial
  | setpoint axis tick v => trivial
  | shutdown => trivial

/-- `SET_MODE` to CSP while the axis runs in CSV with the velocity 50. -/
def leaveMoving : List Event :=
  [ smallCmd .setMode 9, smallCmd .enable 0, smallHook 6 0x27 1000 9,
    .setpoint 0 8 50, smallHook 7 0x27 1000 9,
    smallCmd .setMode 8, smallHook 8 0x27 1050 9 ]

/-- After `leaveMoving` the axis does not run, and 0x60FF is still 50. -/
theorem velocity_left_behind :
    ¬ Along Sys.step smallConfig.boot leaveMoving fun _ r => VelocityAtRest 0 r := by
  decide

/-- A run that meets the condition: the velocity goes to 0 in an underrun before
the mode is changed. -/
theorem velocity_zero_small :
    Along Sys.step smallConfig.boot
      [ smallCmd .setMode 9, smallCmd .enable 0, smallHook 6 0x27 1000 9,
        .setpoint 0 8 50, smallHook 7 0x27 1000 9, smallHook 8 0x27 1050 9,
        smallCmd .setMode 8, smallHook 9 0x27 1050 9, smallHook 10 0x27 1050 8 ]
      fun _ r => VelocityAtRest 0 r :=
  velocity_zero smallConfig (by decide) _ ⟨0, by decide⟩ (by decide) (by decide)

end EcMaster.Cia402
