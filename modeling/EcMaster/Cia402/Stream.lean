import EcMaster.Cia402.Run

/-!
# The setpoint stream of an axis

What the application pushes with `ecm_cia402_setpoint` and the ring accepts
leaves the ring in order.  A setpoint for tick `T` is used in hook `T - 1`, by
an axis that runs in CSP or CSV, or it is counted as late or dropped.  So at
every point of a run

  accepted = used + late + dropped + still queued.

In an underrun CSP holds the value of the hook before and CSV goes to 0.  The
hold starts with a setpoint that was sent, and lasts while the axis keeps
running in CSP and no `SET_MODE` changes the requested mode: `armed` is cleared
by a mode change even if the mode is changed back in the same hook, and the
next hook then sends the actual position again.  `hold_broken_by_mode_change` is
such a run.
-/

namespace EcMaster.Cia402

open EcMaster.Run EcMaster.Xchg

/-- The setpoint that the step puts into the ring, if the ring has room. -/
def pushedBy (q : AxRec) : List XSp :=
  match q.ev with
  | .setpoint e => if (ecmXringPush q.pre.ring e).2 then [e] else []
  | _ => []

/-- The setpoints that the step takes from the ring. -/
def poppedBy (q : AxRec) : List XSp :=
  match q.ev with
  | .hook _ => q.post.skipped.map Prod.fst ++ q.post.used.toList
  | _ => []

/-- Everything accepted and everything popped so far, in order. -/
def accepted (hist : List AxRec) : List XSp := hist.flatMap pushedBy
def popped (hist : List AxRec) : List XSp := hist.flatMap poppedBy

/-- The ring is what has been accepted and not popped, and every popped setpoint
is counted. -/
structure StreamInv (x : AxisSetup) (hist : List AxRec) (s : AxSt) : Prop where
  base : AxBase x s
  fifo : accepted hist = popped hist ++ s.ring.toList
  counted : s.a.used + s.a.late + s.a.dropped = (popped hist).length

/-! ## One step -/

/-- A skipped setpoint is late or dropped. -/
theorem count_fates (l : List Fate) : l.count .late + l.count .dropped = l.length := by
  induction l with
  | nil => rfl
  | cons f l ih => cases f <;> simp <;> omega

theorem streamInv_init (x : AxisSetup) : StreamInv x [] x.init :=
  ⟨axBase_init x, by simp [accepted, popped, AxisSetup.init], rfl⟩

theorem StreamInv.step {x : AxisSetup} {hist : List AxRec} {s : AxSt}
    (hI : StreamInv x hist s) (p : Params) (e : AxEv) :
    StreamInv x (hist ++ [⟨s, e, axStep p s e⟩]) (axStep p s e) := by
  have hacc : accepted (hist ++ [⟨s, e, axStep p s e⟩]) =
      accepted hist ++ pushedBy ⟨s, e, axStep p s e⟩ := by simp [accepted]
  have hpop : popped (hist ++ [⟨s, e, axStep p s e⟩]) =
      popped hist ++ poppedBy ⟨s, e, axStep p s e⟩ := by simp [popped]
  refine ⟨hI.base.step p e, ?_, ?_⟩
  · rw [hacc, hpop, hI.fifo]
    cases e with
    | cmd c xe tick => simp [pushedBy, poppedBy, axStep]
    | setpoint sp =>
      simp only [pushedBy, poppedBy, axStep, XRing.toList_ecmXringPush hI.base.ring]
      split_ifs <;> simp
    | shutdown => simp [pushedBy, poppedBy, axStep]
    | hook h =>
      simp only [pushedBy, poppedBy, axStep]
      rw [(axisRt_ring p h s.a hI.base.ring).2]
      simp
  · rw [hpop, List.length_append, ← hI.counted]
    cases e with
    | cmd c xe tick =>
      simp [poppedBy, axStep, stream_applyCmd]
    | setpoint sp => simp [poppedBy, axStep]
    | shutdown => simp [poppedBy, axStep]
    | hook h =>
      have hstep := axisRt_ringStep p h s.ring s.a
      have hfates := count_fates ((axisRt p h s.ring s.a).skipped.map Prod.snd)
      rw [List.length_map] at hfates
      simp only [poppedBy, axStep, hstep.used, hstep.late, hstep.dropped, List.length_append,
        List.length_map]
      omega

/-! ## The hold of CSP -/

/-- A hook that sends a setpoint in CSP. -/
def SendsCsp (q : AxRec) : Prop :=
  ranIn q .csp = true ∧ q.post.a.target = .enabled ∧ q.post.used.isSome = true

/-- A step that does not end the run in CSP: a hook in which the axis runs in CSP
and stays enabled, or anything else that does not change the requested mode. -/
def KeepsCsp (q : AxRec) : Prop :=
  match q.ev with
  | .hook _ => ranIn q .csp = true ∧ q.post.a.target = .enabled
  | .cmd .. => q.post.a.modeReq = q.pre.a.modeReq
  | _ => True

/-- A setpoint has been sent since the axis last began to run in CSP. -/
def OnSetpoint (hist : List AxRec) : Prop :=
  Since SendsCsp (fun after => ∀ q ∈ after, KeepsCsp q) hist

/-- An axis that holds is armed, in CSP, and its last setpoint is what the last
hook wrote. -/
structure StretchInv (x : AxisSetup) (hist : List AxRec) (s : AxSt) : Prop where
  base : AxBase x s
  holds : x.b.tpos.mapped = true → OnSetpoint hist →
    s.a.modeReq = .csp ∧ s.a.armed = true ∧
      ∃ q ∈ lastHook hist, q.post.out.tpos = some s.a.lastSp

theorem stretchInv_init (x : AxisSetup) : StretchInv x [] x.init := by
  exact ⟨axBase_init x, fun _ hon => absurd hon (since_nil _ _)⟩

/-- A hook in which the axis runs in CSP and stays enabled, on a setpoint or on
the hold, is armed and remembers what it wrote. -/
theorem armed_after_csp {x : AxisSetup} {p : Params} {s : AxSt} {h : AxHook}
    (hb : AxBase x s) (hmap : x.b.tpos.mapped = true)
    (hran : ranIn ⟨s, .hook h, axStep p s (.hook h)⟩ .csp = true)
    (hon : (axStep p s (.hook h)).used.isSome = true ∨ s.a.armed = true)
    (ht : (axStep p s (.hook h)).a.target = .enabled) :
    (axStep p s (.hook h)).a.armed = true ∧
      (axStep p s (.hook h)).out.tpos = some (axStep p s (.hook h)).a.lastSp := by
  obtain ⟨h', hev, hbus, hrun, hmode⟩ := ranIn_hook hran
  cases hev
  have hmode : s.a.modeReq = .csp := by simpa [axStep] using hmode
  have hmap' : s.a.b.tpos.mapped = true := by rw [hb.cfg]; exact hmap
  obtain ⟨t, htpos, -, hsp, hcase⟩ := axisRt_csp (p := p) s.ring hbus hmode hmap'
  simp only [axStep] at hrun hon ht ⊢
  refine ⟨?_, by rw [htpos, hsp]⟩
  cases hcase with
  | refused e hused hruns hlim hbig hq => simp [hq] at ht
  | sent e hused hruns hsmall hten harmed => exact harmed
  | held hused hruns hwas hten harmed => exact harmed
  | actual hused hidle harmed =>
    rcases hidle with hidle | hidle
    · simp [hidle] at hrun
    · simp [hused, hidle] at hon

theorem StretchInv.step {x : AxisSetup} {hist : List AxRec} {s : AxSt}
    (hI : StretchInv x hist s) (p : Params) (e : AxEv) :
    StretchInv x (hist ++ [⟨s, e, axStep p s e⟩]) (axStep p s e) := by
  refine ⟨hI.base.step p e, fun hmap hon => ?_⟩
  cases e with
  | cmd c xe tick =>
    rcases hon.of_concat with hsend | ⟨hold, hkeep⟩
    · simp [SendsCsp, ranIn, live] at hsend
    · obtain ⟨hmode, harmed, hlast⟩ := hI.holds hmap hold
      have hkeep : (applyCmd s.shutdown xe tick c s.a).modeReq = s.a.modeReq := hkeep
      show (applyCmd s.shutdown xe tick c s.a).modeReq = .csp ∧ _ ∧ _
      refine ⟨hkeep.trans hmode, ?_, ?_⟩
      · simp [axStep, stream_applyCmd, harmed, hkeep]
      · simpa [axStep, stream_applyCmd, AxEv.hook?] using hlast
  | setpoint sp | shutdown =>
    rcases hon.of_concat with hsend | ⟨hold, -⟩
    · simp [SendsCsp, ranIn, live] at hsend
    · simpa [axStep, AxEv.hook?] using hI.holds hmap hold
  | hook h =>
    -- the hook has just sent a setpoint, or the axis was armed by an earlier one
    obtain ⟨hran, ht, harmed⟩ : ranIn ⟨s, .hook h, axStep p s (.hook h)⟩ .csp = true ∧
        (axStep p s (.hook h)).a.target = .enabled ∧
        ((axStep p s (.hook h)).used.isSome = true ∨ s.a.armed = true) := by
      rcases hon.of_concat with ⟨hran, ht, hused⟩ | ⟨hold, hran, ht⟩
      · exact ⟨hran, ht, .inl hused⟩
      · exact ⟨hran, ht, .inr (hI.holds hmap hold).2.1⟩
    obtain ⟨harmed', hout⟩ := armed_after_csp hI.base hmap hran harmed ht
    obtain ⟨-, -, -, -, hmode⟩ := ranIn_hook hran
    exact ⟨hmode, harmed', ⟨s, .hook h, axStep p s (.hook h)⟩, by simp [AxEv.hook?], hout⟩

/-! ## Every run -/

/-- The stream at one step: order and conservation, what a hook uses and what it
skips, and what CSP and CSV send in an underrun. -/
structure StreamStep (x : AxisSetup) (hist : List AxRec) (r : AxRec) : Prop where
  order : accepted (hist ++ [r]) = popped (hist ++ [r]) ++ r.post.ring.toList
  conserved : (accepted (hist ++ [r])).length =
    r.post.a.used + r.post.a.late + r.post.a.dropped + r.post.ring.toList.length
  used : ∀ h, r.ev = .hook h → ∀ e ∈ r.post.used,
    e.tick = u64 (h.tick + 1) ∧ h.busLost = false ∧ r.post.a.running = true ∧
      r.post.a.modeReq.cyclic = true
  skipped : ∀ h, r.ev = .hook h → ∀ q ∈ r.post.skipped,
    (q.2 = .late ∧ q.1.tick < u64 (h.tick + 1)) ∨
      (q.2 = .dropped ∧ q.1.tick = u64 (h.tick + 1) ∧
        ¬ (h.busLost = false ∧ r.post.a.running = true ∧ r.post.a.modeReq.cyclic = true))
  bound : ∀ h, r.ev = .hook h → r.post.skipped.length ≤ 16
  held : x.b.tpos.mapped = true → OnSetpoint hist → ranIn r .csp = true →
    r.post.used = none → ∃ q ∈ lastHook hist, r.post.out.tpos = q.post.out.tpos
  stopped : x.b.tvel.mapped = true → ranIn r .csv = true → r.post.used = none →
    r.post.out.tvel = some 0

/-- **The setpoint stream.**  Accepted setpoints leave the ring in the order of
the pushes, and accepted = used + late + dropped + queued at every point.  A
setpoint is used for the next tick only, by an axis that runs in CSP or CSV
with a bus, and a hook skips at most 16.  In an underrun CSP repeats the value
of the hook before, once a setpoint has been sent, and CSV sends 0. -/
theorem setpoint_stream (cfg : Config) (evs : List Event) (i : Fin cfg.axes.length) :
    cfg.AxisAlong evs i (StreamStep (cfg.axes.get i)) := by
  refine Along.of_invariant'
    (I := fun hist s => StreamInv (cfg.axes.get i) hist s ∧ StretchInv (cfg.axes.get i) hist s)
    ⟨streamInv_init _, stretchInv_init _⟩
    (fun hist s e hI => ⟨hI.1.step _ e, hI.2.step _ e⟩) ?_ _
  rintro hist s ev ⟨hI, hS⟩
  have hpost := hI.step cfg.boot.c.p ev
  refine ⟨hpost.fifo, ?_, ?_, ?_, ?_, ?_, ?_⟩
  · show _ = (axStep _ s ev).a.used + (axStep _ s ev).a.late + (axStep _ s ev).a.dropped + _
    rw [hpost.counted, hpost.fifo, List.length_append]
  · rintro h rfl e hused
    obtain ⟨hbus, htick, hrun, hcyc⟩ := axisRt_used hused
    exact ⟨htick, hbus, hrun, by simpa [axStep] using hcyc⟩
  · rintro h rfl q hq
    refine ((axisRt_ringStep _ h s.ring s.a).skipped_why q hq).imp_right ?_
    rintro ⟨hfate, htick, hidle⟩
    refine ⟨hfate, htick, ?_⟩
    rintro ⟨hbus, hrun, hcyc⟩
    have hrun : (axisRt cfg.boot.c.p h s.ring s.a).a.running = true := hrun
    rw [axisRt_running s.ring s.a hbus] at hrun
    simp [axStep] at hcyc
    simp [hrun, hcyc] at hidle
  · rintro h rfl
    exact (axisRt_ringStep _ h s.ring s.a).bound
  · intro hmap hon hran hused
    obtain ⟨hmode, harmed, q, hq, hout⟩ := hS.holds hmap hon
    obtain ⟨h, rfl, hbus, hrun, -⟩ := ranIn_hook hran
    have hmap' : s.a.b.tpos.mapped = true := by rw [hS.base.cfg]; exact hmap
    obtain ⟨t, htpos, -, -, hcase⟩ := axisRt_csp (p := cfg.boot.c.p) s.ring hbus hmode hmap'
    have hused : (axisRt cfg.boot.c.p h s.ring s.a).used = none := hused
    have hrun : (axisRt cfg.boot.c.p h s.ring s.a).a.running = true := hrun
    refine ⟨q, hq, ?_⟩
    show (axisRt cfg.boot.c.p h s.ring s.a).out.tpos = _
    rw [htpos, hout]
    cases hcase with
    | refused e hu => simp [hu] at hused
    | sent e hu => simp [hu] at hused
    | held => rfl
    | actual hu hidle => simp [hrun, harmed] at hidle
  · intro hmap hran hused
    obtain ⟨h, rfl, hbus, -, hmode⟩ := ranIn_hook hran
    have hmap' : s.a.b.tvel.mapped = true := by rw [hS.base.cfg]; exact hmap
    exact axisRt_csv_idle s.ring hbus (by simpa [axStep] using hmode) hmap' hused

/-! ## The hold and a mode change -/

/-- A hook in which the axis runs in CSP and stays enabled. -/
def StaysInCsp (q : AxRec) : Prop :=
  q.ev.hook?.isSome = true → ranIn q .csp = true ∧ q.post.a.target = .enabled

/-- The hold for as long as every hook runs in CSP, whatever the commands between
the hooks are. -/
def HeldWhileRunning (hist : List AxRec) (r : AxRec) : Prop :=
  Since SendsCsp (fun after => ∀ q ∈ after, StaysInCsp q) hist → ranIn r .csp = true →
    r.post.used = none → ∃ q ∈ lastHook hist, r.post.out.tpos = q.post.out.tpos

instance : DecidablePred SendsCsp := fun q => by unfold SendsCsp; infer_instance

instance : DecidablePred StaysInCsp := fun q => by unfold StaysInCsp; infer_instance

instance (hist : List AxRec) (r : AxRec) : Decidable (HeldWhileRunning hist r) := by
  unfold HeldWhileRunning
  infer_instance

/-- `SET_MODE` to CSV and back to CSP before the same hook, in an underrun. -/
def modeBack : List Event :=
  [ smallCmd .enable 0, smallHook 6 0x27 1000 8,
    .setpoint 0 8 1050, smallHook 7 0x27 1000 8,
    smallCmd .setMode 9, smallCmd .setMode 8, smallHook 8 0x27 1020 8 ]

/-- In `modeBack` the axis runs in CSP at every hook, and the actual position 1020
is sent after 1050. -/
theorem hold_broken_by_mode_change :
    ¬ smallConfig.AxisAlong modeBack ⟨0, by decide⟩ HeldWhileRunning := by
  decide

end EcMaster.Cia402
