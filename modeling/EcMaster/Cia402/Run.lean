import EcMaster.Cia402.Hook
import EcMaster.Lib.Run

/-!
# Runs of the hook, and what one axis sees of them

A run of the CiA402 layer is a list of events on the layer and its process
image: a hook, a push of the application, or the shutdown call.  Between two
hooks the outputs in the image stay as they are, and the inputs are replaced by
the next frame.

Most properties are about one axis.  `AxSt` is what a run keeps for one axis,
`axStep` what an event does to it, and `axisEvs` the events of a run as one
axis sees them: the commands applied to it, the setpoints pushed to it, the
shutdown, and its turn in every hook.  `sees_run` connects the two levels: the
axis of the layer after a run is the axis after its own events.

`Config` is a set-up of the layer, and `Config.AxisAlong` states a property of
every step of one axis in a run from that set-up.
-/

namespace EcMaster.Cia402

open EcMaster.ByteImage EcMaster.Pdo EcMaster.Xchg EcMaster.Run

/-! ## The layer and its process image -/

/-- The layer and the IOmap of its group, whose first `obytes` bytes are the
outputs. -/
structure Sys where
  obytes : Nat
  c : EcmCia402
  io : Image

/-- What can happen to the layer. -/
inductive Event where
  | hook (env : HookEnv)
  | cmd (axis : Int) (op : Op) (arg0 arg1 : Int) (seq tick : Nat)
  | setpoint (axis : Int) (tick : Nat) (v : Int)
  | shutdown

/-- The image at the start of a hook: the outputs as they were left, the inputs
of the last frame. -/
def freshImage (obytes : Nat) (io inputs : Image) : Image :=
  fun n => if n < obytes then io n else inputs n

/-- One event. -/
def Sys.step (s : Sys) : Event → Sys
  | .hook env =>
      let r := ecmCia402Rt env s.c (freshImage s.obytes s.io env.inputs)
      { s with c := r.1, io := r.2 }
  | .cmd axis op arg0 arg1 seq tick =>
      { s with c := (ecmCia402Cmd2 s.c axis op arg0 arg1 seq tick).1 }
  | .setpoint axis tick v => { s with c := (ecmCia402Setpoint s.c axis tick v).1 }
  | .shutdown => { s with c := ecmCia402Shutdown s.c }

/-! ## One axis -/

/-- What can happen to one axis.  `cmd` carries the external error and the tick
that `apply_cmd` reads. -/
inductive AxEv where
  | cmd (x : XCmd) (xe : AxErr) (tick : Nat)
  | setpoint (e : XSp)
  | shutdown
  | hook (h : AxHook)

/-- One axis of a run: its record, its setpoint ring, the shutdown flag, and what
its last turn wrote and took from the ring. -/
structure AxSt where
  a : Axis
  ring : XRing XSp
  shutdown : Bool
  out : Outputs
  skipped : List (XSp × Fate)
  used : Option XSp

/-- What an event does to one axis. -/
def axStep (p : Params) (s : AxSt) : AxEv → AxSt
  | .cmd x xe tick => { s with a := applyCmd s.shutdown xe tick x s.a }
  | .setpoint e => { s with ring := (ecmXringPush s.ring e).1 }
  | .shutdown => { s with a := { s.a with target := .disabled }, shutdown := true }
  | .hook h =>
      let o := axisRt p h s.ring s.a
      { a := o.a, ring := o.ring, shutdown := s.shutdown, out := o.out
        skipped := o.skipped, used := o.used }

/-- A step of one axis, with the state on both sides. -/
abbrev AxRec := Rec AxSt AxEv

/-- The commands of a hook that are for axis `i`, as its events. -/
def cmdEvents (i tick : Nat) (applied : List (XCmd × AxErr)) : List AxEv :=
  (applied.filter fun q => q.1.target = i).map fun q => .cmd q.1 q.2 tick

/-- The call of `axis_rt` that the event is, if it is one. -/
def AxEv.hook? : AxEv → Option AxHook
  | .hook h => some h
  | _ => none

/-- A hook with a bus. -/
def live (q : AxRec) : Bool :=
  match q.ev with
  | .hook h => !h.busLost
  | _ => false

/-- The axis ran in mode `m` at this hook. -/
def ranIn (q : AxRec) (m : OpMode) : Bool :=
  live q && q.post.a.running && q.post.a.modeReq = m

/-- The last hook of a history. -/
def lastHook (hist : List AxRec) : Option AxRec :=
  hist.reverse.find? fun q => q.ev.hook?.isSome

/-- The last hook with a bus. -/
def lastLive (hist : List AxRec) : Option AxRec := hist.reverse.find? live

/-- The value most recently written to 0x607A. -/
def lastTpos (hist : List AxRec) : Option Int :=
  hist.reverse.findSome? fun q => if q.ev.hook?.isSome then q.post.out.tpos else none

/-- What axis `i` sees of one event. -/
def axisEvents (i : Nat) (s : Sys) : Event → List AxEv
  | .hook env =>
      let r := cmdLoop env xchgCmdPerTick s.c
      let io := freshImage s.obytes s.io env.inputs
      cmdEvents i env.tick r.2 ++ [.hook (env.axHook i (axesLoop env i (r.1, io)).2)]
  | .cmd .. => []
  | .setpoint axis tick v =>
      if axis = i then [.setpoint { tick := tick, v := v }] else []
  | .shutdown => [.shutdown]

/-- What axis `i` sees of a run. -/
def axisEvs (i : Nat) : Sys → List Event → List AxEv
  | _, [] => []
  | s, e :: es => axisEvents i s e ++ axisEvs i (s.step e) es

/-! ## Set-up -/

/-- One configured axis: its modes, its process data and its step limits. -/
structure AxisSetup where
  modes : Nat
  b : Bind
  maxPos : Int
  maxVel : Int
deriving DecidableEq, Repr

/-- A set-up of the layer. -/
structure Config where
  cycleNs : Nat
  stepTimeoutMs : Nat
  homeTimeoutMs : Nat
  obytes : Nat
  axes : List AxisSetup
  few : axes.length ≤ axisMax

/-- `ecm_cia402_add_axis` and `ecm_cia402_set_step_limit` for one axis. -/
def addSetup (c : EcmCia402) (x : AxisSetup) : EcmCia402 :=
  match ecmCia402AddAxis c x.modes x.b with
  | none => c
  | some c' => ecmCia402SetStepLimit c' c.naxes x.maxPos x.maxVel

/-- The layer after its set-up, with an image of zeros. -/
def Config.boot (cfg : Config) : Sys :=
  { obytes := cfg.obytes
    c := cfg.axes.foldl addSetup
      (ecmCia402SetHomeTimeout (ecmCia402Init cfg.cycleNs cfg.stepTimeoutMs)
        cfg.homeTimeoutMs)
    io := fun _ => 0 }

/-- The record of an axis after its set-up. -/
def AxisSetup.start (x : AxisSetup) : Axis :=
  { Axis.zero with
    modes := x.modes
    b := x.b
    modeReq := firstMode x.modes
    maxStepPos := if x.maxPos > 0 then x.maxPos else 0
    maxStepVel := if x.maxVel > 0 then x.maxVel else 0 }

/-- One axis before the first event. -/
def AxisSetup.init (x : AxisSetup) : AxSt :=
  { a := x.start
    ring := ecmXringInit { tick := 0, v := 0 } xringCap
    shutdown := false
    out := .silent
    skipped := []
    used := none }

/-- `P` holds at every step of axis `i` in the run `evs` from the set-up. -/
def Config.AxisAlong (cfg : Config) (evs : List Event) (i : Fin cfg.axes.length)
    (P : List AxRec → AxRec → Prop) : Prop :=
  Along (axStep cfg.boot.c.p) (cfg.axes.get i).init (axisEvs i cfg.boot evs) P

/-! ## The axis of the layer is the axis of its own events -/

/-- `t` is axis `i` of the layer. -/
structure Sees (c : EcmCia402) (i : Nat) (t : AxSt) : Prop where
  axis : t.a = c.ax i
  ring : t.ring = c.sp i
  shutdown : t.shutdown = c.shutdown

/-- Axis `i` of the layer, before its next turn. -/
def EcmCia402.axis (c : EcmCia402) (i : Nat) : AxSt :=
  { a := c.ax i, ring := c.sp i, shutdown := c.shutdown, out := .silent
    skipped := [], used := none }

theorem sees_axis (c : EcmCia402) (i : Nat) : Sees c i (c.axis i) := ⟨rfl, rfl, rfl⟩

/-- What the command loop keeps. -/
theorem applyTo_frame (c : EcmCia402) (tick : Nat) (xe : AxErr) (x : XCmd) :
    (applyTo c tick xe x).p = c.p ∧ (applyTo c tick xe x).naxes = c.naxes ∧
      (applyTo c tick xe x).sp = c.sp ∧ (applyTo c tick xe x).shutdown = c.shutdown := by
  unfold applyTo
  split_ifs <;> exact ⟨rfl, rfl, rfl, rfl⟩

/-- A command changes its own axis only. -/
theorem applyTo_ax (c : EcmCia402) (tick : Nat) (xe : AxErr) (x : XCmd) {i : Nat}
    (hi : i < c.naxes) :
    (applyTo c tick xe x).ax i =
      if x.target = i then applyCmd c.shutdown xe tick x (c.ax i) else c.ax i := by
  unfold applyTo
  by_cases htarget : x.target = i
  · subst htarget
    rw [if_pos hi, if_pos rfl]
    exact Function.update_self _ _ _
  · rw [if_neg htarget]
    by_cases hlt : x.target < c.naxes
    · rw [if_pos hlt]
      exact Function.update_of_ne (Ne.symm htarget) _ _
    · rw [if_neg hlt]

/-- One command, seen by axis `i`. -/
theorem sees_applyTo {c : EcmCia402} {i : Nat} {t : AxSt} (hi : i < c.naxes)
    (hs : Sees c i t) (tick : Nat) (xe : AxErr) (x : XCmd) (p : Params) :
    Sees (applyTo c tick xe x) i (run (axStep p) t (cmdEvents i tick [(x, xe)])) := by
  obtain ⟨-, -, hsp, hsd⟩ := applyTo_frame c tick xe x
  have hax := applyTo_ax c tick xe x hi
  by_cases htarget : x.target = i
  · have hone : cmdEvents i tick [(x, xe)] = [.cmd x xe tick] := by
      simp [cmdEvents, htarget]
    rw [if_pos htarget] at hax
    rw [hone]
    exact ⟨by simp [axStep, hax, hs.axis, hs.shutdown], by simp [axStep, hsp, hs.ring],
      by simp [axStep, hsd, hs.shutdown]⟩
  · have hnone : cmdEvents i tick [(x, xe)] = [] := by simp [cmdEvents, htarget]
    rw [if_neg htarget] at hax
    rw [hnone]
    exact ⟨hs.axis.trans hax.symm, hs.ring.trans (congrFun hsp i).symm,
      hs.shutdown.trans hsd.symm⟩

theorem cmdEvents_cons (i tick : Nat) (q : XCmd × AxErr) (l : List (XCmd × AxErr)) :
    cmdEvents i tick (q :: l) = cmdEvents i tick [q] ++ cmdEvents i tick l := by
  unfold cmdEvents
  by_cases hq : q.1.target = i <;> simp [hq]

/-- The command loop, seen by axis `i`. -/
theorem sees_cmdLoop (env : HookEnv) (p : Params) {i : Nat} :
    ∀ (budget : Nat) (c : EcmCia402) (t : AxSt), i < c.naxes → Sees c i t →
      (cmdLoop env budget c).1.p = c.p ∧ (cmdLoop env budget c).1.naxes = c.naxes ∧
      Sees (cmdLoop env budget c).1 i
        (run (axStep p) t (cmdEvents i env.tick (cmdLoop env budget c).2)) := by
  have hstop : ∀ (c : EcmCia402) (t : AxSt), Sees c i t →
      Sees c i (run (axStep p) t (cmdEvents i env.tick [])) := fun c t hs => hs
  intro budget
  induction budget with
  | zero =>
    intro c t hi hs
    unfold cmdLoop
    split
    · exact ⟨rfl, rfl, hstop c t hs⟩
    · split_ifs
      · exact ⟨rfl, rfl, hstop c t hs⟩
      · exact ⟨rfl, rfl, hs.axis, hs.ring, hs.shutdown⟩
  | succ n ih =>
    intro c t hi hs
    unfold cmdLoop
    split
    · exact ⟨rfl, rfl, hstop c t hs⟩
    · rename_i x hpeek
      split_ifs
      · exact ⟨rfl, rfl, hstop c t hs⟩
      · obtain ⟨hp, hn, -, -⟩ := applyTo_frame c env.tick (env.xeCmd n) x
        have hone := sees_applyTo hi hs env.tick (env.xeCmd n) x p
        obtain ⟨hp', hn', hrest⟩ := ih
          { applyTo c env.tick (env.xeCmd n) x with
            cmdApplied := (applyTo c env.tick (env.xeCmd n) x).cmdApplied + 1
            cmd := ecmXringPop (applyTo c env.tick (env.xeCmd n) x).cmd }
          _ (hn ▸ hi) ⟨hone.axis, hone.ring, hone.shutdown⟩
        refine ⟨hp'.trans hp, hn'.trans hn, ?_⟩
        dsimp only
        rw [cmdEvents_cons, run_append]
        exact hrest

/-- The turns of the first `n` axes: each axis has had its own turn, at the image
the axes before it have left. -/
theorem axesLoop_spec (env : HookEnv) (c : EcmCia402) (io : Image) (n : Nat) :
    (axesLoop env n (c, io)).1.p = c.p ∧
      (axesLoop env n (c, io)).1.naxes = c.naxes ∧
      (axesLoop env n (c, io)).1.shutdown = c.shutdown ∧
      ∀ i,
        (axesLoop env n (c, io)).1.ax i =
          (if i < n then
            (axisRt c.p (env.axHook i (axesLoop env i (c, io)).2) (c.sp i) (c.ax i)).a
          else c.ax i) ∧
        (axesLoop env n (c, io)).1.sp i =
          (if i < n then
            (axisRt c.p (env.axHook i (axesLoop env i (c, io)).2) (c.sp i) (c.ax i)).ring
          else c.sp i) := by
  induction n with
  | zero => simp [axesLoop]
  | succ n ih =>
    obtain ⟨hp, hnaxes, hsd, hall⟩ := ih
    have hstep : axesLoop env (n + 1) (c, io) = axisTurn env (axesLoop env n (c, io)) n := by
      simp [axesLoop, List.range_succ]
    obtain ⟨hax, hsp⟩ := hall n
    rw [if_neg (by omega)] at hax hsp
    rw [hstep]
    refine ⟨hp, hnaxes, hsd, fun i => ?_⟩
    unfold axisTurn
    dsimp only
    rw [hp, hax, hsp]
    by_cases hin : i = n
    · subst hin
      simp
    · rw [Function.update_of_ne hin, Function.update_of_ne hin, (hall i).1, (hall i).2]
      have hiff : i < n + 1 ↔ i < n := by omega
      simp [hiff]

/-- The turns of all axes, seen by axis `i`. -/
theorem sees_axes {c : EcmCia402} {i : Nat} {t : AxSt} (hi : i < c.naxes) (hs : Sees c i t)
    (env : HookEnv) (io : Image) :
    Sees (axesLoop env c.naxes (c, io)).1 i
      (axStep c.p t (.hook (env.axHook i (axesLoop env i (c, io)).2))) := by
  obtain ⟨-, -, hsd, hall⟩ := axesLoop_spec env c io c.naxes
  obtain ⟨hax, hsp⟩ := hall i
  rw [if_pos hi] at hax hsp
  refine ⟨?_, ?_, ?_⟩
  · rw [hax, ← hs.ring, ← hs.axis]
    rfl
  · rw [hsp, ← hs.ring, ← hs.axis]
    rfl
  · rw [hsd]
    exact hs.shutdown

/-- One event, seen by axis `i`. -/
theorem sees_step {s : Sys} {i : Nat} {t : AxSt} (hi : i < s.c.naxes) (hs : Sees s.c i t)
    (e : Event) :
    (s.step e).c.p = s.c.p ∧ (s.step e).c.naxes = s.c.naxes ∧
      Sees (s.step e).c i (run (axStep s.c.p) t (axisEvents i s e)) := by
  cases e with
  | hook env =>
    obtain ⟨hp, hn, hcmd⟩ := sees_cmdLoop env s.c.p xchgCmdPerTick s.c t hi hs
    have haxes := sees_axes (hn ▸ hi) hcmd env (freshImage s.obytes s.io env.inputs)
    obtain ⟨hp', hn', -, -⟩ := axesLoop_spec env (cmdLoop env xchgCmdPerTick s.c).1
      (freshImage s.obytes s.io env.inputs) (cmdLoop env xchgCmdPerTick s.c).1.naxes
    refine ⟨hp'.trans hp, hn'.trans hn, ?_⟩
    rw [axisEvents, run_append, run_cons, run_nil]
    rw [hp] at haxes
    exact ⟨haxes.axis, haxes.ring, haxes.shutdown⟩
  | cmd axis op arg0 arg1 seq tick =>
    simp only [Sys.step, ecmCia402Cmd2, axisEvents, run_nil]
    split_ifs <;> exact ⟨rfl, rfl, hs.axis, hs.ring, hs.shutdown⟩
  | setpoint axis tick v =>
    simp only [Sys.step, ecmCia402Setpoint, axisEvents]
    by_cases haxis : axis = i
    · subst haxis
      rw [if_neg (by omega), if_pos rfl]
      refine ⟨rfl, rfl, hs.axis, ?_, hs.shutdown⟩
      simp [axStep, hs.ring]
    · rw [if_neg haxis]
      split_ifs with hbad
      · exact ⟨rfl, rfl, hs.axis, hs.ring, hs.shutdown⟩
      · have hne : i ≠ axis.toNat := by omega
        refine ⟨rfl, rfl, hs.axis, ?_, hs.shutdown⟩
        exact hs.ring.trans (Function.update_of_ne hne _ _).symm
  | shutdown =>
    refine ⟨rfl, rfl, ?_, hs.ring, rfl⟩
    simp [Sys.step, ecmCia402Shutdown, axisEvents, axStep, hi, hs.axis]

/-- The axis of the layer after a run is the axis after its own events. -/
theorem sees_run {s : Sys} {i : Nat} {t : AxSt} (hi : i < s.c.naxes) (hs : Sees s.c i t)
    (es : List Event) :
    Sees (run Sys.step s es).c i (run (axStep s.c.p) t (axisEvs i s es)) := by
  induction es generalizing s t with
  | nil => exact hs
  | cons e es ih =>
    obtain ⟨hp, hn, hstep⟩ := sees_step hi hs e
    rw [axisEvs, run_append, run_cons, ← hp]
    rw [← hp] at hstep
    exact ih (hn ▸ hi) hstep

/-! ## The set-up -/

/-- One more axis. -/
theorem addSetup_spec {c : EcmCia402} (x : AxisSetup) (hfew : c.naxes < axisMax) :
    (addSetup c x).p = c.p ∧ (addSetup c x).naxes = c.naxes + 1 ∧
      (addSetup c x).sp = c.sp ∧ (addSetup c x).shutdown = c.shutdown ∧
      ∀ j, (addSetup c x).ax j = if j = c.naxes then x.start else c.ax j := by
  have hadd : ecmCia402AddAxis c x.modes x.b =
      some { c with
        ax := Function.update c.ax c.naxes
          { Axis.zero with modes := x.modes, b := x.b, modeReq := firstMode x.modes }
        naxes := c.naxes + 1 } := by
    simp [ecmCia402AddAxis, Nat.not_le.2 hfew]
  unfold addSetup
  rw [hadd]
  simp only [ecmCia402SetStepLimit]
  rw [if_neg (by push_cast; omega)]
  refine ⟨rfl, rfl, rfl, rfl, fun j => ?_⟩
  simp only [Int.toNat_natCast, Function.update_self]
  by_cases hj : j = c.naxes
  · subst hj
    simp [AxisSetup.start]
  · simp [hj]

/-- The set-up adds its axes in order. -/
theorem foldl_addSetup (xs : List AxisSetup) :
    ∀ {c : EcmCia402}, c.naxes + xs.length ≤ axisMax →
      (xs.foldl addSetup c).naxes = c.naxes + xs.length ∧
      (xs.foldl addSetup c).sp = c.sp ∧ (xs.foldl addSetup c).shutdown = c.shutdown ∧
      (∀ j, j < c.naxes → (xs.foldl addSetup c).ax j = c.ax j) ∧
      ∀ (j : Nat) (hj : j < xs.length),
        (xs.foldl addSetup c).ax (c.naxes + j) = (xs.get ⟨j, hj⟩).start := by
  induction xs with
  | nil => intro c _; simp
  | cons x xs ih =>
    intro c hfew
    simp only [List.length_cons] at hfew
    obtain ⟨-, hn, hsp, hsd, hax⟩ := addSetup_spec x (c := c) (by omega)
    obtain ⟨hn', hsp', hsd', hold, hnew⟩ := ih (c := addSetup c x) (by omega)
    simp only [List.foldl_cons, List.length_cons]
    refine ⟨by omega, hsp'.trans hsp, hsd'.trans hsd, fun j hj => ?_, fun j hj => ?_⟩
    · rw [hold j (by omega), hax j, if_neg (by omega)]
    · cases j with
      | zero => rw [Nat.add_zero, hold _ (by omega), hax, if_pos rfl]; rfl
      | succ j =>
        have hidx : c.naxes + (j + 1) = (addSetup c x).naxes + j := by omega
        rw [hidx, hnew j (by omega)]
        rfl

/-- Axis `i` after the set-up. -/
theorem sees_boot (cfg : Config) (i : Fin cfg.axes.length) :
    i.1 < cfg.boot.c.naxes ∧ Sees cfg.boot.c i (cfg.axes.get i).init := by
  obtain ⟨hn, hsp, hsd, -, hnew⟩ := foldl_addSetup cfg.axes
    (c := ecmCia402SetHomeTimeout (ecmCia402Init cfg.cycleNs cfg.stepTimeoutMs)
      cfg.homeTimeoutMs) (by simpa [ecmCia402SetHomeTimeout, ecmCia402Init] using cfg.few)
  have hzero : (ecmCia402SetHomeTimeout (ecmCia402Init cfg.cycleNs cfg.stepTimeoutMs)
      cfg.homeTimeoutMs).naxes = 0 := rfl
  refine ⟨?_, ?_, ?_, ?_⟩
  · rw [Config.boot, hn, hzero, Nat.zero_add]
    exact i.2
  · have hax := hnew i.1 i.2
    rw [hzero, Nat.zero_add] at hax
    exact hax.symm
  · exact (congrFun hsp i.1).symm
  · exact hsd.symm

/-- Every axis of a run from a set-up is the axis after its own events. -/
theorem sees_of_config (cfg : Config) (evs : List Event) (i : Fin cfg.axes.length) :
    Sees (run Sys.step cfg.boot evs).c i
      (run (axStep cfg.boot.c.p) (cfg.axes.get i).init (axisEvs i cfg.boot evs)) :=
  sees_run (sees_boot cfg i).1 (sees_boot cfg i).2 evs

theorem axisEvs_append (i : Nat) (s : Sys) (es es' : List Event) :
    axisEvs i s (es ++ es') = axisEvs i s es ++ axisEvs i (run Sys.step s es) es' := by
  induction es generalizing s with
  | nil => rfl
  | cons e es ih => rw [List.cons_append, axisEvs, ih, axisEvs, run_cons, List.append_assoc]

/-- A property of every step of an axis, at one hook of the run: the step is the
last one of the events up to this hook, and its axis is that of the layer. -/
theorem Config.AxisAlong.at_hook {cfg : Config} {i : Fin cfg.axes.length}
    {P : List AxRec → AxRec → Prop} {es es' : List Event} {env : HookEnv}
    (hP : cfg.AxisAlong (es ++ .hook env :: es') i P) :
    ∃ hist r, P hist r ∧ (∃ io, r.ev = .hook (env.axHook i io)) ∧
      r.post.a = (run Sys.step cfg.boot (es ++ [.hook env])).c.ax i ∧
      trace (axStep cfg.boot.c.p) (cfg.axes.get i).init
        (axisEvs i cfg.boot (es ++ [.hook env])) = hist ++ [r] := by
  have hsees := sees_of_config cfg (es ++ [.hook env]) i
  obtain ⟨pre, io, hlast⟩ : ∃ pre io, axisEvs i cfg.boot (es ++ [.hook env]) =
      pre ++ [.hook (env.axHook i io)] := by
    rw [axisEvs_append, axisEvs, axisEvs, List.append_nil, axisEvents, ← List.append_assoc]
    exact ⟨_, _, rfl⟩
  have hall : axisEvs i cfg.boot (es ++ .hook env :: es') =
      pre ++ .hook (env.axHook i io) ::
        axisEvs i (run Sys.step cfg.boot (es ++ [.hook env])) es' := by
    rw [← List.singleton_append, ← List.append_assoc, axisEvs_append, hlast, List.append_assoc,
      List.singleton_append]
  rw [Config.AxisAlong, hall] at hP
  rw [hlast, run_append _ pre] at hsees
  refine ⟨_, _, hP.at, ⟨io, rfl⟩, hsees.axis, ?_⟩
  rw [hlast, trace_append]
  rfl

instance (cfg : Config) (evs : List Event) (i : Fin cfg.axes.length)
    (P : List AxRec → AxRec → Prop) [∀ hist r, Decidable (P hist r)] :
    Decidable (cfg.AxisAlong evs i P) :=
  inferInstanceAs (Decidable (Along _ _ _ _))

/-! ## Histories -/

theorem exists_hook {ev : AxEv} (hsome : ev.hook?.isSome = true) : ∃ h, ev = .hook h := by
  cases ev with
  | hook h => exact ⟨h, rfl⟩
  | _ => simp [AxEv.hook?] at hsome

/-- A hook in which the axis ran has a bus. -/
theorem ranIn_hook {q : AxRec} {m : OpMode} (hran : ranIn q m = true) :
    ∃ h, q.ev = .hook h ∧ h.busLost = false ∧ q.post.a.running = true ∧
      q.post.a.modeReq = m := by
  obtain ⟨pre, ev, post⟩ := q
  cases ev with
  | hook h => simpa [ranIn, live, and_assoc] using hran
  | cmd c xe tick => simp [ranIn, live] at hran
  | setpoint e => simp [ranIn, live] at hran
  | shutdown => simp [ranIn, live] at hran

@[simp] theorem lastHook_concat (hist : List AxRec) (r : AxRec) :
    lastHook (hist ++ [r]) = if r.ev.hook?.isSome then some r else lastHook hist := by
  unfold lastHook
  rw [List.reverse_append, List.reverse_singleton, List.singleton_append, List.find?_cons]
  cases r.ev.hook?.isSome <;> rfl

theorem lastLive_concat (hist : List AxRec) (r : AxRec) :
    lastLive (hist ++ [r]) = if live r then some r else lastLive hist := by
  unfold lastLive
  rw [List.reverse_append, List.reverse_singleton, List.singleton_append, List.find?_cons]
  cases live r <;> rfl

theorem lastTpos_concat (hist : List AxRec) (r : AxRec) :
    lastTpos (hist ++ [r]) =
      if r.ev.hook?.isSome then r.post.out.tpos.or (lastTpos hist) else lastTpos hist := by
  unfold lastTpos
  rw [List.reverse_append, List.reverse_singleton, List.singleton_append, List.findSome?_cons]
  cases r.ev.hook?.isSome <;> cases r.post.out.tpos <;> rfl

/-! ## What every state of an axis has -/

theorem axStep_cfg (p : Params) (s : AxSt) (e : AxEv) :
    (axStep p s e).a.toAxisCfg = s.a.toAxisCfg := by
  cases e <;> simp [axStep]

theorem run_axStep_cfg (p : Params) (s : AxSt) (es : List AxEv) :
    (run (axStep p) s es).a.toAxisCfg = s.a.toAxisCfg := by
  induction es generalizing s with
  | nil => rfl
  | cons e es ih => rw [run_cons, ih, axStep_cfg]

/-- The configuration is the one of the set-up and the setpoint ring is well
formed. -/
structure AxBase (x : AxisSetup) (s : AxSt) : Prop where
  cfg : s.a.toAxisCfg = x.start.toAxisCfg
  ring : s.ring.WF

theorem axBase_init (x : AxisSetup) : AxBase x x.init :=
  ⟨rfl, XRing.wf_ecmXringInit _ (.inl rfl)⟩

theorem AxBase.step {x : AxisSetup} {s : AxSt} (hb : AxBase x s) (p : Params) (e : AxEv) :
    AxBase x (axStep p s e) := by
  refine ⟨(axStep_cfg p s e).trans hb.cfg, ?_⟩
  cases e with
  | cmd c xe tick => exact hb.ring
  | setpoint sp => exact XRing.wf_ecmXringPush hb.ring sp
  | shutdown => exact hb.ring
  | hook h => exact (axisRt_ring p h s.a hb.ring).1

/-! ## A small set-up

One axis with CSP, CSV, PP, PV and HM, in an image of twelve output bytes and
eight input bytes.  The counterexamples of the other modules are runs of it. -/

def smallBind : Bind :=
  { cw := ⟨0, 16⟩, tpos := ⟨16, 32⟩, tvel := ⟨48, 32⟩, mode := ⟨80, 8⟩
    sw := ⟨96, 16⟩, apos := ⟨112, 32⟩, avel := .absent, modeDisp := ⟨144, 8⟩, err := .absent }

def smallConfig : Config :=
  { cycleNs := 1000000, stepTimeoutMs := 500, homeTimeoutMs := 30, obytes := 12
    axes :=
      [{ modes := modeCsp ||| modeCsv ||| modePp ||| modePv ||| modeHm
         b := smallBind, maxPos := 100, maxVel := 0 }]
    few := by decide }

/-- Inputs with a statusword, an actual position and a displayed mode. -/
def smallInputs (sw : Nat) (apos mode : Int) : Image :=
  ecmPdoSet smallBind.sw
    (ecmPdoSet smallBind.apos (ecmPdoSet smallBind.modeDisp (fun _ => 0) (toU64 mode)) (toU64 apos))
    sw

/-- A hook with valid inputs. -/
def smallHook (tick sw : Nat) (apos mode : Int) : Event :=
  .hook
    { tick := tick, tSendNs := 0, inValid := true, busLost := false
      inputs := smallInputs sw apos mode, xeCmd := fun _ => .none, xeRt := fun _ => .none }

/-- A hook without a bus. -/
def smallLost (tick : Nat) : Event :=
  .hook
    { tick := tick, tSendNs := 0, inValid := false, busLost := true
      inputs := fun _ => 0, xeCmd := fun _ => .none, xeRt := fun _ => .none }

/-- A command that is due at once. -/
def smallCmd (op : Op) (arg0 : Int) : Event := .cmd 0 op arg0 0 0 0

end EcMaster.Cia402
