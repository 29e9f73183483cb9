import EcMaster.Cia402.Points
import EcMaster.Cia402.Ticks

/-!
# The handshake of PP

Bit 4 of the controlword announces a point, bit 12 of the statusword acknowledges
it, and the next point waits until bit 12 is low again.  `Handshake` is what a drive
can rely on, hook by hook:

* bit 4 goes up only with bit 12 low, and unless the point is to be taken at once
  only with bit 10 high;
* as long as it is up the controlword and 0x607A are those of its point;
* it goes low for an acknowledge from two ticks after the rise at least, for a stop,
  or for the time-out;
* between two points there is a hook with bit 4 low that has seen bit 12 low.

The axis keeps the phase of the handshake, not what was on the wire, and the phase
survives a mode that is changed and confirmed within one hook.  It also compares the
tick of a hook, not that of its statusword, and a stop sets it back without a look at
bit 12.  `handshake_of_settled` has the condition that rules these three out, and
`handshake_broken` a run for each of them.
-/

namespace EcMaster.Cia402

open EcMaster.Run EcMaster.Xchg EcMaster.Pdo

/-! ## Runs with a bus -/

/-- The event is a hook without a bus. -/
def Event.busLost : Event → Bool
  | .hook env => env.busLost
  | _ => false

/-- Every hook has a bus. -/
def NoBusLoss (evs : List Event) : Prop := ∀ e ∈ evs, e.busLost = false

instance (evs : List Event) : Decidable (NoBusLoss evs) :=
  inferInstanceAs (Decidable (∀ e ∈ evs, _))

/-- The step is not a hook without a bus. -/
def AxEv.HasBus (ev : AxEv) : Prop := ∀ h ∈ ev.hook?, h.busLost = false

theorem hasBus_axisEvents {i : Nat} {s : Sys} {e : Event} (hbus : e.busLost = false)
    {ev : AxEv} (hev : ev ∈ axisEvents i s e) : ev.HasBus := by
  intro h hh
  obtain ⟨h', rfl⟩ := exists_hook (Option.isSome_of_mem hh)
  cases (Option.some.inj hh)
  cases e with
  | hook env =>
    simp only [axisEvents, cmdEvents, List.mem_append, List.mem_map, List.mem_singleton,
      AxEv.hook.injEq] at hev
    rcases hev with ⟨q, -, hq⟩ | rfl
    · cases hq
    · exact hbus
  | cmd axis op arg0 arg1 seq tick => simp [axisEvents] at hev
  | setpoint axis tick v =>
    simp only [axisEvents] at hev
    split_ifs at hev <;> simp at hev
  | shutdown => simp [axisEvents] at hev

theorem NoBusLoss.axisEvs {evs : List Event} (hbus : NoBusLoss evs) (i : Nat) :
    ∀ (s : Sys), ∀ ev ∈ axisEvs i s evs, ev.HasBus := by
  induction evs with
  | nil =>
    intro s ev hev
    simp [Cia402.axisEvs] at hev
  | cons e es ih =>
    intro s ev hev
    rw [Cia402.axisEvs, List.mem_append] at hev
    rcases hev with hev | hev
    · exact hasBus_axisEvents (hbus e (by simp)) hev
    · exact ih (fun e' he' => hbus e' (by simp [he'])) _ ev hev

/-! ## Histories -/

/-- The tick of a hook in which bit 4 goes up. -/
def riseTick (q : AxRec) : Option Nat := if (sentPoint q).isSome then q.ev.tick? else none

/-- The tick in which bit 4 last went up. -/
def lastRise (hist : List AxRec) : Option Nat := hist.reverse.findSome? riseTick

theorem lastRise_concat (hist : List AxRec) (r : AxRec) :
    lastRise (hist ++ [r]) = (riseTick r).or (lastRise hist) := by
  unfold lastRise
  rw [List.reverse_append, List.reverse_singleton, List.singleton_append, List.findSome?_cons]
  cases riseTick r <;> rfl

theorem lastRise_mem {hist : List AxRec} {t : Nat} (ht : lastRise hist = some t) :
    ∃ q ∈ hist, q.ev.tick? = some t := by
  obtain ⟨q, hq, hrise⟩ := List.exists_of_findSome?_eq_some ht
  refine ⟨q, List.mem_reverse.1 hq, ?_⟩
  unfold riseTick at hrise
  split_ifs at hrise
  exact hrise

/-- A hook that writes bit 4 for a point. -/
def upHook (q : AxRec) : Bool :=
  q.ev.hook?.isSome && q.post.a.modeReq = .pp && q.post.out.cw.any (·.testBit 4)

/-- A hook that writes bit 4 low and works with a statusword with bit 12 low. -/
def lowHook (q : AxRec) : Bool :=
  q.ev.hook?.isSome && q.post.out.cw.any (!·.testBit 4) && !swBit q.post.a.sw 0x1000

/-- Bit 4 was up, and bit 4 and bit 12 have not been low together since. -/
def Unanswered (hist : List AxRec) : Prop :=
  Since (fun q => upHook q = true) (fun after => ∀ q ∈ after, lowHook q = false) hist

instance (hist : List AxRec) : Decidable (Unanswered hist) := by
  unfold Unanswered
  infer_instance

theorem Unanswered.any_upHook {hist : List AxRec} (hun : Unanswered hist) :
    hist.any upHook = true := by
  obtain ⟨before, q, after, heq, hq, -⟩ := hun
  exact List.any_eq_true.2 ⟨q, by simp [heq], hq⟩

/-- The axis ran in PP at this hook and keeps its target. -/
def ranPp (q : AxRec) : Bool := !Stopped q && q.post.a.modeReq = .pp

/-- The statusword a hook works with. -/
def shownSw (h : AxHook) (a : Axis) : Nat := if h.inValid then statusword a.b h else a.sw

theorem axisRt_sw (p : Params) (h : AxHook) (ring : XRing XSp) (a : Axis) :
    (axisRt p h ring a).a.sw = shownSw h a := by
  unfold shownSw
  rw [← readInputs_sw p h a]
  simp

/-! ## The handshake -/

/-- The last valid statusword has bit 12 low, and bit 10 high unless the point is to
be taken at once. -/
def RisesReady (hist : List AxRec) (r : AxRec) (pt : Point) : Prop :=
  ∃ m ∈ lastValid (hist ++ [r]), swBit (statusword r.post.a.b m) 0x1000 = false ∧
    (swBit pt.2 ppImm = true ∨ swBit (statusword r.post.a.b m) 0x0400 = true)

instance (hist : List AxRec) (r : AxRec) (pt : Point) : Decidable (RisesReady hist r pt) :=
  inferInstanceAs (Decidable (∃ m ∈ lastValid (hist ++ [r]), _))

/-- The last valid statusword is from two ticks after `t` and has bit 12 high. -/
def Acknowledged (hist : List AxRec) (r : AxRec) (t : Nat) : Prop :=
  ∃ m ∈ lastValid (hist ++ [r]), t + 2 ≤ m.tick ∧ swBit (statusword r.post.a.b m) 0x1000 = true

instance (hist : List AxRec) (r : AxRec) (t : Nat) : Decidable (Acknowledged hist r t) :=
  inferInstanceAs (Decidable (∃ m ∈ lastValid (hist ++ [r]), _))

/-- Bit 4, which went up in tick `t`, goes low with a reason. -/
def FallsFor (timeout : Nat) (hist : List AxRec) (r : AxRec) (h : AxHook) (t : Nat) : Prop :=
  Acknowledged hist r t ∨ r.post.a.running = false ∨
    (timeout < h.tick - t ∧ r.post.a.err = .handshake ∧ r.post.a.target = .disabled)

instance (timeout : Nat) (hist : List AxRec) (r : AxRec) (h : AxHook) (t : Nat) :
    Decidable (FallsFor timeout hist r h t) :=
  inferInstanceAs (Decidable (_ ∨ _ ∨ _))

/-- Bit 4 of a point goes low in this hook. -/
def Falls (hist : List AxRec) (r : AxRec) : Prop :=
  r.pre.a.cw.testBit 4 = true ∧ (∀ q ∈ lastLive hist, q.post.a.modeReq = .pp) ∧
    r.post.out.cw.any (!·.testBit 4) = true

instance (hist : List AxRec) (r : AxRec) : Decidable (Falls hist r) :=
  inferInstanceAs (Decidable (_ ∧ _ ∧ _))

/-- What a drive can rely on.  `timeout` is the step time-out in ticks. -/
structure Handshake (timeout : Nat) (hist : List AxRec) (r : AxRec) : Prop where
  rise : ∀ pt ∈ sentPoint r, RisesReady hist r pt
  keep : ShowsLastPoint hist r
  fall : ∀ h ∈ r.ev.hook?, Falls hist r → ∃ t ∈ lastRise hist, FallsFor timeout hist r h t
  between : (sentPoint r).isSome = true → ¬ Unanswered hist

/-- The last valid inputs are not older than two ticks after the rise. -/
def AckFresh (hist : List AxRec) (a : Axis) : Prop :=
  ∃ m ∈ lastValid hist, a.ppSince + 2 ≤ m.tick

instance (hist : List AxRec) (a : Axis) : Decidable (AckFresh hist a) :=
  inferInstanceAs (Decidable (∃ m ∈ lastValid hist, _))

/-- An axis that has raised points before and starts to run in PP has an empty queue
and sees bit 12 low. -/
def StartsLow (hist : List AxRec) (a : Axis) (h : AxHook) : Prop :=
  runsOn h a = true → a.modeReq = .pp → hist.any upHook = true →
    (lastHook hist).any ranPp = false → a.ppN = 0 ∧ swBit (shownSw h a) 0x1000 = false

instance (hist : List AxRec) (a : Axis) (h : AxHook) : Decidable (StartsLow hist a h) :=
  inferInstanceAs (Decidable (_ → _))

/-- The points are settled, and at a hook

* an acknowledge that is not from this hook is from two ticks after the rise;
* an axis that starts to run in PP finds bit 12 low.

Tick numbers do not reach the end of their range. -/
def HandshakeSettled (hist : List AxRec) (r : AxRec) : Prop :=
  PointsSettled hist r ∧ ∀ h ∈ r.ev.hook?, h.tick + 2 < 2 ^ 64 ∧
    (h.inValid = false → r.pre.a.ppPhase = .up → swBit r.pre.a.sw 0x1000 = true →
      r.pre.a.ppSince + 2 ≤ h.tick → AckFresh hist r.pre.a) ∧
    StartsLow hist r.pre.a h

instance (hist : List AxRec) (r : AxRec) : Decidable (HandshakeSettled hist r) :=
  inferInstanceAs (Decidable (_ ∧ ∀ h ∈ r.ev.hook?, _))

/-- What is known after a history with a bus. -/
structure ShakeInv (x : AxisSetup) (hist : List AxRec) (s : AxSt) : Prop where
  base : AxBase x s
  points : PointsInv hist s
  wire : WireInv hist s
  sw : ∀ m ∈ lastValid hist, s.a.sw = statusword x.b m
  blind : lastValid hist = none → s.a.ds = .unknown
  since : s.a.ppPhase = .up → lastRise hist = some s.a.ppSince
  answer : Unanswered hist → s.a.ppPhase = .idle → (lastHook hist).any ranPp = false

theorem shakeInv_init (x : AxisSetup) : ShakeInv x [] x.init :=
  ⟨axBase_init x, pointsInv_init x, wireInv_init x, by simp [lastValid], fun _ => rfl,
    (fun hup => by cases hup), fun hun => absurd hun (since_nil _ _)⟩

/-! ## A step other than a hook -/

theorem not_hook_sent {r : AxRec} (hno : r.ev.hook? = none) : sentPoint r = none :=
  if_neg fun hrise => by simp [hno] at hrise

theorem ShakeInv.quiet {x : AxisSetup} {p : Params} {hist : List AxRec} {s : AxSt} {e : AxEv}
    (hI : ShakeInv x hist s) (hC : PointsSettled hist ⟨s, e, axStep p s e⟩)
    (hno : e.hook? = none) (hsw : (axStep p s e).a.sw = s.a.sw)
    (hds : (axStep p s e).a.ds = s.a.ds) (hphase : (axStep p s e).a.ppPhase = s.a.ppPhase)
    (hsince : (axStep p s e).a.ppSince = s.a.ppSince) :
    ShakeInv x (hist ++ [⟨s, e, axStep p s e⟩]) (axStep p s e) := by
  have hvalid : lastValid (hist ++ [⟨s, e, axStep p s e⟩]) = lastValid hist := by
    rw [lastValid_concat]
    simp [validHook, hno]
  have hrise : lastRise (hist ++ [⟨s, e, axStep p s e⟩]) = lastRise hist := by
    have hnone : riseTick ⟨s, e, axStep p s e⟩ = none :=
      if_neg (by simp [not_hook_sent (r := ⟨s, e, axStep p s e⟩) hno])
    rw [lastRise_concat, hnone]
    rfl
  refine ⟨hI.base.step p e, hI.points.step p e, hI.wire.step e hC, ?_, ?_, ?_, ?_⟩
  · rw [hvalid, hsw]
    exact hI.sw
  · rw [hvalid, hds]
    exact hI.blind
  · rw [hrise, hphase, hsince]
    exact hI.since
  · intro hun hidle
    rw [lastHook_concat, if_neg (by simp [hno])]
    rcases Since.of_concat hun with hup | ⟨hwas, -⟩
    · simp [upHook, hno] at hup
    · exact hI.answer hwas (hphase ▸ hidle)

/-! ## A hook -/

/-- The point that is raised after a hook was raised before it or is raised by it. -/
theorem PpTurn.since {p : Params} {h : AxHook} {a a' : Axis} (hturn : PpTurn p h a a')
    (hup : a'.ppPhase = .up) :
    (a.ppPhase = .up ∧ a'.ppSince = a.ppSince) ∨ (a.ppPhase = .idle ∧ a'.ppSince = h.tick) := by
  cases hturn with
  | kept hpp => exact .inl ⟨(congrArg PpState.ppPhase hpp :) ▸ hup, (congrArg PpState.ppSince hpp :)⟩
  | stopped _ _ hpp =>
    rw [hpp] at hup
    cases hup
  | shaken _ _ hpp =>
    generalize a'.toPpState = pp' at hpp hup
    cases hpp with
    | keep => exact .inl ⟨hup, rfl⟩
    | raise hidle => exact .inr ⟨hidle, rfl⟩
    | ack => cases hup
    | expire => cases hup
    | low => cases hup

/-- When a hook raises a point. -/
theorem PpTurn.raised {p : Params} {h : AxHook} {a a' : Axis} (hturn : PpTurn p h a a')
    (hwas : a.ppPhase ≠ .up) (hup : a'.ppPhase = .up) :
    runsOn h a = true ∧ a.modeReq = .pp ∧ a.ppPhase = .idle ∧ a.ppN ≠ 0 ∧
      swBit a'.sw 0x1000 = false ∧
      (swBit a'.ppFlags ppImm = true ∨ swBit a'.sw 0x0400 = true) := by
  cases hturn with
  | kept hpp => exact absurd ((congrArg PpState.ppPhase hpp :) ▸ hup) hwas
  | stopped _ _ hpp =>
    rw [hpp] at hup
    cases hup
  | shaken hruns hmode hpp =>
    generalize a'.toPpState = pp' at hpp hup
    cases hpp with
    | keep => exact absurd hup hwas
    | raise hidle hn hlow hready => exact ⟨hruns, hmode, hidle, hn, hlow, hready⟩
    | ack => cases hup
    | expire => cases hup
    | low => cases hup

/-- The statusword of an axis that runs is that of valid inputs. -/
theorem ShakeInv.shown {x : AxisSetup} {p : Params} {hist : List AxRec} {s : AxSt} {h : AxHook}
    (hI : ShakeInv x hist s) (hruns : runsOn h s.a = true) :
    ∃ m ∈ lastValid (hist ++ [⟨s, .hook h, axStep p s (.hook h)⟩]),
      (axisRt p h s.ring s.a).a.sw = statusword (axisRt p h s.ring s.a).a.b m := by
  have hb : (axisRt p h s.ring s.a).a.b = x.b := by
    have hcfg := (hI.base.step p (.hook h)).cfg
    exact congrArg AxisCfg.b hcfg
  have hsome : (lastValid (hist ++ [⟨s, .hook h, axStep p s (.hook h)⟩])).isSome = true := by
    rw [lastValid_hook]
    split_ifs with hv
    · rfl
    · by_contra hnone
      have hds := hI.blind (by simpa using hnone)
      simp [runsOn, shownDs, hv, hds] at hruns
  obtain ⟨m, hm⟩ := Option.isSome_iff_exists.1 hsome
  refine ⟨m, hm, ?_⟩
  rw [hb]
  exact sw_concat hI.base hI.sw p h m hm

/-- A hook with a bus that leaves no point raised writes bit 4 low, unless a homing
runs. -/
theorem lowHook_of_rest {p : Params} {s : AxSt} {h : AxHook} (hbus : h.busLost = false)
    (hmode : s.a.modeReq = .pp) (hphase : (axisRt p h s.ring s.a).a.ppPhase ≠ .up)
    (hlow : swBit (axisRt p h s.ring s.a).a.sw 0x1000 = false) :
    lowHook ⟨s, .hook h, axStep p s (.hook h)⟩ = true := by
  obtain ⟨-, hcw, -⟩ := axisRt_live (p := p) s.ring s.a hbus
  have hbit : (back p h s.ring (front p h s.a)).cw.testBit 4 = false := by
    by_contra hup
    rcases (axisRt_bit4 hcw (by simpa using hup)).2 with ⟨-, hphase', -⟩ | ⟨hhm, -⟩
    · exact hphase hphase'
    · rw [hmode] at hhm
      cases hhm
  simp only [lowHook, AxEv.hook?, axStep, hcw, Option.isSome_some, Option.any_some, hbit, hlow]
  rfl

/-- A point that is not answered has its handshake still before it, or the axis has
left PP. -/
theorem ShakeInv.answered {x : AxisSetup} {p : Params} {hist : List AxRec} {s : AxSt}
    {h : AxHook} (hI : ShakeInv x hist s) (hbus : h.busLost = false)
    (hC : HandshakeSettled hist ⟨s, .hook h, axStep p s (.hook h)⟩)
    (hun : Unanswered (hist ++ [⟨s, .hook h, axStep p s (.hook h)⟩]))
    (hidle : (axStep p s (.hook h)).a.ppPhase = .idle) :
    (lastHook (hist ++ [⟨s, .hook h, axStep p s (.hook h)⟩])).any ranPp = false := by
  rw [lastHook_concat, if_pos (by simp [AxEv.hook?]), Option.any_some]
  have hmode' : (axStep p s (.hook h)).a.modeReq = s.a.modeReq := by simp [axStep]
  have hrunning : (axStep p s (.hook h)).a.running = runsOn h s.a :=
    axisRt_running s.ring s.a hbus
  -- what is left is an axis that runs in PP and has answered nothing in this hook
  by_contra hran
  simp only [ranPp, Stopped, AxEv.hook?, live, hbus, hmode', hrunning, Option.isSome_some,
    Bool.not_false, Bool.true_and, Bool.not_not, Bool.not_eq_false, Bool.and_eq_true,
    decide_eq_true_eq] at hran
  obtain ⟨⟨hruns, htarget⟩, hmode⟩ := hran
  have hidle : (axisRt p h s.ring s.a).a.ppPhase = .idle := hidle
  obtain ⟨hwas, hno⟩ : Unanswered hist ∧
      lowHook ⟨s, .hook h, axStep p s (.hook h)⟩ = false := by
    refine (Since.of_concat hun).resolve_left fun hup => ?_
    simp only [upHook, Bool.and_eq_true] at hup
    obtain ⟨cw, hcw, hbit⟩ := (Option.any_eq_true _ _).1 hup.2
    rcases (axisRt_bit4 hcw hbit).2 with ⟨-, hphase, -⟩ | ⟨hhm, -⟩
    · rw [hidle] at hphase
      cases hphase
    · rw [hmode] at hhm
      cases hhm
  have hhigh : swBit (axisRt p h s.ring s.a).a.sw 0x1000 = true := by
    by_contra hlow
    rw [lowHook_of_rest hbus hmode (by simp [hidle]) (by simpa using hlow)] at hno
    cases hno
  cases axisRt_points p h s.ring s.a with
  | kept _ hwhy =>
    rcases hwhy with hlost | ⟨-, hother⟩
    · simp [hbus] at hlost
    · exact hother hmode
  | stopped _ hstop => simp [hstop hmode] at hruns
  | shaken _ _ hpp hlate =>
    have htarget : (axisRt p h s.ring s.a).a.target = .enabled := htarget
    have hstart (hrest : s.a.ppPhase = .idle) : swBit (shownSw h s.a) 0x1000 = false := by
      exact ((hC.2 h rfl).2.2 hruns hmode hwas.any_upHook (hI.answer hwas hrest)).2
    have hlate := fun hup => hlate hup hidle
    rw [axisRt_sw] at hhigh hpp
    generalize (axisRt p h s.ring s.a).a.toPpState = pp' at hpp hidle
    cases hpp with
    | keep => simp [hstart hidle] at hhigh
    | raise => cases hidle
    | ack => cases hidle
    | expire hup =>
      have hdisabled := (hlate hup).2
      rw [htarget] at hdisabled
      cases hdisabled
    | low _ hlow => simp [hlow] at hhigh

theorem ShakeInv.hook {x : AxisSetup} {p : Params} {hist : List AxRec} {s : AxSt} {h : AxHook}
    (hI : ShakeInv x hist s) (hbus : h.busLost = false)
    (hC : HandshakeSettled hist ⟨s, .hook h, axStep p s (.hook h)⟩) :
    ShakeInv x (hist ++ [⟨s, .hook h, axStep p s (.hook h)⟩]) (axStep p s (.hook h)) := by
  refine ⟨hI.base.step p _, hI.points.step p _, hI.wire.step _ hC.1,
    sw_concat hI.base hI.sw p h, ?_, ?_, ?_⟩
  · intro hnone
    rw [lastValid_hook] at hnone
    split_ifs at hnone with hv
    have hds : (axisRt p h s.ring s.a).a.ds = s.a.ds := by
      have hread := readInputs_ds p h s.a
      simp only [shownDs, if_neg hv] at hread
      simp [hread]
    show (axisRt p h s.ring s.a).a.ds = _
    rw [hds]
    exact hI.blind hnone
  · intro hup
    have heq := hI.wire.sentPoint_eq hC.1 hbus
    rw [lastRise_concat, riseTick, heq]
    rcases (axisRt_points p h s.ring s.a).since hup with ⟨hwas, hsame⟩ | ⟨hidle, hnow⟩
    · have hnone : raisedPoint ⟨s, .hook h, axStep p s (.hook h)⟩ = none :=
        if_neg fun hrise => hrise.1 hwas
      rw [hnone]
      show lastRise hist = some (axisRt p h s.ring s.a).a.ppSince
      rw [hsame]
      exact hI.since hwas
    · have hsome : raisedPoint ⟨s, .hook h, axStep p s (.hook h)⟩ =
          some ((axStep p s (.hook h)).a.ppCur, (axStep p s (.hook h)).a.ppFlags) :=
        if_pos ⟨by simp [hidle], hup⟩
      rw [hsome]
      show some h.tick = some (axisRt p h s.ring s.a).a.ppSince
      rw [hnow]
  · exact hI.answered hbus hC

theorem ShakeInv.step {x : AxisSetup} {p : Params} {hist : List AxRec} {s : AxSt}
    (hI : ShakeInv x hist s) (e : AxEv) (hbus : e.HasBus)
    (hC : HandshakeSettled hist ⟨s, e, axStep p s e⟩) :
    ShakeInv x (hist ++ [⟨s, e, axStep p s e⟩]) (axStep p s e) := by
  cases e with
  | cmd c xe tick =>
    have hpp : (applyCmd s.shutdown xe tick c s.a).ppPhase = s.a.ppPhase ∧
        (applyCmd s.shutdown xe tick c s.a).ppSince = s.a.ppSince := by
      cases profile_applyCmd s.shutdown xe tick c s.a with
      | refused _ hpp => rw [hpp]; exact ⟨rfl, rfl⟩
      | point _ _ _ hpp => rw [hpp]; exact ⟨rfl, rfl⟩
      | vel _ _ hpp => rw [hpp]; exact ⟨rfl, rfl⟩
      | home _ _ hpp => rw [hpp]; exact ⟨rfl, rfl⟩
    exact hI.quiet hC.1 rfl (by simp [axStep]) (by simp [axStep]) hpp.1 hpp.2
  | setpoint sp => exact hI.quiet hC.1 rfl rfl rfl rfl rfl
  | shutdown => exact hI.quiet hC.1 rfl rfl rfl rfl rfl
  | hook h => exact hI.hook (hbus h rfl) hC

/-! ## Every run -/

/-- Bit 4 goes low for an acknowledge, a stop or the time-out. -/
theorem ShakeInv.fall {x : AxisSetup} {p : Params} {hist : List AxRec} {s : AxSt} {h : AxHook}
    (hI : ShakeInv x hist s) (hord : InOrder hist ⟨s, .hook h, axStep p s (.hook h)⟩)
    (hbus : h.busLost = false)
    (hC : HandshakeSettled hist ⟨s, .hook h, axStep p s (.hook h)⟩)
    (hfalls : Falls hist ⟨s, .hook h, axStep p s (.hook h)⟩) :
    lastRise hist = some s.a.ppSince ∧
      FallsFor p.stepTimeoutTicks hist ⟨s, .hook h, axStep p s (.hook h)⟩ h s.a.ppSince := by
  obtain ⟨hbit, hpp, hany⟩ := hfalls
  obtain ⟨cw, hcw, hlow⟩ := (Option.any_eq_true _ _).1 hany
  have hcw : (axisRt p h s.ring s.a).out.cw = some cw := hcw
  have hlow : cw.testBit 4 = false := by simpa using hlow
  -- bit 4 was up for a point, and the point is not raised any more
  obtain ⟨hrun, q, hq, hhm | ⟨-, hup⟩⟩ := hI.wire.high hbit
  · rw [hpp q hq] at hhm
    cases hhm
  have hpost : (axisRt p h s.ring s.a).a.ppPhase ≠ .up := by
    intro hstill
    have hout := (hI.wire.raised hC.1 hbus hstill).2.2.1
    rw [hcw, Option.some.injEq] at hout
    rw [hout, ppBits_testBit_four] at hlow
    cases hlow
  have hrise := hI.since hup
  refine ⟨hrise, ?_⟩
  cases hruns : runsOn h s.a with
  | false => exact .inr (.inl ((axisRt_running s.ring s.a hbus).trans hruns))
  | true =>
    have hmode : s.a.modeReq = .pp :=
      ((hC.1 h rfl hruns (.inr hup)).2 hrun q hq) ▸ hpp q hq
    cases axisRt_points p h s.ring s.a with
    | kept hsame => exact absurd ((congrArg PpState.ppPhase hsame :) ▸ hup) hpost
    | stopped _ hstop => simp [hstop hmode] at hruns
    | shaken _ _ hstep hlate =>
      obtain ⟨hbound, hfresh, -⟩ := hC.2 h rfl
      obtain ⟨q', hq', hqt⟩ := lastRise_mem hrise
      have hle : s.a.ppSince ≤ h.tick := hord q' hq' _ hqt h.tick rfl
      obtain ⟨m, hm, hsw⟩ := hI.shown (p := p) hruns
      have hsame := axisRt_sw p h s.ring s.a
      generalize hpp' : (axisRt p h s.ring s.a).a.toPpState = pp' at hstep
      cases hstep with
      | keep => exact absurd (by rw [hpp']; exact hup) hpost
      | raise hidle => simp [hup] at hidle
      | low hwait => simp [hup] at hwait
      | expire _ htime =>
        rw [sub64_of_le hle] at htime
        exact .inr (.inr ⟨htime, hlate hup (by rw [hpp'])⟩)
      | ack _ hhigh htwo =>
        rw [u64_of_lt (by omega)] at htwo
        refine .inl ⟨m, hm, ?_, hsw ▸ hhigh⟩
        rw [lastValid_hook] at hm
        cases hv : h.inValid with
        | true =>
          rw [if_pos hv] at hm
          cases hm
          exact htwo
        | false =>
          rw [if_neg (by simp [hv])] at hm
          rw [hsame, shownSw, if_neg (by simp [hv])] at hhigh
          obtain ⟨m', hm', hle'⟩ := hfresh hv hup hhigh htwo
          rw [hm] at hm'
          cases hm'
          exact hle'

/-- **The handshake of PP.**  In every run with ticks that increase by 1 and no bus
loss, in which the mode is settled while a point is raised, an acknowledge is
fresh and an axis that starts again in PP sees bit 12 low. -/
theorem handshake_of_settled (cfg : Config) (evs : List Event) (i : Fin cfg.axes.length)
    (hticks : TicksByOne evs) (hbus : NoBusLoss evs)
    (hsettled : cfg.AxisAlong evs i HandshakeSettled) :
    cfg.AxisAlong evs i (Handshake cfg.boot.c.p.stepTimeoutTicks) := by
  have hordered : cfg.AxisAlong evs i InOrder :=
    Along.of_pairwise (ticks_axisEvs i evs cfg.boot hticks.pairwise).1 _
  have hlive : cfg.AxisAlong evs i fun _ r => r.ev.HasBus :=
    Along.of_forall (hbus.axisEvs i cfg.boot) _
  refine Along.of_invariant (I := ShakeInv (cfg.axes.get i)) (shakeInv_init _)
    (fun hist s e hI hC => hI.step e hC.2.1 hC.2.2) ?_ (hordered.and (hlive.and hsettled))
  rintro hist s ev hI ⟨hord, hhas, hC⟩
  have hpost := hI.step ev hhas hC
  have hkeep := (pointsSent_of_inv hpost.points hpost.wire).unchanged
  by_cases hhook : ev.hook?.isSome = true
  · obtain ⟨h, rfl⟩ := exists_hook hhook
    have hb : h.busLost = false := hhas h rfl
    have heq := hI.wire.sentPoint_eq hC.1 hb
    have hraised {pt : Point}
        (hpt : sentPoint ⟨s, .hook h, axStep cfg.boot.c.p s (.hook h)⟩ = some pt) :
        s.a.ppPhase ≠ .up ∧ (axisRt cfg.boot.c.p h s.ring s.a).a.ppPhase = .up ∧
          pt.2 = (axisRt cfg.boot.c.p h s.ring s.a).a.ppFlags := by
      rw [heq] at hpt
      unfold raisedPoint at hpt
      split_ifs at hpt with hrise
      exact ⟨hrise.1, hrise.2, (congrArg Prod.snd (Option.some.inj hpt)).symm⟩
    refine ⟨fun pt hpt => ?_, hkeep, ?_, fun hsome hun => ?_⟩
    · obtain ⟨hwas, hup, hflags⟩ := hraised hpt
      obtain ⟨hruns, -, -, -, hlow, hready⟩ :=
        (axisRt_points cfg.boot.c.p h s.ring s.a).raised hwas hup
      obtain ⟨m, hm, hsw⟩ := hI.shown (p := cfg.boot.c.p) hruns
      rw [hsw] at hlow hready
      exact ⟨m, hm, hlow, hflags ▸ hready⟩
    · intro h' hh' hfalls
      cases (Option.some.inj hh')
      obtain ⟨hrise, hwhy⟩ := hI.fall hord hb hC hfalls
      exact ⟨_, hrise, hwhy⟩
    · obtain ⟨pt, hpt⟩ := Option.isSome_iff_exists.1 hsome
      obtain ⟨hwas, hup, -⟩ := hraised hpt
      obtain ⟨hruns, hmode, hidle, hn, -⟩ :=
        (axisRt_points cfg.boot.c.p h s.ring s.a).raised hwas hup
      exact hn ((hC.2 h rfl).2.2 hruns hmode hun.any_upHook (hI.answer hun hidle)).1
  · have hno : ev.hook? = none := by simpa using hhook
    have hnone := not_hook_sent (r := ⟨s, ev, axStep cfg.boot.c.p s ev⟩) hno
    refine ⟨?_, hkeep, ?_, ?_⟩
    · simp [hnone]
    · simp [hno]
    · simp [hnone]

/-- CSP is requested and confirmed in the very next hook while a point is raised,
then PP again, with the drive on its way. -/
def shakeOverModes : List Event :=
  [ smallCmd .setMode 1, smallCmd .enable 0, smallHook 6 0x427 1000 1,
    smallCmd .ppPoint 5000, smallHook 7 0x427 1000 1,
    smallCmd .setMode 8, smallHook 8 0x27 1000 8,
    smallCmd .setMode 1, smallHook 9 0x27 1000 1 ]

/-- Bit 12 is up one tick after the rise, and the next hook has no valid inputs. -/
def shakeStale : List Event :=
  [ smallCmd .setMode 1, smallCmd .enable 0, smallHook 6 0x427 1000 1,
    smallCmd .ppPoint 5000, smallHook 7 0x427 1000 1,
    smallHook 8 0x1427 1000 1, smallBlind 9 ]

/-- The axis is disabled and enabled again, and bit 12 goes low only then. -/
def shakeOverStop : List Event :=
  [ smallCmd .setMode 1, smallCmd .enable 0, smallHook 6 0x427 1000 1,
    smallCmd .ppPoint 5000, smallHook 7 0x427 1000 1,
    smallCmd .disable 0, smallHook 8 0x1427 1000 1,
    smallCmd .enable 0, smallHook 9 0x1427 1000 1,
    smallCmd .ppPoint 6000, smallHook 10 0x427 1000 1 ]

/-- In `shakeOverModes` bit 4 goes up with bit 10 low, in `shakeStale` it goes low for a
statusword of one tick after the rise, and in `shakeOverStop` it goes up for the next
point without a hook with bit 4 and bit 12 low. -/
theorem handshake_broken :
    (TicksByOne shakeOverModes ∧ NoBusLoss shakeOverModes ∧
      ¬ smallConfig.AxisAlong shakeOverModes ⟨0, by decide⟩
        (Handshake smallConfig.boot.c.p.stepTimeoutTicks)) ∧
    (TicksByOne shakeStale ∧ NoBusLoss shakeStale ∧
      ¬ smallConfig.AxisAlong shakeStale ⟨0, by decide⟩
        (Handshake smallConfig.boot.c.p.stepTimeoutTicks)) ∧
    (TicksByOne shakeOverStop ∧ NoBusLoss shakeOverStop ∧
      ¬ smallConfig.AxisAlong shakeOverStop ⟨0, by decide⟩
        (Handshake smallConfig.boot.c.p.stepTimeoutTicks)) := by
  have hmodes : ¬ smallConfig.AxisAlong shakeOverModes ⟨0, by decide⟩ fun hist r =>
      ∀ pt ∈ sentPoint r, RisesReady hist r pt := by
    decide
  have hstale : ¬ smallConfig.AxisAlong shakeStale ⟨0, by decide⟩ fun hist r =>
      ∀ h ∈ r.ev.hook?, Falls hist r →
        ∃ t ∈ lastRise hist, FallsFor smallConfig.boot.c.p.stepTimeoutTicks hist r h t := by
    decide
  have hstop : ¬ smallConfig.AxisAlong shakeOverStop ⟨0, by decide⟩ fun hist r =>
      (sentPoint r).isSome = true → ¬ Unanswered hist := by
    decide
  refine ⟨⟨by decide, by decide, ?_⟩, ⟨by decide, by decide, ?_⟩, by decide, by decide, ?_⟩
  · exact fun hall => hmodes fun hist r rest htrace => (hall hist r rest htrace).rise
  · exact fun hall => hstale fun hist r rest htrace => (hall hist r rest htrace).fall
  · exact fun hall => hstop fun hist r rest htrace => (hall hist r rest htrace).between

/-- A run that meets the condition: two points, the second one after the first is
answered. -/
theorem handshake_of_settled_small :
    smallConfig.AxisAlong
      [ smallCmd .setMode 1, smallCmd .enable 0, smallHook 6 0x427 1000 1,
        smallCmd .ppPoint 5000, smallCmd .ppPoint 6000, smallHook 7 0x427 1000 1,
        smallHook 8 0x27 1000 1, smallHook 9 0x1027 1100 1, smallHook 10 0x27 2000 1,
        smallHook 11 0x427 5000 1 ]
      ⟨0, by decide⟩ (Handshake smallConfig.boot.c.p.stepTimeoutTicks) :=
  handshake_of_settled smallConfig _ ⟨0, by decide⟩ (by decide) (by decide) (by decide)

end EcMaster.Cia402
