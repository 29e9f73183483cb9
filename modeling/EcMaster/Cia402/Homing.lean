import EcMaster.Cia402.Ticks

/-!
# Homing

A homing starts with an accepted `HOME` and ends with bits 10 and 12 of the
statusword, with bit 13, with the time-out, or when the axis stops.  Bit 12 may
still be up from the homing before.  So the code waits two ticks, until the
drive can have seen bit 4, and takes bit 12 only if it was low in between, or
after ten ticks.

These are counted in ticks, but a statusword is as old as the last valid
inputs.  `homing_is_fresh` says that the statusword that ends a homing is from
two ticks after its start at least, provided that the ten ticks have brought
valid inputs, and that a homing ends in time, provided that no other mode is
confirmed while it runs.  `homing_stale` has a run without either.
-/

namespace EcMaster.Cia402

open EcMaster.Pdo EcMaster.Xchg EcMaster.Run

/-! ## One hook -/

/-- What a hook makes of a homing.  `sw` is the statusword it works with. -/
inductive HomingStep (p : Params) (h : AxHook) (a : Axis) (sw : Nat) (a' : Axis) : Prop where
  /-- Nothing: no homing runs, there is no bus, or the axis runs in another mode. -/
  | kept (hphase : a'.hmPhase = a.hmPhase) (hlow : a'.hmSeenLow = a.hmSeenLow)
      (hsince : a'.hmSince = a.hmSince)
      (hwhy : a.hmPhase ≠ .running ∨ h.busLost = true ∨
        (runsOn h a = true ∧ a.modeReq ≠ .hm))
  | failed (hwas : a.hmPhase = .running) (hphase : a'.hmPhase = .failed)
  | done (hwas : a.hmPhase = .running) (hruns : runsOn h a = true) (hphase : a'.hmPhase = .done)
      (hseen : u64 (a.hmSince + 2) ≤ h.tick) (hbits : sw &&& 0x1400 = 0x1400)
      (hwhy : a.hmSeenLow = true ∨ u64 (a.hmSince + hmSettle) ≤ h.tick)
  | going (hwas : a.hmPhase = .running) (hphase : a'.hmPhase = .running)
      (hlow : a'.hmSeenLow = true → a.hmSeenLow = true ∨
        (u64 (a.hmSince + 2) ≤ h.tick ∧ swBit sw 0x1000 = false))
      (hsince : a'.hmSince = a.hmSince)
      (htime : sub64 h.tick a.hmSince ≤ p.homeTimeoutTicks)

/-- Bits 10 and 12 together include bit 12. -/
theorem swBit_twelve {sw : Nat} (hbits : sw &&& 0x1400 = 0x1400) : swBit sw 0x1000 = true := by
  have hbit : (sw &&& 0x1400).testBit 12 = true := by
    rw [hbits]
    decide
  rw [Nat.testBit_and] at hbit
  have h12 : sw.testBit 12 = true := (Bool.and_eq_true_iff.1 hbit).1
  have hne : (sw &&& 0x1000).testBit 12 = true := by
    rw [Nat.testBit_and, h12]
    decide
  unfold swBit
  by_contra hno
  have hzero : sw &&& 0x1000 = 0 := by simpa using hno
  simp [hzero] at hne

theorem homingStep_hmProgress (p : Params) {h : AxHook} {a b : Axis} (hruns : runsOn h a = true)
    (hwas : a.hmPhase = .running) (hb : b.toHmState = a.toHmState) :
    HomingStep p h a b.sw (hmProgress p h b) := by
  have hsince : b.hmSince = a.hmSince := congrArg HmState.hmSince hb
  have hlow : b.hmSeenLow = a.hmSeenLow := congrArg HmState.hmSeenLow hb
  have hphase : b.hmPhase = .running := (congrArg HmState.hmPhase hb).trans hwas
  unfold hmProgress
  dsimp only
  -- the axis after bit 12 was looked at
  obtain ⟨c, heq, hsw, hcsince, hcphase, hclow⟩ : ∃ c,
      (if (decide (h.tick ≥ u64 (b.hmSince + 2)) && !swBit b.sw 0x1000) = true then
        { b with hmSeenLow := true } else b) = c ∧ c.sw = b.sw ∧ c.hmSince = a.hmSince ∧
      c.hmPhase = .running ∧ (c.hmSeenLow = true → a.hmSeenLow = true ∨
        (u64 (a.hmSince + 2) ≤ h.tick ∧ swBit b.sw 0x1000 = false)) := by
    refine ⟨_, rfl, ?_⟩
    split_ifs with hset
    · simp only [Bool.and_eq_true, decide_eq_true_eq, Bool.not_eq_true'] at hset
      exact ⟨rfl, hsince, hphase, fun _ => .inr ⟨hsince ▸ hset.1, hset.2⟩⟩
    · exact ⟨rfl, hsince, hphase, fun hl => .inl (hlow ▸ hl)⟩
  rw [heq, hsw, hcsince, hsince]
  split_ifs with herr hdone htime
  · exact .failed hwas rfl
  · simp only [Bool.and_eq_true, Bool.or_eq_true, decide_eq_true_eq] at hdone
    obtain ⟨⟨hseen, hbits⟩, hwhy⟩ := hdone
    refine .done hwas hruns rfl hseen hbits (hwhy.imp_left fun hl => ?_)
    refine (hclow hl).resolve_right fun hno => ?_
    simp [swBit_twelve hbits] at hno
  · exact .failed hwas rfl
  · exact .going hwas hcphase hclow hcsince (by omega)

/-- A hook as a whole. -/
theorem axisRt_homing (p : Params) (h : AxHook) (ring : XRing XSp) (a : Axis) :
    HomingStep p h a (axisRt p h ring a).a.sw (axisRt p h ring a).a := by
  cases hlost : h.busLost with
  | true =>
    have hhm : (axisRt p h ring a).a.toHmState = a.toHmState := by
      rw [(axisRt_lost ring a hlost).1]
      simp
    exact .kept (by rw [hhm]) (by rw [hhm]) (by rw [hhm]) (.inr (.inl hlost))
  | false =>
    obtain ⟨w, heq, hfr⟩ := back_eq p h ring (front p h a)
    have ha := (axisRt_live (p := p) ring a hlost).1
    rw [heq] at ha
    have hhm : w.a.toHmState = a.toHmState := by simpa using hfr.hm
    have hmode : w.a.modeReq = a.modeReq := by simpa using congrArg ModeState.modeReq hfr.mode
    have hsince : w.a.hmSince = a.hmSince := congrArg HmState.hmSince hhm
    have hlow : w.a.hmSeenLow = a.hmSeenLow := congrArg HmState.hmSeenLow hhm
    have hphase : w.a.hmPhase = a.hmPhase := congrArg HmState.hmPhase hhm
    have hruns : w.running = true → runsOn h a = true := by
      rw [← front_runs_eq p h a]
      exact hfr.running
    by_cases hgoing : w.a.modeReq = .hm ∧ w.running = true ∧ w.a.hmPhase = .running
    · obtain ⟨hhmode, hrun, hrunning⟩ := hgoing
      have hax := profileOut_hm p h hhmode hrun hrunning
      have hsw : (axisRt p h ring a).a.sw = w.a.sw := by
        rw [ha, hax]
        exact congrArg Inputs.sw (hmProgress_frame p h w).inputs
      have hstep := homingStep_hmProgress p (hruns hrun) (hphase ▸ hrunning) hhm
      rw [hsw, ha, hax]
      cases hstep with
      | kept hp hl hs hwhy => exact .kept hp hl hs hwhy
      | failed hwas hp => exact .failed hwas hp
      | done hwas hr hp hseen hbits hwhy => exact .done hwas hr hp hseen hbits hwhy
      | going hwas hp hl hs ht => exact .going hwas hp hl hs ht
    · have hclear := profileOut_hm_of_not p h hgoing
      obtain ⟨hcl, hcs, hcp⟩ := clearProfile_hm w
      have hp' : (axisRt p h ring a).a.hmPhase = (clearProfile w).a.hmPhase := by
        rw [ha]
        exact congrArg HmState.hmPhase hclear
      have hl' : (axisRt p h ring a).a.hmSeenLow = (clearProfile w).a.hmSeenLow := by
        rw [ha]
        exact congrArg HmState.hmSeenLow hclear
      have hs' : (axisRt p h ring a).a.hmSince = (clearProfile w).a.hmSince := by
        rw [ha]
        exact congrArg HmState.hmSince hclear
      by_cases hcut : w.running = false ∧ w.a.hmPhase = .running
      · rw [if_pos hcut] at hcp
        exact .failed (hphase ▸ hcut.2) (hp'.trans hcp)
      · rw [if_neg hcut] at hcp
        refine .kept (by rw [hp', hcp, hphase]) (by rw [hl', hcl, hlow])
          (by rw [hs', hcs, hsince]) ?_
        by_cases hno : a.hmPhase = .running
        · have hrun : w.running = true := by
            by_contra hoff
            exact hcut ⟨by simpa using hoff, hphase.trans hno⟩
          refine .inr (.inr ⟨hruns hrun, fun hm => hgoing ⟨hmode.trans hm, hrun, ?_⟩⟩)
          exact hphase.trans hno
        · exact .inl hno

/-! ## Histories -/

/-- The tick of an accepted `HOME`. -/
def homeAt (q : AxRec) : Option Nat :=
  match q.ev with
  | .cmd c _ tick => if c.op = .home ∧ profileAccepted c q.pre.a then some tick else none
  | _ => none

/-- The tick in which the last homing was started. -/
def lastHome (hist : List AxRec) : Option Nat := hist.reverse.findSome? homeAt

theorem lastHome_concat (hist : List AxRec) (r : AxRec) :
    lastHome (hist ++ [r]) = (homeAt r).or (lastHome hist) := by
  unfold lastHome
  rw [List.reverse_append, List.reverse_singleton, List.singleton_append, List.findSome?_cons]
  cases homeAt r <;> rfl

theorem lastHome_mem {hist : List AxRec} {t : Nat} (hlast : lastHome hist = some t) :
    ∃ q ∈ hist, q.ev.tick? = some t := by
  obtain ⟨q, hq, hat⟩ := List.exists_of_findSome?_eq_some hlast
  refine ⟨q, List.mem_reverse.1 hq, ?_⟩
  unfold homeAt at hat
  split at hat
  · rename_i c xe tick hev
    split_ifs at hat
    rw [hev]
    exact hat
  · simp at hat

/-- What is known of a homing after a history: when it was started, which inputs
the statusword is from, and that a statusword with bit 12 up after it was seen
low is fresh. -/
structure HomeInv (x : AxisSetup) (hist : List AxRec) (s : AxSt) : Prop where
  base : AxBase x s
  ticks : (hist.filterMap fun q => q.ev.tick?).Pairwise (· ≤ ·)
  started : s.a.hmPhase = .running → lastHome hist = some s.a.hmSince
  sw : ∀ m ∈ lastValid hist, s.a.sw = statusword x.b m
  low : s.a.hmPhase = .running → s.a.hmSeenLow = true →
    (∃ q ∈ hist, ∃ t ∈ q.ev.tick?, s.a.hmSince + 2 ≤ t) ∧
    (swBit s.a.sw 0x1000 = true → ∃ m ∈ lastValid hist, s.a.hmSince + 2 ≤ m.tick)

theorem homeInv_init (x : AxisSetup) : HomeInv x [] x.init := by
  have hoff : x.init.a.hmPhase ≠ .running := by
    show HmPhase.idle ≠ .running
    decide
  exact ⟨axBase_init x, by simp, fun h => absurd h hoff, by simp [lastValid],
    fun h => absurd h hoff⟩

/-- A homing keeps what is known of bit 12. -/
theorem low_concat {x : AxisSetup} {hist : List AxRec} {s : AxSt} (hI : HomeInv x hist s)
    (p : Params) {h : AxHook} (hC : InOrder hist ⟨s, .hook h, axStep p s (.hook h)⟩)
    (hwas : s.a.hmPhase = .running) (hlow : s.a.hmSeenLow = true) :
    (∃ q ∈ hist ++ [⟨s, .hook h, axStep p s (.hook h)⟩], ∃ t ∈ q.ev.tick?,
      s.a.hmSince + 2 ≤ t) ∧
    (swBit (axStep p s (.hook h)).a.sw 0x1000 = true →
      ∃ m ∈ lastValid (hist ++ [⟨s, .hook h, axStep p s (.hook h)⟩]),
        s.a.hmSince + 2 ≤ m.tick) := by
  obtain ⟨⟨q, hq, t, ht, hle⟩, hfresh⟩ := hI.low hwas hlow
  refine ⟨⟨q, by simp [hq], t, ht, hle⟩, fun hbit => ?_⟩
  rw [lastValid_hook]
  split_ifs with hv
  · have horder := hC q hq t ht h.tick rfl
    exact ⟨h, rfl, by omega⟩
  · have hsw : (axStep p s (.hook h)).a.sw = s.a.sw := by
      have hread := readInputs_sw p h s.a
      rw [if_neg hv] at hread
      rw [← hread]
      simp [axStep]
    exact hfresh (hsw ▸ hbit)

/-- A homing was started in a tick before. -/
theorem since_le {x : AxisSetup} {hist : List AxRec} {s : AxSt} (hI : HomeInv x hist s)
    {p : Params} {h : AxHook} (hC : InOrder hist ⟨s, .hook h, axStep p s (.hook h)⟩)
    (hwas : s.a.hmPhase = .running) : s.a.hmSince ≤ h.tick := by
  obtain ⟨q, hq, ht⟩ := lastHome_mem (hI.started hwas)
  exact hC q hq _ ht h.tick rfl

theorem HomeInv.hook {x : AxisSetup} {hist : List AxRec} {s : AxSt} (hI : HomeInv x hist s)
    (p : Params) {h : AxHook} (hC : InOrder hist ⟨s, .hook h, axStep p s (.hook h)⟩)
    (hbound : h.tick + hmSettle < 2 ^ 64) :
    HomeInv x (hist ++ [⟨s, .hook h, axStep p s (.hook h)⟩]) (axStep p s (.hook h)) := by
  have hhome : lastHome (hist ++ [⟨s, .hook h, axStep p s (.hook h)⟩]) = lastHome hist := by
    rw [lastHome_concat]
    rfl
  refine ⟨hI.base.step p _, ticks_concat hI.ticks hC, ?_, sw_concat hI.base hI.sw p h, ?_⟩
  · rw [hhome]
    intro hrun
    cases axisRt_homing p h s.ring s.a with
    | kept hphase _ hsince =>
      rw [show (axStep p s (.hook h)).a.hmSince = s.a.hmSince from hsince]
      exact hI.started (hphase ▸ hrun)
    | failed _ hphase => simp [axStep, hphase] at hrun
    | done _ _ hphase => simp [axStep, hphase] at hrun
    | going hwas _ _ hsince =>
      rw [show (axStep p s (.hook h)).a.hmSince = s.a.hmSince from hsince]
      exact hI.started hwas
  · intro hrun hlow
    cases axisRt_homing p h s.ring s.a with
    | kept hphase hseen hsince =>
      rw [show (axStep p s (.hook h)).a.hmSince = s.a.hmSince from hsince]
      exact low_concat hI p hC (hphase ▸ hrun) (hseen ▸ hlow)
    | failed _ hphase => simp [axStep, hphase] at hrun
    | done _ _ hphase => simp [axStep, hphase] at hrun
    | going hwas _ hseen hsince =>
      rw [show (axStep p s (.hook h)).a.hmSince = s.a.hmSince from hsince]
      rcases hseen hlow with hseen | ⟨hle, hbit⟩
      · exact low_concat hI p hC hwas hseen
      · -- bit 12 is low in this very hook
        have hsince_le := since_le hI hC hwas
        rw [u64_of_lt (by unfold hmSettle at hbound; omega)] at hle
        refine ⟨⟨⟨s, .hook h, axStep p s (.hook h)⟩, by simp, h.tick, rfl, hle⟩, fun hup => ?_⟩
        have hup : swBit (axisRt p h s.ring s.a).a.sw 0x1000 = true := hup
        rw [hbit] at hup
        cases hup

/-- A step other than a hook: the inputs stay, and only an accepted `HOME` touches
the homing. -/
theorem HomeInv.quiet {x : AxisSetup} {hist : List AxRec} {s : AxSt} (hI : HomeInv x hist s)
    (p : Params) {e : AxEv} (hC : InOrder hist ⟨s, e, axStep p s e⟩) (he : e.hook? = none)
    (hsw : (axStep p s e).a.sw = s.a.sw)
    (hhome : ((axStep p s e).a.hmPhase = s.a.hmPhase ∧
        (axStep p s e).a.hmSince = s.a.hmSince ∧ (axStep p s e).a.hmSeenLow = s.a.hmSeenLow ∧
        homeAt ⟨s, e, axStep p s e⟩ = none) ∨
      ((axStep p s e).a.hmSeenLow = false ∧
        homeAt ⟨s, e, axStep p s e⟩ = some (axStep p s e).a.hmSince)) :
    HomeInv x (hist ++ [⟨s, e, axStep p s e⟩]) (axStep p s e) := by
  have hvalid : lastValid (hist ++ [⟨s, e, axStep p s e⟩]) = lastValid hist := by
    rw [lastValid_concat]
    simp [validHook, he]
  refine ⟨hI.base.step p e, ticks_concat hI.ticks hC, ?_, ?_, ?_⟩
  · intro hrun
    rw [lastHome_concat]
    rcases hhome with ⟨hphase, hsince, -, hat⟩ | ⟨-, hat⟩
    · rw [hat, hsince, Option.none_or]
      exact hI.started (hphase ▸ hrun)
    · rw [hat]
      rfl
  · rw [hvalid, hsw]
    exact hI.sw
  · intro hrun hlow
    rcases hhome with ⟨hphase, hsince, hseen, -⟩ | ⟨hseen, -⟩
    · obtain ⟨⟨q, hq, hle⟩, hfresh⟩ := hI.low (hphase ▸ hrun) (hseen ▸ hlow)
      rw [hvalid, hsw, hsince]
      exact ⟨⟨q, by simp [hq], hle⟩, hfresh⟩
    · simp [hseen] at hlow

/-- A command and the homing. -/
theorem home_applyCmd (p : Params) (s : AxSt) (c : XCmd) (xe : AxErr) (tick : Nat) :
    let s' := axStep p s (.cmd c xe tick)
    (s'.a.hmPhase = s.a.hmPhase ∧ s'.a.hmSince = s.a.hmSince ∧
        s'.a.hmSeenLow = s.a.hmSeenLow ∧ homeAt ⟨s, .cmd c xe tick, s'⟩ = none) ∨
      (s'.a.hmSeenLow = false ∧ homeAt ⟨s, .cmd c xe tick, s'⟩ = some s'.a.hmSince) := by
  intro s'
  have hs' : s'.a = applyCmd s.shutdown xe tick c s.a := rfl
  rw [hs']
  cases profile_applyCmd s.shutdown xe tick c s.a with
  | refused hacc _ hhm =>
    rw [hhm]
    exact .inl ⟨rfl, rfl, rfl, by simp [homeAt, hacc]⟩
  | point hop _ _ _ hhm =>
    rw [hhm]
    exact .inl ⟨rfl, rfl, rfl, by simp [homeAt, hop]⟩
  | vel hop _ _ hhm =>
    rw [hhm]
    exact .inl ⟨rfl, rfl, rfl, by simp [homeAt, hop]⟩
  | home hop hacc _ hhm =>
    rw [hhm]
    exact .inr ⟨rfl, by simp [homeAt, hop, hacc]⟩

/-! ## Every run -/

/-- Of a homing that runs when the axis is ready to run: the requested mode is
still HM, and from the tenth tick on there have been valid inputs since the
second.  Tick numbers do not reach the end of their range. -/
def HomingWatched (hist : List AxRec) (r : AxRec) : Prop :=
  ∀ h ∈ r.ev.hook?, h.tick + hmSettle < 2 ^ 64 ∧
    (r.pre.a.hmPhase = .running → runsOn h r.pre.a = true →
      r.pre.a.modeReq = .hm ∧
        (r.pre.a.hmSince + hmSettle ≤ h.tick → h.inValid = true ∨
          ∃ q ∈ hist, ∃ m ∈ validHook q, r.pre.a.hmSince + 2 ≤ m.tick))

instance (hist : List AxRec) (r : AxRec) : Decidable (HomingWatched hist r) :=
  inferInstanceAs (Decidable (∀ h ∈ r.ev.hook?, _))

theorem HomeInv.step {x : AxisSetup} {hist : List AxRec} {s : AxSt} (hI : HomeInv x hist s)
    (p : Params) (e : AxEv) (hC : InOrder hist ⟨s, e, axStep p s e⟩)
    (hW : HomingWatched hist ⟨s, e, axStep p s e⟩) :
    HomeInv x (hist ++ [⟨s, e, axStep p s e⟩]) (axStep p s e) := by
  cases e with
  | cmd c xe tick =>
    exact hI.quiet p hC rfl (by simp [axStep]) (home_applyCmd p s c xe tick)
  | setpoint sp => exact hI.quiet p hC rfl rfl (.inl ⟨rfl, rfl, rfl, rfl⟩)
  | shutdown => exact hI.quiet p hC rfl rfl (.inl ⟨rfl, rfl, rfl, rfl⟩)
  | hook h => exact hI.hook p hC (hW h rfl).1

/-- A homing that was started in tick `s` ends with a statusword of valid inputs
from `s + 2` on. -/
def EndsFresh (hist : List AxRec) (r : AxRec) (h : AxHook) (s : Nat) : Prop :=
  ∃ m ∈ lastValid (hist ++ [r]), s + 2 ≤ m.tick ∧ m.tick ≤ h.tick ∧
    r.post.a.sw = statusword r.post.a.b m ∧ r.post.a.sw &&& 0x1400 = 0x1400

instance (hist : List AxRec) (r : AxRec) (h : AxHook) (s : Nat) :
    Decidable (EndsFresh hist r h s) :=
  inferInstanceAs (Decidable (∃ m ∈ lastValid (hist ++ [r]), _))

/-- The end of a homing is from this homing, and it comes in time. -/
def HomingFresh (timeout : Nat) (hist : List AxRec) (r : AxRec) : Prop :=
  ∀ h ∈ r.ev.hook?,
    (r.pre.a.hmPhase ≠ .done → r.post.a.hmPhase = .done →
      ∃ s ∈ lastHome hist, EndsFresh hist r h s) ∧
    (h.busLost = false → r.post.a.hmPhase = .running →
      ∃ s ∈ lastHome hist, s ≤ h.tick ∧ h.tick - s ≤ timeout)

instance (timeout : Nat) (hist : List AxRec) (r : AxRec) :
    Decidable (HomingFresh timeout hist r) :=
  inferInstanceAs (Decidable (∀ h ∈ r.ev.hook?, _))

/-- The statusword that ends a homing is from valid inputs two ticks after its
start. -/
theorem ends_fresh {x : AxisSetup} {hist : List AxRec} {s : AxSt} (hI : HomeInv x hist s)
    {p : Params} {h : AxHook} (hC : InOrder hist ⟨s, .hook h, axStep p s (.hook h)⟩)
    (hbound : h.tick + hmSettle < 2 ^ 64) (hrun : s.a.hmPhase = .running)
    (hseen : u64 (s.a.hmSince + 2) ≤ h.tick)
    (hbits : (axisRt p h s.ring s.a).a.sw &&& 0x1400 = 0x1400)
    (hwhy : s.a.hmSeenLow = true ∨ u64 (s.a.hmSince + hmSettle) ≤ h.tick)
    (hkeep : s.a.hmSince + hmSettle ≤ h.tick → h.inValid = true ∨
      ∃ q ∈ hist, ∃ m ∈ validHook q, s.a.hmSince + 2 ≤ m.tick) :
    ∃ m ∈ lastValid (hist ++ [⟨s, .hook h, axStep p s (.hook h)⟩]), s.a.hmSince + 2 ≤ m.tick := by
  have hsince := since_le hI hC hrun
  have hsettle : hmSettle = 10 := rfl
  rcases hwhy with hlow | htime
  · exact (low_concat hI p hC hrun hlow).2 (swBit_twelve hbits)
  · rw [u64_of_lt (by omega)] at htime hseen
    rw [lastValid_hook]
    split_ifs with hv
    · exact ⟨h, rfl, hseen⟩
    · obtain ⟨q, hq, m, hm, hle⟩ := (hkeep htime).resolve_left hv
      obtain ⟨m', hm', hle'⟩ := lastValid_le hI.ticks hq hm
      exact ⟨m', hm', by omega⟩

/-- **Homing.**  In every run with ticks that increase by 1, in which a homing sees
valid inputs before its tenth tick and keeps its mode, the end of a homing is
from this homing and in time. -/
theorem homing_is_fresh (cfg : Config) (evs : List Event) (i : Fin cfg.axes.length)
    (hticks : TicksByOne evs) (hwatched : cfg.AxisAlong evs i HomingWatched) :
    cfg.AxisAlong evs i (HomingFresh cfg.boot.c.p.homeTimeoutTicks) := by
  have hordered : cfg.AxisAlong evs i InOrder :=
    Along.of_pairwise (ticks_axisEvs i evs cfg.boot hticks.pairwise).1 _
  refine Along.of_invariant (I := HomeInv (cfg.axes.get i)) (homeInv_init _)
    (fun hist s e hI hC => hI.step _ e hC.1 hC.2) ?_ (hordered.and hwatched)
  rintro hist s ev hI ⟨hC, hW⟩ h hh
  obtain ⟨h', rfl⟩ := exists_hook (Option.isSome_of_mem hh)
  cases (Option.some.inj hh)
  obtain ⟨hbound, hkeep⟩ := hW h rfl
  have hb : s.a.b = (cfg.axes.get i).b := by rw [hI.base.cfg]; rfl
  have hstep := axisRt_homing cfg.boot.c.p h s.ring s.a
  refine ⟨fun hwas hdone => ?_, fun hbus hrun => ?_⟩
  · have hdone : (axisRt cfg.boot.c.p h s.ring s.a).a.hmPhase = .done := hdone
    cases hstep with
    | kept hphase => exact absurd (hphase ▸ hdone) hwas
    | failed _ hphase => simp [hphase] at hdone
    | going _ hphase => simp [hphase] at hdone
    | done hrun hruns _ hseen hbits hwhy =>
      have hsince := since_le hI hC hrun
      obtain ⟨m, hm, hle⟩ := ends_fresh hI hC hbound hrun hseen hbits hwhy (hkeep hrun hruns).2
      refine ⟨s.a.hmSince, hI.started hrun, m, hm, hle, ?_, ?_, hbits⟩
      · rw [lastValid_hook] at hm
        split_ifs at hm
        · cases hm
          exact Nat.le_refl _
        · obtain ⟨q, hq, ht⟩ := lastValid_mem hm
          exact hC q hq _ ht h.tick rfl
      · have hsw := sw_concat hI.base hI.sw cfg.boot.c.p h m hm
        rw [hsw, ← hb]
        simp [axStep]
  · have hrun : (axisRt cfg.boot.c.p h s.ring s.a).a.hmPhase = .running := hrun
    cases hstep with
    | kept hphase _ _ hwhy =>
      have hwas : s.a.hmPhase = .running := hphase ▸ hrun
      rcases hwhy with hno | hlost | ⟨hruns, hmode⟩
      · exact absurd hwas hno
      · simp [hlost] at hbus
      · exact absurd (hkeep hwas hruns).1 hmode
    | failed _ hphase => simp [hphase] at hrun
    | done _ _ hphase => simp [hphase] at hrun
    | going hwas _ _ _ htime =>
      have hsince := since_le hI hC hwas
      rw [sub64_of_le hsince] at htime
      exact ⟨s.a.hmSince, hI.started hwas, hsince, htime⟩

/-- A homing is started in tick 7 with bits 10 and 12 still up, and the ten hooks
after that have no valid inputs. -/
def homingBlind : List Event :=
  [ smallCmd .setMode 6, smallCmd .enable 0, smallHook 6 0x1427 1000 6,
    smallCmd .home 0, smallHook 7 0x1427 1000 6 ] ++
  (List.range 10).map fun n => smallBlind (8 + n)

/-- A homing is started in tick 7, and in tick 8 the axis is in CSP, which the drive
confirms at once. -/
def homingForgotten : List Event :=
  [ smallCmd .setMode 6, smallCmd .enable 0, smallHook 6 0x27 1000 6,
    smallCmd .home 0, smallHook 7 0x27 1000 6, smallCmd .setMode 8 ] ++
  (List.range 31).map fun n => smallHook (8 + n) 0x27 1000 8

/-- In `homingBlind` the homing is done with the statusword of tick 7, and in
`homingForgotten` it still runs after 31 ticks, with a time-out of 30. -/
theorem homing_stale :
    (TicksByOne homingBlind ∧
      ¬ smallConfig.AxisAlong homingBlind ⟨0, by decide⟩
        (HomingFresh smallConfig.boot.c.p.homeTimeoutTicks)) ∧
    TicksByOne homingForgotten ∧
      ¬ smallConfig.AxisAlong homingForgotten ⟨0, by decide⟩
        (HomingFresh smallConfig.boot.c.p.homeTimeoutTicks) := by
  decide +kernel

/-- A run that meets the condition: bit 12 goes low and up again. -/
theorem homing_is_fresh_small :
    smallConfig.AxisAlong
      [ smallCmd .setMode 6, smallCmd .enable 0, smallHook 6 0x1427 1000 6,
        smallCmd .home 0, smallHook 7 0x1427 1000 6, smallHook 8 0x1427 1000 6,
        smallBlind 9, smallHook 10 0x427 1000 6, smallHook 11 0x1427 1000 6 ]
      ⟨0, by decide⟩ (HomingFresh smallConfig.boot.c.p.homeTimeoutTicks) :=
  homing_is_fresh smallConfig _ ⟨0, by decide⟩ (by decide) (by decide)

end EcMaster.Cia402
