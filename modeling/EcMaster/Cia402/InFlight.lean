import EcMaster.Cia402.Run

/-!
# Nothing in flight survives a stop

The profile modes are moved by commands: a point of PP, a velocity of PV, the
start of a homing.  `Motion` is one such order, and `InFlight` says that an axis
has it still before it: a point in the queue or raised, a velocity that is not
0, a homing that runs.

Every step either keeps a motion in flight or ends it, and only an accepted
command starts one (`inFlight_axisRt`, `inFlight_applyCmd`).  A hook with a bus
in which the axis does not run ends all of them.  So what an axis does in a
profile mode goes back to a command after its last stop, with two exceptions:

* a hook without a bus returns before the code that ends the motions, and
* a handshake of PP that times out keeps the rest of the queue,

and in both cases an `ENABLE` in the very next hook finds them again.
`motion_survives_stop` has such runs, and `nothing_survives_stop` says that
there is no other way.
-/

namespace EcMaster.Cia402

open EcMaster.Run EcMaster.Xchg

/-! ## Motions -/

/-- An order to an axis in a profile mode. -/
inductive Motion where
  | point (v : Int) (flags : Nat)
  | vel (v : Int)
  | home
deriving DecidableEq, Repr

/-- The axis has the motion before it. -/
def InFlight (pp : PpState) (hm : HmState) : Motion → Prop
  | .point v f =>
      (∃ i < pp.ppN, pp.ppQ ((pp.ppHead + i) % ppQueue) = v ∧
        pp.ppQf ((pp.ppHead + i) % ppQueue) = f) ∨
      (pp.ppPhase = .up ∧ pp.ppCur = v ∧ pp.ppFlags = f)
  | .vel v => hm.pvVel = v ∧ v ≠ 0
  | .home => hm.hmPhase = .running

/-- Nothing is in flight. -/
def Axis.idle (a : Axis) : Bool :=
  a.ppN = 0 && a.ppPhase ≠ .up && a.pvVel = 0 && a.hmPhase ≠ .running

theorem not_inFlight_of_idle {a : Axis} (hidle : a.idle = true) (m : Motion) :
    ¬ InFlight a.toPpState a.toHmState m := by
  simp only [Axis.idle, ne_eq, decide_not, Bool.and_eq_true, decide_eq_true_eq,
    Bool.not_eq_true', decide_eq_false_iff_not] at hidle
  obtain ⟨⟨⟨hn, hphase⟩, hvel⟩, hhm⟩ := hidle
  cases m with
  | point v f =>
    rintro (⟨i, hi, -⟩ | ⟨hup, -⟩)
    · omega
    · exact hphase hup
  | vel v =>
    rintro ⟨hv, hne⟩
    exact hne (hv ▸ hvel)
  | home => exact hhm

/-- The queue of PP is a ring of 16 points. -/
structure PpOk (pp : PpState) : Prop where
  head : pp.ppHead < ppQueue
  n : pp.ppN ≤ ppQueue

/-! ## Step 7 ends motions and starts none -/

theorem inFlight_clearProfile {w : Work} {m : Motion}
    (hm : InFlight (clearProfile w).a.toPpState (clearProfile w).a.toHmState m) :
    w.running = true ∧ InFlight w.a.toPpState w.a.toHmState m := by
  by_cases hrun : w.running = true
  · have hkeep : clearProfile w = w := if_pos hrun
    rw [hkeep] at hm
    exact ⟨hrun, hm⟩
  · refine absurd hm (not_inFlight_of_idle ?_ m)
    unfold clearProfile
    dsimp only
    rw [if_neg hrun]
    by_cases hphase : w.a.hmPhase = .running
    · simp [Axis.idle, hphase]
    · simp [Axis.idle, hphase]

theorem ppOk_clearProfile {w : Work} (hok : PpOk w.a.toPpState) :
    PpOk (clearProfile w).a.toPpState := by
  unfold clearProfile
  dsimp only
  split_ifs
  · exact hok
  all_goals exact ⟨hok.head, Nat.zero_le _⟩

/-- Raising a point takes the head of the queue. -/
theorem inFlight_ppRaise {h : AxHook} {w : Work} {m : Motion} (hok : PpOk w.a.toPpState)
    (hne : w.a.ppN ≠ 0)
    (hm : InFlight (ppRaise h w).a.toPpState (ppRaise h w).a.toHmState m) :
    InFlight w.a.toPpState w.a.toHmState m := by
  have hhead := hok.head
  cases m with
  | point v f =>
    rcases hm with ⟨i, hi, hv, hf⟩ | ⟨-, hv, hf⟩
    · simp only [ppRaise] at hi hv hf
      have hidx : ((w.a.ppHead + 1) % ppQueue + i) % ppQueue =
          (w.a.ppHead + (i + 1)) % ppQueue := by
        unfold ppQueue
        omega
      rw [hidx] at hv hf
      exact .inl ⟨i + 1, by omega, hv, hf⟩
    · have hidx : (w.a.ppHead + 0) % ppQueue = w.a.ppHead := Nat.mod_eq_of_lt hhead
      exact .inl ⟨0, by omega, by rw [hidx]; exact hv, by rw [hidx]; exact hf⟩
  | vel v => exact hm
  | home => exact hm

/-- With the handshake at rest, the queue is all there is. -/
theorem inFlight_of_queue {pp pp' : PpState} {hm : HmState} {m : Motion}
    (hm' : InFlight pp' hm m) (hphase : pp'.ppPhase ≠ .up) (hq : pp'.ppQ = pp.ppQ)
    (hqf : pp'.ppQf = pp.ppQf) (hhead : pp'.ppHead = pp.ppHead) (hn : pp'.ppN = pp.ppN) :
    InFlight pp hm m := by
  cases m with
  | point v f =>
    rcases hm' with ⟨i, hi, hv, hf⟩ | ⟨hup, -⟩
    · rw [hq, hhead] at hv
      rw [hqf, hhead] at hf
      exact .inl ⟨i, by omega, hv, hf⟩
    · exact absurd hup hphase
  | vel v => exact hm'
  | home => exact hm'

theorem inFlight_ppHandshake {p : Params} {h : AxHook} {w : Work} {m : Motion}
    (hok : PpOk w.a.toPpState) (hrest : w.running = false → w.a.ppPhase ≠ .up)
    (hm : InFlight (ppHandshake p h w).a.toPpState (ppHandshake p h w).a.toHmState m) :
    InFlight w.a.toPpState w.a.toHmState m := by
  unfold ppHandshake at hm
  split at hm
  · rename_i hrun
    exact inFlight_of_queue hm (hrest (by simpa using hrun)) rfl rfl rfl rfl
  · split at hm
    · split_ifs at hm with hnext
      · exact inFlight_ppRaise hok hnext.1 hm
      · exact hm
    · split_ifs at hm
      · exact inFlight_of_queue hm (by simp) rfl rfl rfl rfl
      · exact inFlight_of_queue hm (by simp [ppTimeout]) rfl rfl rfl rfl
      · exact hm
    · split_ifs at hm
      · exact inFlight_of_queue hm (by simp) rfl rfl rfl rfl
      · exact hm

theorem ppOk_ppHandshake (p : Params) (h : AxHook) {w : Work} (hok : PpOk w.a.toPpState) :
    PpOk (ppHandshake p h w).a.toPpState := by
  have hhead := hok.head
  have hn := hok.n
  unfold ppHandshake ppRaise ppTimeout
  split
  · exact ⟨hhead, hn⟩
  · split <;> split_ifs
    · exact ⟨Nat.mod_lt _ (by decide), by show w.a.ppN - 1 ≤ ppQueue; omega⟩
    all_goals exact ⟨hhead, hn⟩

theorem hmProgress_pp (p : Params) (h : AxHook) (a : Axis) :
    (hmProgress p h a).toPpState = a.toPpState ∧ (hmProgress p h a).pvVel = a.pvVel := by
  unfold hmProgress
  dsimp only
  split_ifs <;> exact ⟨rfl, rfl⟩

theorem inFlight_hmProgress {p : Params} {h : AxHook} {a : Axis} {m : Motion}
    (hrun : a.hmPhase = .running)
    (hm : InFlight (hmProgress p h a).toPpState (hmProgress p h a).toHmState m) :
    InFlight a.toPpState a.toHmState m := by
  obtain ⟨hpp, hvel⟩ := hmProgress_pp p h a
  cases m with
  | point v f =>
    rw [hpp] at hm
    exact hm
  | vel v => exact ⟨hvel ▸ hm.1, hm.2⟩
  | home => exact hrun

/-- Step 7 as a whole: the axis runs, and the motion was there before. -/
theorem inFlight_profileOut {p : Params} {h : AxHook} {w : Work} {m : Motion}
    (hok : PpOk w.a.toPpState)
    (hm : InFlight (profileOut p h w).a.toPpState (profileOut p h w).a.toHmState m) :
    w.running = true ∧ InFlight w.a.toPpState w.a.toHmState m := by
  apply inFlight_clearProfile
  have hok' := ppOk_clearProfile hok
  -- an axis that does not run has just lost its raised point
  have hrest : (clearProfile w).running = false → (clearProfile w).a.ppPhase ≠ .up := by
    intro hrun hup
    have hin : InFlight (clearProfile w).a.toPpState (clearProfile w).a.toHmState
        (.point (clearProfile w).a.ppCur (clearProfile w).a.ppFlags) := .inr ⟨hup, rfl, rfl⟩
    rw [(clearProfile_frame w).running, (inFlight_clearProfile hin).1] at hrun
    cases hrun
  unfold profileOut at hm
  dsimp only at hm
  split at hm
  · rw [ppOut_axis] at hm
    exact inFlight_ppHandshake hok' hrest hm
  · rw [pvOut_axis] at hm
    exact hm
  · rcases hmOut_axis p h (clearProfile w) with heq | ⟨-, hphase, heq⟩
    · rw [heq] at hm
      exact hm
    · rw [heq] at hm
      exact inFlight_hmProgress hphase hm
  · exact hm

theorem ppOk_profileOut (p : Params) (h : AxHook) {w : Work} (hok : PpOk w.a.toPpState) :
    PpOk (profileOut p h w).a.toPpState := by
  have hok' := ppOk_clearProfile hok
  unfold profileOut
  dsimp only
  split
  · rw [ppOut_axis]
    exact ppOk_ppHandshake p h hok'
  · rw [pvOut_axis]
    exact hok'
  · rcases hmOut_axis p h (clearProfile w) with heq | ⟨-, -, heq⟩
    · rw [heq]
      exact hok'
    · rw [heq, (hmProgress_pp p h _).1]
      exact hok'
  · exact hok'

/-! ## Hooks and commands -/

/-- A hook starts no motion.  With a bus, only an axis that runs keeps one. -/
theorem inFlight_axisRt {p : Params} {h : AxHook} (ring : XRing XSp) {a : Axis} {m : Motion}
    (hok : PpOk a.toPpState) (hlive : h.busLost = false)
    (hm : InFlight (axisRt p h ring a).a.toPpState (axisRt p h ring a).a.toHmState m) :
    runsOn h a = true ∧ InFlight a.toPpState a.toHmState m := by
  obtain ⟨w, heq, hfr⟩ := back_eq p h ring (front p h a)
  rw [(axisRt_live ring a hlive).1, heq] at hm
  have hpp : w.a.toPpState = a.toPpState := by simpa using hfr.pp
  have hhm : w.a.toHmState = a.toHmState := by simpa using hfr.hm
  obtain ⟨hrun, hin⟩ := inFlight_profileOut (hpp ▸ hok) hm
  refine ⟨?_, hpp ▸ hhm ▸ hin⟩
  rw [← front_runs_eq p h a]
  exact hfr.running hrun

theorem ppOk_axisRt (p : Params) (h : AxHook) (ring : XRing XSp) {a : Axis}
    (hok : PpOk a.toPpState) : PpOk (axisRt p h ring a).a.toPpState := by
  cases hlost : h.busLost with
  | true =>
    rw [(axisRt_lost ring a hlost).1]
    simpa using hok
  | false =>
    obtain ⟨w, heq, hfr⟩ := back_eq p h ring (front p h a)
    have hpp : w.a.toPpState = a.toPpState := by simpa using hfr.pp
    rw [(axisRt_live ring a hlost).1, heq]
    exact ppOk_profileOut p h (hpp ▸ hok)

/-- The command orders the motion. -/
def Orders (c : XCmd) : Motion → Prop
  | .point v f => c.op = .ppPoint ∧ c.arg0 = v ∧ (c.arg1 % 256).toNat = f
  | .vel v => c.op = .pvVel ∧ c.arg0 = v
  | .home => c.op = .home

instance (c : XCmd) : (m : Motion) → Decidable (Orders c m)
  | .point _ _ => inferInstanceAs (Decidable (_ ∧ _ ∧ _))
  | .vel _ => inferInstanceAs (Decidable (_ ∧ _))
  | .home => inferInstanceAs (Decidable (_ = _))

/-- A new point leaves the points of the queue where they are. -/
theorem inFlight_push {pp : PpState} {hm : HmState} {v w : Int} {f g : Nat} (hok : PpOk pp)
    (hroom : pp.ppN ≠ ppQueue)
    (hin : InFlight
      { pp with
        ppQ := Function.update pp.ppQ ((pp.ppHead + pp.ppN) % ppQueue) v
        ppQf := Function.update pp.ppQf ((pp.ppHead + pp.ppN) % ppQueue) f
        ppN := pp.ppN + 1 } hm (.point w g)) :
    InFlight pp hm (.point w g) ∨ (v = w ∧ f = g) := by
  have hn := hok.n
  rcases hin with ⟨i, hi, hv, hf⟩ | hup
  · simp only at hi hv hf
    by_cases hlast : i = pp.ppN
    · subst hlast
      rw [Function.update_self] at hv hf
      exact .inr ⟨hv, hf⟩
    · have hne : (pp.ppHead + i) % ppQueue ≠ (pp.ppHead + pp.ppN) % ppQueue := by
        unfold ppQueue at *
        omega
      rw [Function.update_of_ne hne] at hv hf
      exact .inl (.inl ⟨i, by omega, hv, hf⟩)
  · exact .inl (.inr hup)

/-- Only an accepted command starts a motion. -/
theorem inFlight_applyCmd {shutdown : Bool} {xe : AxErr} {tick : Nat} {c : XCmd} {a : Axis}
    {m : Motion} (hok : PpOk a.toPpState)
    (hm : InFlight (applyCmd shutdown xe tick c a).toPpState
      (applyCmd shutdown xe tick c a).toHmState m) :
    InFlight a.toPpState a.toHmState m ∨ (Orders c m ∧ profileAccepted c a = true) := by
  cases profile_applyCmd shutdown xe tick c a with
  | refused hacc hpp hhm =>
    rw [hpp, hhm] at hm
    exact .inl (by cases m <;> exact hm)
  | point hop hacc hroom hpp hhm =>
    rw [hpp, hhm] at hm
    cases m with
    | point w g =>
      exact (inFlight_push hok hroom hm).imp_right fun ⟨hv, hf⟩ => ⟨⟨hop, hv, hf⟩, hacc⟩
    | vel w => exact .inl hm
    | home => exact .inl hm
  | vel hop hacc hpp hhm =>
    rw [hpp, hhm] at hm
    cases m with
    | point w g => exact .inl hm
    | vel w => exact .inr ⟨⟨hop, hm.1⟩, hacc⟩
    | home => exact .inl hm
  | home hop hacc hpp hhm =>
    rw [hpp, hhm] at hm
    cases m with
    | point w g => exact .inl hm
    | vel w => exact .inl hm
    | home => exact .inr ⟨hop, hacc⟩

theorem ppOk_applyCmd (shutdown : Bool) (xe : AxErr) (tick : Nat) (c : XCmd) {a : Axis}
    (hok : PpOk a.toPpState) : PpOk (applyCmd shutdown xe tick c a).toPpState := by
  cases profile_applyCmd shutdown xe tick c a with
  | refused hacc hpp hhm =>
    rw [hpp]
    exact ⟨hok.head, hok.n⟩
  | point hop hacc hroom hpp hhm =>
    rw [hpp]
    have hn := hok.n
    exact ⟨hok.head, by show a.ppN + 1 ≤ ppQueue; omega⟩
  | vel hop hacc hpp hhm => exact hpp ▸ hok
  | home hop hacc hpp hhm => exact hpp ▸ hok

/-! ## What the outputs show -/

/-- Bit 4 is written for a raised point of PP or for a homing. -/
theorem axisRt_bit4 {p : Params} {h : AxHook} {ring : XRing XSp} {a : Axis} {cw : Nat}
    (hout : (axisRt p h ring a).out.cw = some cw) (hbit : cw.testBit 4 = true) :
    runsOn h a = true ∧
      ((a.modeReq = .pp ∧ (axisRt p h ring a).a.ppPhase = .up ∧
          cw = 0x000F ||| ppBits (axisRt p h ring a).a.ppFlags) ∨
        (a.modeReq = .hm ∧ (axisRt p h ring a).a.hmPhase = .running)) := by
  cases hlost : h.busLost with
  | true => simp [(axisRt_lost ring a hlost).1, Outputs.silent] at hout
  | false =>
    obtain ⟨w, heq, hfr⟩ := back_eq p h ring (front p h a)
    obtain ⟨ha, hcw, -⟩ := axisRt_live (p := p) ring a hlost
    rw [hcw, heq, Option.some.injEq] at hout
    rw [heq] at ha
    have hmode : w.a.modeReq = a.modeReq := by simpa using congrArg ModeState.modeReq hfr.mode
    have hruns (hrun : w.running = true) : runsOn h a = true := by
      rw [← front_runs_eq p h a]
      exact hfr.running hrun
    have hlow : w.cw.testBit 4 = false := by
      rcases hfr.cw with h0 | h0 <;> rw [h0]
      · rcases front_cw p h a with hlt | h80
        · exact Nat.testBit_lt_two_pow hlt
        · rw [h80]
          decide
      · decide
    rw [ha]
    cases profileOut_cw p h w with
    | same hsame => simp [← hout, hsame, hlow] at hbit
    | timeout hto =>
      rw [← hout, hto] at hbit
      simp [Nat.testBit] at hbit
    | ppUp hwas hup ht hrun hpp hphase =>
      exact ⟨hruns hrun, .inl ⟨hmode ▸ hpp, hphase, hout ▸ hup⟩⟩
    | hmUp hwas hup ht hrun hhm hphase => exact ⟨hruns hrun, .inr ⟨hmode ▸ hhm, hphase⟩⟩

/-- Bit 4 goes up for a point of PP or for a homing that was in flight before. -/
theorem axisRt_bit_four {p : Params} {h : AxHook} {ring : XRing XSp} {a : Axis} {cw : Nat}
    (hok : PpOk a.toPpState) (hout : (axisRt p h ring a).out.cw = some cw)
    (hbit : cw.testBit 4 = true) :
    runsOn h a = true ∧
      ((a.modeReq = .pp ∧ InFlight a.toPpState a.toHmState
          (.point (axisRt p h ring a).a.ppCur (axisRt p h ring a).a.ppFlags)) ∨
        (a.modeReq = .hm ∧ InFlight a.toPpState a.toHmState .home)) := by
  obtain ⟨hruns, hwhy⟩ := axisRt_bit4 hout hbit
  have hlive : h.busLost = false := by
    simp only [runsOn, Bool.and_eq_true, Bool.not_eq_true'] at hruns
    exact hruns.1.1.1.1.1
  refine ⟨hruns, ?_⟩
  rcases hwhy with ⟨hpp, hup, -⟩ | ⟨hhm, hphase⟩
  · have hpoint : InFlight (axisRt p h ring a).a.toPpState (axisRt p h ring a).a.toHmState
        (.point (axisRt p h ring a).a.ppCur (axisRt p h ring a).a.ppFlags) := .inr ⟨hup, rfl, rfl⟩
    exact .inl ⟨hpp, (inFlight_axisRt ring hok hlive hpoint).2⟩
  · exact .inr ⟨hhm, (inFlight_axisRt (m := .home) ring hok hlive hphase).2⟩

/-- A velocity other than 0 is written in PV only if it was in flight before. -/
theorem axisRt_pv {p : Params} {h : AxHook} {ring : XRing XSp} {a : Axis} {v : Int}
    (hmode : a.modeReq = .pv) (hout : (axisRt p h ring a).out.tvel = some v) (hv : v ≠ 0) :
    runsOn h a = true ∧ InFlight a.toPpState a.toHmState (.vel v) := by
  cases hlost : h.busLost with
  | true => simp [(axisRt_lost ring a hlost).1, Outputs.silent] at hout
  | false =>
    obtain ⟨w, heq, hfr⟩ := back_eq p h ring (front p h a)
    obtain ⟨-, -, -, htvel, -⟩ := axisRt_live (p := p) ring a hlost
    have hmode' : w.a.modeReq = .pv := by
      simpa [hmode] using congrArg ModeState.modeReq hfr.mode
    have hvel : w.a.pvVel = a.pvVel := by simpa using congrArg HmState.pvVel hfr.hm
    obtain ⟨hrun, -, htv, -⟩ := hfr.profile (by simp [hmode, OpMode.cyclic])
    rw [htvel, heq, profileOut_tvel] at hout
    split_ifs at hout with hmap hrunning
    · refine ⟨by rw [← front_runs_eq p h a, ← hrun]; exact hrunning, ?_, hv⟩
      rw [← hvel]
      exact Option.some.inj hout
    · exact absurd (Option.some.inj hout).symm hv
    · simp [htv] at hout

/-! ## Histories -/

/-- A hook at which the axis does not run: there is no bus, or the axis is not
enabled, not in Operation enabled or not in the requested mode, or the hook has
taken the target away. -/
def Stopped (q : AxRec) : Bool :=
  q.ev.hook?.isSome && !(live q && q.post.a.running && q.post.a.target = .enabled)

/-- An accepted command for the motion. -/
def Commands (m : Motion) (q : AxRec) : Prop :=
  match q.ev with
  | .cmd c _ _ => Orders c m ∧ profileAccepted c q.pre.a = true
  | _ => False

instance (m : Motion) : DecidablePred (Commands m)
  | ⟨pre, .cmd c _ _, _⟩ =>
      inferInstanceAs (Decidable (Orders c m ∧ profileAccepted c pre.a = true))
  | ⟨_, .setpoint _, _⟩ | ⟨_, .shutdown, _⟩ | ⟨_, .hook _, _⟩ => inferInstanceAs (Decidable False)

/-- The motion was commanded after the last stop. -/
def CommandedSinceStop (m : Motion) (hist : List AxRec) : Prop :=
  Since (Commands m) (fun after => ∀ q ∈ after, Stopped q = false) hist

instance (m : Motion) (hist : List AxRec) : Decidable (CommandedSinceStop m hist) := by
  unfold CommandedSinceStop
  infer_instance

/-- The steps after the last hook, newest first.  At a hook these are its own
commands and what the application did before it. -/
def sinceHook (hist : List AxRec) : List AxRec :=
  hist.reverse.takeWhile fun q => q.ev.hook?.isNone

/-- The command that the event is, if it is one. -/
def AxEv.cmd? : AxEv → Option XCmd
  | .cmd c _ _ => some c
  | _ => none

/-- The command of this step was for a profile mode and has ordered nothing. -/
def Refused (q : AxRec) : Prop :=
  q.post.a.ppN = q.pre.a.ppN ∧ q.post.a.toHmState = q.pre.a.toHmState

/-- Bit 4 and a velocity other than 0 in PV are on account of a command after the
last stop, and without a bus the commands of the profile modes are refused. -/
def FreshMotion (hist : List AxRec) (r : AxRec) : Prop :=
  ∀ h ∈ r.ev.hook?,
    (∀ cw ∈ r.post.out.cw, cw.testBit 4 = true →
      (r.post.a.modeReq = .pp ∧
        CommandedSinceStop (.point r.post.a.ppCur r.post.a.ppFlags) hist) ∨
      (r.post.a.modeReq = .hm ∧ CommandedSinceStop .home hist)) ∧
    (r.post.a.modeReq = .pv → ∀ v ∈ r.post.out.tvel, v ≠ 0 →
      CommandedSinceStop (.vel v) hist) ∧
    (h.busLost = true → ∀ q ∈ sinceHook hist, ∀ c ∈ q.ev.cmd?,
      c.op.profileMode.isSome → Refused q)

instance (q : AxRec) : Decidable (Refused q) := inferInstanceAs (Decidable (_ ∧ _))

instance (hist : List AxRec) (r : AxRec) : Decidable (FreshMotion hist r) :=
  inferInstanceAs (Decidable (∀ h ∈ r.ev.hook?, _))

/-- The two ways in which a motion survives do not occur at this step.  A hook that
finds the axis ready to run has nothing in flight left from a stop at the hook
before it.  A hook without a bus has no command for the mode in which the axis
ran at the last hook with a bus, a point for a full queue apart. -/
def NothingLeft (hist : List AxRec) (r : AxRec) : Prop :=
  ∀ h ∈ r.ev.hook?,
    (runsOn h r.pre.a = true → ∀ q ∈ lastHook hist, Stopped q = true → q.post.a.idle = true) ∧
    (h.busLost = true → ∀ l ∈ lastLive hist, l.post.a.running = true →
      ∀ q ∈ sinceHook hist, ∀ c ∈ q.ev.cmd?,
        c.op.profileMode ≠ some q.pre.a.modeReq ∨ (c.op = .ppPoint ∧ q.pre.a.ppN = ppQueue))

instance (hist : List AxRec) (r : AxRec) : Decidable (NothingLeft hist r) :=
  inferInstanceAs (Decidable (∀ h ∈ r.ev.hook?, _))

/-- What is known after a history: the flag `running` is that of the last hook with
a bus, and unless the last hook left something over from a stop, every motion
in flight was commanded after the last stop. -/
structure MotionInv (p : Params) (hist : List AxRec) (s : AxSt) : Prop where
  ok : PpOk s.a.toPpState
  flag : s.a.running = (lastLive hist).any fun q => q.post.a.running
  pending : ∀ q ∈ sinceHook hist, q.pre.a.running = s.a.running ∧ q.post = axStep p q.pre q.ev
  fresh : (∀ q ∈ lastHook hist, Stopped q = true → q.post.a.idle = true) →
    ∀ m, InFlight s.a.toPpState s.a.toHmState m → CommandedSinceStop m hist

theorem motionInv_init (p : Params) (x : AxisSetup) : MotionInv p [] x.init := by
  refine ⟨⟨?_, ?_⟩, rfl, by simp [sinceHook], fun _ m hm => ?_⟩
  · show 0 < ppQueue
    decide
  · show 0 ≤ ppQueue
    decide
  · exact absurd hm (not_inFlight_of_idle (a := x.start) rfl m)

theorem sinceHook_concat (hist : List AxRec) (r : AxRec) :
    sinceHook (hist ++ [r]) = if r.ev.hook?.isNone then r :: sinceHook hist else [] := by
  unfold sinceHook
  rw [List.reverse_append, List.reverse_singleton, List.singleton_append, List.takeWhile_cons]

/-- A step other than a hook, which can only start a motion by a command. -/
theorem MotionInv.quiet {p : Params} {hist : List AxRec} {s : AxSt} {e : AxEv}
    (hI : MotionInv p hist s) (he : e.hook? = none) (hok : PpOk (axStep p s e).a.toPpState)
    (hrun : (axStep p s e).a.running = s.a.running)
    (hstart : ∀ m, InFlight (axStep p s e).a.toPpState (axStep p s e).a.toHmState m →
      InFlight s.a.toPpState s.a.toHmState m ∨ Commands m ⟨s, e, axStep p s e⟩) :
    MotionInv p (hist ++ [⟨s, e, axStep p s e⟩]) (axStep p s e) := by
  have hlive : live ⟨s, e, axStep p s e⟩ = false := by
    cases e <;> simp_all [live, AxEv.hook?]
  refine ⟨hok, ?_, ?_, ?_⟩
  · rw [hrun, hI.flag, lastLive_concat, if_neg (by simp [hlive])]
  · rw [sinceHook_concat, if_pos (by simp [he])]
    intro q hq
    rcases List.mem_cons.1 hq with rfl | hq
    · exact ⟨hrun.symm, rfl⟩
    · rw [hrun]
      exact hI.pending q hq
  · intro hleft m hm
    have hleft' : ∀ q ∈ lastHook hist, Stopped q = true → q.post.a.idle = true := by
      simpa [he] using hleft
    rcases hstart m hm with hwas | hcmd
    · refine (hI.fresh hleft' m hwas).concat fun after hafter q hq => ?_
      rcases List.mem_append.1 hq with hq | hq
      · exact hafter q hq
      · rw [List.mem_singleton.1 hq]
        simp [Stopped, he]
    · exact Since.now hist hcmd (by simp)

/-- A hook. -/
theorem MotionInv.hook {p : Params} {hist : List AxRec} {s : AxSt} {h : AxHook}
    (hI : MotionInv p hist s)
    (hC : NothingLeft hist ⟨s, .hook h, axStep p s (.hook h)⟩) :
    MotionInv p (hist ++ [⟨s, .hook h, axStep p s (.hook h)⟩]) (axStep p s (.hook h)) := by
  refine ⟨ppOk_axisRt p h s.ring hI.ok, ?_, ?_, ?_⟩
  · rw [lastLive_concat]
    cases hlost : h.busLost with
    | false => simp [live, hlost]
    | true =>
      rw [if_neg (by simp [live, hlost]), ← hI.flag]
      show (axisRt p h s.ring s.a).a.running = _
      rw [(axisRt_lost s.ring s.a hlost).1]
      simp
  · rw [sinceHook_concat, if_neg (by simp [AxEv.hook?])]
    simp
  · intro hleft m hm
    -- with a motion in flight after the hook, the hook was not a stop
    have hgo : Stopped ⟨s, .hook h, axStep p s (.hook h)⟩ = false := by
      by_contra hstop
      have hidle : (axStep p s (.hook h)).a.idle = true :=
        hleft ⟨s, .hook h, axStep p s (.hook h)⟩ (by simp [AxEv.hook?]) (by simpa using hstop)
      exact not_inFlight_of_idle hidle m hm
    have hbus : h.busLost = false := by
      simp [Stopped, AxEv.hook?, live] at hgo
      exact hgo.1.1
    obtain ⟨hruns, hwas⟩ := inFlight_axisRt (p := p) _ hI.ok hbus hm
    refine (hI.fresh ((hC h rfl).1 hruns) m hwas).concat fun after hafter q hq => ?_
    rcases List.mem_append.1 hq with hq | hq
    · exact hafter q hq
    · rw [List.mem_singleton.1 hq]
      exact hgo

theorem MotionInv.step {p : Params} {hist : List AxRec} {s : AxSt}
    (hI : MotionInv p hist s) (e : AxEv) (hC : NothingLeft hist ⟨s, e, axStep p s e⟩) :
    MotionInv p (hist ++ [⟨s, e, axStep p s e⟩]) (axStep p s e) := by
  cases e with
  | cmd c xe tick =>
    refine hI.quiet rfl (ppOk_applyCmd _ _ _ _ hI.ok) (by simp [axStep]) fun m hm => ?_
    exact inFlight_applyCmd hI.ok hm
  | setpoint sp => exact hI.quiet rfl hI.ok rfl fun m hm => .inl hm
  | shutdown => exact hI.quiet rfl hI.ok rfl fun m hm => .inl hm
  | hook h => exact hI.hook hC

/-! ## Every run -/

/-- A command that is not accepted orders nothing. -/
theorem refused_of_not_accepted {p : Params} {q : AxRec} {c : XCmd} (hc : c ∈ q.ev.cmd?)
    (hpost : q.post = axStep p q.pre q.ev) (hacc : profileAccepted c q.pre.a = false) :
    Refused q := by
  obtain ⟨pre, ev, post⟩ := q
  cases ev with
  | cmd c' xe tick =>
    cases (Option.some.inj hc)
    simp only at hpost hacc
    subst hpost
    unfold Refused
    simp only [axStep]
    cases profile_applyCmd pre.shutdown xe tick c pre.a with
    | refused _ hpp hhm =>
      rw [hpp]
      exact ⟨rfl, hhm⟩
    | point _ hacc' => simp [hacc] at hacc'
    | vel _ hacc' => simp [hacc] at hacc'
    | home _ hacc' => simp [hacc] at hacc'
  | setpoint e => simp [AxEv.cmd?] at hc
  | shutdown => simp [AxEv.cmd?] at hc
  | hook h => simp [AxEv.cmd?] at hc

/-- **Nothing in flight survives a stop.**  In every run in which no axis is ready
to run with something left over from a stop at the hook before, bit 4 and a
velocity of PV are on account of commands after the last stop, and a hook
without a bus refuses the commands of the profile modes. -/
theorem nothing_survives_stop (cfg : Config) (evs : List Event) (i : Fin cfg.axes.length)
    (hleft : cfg.AxisAlong evs i NothingLeft) :
    cfg.AxisAlong evs i FreshMotion := by
  refine Along.of_invariant (I := MotionInv cfg.boot.c.p) (motionInv_init _ _)
    (fun hist s e hI hC => hI.step e hC) ?_ hleft
  intro hist s ev hI hC h hh
  obtain ⟨h', rfl⟩ := exists_hook (Option.isSome_of_mem hh)
  cases (Option.some.inj hh)
  obtain ⟨hready, hlostcmd⟩ := hC h rfl
  have hmode : (axStep cfg.boot.c.p s (.hook h)).a.modeReq = s.a.modeReq := by simp [axStep]
  refine ⟨fun cw hcw hbit => ?_, fun hpv v hv hne => ?_, fun hlost q hq c hc hprof => ?_⟩
  · obtain ⟨hruns, hwhy⟩ := axisRt_bit_four hI.ok hcw hbit
    have hfresh := hI.fresh (hready hruns)
    rcases hwhy with ⟨hpp, hin⟩ | ⟨hhm, hin⟩
    · exact .inl ⟨hmode.trans hpp, hfresh _ hin⟩
    · exact .inr ⟨hmode.trans hhm, hfresh _ hin⟩
  · obtain ⟨hruns, hin⟩ := axisRt_pv (hmode ▸ hpv) hv hne
    exact hI.fresh (hready hruns) _ hin
  · obtain ⟨hrun, hpost⟩ := hI.pending q hq
    refine refused_of_not_accepted hc hpost ?_
    cases hflag : s.a.running with
    | false => simp [profileAccepted, hrun, hflag]
    | true =>
      have hany := hI.flag
      rw [hflag] at hany
      obtain ⟨l, hl, hran⟩ := (Option.any_eq_true _ _).1 hany.symm
      rcases hlostcmd hlost l hl hran q hq c hc with hother | ⟨hop, hfull⟩
      · simp [profileAccepted, hother]
      · simp [profileAccepted, hop, hfull]

/-- The bus is lost while a point of PP is raised, and `ENABLE` comes in the first
hook after. -/
def pointOverLoss : List Event :=
  [ smallCmd .setMode 1, smallCmd .enable 0, smallHook 6 0x427 1000 1,
    smallCmd .ppPoint 5000, smallHook 7 0x427 1000 1,
    smallLost 8,
    smallCmd .enable 0, smallHook 9 0x427 1000 1 ]

/-- A point for PP in a hook without a bus. -/
def pointWhileLost : List Event :=
  [ smallCmd .setMode 1, smallCmd .enable 0, smallHook 6 0x427 1000 1,
    smallCmd .ppPoint 5000, smallLost 7 ]

/-- The first of two points is not acknowledged in time, and `ENABLE` comes in the
next hook. -/
def pointOverTimeout : List Event :=
  [ smallCmd .setMode 1, smallCmd .enable 0, smallHook 6 0x427 1000 1,
    smallCmd .ppPoint 5000, smallCmd .ppPoint 6000, smallHook 7 0x427 1000 1,
    smallHook 600 0x427 1000 1,
    smallCmd .enable 0, smallHook 601 0x427 1000 1 ]

/-- In `pointOverLoss` the point from before the bus loss is raised again, in
`pointWhileLost` the point is queued, and in `pointOverTimeout` the second point
from before the stop is raised after it. -/
theorem motion_survives_stop :
    ¬ smallConfig.AxisAlong pointOverLoss ⟨0, by decide⟩ FreshMotion ∧
      ¬ smallConfig.AxisAlong pointWhileLost ⟨0, by decide⟩ FreshMotion ∧
      ¬ smallConfig.AxisAlong pointOverTimeout ⟨0, by decide⟩ FreshMotion := by
  decide

/-- A run that meets the condition: the bus is lost and back, `ENABLE` comes one
hook later, and a new point follows it. -/
theorem nothing_survives_stop_small :
    smallConfig.AxisAlong
      [ smallCmd .setMode 1, smallCmd .enable 0, smallHook 6 0x427 1000 1,
        smallCmd .ppPoint 5000, smallHook 7 0x427 1000 1,
        smallLost 8, smallHook 9 0x427 1000 1,
        smallCmd .enable 0, smallHook 10 0x427 1000 1,
        smallCmd .ppPoint 6000, smallHook 11 0x427 1000 1 ]
      ⟨0, by decide⟩ FreshMotion :=
  nothing_survives_stop smallConfig _ ⟨0, by decide⟩ (by decide)

end EcMaster.Cia402
