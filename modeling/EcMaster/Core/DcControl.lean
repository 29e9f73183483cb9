import EcMaster.Core.DcGate

/-!
# Bounds of the phase controller

Every accepted sample gives a phase error in half a cycle to either side, and an
adjustment of at most `max_adjust_ns`.  The integral part is what the bound on the
whole run is about: it is not clamped itself.  A sample that makes the output
leave its range is taken out of the sum again, so what stays in the sum is the sum
at some sample whose output was inside, and there the integral part is at most the
output and the proportional part together (`integ_of_unclamped`).

`Controlled` is what holds of the configuration, and `phase_controller_bounds` the
run, with any anchors in it.  The bounds are those of the code only where no
`int64_t` overflows: `TimesFit` says so of the times, which come from outside, and
`SumsFit` of the configuration.  That the sums of the controller then never overflow
(`NoOverflow`) is part of the result, because the bound on the integral part and the
bound that keeps it from overflowing need each other.
-/

namespace EcMaster.Core

open EcMaster.Run

/-- The configurations that the bounds are for. -/
@[mk_iff]
structure Controlled (c : DcCfg) : Prop where
  cycle : 0 < c.cycleNs
  even : c.cycleNs % 2 = 0
  setpoint : 0 ≤ c.setpointNs ∧ c.setpointNs < c.cycleNs
  kp : 0 < c.kpDiv
  ki : 0 < c.kiDiv
  maxAdjust : 0 ≤ c.maxAdjustNs

instance (c : DcCfg) : Decidable (Controlled c) := decidable_of_iff _ (controlled_iff c).symm

/-- What the integral part stays below. -/
def DcCfg.integBound (c : DcCfg) : Int :=
  c.kiDiv * (c.maxAdjustNs + c.cycleNs / (2 * c.kpDiv) + 1)

/-- The sums of the controller have room in an `int64_t`. -/
@[mk_iff]
structure SumsFit (c : DcCfg) : Prop where
  integ : c.integBound + c.cycleNs ≤ 2 ^ 63
  window : c.lockSamples * c.cycleNs ≤ 2 ^ 63

instance (c : DcCfg) : Decidable (SumsFit c) := decidable_of_iff _ (sumsFit_iff c).symm

/-- The times of a sample fit in an `int64_t`: the host time since the last accepted
one, the extended time, and its distance from SYNC0. -/
@[mk_iff]
structure TimesFit (dc : Dc) (x : Sample) : Prop where
  host : FitsI64
    (dc.pred x.hostNs - (x.dcRaw.toUInt32 - dc.prevLo).toNat + two32 / 2)
  ext : FitsI64 (dc.extNs + dc.delta x.dcRaw.toUInt32 x.hostNs)
  phase : FitsI64 (dc.extNs + dc.delta x.dcRaw.toUInt32 x.hostNs - dc.sync0ExtNs)

instance (dc : Dc) (x : Sample) : Decidable (TimesFit dc x) :=
  decidable_of_iff _ (timesFit_iff dc x).symm

/-- The phase error is in half a cycle to either side, and it is the phase of the
extended time after SYNC0, less the setpoint. -/
structure PhaseError (dc : Dc) (e : Int) : Prop where
  low : -dc.cfg.cycleNs < 2 * e
  high : 2 * e ≤ dc.cfg.cycleNs
  phase : dc.cfg.cycleNs ∣ e - (dc.extNs - dc.sync0ExtNs - dc.cfg.setpointNs)

/-! ## One sample -/

theorem phaseError_phaseErr {dc : Dc} (hc : Controlled dc.cfg)
    (hfits : FitsI64 (dc.extNs - dc.sync0ExtNs)) : PhaseError dc dc.phaseErr := by
  obtain ⟨hcycle, heven, ⟨hset, hset'⟩, -, -, -⟩ := hc
  have hhalf : dc.cfg.cycleNs.tdiv 2 = dc.cfg.cycleNs / 2 :=
    Int.tdiv_eq_ediv_of_nonneg (Int.le_of_lt hcycle)
  have hneg : (-dc.cfg.cycleNs).tdiv 2 = -(dc.cfg.cycleNs / 2) := by rw [Int.neg_tdiv, hhalf]
  have hlow := Int.emod_nonneg (dc.extNs - dc.sync0ExtNs) (Int.ne_of_gt hcycle)
  have hhigh := Int.emod_lt_of_pos (dc.extNs - dc.sync0ExtNs) hcycle
  -- the phase differs from the time by whole cycles
  have hphase : dc.cfg.cycleNs ∣
      (dc.extNs - dc.sync0ExtNs) % dc.cfg.cycleNs - (dc.extNs - dc.sync0ExtNs) := by
    refine ⟨-((dc.extNs - dc.sync0ExtNs) / dc.cfg.cycleNs), ?_⟩
    have hsum := Int.mul_ediv_add_emod (dc.extNs - dc.sync0ExtNs) dc.cfg.cycleNs
    rw [Int.mul_neg]
    omega
  obtain ⟨k, hk⟩ := hphase
  have herr : ∃ n : Int, dc.phaseErr =
      (dc.extNs - dc.sync0ExtNs) % dc.cfg.cycleNs - dc.cfg.setpointNs + n * dc.cfg.cycleNs ∧
        -dc.cfg.cycleNs < 2 * dc.phaseErr ∧ 2 * dc.phaseErr ≤ dc.cfg.cycleNs := by
    unfold Dc.phaseErr
    dsimp only
    rw [hhalf, hneg, toI64_eq hfits, posMod_eq _ hcycle]
    split_ifs
    · omega
    · exact ⟨-1, by omega, by omega, by omega⟩
    · exact ⟨1, by omega, by omega, by omega⟩
    · exact ⟨0, by omega, by omega, by omega⟩
  obtain ⟨n, hn, hbelow, habove⟩ := herr
  refine ⟨hbelow, habove, k + n, ?_⟩
  rw [Int.mul_add, ← hk, hn, Int.mul_comm n]
  omega

/-- The sum at a sample: the phase error counts in state `LOCKED` only. -/
def Dc.sampleInteg (dc : Dc) : Int :=
  if dc.state = .locked then toI64 (dc.integ + dc.phaseErr) else dc.integ

/-- The output before it is clamped. -/
def Dc.rawOutput (dc : Dc) : Int :=
  toI64 (-(dc.phaseErr.tdiv dc.cfg.kpDiv + dc.sampleInteg.tdiv dc.cfg.kiDiv))

/-- The output leaves its range. -/
def Dc.clamped (dc : Dc) : Prop :=
  dc.cfg.maxAdjustNs < dc.rawOutput ∨ dc.rawOutput < -dc.cfg.maxAdjustNs

instance (dc : Dc) : Decidable dc.clamped := inferInstanceAs (Decidable (_ ∨ _))

theorem supervise_kept (dc : Dc) (e : Int) :
    (supervise dc e).integ = dc.integ ∧ (supervise dc e).clamps = dc.clamps ∧
      (supervise dc e).errNs = dc.errNs := by
  unfold supervise
  dsimp only
  split_ifs <;> exact ⟨rfl, rfl, rfl⟩

theorem control_errNs (dc : Dc) : (control dc).1.errNs = dc.phaseErr := by
  unfold control
  dsimp only
  rw [(supervise_kept _ _).2.2]
  split_ifs <;> rfl

/-- A clamped sample is taken out of the sum again. -/
theorem control_integ {dc : Dc} (h : FitsI64 dc.integ) :
    (control dc).1.integ = if dc.clamped then dc.integ else dc.sampleInteg := by
  unfold control Dc.clamped Dc.rawOutput Dc.sampleInteg
  dsimp only
  rw [(supervise_kept _ _).1]
  by_cases hlocked : dc.state = .locked
  · simp only [if_pos hlocked]
    split_ifs
    · have hback : toI64 (toI64 (dc.integ + dc.phaseErr) - dc.phaseErr) = toI64 dc.integ := by
        unfold toI64
        rw [Int.sub_bmod, Int.bmod_bmod, ← Int.sub_bmod, Int.add_sub_cancel]
      rw [hback, toI64_eq h]
    · rfl
  · simp only [if_neg hlocked]
    split_ifs <;> rfl

theorem control_clamps (dc : Dc) :
    (control dc).1.clamps = if dc.clamped then dc.clamps + 1 else dc.clamps := by
  unfold control Dc.clamped Dc.rawOutput Dc.sampleInteg
  dsimp only
  rw [(supervise_kept _ _).2.1]
  by_cases hlocked : dc.state = .locked
  · simp only [if_pos hlocked]
    split_ifs <;> rfl
  · simp only [if_neg hlocked]
    split_ifs <;> rfl

theorem control_output (dc : Dc) :
    (control dc).2 = if dc.clamped then
        if 0 < dc.rawOutput then dc.cfg.maxAdjustNs else -dc.cfg.maxAdjustNs
      else dc.rawOutput := by
  unfold control Dc.clamped Dc.rawOutput Dc.sampleInteg
  dsimp only
  by_cases hlocked : dc.state = .locked
  · simp only [if_pos hlocked]
  · simp only [if_neg hlocked]

theorem control_output_le {dc : Dc} (hmax : 0 ≤ dc.cfg.maxAdjustNs) :
    (control dc).2.natAbs ≤ dc.cfg.maxAdjustNs := by
  rw [control_output]
  unfold Dc.clamped
  split_ifs <;> omega

theorem natAbs_tdiv_of_pos (a : Int) {b : Int} (hb : 0 < b) :
    ((a.tdiv b).natAbs : Int) = a.natAbs / b := by
  have habs : (b.natAbs : Int) = b := Int.natAbs_of_nonneg (Int.le_of_lt hb)
  rw [Int.natAbs_tdiv]
  exact (Int.natCast_ediv a.natAbs b.natAbs).trans (by rw [habs])

/-- No sum of the controller leaves its `int64_t` at this sample. -/
structure NoOverflow (dc : Dc) : Prop where
  integ : FitsI64 (dc.integ + dc.phaseErr)
  output : FitsI64 (-(dc.phaseErr.tdiv dc.cfg.kpDiv + dc.sampleInteg.tdiv dc.cfg.kiDiv))
  window : FitsI64 (dc.winSum + dc.phaseErr)

/-- The sum of the window is one of as many phase errors as were counted. -/
structure Window (dc : Dc) : Prop where
  sum : 2 * (dc.winSum.natAbs : Int) ≤ dc.winN * dc.cfg.cycleNs
  count : dc.winN = 0 ∨ dc.winN < dc.cfg.lockSamples

/-- The window with one more phase error. -/
theorem Window.sum_add {dc : Dc} (h : Window dc) {e : Int} (herr : PhaseError dc e) :
    2 * ((dc.winSum + e).natAbs : Int) ≤ ((dc.winN + 1 : Nat) : Int) * dc.cfg.cycleNs := by
  have hsum := h.sum
  have hlow := herr.low
  have hhigh := herr.high
  have hmul : ((dc.winN + 1 : Nat) : Int) * dc.cfg.cycleNs =
      dc.winN * dc.cfg.cycleNs + dc.cfg.cycleNs := by
    rw [Nat.cast_succ, Int.add_mul, Int.one_mul]
  omega

/-- Sums that stay below their bounds do not overflow at the next sample. -/
theorem noOverflow {dc : Dc} (hsums : SumsFit dc.cfg) (herr : PhaseError dc dc.phaseErr)
    (hinteg : (dc.integ.natAbs : Int) < dc.cfg.integBound) (hwin : Window dc) :
    NoOverflow dc := by
  have hroom := hsums.integ
  have hlow := herr.low
  have hhigh := herr.high
  have hsum : FitsI64 (dc.integ + dc.phaseErr) := by
    unfold FitsI64
    omega
  refine ⟨hsum, ?_, ?_⟩
  · have hprop := Int.natAbs_tdiv_le_natAbs dc.phaseErr dc.cfg.kpDiv
    have hquot := Int.natAbs_tdiv_le_natAbs dc.sampleInteg dc.cfg.kiDiv
    have hsample : (dc.sampleInteg.natAbs : Int) ≤ dc.integ.natAbs + dc.phaseErr.natAbs := by
      unfold Dc.sampleInteg
      rw [toI64_eq hsum]
      split_ifs <;> omega
    unfold FitsI64
    omega
  · have hnext := hwin.sum_add herr
    -- a window of one phase error fits with the cycle, a longer one with the window
    have hlast : ((dc.winN + 1 : Nat) : Int) * dc.cfg.cycleNs ≤ 2 ^ 63 := by
      rcases hwin.count with hzero | hmore
      · rw [hzero]
        omega
      · exact Int.le_trans (Int.mul_le_mul_of_nonneg_right (by omega) (by omega)) hsums.window
    unfold FitsI64
    omega

/-- Where the output is inside its range, the integral part is at most the output
and the proportional part together. -/
theorem integ_of_unclamped {dc : Dc} (hc : Controlled dc.cfg) (herr : PhaseError dc dc.phaseErr)
    (hexact : NoOverflow dc) (hin : ¬ dc.clamped) :
    (dc.sampleInteg.natAbs : Int) < dc.cfg.integBound := by
  unfold Dc.clamped Dc.rawOutput at hin
  rw [toI64_eq hexact.output] at hin
  have hkp := hc.kp
  have hki := hc.ki
  -- the proportional part
  have hprop : ((dc.phaseErr.tdiv dc.cfg.kpDiv).natAbs : Int) ≤
      dc.cfg.cycleNs / (2 * dc.cfg.kpDiv) := by
    have hhalf : (dc.phaseErr.natAbs : Int) ≤ dc.cfg.cycleNs / 2 := by
      have := herr.low
      have := herr.high
      omega
    rw [natAbs_tdiv_of_pos _ hkp, ← Int.ediv_ediv_of_nonneg (by decide)]
    exact Int.ediv_le_ediv hkp hhalf
  -- the integral part, divided
  have hquot : ((dc.sampleInteg.tdiv dc.cfg.kiDiv).natAbs : Int) ≤
      dc.cfg.maxAdjustNs + dc.cfg.cycleNs / (2 * dc.cfg.kpDiv) := by
    generalize dc.phaseErr.tdiv dc.cfg.kpDiv = p at hin hprop
    generalize dc.sampleInteg.tdiv dc.cfg.kiDiv = q at hin ⊢
    omega
  rw [natAbs_tdiv_of_pos _ hki] at hquot
  unfold DcCfg.integBound
  rw [Int.mul_comm]
  exact Int.lt_mul_of_ediv_lt hki (Int.lt_add_one_of_le hquot)

theorem supervise_window (dc : Dc) (e : Int) :
    ((supervise dc e).winSum = 0 ∧ (supervise dc e).winN = 0) ∨
      ((supervise dc e).winSum = toI64 (dc.winSum + e) ∧ (supervise dc e).winN = dc.winN + 1 ∧
        dc.winN + 1 < dc.cfg.lockSamples) := by
  unfold supervise
  dsimp only
  by_cases hfull : dc.cfg.lockSamples ≤ dc.winN + 1
  · left
    rw [if_pos hfull]
    exact ⟨rfl, rfl⟩
  · right
    rw [if_neg hfull]
    exact ⟨rfl, rfl, Nat.lt_of_not_le hfull⟩

theorem control_window (dc : Dc) :
    ((control dc).1.winSum = 0 ∧ (control dc).1.winN = 0) ∨
      ((control dc).1.winSum = toI64 (dc.winSum + dc.phaseErr) ∧
        (control dc).1.winN = dc.winN + 1 ∧ dc.winN + 1 < dc.cfg.lockSamples) := by
  unfold control
  dsimp only
  split_ifs
  all_goals exact supervise_window _ _

theorem Window.control {dc : Dc} (h : Window dc) (herr : PhaseError dc dc.phaseErr)
    (hexact : NoOverflow dc) : Window (control dc).1 := by
  have hcfg := (control_kept dc).1
  rcases control_window dc with ⟨hsum, hcount⟩ | ⟨hsum, hcount, hmore⟩
  · exact ⟨by rw [hsum, hcount, hcfg]; omega, .inl hcount⟩
  · refine ⟨?_, .inr (by rw [hcount, hcfg]; exact hmore)⟩
    rw [hsum, toI64_eq hexact.window, hcount, hcfg]
    exact h.sum_add herr

/-! ## A run of the loop -/

/-- The calls that a loop gets after `ecm_dc_init`. -/
inductive DcCall where
  | anchor (dcRaw sync0Raw hostNs : UInt64)
  | update (x : Sample)
deriving DecidableEq, Repr

/-- One call. -/
def Dc.call (dc : Dc) : DcCall → Dc
  | .anchor dcRaw sync0Raw hostNs => ecmDcAnchor dc dcRaw sync0Raw hostNs
  | .update x => dc.step x

/-- The sample of a call. -/
def DcCall.sample? : DcCall → Option Sample
  | .anchor .. => none
  | .update x => some x

/-- The call accepts its sample. -/
def Dc.Accepts (dc : Dc) (x : Sample) : Prop := (dc.step x).samples ≠ dc.samples

instance (dc : Dc) (x : Sample) : Decidable (dc.Accepts x) := inferInstanceAs (Decidable (_ ≠ _))

/-- The times of an accepted sample fit. -/
def AcceptedFits (_ : List (Rec Dc DcCall)) (r : Rec Dc DcCall) : Prop :=
  ∀ x ∈ r.ev.sample?, r.pre.Accepts x → TimesFit r.pre x

instance (hist : List (Rec Dc DcCall)) (r : Rec Dc DcCall) : Decidable (AcceptedFits hist r) :=
  inferInstanceAs (Decidable (∀ x ∈ r.ev.sample?, r.pre.Accepts x → TimesFit r.pre x))

/-- The loop as the controller sees it at an accepted sample. -/
def Dc.extended (dc : Dc) (x : Sample) : Dc :=
  unwrap (dc.pass x.dcRaw.toUInt32 x.hostNs) x.dcRaw.toUInt32 x.hostNs

/-- What holds of a call of `ecm_dc_update`. -/
structure PhaseStep (dc : Dc) (x : Sample) : Prop where
  err : dc.Accepts x → PhaseError (dc.step x) (dc.step x).errNs
  adjust : (ecmDcUpdate dc x.dcRaw x.hostNs).2.natAbs ≤ dc.cfg.maxAdjustNs
  integ : (dc.step x).integ ≠ dc.integ →
    dc.state = .locked ∧ dc.Accepts x ∧ (dc.step x).clamps = dc.clamps
  exact : dc.Accepts x → NoOverflow (dc.extended x)

/-- What holds of the loop at every point. -/
structure ControlInv (cfg : DcCfg) (dc : Dc) : Prop where
  config : dc.cfg = cfg
  integ : (dc.integ.natAbs : Int) < cfg.integBound
  window : Window dc

theorem controlInv_init {cfg : DcCfg} (hc : Controlled cfg) : ControlInv cfg (ecmDcInit cfg) := by
  refine ⟨rfl, ?_, ⟨by simp [ecmDcInit], .inl rfl⟩⟩
  have hdiv : 0 ≤ cfg.cycleNs / (2 * cfg.kpDiv) :=
    Int.ediv_nonneg (Int.le_of_lt hc.cycle) (by have := hc.kp; omega)
  have hmax := hc.maxAdjust
  have hpos : 0 < cfg.maxAdjustNs + cfg.cycleNs / (2 * cfg.kpDiv) + 1 := by omega
  exact Int.mul_pos hc.ki hpos

/-- The phase error of an accepted sample whose times fit. -/
theorem TimesFit.phaseError {dc : Dc} {x : Sample} (h : TimesFit dc x)
    (hc : Controlled dc.cfg) : PhaseError (dc.extended x) (dc.extended x).phaseErr := by
  refine phaseError_phaseErr hc ?_
  change FitsI64 (toI64 (dc.extNs + dc.delta x.dcRaw.toUInt32 x.hostNs) - dc.sync0ExtNs)
  rw [toI64_eq h.ext]
  exact h.phase

/-- A call that leaves the controller alone. -/
theorem ControlInv.idle {dc dc' : Dc} (hinv : ControlInv dc.cfg dc) (hc : Controlled dc.cfg)
    {x : Sample} (hr : ecmDcUpdate dc x.dcRaw x.hostNs = (dc', 0))
    (hsamples : dc'.samples = dc.samples) (hinteg : dc'.integ = dc.integ)
    (hcfg : dc'.cfg = dc.cfg) (hsum : dc'.winSum = dc.winSum) (hcount : dc'.winN = dc.winN) :
    PhaseStep dc x ∧ ControlInv dc.cfg (dc.step x) := by
  have hstep : dc.step x = dc' := congrArg Prod.fst hr
  have hnot : ¬ dc.Accepts x := by
    unfold Dc.Accepts
    rw [hstep]
    exact not_not.2 hsamples
  refine ⟨⟨fun h => absurd h hnot, ?_, fun h => ?_, fun h => absurd h hnot⟩, ?_⟩
  · rw [hr]
    simpa using hc.maxAdjust
  · rw [hstep] at h
    exact absurd hinteg h
  · rw [hstep]
    refine ⟨hcfg, hinteg ▸ hinv.integ, ?_⟩
    obtain ⟨hbound, hfew⟩ := hinv.window
    exact ⟨by rw [hsum, hcount, hcfg]; exact hbound, by rw [hcount, hcfg]; exact hfew⟩

/-- A call that runs the controller. -/
theorem ControlInv.accepted {dc : Dc} (hinv : ControlInv dc.cfg dc) (hc : Controlled dc.cfg)
    (hsums : SumsFit dc.cfg) {x : Sample} (htimes : dc.Accepts x → TimesFit dc x)
    {r : Dc × Int} (hseen : control (dc.extended x) = r)
    (hr : ecmDcUpdate dc x.dcRaw x.hostNs = ({ r.1 with samples := r.1.samples + 1 }, r.2)) :
    PhaseStep dc x ∧ ControlInv dc.cfg (dc.step x) := by
  have hstep : dc.step x = { r.1 with samples := r.1.samples + 1 } := congrArg Prod.fst hr
  generalize hdc' : dc.extended x = dc' at hseen
  have hcfg : dc'.cfg = dc.cfg := hdc' ▸ rfl
  have hinteg : dc'.integ = dc.integ := hdc' ▸ rfl
  have hstate : dc'.state = dc.state := hdc' ▸ rfl
  have hclamps : dc'.clamps = dc.clamps := hdc' ▸ rfl
  have hsamples : dc'.samples = dc.samples := hdc' ▸ rfl
  have hwin : Window dc' := hdc' ▸ ⟨hinv.window.sum, hinv.window.count⟩
  obtain ⟨hcfg', hsamples', -⟩ := control_kept dc'
  obtain ⟨hext, hsync0, -⟩ := control_clock dc'
  have haccepts : dc.Accepts x := by
    unfold Dc.Accepts
    rw [hstep, ← hseen]
    simp only
    omega
  have herr : PhaseError dc' dc'.phaseErr := hdc' ▸ (htimes haccepts).phaseError hc
  have hexact : NoOverflow dc' := by
    refine noOverflow (hcfg ▸ hsums) herr ?_ hwin
    rw [hinteg, hcfg]
    exact hinv.integ
  have hfits : FitsI64 dc'.integ := by
    have hbound := hinv.integ
    have hroom := hsums.integ
    have hcycle := hc.cycle
    unfold FitsI64
    omega
  have hnow := control_integ hfits
  have hcount := control_clamps dc'
  have hmax : 0 ≤ dc'.cfg.maxAdjustNs := hcfg ▸ hc.maxAdjust
  have hout := control_output_le hmax
  have herrNs := control_errNs dc'
  have hwindow := hwin.control herr hexact
  rw [hseen] at hcfg' hsamples' hext hsync0 hnow hcount hout herrNs hwindow
  refine ⟨⟨fun _ => ?_, ?_, ?_, fun _ => hdc' ▸ hexact⟩, ?_⟩
  · rw [hstep]
    change PhaseError _ r.1.errNs
    rw [herrNs]
    obtain ⟨hlow, hhigh, hphase⟩ := herr
    rw [← hcfg'] at hlow hhigh hphase
    rw [← hext, ← hsync0] at hphase
    exact ⟨hlow, hhigh, hphase⟩
  · rw [hr]
    exact hcfg ▸ hout
  · rw [hstep]
    change r.1.integ ≠ dc.integ → _ ∧ _ ∧ r.1.clamps = dc.clamps
    intro hchanged
    by_cases hclamped : dc'.clamped
    · rw [if_pos hclamped, hinteg] at hnow
      exact absurd hnow hchanged
    · rw [if_neg hclamped] at hnow hcount
      refine ⟨?_, haccepts, hcount.trans hclamps⟩
      by_contra hunlocked
      unfold Dc.sampleInteg at hnow
      rw [if_neg (hstate ▸ hunlocked), hinteg] at hnow
      exact hchanged hnow
  · rw [hstep]
    refine ⟨hcfg'.trans hcfg, ?_, ⟨hwindow.sum, hwindow.count⟩⟩
    change (r.1.integ.natAbs : Int) < _
    by_cases hclamped : dc'.clamped
    · rw [hnow, if_pos hclamped, hinteg]
      exact hinv.integ
    · rw [hnow, if_neg hclamped, ← hcfg]
      exact integ_of_unclamped (hcfg ▸ hc) herr hexact hclamped

theorem ControlInv.update {dc : Dc} (hinv : ControlInv dc.cfg dc) (hc : Controlled dc.cfg)
    (hsums : SumsFit dc.cfg) {x : Sample} (htimes : dc.Accepts x → TimesFit dc x) :
    PhaseStep dc x ∧ ControlInv dc.cfg (dc.step x) := by
  have hresult := ecmDcUpdate_result dc x.dcRaw x.hostNs
  generalize hr : ecmDcUpdate dc x.dcRaw x.hostNs = r at hresult
  cases hresult with
  | unanchored => exact hinv.idle hc hr rfl rfl rfl rfl rfl
  | stale => exact hinv.idle hc hr rfl rfl rfl rfl rfl
  | rejected => exact hinv.idle hc hr rfl rfl rfl rfl rfl
  | accepted _ _ _ hcontrol => exact hinv.accepted hc hsums htimes hcontrol.symm hr

theorem ControlInv.step {cfg : DcCfg} (hc : Controlled cfg) (hsums : SumsFit cfg)
    {hist : List (Rec Dc DcCall)} {dc : Dc} {call : DcCall} (hinv : ControlInv cfg dc)
    (htimes : AcceptedFits hist ⟨dc, call, dc.call call⟩) :
    ControlInv cfg (dc.call call) := by
  obtain rfl := hinv.config
  cases call with
  | anchor => exact ⟨rfl, hinv.integ, ⟨by simp [Dc.call, ecmDcAnchor], .inl rfl⟩⟩
  | update x => exact (hinv.update hc hsums (htimes x rfl)).2

/-- The bounds of the phase controller, in every run of the loop whose times fit. -/
theorem phase_controller_bounds {cfg : DcCfg} (hc : Controlled cfg) (hsums : SumsFit cfg)
    {calls : List DcCall} (htimes : Along Dc.call (ecmDcInit cfg) calls AcceptedFits) :
    (Along Dc.call (ecmDcInit cfg) calls fun _ r => ∀ x, r.ev = .update x → PhaseStep r.pre x) ∧
    ((run Dc.call (ecmDcInit cfg) calls).integ.natAbs : Int) <
      cfg.kiDiv * (cfg.maxAdjustNs + cfg.cycleNs / (2 * cfg.kpDiv) + 1) := by
  have hkeep : ∀ hist dc call, ControlInv cfg dc →
      AcceptedFits hist ⟨dc, call, dc.call call⟩ → ControlInv cfg (dc.call call) :=
    fun _ _ _ hinv hfits => hinv.step hc hsums hfits
  constructor
  · refine Along.of_invariant (I := fun _ dc => ControlInv cfg dc) (controlInv_init hc) hkeep ?_
      htimes
    rintro hist dc call hinv hfits x rfl
    obtain rfl := hinv.config
    exact (hinv.update hc hsums (hfits x rfl)).1
  · exact (Along.invariant (I := fun _ dc => ControlInv cfg dc) (controlInv_init hc) hkeep
      htimes).integ

theorem phase_controller_bounds_default :
    Controlled (ecmDcDefaultCfg 1000000 250000) ∧ SumsFit (ecmDcDefaultCfg 1000000 250000) ∧
      (Along Dc.call (ecmDcInit (ecmDcDefaultCfg 1000000 250000))
        [.anchor 0 0 0, .update ⟨1100000, 1000000⟩]
        fun _ r => ∀ x, r.ev = .update x → PhaseStep r.pre x) ∧
      (run Dc.call (ecmDcInit (ecmDcDefaultCfg 1000000 250000))
        [.anchor 0 0 0, .update ⟨1100000, 1000000⟩]).errNs = -150000 := by
  refine ⟨by decide, by decide, ?_, by decide +kernel⟩
  exact (phase_controller_bounds (by decide) (by decide) (by decide +kernel)).1

/-- Over half the range of the host time the extended time comes so close to the least
`int64_t` that its distance from SYNC0 overflows, and the phase error is that of another
time. -/
theorem long_gap_overflows_the_phase :
    Controlled (ecmDcDefaultCfg 1000000 0) ∧
      ∃ dc, dc = run Dc.call (ecmDcInit (ecmDcDefaultCfg 1000000 0)) [.anchor 0 2147483647 0] ∧
        dc.Accepts ⟨1, 2 ^ 63 + 2 ^ 20⟩ ∧
        ¬ PhaseError (dc.step ⟨1, 2 ^ 63 + 2 ^ 20⟩) (dc.step ⟨1, 2 ^ 63 + 2 ^ 20⟩).errNs := by
  refine ⟨by decide, _, rfl, by decide +kernel, fun h => ?_⟩
  exact absurd h.phase (by decide +kernel)

end EcMaster.Core
