import EcMaster.Lib.Run

/-!
# The loop that follows the DC reference clock

`libecmaster/core/ecm_dc.c`.  Once a cycle the master reads the low 32 bits of the
reference clock and the time at which it sent the frame, and shifts its next
cycle so that the frame passes the reference clock at a fixed phase.

`ecm_dc_update` first decides what to do with the sample: a sample equal to the
last one did not come back, and one that is too far from what the host clock
predicts belongs to another frame (the reply-age gate).  Only then does it extend
the reference time (`unwrap`) and run the controller (`control`).

The two differences that are meant to wrap, of the 32-bit reference time and of the
host time, are taken in the types of the source.  The times and sums of type
`int64_t` are integers, and `toI64` puts a result back into the type where it can
leave it.  C leaves such an overflow undefined: which times and configurations keep
clear of it is for the theorems about runs to say.  The counters are natural
numbers, 64 bits wide in the source.
-/

namespace EcMaster.Core

/-- The integer is an `int64_t`. -/
def FitsI64 (a : Int) : Prop := -2 ^ 63 ≤ a ∧ a < 2 ^ 63

instance (a : Int) : Decidable (FitsI64 a) := inferInstanceAs (Decidable (_ ∧ _))

/-- What is left of a result in an `int64_t`. -/
def toI64 (a : Int) : Int := a.bmod (2 ^ 64)

/-- `2 ^ 32`, one turn of the reference time that is read. -/
def two32 : Int := 2 ^ 32

/-- `floor_div`. -/
def floorDiv (a b : Int) : Int :=
  let q := a.tdiv b
  if a.tmod b ≠ 0 ∧ decide (a < 0) ≠ decide (b < 0) then q - 1 else q

/-- `pos_mod`. -/
def posMod (a b : Int) : Int :=
  let r := a.tmod b
  if r < 0 then r + b else r

/-- `ecm_dc_cfg_t`. -/
structure DcCfg where
  cycleNs : Int
  setpointNs : Int
  kpDiv : Int
  kiDiv : Int
  maxAdjustNs : Int
  lockWindowNs : Int
  lockSamples : Nat
  unlockNs : Int
  gateNs : Int
  gateReuseNs : Int
deriving DecidableEq, Repr

/-- `ecm_dc_default_cfg`. -/
def ecmDcDefaultCfg (cycleNs setpointNs : Int) : DcCfg :=
  { cycleNs, setpointNs := posMod setpointNs cycleNs, kpDiv := 8, kiDiv := 256
    maxAdjustNs := cycleNs.tdiv 20, lockSamples := 100, lockWindowNs := cycleNs.tdiv 100
    unlockNs := cycleNs.tdiv 20, gateNs := 0, gateReuseNs := 0 }

/-- `ecm_dc_state_t`. -/
inductive DcState where
  | unanchored | acquire | locked
deriving DecidableEq, Repr

/-- `ecm_dc_t`. -/
structure Dc where
  cfg : DcCfg
  state : DcState
  prevLo : UInt32
  prevHostNs : UInt64
  extNs : Int
  sync0ExtNs : Int
  integ : Int
  errNs : Int
  adjustNs : Int
  winSum : Int
  winN : Nat
  samples : Nat
  stale : Nat
  wraps : Int
  clamps : Nat
  locks : Nat
  unlocks : Nat
  implausibleSamples : Nat
  gateResyncs : Nat
  gateReuseHeld : Nat
  rejectRun : Nat
  lastRejected : Bool
deriving DecidableEq, Repr

/-- `ecm_dc_init`. -/
def ecmDcInit (cfg : DcCfg) : Dc :=
  { cfg, state := .unanchored, prevLo := 0, prevHostNs := 0, extNs := 0, sync0ExtNs := 0
    integ := 0, errNs := 0, adjustNs := 0, winSum := 0, winN := 0, samples := 0, stale := 0
    wraps := 0, clamps := 0, locks := 0, unlocks := 0, implausibleSamples := 0, gateResyncs := 0
    gateReuseHeld := 0, rejectRun := 0, lastRejected := false }

/-- `ecm_dc_anchor`. -/
def ecmDcAnchor (dc : Dc) (dcRaw sync0Raw hostNs : UInt64) : Dc :=
  let lo := dcRaw.toUInt32
  let ext : Int := lo.toNat
  { dc with
    extNs := ext
    sync0ExtNs := ext + (sync0Raw.toUInt32 - lo).toInt32.toInt
    prevLo := lo, prevHostNs := hostNs, winSum := 0, winN := 0, state := .acquire }

/-- How far the host clock says the reference time has gone since the last sample. -/
def Dc.pred (dc : Dc) (hostNs : UInt64) : Int := (hostNs - dc.prevHostNs).toInt64.toInt

/-- How far the reference time has gone: the low 32 bits of the sample, and the
number of turns that comes closest to the host clock. -/
def Dc.delta (dc : Dc) (lo : UInt32) (hostNs : UInt64) : Int :=
  let dLo : Int := (lo - dc.prevLo).toNat
  dLo + floorDiv (toI64 (dc.pred hostNs - dLo + two32 / 2)) two32 * two32

/-- `smiss`: negative where the reference time is behind the host clock. -/
def Dc.smiss (dc : Dc) (lo : UInt32) (hostNs : UInt64) : Int :=
  toI64 (dc.delta lo hostNs - dc.pred hostNs)

/-- The sample is outside the reply-age gate. -/
def Dc.outside (dc : Dc) (lo : UInt32) (hostNs : UInt64) : Bool :=
  0 < dc.cfg.gateNs && dc.cfg.gateNs < (dc.smiss lo hostNs).natAbs

/-- `reuse`: the sample looks like an old reply taken through a reused index. -/
def Dc.reuse (dc : Dc) (lo : UInt32) (hostNs : UInt64) : Bool :=
  0 < dc.cfg.gateReuseNs && dc.smiss lo hostNs < -2 * dc.cfg.gateNs &&
    (dc.smiss lo hostNs).natAbs ≤ dc.cfg.gateReuseNs

/-- `ECM_DC_GATE_RESYNC`. -/
def dcGateResync : Nat := 3

/-- `ECM_DC_GATE_RESYNC_REUSE`. -/
def dcGateResyncReuse : Nat := 256

/-- The rejections in a row after which a sample of this kind is taken anyway. -/
def Dc.limit (dc : Dc) (lo : UInt32) (hostNs : UInt64) : Nat :=
  if dc.reuse lo hostNs then dcGateResyncReuse else dcGateResync

/-- `unwrap`. -/
def unwrap (dc : Dc) (lo : UInt32) (hostNs : UInt64) : Dc :=
  let ext := toI64 (dc.extNs + dc.delta lo hostNs)
  { dc with
    extNs := ext
    wraps := dc.wraps + (ext >>> (32 : Nat) - dc.extNs >>> (32 : Nat))
    prevLo := lo, prevHostNs := hostNs }

/-- The phase error of the reference time, in `(-cycle / 2, cycle / 2]`. -/
def Dc.phaseErr (dc : Dc) : Int :=
  let c := dc.cfg
  let e := posMod (toI64 (dc.extNs - dc.sync0ExtNs)) c.cycleNs - c.setpointNs
  let e := if c.cycleNs.tdiv 2 < e then e - c.cycleNs else e
  if e ≤ (-c.cycleNs).tdiv 2 then e + c.cycleNs else e

/-- Lock supervision on the mean of a window. -/
def supervise (dc : Dc) (e : Int) : Dc :=
  let c := dc.cfg
  let dc := { dc with winSum := toI64 (dc.winSum + e), winN := dc.winN + 1 }
  if c.lockSamples ≤ dc.winN then
    let mean : Int := (dc.winSum.tdiv dc.winN).natAbs
    let dc :=
      if dc.state = .acquire ∧ mean < c.lockWindowNs then
        { dc with state := .locked, locks := dc.locks + 1 }
      else if dc.state = .locked ∧ c.unlockNs < mean then
        { dc with state := .acquire, unlocks := dc.unlocks + 1 }
      else dc
    { dc with winSum := 0, winN := 0 }
  else dc

/-- The controller, for an accepted sample. -/
def control (dc : Dc) : Dc × Int :=
  let c := dc.cfg
  let e := dc.phaseErr
  let dc := { dc with errNs := e }
  let dc := if dc.state = .locked then { dc with integ := toI64 (dc.integ + e) } else dc
  let u := toI64 (-(e.tdiv c.kpDiv + dc.integ.tdiv c.kiDiv))
  let clamped := c.maxAdjustNs < u ∨ u < -c.maxAdjustNs
  let dc :=
    if clamped then
      -- anti-windup
      { dc with
        clamps := dc.clamps + 1
        integ := if dc.state = .locked then toI64 (dc.integ - e) else dc.integ }
    else dc
  let u := if clamped then (if 0 < u then c.maxAdjustNs else -c.maxAdjustNs) else u
  ({ supervise dc e with adjustNs := u }, u)

/-- The gate lets the sample pass: `reject_run` starts again. -/
def Dc.pass (dc : Dc) (lo : UInt32) (hostNs : UInt64) : Dc :=
  { dc with
    lastRejected := false
    gateResyncs := if dc.outside lo hostNs then dc.gateResyncs + 1 else dc.gateResyncs
    rejectRun := 0 }

/-- The gate rejects the sample. -/
def Dc.reject (dc : Dc) (lo : UInt32) (hostNs : UInt64) : Dc :=
  { dc with
    rejectRun := dc.rejectRun + 1
    gateReuseHeld :=
      if dc.reuse lo hostNs ∧ dcGateResync ≤ dc.rejectRun + 1 then dc.gateReuseHeld + 1
      else dc.gateReuseHeld
    implausibleSamples := dc.implausibleSamples + 1
    lastRejected := true, adjustNs := 0 }

/-- `ecm_dc_update`. -/
def ecmDcUpdate (dc : Dc) (dcRaw hostNs : UInt64) : Dc × Int :=
  if dc.state = .unanchored then (dc, 0)
  else
    let lo := dcRaw.toUInt32
    -- the DC datagram did not come back; `last_rejected` keeps its value
    if lo = dc.prevLo then ({ dc with stale := dc.stale + 1, adjustNs := 0 }, 0)
    else if dc.outside lo hostNs ∧ dc.rejectRun + 1 < dc.limit lo hostNs then
      (dc.reject lo hostNs, 0)
    else
      let r := control (unwrap (dc.pass lo hostNs) lo hostNs)
      ({ r.1 with samples := r.1.samples + 1 }, r.2)

/-! ## Arithmetic -/

theorem toI64_eq {a : Int} (h : FitsI64 a) : toI64 a = a :=
  Int.bmod_eq_of_le (by unfold FitsI64 at h; omega) (by unfold FitsI64 at h; omega)

theorem floorDiv_eq (a : Int) {b : Int} (hb : 0 < b) : floorDiv a b = a / b := by
  unfold floorDiv
  dsimp only
  have hdiv := Int.mul_tdiv_add_tmod a b
  have hfloor : ∀ q r : Int, b * q + r = a → 0 ≤ r → r < b → a / b = q := by
    intro q r hsum hlow hhigh
    exact ((Int.ediv_emod_unique hb).2 ⟨by rw [← hsum, Int.add_comm], hlow, hhigh⟩).1
  have hneg : ¬ b < 0 := Int.not_lt.2 (Int.le_of_lt hb)
  have hlt := Int.tmod_lt_of_pos a hb
  split
  · rename_i hcase
    have ha : a < 0 := by simpa [hneg] using hcase.2
    have hnonpos : a.tmod b ≤ 0 := by
      have hopp := Int.tmod_nonneg b (Int.neg_nonneg_of_nonpos (Int.le_of_lt ha))
      rw [Int.neg_tmod] at hopp
      omega
    have hlow := Int.tmod_lt_of_pos (-a) hb
    rw [Int.neg_tmod] at hlow
    refine (hfloor (a.tdiv b - 1) (a.tmod b + b) ?_ (by omega) (by omega)).symm
    rw [Int.mul_sub]
    omega
  · rename_i hcase
    refine (hfloor (a.tdiv b) (a.tmod b) hdiv ?_ hlt).symm
    by_cases hzero : a.tmod b = 0
    · omega
    · have ha : ¬ a < 0 := by
        intro ha
        exact hcase ⟨hzero, by simp [ha, hneg]⟩
      exact Int.tmod_nonneg b (Int.not_lt.1 ha)

theorem posMod_eq (a : Int) {b : Int} (hb : 0 < b) : posMod a b = a % b := by
  unfold posMod
  dsimp only
  rw [Int.tmod_eq_emod]
  have hlow := Int.emod_nonneg a (Int.ne_of_gt hb)
  have hhigh := Int.emod_lt_of_pos a hb
  split_ifs <;> omega

/-! ## What one sample can do -/

theorem control_kept (dc : Dc) :
    (control dc).1.cfg = dc.cfg ∧ (control dc).1.samples = dc.samples ∧
      (control dc).1.implausibleSamples = dc.implausibleSamples ∧
      (control dc).1.rejectRun = dc.rejectRun ∧
      (control dc).1.lastRejected = dc.lastRejected := by
  unfold control supervise
  dsimp only
  split_ifs <;> exact ⟨rfl, rfl, rfl, rfl, rfl⟩

/-- The controller leaves the extended reference time alone. -/
theorem control_clock (dc : Dc) :
    (control dc).1.extNs = dc.extNs ∧ (control dc).1.sync0ExtNs = dc.sync0ExtNs ∧
      (control dc).1.wraps = dc.wraps ∧ (control dc).1.prevLo = dc.prevLo ∧
      (control dc).1.prevHostNs = dc.prevHostNs := by
  unfold control supervise
  dsimp only
  split_ifs <;> exact ⟨rfl, rfl, rfl, rfl, rfl⟩

theorem control_anchored {dc : Dc} (h : dc.state ≠ .unanchored) :
    (control dc).1.state ≠ .unanchored := by
  unfold control supervise
  dsimp only
  split_ifs <;> simp_all

/-- What `ecm_dc_update` does with a sample on an anchored loop, as far as the gate
is concerned. -/
inductive DcTurn (dc : Dc) (lo : UInt32) (hostNs : UInt64) (dc' : Dc) : Prop where
  | stale (hlo : lo = dc.prevLo) (hsamples : dc'.samples = dc.samples)
      (hcounted : dc'.implausibleSamples = dc.implausibleSamples)
      (hrun : dc'.rejectRun = dc.rejectRun)
      (hlast : dc'.lastRejected = dc.lastRejected)
  | rejected (hlo : lo ≠ dc.prevLo) (hout : dc.outside lo hostNs = true)
      (hlimit : dc.rejectRun + 1 < dc.limit lo hostNs) (hsamples : dc'.samples = dc.samples)
      (hcounted : dc'.implausibleSamples = dc.implausibleSamples + 1)
      (hrun : dc'.rejectRun = dc.rejectRun + 1) (hlast : dc'.lastRejected = true)
  | accepted (hlo : lo ≠ dc.prevLo)
      (hlimit : dc.outside lo hostNs = true → dc.limit lo hostNs ≤ dc.rejectRun + 1)
      (hsamples : dc'.samples = dc.samples + 1)
      (hcounted : dc'.implausibleSamples = dc.implausibleSamples) (hrun : dc'.rejectRun = 0)
      (hlast : dc'.lastRejected = false)

theorem ecmDcUpdate_turn {dc : Dc} (h : dc.state ≠ .unanchored) (dcRaw hostNs : UInt64) :
    DcTurn dc dcRaw.toUInt32 hostNs (ecmDcUpdate dc dcRaw hostNs).1 := by
  unfold ecmDcUpdate
  rw [if_neg h]
  dsimp only
  split
  · rename_i hlo
    exact .stale hlo rfl rfl rfl rfl
  rename_i hlo
  split
  · rename_i hgate
    exact .rejected hlo hgate.1 hgate.2 rfl rfl rfl rfl
  · rename_i hgate
    obtain ⟨-, hsamples, hcounted, hrun, hlast⟩ :=
      control_kept (unwrap (dc.pass dcRaw.toUInt32 hostNs) dcRaw.toUInt32 hostNs)
    refine .accepted hlo ?_ ?_ hcounted hrun hlast
    · intro hout
      by_contra hlt
      exact hgate ⟨hout, Nat.lt_of_not_le hlt⟩
    · simp only [hsamples]
      rfl

/-- What `ecm_dc_update` returns. -/
inductive DcResult (dc : Dc) (lo : UInt32) (hostNs : UInt64) : Dc × Int → Prop where
  | unanchored (hstate : dc.state = .unanchored) : DcResult dc lo hostNs (dc, 0)
  | stale (hstate : dc.state ≠ .unanchored) (hlo : lo = dc.prevLo) :
      DcResult dc lo hostNs ({ dc with stale := dc.stale + 1, adjustNs := 0 }, 0)
  | rejected (hstate : dc.state ≠ .unanchored) (hlo : lo ≠ dc.prevLo) :
      DcResult dc lo hostNs (dc.reject lo hostNs, 0)
  | accepted (hstate : dc.state ≠ .unanchored) (hlo : lo ≠ dc.prevLo) (r : Dc × Int)
      (hr : r = control (unwrap (dc.pass lo hostNs) lo hostNs)) :
      DcResult dc lo hostNs ({ r.1 with samples := r.1.samples + 1 }, r.2)

theorem ecmDcUpdate_result (dc : Dc) (dcRaw hostNs : UInt64) :
    DcResult dc dcRaw.toUInt32 hostNs (ecmDcUpdate dc dcRaw hostNs) := by
  unfold ecmDcUpdate
  split
  · rename_i hstate
    exact .unanchored hstate
  rename_i hstate
  dsimp only
  split
  · rename_i hlo
    exact .stale hstate hlo
  rename_i hlo
  split
  · exact .rejected hstate hlo
  · exact .accepted hstate hlo _ rfl

theorem ecmDcUpdate_anchored {dc : Dc} (h : dc.state ≠ .unanchored) (dcRaw hostNs : UInt64) :
    (ecmDcUpdate dc dcRaw hostNs).1.state ≠ .unanchored := by
  unfold ecmDcUpdate
  rw [if_neg h]
  dsimp only
  split
  · exact h
  split
  · exact h
  · exact control_anchored h

end EcMaster.Core
