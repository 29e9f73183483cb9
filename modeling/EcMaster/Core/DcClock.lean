import EcMaster.Core.DcGate

/-!
# The reference time beyond 32 bits

`ecm_dc.h` says how the loop extends the reference time: it reads the low 32 bits
only, and takes the number of turns that comes closest to what the host clock says
has passed.  So the extended time is exact as long as the two clocks have not gone
apart by half a turn between one accepted sample and the next, whatever the number
of turns in between.

`Reading` is a sample with the true times, `Reading.sample` what the loop gets to
see of it, and `Clock` the loop together with the last reading that it accepted.
`delta_eq` is the argument about one sample.  `unwrapping_is_exact` is a run: samples
that did not come back or that the gate rejects may stand anywhere in it.

`wraps` is a counter for telemetry that `ecm_dc_anchor` does not reset.  It counts
the turns of the extended time from the anchor on, so only in a loop that is
anchored once is it the number of turns of the extended time itself.
-/

namespace EcMaster.Core

open EcMaster.Run

/-! ## Differences of words -/

theorem toInt_sub_ofNat {a b : Nat} (h : ((a : Int) - b).natAbs < 2 ^ 63) :
    (UInt64.ofNat a - UInt64.ofNat b).toInt64.toInt = (a : Int) - b := by
  have hbv : (UInt64.ofNat a - UInt64.ofNat b).toInt64.toInt =
      (BitVec.ofNat 64 a - BitVec.ofNat 64 b).toInt := rfl
  rw [hbv, BitVec.toInt_sub, BitVec.toInt_ofNat', BitVec.toInt_ofNat', ← Int.sub_bmod]
  exact Int.bmod_eq_of_le (by omega) (by omega)

theorem toNat_sub_ofNat (a b : Nat) :
    ((UInt32.ofNat a - UInt32.ofNat b).toNat : Int) = ((a : Int) - b) % 2 ^ 32 := by
  simp only [UInt32.toNat_sub, UInt32.toNat_ofNat']
  omega

/-! ## One sample -/

/-- A sample with the true times of both clocks. -/
structure Reading where
  ref : Nat
  host : Nat
deriving DecidableEq, Repr

/-- The low 32 bits of the reference time, and the host time. -/
def Reading.sample (x : Reading) : Sample :=
  { dcRaw := UInt64.ofNat (x.ref % 2 ^ 32), hostNs := UInt64.ofNat x.host }

/-- How far the reference clock has gone ahead of the host clock from one reading
to another. -/
def Reading.apart (x y : Reading) : Int := ((y.ref : Int) - x.ref) - ((y.host : Int) - x.host)

theorem Reading.sample_lo (x : Reading) : x.sample.dcRaw.toUInt32 = UInt32.ofNat x.ref := by
  apply UInt32.toNat_inj.1
  simp only [Reading.sample, UInt64.toNat_toUInt32, UInt64.toNat_ofNat', UInt32.toNat_ofNat']
  omega

/-- The number of turns that comes closest to the host clock is the right one. -/
theorem delta_eq {dc : Dc} {x y : Reading} (hlo : dc.prevLo = UInt32.ofNat x.ref)
    (hhost : dc.prevHostNs = UInt64.ofNat x.host)
    (hnear : (x.apart y).natAbs < 2 ^ 31)
    (hgap : ((y.host : Int) - x.host).natAbs < 2 ^ 62) :
    dc.delta (UInt32.ofNat y.ref) y.sample.hostNs = (y.ref : Int) - x.ref := by
  have hpred : dc.pred y.sample.hostNs = (y.host : Int) - x.host := by
    unfold Dc.pred
    rw [hhost]
    exact toInt_sub_ofNat (Nat.lt_trans hgap (by decide))
  have hdLo : ((UInt32.ofNat y.ref - dc.prevLo).toNat : Int) =
      ((y.ref : Int) - x.ref) % 2 ^ 32 := by
    rw [hlo]
    exact toNat_sub_ofNat y.ref x.ref
  unfold Dc.delta
  dsimp only
  rw [hpred, hdLo, toI64_eq (by unfold FitsI64 two32; omega), floorDiv_eq _ (by decide)]
  unfold Reading.apart at hnear
  unfold two32
  omega

/-! ## A run of the loop -/

/-- The loop and the last reading that it accepted. -/
structure Clock where
  dc : Dc
  last : Reading

/-- One call of `ecm_dc_update`. -/
def Clock.step (c : Clock) (x : Reading) : Clock :=
  let dc := c.dc.step x.sample
  { dc, last := if dc.samples = c.dc.samples then c.last else x }

abbrev ClockRec := Rec Clock Reading

/-- The loop after `ecm_dc_anchor`. -/
def Clock.anchored (dc : Dc) (a : Reading) (sync0Raw : UInt64) : Clock :=
  { dc := ecmDcAnchor dc a.sample.dcRaw sync0Raw a.sample.hostNs, last := a }

/-- The call accepted its sample. -/
def tookIn (r : ClockRec) : Prop := r.post.dc.samples ≠ r.pre.dc.samples

instance (r : ClockRec) : Decidable (tookIn r) := inferInstanceAs (Decidable (_ ≠ _))

/-- An accepted sample is one where the two clocks have gone apart by less than half
a turn since the last accepted one. -/
def StaysNear (_ : List ClockRec) (r : ClockRec) : Prop :=
  tookIn r → (r.pre.last.apart r.ev).natAbs < 2 ^ 31

/-- The times fit in an `int64_t`: less than `2 ^ 62` nanoseconds from one accepted
sample to the next, and since the anchor. -/
def InReach (a : Reading) (_ : List ClockRec) (r : ClockRec) : Prop :=
  tookIn r → ((r.ev.host : Int) - r.pre.last.host).natAbs < 2 ^ 62 ∧
    ((r.ev.ref : Int) - a.ref).natAbs < 2 ^ 62

/-- The extended time is the true one, counted from the anchor. -/
structure Exact (start : Clock) (x : Reading) (dc : Dc) : Prop where
  since : dc.extNs - start.dc.extNs = (x.ref : Int) - start.last.ref
  low : dc.extNs % 2 ^ 32 = x.ref % 2 ^ 32
  wraps : dc.wraps - start.dc.wraps = dc.extNs / 2 ^ 32
  fits : -2 ^ 63 ≤ dc.extNs ∧ dc.extNs < 2 ^ 63

instance (hist : List ClockRec) (r : ClockRec) : Decidable (StaysNear hist r) :=
  inferInstanceAs (Decidable (tookIn r → _))

instance (a : Reading) (hist : List ClockRec) (r : ClockRec) : Decidable (InReach a hist r) :=
  inferInstanceAs (Decidable (tookIn r → _))

/-- What the loop knows of the last accepted reading. -/
structure ClockInv (start c : Clock) : Prop where
  lo : c.dc.prevLo = UInt32.ofNat c.last.ref
  host : c.dc.prevHostNs = UInt64.ofNat c.last.host
  ext : c.dc.extNs = (c.last.ref : Int) - start.last.ref + start.dc.extNs
  wraps : c.dc.wraps = start.dc.wraps + c.dc.extNs / 2 ^ 32

section Runs

variable {dc₀ : Dc} {a : Reading} {sync0Raw : UInt64} {c start : Clock} {x : Reading}

theorem anchored_ext (dc₀ : Dc) (a : Reading) (sync0Raw : UInt64) :
    (Clock.anchored dc₀ a sync0Raw).dc.extNs = (a.ref : Int) % 2 ^ 32 := by
  have hext : (Clock.anchored dc₀ a sync0Raw).dc.extNs = (a.sample.dcRaw.toUInt32.toNat : Int) :=
    rfl
  rw [hext, Reading.sample_lo, UInt32.toNat_ofNat']
  omega

theorem clockInv_anchored (dc₀ : Dc) (a : Reading) (sync0Raw : UInt64) :
    ClockInv (Clock.anchored dc₀ a sync0Raw) (Clock.anchored dc₀ a sync0Raw) where
  lo := a.sample_lo
  host := rfl
  ext := by
    have hlast : (Clock.anchored dc₀ a sync0Raw).last = a := rfl
    omega
  wraps := by
    rw [anchored_ext]
    omega

/-- A call that does not accept its sample keeps the extended time. -/
theorem step_of_not_accepted {r : Dc × Int}
    (hr : DcResult c.dc x.sample.dcRaw.toUInt32 x.sample.hostNs r)
    (hsame : r.1.samples = c.dc.samples) :
    r.1.prevLo = c.dc.prevLo ∧ r.1.prevHostNs = c.dc.prevHostNs ∧ r.1.extNs = c.dc.extNs ∧
      r.1.wraps = c.dc.wraps := by
  cases hr with
  | unanchored => exact ⟨rfl, rfl, rfl, rfl⟩
  | stale => exact ⟨rfl, rfl, rfl, rfl⟩
  | rejected => exact ⟨rfl, rfl, rfl, rfl⟩
  | accepted _ _ r hr =>
    obtain ⟨-, hsamples, -⟩ :=
      control_kept (unwrap (c.dc.pass x.sample.dcRaw.toUInt32 x.sample.hostNs)
        x.sample.dcRaw.toUInt32 x.sample.hostNs)
    rw [← hr] at hsamples
    have hcount : r.1.samples = c.dc.samples := hsamples
    simp only at hsame
    omega

/-- A call that accepts its sample extends the time by the way to it. -/
theorem step_of_accepted {r : Dc × Int}
    (hr : DcResult c.dc x.sample.dcRaw.toUInt32 x.sample.hostNs r)
    (hmore : r.1.samples ≠ c.dc.samples) :
    r.1.prevLo = UInt32.ofNat x.ref ∧ r.1.prevHostNs = UInt64.ofNat x.host ∧
      r.1.extNs = toI64 (c.dc.extNs + c.dc.delta (UInt32.ofNat x.ref) x.sample.hostNs) ∧
      r.1.wraps = c.dc.wraps + (r.1.extNs / 2 ^ 32 - c.dc.extNs / 2 ^ 32) := by
  cases hr with
  | unanchored => exact absurd rfl hmore
  | stale => exact absurd rfl hmore
  | rejected => exact absurd rfl hmore
  | accepted _ _ r hr =>
    obtain ⟨hext, -, hwraps, hlo, hhost⟩ :=
      control_clock (unwrap (c.dc.pass x.sample.dcRaw.toUInt32 x.sample.hostNs)
        x.sample.dcRaw.toUInt32 x.sample.hostNs)
    rw [← hr] at hext hwraps hlo hhost
    rw [Reading.sample_lo] at hext hwraps hlo
    refine ⟨hlo, hhost, hext, ?_⟩
    simp only [hext, hwraps]
    unfold unwrap
    simp only [Int.shiftRight_eq_div_pow]
    rfl

theorem ClockInv.step (hinv : ClockInv start c)
    (hstart : start.dc.extNs = (start.last.ref : Int) % 2 ^ 32)
    (hnear : StaysNear [] ⟨c, x, c.step x⟩) (hreach : InReach start.last [] ⟨c, x, c.step x⟩) :
    ClockInv start (c.step x) := by
  have hresult := ecmDcUpdate_result c.dc x.sample.dcRaw x.sample.hostNs
  by_cases htook : (c.dc.step x.sample).samples = c.dc.samples
  · have hlast : (c.step x).last = c.last := if_pos htook
    obtain ⟨hlo, hhost, hext, hwraps⟩ := step_of_not_accepted hresult htook
    constructor
    · rw [hlast]
      exact hlo.trans hinv.lo
    · rw [hlast]
      exact hhost.trans hinv.host
    · rw [hlast]
      exact hext.trans hinv.ext
    · exact hwraps.trans (hinv.wraps.trans (congrArg (start.dc.wraps + · / 2 ^ 32) hext.symm))
  · have hlast : (c.step x).last = x := if_neg htook
    obtain ⟨hlo, hhost, hext, hwraps⟩ := step_of_accepted hresult htook
    have hdelta : c.dc.delta (UInt32.ofNat x.ref) x.sample.hostNs = (x.ref : Int) - c.last.ref :=
      delta_eq hinv.lo hinv.host (hnear htook) (hreach htook).1
    have hbefore := hinv.ext
    have hfits : FitsI64 (c.dc.extNs + ((x.ref : Int) - c.last.ref)) := by
      have hsince : ((x.ref : Int) - start.last.ref).natAbs < 2 ^ 62 := (hreach htook).2
      unfold FitsI64
      omega
    rw [hdelta, toI64_eq hfits] at hext
    constructor
    · rw [hlast]
      exact hlo
    · rw [hlast]
      exact hhost
    · rw [hlast]
      change (ecmDcUpdate c.dc x.sample.dcRaw x.sample.hostNs).1.extNs = _
      omega
    · have hturns := hinv.wraps
      change (ecmDcUpdate c.dc x.sample.dcRaw x.sample.hostNs).1.wraps =
        start.dc.wraps + (ecmDcUpdate c.dc x.sample.dcRaw x.sample.hostNs).1.extNs / 2 ^ 32
      omega

/-- What the invariant says of the extended time. -/
theorem ClockInv.exact (hinv : ClockInv start c)
    (hstart : start.dc.extNs = (start.last.ref : Int) % 2 ^ 32)
    (hreach : ((c.last.ref : Int) - start.last.ref).natAbs < 2 ^ 62) :
    Exact start c.last c.dc := by
  obtain ⟨-, -, hext, hwraps⟩ := hinv
  constructor <;> omega

/-- In every run where the two clocks stay near each other from one accepted sample
to the next, the extended time is exact after every accepted sample. -/
theorem unwrapping_is_exact (dc₀ : Dc) (a : Reading) (sync0Raw : UInt64) (xs : List Reading)
    (hnear : Along Clock.step (Clock.anchored dc₀ a sync0Raw) xs StaysNear)
    (hreach : Along Clock.step (Clock.anchored dc₀ a sync0Raw) xs (InReach a)) :
    Along Clock.step (Clock.anchored dc₀ a sync0Raw) xs fun _ r =>
      tookIn r → Exact (Clock.anchored dc₀ a sync0Raw) r.ev r.post.dc := by
  have hkeep : ∀ hist c x, ClockInv (Clock.anchored dc₀ a sync0Raw) c →
      StaysNear hist ⟨c, x, c.step x⟩ ∧ InReach a hist ⟨c, x, c.step x⟩ →
      ClockInv (Clock.anchored dc₀ a sync0Raw) (c.step x) := by
    rintro hist c x hinv ⟨hnear, hreach⟩
    exact hinv.step (anchored_ext dc₀ a sync0Raw) hnear hreach
  refine Along.of_invariant (I := fun _ c => ClockInv (Clock.anchored dc₀ a sync0Raw) c)
    (clockInv_anchored dc₀ a sync0Raw) hkeep ?_ (hnear.and hreach)
  rintro hist c x hinv hcond htook
  have hlast : (c.step x).last = x := if_neg htook
  have hreach : (((c.step x).last.ref : Int) - a.ref).natAbs < 2 ^ 62 := by
    rw [hlast]
    exact (hcond.2 htook).2
  have hexact := (hkeep hist c x hinv hcond).exact (anchored_ext dc₀ a sync0Raw) hreach
  rw [hlast] at hexact
  exact hexact

end Runs

/-! A loop with a cycle of a millisecond. -/

def freshLoop : Dc := ecmDcInit (ecmDcDefaultCfg 1000000 0)

/-- One sample across a turn, one that did not come back, and one three turns later. -/
def threeTurns : List Reading :=
  [⟨2 ^ 32 + 500, 1001500⟩, ⟨2 ^ 32 + 500, 2001500⟩, ⟨4 * 2 ^ 32 + 7, 3 * 2 ^ 32 + 1001000⟩]

theorem unwrapping_is_exact_threeTurns :
    (Along Clock.step (Clock.anchored freshLoop ⟨2 ^ 32 - 1000, 1000000⟩ 0) threeTurns
      fun _ r => tookIn r →
        Exact (Clock.anchored freshLoop ⟨2 ^ 32 - 1000, 1000000⟩ 0) r.ev r.post.dc) ∧
    (run Clock.step (Clock.anchored freshLoop ⟨2 ^ 32 - 1000, 1000000⟩ 0)
      threeTurns).dc.wraps = 4 :=
  ⟨unwrapping_is_exact freshLoop ⟨2 ^ 32 - 1000, 1000000⟩ 0 threeTurns (by decide +kernel)
    (by decide +kernel), by decide +kernel⟩

/-- After a second anchor the counter still has the turns from before it.  And over
a gap of half the range of the host time, the host clock says that time has gone
back. -/
theorem second_anchor_keeps_wraps_and_long_gap_turns_back :
    (∃ dc₀ xs, dc₀ = (run Clock.step (Clock.anchored freshLoop ⟨2 ^ 32 - 1000, 1000000⟩ 0)
        [⟨2 ^ 32 + 500, 1001500⟩]).dc ∧
      Along Clock.step (Clock.anchored dc₀ ⟨2 ^ 32 + 700, 1001700⟩ 0) xs StaysNear ∧
      ¬ Along Clock.step (Clock.anchored dc₀ ⟨2 ^ 32 + 700, 1001700⟩ 0) xs fun _ r =>
        tookIn r → r.post.dc.wraps = r.post.dc.extNs / 2 ^ 32) ∧
    ∃ xs, Along Clock.step (Clock.anchored freshLoop ⟨0, 0⟩ 0) xs StaysNear ∧
      ¬ Along Clock.step (Clock.anchored freshLoop ⟨0, 0⟩ 0) xs fun _ r =>
        tookIn r → r.post.dc.extNs - (Clock.anchored freshLoop ⟨0, 0⟩ 0).dc.extNs = r.ev.ref := by
  refine ⟨⟨_, [⟨2 ^ 32 + 900, 1001900⟩], rfl, ?_, ?_⟩, [⟨2 ^ 63 + 1, 2 ^ 63 + 1⟩], ?_, ?_⟩
  all_goals decide +kernel

end EcMaster.Core
