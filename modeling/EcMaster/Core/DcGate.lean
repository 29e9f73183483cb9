import EcMaster.Core.Dc

/-!
# The reply-age gate over a run

`ecm_dc.h` says what the gate is for: a reply that SOEM took for another frame is
rejected, `last_rejected` tells the caller so, and a clock that has really stepped
is followed after `ECM_DC_GATE_RESYNC` rejections.  Rejections that look like the
reuse of an index (`Dc.reuse`) are not to count toward that limit, only toward
`ECM_DC_GATE_RESYNC_REUSE`.

The code is not so: there is one counter of rejections for both limits, so two old
replies and one sample of the other kind make a clock step.  And where a sample did
not come back, `last_rejected` is not the verdict of this call: the call returns
before it and leaves the last verdict in place, which the offline tests rely on.
`gate_counts_reuse` has a run for each.

`KeepsKind` and `FreshVerdict` exclude the two, and `gate_law` is the rule of the
header in every run where they hold.  The invariant is that the counter is the
number of rejections since the last accepted sample, and that none of them was of
the reuse kind unless the last sample was.
-/

namespace EcMaster.Core

open EcMaster.Run

/-- What `ecm_dc_update` is called with. -/
structure Sample where
  dcRaw : UInt64
  hostNs : UInt64
deriving DecidableEq, Repr

/-- One call of `ecm_dc_update`. -/
def Dc.step (dc : Dc) (x : Sample) : Dc := (ecmDcUpdate dc x.dcRaw x.hostNs).1

abbrev DcRec := Rec Dc Sample

/-- The sample did not come back. -/
def isStale (r : DcRec) : Bool := r.ev.dcRaw.toUInt32 = r.pre.prevLo

/-- The sample is outside the gate. -/
def isOutside (r : DcRec) : Bool := r.pre.outside r.ev.dcRaw.toUInt32 r.ev.hostNs

/-- The sample is of the reuse kind. -/
def isReuse (r : DcRec) : Bool := r.pre.reuse r.ev.dcRaw.toUInt32 r.ev.hostNs

/-- The call counted its sample as accepted. -/
def isAccepted (r : DcRec) : Bool := r.post.samples ≠ r.pre.samples

/-- The call counted its sample as rejected. -/
def isRejected (r : DcRec) : Bool := r.post.implausibleSamples ≠ r.pre.implausibleSamples

/-- The calls since the last accepted sample. -/
def sinceAccepted (hist : List DcRec) : List DcRec :=
  hist.foldl (fun rs r => if isAccepted r then [] else rs ++ [r]) []

theorem sinceAccepted_concat (hist : List DcRec) (r : DcRec) :
    sinceAccepted (hist ++ [r]) = if isAccepted r then [] else sinceAccepted hist ++ [r] := by
  simp only [sinceAccepted, List.foldl_append, List.foldl_cons, List.foldl_nil]

/-- A sample outside the gate is accepted only after two rejections of its own
kind, or after 255 of any kind. -/
def StepIsEarned (hist : List DcRec) (r : DcRec) : Prop :=
  isOutside r → isAccepted r →
    (isReuse r = false ∧
      2 ≤ (sinceAccepted hist).countP fun q => isRejected q && !isReuse q) ∨
    255 ≤ (sinceAccepted hist).countP isRejected

/-- `last_rejected` is the verdict of this call. -/
def VerdictIsOwn (_ : List DcRec) (r : DcRec) : Prop := r.post.lastRejected = isRejected r

/-- The last call whose sample came back. -/
def lastBack (hist : List DcRec) : Option DcRec := hist.reverse.find? fun q => !isStale q

/-- A sample outside the gate is not followed by one of the other kind: where the
last one was of the reuse kind, this one is too or is inside the gate. -/
def KeepsKind (hist : List DcRec) (r : DcRec) : Prop :=
  isStale r = false → isOutside r → isReuse r = false → ∀ q ∈ lastBack hist, isReuse q = false

/-- A sample that did not come back does not follow a rejection. -/
def FreshVerdict (_ : List DcRec) (r : DcRec) : Prop :=
  isStale r → r.pre.lastRejected = false

instance (hist : List DcRec) (r : DcRec) : Decidable (StepIsEarned hist r) :=
  inferInstanceAs (Decidable (isOutside r → isAccepted r → _ ∨ _))

instance (hist : List DcRec) (r : DcRec) : Decidable (VerdictIsOwn hist r) :=
  inferInstanceAs (Decidable (_ = _))

instance (hist : List DcRec) (r : DcRec) : Decidable (KeepsKind hist r) :=
  inferInstanceAs (Decidable (isStale r = false → isOutside r → isReuse r = false → _))

instance (hist : List DcRec) (r : DcRec) : Decidable (FreshVerdict hist r) :=
  inferInstanceAs (Decidable (isStale r → _))

/-! ## The invariant -/

theorem lastBack_concat (hist : List DcRec) (r : DcRec) :
    lastBack (hist ++ [r]) = if isStale r then lastBack hist else some r := by
  unfold lastBack
  rw [List.reverse_append, List.reverse_singleton, List.singleton_append, List.find?_cons]
  cases isStale r <;> rfl

/-- The state after a history of calls. -/
structure GateInv (hist : List DcRec) (dc : Dc) : Prop where
  anchored : dc.state ≠ .unanchored
  run : dc.rejectRun = (sinceAccepted hist).countP isRejected
  kind : (∀ q ∈ lastBack hist, isReuse q = false) →
    ∀ q ∈ sinceAccepted hist, isRejected q → isReuse q = false

/-- The three outcomes of a call on an anchored loop, in the words of the history. -/
inductive Outcome (r : DcRec) : Prop where
  | stale (hstale : isStale r = true) (hacc : isAccepted r = false) (hrej : isRejected r = false)
      (hrun : r.post.rejectRun = r.pre.rejectRun) (hlast : r.post.lastRejected = r.pre.lastRejected)
  | rejected (hstale : isStale r = false) (hout : isOutside r = true) (hacc : isAccepted r = false)
      (hrej : isRejected r = true) (hrun : r.post.rejectRun = r.pre.rejectRun + 1)
      (hlast : r.post.lastRejected = true)
  | accepted (hstale : isStale r = false) (hacc : isAccepted r = true) (hrej : isRejected r = false)
      (hrun : r.post.rejectRun = 0) (hlast : r.post.lastRejected = false)
      (hlimit : isOutside r = true →
        (if isReuse r then dcGateResyncReuse else dcGateResync) ≤ r.pre.rejectRun + 1)

theorem outcome {dc : Dc} (h : dc.state ≠ .unanchored) (x : Sample) :
    Outcome ⟨dc, x, dc.step x⟩ := by
  have hturn : DcTurn dc x.dcRaw.toUInt32 x.hostNs (dc.step x) :=
    ecmDcUpdate_turn h x.dcRaw x.hostNs
  cases hturn with
  | stale hlo hsamples hcounted hrun hlast =>
    exact .stale (by simp [isStale, hlo]) (by simp [isAccepted, hsamples])
      (by simp [isRejected, hcounted]) hrun hlast
  | rejected hlo hout _ hsamples hcounted hrun hlast =>
    exact .rejected (by simp [isStale, hlo]) hout (by simp [isAccepted, hsamples])
      (by simp [isRejected, hcounted]) hrun hlast
  | accepted hlo hlimit hsamples hcounted hrun hlast =>
    exact .accepted (by simp [isStale, hlo]) (by simp [isAccepted, hsamples])
      (by simp [isRejected, hcounted]) hrun hlast hlimit

theorem GateInv.step {hist : List DcRec} {dc : Dc} (hI : GateInv hist dc) (x : Sample)
    (hkeeps : KeepsKind hist ⟨dc, x, dc.step x⟩) :
    GateInv (hist ++ [⟨dc, x, dc.step x⟩]) (dc.step x) := by
  refine ⟨ecmDcUpdate_anchored hI.anchored x.dcRaw x.hostNs, ?_, ?_⟩
  · rw [sinceAccepted_concat]
    cases outcome hI.anchored x with
    | stale _ hacc hrej hrun _ =>
      rw [hacc, hrun, hI.run]
      simp [List.countP_append, hrej]
    | rejected _ _ hacc hrej hrun _ =>
      rw [hacc, hrun, hI.run]
      simp [List.countP_append, hrej]
    | accepted _ hacc _ hrun _ _ =>
      rw [hacc, hrun]
      simp
  · rw [sinceAccepted_concat, lastBack_concat]
    cases outcome hI.anchored x with
    | stale hstale hacc hrej _ _ =>
      rw [hstale, hacc]
      intro hlast q hq
      rcases List.mem_append.1 hq with hq | hq
      · exact hI.kind hlast q hq
      · rw [List.mem_singleton.1 hq, hrej]
        simp
    | rejected hstale hout hacc _ _ _ =>
      rw [hstale, hacc]
      intro hlast q hq
      -- the sample is not of the reuse kind, so the ones before it were not either
      have hkind : isReuse ⟨dc, x, dc.step x⟩ = false := hlast _ rfl
      rcases List.mem_append.1 hq with hq | hq
      · exact hI.kind (hkeeps hstale hout hkind) q hq
      · rw [List.mem_singleton.1 hq]
        exact fun _ => hkind
    | accepted _ hacc _ _ _ _ =>
      rw [hacc]
      simp

theorem GateInv.stepIsEarned {hist : List DcRec} {dc : Dc} (hI : GateInv hist dc) (x : Sample)
    (hkeeps : KeepsKind hist ⟨dc, x, dc.step x⟩) : StepIsEarned hist ⟨dc, x, dc.step x⟩ := by
  intro hout hacc
  cases outcome hI.anchored x with
  | stale _ hno | rejected _ _ hno =>
    rw [hno] at hacc
    cases hacc
  | accepted hstale _ _ _ _ hlimit =>
    have hle := hlimit hout
    change _ ≤ dc.rejectRun + 1 at hle
    rw [hI.run] at hle
    cases hkind : isReuse ⟨dc, x, dc.step x⟩ with
    | true =>
      right
      rw [if_pos hkind, dcGateResyncReuse] at hle
      omega
    | false =>
      left
      refine ⟨rfl, ?_⟩
      rw [if_neg (by simp [hkind]), dcGateResync] at hle
      have hown := hI.kind (hkeeps hstale hout hkind)
      have hsame : (sinceAccepted hist).countP (fun q => isRejected q && !isReuse q) =
          (sinceAccepted hist).countP isRejected := by
        apply List.countP_congr
        intro q hq
        constructor
        · intro h
          simp only [Bool.and_eq_true] at h
          exact h.1
        · intro h
          simp [h, hown q hq h]
      rw [hsame]
      omega

theorem verdictIsOwn {hist : List DcRec} {dc : Dc} (h : dc.state ≠ .unanchored) (x : Sample)
    (hfresh : FreshVerdict hist ⟨dc, x, dc.step x⟩) : VerdictIsOwn hist ⟨dc, x, dc.step x⟩ := by
  unfold VerdictIsOwn
  cases outcome h x with
  | stale hstale _ hrej _ hlast => rw [hrej, hlast, hfresh hstale]
  | rejected _ _ _ hrej _ hlast => rw [hrej, hlast]
  | accepted _ _ hrej _ hlast _ => rw [hrej, hlast]

/-! ## Every run -/

/-- The loop as the master starts it: initialised and anchored. -/
def dcStart (cfg : DcCfg) (dcRaw sync0Raw hostNs : UInt64) : Dc :=
  ecmDcAnchor (ecmDcInit cfg) dcRaw sync0Raw hostNs

/-- In every run in which the kinds of rejection do not mix and no sample stays
away after a rejection: a sample outside the gate is accepted only after the
rejections that its kind needs, and `last_rejected` is the verdict of its call. -/
theorem gate_law (cfg : DcCfg) (dcRaw sync0Raw hostNs : UInt64) (xs : List Sample)
    (hkeeps : Along Dc.step (dcStart cfg dcRaw sync0Raw hostNs) xs KeepsKind)
    (hfresh : Along Dc.step (dcStart cfg dcRaw sync0Raw hostNs) xs FreshVerdict) :
    Along Dc.step (dcStart cfg dcRaw sync0Raw hostNs) xs StepIsEarned ∧
      Along Dc.step (dcStart cfg dcRaw sync0Raw hostNs) xs VerdictIsOwn := by
  have hinit : GateInv [] (dcStart cfg dcRaw sync0Raw hostNs) :=
    ⟨by simp [dcStart, ecmDcAnchor], rfl, by simp [sinceAccepted]⟩
  have hstep : ∀ hist dc x, GateInv hist dc →
      (KeepsKind hist ⟨dc, x, dc.step x⟩ ∧ FreshVerdict hist ⟨dc, x, dc.step x⟩) →
        GateInv (hist ++ [⟨dc, x, dc.step x⟩]) (dc.step x) :=
    fun _ _ x hI hC => hI.step x hC.1
  constructor
  · exact Along.of_invariant (I := GateInv) hinit hstep
      (fun _ _ x hI hC => hI.stepIsEarned x hC.1) (hkeeps.and hfresh)
  · exact Along.of_invariant (I := GateInv) hinit hstep
      (fun _ _ x hI hC => verdictIsOwn hI.anchored x hC.2) (hkeeps.and hfresh)

/-- The configuration of a master with a cycle of 1 ms. -/
def msCfg : DcCfg :=
  { ecmDcDefaultCfg 1000000 300000 with gateNs := 1000000, gateReuseNs := 66000000 }

/-- The loop anchored at a reference time and a host time of 1 s. -/
def msStart : Dc := dcStart msCfg 1000000000 1001000000 1000000000

/-- A good sample, three steps of the clock ahead of which the third is taken, and
a good sample after them. -/
def realStep : List Sample :=
  [⟨1001000000, 1001000000⟩, ⟨1005000000, 1002000000⟩, ⟨1006000000, 1003000000⟩,
    ⟨1007000000, 1004000000⟩, ⟨1008000000, 1005000000⟩]

theorem gate_law_realStep :
    (run Dc.step msStart realStep).gateResyncs = 1 ∧
      Along Dc.step msStart realStep StepIsEarned :=
  ⟨by decide +kernel, (gate_law msCfg 1000000000 1001000000 1000000000 realStep
    (by decide +kernel) (by decide +kernel)).1⟩

/-- A good sample, two old replies, and one sample a gate and a half ahead. -/
def reuseThenJump : List Sample :=
  [⟨1001000000, 1001000000⟩, ⟨997000000, 1002000000⟩, ⟨998000000, 1003000000⟩,
    ⟨1005500000, 1004000000⟩]

/-- A good sample, an old reply, and a cycle in which the good sample is read again. -/
def reuseThenStale : List Sample :=
  [⟨1001000000, 1001000000⟩, ⟨997000000, 1002000000⟩, ⟨1001000000, 1003000000⟩]

/-- Two rejections of the reuse kind count toward the clock step of another
sample, and a sample that did not come back keeps the verdict of the call
before it. -/
theorem gate_counts_reuse :
    ¬ Along Dc.step msStart reuseThenJump StepIsEarned ∧
      ¬ Along Dc.step msStart reuseThenStale VerdictIsOwn := by
  constructor <;> decide +kernel

end EcMaster.Core
