import EcMaster.Cia402.Run

/-!
# Who may enable an axis

The latches S1, S5, S6 and S7 of `docs/safety_boundary.md`: the master never
enables an axis by itself.  A controlword with the low nibble 0xF is on account
of an `ENABLE` of the application that was accepted earlier and that nothing
has revoked since, and a reset pulse is on account of a `FAULT_RESET` of the
same hook.

`Authority` is the invariant.  As long as the target of an axis is enabled, its
history has an accepted `ENABLE`, all steps after it are harmless, the drive
has not left Operation enabled, and `reached_oe` says whether it has been seen
there.
-/

namespace EcMaster.Cia402

open EcMaster.Run EcMaster.Xchg

/-- The step applies an `ENABLE` that is accepted. -/
def AcceptsEnable (q : AxRec) : Prop :=
  ∃ x xe tick, q.ev = .cmd x xe tick ∧ x.op = .enable ∧
    enableAccepted q.pre.shutdown xe q.pre.a = true

theorem acceptsEnable_iff (q : AxRec) :
    AcceptsEnable q ↔
      match q.ev with
      | .cmd x xe _ => x.op = .enable ∧ enableAccepted q.pre.shutdown xe q.pre.a = true
      | _ => False := by
  obtain ⟨pre, ev, post⟩ := q
  cases ev <;> simp [AcceptsEnable]

instance : DecidablePred AcceptsEnable := fun q =>
  have : Decidable (match q.ev with
      | .cmd x xe _ => x.op = .enable ∧ enableAccepted q.pre.shutdown xe q.pre.a = true
      | _ => False) := by split <;> infer_instance
  decidable_of_iff _ (acceptsEnable_iff q).symm

/-- The step applies a `FAULT_RESET` in the drive state Fault. -/
def ResetsFault (q : AxRec) : Prop :=
  ∃ x xe tick, q.ev = .cmd x xe tick ∧ x.op = .faultReset ∧ q.pre.a.ds = .fault

/-- The step is none of those that revoke an `ENABLE`. -/
def Harmless (q : AxRec) : Prop :=
  match q.ev with
  | .cmd x xe _ =>
      x.op ≠ .disable ∧ x.op ≠ .quickstop ∧ x.op ≠ .faultReset ∧ (x.op = .enable → xe = .none)
  | .setpoint _ => True
  | .shutdown => False
  | .hook h => h.busLost = false ∧ q.post.a.ds.faulty = false ∧ h.xe = .none

/-- A hook with valid inputs that show the drive state `ds`. -/
def ShowsDs (q : AxRec) (ds : DriveState) : Prop :=
  ∃ h, q.ev = .hook h ∧ h.inValid = true ∧ q.post.a.ds = ds

/-- No hook with valid inputs shows another drive state after Operation enabled
has been shown. -/
def KeepsOe (l : List AxRec) : Prop :=
  l.Pairwise fun q q' => ShowsDs q .oe → ∀ ds, ShowsDs q' ds → ds = .oe

/-- The step is not a hook. -/
def NoHook (q : AxRec) : Prop := ∀ h, q.ev ≠ .hook h

/-- What an enabled axis has behind it. -/
def Authority (reachedOe : Bool) (hist : List AxRec) : Prop :=
  Since AcceptsEnable
    (fun after => (∀ q ∈ after, Harmless q) ∧ KeepsOe after ∧
      (reachedOe = true ↔ ∃ q ∈ after, ShowsDs q .oe)) hist

/-- The invariant of one axis. -/
structure EnableInv (hist : List AxRec) (s : AxSt) : Prop where
  authority : s.a.target = .enabled → Authority s.a.reachedOe hist
  shutdown : s.shutdown = true → s.a.target ≠ .enabled
  pulse : s.a.resetPulse = 2 → Since ResetsFault (fun after => ∀ q ∈ after, NoHook q) hist

/-! ## One step -/

/-- A step that is not a hook shows no drive state. -/
theorem NoHook.not_showsDs {q : AxRec} (hq : NoHook q) (ds : DriveState) : ¬ ShowsDs q ds :=
  fun ⟨h, hev, _⟩ => hq h hev

/-- A harmless step that is not a hook keeps the authority. -/
theorem Authority.concat {b : Bool} {hist : List AxRec} {r : AxRec}
    (hauth : Authority b hist) (hr : Harmless r) (hno : NoHook r) :
    Authority b (hist ++ [r]) := by
  apply Since.concat hauth
  rintro after ⟨hall, hkeep, hreach⟩
  refine ⟨List.forall_mem_append.2 ⟨hall, List.forall_mem_singleton.2 hr⟩, ?_, ?_⟩
  · refine List.pairwise_append.2 ⟨hkeep, List.pairwise_singleton _ _, ?_⟩
    intro q _ q' hq' _ ds hds
    rw [List.mem_singleton.1 hq'] at hds
    exact absurd hds (hno.not_showsDs ds)
  · rw [hreach]
    constructor
    · rintro ⟨q, hq, hoe⟩
      exact ⟨q, List.mem_append_left _ hq, hoe⟩
    · rintro ⟨q, hq, hoe⟩
      rcases List.mem_append.1 hq with hq | hq
      · exact ⟨q, hq, hoe⟩
      · rw [List.mem_singleton.1 hq] at hoe
        exact absurd hoe (hno.not_showsDs .oe)

/-- A hook in which the target stays enabled through the front half keeps the
authority, whatever the rest of the hook does to the target. -/
theorem Authority.hook {p : Params} {hist : List AxRec} {s : AxSt} {h : AxHook}
    (hauth : Authority s.a.reachedOe hist) (ht : (front p h s.a).a.target = .enabled) :
    Authority (axStep p s (.hook h)).a.reachedOe
      (hist ++ [⟨s, .hook h, axStep p s (.hook h)⟩]) := by
  obtain ⟨-, hlost, hxe, hfault, hdrop, hreached⟩ := front_target_enabled ht
  have hpost : (axStep p s (.hook h)).a.reachedOe =
      (s.a.reachedOe || (h.inValid && (readInputs p h s.a).ds = .oe)) := by
    simp [axStep, hreached]
  have hds : (axStep p s (.hook h)).a.ds = (readInputs p h s.a).ds := by simp [axStep]
  have hshow : ∀ ds, ShowsDs ⟨s, .hook h, axStep p s (.hook h)⟩ ds ↔
      h.inValid = true ∧ (readInputs p h s.a).ds = ds := by
    intro ds
    constructor
    · rintro ⟨h', hev, hv, hds'⟩
      cases hev
      exact ⟨hv, hds ▸ hds'⟩
    · rintro ⟨hv, hds'⟩
      exact ⟨h, rfl, hv, hds.trans hds'⟩
  apply Since.concat hauth
  rintro after ⟨hall, hkeep, hreach⟩
  have hr : Harmless ⟨s, .hook h, axStep p s (.hook h)⟩ := ⟨hlost, hds ▸ hfault, hxe⟩
  refine ⟨List.forall_mem_append.2 ⟨hall, List.forall_mem_singleton.2 hr⟩, ?_, ?_⟩
  · refine List.pairwise_append.2 ⟨hkeep, List.pairwise_singleton _ _, ?_⟩
    intro q hq q' hq' hoe ds hds'
    rw [List.mem_singleton.1 hq', hshow] at hds'
    by_contra hne
    -- the drive has been seen in Operation enabled, so the latch S1 would have fired
    have hno := hdrop hds'.1 (hds'.2 ▸ hne)
    have hyes := hreach.2 ⟨q, hq, hoe⟩
    simp [hno] at hyes
  · rw [hpost, Bool.or_eq_true, hreach]
    simp only [List.mem_append, List.mem_singleton, or_and_right, exists_or, exists_eq_left,
      hshow, Bool.and_eq_true, decide_eq_true_eq]

/-- A fresh axis is disabled and has no reset pulse. -/
theorem enableInv_init (x : AxisSetup) : EnableInv [] x.init where
  authority ht := by cases ht
  shutdown hsd := by cases hsd
  pulse hp := by cases hp

/-- A command keeps the invariant. -/
theorem EnableInv.cmd {hist : List AxRec} {s : AxSt} (hI : EnableInv hist s) (p : Params)
    (x : XCmd) (xe : AxErr) (tick : Nat) :
    EnableInv (hist ++ [⟨s, .cmd x xe tick, axStep p s (.cmd x xe tick)⟩])
      (axStep p s (.cmd x xe tick)) where
  authority ht := by
    rcases target_applyCmd ht with ⟨hop, hacc, hreach⟩ | ⟨hold, hsd, hd, hq, hf, hreach⟩
    · refine Since.now hist ⟨x, xe, tick, rfl, hop, hacc⟩ ⟨by simp, List.Pairwise.nil, ?_⟩
      simp [axStep, hreach]
    · have hauth := hI.authority hold
      rw [← hreach] at hauth
      refine hauth.concat ⟨hd, hq, hf, fun hop => ?_⟩ (by simp [NoHook])
      exact absurd hold (hI.shutdown (hsd hop))
  shutdown hsd ht := by
    have hsd : s.shutdown = true := hsd
    rcases target_applyCmd ht with ⟨-, hacc, -⟩ | ⟨hold, -⟩
    · simp [enableAccepted, hsd] at hacc
    · exact hI.shutdown hsd hold
  pulse hp := by
    rcases resetPulse_applyCmd hp with hold | ⟨hop, hds⟩
    · refine (hI.pulse hold).concat fun after hall => ?_
      exact List.forall_mem_append.2 ⟨hall, List.forall_mem_singleton.2 (by simp [NoHook])⟩
    · exact Since.now hist ⟨x, xe, tick, rfl, hop, hds⟩ (by simp)

/-- Every step of an axis keeps the invariant. -/
theorem EnableInv.step {hist : List AxRec} {s : AxSt} (hI : EnableInv hist s) (p : Params)
    (e : AxEv) : EnableInv (hist ++ [⟨s, e, axStep p s e⟩]) (axStep p s e) := by
  have hpulse : ∀ e : AxEv, NoHook ⟨s, e, axStep p s e⟩ →
      s.a.resetPulse = 2 →
      Since ResetsFault (fun after => ∀ q ∈ after, NoHook q)
        (hist ++ [⟨s, e, axStep p s e⟩]) := by
    intro e hno hp
    refine (hI.pulse hp).concat fun after hall => ?_
    exact List.forall_mem_append.2 ⟨hall, List.forall_mem_singleton.2 hno⟩
  cases e with
  | cmd x xe tick => exact hI.cmd p x xe tick
  | setpoint sp =>
    exact ⟨fun ht => (hI.authority ht).concat trivial (by simp [NoHook]), hI.shutdown,
      hpulse _ (by simp [NoHook])⟩
  | shutdown =>
    have hdown : (axStep p s .shutdown).a.target = .disabled := rfl
    exact ⟨by simp [hdown], by simp [hdown], hpulse _ (by simp [NoHook])⟩
  | hook h =>
    refine ⟨fun ht => ?_, fun hsd ht => ?_, fun hp => ?_⟩
    · have hfront := axisRt_enabled ht
      exact (hI.authority (front_target_enabled hfront).1).hook hfront
    · exact hI.shutdown hsd (front_target_enabled (axisRt_enabled ht)).1
    · have hne := (front_pulse p h s.a).2
      simp only [axStep, axisRt_frame] at hp
      exact absurd hp hne

/-! ## Every run -/

/-- **S1, S5, S6, S7.**  A controlword with the low nibble 0xF has an accepted
`ENABLE` behind it, and from then on through this hook nothing has revoked it:
no `DISABLE`, `QUICKSTOP` or `FAULT_RESET`, no lost bus, no fault of the drive,
no external error, no shutdown, and Operation enabled was not left.  Bit 7 has
a `FAULT_RESET` of the same hook behind it, applied in the drive state Fault. -/
theorem enable_authority (cfg : Config) (evs : List Event) (i : Fin cfg.axes.length) :
    cfg.AxisAlong evs i fun hist r =>
      ∀ h cw, r.ev = .hook h → r.post.out.cw = some cw →
        (cw % 16 = 15 →
          Since AcceptsEnable
            (fun after => (∀ q ∈ after, Harmless q) ∧ KeepsOe after) (hist ++ [r])) ∧
        (cw.testBit 7 = true →
          Since ResetsFault (fun after => ∀ q ∈ after, NoHook q) hist) := by
  refine Along.of_invariant' (I := EnableInv) (enableInv_init _) ?_ ?_ _
  · intro hist s e hI
    exact hI.step _ e
  · intro hist s e hI h cw hev hout
    simp only at hev
    subst hev
    refine ⟨fun hcw => ?_, fun hbit => hI.pulse (axisRt_pulse hout hbit)⟩
    have hfront := axisRt_nibble hout hcw
    obtain ⟨before, q, after, heq, hacc, hall, hkeep, -⟩ :=
      (hI.authority (front_target_enabled hfront).1).hook hfront
    exact ⟨before, q, after, heq, hacc, hall, hkeep⟩

end EcMaster.Cia402
