import EcMaster.Cia402.Front

/-!
# Step 6 of `axis_rt`: the setpoint stream

While an axis runs in CSP or CSV, the setpoint for tick `k + 1` is taken from
the axis's ring in hook `k`.  What is too old, or cannot be used because the
axis does not run in a cyclic mode, is popped and counted, at most
`ECM_XCHG_SP_SKIP_MAX` elements in one hook.  `drain` is that loop, with the
budget that is left as its counter.

`stepLimit` is the latch S4 and `cspOut`, `csvOut` choose what is written to
0x607A and 0x60FF.

`skipped` is not a variable of the source, and `used` is there only the flag
`got`: together they record what the loop took from the ring, for the results
on the stream.  Only `used.isSome`, which is `got`, is read.

`drain_spec` says what the loop does, and `takeSetpoint_spec` what step 6 does
up to the underrun counter.
-/

namespace EcMaster.Cia402

open EcMaster.ByteImage EcMaster.Pdo EcMaster.Xchg

/-- Why a setpoint that left the ring was not used. -/
inductive Fate where
  | late | dropped
deriving DecidableEq, Repr

/-- The state of the setpoint loop. -/
structure Drain where
  s : Stream
  ring : XRing XSp
  skipped : List (XSp × Fate)
  used : Option XSp

/-- One more setpoint that cannot be used: too old, or the axis does not run in
a cyclic mode. -/
def Drain.skip (d : Drain) (e : XSp) (late : Bool) : Drain :=
  { s :=
      if late then { d.s with late := d.s.late + 1 }
      else { d.s with dropped := d.s.dropped + 1 }
    ring := ecmXringPop d.ring
    skipped := d.skipped ++ [(e, if late then .late else .dropped)]
    used := d.used }

/-- The setpoint for the next tick. -/
def Drain.use (d : Drain) (e : XSp) : Drain :=
  { s := { d.s with lastSp := e.v, armed := true, used := d.s.used + 1 }
    ring := ecmXringPop d.ring
    skipped := d.skipped
    used := some e }

/-- The `while` loop of step 6.  `usable` is `running && cyclic`, and the counter
is what is left of `ECM_XCHG_SP_SKIP_MAX`. -/
def drain (k1 : Nat) (usable : Bool) (budget : Nat) (d : Drain) : Drain :=
  match ecmXringPeek d.ring with
  | none => d
  | some e =>
      if e.tick > k1 then d
      else if e.tick < k1 ∨ !usable then
        match budget with
        | 0 => d
        | n + 1 => drain k1 usable n (d.skip e (e.tick < k1))
      else d.use e

/-- Step 6 up to the underrun counter. -/
def takeSetpoint (h : AxHook) (ring : XRing XSp) (w : Work) : Work × Drain :=
  let running := w.a.runs
  let usable := running && w.a.modeReq.cyclic
  let d := drain (u64 (h.tick + 1)) usable xchgSpSkipMax
    { s := w.a.toStream, ring := ring, skipped := [], used := none }
  let a := { w.a with toStream := d.s, running := running }
  let a :=
    if usable && !d.used.isSome && a.armed then { a with underrun := a.underrun + 1 } else a
  ({ w with a := a, running := running, got := d.used.isSome }, d)

/-- The limit of S4 in the requested mode; 0 is no limit. -/
def stepMax (a : Axis) : Int :=
  match a.modeReq with
  | .csp => a.maxStepPos
  | .csv => a.maxStepVel
  | _ => 0

/-- S4: a step above the limit is not sent. -/
def stepLimit (w : Work) : Work :=
  if w.got then
    let lim := stepMax w.a
    let d := w.a.lastSp - w.a.lastSent
    if lim ≠ 0 ∧ (d > lim ∨ d < -lim) then
      { w with
        a :=
          { w.a with
            stepSeen := d
            stepRefused := w.a.stepRefused + 1
            err := .step
            target := .quickstop
            lastSp := w.a.lastSent
            armed := false }
        cw := if w.a.ds = .oe then 0x0002 else w.cw
        got := false
        running := false }
    else w
  else w

/-- The target position of CSP: the actual position until the axis runs and is
armed (S2), then the new setpoint, and the last one in an underrun (S3). -/
def cspOut (w : Work) : Work :=
  if w.a.modeReq = .csp ∧ w.a.b.tpos.mapped then
    if !w.running || w.enablingNow || !w.a.armed then
      let t := w.a.apos
      { w with
        a :=
          { w.a with
            armed := w.running && w.a.armed
            lastSp := t
            lastDelta := 0
            lastSent := t }
        tpos := some t }
    else
      let t := w.a.lastSp
      { w with
        a :=
          { w.a with
            lastDelta := if w.got then t - w.a.lastSent else w.a.lastDelta
            lastSent := t }
        tpos := some t }
  else w

/-- The target velocity of CSV: 0 in an underrun. -/
def csvOut (w : Work) : Work :=
  if w.a.modeReq = .csv ∧ w.a.b.tvel.mapped then
    let v := if w.running && w.got then w.a.lastSp else 0
    { w with
      a := { w.a with armed := w.running && w.a.armed, lastSent := v }
      tvel := some v }
  else w

/-! ## The loop -/

/-- What the loop did: `sk` was skipped and `u` used. -/
structure Drained (k1 : Nat) (usable : Bool) (budget : Nat) (d d' : Drain)
    (sk : List (XSp × Fate)) (u : Option XSp) : Prop where
  skipped_eq : d'.skipped = d.skipped ++ sk
  used_eq : d'.used = u
  skipped_why : ∀ q ∈ sk, (q.2 = .late ∧ q.1.tick < k1) ∨
    (q.2 = .dropped ∧ q.1.tick = k1 ∧ usable = false)
  bound : sk.length ≤ budget
  used_why : ∀ e ∈ u, e.tick = k1 ∧ usable = true
  stream : d'.s =
    { d.s with
      late := d.s.late + (sk.map Prod.snd).count .late
      dropped := d.s.dropped + (sk.map Prod.snd).count .dropped
      used := d.s.used + u.toList.length
      lastSp := (u.map XSp.v).getD d.s.lastSp
      armed := d.s.armed || u.isSome }
  ring : d.ring.WF → d'.ring.WF ∧
    d.ring.toList = sk.map Prod.fst ++ u.toList ++ d'.ring.toList

/-- A turn that ends the loop takes nothing. -/
theorem Drained.refl (k1 : Nat) (usable : Bool) (budget : Nat) {d : Drain}
    (hnone : d.used = none) : Drained k1 usable budget d d [] none where
  skipped_eq := by simp
  used_eq := hnone
  skipped_why := by simp
  bound := by simp
  used_why := by simp
  stream := by simp
  ring hwf := ⟨hwf, by simp⟩

/-- The turn that uses the setpoint for the next tick. -/
theorem Drained.use {k1 : Nat} {usable : Bool} (budget : Nat) {d : Drain} {e : XSp}
    (hpeek : ecmXringPeek d.ring = some e) (htick : e.tick = k1) (hus : usable = true) :
    Drained k1 usable budget d (d.use e) [] (some e) where
  skipped_eq := by simp [Drain.use]
  used_eq := rfl
  skipped_why := by simp
  bound := by simp
  used_why := by simp [htick, hus]
  stream := by simp [Drain.use]
  ring hwf := by
    obtain ⟨hwf', hlist⟩ := XRing.ecmXringPop_spec hwf hpeek
    exact ⟨hwf', by simpa [Drain.use] using hlist⟩

/-- One skipped setpoint before the rest of the loop. -/
theorem Drained.skip {k1 : Nat} {usable : Bool} {n : Nat} {d d' : Drain} {e : XSp}
    {sk : List (XSp × Fate)} {u : Option XSp}
    (hpeek : ecmXringPeek d.ring = some e) (hle : e.tick ≤ k1)
    (hskip : e.tick < k1 ∨ usable = false)
    (h : Drained k1 usable n (d.skip e (e.tick < k1)) d' sk u) :
    Drained k1 usable (n + 1) d d'
      ((e, if e.tick < k1 then .late else .dropped) :: sk) u where
  skipped_eq := by
    rw [h.skipped_eq]
    simp [Drain.skip]
  used_eq := h.used_eq
  skipped_why q hq := by
    rcases List.mem_cons.1 hq with rfl | hq
    · by_cases hlt : e.tick < k1
      · simp [hlt]
      · have heq : e.tick = k1 := by omega
        simp_all
    · exact h.skipped_why q hq
  bound := by simpa using h.bound
  used_why := h.used_why
  stream := by
    rw [h.stream]
    by_cases hlt : e.tick < k1
    · simp [Drain.skip, hlt, Nat.add_assoc, Nat.add_comm]
    · simp [Drain.skip, hlt, Nat.add_assoc, Nat.add_comm]
  ring hwf := by
    obtain ⟨hwf', hlist⟩ := XRing.ecmXringPop_spec hwf hpeek
    obtain ⟨hwf'', hlist'⟩ := h.ring hwf'
    exact ⟨hwf'', by rw [hlist]; simpa [Drain.skip] using hlist'⟩

/-- The loop skips what is too old or not usable, within its budget, and then
uses at most one setpoint. -/
theorem drain_spec (k1 : Nat) (usable : Bool) :
    ∀ (budget : Nat) (d : Drain), d.used = none →
      ∃ sk u, Drained k1 usable budget d (drain k1 usable budget d) sk u := by
  intro budget
  induction budget with
  | zero =>
    intro d hnone
    unfold drain
    split
    · exact ⟨_, _, .refl k1 usable 0 hnone⟩
    · rename_i e hpeek
      split_ifs with hlater hskip
      · exact ⟨_, _, .refl k1 usable 0 hnone⟩
      · exact ⟨_, _, .refl k1 usable 0 hnone⟩
      · simp only [not_or] at hskip
        exact ⟨_, _, .use 0 hpeek (by omega) (by simpa using hskip.2)⟩
  | succ n ih =>
    intro d hnone
    unfold drain
    split
    · exact ⟨_, _, .refl k1 usable _ hnone⟩
    · rename_i e hpeek
      split_ifs with hlater hskip
      · exact ⟨_, _, .refl k1 usable _ hnone⟩
      · obtain ⟨sk, u, hrest⟩ := ih (d.skip e (e.tick < k1)) hnone
        exact ⟨_, _, hrest.skip hpeek (by omega) (by simpa using hskip)⟩
      · simp only [not_or] at hskip
        exact ⟨_, _, .use _ hpeek (by omega) (by simpa using hskip.2)⟩

/-- The setpoint that an axis running in a cyclic mode will use, read off the
content of its ring: the first one that is not too old, if it is for tick `k1`
and at most `budget` older ones are before it. -/
def nextSetpoint (k1 : Nat) : Nat → List XSp → Option XSp
  | _, [] => none
  | budget, e :: es =>
      if e.tick > k1 then none
      else if e.tick < k1 then
        match budget with
        | 0 => none
        | n + 1 => nextSetpoint k1 n es
      else some e

theorem drain_used (k1 : Nat) :
    ∀ (budget : Nat) (d : Drain), d.used = none → d.ring.WF →
      (drain k1 true budget d).used = nextSetpoint k1 budget d.ring.toList := by
  intro budget
  induction budget with
  | zero =>
    intro d hnone hwf
    unfold drain
    rw [XRing.ecmXringPeek_eq_head? hwf]
    cases hlist : d.ring.toList with
    | nil => simpa [nextSetpoint] using hnone
    | cons e es =>
      simp only [List.head?_cons, nextSetpoint, Bool.not_true, Bool.false_eq_true, or_false]
      split_ifs <;> simp [hnone, Drain.use]
  | succ n ih =>
    intro d hnone hwf
    unfold drain
    have hpeek := XRing.ecmXringPeek_eq_head? hwf
    cases hlist : d.ring.toList with
    | nil =>
      rw [hpeek, hlist]
      simpa [nextSetpoint] using hnone
    | cons e es =>
      rw [hlist, List.head?_cons] at hpeek
      obtain ⟨hwf', hpop⟩ := XRing.ecmXringPop_spec hwf hpeek
      rw [hlist, List.cons.injEq] at hpop
      rw [hpeek]
      simp only [nextSetpoint, Bool.not_true, Bool.false_eq_true, or_false]
      split_ifs
      · exact hnone
      · rw [ih (d.skip e _) hnone hwf', hpop.2]
        rfl
      · rfl

/-! ## What step 6 leaves alone -/

@[simp] theorem takeSetpoint_frame (h : AxHook) (ring : XRing XSp) (w : Work) :
    (takeSetpoint h ring w).1.a.toAxisCfg = w.a.toAxisCfg ∧
      (takeSetpoint h ring w).1.a.toInputs = w.a.toInputs ∧
      (takeSetpoint h ring w).1.a.toModeState = w.a.toModeState ∧
      (takeSetpoint h ring w).1.a.toControl = w.a.toControl ∧
      (takeSetpoint h ring w).1.a.toPpState = w.a.toPpState ∧
      (takeSetpoint h ring w).1.a.toHmState = w.a.toHmState ∧
      (takeSetpoint h ring w).1.a.running = w.a.runs ∧
      (takeSetpoint h ring w).1.running = w.a.runs ∧
      (takeSetpoint h ring w).1.cw = w.cw ∧
      (takeSetpoint h ring w).1.enablingNow = w.enablingNow ∧
      (takeSetpoint h ring w).1.tpos = w.tpos ∧
      (takeSetpoint h ring w).1.tvel = w.tvel := by
  unfold takeSetpoint
  dsimp only
  split_ifs <;> simp

@[simp] theorem stepLimit_frame (w : Work) :
    (stepLimit w).a.toAxisCfg = w.a.toAxisCfg ∧
      (stepLimit w).a.toInputs = w.a.toInputs ∧
      (stepLimit w).a.toModeState = w.a.toModeState ∧
      (stepLimit w).a.resetPulse = w.a.resetPulse ∧
      (stepLimit w).a.reachedOe = w.a.reachedOe ∧
      (stepLimit w).a.toPpState = w.a.toPpState ∧
      (stepLimit w).a.toHmState = w.a.toHmState ∧
      (stepLimit w).a.running = w.a.running ∧
      (stepLimit w).enablingNow = w.enablingNow ∧
      (stepLimit w).tpos = w.tpos ∧
      (stepLimit w).tvel = w.tvel := by
  unfold stepLimit
  dsimp only
  split_ifs <;> simp

@[simp] theorem cspOut_frame (w : Work) :
    (cspOut w).a.toAxisCfg = w.a.toAxisCfg ∧
      (cspOut w).a.toInputs = w.a.toInputs ∧
      (cspOut w).a.toModeState = w.a.toModeState ∧
      (cspOut w).a.toControl = w.a.toControl ∧
      (cspOut w).a.toPpState = w.a.toPpState ∧
      (cspOut w).a.toHmState = w.a.toHmState ∧
      (cspOut w).a.running = w.a.running ∧
      (cspOut w).running = w.running ∧
      (cspOut w).got = w.got ∧
      (cspOut w).cw = w.cw ∧
      (cspOut w).tvel = w.tvel := by
  unfold cspOut
  dsimp only
  split_ifs <;> simp

@[simp] theorem csvOut_frame (w : Work) :
    (csvOut w).a.toAxisCfg = w.a.toAxisCfg ∧
      (csvOut w).a.toInputs = w.a.toInputs ∧
      (csvOut w).a.toModeState = w.a.toModeState ∧
      (csvOut w).a.toControl = w.a.toControl ∧
      (csvOut w).a.toPpState = w.a.toPpState ∧
      (csvOut w).a.toHmState = w.a.toHmState ∧
      (csvOut w).a.running = w.a.running ∧
      (csvOut w).running = w.running ∧
      (csvOut w).cw = w.cw ∧
      (csvOut w).tpos = w.tpos := by
  unfold csvOut
  dsimp only
  split_ifs <;> simp

/-- Step 6 up to the underrun counter: the loop has the whole budget, and
besides the counter the stream is what the loop made of it. -/
theorem takeSetpoint_spec (h : AxHook) (ring : XRing XSp) (w : Work) :
    Drained (u64 (h.tick + 1)) (w.a.runs && w.a.modeReq.cyclic) xchgSpSkipMax
        { s := w.a.toStream, ring := ring, skipped := [], used := none }
        (takeSetpoint h ring w).2 (takeSetpoint h ring w).2.skipped
        (takeSetpoint h ring w).2.used ∧
      (takeSetpoint h ring w).1.got = (takeSetpoint h ring w).2.used.isSome ∧
      (takeSetpoint h ring w).1.a.toStream =
        { (takeSetpoint h ring w).2.s with
          underrun := (takeSetpoint h ring w).1.a.underrun } := by
  have hd : (takeSetpoint h ring w).2 =
      drain (u64 (h.tick + 1)) (w.a.runs && w.a.modeReq.cyclic) xchgSpSkipMax
        { s := w.a.toStream, ring := ring, skipped := [], used := none } := rfl
  obtain ⟨sk, u, hdr⟩ := drain_spec (u64 (h.tick + 1)) (w.a.runs && w.a.modeReq.cyclic)
    xchgSpSkipMax { s := w.a.toStream, ring := ring, skipped := [], used := none } rfl
  rw [← hd] at hdr
  have hsk : (takeSetpoint h ring w).2.skipped = sk := by simpa using hdr.skipped_eq
  refine ⟨by rw [hsk, hdr.used_eq]; exact hdr, rfl, ?_⟩
  unfold takeSetpoint
  dsimp only
  split_ifs <;> rfl

/-- An axis that does not run uses no setpoint. -/
theorem takeSetpoint_idle (h : AxHook) (ring : XRing XSp) {w : Work} (hidle : w.a.runs = false) :
    (takeSetpoint h ring w).1.got = false := by
  obtain ⟨hdr, hgot, -⟩ := takeSetpoint_spec h ring w
  rw [hgot, Option.isSome_eq_false_iff, Option.isNone_iff_eq_none,
    Option.eq_none_iff_forall_ne_some]
  intro e he
  simpa [hidle] using (hdr.used_why e he).2

/-- The stream fields that S4 and the outputs look at. -/
theorem takeSetpoint_stream (h : AxHook) (ring : XRing XSp) (w : Work) :
    (takeSetpoint h ring w).1.a.lastSent = w.a.lastSent ∧
      (takeSetpoint h ring w).1.a.lastSp =
        ((takeSetpoint h ring w).2.used.map XSp.v).getD w.a.lastSp ∧
      (takeSetpoint h ring w).1.a.armed =
        (w.a.armed || (takeSetpoint h ring w).2.used.isSome) := by
  obtain ⟨hdr, -, hstream⟩ := takeSetpoint_spec h ring w
  rw [hstream, hdr.stream]
  exact ⟨rfl, rfl, rfl⟩

/-! ## The step limit -/

/-- S4 refuses the setpoint that was just taken. -/
def Work.refuses (w : Work) : Prop :=
  w.got = true ∧ stepMax w.a ≠ 0 ∧
    (w.a.lastSp - w.a.lastSent > stepMax w.a ∨ w.a.lastSp - w.a.lastSent < -stepMax w.a)

instance (w : Work) : Decidable w.refuses :=
  inferInstanceAs (Decidable (_ ∧ _ ∧ _))

theorem stepLimit_of_not_refuses {w : Work} (hr : ¬ w.refuses) : stepLimit w = w := by
  unfold stepLimit
  dsimp only
  by_cases hgot : w.got = true
  · rw [if_pos hgot, if_neg fun hstep => hr ⟨hgot, hstep⟩]
  · rw [if_neg hgot]

/-- A refused step: the target is quick stop and the error is STEP. -/
theorem stepLimit_of_refuses {w : Work} (hr : w.refuses) :
    (stepLimit w).a.target = .quickstop ∧ (stepLimit w).a.err = .step ∧
      (stepLimit w).running = false ∧ (stepLimit w).got = false ∧
      (stepLimit w).a.armed = false ∧
      (stepLimit w).a.used = w.a.used ∧ (stepLimit w).a.late = w.a.late ∧
      (stepLimit w).a.dropped = w.a.dropped ∧
      (stepLimit w).cw = if w.a.ds = .oe then 0x0002 else w.cw := by
  obtain ⟨hgot, hstep⟩ := hr
  unfold stepLimit
  dsimp only
  rw [if_pos hgot, if_pos hstep]
  exact ⟨rfl, rfl, rfl, rfl, rfl, rfl, rfl, rfl, rfl⟩

/-! ## The targets of the cyclic modes -/

theorem cspOut_of_ne {w : Work} (hmode : w.a.modeReq ≠ .csp) : cspOut w = w :=
  if_neg fun h => hmode h.1

theorem csvOut_of_ne {w : Work} (hmode : w.a.modeReq ≠ .csv) : csvOut w = w :=
  if_neg fun h => hmode h.1

/-- CSP: the actual position, or the last setpoint when the axis runs, is armed
and is not just being enabled.  What is sent is remembered. -/
theorem cspOut_spec {w : Work} (hmode : w.a.modeReq = .csp) (hmap : w.a.b.tpos.mapped = true) :
    ((w.running && !w.enablingNow && w.a.armed) = true →
      (cspOut w).tpos = some w.a.lastSp ∧ (cspOut w).a.lastSent = w.a.lastSp ∧
        (cspOut w).a.lastSp = w.a.lastSp ∧ (cspOut w).a.armed = true) ∧
    ((w.running && !w.enablingNow && w.a.armed) = false →
      (cspOut w).tpos = some w.a.apos ∧ (cspOut w).a.lastSent = w.a.apos ∧
        (cspOut w).a.lastSp = w.a.apos ∧ (cspOut w).a.armed = (w.running && w.a.armed)) := by
  unfold cspOut
  rw [if_pos ⟨hmode, hmap⟩]
  dsimp only
  cases w.running <;> cases w.enablingNow <;> cases w.a.armed <;> simp

/-- S4 and `cspOut` together: a refused step sends the actual position and quick
stops; otherwise an axis that runs and is armed gets the last setpoint. -/
inductive CspOutcome (w w' : Work) : Int → Prop where
  | refused (hr : w.refuses) (ht : w'.a.target = .quickstop) (herr : w'.a.err = .step)
      (harmed : w'.a.armed = false) : CspOutcome w w' w.a.apos
  | target (hr : ¬ w.refuses) (hrun : w.running = true) (hwas : w.a.armed = true)
      (ht : w'.a.target = w.a.target) (harmed : w'.a.armed = true) :
      CspOutcome w w' w.a.lastSp
  | actual (hr : ¬ w.refuses) (hidle : w.running = false ∨ w.a.armed = false)
      (harmed : w'.a.armed = false) : CspOutcome w w' w.a.apos

theorem csp_outcome {w : Work} (hmode : w.a.modeReq = .csp) (hmap : w.a.b.tpos.mapped = true)
    (hen : w.running = true → w.enablingNow = false) :
    ∃ t, (cspOut (stepLimit w)).tpos = some t ∧ (cspOut (stepLimit w)).a.lastSent = t ∧
      (cspOut (stepLimit w)).a.lastSp = t ∧ CspOutcome w (cspOut (stepLimit w)) t := by
  obtain ⟨hgo, hstop⟩ :=
    cspOut_spec (w := stepLimit w) (by simp [hmode]) (by simp [hmap])
  by_cases hr : w.refuses
  · obtain ⟨ht, herr, hrun, -⟩ := stepLimit_of_refuses hr
    obtain ⟨hp, hls, hlsp, harm⟩ := hstop (by simp [hrun])
    have hapos : (stepLimit w).a.apos = w.a.apos := by simp
    rw [hapos] at hp hls hlsp
    exact ⟨_, hp, hls, hlsp, .refused hr (by simp [ht]) (by simp [herr]) (by simp [harm, hrun])⟩
  · rw [stepLimit_of_not_refuses hr] at hgo hstop ⊢
    by_cases hrun : w.running = true ∧ w.a.armed = true
    · obtain ⟨hp, hls, hlsp, harm⟩ := hgo (by simp [hrun, hen hrun.1])
      exact ⟨_, hp, hls, hlsp, .target hr hrun.1 hrun.2 (by simp) harm⟩
    · have hidle : w.running = false ∨ w.a.armed = false := by
        cases hR : w.running <;> cases hA : w.a.armed <;> simp_all
      obtain ⟨hp, hls, hlsp, harm⟩ := hstop (by rcases hidle with hz | hz <;> simp [hz])
      refine ⟨_, hp, hls, hlsp, .actual hr hidle ?_⟩
      rw [harm]
      rcases hidle with hz | hz <;> simp [hz]

/-- CSV: the setpoint of this hook, or 0. -/
theorem csvOut_spec {w : Work} (hmode : w.a.modeReq = .csv) (hmap : w.a.b.tvel.mapped = true) :
    (csvOut w).tvel = some (if w.running && w.got then w.a.lastSp else 0) := by
  unfold csvOut
  rw [if_pos ⟨hmode, hmap⟩]

end EcMaster.Cia402
