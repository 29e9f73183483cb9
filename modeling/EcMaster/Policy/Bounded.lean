import EcMaster.Policy.PlannerRun

/-!
# How many actions an episode can have

The fault policy bounds every recovery action.  Acknowledgements and
reconfigurations are counted and backed off, but the request of OP is not: the
source takes it for the second half of an attempt already started.  A slave that
is found in SAFE-OP without an error, again and again, is asked for OP each time,
and no counter ever gives it up (`requests_of_op_are_unbounded`).

`EndsAttempt` is what the source takes for granted: SAFE-OP without an error is
seen only after an attempt, which the planner remembers as its last action.  In a
run where it holds, every request of OP but the first of an episode has an
attempt of its own, and the sum is bounded.

The planner marks a slave failed when it should make an attempt and has none
left.  It makes none for a slave that is out of reach or in a state it does not
know, and none before the back-off is over; such a slave stays unmarked for as long
as it is seen so.  `AsksAgain` leaves these observations out of an episode that has reached
the bound.  In a run where both hold, every decision behind the bound leaves the slave
failed (`actions_are_bounded`).
-/

namespace EcMaster.Policy

open EcMaster.Run

/-- The decisions to do something. -/
def actions (ds : List Decided) : Nat := ds.countP fun d => d.decision.act ≠ .none

/-- The decisions to request OP. -/
def opRequests (ds : List Decided) : Nat := ds.countP fun d => d.decision.act = .op

theorem actions_eq (ds : List Decided) :
    actions ds = (attemptTimes ds).length + opRequests ds := by
  induction ds with
  | nil => rfl
  | cons d ds ih =>
    have hsplit : attemptTimes (d :: ds) =
        (if d.decision.act.attempt then [d.nowNs] else []) ++ attemptTimes ds := by
      by_cases h : d.decision.act.attempt <;> simp [attemptTimes, h]
    rw [hsplit, List.length_append, actions, opRequests, List.countP_cons, List.countP_cons]
    change actions ds + _ = _ + (opRequests ds + _)
    rw [ih]
    cases d.decision.act <;> simp [Sact.attempt] <;> omega

theorem opRequests_concat (ds : List Decided) (d : Decided) :
    opRequests (ds ++ [d]) = opRequests ds + if d.decision.act = .op then 1 else 0 := by
  simp [opRequests, List.countP_append, List.countP_cons]

/-- The last action after a decision. -/
theorem ecmSrecDecide_last (p : SrecPlan) (i : Nat) {x : SrecInput} (hx : x.healthy = false)
    (nowNs : Nat) :
    ((ecmSrecDecide p i x nowNs).1.s i).last =
      if (ecmSrecDecide p i x nowNs).2.act = .none then (p.s i).last
      else (ecmSrecDecide p i x nowNs).2.act := by
  have hok : x.inReach = true → ¬ (x.answered ∧ alState x.alStatus = alOp ∧ !alErr x.alStatus) := by
    intro hreach h
    have hhealthy : x.healthy := by simpa [SrecInput.healthy, hreach, and_assoc] using h
    simp [hx] at hhealthy
  unfold ecmSrecDecide
  split
  · simp
  rename_i hreach
  have hreach : x.inReach = true := by
    simp only [ge_iff_le, not_or] at hreach
    simpa using hreach.2
  rw [if_neg (hok hreach)]
  dsimp only
  split
  · simp [SrecPlan.set_self]
  split
  · simp [SrecPlan.set_self]
  · simp only [SrecPlan.set_self, planAct]
    split_ifs <;> simp_all

/-! ## The condition -/

/-- The observation is of a slave in SAFE-OP without an error. -/
def SrecInput.cleanSafeop (x : SrecInput) : Bool :=
  x.inReach && x.answered && alState x.alStatus = alSafeop && !alErr x.alStatus

/-- SAFE-OP without an error, of a slave that is not given up, is seen only when
the last action for the slave was an attempt. -/
def EndsAttempt (i : Nat) (_ : List (Rec SrecPlan SrecCall)) (r : Rec SrecPlan SrecCall) : Prop :=
  match r.ev with
  | .decide j x _ =>
      j = i → x.cleanSafeop → (r.pre.s i).failed = false → (r.pre.s i).last.attempt = true
  | .reset _ => True

instance (i : Nat) (hist : List (Rec SrecPlan SrecCall)) (r : Rec SrecPlan SrecCall) :
    Decidable (EndsAttempt i hist r) :=
  match r with
  | ⟨p, .decide j x _, _⟩ =>
      inferInstanceAs (Decidable (j = i → x.cleanSafeop → (p.s i).failed = false →
        (p.s i).last.attempt = true))
  | ⟨_, .reset _, _⟩ => inferInstanceAs (Decidable True)

/-- OP is requested of a slave that is seen in SAFE-OP without an error and is
not given up. -/
theorem ecmSrecDecide_op {p : SrecPlan} {i : Nat} {x : SrecInput} {nowNs : Nat}
    (h : (ecmSrecDecide p i x nowNs).2.act = .op) :
    x.cleanSafeop = true ∧ (p.s i).failed = false := by
  have hwanted : wantedAct x = .op := by
    rcases ecmSrecDecide_act p i x nowNs with hact | hact
    · rw [hact] at h
      cases h
    · rw [← hact, h]
  have hstate : x.answered = true ∧ alErr x.alStatus = false ∧ alState x.alStatus = alSafeop := by
    unfold wantedAct at hwanted
    split_ifs at hwanted
    simp_all
  have hreach : x.inReach = true := by
    by_contra hno
    rw [ecmSrecDecide, if_pos (.inr (by simpa using hno))] at h
    cases h
  refine ⟨by simp [SrecInput.cleanSafeop, hreach, hstate], ?_⟩
  by_contra hfailed
  have hfailed : (p.s i).failed = true := by simpa using hfailed
  unfold ecmSrecDecide at h
  simp only [hfailed, if_true] at h
  split_ifs at h

/-! ## The bound -/

/-- A slave after the decisions of its episode: its attempts are counted, and the
requests of OP do not outnumber them by more than one. -/
structure ActInv (maxAttempts : Nat) (ds : List Decided) (s : Srec) : Prop where
  attempts : s.attempts = (attemptTimes ds).length
  bounded : (attemptTimes ds).length ≤ maxAttempts
  ops : opRequests ds ≤ (attemptTimes ds).length + if s.last.attempt then 0 else 1

theorem ActInv.nil {maxAttempts : Nat} {s : Srec} (hattempts : s.attempts = 0) :
    ActInv maxAttempts [] s :=
  ⟨hattempts, Nat.zero_le _, Nat.zero_le _⟩

theorem ActInv.decide {maxAttempts backoff0Ns : Nat} {ds : List Decided} {s s' : Srec}
    {x : SrecInput} {nowNs : Nat} {d : Decision} (hI : ActInv maxAttempts ds s)
    (hturn : SrecTurn maxAttempts backoff0Ns x nowNs s s' d) (hx : x.healthy = false)
    (hmax : maxAttempts < 2 ^ 32) (hlast : s'.last = if d.act = .none then s.last else d.act)
    (hop : d.act = .op → s.last.attempt = true) :
    ActInv maxAttempts (ds ++ [⟨x, nowNs, d⟩]) s' := by
  have hops := hI.ops
  -- no attempt: a request of OP needs an attempt before it
  have hkeep : d.act.attempt = false → s'.attempts = s.attempts →
      ActInv maxAttempts (ds ++ [⟨x, nowNs, d⟩]) s' := by
    intro hact hattempts
    have htimes : attemptTimes (ds ++ [⟨x, nowNs, d⟩]) = attemptTimes ds := by
      simp [attemptTimes_concat, hact]
    refine ⟨by rw [htimes, hattempts, hI.attempts], by rw [htimes]; exact hI.bounded, ?_⟩
    rw [htimes, opRequests_concat, hlast]
    cases hd : d.act with
    | none => simpa using hops
    | op =>
      rw [hop hd] at hops
      simpa [Sact.attempt] using hops
    | ack => simp [hd, Sact.attempt] at hact
    | reconfig => simp [hd, Sact.attempt] at hact
  cases hturn with
  | blind hreach hs => exact hkeep rfl (by rw [hs])
  | healthy hx' => simp [hx] at hx'
  | kept act hact _ hattempts => exact hkeep hact hattempts
  | gaveUp _ hattempts => exact hkeep rfl hattempts
  | tried act hact _ _ hleft hattempts =>
    have htimes : attemptTimes (ds ++ [⟨x, nowNs, ⟨act, false, false⟩⟩]) =
        attemptTimes ds ++ [nowNs] := by
      simp [attemptTimes_concat, hact]
    have hlen : (attemptTimes ds ++ [nowNs]).length = s.attempts + 1 := by
      simp [hI.attempts]
    have hne : act ≠ .none := by
      rintro rfl
      cases hact
    have hnop : act ≠ .op := by
      rintro rfl
      cases hact
    refine ⟨?_, by rw [htimes, hlen]; omega, ?_⟩
    · rw [htimes, hlen, hattempts, Nat.mod_eq_of_lt (by omega)]
    · rw [htimes, hlen, opRequests_concat, hlast]
      simp only [hne, hnop, hact, if_true, if_false]
      rw [hI.attempts]
      split at hops <;> omega

/-- Slave `i` after a history of calls. -/
structure PlanInv (p₀ : SrecPlan) (i : Nat) (hist : List (Rec SrecPlan SrecCall))
    (p : SrecPlan) : Prop where
  same : SamePlan p₀ p
  inEpisode : ActInv p₀.maxAttempts (episode i hist) (p.s i)

variable {p₀ p : SrecPlan} {i : Nat} {hist : List (Rec SrecPlan SrecCall)}

theorem PlanInv.step (hi : i < p₀.n) (hmax : p₀.maxAttempts < 2 ^ 32) (hI : PlanInv p₀ i hist p)
    (c : SrecCall) (hends : EndsAttempt i hist ⟨p, c, p.step c⟩) :
    PlanInv p₀ i (hist ++ [⟨p, c, p.step c⟩]) (p.step c) := by
  have hn : i < p.n := hI.same.n ▸ hi
  refine ⟨hI.same.trans (p.step_same c), ?_⟩
  rw [episode_concat]
  cases c with
  | decide j x nowNs =>
    by_cases hj : j = i
    · subst hj
      have hturn := ecmSrecDecide_turn hn x nowNs
      rw [hI.same.maxAttempts, hI.same.backoff0Ns] at hturn
      cases hx : x.healthy with
      | true =>
        rw [if_pos (by simp [endsEpisode, hx])]
        exact .nil (hturn.starts hx).1
      | false =>
        rw [if_neg (by simp [endsEpisode, hx])]
        have hdecided : decided j ⟨p, .decide j x nowNs, p.step (.decide j x nowNs)⟩ =
            some ⟨x, nowNs, (ecmSrecDecide p j x nowNs).2⟩ := by
          simp [decided]
        rw [hdecided]
        apply hI.inEpisode.decide hturn hx hmax (ecmSrecDecide_last p j hx nowNs)
        intro hop
        obtain ⟨hclean, hfailed⟩ := ecmSrecDecide_op hop
        exact hends rfl hclean hfailed
    · have hother : (p.step (.decide j x nowNs)).s i = p.s i :=
        p.step_other fun h => hj h.symm
      have hdecided : decided i ⟨p, .decide j x nowNs, p.step (.decide j x nowNs)⟩ = none :=
        if_neg hj
      rw [if_neg (by simp [endsEpisode, hj]), hdecided, hother]
      simpa using hI.inEpisode
  | reset j =>
    by_cases hj : j = i
    · subst hj
      rw [if_pos (by simp [endsEpisode])]
      apply ActInv.nil
      rw [SrecPlan.step, ecmSrecReset, if_neg (by omega), SrecPlan.set_self]
    · have hother : (p.step (.reset j)).s i = p.s i := p.step_other fun h => hj h.symm
      rw [if_neg (by simp [endsEpisode, hj]), hother]
      simpa [decided] using hI.inEpisode

theorem PlanInv.init (i n maxAttempts backoff0Ns : Nat) :
    PlanInv (ecmSrecInit n maxAttempts backoff0Ns) i [] (ecmSrecInit n maxAttempts backoff0Ns) :=
  ⟨⟨rfl, rfl, rfl⟩, .nil rfl⟩

/-- The most actions that an episode can have. -/
def actionBound (maxAttempts : Nat) : Nat := 2 * maxAttempts + 1

theorem ActInv.actions_le {maxAttempts : Nat} {ds : List Decided} {s : Srec}
    (hI : ActInv maxAttempts ds s) : actions ds ≤ actionBound maxAttempts := by
  have hops := hI.ops
  have hbounded := hI.bounded
  rw [actions_eq, actionBound]
  split at hops <;> omega

/-- At the bound there are no attempts left, and the last action was no attempt. -/
theorem ActInv.at_bound {maxAttempts : Nat} {ds : List Decided} {s : Srec}
    (hI : ActInv maxAttempts ds s) (hat : actions ds = actionBound maxAttempts) :
    s.attempts = maxAttempts ∧ s.last.attempt = false := by
  have hops := hI.ops
  have hbounded := hI.bounded
  rw [actions_eq, actionBound] at hat
  cases hlast : s.last.attempt with
  | true =>
    rw [hlast] at hops
    simp at hops
    omega
  | false =>
    rw [hlast] at hops
    simp at hops
    exact ⟨by rw [hI.attempts]; omega, rfl⟩

/-! ## Marking the slave -/

/-- The slave refuses its configuration, or it needs an attempt and its back-off is
over. -/
def attemptDue (s : Srec) (x : SrecInput) (nowNs : Nat) : Prop :=
  x.unhealthy = true ∧
    (x.refuses = true ∨ (wantedAct x).attempt = true ∧ s.nextTryNs ≤ nowNs)

instance (s : Srec) (x : SrecInput) (nowNs : Nat) : Decidable (attemptDue s x nowNs) :=
  inferInstanceAs (Decidable (_ ∧ (_ ∨ _ ∧ _)))

/-- With as many actions as the bound, a slave that is neither healthy nor given up asks
for an attempt that is due. -/
def AsksAgain (maxAttempts i : Nat) (hist : List (Rec SrecPlan SrecCall))
    (r : Rec SrecPlan SrecCall) : Prop :=
  ∀ d ∈ decided i r, d.input.healthy = false → (r.pre.s i).failed = false →
    actions (episode i hist) = actionBound maxAttempts →
    attemptDue (r.pre.s i) d.input d.nowNs

instance (maxAttempts i : Nat) (hist : List (Rec SrecPlan SrecCall)) (r : Rec SrecPlan SrecCall) :
    Decidable (AsksAgain maxAttempts i hist r) :=
  inferInstanceAs (Decidable (∀ d ∈ decided i r, _ → _ → _ → _))

/-- What the decisions for slave `i` are when its attempts are used up: it is asked for
OP at most, and it becomes failed exactly when an attempt is due.  Once the actions of the
episode have reached the bound, there is none more and the slave is failed. -/
structure IsFinal (maxAttempts i : Nat) (hist : List (Rec SrecPlan SrecCall))
    (r : Rec SrecPlan SrecCall) : Prop where
  usedUp : ∀ d ∈ decided i r, d.input.healthy = false →
    (attemptTimes (episode i hist)).length = maxAttempts →
    (d.decision.act = .op ∨ d.decision.act = .none) ∧
      ((r.post.s i).failed = true ↔
        (r.pre.s i).failed = true ∨ attemptDue (r.pre.s i) d.input d.nowNs)
  atBound : ∀ d ∈ decided i r, d.input.healthy = false →
    actions (episode i hist) = actionBound maxAttempts →
    d.decision.act = .none ∧ (r.post.s i).failed = true

/-- A slave without attempts left becomes failed exactly when an attempt is due. -/
theorem ecmSrecDecide_marks {p : SrecPlan} {i : Nat} (hi : i < p.n)
    (hspent : p.maxAttempts ≤ (p.s i).attempts) {x : SrecInput} (hx : x.healthy = false)
    (nowNs : Nat) :
    ((ecmSrecDecide p i x nowNs).1.s i).failed = true ↔
      (p.s i).failed = true ∨ attemptDue (p.s i) x nowNs := by
  unfold ecmSrecDecide attemptDue
  cases hreach : x.inReach with
  | false =>
    rw [if_pos (.inr (by simp))]
    simp [SrecInput.unhealthy, hreach]
  | true =>
    have hok : ¬ (x.answered ∧ alState x.alStatus = alOp ∧ !alErr x.alStatus) := by
      simpa [SrecInput.healthy, hreach, and_assoc] using hx
    have hunhealthy : x.unhealthy = true := by simp [SrecInput.unhealthy, hreach, hx]
    rw [if_neg (by simp [hi]), if_neg hok]
    dsimp only
    split
    · rename_i hfailed
      simp [SrecPlan.set_self, hfailed]
    split
    · rename_i hanswer
      have hrefuses : x.refuses = true := by
        simpa [SrecInput.refuses, hreach, and_assoc] using hanswer
      simp [SrecPlan.set_self, hunhealthy, hrefuses]
    · rename_i hfailed hanswer
      have hrefuses : x.refuses = false := by
        rw [Bool.eq_false_iff]
        simpa [SrecInput.refuses, hreach, and_assoc] using hanswer
      simp only [SrecPlan.set_self, planAct, hunhealthy, hrefuses, hfailed, Sact.attempt_iff]
      by_cases hact : wantedAct x = .ack ∨ wantedAct x = .reconfig
      · by_cases hdue : nowNs < (p.s i).nextTryNs
        · simp [hact, hdue]
        · simp [hact, hdue, hspent, Nat.le_of_not_lt hdue]
      · by_cases hnone : wantedAct x = .none <;> simp [hact, hnone]

/-- With the attempts used up, no other action than the request of OP is left. -/
theorem ecmSrecDecide_usedUp {p : SrecPlan} {i : Nat} (hi : i < p.n)
    (hspent : p.maxAttempts ≤ (p.s i).attempts) (x : SrecInput) (nowNs : Nat) :
    (ecmSrecDecide p i x nowNs).2.act = .op ∨ (ecmSrecDecide p i x nowNs).2.act = .none := by
  have hturn := ecmSrecDecide_turn hi x nowNs
  generalize (ecmSrecDecide p i x nowNs).1.s i = s' at hturn
  generalize (ecmSrecDecide p i x nowNs).2 = d at hturn
  cases hturn with
  | blind | healthy | gaveUp => exact .inr rfl
  | kept act hact => cases act <;> simp_all [Sact.attempt]
  | tried act _ _ _ hleft => omega

theorem PlanInv.isFinal (hi : i < p₀.n) (hI : PlanInv p₀ i hist p) (c : SrecCall)
    (hends : EndsAttempt i hist ⟨p, c, p.step c⟩)
    (hagain : AsksAgain p₀.maxAttempts i hist ⟨p, c, p.step c⟩) :
    IsFinal p₀.maxAttempts i hist ⟨p, c, p.step c⟩ := by
  have hn : i < p.n := hI.same.n ▸ hi
  have hlaw : ∀ d ∈ decided i ⟨p, c, p.step c⟩, d.input.healthy = false →
      (p.s i).attempts = p₀.maxAttempts →
      (d.decision.act = .op ∨ d.decision.act = .none) ∧
        (((p.step c).s i).failed = true ↔
          (p.s i).failed = true ∨ attemptDue (p.s i) d.input d.nowNs) := by
    intro d hd hx hspent
    have hspent : p.maxAttempts ≤ (p.s i).attempts := by rw [hspent, hI.same.maxAttempts]
    obtain ⟨hev, hdecision⟩ := mem_decided hd
    simp only at hev hdecision
    subst hev
    rw [hdecision]
    exact ⟨ecmSrecDecide_usedUp hn hspent _ _, ecmSrecDecide_marks hn hspent hx _⟩
  constructor
  · intro d hd hx hcount
    exact hlaw d hd hx (hI.inEpisode.attempts.trans hcount)
  · intro d hd hx hat
    obtain ⟨hspent, hlast⟩ := hI.inEpisode.at_bound hat
    obtain ⟨hact, hmarks⟩ := hlaw d hd hx hspent
    constructor
    · refine hact.resolve_left fun hop => ?_
      -- the last action was no attempt
      obtain ⟨hev, hdecision⟩ := mem_decided hd
      obtain ⟨hclean, hfailed⟩ := ecmSrecDecide_op (hdecision ▸ hop)
      simp only at hev
      subst hev
      have hattempt := hends rfl hclean hfailed
      simp only at hattempt
      rw [hlast] at hattempt
      cases hattempt
    · cases hfailed : (p.s i).failed with
      | true => exact hmarks.2 (.inl hfailed)
      | false => exact hmarks.2 (.inr (hagain d hd hx hfailed hat))

/-- In every run in which SAFE-OP without an error is seen only after an attempt, an episode
has at most `2 * maxAttempts + 1` actions, whatever the times of the calls.  A slave whose
attempts are used up is asked for OP at most, and becomes failed when another attempt is
due.  If it asks for one once there are as many actions as the bound, there is none more
and the slave is failed. -/
theorem actions_are_bounded (n maxAttempts backoff0Ns i : Nat)
    (hi : i < (ecmSrecInit n maxAttempts backoff0Ns).n) (hmax : maxAttempts < 2 ^ 32)
    (calls : List SrecCall)
    (hends : Along SrecPlan.step (ecmSrecInit n maxAttempts backoff0Ns) calls (EndsAttempt i))
    (hagain : Along SrecPlan.step (ecmSrecInit n maxAttempts backoff0Ns) calls
      (AsksAgain maxAttempts i)) :
    let p₀ := ecmSrecInit n maxAttempts backoff0Ns
    actions (episode i (trace SrecPlan.step p₀ calls)) ≤ actionBound maxAttempts ∧
      Along SrecPlan.step p₀ calls (IsFinal maxAttempts i) := by
  intro p₀
  have hinit : PlanInv p₀ i [] p₀ := PlanInv.init i n maxAttempts backoff0Ns
  have hI : PlanInv p₀ i (trace SrecPlan.step p₀ calls) (run SrecPlan.step p₀ calls) :=
    Along.invariant (I := PlanInv p₀ i) hinit (fun _ _ c h hc => h.step hi hmax c hc) hends
  refine ⟨hI.inEpisode.actions_le, ?_⟩
  exact Along.of_invariant (I := PlanInv p₀ i) hinit (fun _ _ c h hc => h.step hi hmax c hc.1)
    (fun _ _ c h hc => h.isFinal hi c hc.1 hc.2) (hends.and hagain)

/-- One attempt is allowed.  The slave is acknowledged and reset, so that it may be
asked for OP once more than it is acknowledged; it is acknowledged again, asked for OP
again, and then reports an error for the third time. -/
def acknowledgedTwice : List SrecCall :=
  [.decide 0 ⟨true, true, 0x14, 0x001B⟩ 10, .reset 0, .decide 0 ⟨true, true, 0x04, 0⟩ 11,
    .decide 0 ⟨true, true, 0x14, 0x001B⟩ 20, .decide 0 ⟨true, true, 0x04, 0⟩ 21]

/-- The bound is reached, and the next decision marks the slave. -/
theorem actions_are_bounded_acknowledgedTwice :
    let calls := acknowledgedTwice ++ [.decide 0 ⟨true, true, 0x14, 0x001B⟩ 30]
    actions (episode 0 (trace SrecPlan.step (ecmSrecInit 1 1 5) acknowledgedTwice)) =
        actionBound 1 ∧
      Along SrecPlan.step (ecmSrecInit 1 1 5) calls (IsFinal 1 0) ∧
      ((run SrecPlan.step (ecmSrecInit 1 1 5) calls).s 0).failed = true :=
  ⟨by decide, (actions_are_bounded 1 1 5 0 (by decide) (by decide)
    (acknowledgedTwice ++ [.decide 0 ⟨true, true, 0x14, 0x001B⟩ 30]) (by decide) (by decide)).2,
    by decide⟩

/-! ## Without the condition -/

/-- A slave found in SAFE-OP without an error, `k` times. -/
def staysInSafeop (k : Nat) : List SrecCall :=
  List.replicate k (.decide 0 ⟨true, true, 0x04, 0⟩ 0)

/-- Every one of the decisions requests OP, and no counter moves. -/
theorem actions_staysInSafeop (k : Nat) :
    actions (episode 0 (trace SrecPlan.step (ecmSrecInit 1 5 1000000000) (staysInSafeop k))) = k ∧
      ((run SrecPlan.step (ecmSrecInit 1 5 1000000000) (staysInSafeop k)).s 0).failed = false ∧
      (run SrecPlan.step (ecmSrecInit 1 5 1000000000) (staysInSafeop k)).n = 1 := by
  induction k with
  | zero => exact ⟨rfl, rfl, rfl⟩
  | succ k ih =>
    obtain ⟨hactions, hfailed, hn⟩ := ih
    have hsnoc : staysInSafeop (k + 1) = staysInSafeop k ++ [.decide 0 ⟨true, true, 0x04, 0⟩ 0] :=
      List.replicate_succ'
    rw [hsnoc, trace_append, run_append]
    generalize run SrecPlan.step (ecmSrecInit 1 5 1000000000) (staysInSafeop k) = p at hfailed hn ⊢
    have hdecide : ecmSrecDecide p 0 ⟨true, true, 0x04, 0⟩ 0 =
        (p.set 0 { p.s 0 with
          unhealthy := true, last := .op
          actions := Function.update (p.s 0).actions .op ((p.s 0).actions .op + 1) },
          ⟨.op, false, false⟩) := by
      have hwanted : wantedAct ⟨true, true, 0x04, 0⟩ = .op := by decide
      unfold ecmSrecDecide
      rw [if_neg (by simp [hn]), if_neg (by decide)]
      dsimp only
      rw [if_neg (by simp [hfailed]), if_neg (by decide), hwanted]
      simp [planAct]
    refine ⟨?_, ?_, ?_⟩
    · have hgoes : ¬ endsEpisode 0 (.decide 0 ⟨true, true, 0x04, 0⟩ 0) = true := by decide
      rw [trace, trace, episode_concat, if_neg hgoes]
      simp only [decided, if_true, Option.toList_some, hdecide]
      rw [actions, List.countP_append]
      change actions _ + _ = _
      rw [hactions]
      rfl
    · simp only [run_cons, run_nil, SrecPlan.step, hdecide, SrecPlan.set_self]
      exact hfailed
    · simp only [run_cons, run_nil, SrecPlan.step, hdecide]
      exact hn

/-- The times of the decisions do not go back. -/
def TimesInOrder (calls : List SrecCall) : Prop :=
  (calls.filterMap fun c => match c with
    | .decide _ _ nowNs => some nowNs
    | .reset _ => none).Pairwise (· ≤ ·)

/-- No bound on the actions of an episode depends on `max_attempts` alone. -/
theorem requests_of_op_are_unbounded :
    ¬ ∃ bound : Nat → Nat, ∀ n maxAttempts backoff0Ns i : Nat,
      i < (ecmSrecInit n maxAttempts backoff0Ns).n → ∀ calls, TimesInOrder calls →
        actions (episode i (trace SrecPlan.step (ecmSrecInit n maxAttempts backoff0Ns) calls)) ≤
          bound maxAttempts := by
  rintro ⟨bound, hbound⟩
  have hcount := hbound 1 5 1000000000 0 (by decide) (staysInSafeop (bound 5 + 1)) (by
    simp [TimesInOrder, staysInSafeop, List.pairwise_replicate])
  rw [(actions_staysInSafeop _).1] at hcount
  omega

end EcMaster.Policy
