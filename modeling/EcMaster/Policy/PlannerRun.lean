import EcMaster.Lib.Run
import EcMaster.Policy.Planner

/-!
# Runs of the recovery planner

What the planner decides for one slave over any list of decisions and resets,
those of the other slaves in between.  The unit is the *episode* of a slave: its
calls since it was last seen healthy or was reset.  In an episode

* there are at most `max_attempts` attempts (acknowledgements and
  reconfigurations), and each waits for the back-off of the one before it;
* the planner gives the slave up at most once, and does nothing for it after
  that;
* a slave that refuses its configuration is given up at once.

The back-off doubles with each attempt, up to the twentieth doubling: the shift
is capped, so from the 22nd attempt on the attempts are equally far apart.

A slave that is out of reach is not observed at all.  The reports of a recovered
slave are the changes from an observation of it unhealthy to one of it healthy,
and a reset does not hide such a change.
-/

namespace EcMaster.Policy

open EcMaster.Run

/-! ## One decision -/

/-- An observation of the slave healthy: in reach and in OP without an error. -/
def SrecInput.healthy (x : SrecInput) : Bool :=
  x.inReach && x.answered && alState x.alStatus = alOp && !alErr x.alStatus

/-- An observation of the slave not healthy. -/
def SrecInput.unhealthy (x : SrecInput) : Bool := x.inReach && !x.healthy

/-- The slave reports that it refuses its configuration. -/
def SrecInput.refuses (x : SrecInput) : Bool :=
  x.inReach && x.answered && alErr x.alStatus && ecmAlCodeClass x.alCode = .config

/-- An action that is an attempt. -/
def Sact.attempt : Sact → Bool
  | .ack | .reconfig => true
  | _ => false

/-- What one decision can do with a slave. -/
inductive SrecTurn (maxAttempts backoff0Ns : Nat) (x : SrecInput) (nowNs : Nat) (s s' : Srec) :
    Decision → Prop where
  | blind (hreach : x.inReach = false) (hs : s' = s) :
      SrecTurn maxAttempts backoff0Ns x nowNs s s' ⟨.none, false, false⟩
  | healthy (hx : x.healthy) (hattempts : s'.attempts = 0) (hfailed : s'.failed = false)
      (hunhealthy : s'.unhealthy = false) :
      SrecTurn maxAttempts backoff0Ns x nowNs s s' ⟨.none, s.unhealthy, false⟩
  | kept (act : Sact) (hact : act.attempt = false) (hx : x.unhealthy)
      (hattempts : s'.attempts = s.attempts) (hnext : s'.nextTryNs = s.nextTryNs)
      (hfailed : s'.failed = s.failed) (hunhealthy : s'.unhealthy = true)
      (hfinal : s.failed → act = .none) (hrefuses : x.refuses → s.failed) :
      SrecTurn maxAttempts backoff0Ns x nowNs s s' ⟨act, false, false⟩
  | gaveUp (hx : x.unhealthy) (hattempts : s'.attempts = s.attempts)
      (hnext : s'.nextTryNs = s.nextTryNs) (hwas : s.failed = false) (hfailed : s'.failed = true)
      (hunhealthy : s'.unhealthy = true) :
      SrecTurn maxAttempts backoff0Ns x nowNs s s' ⟨.none, false, true⟩
  | tried (act : Sact) (hact : act.attempt = true) (hx : x.unhealthy)
      (hdue : s.nextTryNs ≤ nowNs) (hleft : s.attempts < maxAttempts)
      (hattempts : s'.attempts = (s.attempts + 1) % 2 ^ 32)
      (hnext : s'.nextTryNs = (nowNs + backoff0Ns * 2 ^ min s.attempts 20) % 2 ^ 64)
      (hwas : s.failed = false) (hfailed : s'.failed = false) (hunhealthy : s'.unhealthy = true)
      (hrefuses : x.refuses = false) :
      SrecTurn maxAttempts backoff0Ns x nowNs s s' ⟨act, false, false⟩

theorem Sact.attempt_iff (act : Sact) : act.attempt = true ↔ act = .ack ∨ act = .reconfig := by
  cases act <;> simp [Sact.attempt]

theorem SrecPlan.set_self (p : SrecPlan) (i : Nat) (s : Srec) : (p.set i s).s i = s := by
  simp only [SrecPlan.set, Function.update_self]

theorem SrecPlan.set_of_ne (p : SrecPlan) {i j : Nat} (hij : j ≠ i) (s : Srec) :
    (p.set i s).s j = p.s j := by
  simp only [SrecPlan.set, Function.update_of_ne hij]

/-- The end of a decision, from a slave already marked unhealthy. -/
theorem planAct_turn (p : SrecPlan) {s : Srec} {x : SrecInput} (nowNs : Nat) (hx : x.unhealthy)
    (hfailed : s.failed = false) (hrefuses : x.refuses = false) (act : Sact) :
    SrecTurn p.maxAttempts p.backoff0Ns x nowNs s (planAct p { s with unhealthy := true } nowNs act).1
      (planAct p { s with unhealthy := true } nowNs act).2 := by
  unfold planAct
  by_cases hact : act.attempt
  · have hattempt : act = .ack ∨ act = .reconfig := act.attempt_iff.1 hact
    have hne : act ≠ .none := by rintro rfl; cases hact
    simp only [hattempt, true_and, if_true, if_neg hne]
    split
    · refine .kept .none rfl hx rfl rfl rfl rfl (fun _ => rfl) ?_
      simp [hrefuses]
    · rename_i hdue
      split
      · exact .gaveUp hx rfl rfl hfailed rfl rfl
      · rename_i hleft
        exact .tried act hact hx (Nat.le_of_not_lt hdue) (Nat.lt_of_not_le hleft) rfl rfl
          hfailed hfailed rfl hrefuses
  · have hattempt : ¬ (act = .ack ∨ act = .reconfig) := fun h => hact (act.attempt_iff.2 h)
    simp only [hattempt, false_and, if_false]
    refine .kept act (by simpa using hact) hx ?_ ?_ ?_ ?_ (by simp [hfailed]) (by simp [hrefuses])
    all_goals split <;> rfl

theorem ecmSrecDecide_turn {p : SrecPlan} {i : Nat} (hi : i < p.n) (x : SrecInput) (nowNs : Nat) :
    SrecTurn p.maxAttempts p.backoff0Ns x nowNs (p.s i) ((ecmSrecDecide p i x nowNs).1.s i)
      (ecmSrecDecide p i x nowNs).2 := by
  unfold ecmSrecDecide
  by_cases hreach : x.inReach
  swap
  · rw [if_pos (.inr (by simpa using hreach))]
    exact .blind (by simpa using hreach) rfl
  rw [if_neg (by simp [hi, hreach])]
  by_cases hhealthy : x.healthy
  · have hok : x.answered ∧ alState x.alStatus = alOp ∧ !alErr x.alStatus := by
      simpa [SrecInput.healthy, hreach, and_assoc] using hhealthy
    rw [if_pos hok]
    refine .healthy hhealthy ?_ ?_ ?_ <;> rw [SrecPlan.set_self]
  have hx : x.unhealthy := by simpa [SrecInput.unhealthy, hreach] using hhealthy
  have hnok : ¬ (x.answered ∧ alState x.alStatus = alOp ∧ !alErr x.alStatus) := by
    simpa [SrecInput.healthy, hreach, and_assoc] using hhealthy
  rw [if_neg hnok]
  by_cases hfailed : (p.s i).failed
  · simp only [hfailed, if_true, SrecPlan.set_self]
    exact .kept .none rfl hx rfl rfl hfailed.symm rfl (fun _ => rfl) fun _ => hfailed
  simp only [if_neg hfailed]
  have hfailed : (p.s i).failed = false := by simpa using hfailed
  by_cases hconfig : x.refuses
  · have hc : x.answered ∧ alErr x.alStatus ∧ ecmAlCodeClass x.alCode = .config := by
      simpa [SrecInput.refuses, hreach, and_assoc] using hconfig
    simp only [if_pos hc, SrecPlan.set_self]
    exact .gaveUp hx rfl rfl hfailed rfl rfl
  · have hc : ¬ (x.answered ∧ alErr x.alStatus ∧ ecmAlCodeClass x.alCode = .config) := by
      simpa [SrecInput.refuses, hreach, and_assoc] using hconfig
    simp only [if_neg hc, SrecPlan.set_self]
    exact planAct_turn p nowNs hx hfailed (by simpa using hconfig) (wantedAct x)

/-! ## Calls and episodes -/

/-- A call of the planner. -/
inductive SrecCall where
  | decide (i : Nat) (x : SrecInput) (nowNs : Nat)
  | reset (i : Nat)
deriving DecidableEq, Repr

def SrecPlan.step (p : SrecPlan) : SrecCall → SrecPlan
  | .decide i x nowNs => (ecmSrecDecide p i x nowNs).1
  | .reset i => ecmSrecReset p i

/-- A decision with what it was made from. -/
structure Decided where
  input : SrecInput
  nowNs : Nat
  decision : Decision
deriving DecidableEq, Repr

/-- The decision of a call, if it is one about slave `i`. -/
def decided (i : Nat) (r : Rec SrecPlan SrecCall) : Option Decided :=
  match r.ev with
  | .decide j x nowNs => if j = i then some ⟨x, nowNs, (ecmSrecDecide r.pre j x nowNs).2⟩ else none
  | .reset _ => none

/-- The call ends the episode of slave `i`. -/
def endsEpisode (i : Nat) : SrecCall → Bool
  | .decide j x _ => j = i && x.healthy
  | .reset j => j = i

/-- The decisions about slave `i` since it was last seen healthy or was reset. -/
def episode (i : Nat) (hist : List (Rec SrecPlan SrecCall)) : List Decided :=
  hist.foldl (fun ds r => if endsEpisode i r.ev then [] else ds ++ (decided i r).toList) []

/-- The times of the attempts. -/
def attemptTimes (ds : List Decided) : List Nat :=
  ds.filterMap fun d => if d.decision.act.attempt then some d.nowNs else none

def giveUps (ds : List Decided) : Nat := ds.countP fun d => d.decision.gaveUp

/-- Each time is at least `gap k` after the one before it, `k` counting from 0. -/
def Spaced (gap : Nat → Nat) (ts : List Nat) : Prop :=
  ∀ k a b, ts[k]? = some a → ts[k + 1]? = some b → a + gap k ≤ b

/-- The back-off after the attempt `k`, counting from 0. -/
def backoff (backoff0Ns k : Nat) : Nat := backoff0Ns * 2 ^ min k 20

/-- What a call shows of slave `i`: healthy or not, if it is in reach. -/
def observed (i : Nat) (r : Rec SrecPlan SrecCall) : Option Bool :=
  match decided i r with
  | some d => if d.input.inReach then some d.input.healthy else none
  | none => none

def observations (i : Nat) (hist : List (Rec SrecPlan SrecCall)) : List Bool :=
  hist.filterMap (observed i)

/-- The changes from an unhealthy to a healthy observation, the one before the
list being `prev`. -/
def recoveredIn : Bool → List Bool → Nat
  | _, [] => 0
  | prev, h :: hs => (if !prev && h then 1 else 0) + recoveredIn h hs

/-- The decisions that reported slave `i` recovered. -/
def recoveredReports (i : Nat) (hist : List (Rec SrecPlan SrecCall)) : Nat :=
  (hist.filterMap (decided i)).countP fun d => d.decision.recovered

theorem episode_concat (i : Nat) (hist : List (Rec SrecPlan SrecCall)) (r : Rec SrecPlan SrecCall) :
    episode i (hist ++ [r]) =
      if endsEpisode i r.ev then [] else episode i hist ++ (decided i r).toList := by
  simp only [episode, List.foldl_append, List.foldl_cons, List.foldl_nil]

theorem attemptTimes_concat (ds : List Decided) (d : Decided) :
    attemptTimes (ds ++ [d]) =
      attemptTimes ds ++ if d.decision.act.attempt then [d.nowNs] else [] := by
  simp only [attemptTimes, List.filterMap_append]
  by_cases h : d.decision.act.attempt <;> simp [h]

theorem recoveredIn_concat (prev : Bool) (hs : List Bool) (h : Bool) :
    recoveredIn prev (hs ++ [h]) =
      recoveredIn prev hs + if !hs.getLastD prev && h then 1 else 0 := by
  induction hs generalizing prev with
  | nil => simp [recoveredIn]
  | cons g hs ih =>
    simp only [List.cons_append, recoveredIn, ih, List.getLastD_cons]
    omega

theorem spaced_nil (gap : Nat → Nat) : Spaced gap [] := by
  intro k a b ha
  simp at ha

theorem Spaced.concat {gap : Nat → Nat} {ts : List Nat} {t : Nat} (hts : Spaced gap ts)
    (hlast : ∀ a ∈ ts.getLast?, a + gap (ts.length - 1) ≤ t) : Spaced gap (ts ++ [t]) := by
  intro k a b ha hb
  by_cases hk : k + 1 < ts.length
  · rw [List.getElem?_append_left (by omega)] at ha
    rw [List.getElem?_append_left hk] at hb
    exact hts k a b ha hb
  · have hlen : k + 1 < (ts ++ [t]).length := (List.getElem?_eq_some_iff.1 hb).1
    have hk' : k + 1 = ts.length := by
      simp at hlen
      omega
    rw [List.getElem?_append_left (by omega)] at ha
    rw [hk', List.getElem?_concat_length] at hb
    obtain rfl : t = b := by simpa using hb
    have hk'' : k = ts.length - 1 := by omega
    rw [hk''] at ha ⊢
    exact hlast a (by rw [List.getLast?_eq_getElem?]; exact ha)

/-! ## The invariant of a slave -/

/-- The back-off of an attempt made by this call does not overflow. -/
def NoOverflow (_ : List (Rec SrecPlan SrecCall)) (r : Rec SrecPlan SrecCall) : Prop :=
  match r.ev with
  | .decide i _ nowNs => nowNs + backoff r.pre.backoff0Ns (r.pre.s i).attempts < 2 ^ 64
  | .reset _ => True

instance (hist : List (Rec SrecPlan SrecCall)) (r : Rec SrecPlan SrecCall) :
    Decidable (NoOverflow hist r) :=
  match r with
  | ⟨p, .decide i _ nowNs, _⟩ =>
      inferInstanceAs (Decidable (nowNs + backoff p.backoff0Ns (p.s i).attempts < 2 ^ 64))
  | ⟨_, .reset _, _⟩ => inferInstanceAs (Decidable True)

/-- What does not change in a run. -/
structure SamePlan (p p' : SrecPlan) : Prop where
  n : p'.n = p.n
  maxAttempts : p'.maxAttempts = p.maxAttempts
  backoff0Ns : p'.backoff0Ns = p.backoff0Ns

theorem SrecPlan.step_same (p : SrecPlan) (c : SrecCall) : SamePlan p (p.step c) := by
  cases c with
  | decide i x nowNs =>
    simp only [SrecPlan.step, ecmSrecDecide]
    split_ifs <;> exact ⟨rfl, rfl, rfl⟩
  | reset i =>
    simp only [SrecPlan.step, ecmSrecReset]
    split_ifs <;> exact ⟨rfl, rfl, rfl⟩

/-- A decision is to do nothing or what the state of the slave asks for. -/
theorem ecmSrecDecide_act (p : SrecPlan) (i : Nat) (x : SrecInput) (nowNs : Nat) :
    (ecmSrecDecide p i x nowNs).2.act = .none ∨
      (ecmSrecDecide p i x nowNs).2.act = wantedAct x := by
  simp only [ecmSrecDecide, planAct]
  split_ifs <;> simp

/-- The slave that a call is about. -/
def SrecCall.slave : SrecCall → Nat
  | .decide i _ _ => i
  | .reset i => i

theorem SrecPlan.step_other (p : SrecPlan) {c : SrecCall} {i : Nat} (hi : i ≠ c.slave) :
    (p.step c).s i = p.s i := by
  cases c with
  | decide j x nowNs =>
    have hset : ∀ s, (p.set j s).s i = p.s i := p.set_of_ne hi
    simp only [SrecPlan.step, ecmSrecDecide]
    split_ifs <;> first | rfl | exact hset _
  | reset j =>
    have hset : ∀ s, (p.set j s).s i = p.s i := p.set_of_ne hi
    simp only [SrecPlan.step, ecmSrecReset]
    split_ifs <;> first | rfl | exact hset _

/-- A slave after the decisions of its episode. -/
structure EpisodeInv (maxAttempts backoff0Ns : Nat) (ds : List Decided) (s : Srec) : Prop where
  attempts : s.attempts = (attemptTimes ds).length
  bounded : (attemptTimes ds).length ≤ maxAttempts
  spaced : Spaced (backoff backoff0Ns) (attemptTimes ds)
  due : ∀ a ∈ (attemptTimes ds).getLast?,
    a + backoff backoff0Ns ((attemptTimes ds).length - 1) ≤ s.nextTryNs
  failed : giveUps ds = if s.failed then 1 else 0
  refused : ∀ d ∈ ds, d.input.refuses → s.failed

variable {maxAttempts backoff0Ns : Nat} {ds : List Decided} {s s' : Srec} {x : SrecInput}
  {nowNs : Nat} {d : Decision}

theorem EpisodeInv.nil (hattempts : s.attempts = 0) (hfailed : s.failed = false) :
    EpisodeInv maxAttempts backoff0Ns [] s where
  attempts := hattempts
  bounded := Nat.zero_le _
  spaced := spaced_nil _
  due := by simp [attemptTimes]
  failed := by simp [giveUps, hfailed]
  refused := by simp

/-- A decision that is no attempt. -/
theorem EpisodeInv.concat (hI : EpisodeInv maxAttempts backoff0Ns ds s)
    (hact : d.act.attempt = false) (hattempts : s'.attempts = s.attempts)
    (hnext : s'.nextTryNs = s.nextTryNs)
    (hfailed : (if s'.failed then 1 else 0) = (if s.failed then 1 else 0) + if d.gaveUp then 1 else 0)
    (hrefuses : x.refuses → s'.failed) :
    EpisodeInv maxAttempts backoff0Ns (ds ++ [⟨x, nowNs, d⟩]) s' := by
  have htimes : attemptTimes (ds ++ [⟨x, nowNs, d⟩]) = attemptTimes ds := by
    simp [attemptTimes_concat, hact]
  have hkeeps : s.failed → s'.failed := by
    intro h
    by_contra h'
    simp only [h, if_true, if_neg h'] at hfailed
    omega
  constructor
  case attempts => rw [htimes, hattempts, hI.attempts]
  case bounded => rw [htimes]; exact hI.bounded
  case spaced => rw [htimes]; exact hI.spaced
  case due => rw [htimes, hnext]; exact hI.due
  case failed => rw [hfailed, ← hI.failed]; simp [giveUps, List.countP_append]
  case refused =>
    intro d' hd'
    rcases List.mem_append.1 hd' with hd' | hd'
    · exact fun h => hkeeps (hI.refused d' hd' h)
    · obtain rfl : d' = ⟨x, nowNs, d⟩ := by simpa using hd'
      exact hrefuses

theorem EpisodeInv.decide (hI : EpisodeInv maxAttempts backoff0Ns ds s)
    (hturn : SrecTurn maxAttempts backoff0Ns x nowNs s s' d) (hx : x.healthy = false)
    (hmax : maxAttempts < 2 ^ 32) (hov : nowNs + backoff backoff0Ns s.attempts < 2 ^ 64) :
    EpisodeInv maxAttempts backoff0Ns (ds ++ [⟨x, nowNs, d⟩]) s' := by
  cases hturn with
  | blind hreach hs =>
    subst hs
    exact hI.concat rfl rfl rfl (by simp) (by simp [SrecInput.refuses, hreach])
  | healthy hx' => simp [hx] at hx'
  | kept act hact _ hattempts hnext hfailed _ _ hrefuses =>
    exact hI.concat hact hattempts hnext (by simp [hfailed]) fun h => hfailed ▸ hrefuses h
  | gaveUp _ hattempts hnext hwas hfailed =>
    exact hI.concat rfl hattempts hnext (by simp [hfailed, hwas]) fun _ => hfailed
  | tried act hact _ hdue hleft hattempts hnext hwas hfailed _ hrefuses =>
    have htimes : attemptTimes (ds ++ [⟨x, nowNs, ⟨act, false, false⟩⟩]) =
        attemptTimes ds ++ [nowNs] := by
      simp [attemptTimes_concat, hact]
    have hlen : (attemptTimes ds ++ [nowNs]).length = s.attempts + 1 := by
      simp [hI.attempts]
    have hnext : s'.nextTryNs = nowNs + backoff backoff0Ns s.attempts :=
      hnext.trans (Nat.mod_eq_of_lt hov)
    constructor
    case attempts =>
      rw [htimes, hlen, hattempts, Nat.mod_eq_of_lt (by omega)]
    case bounded => rw [htimes, hlen]; omega
    case spaced =>
      rw [htimes]
      exact hI.spaced.concat fun a ha => Nat.le_trans (hI.due a ha) hdue
    case due =>
      rw [htimes, hlen, hnext]
      simp
    case failed =>
      have hnone := hI.failed
      rw [hwas] at hnone
      rw [hfailed, ← hnone]
      simp [giveUps, List.countP_append]
    case refused =>
      intro d' hd' href
      rcases List.mem_append.1 hd' with hd' | hd'
      · have := hI.refused d' hd' href
        rw [hwas] at this
        cases this
      · obtain rfl : d' = ⟨x, nowNs, ⟨act, false, false⟩⟩ := by simpa using hd'
        rw [hrefuses] at href
        cases href

/-- Slave `i` after a history of calls. -/
structure SrecInv (p₀ : SrecPlan) (i : Nat) (hist : List (Rec SrecPlan SrecCall))
    (p : SrecPlan) : Prop where
  same : SamePlan p₀ p
  inEpisode : EpisodeInv p₀.maxAttempts p₀.backoff0Ns (episode i hist) (p.s i)
  unhealthy : (p.s i).unhealthy = !(observations i hist).getLastD true
  reports : recoveredReports i hist = recoveredIn true (observations i hist)

variable {p₀ p : SrecPlan} {i : Nat} {hist : List (Rec SrecPlan SrecCall)}

theorem SamePlan.trans {p p' : SrecPlan} (h : SamePlan p₀ p) (h' : SamePlan p p') :
    SamePlan p₀ p' :=
  ⟨h'.n.trans h.n, h'.maxAttempts.trans h.maxAttempts, h'.backoff0Ns.trans h.backoff0Ns⟩

theorem SrecTurn.unhealthy (hturn : SrecTurn maxAttempts backoff0Ns x nowNs s s' d) :
    s'.unhealthy = if x.inReach then !x.healthy else s.unhealthy := by
  cases hturn with
  | blind hreach hs => simp [hreach, hs]
  | healthy hx _ _ hu =>
    have hreach : x.inReach := by simp [SrecInput.healthy] at hx; exact hx.1.1.1
    simp [hreach, hx, hu]
  | kept _ _ hx _ _ _ hu | gaveUp hx _ _ _ _ hu | tried _ _ hx _ _ _ _ _ _ hu =>
    have hx : x.inReach = true ∧ x.healthy = false := by
      simpa [SrecInput.unhealthy] using hx
    simp [hx, hu]

/-- A slave seen healthy starts a new episode. -/
theorem SrecTurn.starts (hturn : SrecTurn maxAttempts backoff0Ns x nowNs s s' d)
    (hx : x.healthy) : s'.attempts = 0 ∧ s'.failed = false := by
  cases hturn with
  | healthy _ hattempts hfailed => exact ⟨hattempts, hfailed⟩
  | blind hreach => simp [SrecInput.healthy, hreach] at hx
  | kept _ _ h | gaveUp h | tried _ _ h => simp [SrecInput.unhealthy, hx] at h

/-- Nothing is decided for a slave that is given up. -/
theorem SrecTurn.final (hturn : SrecTurn maxAttempts backoff0Ns x nowNs s s' d)
    (hfailed : s.failed) : d.act = .none ∧ d.gaveUp = false := by
  cases hturn with
  | blind | healthy => exact ⟨rfl, rfl⟩
  | kept _ _ _ _ _ _ _ hfinal => exact ⟨hfinal hfailed, rfl⟩
  | gaveUp _ _ _ hwas | tried _ _ _ _ _ _ _ hwas => simp [hfailed] at hwas

/-- Nothing is decided for a slave that refuses its configuration. -/
theorem SrecTurn.refused (hturn : SrecTurn maxAttempts backoff0Ns x nowNs s s' d)
    (hrefuses : x.refuses) : d.act = .none := by
  cases hturn with
  | blind | healthy | gaveUp => rfl
  | kept _ _ _ _ _ _ _ hfinal hkept => exact hfinal (hkept hrefuses)
  | tried _ _ _ _ _ _ _ _ _ _ hnot => simp [hrefuses] at hnot

/-- A decision reports the slave recovered exactly when it shows it healthy after
it was not. -/
theorem SrecTurn.recovered (hturn : SrecTurn maxAttempts backoff0Ns x nowNs s s' d) :
    d.recovered = (x.healthy && s.unhealthy) := by
  cases hturn with
  | blind hreach hs => simp [SrecInput.healthy, hreach]
  | healthy hx => simp [hx]
  | kept _ _ hx | gaveUp hx | tried _ _ hx =>
    have hx : x.inReach = true ∧ x.healthy = false := by
      simpa [SrecInput.unhealthy] using hx
    simp [hx]

theorem recoveredReports_concat (i : Nat) (hist : List (Rec SrecPlan SrecCall))
    (r : Rec SrecPlan SrecCall) :
    recoveredReports i (hist ++ [r]) =
      recoveredReports i hist + if (decided i r).any fun d => d.decision.recovered then 1 else 0 := by
  rw [recoveredReports, filterMap_concat, List.countP_append]
  cases decided i r <;> simp [recoveredReports, List.countP_cons]

theorem observations_concat (i : Nat) (hist : List (Rec SrecPlan SrecCall))
    (r : Rec SrecPlan SrecCall) :
    observations i (hist ++ [r]) = observations i hist ++ (observed i r).toList :=
  filterMap_concat ..

theorem SrecInv.step_decide (hI : SrecInv p₀ i hist p) (hi : i < p₀.n)
    (hmax : p₀.maxAttempts < 2 ^ 32) (x : SrecInput) (nowNs : Nat)
    (hov : nowNs + backoff p.backoff0Ns (p.s i).attempts < 2 ^ 64) :
    SrecInv p₀ i (hist ++ [⟨p, .decide i x nowNs, p.step (.decide i x nowNs)⟩])
      (p.step (.decide i x nowNs)) := by
  have hturn := ecmSrecDecide_turn (hI.same.n ▸ hi : i < p.n) x nowNs
  rw [hI.same.maxAttempts, hI.same.backoff0Ns] at hturn
  rw [hI.same.backoff0Ns] at hov
  have hdecided : decided i ⟨p, .decide i x nowNs, p.step (.decide i x nowNs)⟩ =
      some ⟨x, nowNs, (ecmSrecDecide p i x nowNs).2⟩ := by
    simp [decided]
  have hobserved : observed i ⟨p, .decide i x nowNs, p.step (.decide i x nowNs)⟩ =
      if x.inReach then some x.healthy else none := by
    simp [observed, hdecided]
  constructor
  case same => exact hI.same.trans (p.step_same _)
  case inEpisode =>
    rw [episode_concat, hdecided]
    cases hx : x.healthy with
    | true =>
      rw [if_pos (by simp [endsEpisode, hx])]
      exact .nil (hturn.starts hx).1 (hturn.starts hx).2
    | false =>
      rw [if_neg (by simp [endsEpisode, hx])]
      exact hI.inEpisode.decide hturn hx hmax hov
  case unhealthy =>
    rw [observations_concat, hobserved]
    have hu : ((p.step (.decide i x nowNs)).s i).unhealthy = _ := hturn.unhealthy
    rw [hu]
    by_cases hreach : x.inReach
    · simp [hreach]
    · simpa [hreach] using hI.unhealthy
  case reports =>
    rw [observations_concat, hobserved, recoveredReports_concat, hdecided, hI.reports]
    simp only [Option.any_some, hturn.recovered]
    by_cases hreach : x.inReach
    · simp only [hreach, if_true, Option.toList_some, recoveredIn_concat, hI.unhealthy]
      rw [Bool.and_comm]
    · simp [hreach, SrecInput.healthy]

theorem SrecInv.step_reset (hI : SrecInv p₀ i hist p) (hi : i < p₀.n) :
    SrecInv p₀ i (hist ++ [⟨p, .reset i, p.step (.reset i)⟩]) (p.step (.reset i)) := by
  have hpost : (p.step (.reset i)).s i =
      { p.s i with
        failed := false, failedConfig := false, failedCode := 0, attempts := 0, nextTryNs := 0 } := by
    rw [SrecPlan.step, ecmSrecReset, if_neg (by rw [hI.same.n]; omega), SrecPlan.set_self]
  constructor
  case same => exact hI.same.trans (p.step_same _)
  case inEpisode =>
    rw [episode_concat, if_pos (by simp [endsEpisode]), hpost]
    exact .nil rfl rfl
  case unhealthy =>
    rw [hpost, observations_concat]
    simpa [observed, decided] using hI.unhealthy
  case reports =>
    rw [observations_concat, recoveredReports_concat, hI.reports]
    simp [observed, decided]

/-- A call about another slave. -/
theorem SrecInv.step_other (hI : SrecInv p₀ i hist p) {c : SrecCall} (hc : i ≠ c.slave) :
    SrecInv p₀ i (hist ++ [⟨p, c, p.step c⟩]) (p.step c) := by
  have hdecided : decided i ⟨p, c, p.step c⟩ = none := by
    cases c with
    | decide j x nowNs => exact if_neg fun h => hc h.symm
    | reset j => rfl
  have hends : endsEpisode i c = false := by
    cases c with
    | decide j x nowNs => simp [endsEpisode, show ¬ j = i from fun h => hc h.symm]
    | reset j => simp [endsEpisode, show ¬ j = i from fun h => hc h.symm]
  have hobserved : observed i ⟨p, c, p.step c⟩ = none := by simp [observed, hdecided]
  constructor
  case same => exact hI.same.trans (p.step_same c)
  case inEpisode =>
    rw [episode_concat, hdecided, p.step_other hc]
    simpa [hends] using hI.inEpisode
  case unhealthy =>
    rw [observations_concat, hobserved, p.step_other hc]
    simpa using hI.unhealthy
  case reports =>
    rw [observations_concat, hobserved, recoveredReports_concat, hdecided, hI.reports]
    simp

theorem SrecInv.step (hi : i < p₀.n) (hmax : p₀.maxAttempts < 2 ^ 32) (hI : SrecInv p₀ i hist p)
    (c : SrecCall) (hov : NoOverflow hist ⟨p, c, p.step c⟩) :
    SrecInv p₀ i (hist ++ [⟨p, c, p.step c⟩]) (p.step c) := by
  by_cases hc : i = c.slave
  · cases c with
    | decide j x nowNs =>
      obtain rfl : i = j := hc
      exact hI.step_decide hi hmax x nowNs hov
    | reset j =>
      obtain rfl : i = j := hc
      exact hI.step_reset hi
  · exact hI.step_other hc

theorem SrecInv.init (i : Nat) (n maxAttempts backoff0Ns : Nat) :
    SrecInv (ecmSrecInit n maxAttempts backoff0Ns) i [] (ecmSrecInit n maxAttempts backoff0Ns) where
  same := ⟨rfl, rfl, rfl⟩
  inEpisode := .nil rfl rfl
  unhealthy := rfl
  reports := rfl

/-! ## Every run -/

/-- Once slave `i` was given up, nothing is decided for it in the episode. -/
def GivenUpIsFinal (i : Nat) (hist : List (Rec SrecPlan SrecCall)) (r : Rec SrecPlan SrecCall) :
    Prop :=
  ∀ d ∈ decided i r, (∃ d' ∈ episode i hist, d'.decision.gaveUp) →
    d.decision.act = .none ∧ d.decision.gaveUp = false

/-- Once slave `i` refused its configuration, nothing is decided for it in the
episode. -/
def RefusalIsFinal (i : Nat) (hist : List (Rec SrecPlan SrecCall)) (r : Rec SrecPlan SrecCall) :
    Prop :=
  ∀ d ∈ decided i r, (∃ d' ∈ episode i (hist ++ [r]), d'.input.refuses) → d.decision.act = .none

/-- A slave that is out of reach changes nothing. -/
def BlindKeepsPlan (_ : List (Rec SrecPlan SrecCall)) (r : Rec SrecPlan SrecCall) : Prop :=
  ∀ i x nowNs, r.ev = .decide i x nowNs → x.inReach = false → r.post = r.pre

theorem mem_decided {r : Rec SrecPlan SrecCall} {d : Decided} (hd : d ∈ decided i r) :
    r.ev = .decide i d.input d.nowNs ∧ d.decision = (ecmSrecDecide r.pre i d.input d.nowNs).2 := by
  obtain ⟨p, c, p'⟩ := r
  cases c with
  | decide j x nowNs =>
    simp only [decided, Option.mem_def, Option.ite_none_right_eq_some, Option.some.injEq] at hd
    obtain ⟨rfl, rfl⟩ := hd
    exact ⟨rfl, rfl⟩
  | reset j => simp [decided] at hd

theorem SrecInv.turn (hi : i < p₀.n) (hI : SrecInv p₀ i hist p) {r : Rec SrecPlan SrecCall}
    (hr : r.pre = p) {d : Decided} (hd : d ∈ decided i r) :
    ∃ s', SrecTurn p₀.maxAttempts p₀.backoff0Ns d.input d.nowNs (p.s i) s' d.decision := by
  obtain ⟨-, hdecision⟩ := mem_decided hd
  have hturn := ecmSrecDecide_turn (hI.same.n ▸ hi : i < p.n) d.input d.nowNs
  rw [hI.same.maxAttempts, hI.same.backoff0Ns, ← hr, ← hdecision] at hturn
  exact ⟨_, hr ▸ hturn⟩

theorem SrecInv.givenUp (hI : SrecInv p₀ i hist p)
    (hgave : ∃ d ∈ episode i hist, d.decision.gaveUp) : (p.s i).failed := by
  by_contra h
  have hnone : giveUps (episode i hist) = 0 := by rw [hI.inEpisode.failed, if_neg h]
  obtain ⟨d, hd, hgaveUp⟩ := hgave
  exact List.countP_eq_zero.1 hnone d hd hgaveUp

theorem SrecInv.givenUpIsFinal (hi : i < p₀.n) (hI : SrecInv p₀ i hist p) (c : SrecCall) :
    GivenUpIsFinal i hist ⟨p, c, p.step c⟩ := by
  intro d hd hgave
  obtain ⟨s', hturn⟩ := hI.turn hi rfl hd
  exact hturn.final (hI.givenUp hgave)

theorem SrecInv.refusalIsFinal (hi : i < p₀.n) (hI : SrecInv p₀ i hist p) (c : SrecCall) :
    RefusalIsFinal i hist ⟨p, c, p.step c⟩ := by
  rintro d hd ⟨d', hd', hrefuses⟩
  obtain ⟨s', hturn⟩ := hI.turn hi rfl hd
  rw [episode_concat] at hd'
  split at hd'
  · cases hd'
  · rcases List.mem_append.1 hd' with hd' | hd'
    · exact (hturn.final (hI.inEpisode.refused d' hd' hrefuses)).1
    · obtain rfl : d' = d := Option.mem_unique (Option.mem_toList.1 hd') hd
      exact hturn.refused hrefuses

theorem blindKeepsPlan (hist : List (Rec SrecPlan SrecCall)) (p : SrecPlan) (c : SrecCall) :
    BlindKeepsPlan hist ⟨p, c, p.step c⟩ := by
  rintro i x nowNs rfl hreach
  change (ecmSrecDecide p i x nowNs).1 = p
  rw [ecmSrecDecide, if_pos (.inr (by simp [hreach]))]

/-- For every slave of the plan and every list of calls: in an episode there are
at most `maxAttempts` attempts, each after the back-off of the one before it;
a slave that refuses its configuration gets no action until the episode ends;
the slave is given up once if it is marked failed, never otherwise, and then
gets no action; an observation out of reach changes nothing; and the slave is
reported recovered at each change from unhealthy to healthy. -/
theorem episode_bounded_and_final (n maxAttempts backoff0Ns i : Nat)
    (hi : i < (ecmSrecInit n maxAttempts backoff0Ns).n) (hmax : maxAttempts < 2 ^ 32)
    (calls : List SrecCall)
    (hov : Along SrecPlan.step (ecmSrecInit n maxAttempts backoff0Ns) calls NoOverflow) :
    let p₀ := ecmSrecInit n maxAttempts backoff0Ns
    let hist := trace SrecPlan.step p₀ calls
    (attemptTimes (episode i hist)).length ≤ maxAttempts ∧
      Spaced (backoff backoff0Ns) (attemptTimes (episode i hist)) ∧
      Along SrecPlan.step p₀ calls (RefusalIsFinal i) ∧
      giveUps (episode i hist) = (if ((run SrecPlan.step p₀ calls).s i).failed then 1 else 0) ∧
      Along SrecPlan.step p₀ calls (GivenUpIsFinal i) ∧
      Along SrecPlan.step p₀ calls BlindKeepsPlan ∧
      recoveredReports i hist = recoveredIn true (observations i hist) := by
  intro p₀ hist
  have hinit : SrecInv p₀ i [] p₀ := SrecInv.init i n maxAttempts backoff0Ns
  have hI : SrecInv p₀ i hist (run SrecPlan.step p₀ calls) :=
    Along.invariant (I := SrecInv p₀ i) hinit (fun _ _ c h hc => h.step hi hmax c hc) hov
  refine ⟨hI.inEpisode.bounded, hI.inEpisode.spaced, ?_, hI.inEpisode.failed, ?_, ?_, hI.reports⟩
  · exact Along.of_invariant (I := SrecInv p₀ i) hinit (fun _ _ c h hc => h.step hi hmax c hc)
      (fun _ _ c h _ => h.refusalIsFinal hi c) hov
  · exact Along.of_invariant (I := SrecInv p₀ i) hinit (fun _ _ c h hc => h.step hi hmax c hc)
      (fun _ _ c h _ => h.givenUpIsFinal hi c) hov
  · exact Along.of_invariant' (I := fun _ _ => True) trivial (fun _ _ _ _ => trivial)
      (fun hist p c _ => blindKeepsPlan hist p c) calls

/-- A slave that does not answer is reconfigured once, given up, and comes back. -/
def givenUpAndBack : List SrecCall :=
  [.decide 0 ⟨true, false, 0, 0⟩ 10, .decide 0 ⟨true, false, 0, 0⟩ 12,
    .decide 1 ⟨true, true, 0x14, 0x001E⟩ 12, .decide 0 ⟨true, false, 0, 0⟩ 15,
    .decide 0 ⟨false, false, 0, 0⟩ 16, .decide 0 ⟨true, true, 0x08, 0⟩ 20]

theorem episode_bounded_and_final_givenUpAndBack :
    ((run SrecPlan.step (ecmSrecInit 2 1 5) (givenUpAndBack.take 4)).s 0).failed ∧
      recoveredReports 0 (trace SrecPlan.step (ecmSrecInit 2 1 5) givenUpAndBack) =
        recoveredIn true
          (observations 0 (trace SrecPlan.step (ecmSrecInit 2 1 5) givenUpAndBack)) :=
  ⟨by decide,
    (episode_bounded_and_final 2 1 5 0 (by decide) (by decide) givenUpAndBack
      (by decide)).2.2.2.2.2.2⟩

/-- The times at which attempts are due, the first one at 0 and the back-off 1 ns. -/
def dueTimes : List Nat := (List.range 22).map (2 ^ · - 1) ++ [2 ^ 21 - 1 + 2 ^ 20]

/-- A decision at each of them about a slave that does not answer. -/
def soonAsDue : List SrecCall := dueTimes.map (SrecCall.decide 0 ⟨true, false, 0, 0⟩)

/-- The back-off does not double for ever: the 22nd and the 23rd attempt are as
far apart as the 21st and the 22nd. -/
theorem backoff_is_capped :
    dueTimes.Pairwise (· ≤ ·) ∧ Along SrecPlan.step (ecmSrecInit 1 23 1) soonAsDue NoOverflow ∧
      ¬ Spaced (fun k => 1 * 2 ^ k)
        (attemptTimes (episode 0 (trace SrecPlan.step (ecmSrecInit 1 23 1) soonAsDue))) := by
  refine ⟨by decide +kernel, by decide +kernel, ?_⟩
  intro hspaced
  have htimes := hspaced 21 2097151 3145727 (by decide +kernel) (by decide +kernel)
  revert htimes
  decide

end EcMaster.Policy
