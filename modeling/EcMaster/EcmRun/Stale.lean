import EcMaster.EcmRun.Handover

/-!
# The age of a recovery command

A command goes a long way from the slave's state to the wire: a diagnostic frame sees
the state, the RT thread collects the reply and hands it over, the monitor takes it
over, plans with it and queues a command, and the RT thread sends that when a tick
has time left.  Nothing on this way is emptied when the bus is lost and recovered.
`recover_full` brings the slaves to OP from their states at that time, and what is
still under way from before then reaches slaves that are in OP.

`commands_are_new` says what is needed: when the bus comes back, the queue is empty
and no read is under way or taken over and not yet planned with; and a slave that
answers a diagnostic frame answers with its AL status, since the planner otherwise
works with the one of an earlier read.  `stale_command` is a run with a command left in
the queue.
-/

namespace EcMaster.EcmRun

open EcMaster.Pdo EcMaster.Cia402 EcMaster.Policy EcMaster.Run

/-! ## Statements -/

/-- Slaves that answer do so with their AL status. -/
def AnswersAl (s : Nat → RawSlave) : Prop :=
  ∀ i < diagMaxSlaves, (s i).wkcErr > 0 → (s i).wkcAl > 0

instance (s : Nat → RawSlave) : Decidable (AnswersAl s) :=
  inferInstanceAs (Decidable (∀ i < diagMaxSlaves, _))

/-- So does the reply of a round, if there is one. -/
def TEvent.AnswersAl : TEvent → Prop
  | .tick _ y => ∀ reply ∈ y.reply, EcmRun.AnswersAl reply.s
  | _ => True

instance : DecidablePred TEvent.AnswersAl
  | .tick _ y => inferInstanceAs (Decidable (∀ reply ∈ y.reply, EcmRun.AnswersAl reply.s))
  | .monitor _ _ => inferInstanceAs (Decidable True)
  | .app _ => inferInstanceAs (Decidable True)
  | .main _ => inferInstanceAs (Decidable True)

/-- When the bus comes back, nothing is under way from before. -/
def ComesClean (_ : List (Rec Threads TEvent)) (r : Rec Threads TEvent) : Prop :=
  Comes r.pre.bus.state r.post.bus.state →
    r.pre.cmdq = [] ∧ r.pre.diagIo.pending = false ∧ r.pre.handoff = [] ∧
      r.pre.planning ≠ .check

instance (hist : List (Rec Threads TEvent)) (r : Rec Threads TEvent) :
    Decidable (ComesClean hist r) :=
  inferInstanceAs (Decidable (_ → _ ∧ _ ∧ _ ∧ _))

/-- A command that was pushed, and decided from a state seen, since the bus last came
back. -/
def Queued.New (now : Nat) (c : Queued) : Prop := c.pushed = now ∧ c.seen = now

/-- The commands that a step sends are new. -/
def SendsNew (_ : List (Rec Threads TEvent)) (r : Rec Threads TEvent) : Prop :=
  ∀ c, MainFrame.alControl c ∈ r.post.mainSent → c.New r.pre.returns

/-! ## Reads -/

/-- The slaves of the last read have the AL status of that time. -/
def Diag.New (now : Nat) (d : Diag) : Prop :=
  ∀ i, (d.s i).seenRead = d.reads → (d.s i).answered = true → (d.s i).seen = now

/-- No slave is ahead of the reads. -/
def Diag.Counts (d : Diag) : Prop := d.n ≤ diagMaxSlaves ∧ ∀ i, (d.s i).seenRead ≤ d.reads

/-- A read of this time. -/
def DiagRaw.New (now : Nat) (raw : DiagRaw) : Prop := raw.seen = now ∧ AnswersAl raw.s

theorem Diag.Counts.ingest {d : Diag} (hd : d.Counts) (raw : DiagRaw) :
    (ecmDiagIngest d raw).Counts := by
  obtain ⟨hn, hle⟩ := hd
  unfold ecmDiagIngest
  dsimp only
  split
  · exact ⟨hn, fun i => Nat.le_succ_of_le (hle i)⟩
  · refine ⟨hn, fun i => ?_⟩
    dsimp only
    split
    · unfold DiagSlave.ingest
      dsimp only
      split <;> exact Nat.le_refl _
    · exact Nat.le_succ_of_le (hle i)

theorem Diag.Counts.ingest_new {d : Diag} (hd : d.Counts) {raw : DiagRaw} {now : Nat}
    (hraw : raw.New now) : (ecmDiagIngest d raw).New now := by
  obtain ⟨hn, hle⟩ := hd
  intro i
  have hbehind : (d.s i).seenRead ≠ d.reads + 1 := Nat.ne_of_lt (Nat.lt_succ_of_le (hle i))
  unfold ecmDiagIngest
  dsimp only
  split
  · exact fun hread => absurd hread hbehind
  · dsimp only
    split
    · rename_i hchunk
      have hi : i < diagMaxSlaves := by omega
      intro _ hanswered
      -- An answer comes with the AL status, so that is from this read.
      have hal : (raw.s i).wkcAl > 0 := by
        by_contra hno
        simp only [DiagSlave.ingest, if_neg hno, decide_eq_false hno, Bool.or_false,
          decide_eq_true_eq] at hanswered
        exact hno (hraw.2 i hi hanswered)
      simp only [DiagSlave.ingest, if_pos hal]
      exact hraw.1
    · exact fun hread => absurd hread hbehind

/-- Reads taken over one after the other. -/
theorem Diag.Counts.foldl {now : Nat} (l : List DiagRaw) :
    ∀ {d : Diag}, d.Counts → (∀ raw ∈ l, raw.New now) →
      (l.foldl ecmDiagIngest d).Counts ∧ (l ≠ [] → (l.foldl ecmDiagIngest d).New now) := by
  induction l with
  | nil => intro d hd _; exact ⟨hd, fun h => absurd rfl h⟩
  | cons raw l ih =>
    intro d hd hl
    obtain ⟨hcounts, hlast⟩ := ih (hd.ingest raw) fun q hq => hl q (by simp [hq])
    refine ⟨hcounts, fun _ => ?_⟩
    by_cases hl' : l = []
    · rw [hl']
      exact hd.ingest_new (hl raw (by simp))
    · exact hlast hl'

/-! ## What is under way -/

/-- Everything on the way from a diagnostic frame to the wire is new. -/
structure UnderWay (t : Threads) : Prop where
  cmdq : ∀ c ∈ t.cmdq, c.New t.returns
  pending : t.diagIo.pending = true → t.diagIo.seen = t.returns
  handoff : ∀ raw ∈ t.handoff, raw.New t.returns
  counts : t.diag.Counts
  planned : t.planning ≠ .none → t.diag.New t.returns

/-- A read handed over. -/
theorem UnderWay.put {t : Threads} (hu : UnderWay t) {raw : DiagRaw} (hraw : raw.New t.returns) :
    ∀ q ∈ ecmDiagHandoffPut t.handoff raw, q.New t.returns := by
  intro q hq
  unfold ecmDiagHandoffPut at hq
  split at hq
  · exact hu.handoff q hq
  · rcases List.mem_append.1 hq with hq | hq
    · exact hu.handoff q hq
    · rw [List.mem_singleton.1 hq]
      exact hraw

/-- The diagnostics of a round. -/
theorem UnderWay.diagTurn {t : Threads} (hu : UnderWay t) (x : TickIn) {y : RtIn}
    (hy : ∀ reply ∈ y.reply, AnswersAl reply.s) : UnderWay (t.diagTurn x y) := by
  unfold Threads.diagTurn
  split
  · exact hu
  split
  · rename_i hpend
    have hseen := hu.pending hpend
    unfold ecmDiagSoemCollect
    rw [if_neg (by simp [hpend])]
    cases hreply : y.reply with
    | some reply =>
      exact ⟨hu.cmdq, nofun, hu.put ⟨hseen, hy reply (by simp [hreply])⟩, hu.counts, hu.planned⟩
    | none =>
      dsimp only
      split
      · exact ⟨hu.cmdq, fun _ => hseen, hu.handoff, hu.counts, hu.planned⟩
      · refine ⟨hu.cmdq, nofun, hu.put ⟨hseen, ?_⟩, hu.counts, hu.planned⟩
        intro i _ herr
        simp at herr
  split
  · refine ⟨hu.cmdq, ?_, hu.handoff, hu.counts, hu.planned⟩
    dsimp only
    unfold ecmDiagSoemSend
    split
    · exact hu.pending
    · exact fun _ => rfl
  · exact hu

theorem UnderWay.rtExecCommand {t : Threads} (hu : UnderWay t) (y : RtIn) :
    UnderWay (t.rtExecCommand y) := by
  unfold Threads.rtExecCommand
  split
  · exact hu
  · rename_i c rest hq
    split
    · exact hu
    · exact ⟨fun d hd => hu.cmdq d (by simp [hq, hd]), hu.pending, hu.handoff, hu.counts,
        hu.planned⟩

theorem UnderWay.busTurn {t : Threads} (hu : UnderWay t) (x : TickIn) {y : RtIn}
    (hy : ∀ reply ∈ y.reply, AnswersAl reply.s) : UnderWay (t.busTurn x y) := by
  unfold Threads.busTurn
  split
  · dsimp only
    have hu' : ∀ frames, UnderWay { t with mainSent := frames } := fun frames =>
      ⟨hu.cmdq, hu.pending, hu.handoff, hu.counts, hu.planned⟩
    split
    · exact ((hu' _).diagTurn x hy).rtExecCommand y
    · exact (hu' _).diagTurn x hy
  · exact ⟨hu.cmdq, hu.pending, hu.handoff, hu.counts, hu.planned⟩

theorem Threads.busTurn_returns (t : Threads) (x : TickIn) (y : RtIn) :
    (t.busTurn x y).returns = t.returns := by
  have hdiag : ∀ t : Threads, (t.diagTurn x y).returns = t.returns := by
    intro t
    unfold Threads.diagTurn
    split_ifs <;> rfl
  have hexec : ∀ t : Threads, (t.rtExecCommand y).returns = t.returns := by
    intro t
    unfold Threads.rtExecCommand
    split
    · rfl
    · split <;> rfl
  unfold Threads.busTurn
  split
  · dsimp only
    split
    · rw [hexec, hdiag]
    · rw [hdiag]
  · rfl

/-- `recovery_step` queues a command from a read of this time. -/
theorem UnderWay.push {t : Threads} (hu : UnderWay t) {i : Nat} (value : Nat)
    (hplan : t.planning ≠ .none) (hread : (t.diag.s i).seenRead = t.diag.reads)
    (hanswered : (t.diag.s i).answered = true) : UnderWay (t.push i value) := by
  refine ⟨fun c hc => ?_, hu.pending, hu.handoff, hu.counts, hu.planned⟩
  dsimp only [Threads.push] at hc
  unfold ecmCmdqPush at hc
  split at hc
  · exact hu.cmdq c hc
  · rcases List.mem_append.1 hc with hc | hc
    · exact hu.cmdq c hc
    · rw [List.mem_singleton.1 hc]
      exact ⟨rfl, hu.planned hplan i hread hanswered⟩

theorem UnderWay.plan {t : Threads} (hu : UnderWay t) (hplan : t.planning ≠ .none) (y : PlanIn) :
    UnderWay (t.recoveryStep y) := by
  have hnew := hu.planned hplan
  unfold Threads.recoveryStep
  cases hwhere : t.planning with
  | none => exact absurd hwhere hplan
  | check => exact ⟨hu.cmdq, hu.pending, hu.handoff, hu.counts, fun _ => hnew⟩
  | slave i nowNs =>
    dsimp only
    have hmove := t.planSlave_move i nowNs
    generalize t.planSlave i nowNs = t' at hmove ⊢
    cases hmove with
    | ended => exact ⟨hu.cmdq, hu.pending, hu.handoff, hu.counts, fun _ => hnew⟩
    | next srec => exact ⟨hu.cmdq, hu.pending, hu.handoff, hu.counts, fun _ => hnew⟩
    | push srec hn hi value hread hanswered =>
      exact UnderWay.push
        (t := { t with planning := .slave (i + 1) nowNs, srec := srec })
        ⟨hu.cmdq, hu.pending, hu.handoff, hu.counts, fun _ => hnew⟩ value nofun hread hanswered
    | pathB srec => exact ⟨hu.cmdq, hu.pending, hu.handoff, hu.counts, fun _ => hnew⟩
  | pathB i nowNs =>
    dsimp only
    split <;> exact ⟨hu.cmdq, hu.pending, hu.handoff, hu.counts, fun _ => hnew⟩

theorem UnderWay.monitor {t : Threads} (hu : UnderWay t) (x : MonitorIn) (y : PlanIn) :
    UnderWay (t.monitorTurn x y) := by
  obtain ⟨hcounts, hlast⟩ := hu.counts.foldl t.handoff hu.handoff
  have hmove := t.monitorTurn_move x y
  generalize t.monitorTurn x y = t' at hmove ⊢
  cases hmove with
  | exited => exact hu
  | plan hexited hplan => exact hu.plan hplan y
  | recover hexited hplan =>
    unfold Threads.recoverFull
    dsimp only
    split <;>
      exact ⟨hu.cmdq, hu.pending, hu.handoff, hu.counts, fun h => absurd hplan h⟩
  | wake hexited hplan =>
    unfold Threads.wake
    split
    · refine ⟨hu.cmdq, hu.pending, ?_, ?_, fun h => absurd hplan h⟩
      · dsimp only
        split
        · exact nofun
        · exact hu.handoff
      · dsimp only
        split
        · exact hcounts
        · exact hu.counts
    · exact ⟨hu.cmdq, hu.pending, hu.handoff, hu.counts, fun h => absurd hplan h⟩
  | iterate hexited hplan =>
    unfold Threads.diagIteration
    dsimp only
    split
    · refine ⟨hu.cmdq, hu.pending, nofun, hcounts, fun hcheck => hlast fun hnil => hcheck ?_⟩
      simp [hnil]
    · exact ⟨hu.cmdq, hu.pending, hu.handoff, hu.counts, fun h => absurd hplan h⟩

/-! ## Planning and the hand-over -/

/-- The monitor is at the slaves. -/
def Planning.acting : Planning → Bool
  | .slave _ _ | .pathB _ _ => true
  | _ => false

/-- The monitor does not answer a request while it is at the slaves, so the bus does
not come back in that time. -/
structure Unanswered (t : Threads) : Prop where
  alive : Alive t
  turn : ∃ turn, InTurn turn t.toMaster
  acting : t.planning.acting = true → t.bus.state = .recover → t.recoverDone ≠ t.recoverGen

theorem Unanswered.clear {t : Threads} (hq : Unanswered t) : Unanswered t.clear := by
  obtain ⟨turn, ht⟩ := hq.turn
  exact ⟨hq.alive.clear, ⟨turn, ht.holds, ht.req, ht.gen, ht.enabled⟩, hq.acting⟩

theorem Unanswered.tick {t : Threads} (hq : Unanswered t) (x : TickIn) (y : RtIn)
    (hbus : (t.rtTick x y).bus.state = .recover) :
    (t.rtTick x y).recoverDone ≠ (t.rtTick x y).recoverGen := by
  obtain ⟨turn, ht⟩ := hq.turn
  have hbus : (rtTick x t.toMaster).bus.state = .recover := hbus
  have hdone : (t.rtTick x y).recoverDone = t.recoverDone := (rtTick_kept x t.toMaster).done
  have hgen : (t.rtTick x y).recoverGen = (rtTick x t.toMaster).recoverGen := rfl
  rw [hdone, hgen]
  cases rtTick_move x t.toMaster with
  | cyclic _ hpost => exact absurd hbus hpost
  | enters hpre _ hgen' =>
    cases turn with
    | rt =>
      have hold := ht.holds.2.2
      have hlt := ht.gen
      rw [hgen']
      omega
    | asked => exact absurd ht.holds.1 hpre
    | running => exact absurd ht.holds.1 hpre
    | answered ok => exact absurd ht.holds.1 hpre
  | waits _ _ hne hgen' =>
    rw [hgen']
    exact hne
  | leaves _ _ hpost =>
    rw [hbus] at hpost
    split at hpost <;> cases hpost

theorem Unanswered.monitor {t : Threads} (hq : Unanswered t) (x : MonitorIn) (y : PlanIn)
    (hact : (t.monitorTurn x y).planning.acting = true)
    (hbus : (t.monitorTurn x y).bus.state = .recover) :
    (t.monitorTurn x y).recoverDone ≠ (t.monitorTurn x y).recoverGen := by
  have hmove := t.monitorTurn_move x y
  generalize t.monitorTurn x y = t' at hmove hact hbus ⊢
  cases hmove with
  | exited => exact hq.acting hact hbus
  | plan hexited hplan =>
    have hmaster := (t.recoveryStep_kept y).master
    rw [hmaster] at hbus ⊢
    cases hwhere : t.planning with
    | none => exact absurd hwhere hplan
    | slave i nowNs => exact hq.acting (by rw [hwhere]; rfl) hbus
    | pathB i nowNs => exact hq.acting (by rw [hwhere]; rfl) hbus
    | check =>
      -- It has seen a published state that is not RECOVER.
      have hnot : t.busStatePub.cyclic = false := by rw [hq.alive.pub, hbus]; rfl
      simp [Threads.recoveryStep, hwhere, hnot, Planning.acting] at hact
  | recover hexited hplan =>
    have hplan' : (t.recoverFull x y).planning = t.planning := by
      unfold Threads.recoverFull
      cases t.monitor <;> rfl
    rw [hplan', hplan] at hact
    cases hact
  | wake hexited hplan =>
    have hplan' : t.wake.planning = t.planning := by
      unfold Threads.wake
      split <;> rfl
    rw [hplan', hplan] at hact
    cases hact
  | iterate hexited hplan =>
    unfold Threads.diagIteration at hact
    dsimp only at hact
    split at hact
    · dsimp only at hact
      split at hact <;> cases hact
    · simp [hplan, Planning.acting] at hact

theorem Unanswered.step {t : Threads} (hq : Unanswered t) (e : TEvent) :
    Unanswered (t.step e) := by
  obtain ⟨turn, ht⟩ := hq.turn
  obtain ⟨turn', -, ht'⟩ := turn_step ht e
  refine ⟨hq.alive.step e, ⟨turn', ht'⟩, ?_⟩
  cases e with
  | tick x y =>
    rw [Threads.step]
    split
    · exact fun _ => hq.clear.tick x y
    · exact hq.acting
  | monitor x y => exact hq.clear.monitor x y
  | app e => cases e <;> exact hq.acting
  | main reached =>
    have hmaster : (t.clear.mainStep reached).toMaster = t.clear.toMaster := by
      unfold Threads.mainStep
      split <;> (try split) <;> rfl
    rw [Threads.step, (t.clear.mainStep_kept reached).planning, hmaster]
    exact hq.acting

/-! ## Every run -/

theorem UnderWay.tick {t : Threads} (hu : UnderWay t) (hq : Unanswered t) (x : TickIn) {y : RtIn}
    (hy : ∀ reply ∈ y.reply, AnswersAl reply.s)
    (hclean : Comes t.bus.state (t.rtTick x y).bus.state →
      t.cmdq = [] ∧ t.diagIo.pending = false ∧ t.handoff = [] ∧ t.planning ≠ .check) :
    UnderWay (t.rtTick x y) := by
  by_cases hcomes : Comes t.bus.state (rtTick x t.toMaster).bus.state
  · obtain ⟨hcmdq, hpending, hhandoff, hcheck⟩ := hclean hcomes
    have hplan : t.planning = .none := by
      -- The bus comes back only with an answer.
      have hdone : t.recoverDone = t.recoverGen := by
        cases rtTick_move x t.toMaster with
        | cyclic hpre => exact absurd hcomes.1 hpre
        | enters hpre => exact absurd hcomes.1 hpre
        | waits _ hpost => exact absurd (hcomes.2.symm.trans hpost) (by decide)
        | leaves _ hdone => exact hdone
      cases hwhere : t.planning with
      | none => rfl
      | check => exact absurd hwhere hcheck
      | slave i nowNs => exact absurd hdone (hq.acting (by rw [hwhere]; rfl) hcomes.1)
      | pathB i nowNs => exact absurd hdone (hq.acting (by rw [hwhere]; rfl) hcomes.1)
    rw [Threads.rtTick, Threads.busTurn_recover hcomes.1]
    refine ⟨?_, ?_, ?_, hu.counts, fun h => absurd hplan h⟩
    · simp [hcmdq]
    · simp [hpending]
    · simp [hhandoff]
  · have hu' := hu.busTurn x hy
    have hret : (t.rtTick x y).returns = (t.busTurn x y).returns := by
      rw [t.busTurn_returns, Threads.rtTick]
      exact if_neg hcomes
    refine ⟨?_, ?_, ?_, hu'.counts, ?_⟩ <;> rw [hret]
    · exact hu'.cmdq
    · exact hu'.pending
    · exact hu'.handoff
    · exact hu'.planned

theorem UnderWay.step {t : Threads} (hu : UnderWay t) (hq : Unanswered t) {e : TEvent}
    (he : e.AnswersAl) (hclean : ComesClean [] ⟨t, e, t.step e⟩) : UnderWay (t.step e) := by
  have hu' : UnderWay t.clear := ⟨hu.cmdq, hu.pending, hu.handoff, hu.counts, hu.planned⟩
  cases e with
  | tick x y =>
    by_cases hloop : t.main = .loop
    · have hstep : t.step (.tick x y) = t.clear.rtTick x y := if_pos hloop
      rw [hstep] at hclean ⊢
      exact hu'.tick hq.clear x he hclean
    · have hstep : t.step (.tick x y) = t.clear := if_neg hloop
      rw [hstep]
      exact hu'
  | monitor x y => exact hu'.monitor x y
  | app e => cases e <;> exact ⟨hu.cmdq, hu.pending, hu.handoff, hu.counts, hu.planned⟩
  | main reached =>
    rw [Threads.step, Threads.mainStep]
    split <;> (try split) <;> exact ⟨hu.cmdq, hu.pending, hu.handoff, hu.counts, hu.planned⟩

/-- **No stale command.**  In every run in which the bus comes back with nothing under
way from before, and slaves answer with their AL status, every command that the RT
thread sends was pushed, and was decided from a state seen, since the bus last came
back. -/
theorem commands_are_new (cfg : Config) (busCfg : BusCfg) (fixed : List (Handle × Nat))
    (recoverEnabled : Bool) (slavecount : Nat) (configadr : Nat → Nat) (diagEnabled : Bool)
    (ticksPerSnapshot : Nat) (es : List TEvent) (hal : ∀ e ∈ es, e.AnswersAl)
    (hclean : Along Threads.step (.start (start cfg busCfg fixed recoverEnabled) slavecount
      configadr diagEnabled ticksPerSnapshot) es ComesClean) :
    Along Threads.step (.start (start cfg busCfg fixed recoverEnabled) slavecount configadr
      diagEnabled ticksPerSnapshot) es SendsNew := by
  cases recoverEnabled with
  | false =>
    refine Along.of_invariant' (I := fun _ => Off) ⟨rfl, rfl, rfl, rfl⟩
      (fun _ t e hoff => (hoff.step e).1) ?_ es
    intro _ t e hoff c hc
    have hmem := Threads.step_sends hc
    rw [hoff.cmdq] at hmem
    cases hmem
  | true =>
    refine Along.of_invariant (I := fun _ t => UnderWay t ∧ Unanswered t)
      (C := fun hist r => r.ev.AnswersAl ∧ ComesClean hist r) ?_ ?_ ?_
      ((Along.of_forall hal _).and hclean)
    · refine ⟨⟨nofun, nofun, nofun, ⟨?_, fun _ => Nat.le_refl _⟩, fun h => absurd rfl h⟩,
        ⟨rfl, fun _ => rfl, nofun, ?_, nofun, fun h => absurd rfl h⟩,
        ⟨.rt, ⟨nofun, rfl, rfl⟩, rfl, Nat.two_pow_pos 32, rfl⟩, nofun⟩
      · exact Nat.min_le_right _ _
      · show (if slavecount > srecMaxSlaves then srecMaxSlaves else slavecount) =
          min slavecount srecMaxSlaves
        split <;> omega
    · rintro hist t e ⟨hu, hq⟩ ⟨he, hc⟩
      exact ⟨hu.step hq he hc, hq.step e⟩
    · rintro hist t e ⟨hu, -⟩ - c hc
      exact hu.cmdq c (Threads.step_sends hc)

/-! ## One slave -/

/-- No axes, one slave, a bus that is lost after one round without a frame, and a
diagnostic frame every `ticksPerSnapshot` ticks. -/
def oneSlave (ticksPerSnapshot : Nat) : Threads :=
  .start
    (start { cycleNs := 1000000, stepTimeoutMs := 1000, homeTimeoutMs := 1000, obytes := 0
             axes := [], few := by decide }
      { nLost := 1, probeTicks := 1, recoverBackoffTicks := 1 } [] true)
    1 (fun s => 0x1000 + s) true ticksPerSnapshot

/-- A round.  `al` is the AL status in the reply to a diagnostic frame. -/
def oneTick (motionClass : WkcClass) (al : Option Nat) (budgetUs : Nat) : TEvent :=
  .tick
    { motionClass := motionClass, ioClass := none, brdWkc := 1, tSendNs := 0
      inputs := fun _ => 0, xeCmd := fun _ => .none, xeRt := fun _ => .none }
    { mailbox := false
      reply := al.map fun a =>
        { brdCount := 1, s := fun _ => { wkcErr := 1, wkcAl := 1, alStatus := a, alCode := 0x1B } }
      diagOut := true
      budgetUs := budgetUs }

/-- A step of the monitor, which finds the slave in OP. -/
def oneMonitor : TEvent :=
  .monitor { inputs := fun _ => 0, allOp := true, timedOut := false, anyOp := true }
    { nowNs := 0, refused := [], pathDone := true, cfgFail := false }

/-- A diagnostic frame sees an AL status, and the monitor takes the read over and plans
with it. -/
def seenAs (al : Nat) : List TEvent :=
  [oneTick .wkcPartial none 300, oneTick .wkcPartial (some al) 300] ++
    List.replicate 22 oneMonitor

/-- The bus is lost, found again and recovered, and comes back.  The rounds without a
frame have no time left for a command. -/
def lostAndRecovered : List TEvent :=
  [oneTick .wkcNoframe none 0, oneTick .wkcNoframe none 0] ++ List.replicate 6 oneMonitor ++
    [oneTick .wkcOk none 300]

/-- The slave is seen in OP before the bus is lost, and in SAFE-OP with an error after it
has come back.  The acknowledgement is for the latter. -/
theorem commands_are_new_oneSlave :
    let es := seenAs 0x08 ++ lostAndRecovered ++ seenAs 0x14 ++ [oneTick .wkcPartial none 300]
    Along Threads.step (oneSlave 4) es SendsNew ∧
      (run Threads.step (oneSlave 4) es).mainSent =
        [.processData,
          .alControl
            { cmd :=
                { slave := 1, configadr := 0x1001, reg := regAlctl, value := alSafeop + alAck }
              seen := 1, pushed := 1 }] := by
  refine ⟨?_, by decide +kernel⟩
  exact commands_are_new _ _ [] true 1 _ true 4 _ (by decide +kernel) (by decide +kernel)

/-- The slave is seen in SAFE-OP with an error, and the acknowledgement is queued.  Then
the bus is lost, and `recover_full` brings the slave to OP.  The first round after that
sends the acknowledgement, which requests SAFE-OP. -/
theorem stale_command :
    let es := seenAs 0x14 ++ lostAndRecovered
    let last := oneTick .wkcOk none 300
    marks (trace Threads.step (oneSlave 1000) es) = [.enter, .start, .finish true, .leave true] ∧
      (run Threads.step (oneSlave 1000) (es ++ [last])).mainSent =
        [.processData,
          .alControl
            { cmd :=
                { slave := 1, configadr := 0x1001, reg := regAlctl, value := alSafeop + alAck }
              seen := 0, pushed := 0 }] ∧
      ¬ Along Threads.step (oneSlave 1000) (es ++ [last]) SendsNew := by
  intro es last
  have hsent : (run Threads.step (oneSlave 1000) (es ++ [last])).mainSent =
      [.processData,
        .alControl
          { cmd := { slave := 1, configadr := 0x1001, reg := regAlctl, value := alSafeop + alAck }
            seen := 0, pushed := 0 }] := by decide +kernel
  refine ⟨by decide +kernel, hsent, fun halong => ?_⟩
  have hreturns : (run Threads.step (oneSlave 1000) es).returns = 1 := by decide +kernel
  rw [run_append, run_cons, run_nil] at hsent
  have hnew : SendsNew (trace Threads.step (oneSlave 1000) es)
      ⟨run Threads.step (oneSlave 1000) es, last, _⟩ := halong.at
  obtain ⟨hpushed, -⟩ := hnew _ (hsent ▸ List.mem_cons_of_mem _ (List.mem_singleton_self _))
  rw [hreturns] at hpushed
  cases hpushed

end EcMaster.EcmRun
