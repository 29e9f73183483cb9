import EcMaster.EcmRun.Stale

/-!
# Leaving OP and the monitor

After the loop the main thread requests SAFE-OP at once, prints its statistics, and
only then tells the monitor to stop and waits for it.  In that time the monitor runs
as before.  A request of recovery that the RT thread has made and no longer waits for
is still answered, with `recover_full`, which requests OP; a recovery that is under
way goes on; and a diagnostic read that is still in the hand-off is planned with,
which may reconfigure a slave.

`monitor_silent` says that the monitor sends nothing after the first frame of the
shutdown if it has nothing of that kind left when this frame is sent.
`recovers_after_leaveOp` is a run in which the loop ends in RECOVER.
-/

namespace EcMaster.EcmRun

open EcMaster.Pdo EcMaster.Cia402 EcMaster.Policy EcMaster.Run

/-- The monitor has nothing to do on the bus: no request to answer, no recovery under
way, and no read to plan with. -/
structure NothingLeft (t : Threads) : Prop where
  req : t.recoverReq = t.recoverDone
  monitor : t.monitor = .idle
  planning : t.planning = .none
  handoff : t.handoff = []

instance (t : Threads) : Decidable (NothingLeft t) :=
  decidable_of_iff (t.recoverReq = t.recoverDone ∧ t.monitor = .idle ∧ t.planning = .none ∧
      t.handoff = [])
    ⟨fun ⟨hreq, hmon, hplan, hho⟩ => ⟨hreq, hmon, hplan, hho⟩,
      fun ⟨hreq, hmon, hplan, hho⟩ => ⟨hreq, hmon, hplan, hho⟩⟩

/-- The step with the first frame of the shutdown finds recovery off, or nothing left
for the monitor. -/
def LeavesQuiet (_ : List (Rec Threads TEvent)) (r : Rec Threads TEvent) : Prop :=
  r.pre.main.leftOp = false → r.post.main.leftOp = true →
    r.pre.recoverEnabled = false ∨ NothingLeft r.pre

instance (hist : List (Rec Threads TEvent)) (r : Rec Threads TEvent) :
    Decidable (LeavesQuiet hist r) :=
  inferInstanceAs (Decidable (_ → _ → _ ∨ _))

/-- After the first frame of the shutdown the monitor sends nothing. -/
def MonitorSilent (_ : List (Rec Threads TEvent)) (r : Rec Threads TEvent) : Prop :=
  r.pre.main.leftOp = true → r.post.monitorSent = []

instance (hist : List (Rec Threads TEvent)) (r : Rec Threads TEvent) :
    Decidable (MonitorSilent hist r) :=
  inferInstanceAs (Decidable (_ → _))

theorem NothingLeft.clear {t : Threads} (hn : NothingLeft t) : NothingLeft t.clear :=
  ⟨hn.req, hn.monitor, hn.planning, hn.handoff⟩

/-- A monitor with nothing left finds nothing to do. -/
theorem NothingLeft.monitorTurn {t : Threads} (hn : NothingLeft t) (hsent : t.monitorSent = [])
    (x : MonitorIn) (y : PlanIn) :
    NothingLeft (t.monitorTurn x y) ∧ (t.monitorTurn x y).monitorSent = [] := by
  obtain ⟨hreq, hmon, hplan, hho⟩ := hn
  have hmove := t.monitorTurn_move x y
  generalize t.monitorTurn x y = t' at hmove ⊢
  cases hmove with
  | exited => exact ⟨⟨hreq, hmon, hplan, hho⟩, hsent⟩
  | plan hexited hne => exact absurd hplan hne
  | recover hexited hplan hwork =>
    rcases hwork with hwork | ⟨-, hwork⟩
    · exact absurd hmon hwork
    · exact absurd hreq hwork
  | wake =>
    unfold Threads.wake
    split
    · refine ⟨⟨hreq, hmon, hplan, ?_⟩, hsent⟩
      dsimp only
      split
      · rfl
      · exact hho
    · exact ⟨⟨hreq, hmon, hplan, hho⟩, hsent⟩
  | iterate =>
    unfold Threads.diagIteration
    dsimp only
    split
    · refine ⟨⟨hreq, hmon, ?_, rfl⟩, hsent⟩
      simp [hho]
    · exact ⟨⟨hreq, hmon, hplan, hho⟩, hsent⟩

/-- Neither does it after any step when the loop is over. -/
theorem NothingLeft.step {t : Threads} (hn : NothingLeft t) (hleft : t.main.leftOp = true)
    (e : TEvent) : NothingLeft (t.step e) ∧ (t.step e).monitorSent = [] := by
  cases e with
  | tick x y =>
    have hloop : ¬ t.main = .loop := by
      intro h
      rw [h] at hleft
      cases hleft
    rw [Threads.step, if_neg (by exact hloop)]
    exact ⟨hn.clear, rfl⟩
  | monitor x y => exact hn.clear.monitorTurn rfl x y
  | app e => cases e <;> exact ⟨⟨hn.req, hn.monitor, hn.planning, hn.handoff⟩, rfl⟩
  | main reached =>
    rw [Threads.step, Threads.mainStep]
    split <;> (try split) <;> exact ⟨⟨hn.req, hn.monitor, hn.planning, hn.handoff⟩, rfl⟩

/-- The step with the first frame is one of the main thread, which leaves the monitor
alone. -/
theorem nothingLeft_of_leaves {t : Threads} {e : TEvent} (hpre : t.main.leftOp = false)
    (hpost : (t.step e).main.leftOp = true) (hn : NothingLeft t) : NothingLeft (t.step e) := by
  cases e with
  | tick x y =>
    rw [Threads.step] at hpost
    split at hpost
    · rw [(t.clear.rtTick_kept x y).main] at hpost
      exact absurd (hpre.symm.trans hpost) (by decide)
    · exact absurd (hpre.symm.trans hpost) (by decide)
  | monitor x y => exact (hn.clear.monitorTurn rfl x y).1
  | app e => exact absurd (hpre.symm.trans hpost) (by decide)
  | main reached =>
    rw [Threads.step, Threads.mainStep]
    split <;> (try split) <;> exact ⟨hn.req, hn.monitor, hn.planning, hn.handoff⟩

/-- **Shutdown and recovery.**  In every run in which the first frame of the shutdown is
sent with recovery off or with nothing left for the monitor, the monitor sends nothing
from then on: no recovery, no reconfiguration, no request of OP. -/
theorem monitor_silent (cfg : Config) (busCfg : BusCfg) (fixed : List (Handle × Nat))
    (recoverEnabled : Bool) (slavecount : Nat) (configadr : Nat → Nat) (diagEnabled : Bool)
    (ticksPerSnapshot : Nat) (es : List TEvent)
    (hquiet : Along Threads.step (.start (start cfg busCfg fixed recoverEnabled) slavecount
      configadr diagEnabled ticksPerSnapshot) es LeavesQuiet) :
    Along Threads.step (.start (start cfg busCfg fixed recoverEnabled) slavecount configadr
      diagEnabled ticksPerSnapshot) es MonitorSilent := by
  cases recoverEnabled with
  | false =>
    refine Along.of_invariant' (I := fun _ => Off) ⟨rfl, rfl, rfl, rfl⟩
      (fun _ t e hoff => (hoff.step e).1) ?_ es
    exact fun _ t e hoff _ => (hoff.step e).2
  | true =>
    refine Along.of_invariant
      (I := fun _ t => (∃ turn, InTurn turn t.toMaster) ∧
        (t.main.leftOp = true → NothingLeft t)) ?_ ?_ ?_ hquiet
    · exact ⟨⟨.rt, ⟨nofun, rfl, rfl⟩, rfl, Nat.two_pow_pos 32, rfl⟩, nofun⟩
    · rintro hist t e ⟨⟨turn, ht⟩, hleft⟩ hC
      obtain ⟨turn', -, ht'⟩ := turn_step ht e
      refine ⟨⟨turn', ht'⟩, fun hpost => ?_⟩
      cases hpre : t.main.leftOp with
      | true => exact ((hleft hpre).step hpre e).1
      | false =>
        have hon : t.recoverEnabled ≠ false := by rw [ht.enabled]; decide
        exact nothingLeft_of_leaves hpre hpost ((hC hpre hpost).resolve_left hon)
    · rintro hist t e ⟨-, hleft⟩ - hpre
      exact ((hleft hpre).step hpre e).2

/-- The slave is in OP, the read that says so is planned with, and then the loop ends. -/
theorem monitor_silent_oneSlave :
    Along Threads.step (oneSlave 1000)
      (seenAs 0x08 ++ [oneMonitor, .main false, .main false, oneMonitor, oneMonitor, .main true,
        .main true, oneMonitor, .main true, .main true]) MonitorSilent :=
  monitor_silent _ _ [] true 1 _ true 1000 _ (by decide +kernel)

/-- The loop ends in RECOVER, before the monitor has seen the request.  After the request
of SAFE-OP the monitor recovers the bus and requests OP. -/
theorem recovers_after_leaveOp :
    let es := [oneTick .wkcNoframe none 0, oneTick .wkcNoframe none 0, .main false, .main false]
    let t := run Threads.step (oneSlave 1000) es
    t.bus.state = .recover ∧ t.main.leftOp = true ∧ t.mainSent = [.requestSafeOp] ∧
      (run Threads.step t [oneMonitor, oneMonitor, oneMonitor]).monitorSent =
        [.scan, .processData, .requestOp] ∧
      ¬ Along Threads.step (oneSlave 1000) (es ++ [oneMonitor, oneMonitor, oneMonitor])
        MonitorSilent := by
  decide +kernel

end EcMaster.EcmRun
