import EcMaster.EcmRun.Threads
import EcMaster.Policy.BusRun

/-!
# The hand-over of the bus to the monitor

The RT thread asks for a recovery with `g_recover_req`, and the monitor answers with
`g_recover_ok` and `g_recover_done`.  In between the bus is the monitor's.

What that comes to is a protocol of four turns, `Turn`: the bus is the RT thread's,
the monitor has been asked, the monitor recovers, and it has answered.  Four marks
move it on: RT enters RECOVER, the monitor starts `recover_full` and finishes it with
a result, and RT leaves RECOVER with a result, which must be that of the monitor.

`Turn.Holds` says what the program's variables are in each turn.  Every step keeps it
(`turn_step`), so the marks of every run follow the protocol.  That the generation
counter may wrap does not matter: the two generations in play are neighbours.

The monitor does answer.  `rank` bounds the steps that it needs, which includes
what is left of a `recovery_step` that it was in when it was asked.
-/

namespace EcMaster.EcmRun

open EcMaster.Pdo EcMaster.Cia402 EcMaster.Policy EcMaster.Run

/-! ## The protocol -/

/-- What the threads do with the hand-over. -/
inductive Mark where
  | enter
  | start
  | finish (ok : Bool)
  | leave (ok : Bool)
deriving DecidableEq, Repr

/-- Whose turn it is. -/
inductive Turn where
  | rt
  | asked
  | running
  | answered (ok : Bool)
deriving DecidableEq, Repr

def Turn.next : Turn → Mark → Option Turn
  | .rt, .enter => some .asked
  | .asked, .start => some .running
  | .running, .finish ok => some (.answered ok)
  | .answered ok, .leave ok' => if ok' = ok then some .rt else none
  | _, _ => none

/-- The turn after a list of marks, if they follow the protocol. -/
def Turn.play : Turn → List Mark → Option Turn
  | turn, [] => some turn
  | turn, k :: ks => (turn.next k).bind fun turn' => turn'.play ks

theorem Turn.play_append (turn : Turn) (ks ks' : List Mark) :
    turn.play (ks ++ ks') = (turn.play ks).bind fun turn' => turn'.play ks' := by
  induction ks generalizing turn with
  | nil => rfl
  | cons k ks ih =>
    simp only [List.cons_append, Turn.play]
    cases turn.next k with
    | none => rfl
    | some turn' => exact ih turn'

/-- The monitor is in `recover_full`. -/
def Executing (m : Master) : Prop := m.monitor ≠ .idle

instance (m : Master) : Decidable (Executing m) := inferInstanceAs (Decidable (_ ≠ _))

/-- The result of `recover_full` in a step: whether it found a slave in OP. -/
def TEvent.anyOp : TEvent → Bool
  | .monitor x _ => x.anyOp
  | _ => false

/-- The mark of a step from `m` to `m'`, in which `recover_full` may have the result
`anyOp`. -/
def markOf (m m' : Master) (anyOp : Bool) : Option Mark :=
  if m.bus.state ≠ .recover ∧ m'.bus.state = .recover then some .enter
  else if m.bus.state = .recover ∧ m'.bus.state ≠ .recover then
    some (.leave (m'.bus.state = .run))
  else if ¬ Executing m ∧ Executing m' then some .start
  else if Executing m ∧ ¬ Executing m' then some (.finish anyOp)
  else none

def mark (r : Rec Threads TEvent) : Option Mark :=
  markOf r.pre.toMaster r.post.toMaster r.ev.anyOp

/-- The marks of a history. -/
def marks (hist : List (Rec Threads TEvent)) : List Mark := hist.filterMap mark

/-! ## The turns in the program's variables -/

/-- `recover_full` for a generation. -/
def Monitor.answers (req : Nat) (m : Monitor) : Prop :=
  m = .scan req ∨ m = .keepalive req ∨ m = .finish req

/-- The variables of the hand-over in a turn. -/
def Turn.Holds (m : Master) : Turn → Prop
  | .rt => m.bus.state ≠ .recover ∧ m.monitor = .idle ∧ m.recoverDone = m.recoverGen
  | .asked => m.bus.state = .recover ∧ m.monitor = .idle ∧ m.recoverDone ≠ m.recoverGen
  | .running =>
      m.bus.state = .recover ∧ m.monitor.answers m.recoverGen ∧ m.recoverDone ≠ m.recoverGen
  | .answered ok =>
      m.bus.state = .recover ∧ m.monitor = .idle ∧ m.recoverDone = m.recoverGen ∧
        m.recoverOk = ok

/-- The hand-over is in a turn, with what holds in each of them. -/
structure InTurn (turn : Turn) (m : Master) : Prop where
  holds : turn.Holds m
  req : m.recoverReq = m.recoverGen
  gen : m.recoverGen < 2 ^ 32
  enabled : m.recoverEnabled = true

theorem Turn.Holds.recover {m : Master} {turn : Turn} (hm : turn.Holds m)
    (hex : Executing m) : m.bus.state = .recover := by
  cases turn with
  | rt => exact absurd hm.2.1 hex
  | asked => exact hm.1
  | running => exact hm.1
  | answered ok => exact hm.1

/-! ## A round of the main loop -/

/-- What a round of the main loop does to the hand-over. -/
inductive TickMove (m m' : Master) : Prop where
  | cyclic (hpre : m.bus.state ≠ .recover) (hpost : m'.bus.state ≠ .recover)
      (hgen : m'.recoverGen = m.recoverGen) (hreq : m'.recoverReq = m.recoverReq)
  | enters (hpre : m.bus.state ≠ .recover) (hpost : m'.bus.state = .recover)
      (hgen : m'.recoverGen = (m.recoverGen + 1) % 2 ^ 32)
      (hreq : m'.recoverReq = m'.recoverGen)
  | waits (hpre : m.bus.state = .recover) (hpost : m'.bus.state = .recover)
      (hdone : m.recoverDone ≠ m.recoverGen)
      (hgen : m'.recoverGen = m.recoverGen) (hreq : m'.recoverReq = m.recoverReq)
  | leaves (hpre : m.bus.state = .recover) (hdone : m.recoverDone = m.recoverGen)
      (hpost : m'.bus.state = if m.recoverOk then .run else .lost)
      (hgen : m'.recoverGen = m.recoverGen) (hreq : m'.recoverReq = m.recoverReq)

/-- What a round of the main loop leaves to the monitor. -/
structure MonitorKept (m m' : Master) : Prop where
  monitor : m'.monitor = m.monitor
  done : m'.recoverDone = m.recoverDone
  ok : m'.recoverOk = m.recoverOk
  enabled : m'.recoverEnabled = m.recoverEnabled

theorem rtTick_kept (x : TickIn) (m : Master) : MonitorKept m (rtTick x m) := by
  unfold rtTick rtBus busTurn
  dsimp only
  split <;> (try split_ifs) <;> exact ⟨rfl, rfl, rfl, rfl⟩

theorem onCycle_ne_recover {f : BusFsm} (hcyclic : f.state.cyclic) (tick : Nat)
    (motionClass : WkcClass) (ioClass : Option WkcClass) :
    (ecmBusOnCycle f tick motionClass ioClass).1.state ≠ .recover := by
  have hdone := (ecmBusOnCycle_spec hcyclic tick motionClass ioClass).state
  rw [BusFsm.step, BusFsm.call] at hdone
  rw [hdone, BusFsm.cycled]
  split_ifs <;> decide

theorem rtTick_move (x : TickIn) (m : Master) : TickMove m (rtTick x m) := by
  have hround : TickMove m (rtBus x m).1 := by
    unfold rtBus busTurn
    dsimp only
    have hsame : (ecmBusTick m.bus).state = m.bus.state := rfl
    cases hstate : m.bus.state with
    | run | degraded =>
      rw [hsame, hstate]
      refine .cyclic (by simp [hstate]) (onCycle_ne_recover ?_ _ _ _) rfl rfl
      simp [hsame, hstate, BusState.cyclic]
    | lost =>
      rw [hsame, hstate]
      dsimp only
      split
      · rw [ecmBusOnProbe, if_neg (by simp [hsame, hstate])]
        split
        · exact .enters (by simp [hstate]) rfl rfl rfl
        · exact .cyclic (by simp [hstate]) (by simp [hsame, hstate]) rfl rfl
      · exact .cyclic (by simp [hstate]) (by simp [hsame, hstate]) rfl rfl
    | recover =>
      rw [hsame, hstate]
      dsimp only
      split
      · rename_i hdone
        refine .leaves hstate hdone ?_ rfl rfl
        rw [ecmBusOnRecoverDone, if_neg (by simp [hsame, hstate])]
        cases m.recoverOk <;> rfl
      · rename_i hdone
        exact .waits hstate (hsame.trans hstate) hdone rfl rfl
  cases hround with
  | cyclic hpre hpost hgen hreq => exact .cyclic hpre hpost hgen hreq
  | enters hpre hpost hgen hreq => exact .enters hpre hpost hgen hreq
  | waits hpre hpost hdone hgen hreq => exact .waits hpre hpost hdone hgen hreq
  | leaves hpre hdone hpost hgen hreq => exact .leaves hpre hdone hpost hgen hreq

/-- Nothing that concerns the hand-over has happened. -/
theorem markOf_same {m m' : Master} (anyOp : Bool)
    (hbus : m'.bus.state = .recover ↔ m.bus.state = .recover)
    (hex : Executing m' ↔ Executing m) : markOf m m' anyOp = none := by
  simp [markOf, hbus, hex]

/-- The hand-over moves on with the mark of a round. -/
theorem turn_tick {turn : Turn} {m : Master} (ht : InTurn turn m) (x : TickIn) (anyOp : Bool) :
    ∃ turn', turn.play (markOf m (rtTick x m) anyOp).toList = some turn' ∧
      InTurn turn' (rtTick x m) := by
  have hkept := rtTick_kept x m
  have hmove := rtTick_move x m
  generalize rtTick x m = m' at hkept hmove ⊢
  obtain ⟨hmon, hdone', hok, hen⟩ := hkept
  have hen' : m'.recoverEnabled = true := hen.trans ht.enabled
  have hex : Executing m' ↔ Executing m := by rw [Executing, Executing, hmon]
  cases hmove with
  | cyclic hpre hpost hgen hreq =>
    have hmark := markOf_same anyOp (iff_of_false hpost hpre) hex
    cases turn with
    | rt =>
      refine ⟨.rt, by rw [hmark]; rfl, ⟨hpost, ?_, ?_⟩, ?_, ?_, hen'⟩
      · rw [hmon]; exact ht.holds.2.1
      · rw [hdone', hgen]; exact ht.holds.2.2
      · rw [hreq, hgen]; exact ht.req
      · rw [hgen]; exact ht.gen
    | asked => exact absurd ht.holds.1 hpre
    | running => exact absurd ht.holds.1 hpre
    | answered ok => exact absurd ht.holds.1 hpre
  | enters hpre hpost hgen hreq =>
    have hmark : markOf m m' anyOp = some .enter := if_pos ⟨hpre, hpost⟩
    cases turn with
    | rt =>
      refine ⟨.asked, by rw [hmark]; rfl, ⟨hpost, ?_, ?_⟩, hreq, ?_, hen'⟩
      · rw [hmon]; exact ht.holds.2.1
      · -- The next generation is another one, also when the counter wraps.
        rw [hdone', hgen, ht.holds.2.2]
        have := ht.gen
        omega
      · rw [hgen]; exact Nat.mod_lt _ (by decide)
    | asked => exact absurd ht.holds.1 hpre
    | running => exact absurd ht.holds.1 hpre
    | answered ok => exact absurd ht.holds.1 hpre
  | waits hpre hpost hdone hgen hreq =>
    have hmark := markOf_same anyOp (iff_of_true hpost hpre) hex
    cases turn with
    | rt => exact absurd hpre ht.holds.1
    | asked =>
      refine ⟨.asked, by rw [hmark]; rfl, ⟨hpost, ?_, ?_⟩, ?_, ?_, hen'⟩
      · rw [hmon]; exact ht.holds.2.1
      · rwa [hdone', hgen]
      · rw [hreq, hgen]; exact ht.req
      · rw [hgen]; exact ht.gen
    | running =>
      refine ⟨.running, by rw [hmark]; rfl, ⟨hpost, ?_, ?_⟩, ?_, ?_, hen'⟩
      · rw [hmon, hgen]; exact ht.holds.2.1
      · rwa [hdone', hgen]
      · rw [hreq, hgen]; exact ht.req
      · rw [hgen]; exact ht.gen
    | answered ok => exact absurd ht.holds.2.2.1 hdone
  | leaves hpre hdone hpost hgen hreq =>
    have hne : m'.bus.state ≠ .recover := by rw [hpost]; split <;> decide
    have hmark : markOf m m' anyOp = some (.leave m.recoverOk) := by
      rw [markOf, if_neg (fun h => hne h.2), if_pos ⟨hpre, hne⟩, hpost]
      cases m.recoverOk <;> rfl
    cases turn with
    | rt => exact absurd hpre ht.holds.1
    | asked => exact absurd hdone ht.holds.2.2
    | running => exact absurd hdone ht.holds.2.2
    | answered ok =>
      obtain ⟨-, hidle, -, rfl⟩ := ht.holds
      refine ⟨.rt, by rw [hmark]; simp [Turn.play, Turn.next], ⟨hne, ?_, ?_⟩, ?_, ?_, hen'⟩
      · rw [hmon]; exact hidle
      · rw [hdone', hgen]; exact hdone
      · rw [hreq, hgen]; exact ht.req
      · rw [hgen]; exact ht.gen

/-! ## A step of the monitor -/

/-- The hand-over moves on with the mark of a step of `recover_full`. -/
theorem turn_monitor {turn : Turn} {m : Master} (ht : InTurn turn m) (x : MonitorIn)
    (hwork : m.monitor ≠ .idle ∨ m.recoverReq ≠ m.recoverDone) :
    ∃ turn', turn.play (markOf m (monitorStep x m) x.anyOp).toList = some turn' ∧
      InTurn turn' (monitorStep x m) := by
  obtain ⟨hholds, hreq, hgen, hen⟩ := ht
  cases turn with
  | rt =>
    rcases hwork with hwork | hwork
    · exact absurd hholds.2.1 hwork
    · exact absurd (hreq.trans hholds.2.2.symm) hwork
  | answered ok =>
    rcases hwork with hwork | hwork
    · exact absurd hholds.2.1 hwork
    · exact absurd (hreq.trans hholds.2.2.1.symm) hwork
  | asked =>
    obtain ⟨hbus, hidle, hdone⟩ := hholds
    have hstep : monitorStep x m = { m with sent := [], monitor := .scan m.recoverReq } := by
      have hne : ¬ m.recoverReq = m.recoverDone := fun h => hdone (h.symm.trans hreq)
      simp [monitorStep, hidle, hne, hen]
    rw [hstep]
    refine ⟨.running, ?_, ⟨hbus, .inl (by rw [hreq]), hdone⟩, hreq, hgen, hen⟩
    simp [markOf, hbus, Executing, hidle, Turn.play, Turn.next]
  | running =>
    obtain ⟨hbus, hmon, hdone⟩ := hholds
    rcases hmon with hmon | hmon | hmon
    · simp only [monitorStep, hmon, pdExchangeAll]
      refine ⟨.running, ?_, ⟨hbus, .inr (.inl rfl), hdone⟩, hreq, hgen, hen⟩
      simp [markOf, hbus, Executing, hmon, Turn.play]
    · simp only [monitorStep, hmon, pdExchangeAll]
      split
      · refine ⟨.running, ?_, ⟨hbus, .inr (.inr rfl), hdone⟩, hreq, hgen, hen⟩
        simp [markOf, hbus, Executing, hmon, Turn.play]
      · refine ⟨.running, ?_, ⟨hbus, .inr (.inl rfl), hdone⟩, hreq, hgen, hen⟩
        simp [markOf, hbus, Executing, hmon, Turn.play]
    · simp only [monitorStep, hmon]
      refine ⟨.answered x.anyOp, ?_, ⟨hbus, rfl, rfl, rfl⟩, hreq, hgen, hen⟩
      simp [markOf, hbus, Executing, hmon, Turn.play, Turn.next]

/-! ## A step of the threads -/

/-- Two masters with the same hand-over. -/
structure HandKept (m m' : Master) : Prop extends MonitorKept m m' where
  bus : m'.bus = m.bus
  gen : m'.recoverGen = m.recoverGen
  req : m'.recoverReq = m.recoverReq

theorem HandKept.turn {turn : Turn} {m m' : Master} (hkept : HandKept m m')
    (ht : InTurn turn m) (anyOp : Bool) :
    ∃ turn', turn.play (markOf m m' anyOp).toList = some turn' ∧ InTurn turn' m' := by
  obtain ⟨⟨hmon, hdone, hok, hen⟩, hbus, hgen, hreq⟩ := hkept
  have hmark : markOf m m' anyOp = none :=
    markOf_same anyOp (by rw [hbus]) (by rw [Executing, Executing, hmon])
  refine ⟨turn, by rw [hmark]; rfl, ?_, ?_, ?_, ?_⟩
  · have hholds := ht.holds
    cases turn <;> simpa only [Turn.Holds, hbus, hmon, hdone, hgen, hok] using hholds
  · rw [hreq, hgen]; exact ht.req
  · rw [hgen]; exact ht.gen
  · rw [hen]; exact ht.enabled

theorem handKept_silent (m : Master) : HandKept m { m with sent := [] } :=
  ⟨⟨rfl, rfl, rfl, rfl⟩, rfl, rfl, rfl⟩

/-- The hand-over moves on with the mark of a step. -/
theorem turn_step {turn : Turn} {t : Threads} (ht : InTurn turn t.toMaster) (e : TEvent) :
    ∃ turn', turn.play (mark ⟨t, e, t.step e⟩).toList = some turn' ∧
      InTurn turn' (t.step e).toMaster := by
  have hkept := (handKept_silent t.toMaster).turn ht e.anyOp
  unfold mark
  cases e with
  | tick x y =>
    rw [Threads.step]
    by_cases hloop : t.main = .loop
    · rw [if_pos (by exact hloop)]
      exact turn_tick ht x false
    · rw [if_neg (by exact hloop)]
      exact hkept
  | monitor x y =>
    have hmove := t.clear.monitorTurn_move x y
    rw [Threads.step]
    generalize t.clear.monitorTurn x y = t' at hmove ⊢
    cases hmove with
    | exited => exact hkept
    | plan => rw [(t.clear.recoveryStep_kept y).master]; exact hkept
    | recover hexited hplan hwork =>
      rw [t.clear.recoverFull_master]
      exact turn_monitor ht x (hwork.imp_right And.right)
    | wake => rw [t.clear.wake_kept.master]; exact hkept
    | iterate => rw [t.clear.diagIteration_kept.master]; exact hkept
  | app e =>
    have happ : HandKept t.toMaster (appStep e t.clear.toMaster) := by
      cases e <;> exact ⟨⟨rfl, rfl, rfl, rfl⟩, rfl, rfl, rfl⟩
    exact happ.turn ht false
  | main reached =>
    have hmain : (t.clear.mainStep reached).toMaster = t.clear.toMaster := by
      unfold Threads.mainStep
      split <;> (try split) <;> rfl
    rw [Threads.step, hmain]
    exact hkept

/-- In RECOVER the RT thread sends nothing. -/
theorem silent_in_recover {t : Threads} (hbus : t.bus.state = .recover) (e : TEvent) :
    ∀ f ∈ (t.step e).mainSent, f.shutdown = true := by
  cases e with
  | tick x y =>
    rw [Threads.step]
    split
    · rw [Threads.rtTick, Threads.busTurn_recover (by exact hbus)]
      simp
    · simp [Threads.clear]
  | monitor x y =>
    rw [Threads.step, (t.clear.monitorTurn_kept x y).mainSent]
    simp [Threads.clear]
  | app e => simp [Threads.step, Threads.clear]
  | main reached =>
    rw [Threads.step, Threads.mainStep]
    split <;> (try split) <;> simp [Threads.clear, MainFrame.shutdown]

/-! ## The monitor answers -/

/-- How many slaves the planner looks at. -/
def Threads.slaves (t : Threads) : Nat := min t.slavecount srecMaxSlaves

/-- What the answer depends on besides the hand-over: the published state, that the
monitor is not told to stop in the loop, and where it is in `recovery_step`. -/
structure Alive (t : Threads) : Prop where
  pub : t.busStatePub = t.bus.state
  stop : t.main = .loop → t.monitorStop = false
  exit : t.exited = true → t.monitorStop = true
  srecN : t.srec.n = t.slaves
  path : ∀ i nowNs, t.planning = .pathB i nowNs → i < t.slaves
  idle : t.planning ≠ .none → t.monitor = .idle

theorem configFailed_n (p : SrecPlan) (i : Nat) : (configFailed p i).n = p.n := by
  unfold configFailed
  split <;> rfl

theorem foldl_configFailed_n (l : List Nat) (p : SrecPlan) :
    (l.foldl configFailed p).n = p.n := by
  induction l generalizing p with
  | nil => rfl
  | cons i l ih => rw [List.foldl_cons, ih, configFailed_n]

theorem Alive.clear {t : Threads} (ha : Alive t) : Alive t.clear :=
  ⟨ha.pub, ha.stop, ha.exit, ha.srecN, ha.path, ha.idle⟩

theorem Alive.tick {t : Threads} (ha : Alive t) (x : TickIn) (y : RtIn) :
    Alive (t.rtTick x y) := by
  obtain ⟨⟨hcount, -, hexited, hplan, -, hsrec⟩, hmain, hstop, -⟩ := t.rtTick_kept x y
  have hslaves : (t.rtTick x y).slaves = t.slaves := by rw [Threads.slaves, hcount, Threads.slaves]
  refine ⟨rfl, ?_, ?_, ?_, ?_, ?_⟩
  · rw [hmain, hstop]
    exact ha.stop
  · rw [hexited, hstop]
    exact ha.exit
  · rw [hsrec, hslaves]
    exact ha.srecN
  · rw [hplan, hslaves]
    exact ha.path
  · rw [hplan]
    intro hne
    exact (rtTick_kept x t.toMaster).monitor.trans (ha.idle hne)

theorem Alive.plan {t : Threads} (ha : Alive t) (y : PlanIn) : Alive (t.recoveryStep y) := by
  have hkept := t.recoveryStep_kept y
  have hpub : (t.recoveryStep y).busStatePub = (t.recoveryStep y).bus.state := by
    rw [hkept.busStatePub, hkept.master]
    exact ha.pub
  have hstop : (t.recoveryStep y).main = .loop → (t.recoveryStep y).monitorStop = false := by
    rw [hkept.main, hkept.monitorStop]
    exact ha.stop
  unfold Threads.recoveryStep at hpub hstop ⊢
  cases hplan : t.planning with
  | none => exact ha
  | check =>
    rw [hplan] at hpub hstop
    refine ⟨hpub, hstop, ha.exit, ha.srecN, ?_, fun _ => ha.idle (by simp [hplan])⟩
    intro i nowNs hpath
    dsimp only at hpath
    split at hpath <;> cases hpath
  | slave i nowNs =>
    have hidle : t.monitor = .idle := ha.idle (by simp [hplan])
    rw [hplan] at hpub hstop
    dsimp only at hpub hstop ⊢
    have hmove := t.planSlave_move i nowNs
    generalize t.planSlave i nowNs = t' at hmove hpub hstop ⊢
    cases hmove with
    | ended => exact ⟨hpub, hstop, ha.exit, ha.srecN, nofun, fun _ => hidle⟩
    | next srec hn hi => exact ⟨hpub, hstop, ha.exit, hn.trans ha.srecN, nofun, fun _ => hidle⟩
    | push srec hn hi value =>
      exact ⟨hpub, hstop, ha.exit, hn.trans ha.srecN, nofun, fun _ => hidle⟩
    | pathB srec hn hi =>
      refine ⟨hpub, hstop, ha.exit, hn.trans ha.srecN, ?_, fun _ => hidle⟩
      intro j nowNs' hpath
      cases hpath
      exact ha.srecN ▸ hi
  | pathB i nowNs =>
    have hidle : t.monitor = .idle := ha.idle (by simp [hplan])
    rw [hplan] at hpub hstop
    dsimp only at hpub hstop ⊢
    split
    · refine ⟨ha.pub, ha.stop, ha.exit, ?_, nofun, fun _ => hidle⟩
      dsimp only
      split
      · exact (configFailed_n _ _).trans ha.srecN
      · exact ha.srecN
    · exact ⟨ha.pub, ha.stop, ha.exit, ha.srecN, hplan ▸ ha.path, fun _ => hidle⟩

theorem Alive.monitor {t : Threads} (ha : Alive t) (x : MonitorIn) (y : PlanIn) :
    Alive (t.monitorTurn x y) := by
  have hmove := t.monitorTurn_move x y
  generalize t.monitorTurn x y = t' at hmove ⊢
  cases hmove with
  | exited => exact ha
  | plan => exact ha.plan y
  | recover hexited hplan hwork =>
    have hbus : (monitorStep x t.toMaster).bus = t.bus := by
      unfold monitorStep
      dsimp only
      split <;> (try split_ifs) <;> rfl
    have hpub : t.busStatePub = (monitorStep x t.toMaster).bus.state := by
      rw [hbus]
      exact ha.pub
    unfold Threads.recoverFull
    cases t.monitor with
    | idle => exact ⟨hpub, ha.stop, ha.exit, ha.srecN, ha.path, fun h => absurd hplan h⟩
    | scan req =>
      exact ⟨hpub, ha.stop, ha.exit, (foldl_configFailed_n _ _).trans ha.srecN, ha.path,
        fun h => absurd hplan h⟩
    | keepalive req => exact ⟨hpub, ha.stop, ha.exit, ha.srecN, ha.path, fun h => absurd hplan h⟩
    | finish req => exact ⟨hpub, ha.stop, ha.exit, ha.srecN, ha.path, fun h => absurd hplan h⟩
  | wake hexited hplan hidle hawake =>
    unfold Threads.wake
    split
    · rename_i hstop
      exact ⟨ha.pub, ha.stop, fun _ => hstop, ha.srecN, ha.path, ha.idle⟩
    · exact ⟨ha.pub, ha.stop, ha.exit, ha.srecN, ha.path, ha.idle⟩
  | iterate hexited hplan hidle hawake hreq =>
    unfold Threads.diagIteration
    dsimp only
    split
    · refine ⟨ha.pub, ha.stop, ha.exit, ha.srecN, ?_, fun _ => hidle⟩
      intro i nowNs hpath
      dsimp only at hpath
      split at hpath <;> cases hpath
    · exact ⟨ha.pub, ha.stop, ha.exit, ha.srecN, ha.path, ha.idle⟩

theorem Alive.main {t : Threads} (ha : Alive t) (reached : Bool) : Alive (t.mainStep reached) := by
  obtain ⟨hpub, hstop, hexit, hn, hpath, hidle⟩ := ha
  unfold Threads.mainStep
  split
  · exact ⟨hpub, nofun, hexit, hn, hpath, hidle⟩
  · exact ⟨hpub, nofun, hexit, hn, hpath, hidle⟩
  · refine ⟨hpub, ?_, hexit, hn, hpath, hidle⟩
    dsimp only
    split <;> exact nofun
  · exact ⟨hpub, nofun, fun _ => rfl, hn, hpath, hidle⟩
  · split
    · exact ⟨hpub, nofun, hexit, hn, hpath, hidle⟩
    · exact ⟨hpub, hstop, hexit, hn, hpath, hidle⟩
  · exact ⟨hpub, nofun, hexit, hn, hpath, hidle⟩
  · exact ⟨hpub, hstop, hexit, hn, hpath, hidle⟩

theorem Alive.step {t : Threads} (ha : Alive t) (e : TEvent) : Alive (t.step e) := by
  have hclear := ha.clear
  cases e with
  | tick x y =>
    rw [Threads.step]
    split
    · exact hclear.tick x y
    · exact hclear
  | monitor x y => exact hclear.monitor x y
  | app e =>
    obtain ⟨hpub, hstop, hexit, hn, hpath, hidle⟩ := hclear
    cases e <;> exact ⟨hpub, hstop, hexit, hn, hpath, hidle⟩
  | main reached => exact hclear.main reached

/-- How many steps a monitor that is not in `recovery_step` needs at most to answer. -/
def Monitor.rank (awake : Bool) : Monitor → Nat
  | .idle => if awake then 4 else 5
  | .scan _ => 3
  | .keepalive _ => 2
  | .finish _ => 1

/-- How many steps the monitor needs at most to answer. -/
def Threads.rank (t : Threads) : Nat :=
  if t.recoverDone = t.recoverGen then 0
  else
    match t.planning with
    | .slave i _ => 6 + 2 * (t.slaves + 1 - i)
    | .pathB i _ => 5 + 2 * (t.slaves + 1 - i)
    | .check => 6
    | .none => t.monitor.rank t.awake

theorem Monitor.rank_le (awake : Bool) (m : Monitor) : m.rank awake ≤ 5 := by
  unfold Monitor.rank
  split <;> (try split) <;> omega

theorem Threads.rank_slave {t : Threads} {i nowNs : Nat} (hasked : t.recoverDone ≠ t.recoverGen)
    (hplan : t.planning = .slave i nowNs) : t.rank = 6 + 2 * (t.slaves + 1 - i) := by
  rw [Threads.rank, if_neg hasked, hplan]

theorem Threads.rank_pathB {t : Threads} {i nowNs : Nat} (hasked : t.recoverDone ≠ t.recoverGen)
    (hplan : t.planning = .pathB i nowNs) : t.rank = 5 + 2 * (t.slaves + 1 - i) := by
  rw [Threads.rank, if_neg hasked, hplan]

theorem Threads.rank_none {t : Threads} (hasked : t.recoverDone ≠ t.recoverGen)
    (hplan : t.planning = .none) : t.rank = t.monitor.rank t.awake := by
  rw [Threads.rank, if_neg hasked, hplan]

theorem Threads.rank_done {t : Threads} (hdone : t.recoverDone = t.recoverGen) : t.rank = 0 :=
  if_pos hdone

theorem Threads.rank_le (t : Threads) : t.rank ≤ 2 * t.slaves + 8 := by
  by_cases hdone : t.recoverDone = t.recoverGen
  · rw [t.rank_done hdone]
    omega
  cases hplan : t.planning with
  | slave i nowNs =>
    rw [t.rank_slave hdone hplan]
    omega
  | pathB i nowNs =>
    rw [t.rank_pathB hdone hplan]
    omega
  | check =>
    have hrank : t.rank = 6 := by rw [Threads.rank, if_neg hdone, hplan]
    omega
  | none =>
    rw [t.rank_none hdone hplan]
    have := t.monitor.rank_le t.awake
    omega

/-- A step of the monitor in which what it waits for has come: the slaves are in OP or
the time for that is over, and a reconfiguration has returned. -/
def TEvent.returning : TEvent → Bool
  | .monitor x y => (x.allOp || x.timedOut) && y.pathDone
  | _ => false

/-- The main thread is in the loop. -/
def TEvent.inLoop : TEvent → Bool
  | .main _ => false
  | _ => true

/-- A step of the monitor that has been asked brings it closer to its answer. -/
theorem rank_monitor {t : Threads} (ha : Alive t) {turn : Turn} (ht : InTurn turn t.toMaster)
    (hbus : t.bus.state = .recover) (hloop : t.main = .loop)
    (hasked : t.recoverDone ≠ t.recoverGen) (x : MonitorIn) (y : PlanIn) :
    (t.monitorTurn x y).rank ≤ t.rank - ((x.allOp || x.timedOut) && y.pathDone).toNat := by
  have hreq : t.recoverReq ≠ t.recoverDone := fun h => hasked (h.symm.trans ht.req)
  have hmove := t.monitorTurn_move x y
  generalize t.monitorTurn x y = t' at hmove ⊢
  have hnat : ((x.allOp || x.timedOut) && y.pathDone).toNat ≤ 1 := Bool.toNat_le _
  cases hmove with
  | exited hexited => exact absurd (ha.exit hexited) (by simp [ha.stop hloop])
  | iterate hexited hplan hidle hawake hdone => exact absurd hdone hreq
  | wake hexited hplan hidle hawake =>
    have hrank : t.rank = 5 := by rw [t.rank_none hasked hplan, hidle, hawake]; rfl
    have hwake : t.wake = { t with awake := true } := by simp [Threads.wake, ha.stop hloop]
    have hrank' : t.wake.rank = Monitor.rank true .idle := by
      rw [hwake, ← hidle]
      exact Threads.rank_none (by exact hasked) hplan
    simp only [Monitor.rank, if_true] at hrank'
    omega
  | plan hexited hplan =>
    have hover : ({ t with planning := .none } : Threads).rank ≤ 5 := by
      refine le_of_eq_of_le (Threads.rank_none (by exact hasked) (by rfl)) ?_
      exact Monitor.rank_le _ _
    cases hwhere : t.planning with
    | none => exact absurd hwhere hplan
    | check =>
      have hrank : t.rank = 6 := by rw [Threads.rank, if_neg hasked, hwhere]
      have hstep : t.recoveryStep y = { t with planning := .none } := by
        simp [Threads.recoveryStep, hwhere, ha.pub, hbus, BusState.cyclic]
      rw [hstep]
      omega
    | slave i nowNs =>
      have hrank := t.rank_slave hasked hwhere
      have hrank' : (t.planSlave i nowNs).rank < t.rank := by
        have hmove := t.planSlave_move i nowNs
        generalize t.planSlave i nowNs = t' at hmove ⊢
        cases hmove with
        | ended => omega
        | next srec hn hi | push srec hn hi value =>
          have hlt : i < t.slaves := ha.srecN ▸ hi
          refine lt_of_eq_of_lt (Threads.rank_slave (by exact hasked) (by rfl)) ?_
          show 6 + 2 * (t.slaves + 1 - (i + 1)) < _
          omega
        | pathB srec hn hi =>
          refine lt_of_eq_of_lt (Threads.rank_pathB (by exact hasked) (by rfl)) ?_
          show 5 + 2 * (t.slaves + 1 - i) < _
          omega
      rw [Threads.recoveryStep, hwhere]
      dsimp only
      omega
    | pathB i nowNs =>
      have hlt := ha.path i nowNs hwhere
      have hrank := t.rank_pathB hasked hwhere
      rw [Threads.recoveryStep, hwhere]
      dsimp only
      cases hdone : y.pathDone with
      | true =>
        rw [if_pos rfl]
        refine le_of_eq_of_le (Threads.rank_slave (by exact hasked) (by rfl)) ?_
        show 6 + 2 * (t.slaves + 1 - (i + 1)) ≤ _
        rw [hdone] at hnat
        omega
      | false =>
        rw [if_neg (by simp)]
        refine le_of_eq_of_le (Threads.rank_pathB (by exact hasked) (by rfl)) ?_
        show 5 + 2 * (t.slaves + 1 - i) ≤ _
        simp [hrank]
  | recover hexited hplan hwork =>
    have hrank := t.rank_none hasked hplan
    have hplan' : (t.recoverFull x y).planning = .none := by
      rw [← hplan]
      unfold Threads.recoverFull
      cases t.monitor <;> rfl
    have hmaster := t.recoverFull_master x y
    have hdone' : (t.recoverFull x y).recoverDone = (monitorStep x t.toMaster).recoverDone :=
      congrArg Master.recoverDone hmaster
    have hgen' : (t.recoverFull x y).recoverGen = (monitorStep x t.toMaster).recoverGen :=
      congrArg Master.recoverGen hmaster
    have hmon' : (t.recoverFull x y).monitor = (monitorStep x t.toMaster).monitor :=
      congrArg Master.monitor hmaster
    cases turn with
    | rt => exact absurd hbus ht.holds.1
    | answered ok => exact absurd ht.holds.2.2.1 hasked
    | asked =>
      have hidle := ht.holds.2.1
      have hawake : t.awake = true := (hwork.resolve_left (not_not_intro hidle)).1
      simp only [monitorStep, hidle, if_neg hreq, ht.enabled, if_true] at hdone' hgen' hmon'
      rw [Threads.rank_none (by rw [hdone', hgen']; exact hasked) hplan', hmon', hrank, hidle,
        hawake]
      simp only [Monitor.rank, if_true]
      omega
    | running =>
      rcases ht.holds.2.1 with hmon | hmon | hmon
      · simp only [monitorStep, hmon, pdExchangeAll] at hdone' hgen' hmon'
        rw [Threads.rank_none (by rw [hdone', hgen']; exact hasked) hplan', hmon', hrank, hmon]
        simp only [Monitor.rank]
        omega
      · simp only [monitorStep, hmon, pdExchangeAll] at hdone' hgen' hmon'
        cases hop : x.allOp || x.timedOut with
        | true =>
          simp only [hop, if_true] at hdone' hgen' hmon'
          rw [Threads.rank_none (by rw [hdone', hgen']; exact hasked) hplan', hmon', hrank, hmon]
          simp only [Monitor.rank]
          rw [hop] at hnat
          omega
        | false =>
          simp only [hop, Bool.false_eq_true, if_false] at hdone' hgen' hmon'
          rw [Threads.rank_none (by rw [hdone', hgen']; exact hasked) hplan', hmon', hrank, hmon]
          simp [Monitor.rank]
      · simp only [monitorStep, hmon] at hdone' hgen'
        rw [Threads.rank_done (by rw [hdone', hgen'])]
        exact Nat.zero_le _

/-- A monitor that has answered has nothing to do with the hand-over. -/
theorem monitorTurn_answered {t : Threads} {turn : Turn} (ht : InTurn turn t.toMaster)
    (hbus : t.bus.state = .recover) (hdone : t.recoverDone = t.recoverGen) (x : MonitorIn)
    (y : PlanIn) : (t.monitorTurn x y).toMaster = t.toMaster := by
  have hidle : t.monitor = .idle := by
    cases turn with
    | rt => exact absurd hbus ht.holds.1
    | asked => exact absurd hdone ht.holds.2.2
    | running => exact absurd hdone ht.holds.2.2
    | answered ok => exact ht.holds.2.1
  have hmove := t.monitorTurn_move x y
  generalize t.monitorTurn x y = t' at hmove ⊢
  cases hmove with
  | exited => rfl
  | plan => exact (t.recoveryStep_kept y).master
  | recover hexited hplan hwork =>
    rcases hwork with hwork | ⟨-, hwork⟩
    · exact absurd hidle hwork
    · exact absurd (ht.req.trans hdone.symm) hwork
  | wake => exact t.wake_kept.master
  | iterate => exact t.diagIteration_kept.master

/-- While the RT thread waits, no step takes the monitor away from its answer. -/
theorem rank_step {t : Threads} (ha : Alive t) {turn : Turn} (ht : InTurn turn t.toMaster)
    (hbus : t.bus.state = .recover) (hloop : t.main = .loop) {e : TEvent} (he : e.inLoop = true)
    (hpost : (t.step e).bus.state = .recover) :
    (t.step e).rank ≤ t.rank - e.returning.toNat := by
  cases e with
  | main reached => cases he
  | app e => cases e <;> exact Nat.le_refl _
  | monitor x y =>
    by_cases hdone : t.recoverDone = t.recoverGen
    · have hmaster : (t.step (.monitor x y)).toMaster = t.clear.toMaster :=
        monitorTurn_answered (t := t.clear) ⟨ht.holds, ht.req, ht.gen, ht.enabled⟩ hbus hdone x y
      rw [Threads.rank_done (by rw [hmaster]; exact hdone)]
      exact Nat.zero_le _
    · exact rank_monitor ha.clear ⟨ht.holds, ht.req, ht.gen, ht.enabled⟩ hbus hloop hdone x y
  | tick x y =>
    have hstep : t.step (.tick x y) = t.clear.rtTick x y := if_pos hloop
    rw [hstep] at hpost ⊢
    have hkept := t.clear.rtTick_kept x y
    have hmon := rtTick_kept x t.clear.toMaster
    have hmove := rtTick_move x t.clear.toMaster
    have hpost : (rtTick x t.clear.toMaster).bus.state = .recover := hpost
    cases hmove with
    | cyclic hpre => exact absurd hbus hpre
    | enters hpre => exact absurd hbus hpre
    | leaves hpre hdone hleft =>
      rw [hpost] at hleft
      split at hleft <;> cases hleft
    | waits hpre hstay hdone hgen hreq =>
      refine Nat.le_of_eq ?_
      have hslaves : (t.clear.rtTick x y).slaves = t.slaves := by
        rw [Threads.slaves, hkept.slavecount]
        rfl
      have hmonitor : (t.clear.rtTick x y).monitor = t.monitor := hmon.monitor
      have hdone' : (t.clear.rtTick x y).recoverDone = t.recoverDone := hmon.done
      have hgen' : (t.clear.rtTick x y).recoverGen = t.recoverGen := hgen
      simp only [Threads.rank, hdone', hgen', hkept.planning, hkept.awake, hslaves, hmonitor]
      rfl

theorem main_inLoop {t : Threads} (hloop : t.main = .loop) {e : TEvent} (he : e.inLoop = true) :
    (t.step e).main = .loop := by
  cases e with
  | main reached => cases he
  | app e => exact hloop
  | monitor x y => exact (t.clear.monitorTurn_kept x y).main.trans hloop
  | tick x y =>
    rw [Threads.step, if_pos (by exact hloop)]
    exact (t.clear.rtTick_kept x y).main.trans hloop

/-- When the monitor has had the steps it needs, the next round leaves RECOVER. -/
theorem leaves_recover (es : List TEvent) (x : TickIn) (y : RtIn) :
    ∀ {t : Threads} {turn : Turn}, Alive t → InTurn turn t.toMaster → t.main = .loop →
      (∀ e ∈ es, e.inLoop = true) → t.rank ≤ es.countP TEvent.returning →
      ∃ es₁ es₂, es ++ [.tick x y] = es₁ ++ es₂ ∧
        (run Threads.step t es₁).bus.state ≠ .recover := by
  induction es with
  | nil =>
    intro t turn ha ht hloop _ hrank
    by_cases hbus : t.bus.state = .recover
    swap
    · exact ⟨[], [.tick x y], rfl, hbus⟩
    refine ⟨[.tick x y], [], rfl, ?_⟩
    intro hpost
    -- A round that stays in RECOVER waits for an answer, which a rank of 0 excludes.
    have hstep : t.step (.tick x y) = t.clear.rtTick x y := if_pos hloop
    rw [run_cons, run_nil, hstep] at hpost
    have hpost : (rtTick x t.clear.toMaster).bus.state = .recover := hpost
    have hdone : t.recoverDone = t.recoverGen := by
      by_contra hne
      simp only [List.countP_nil, Nat.le_zero] at hrank
      cases hplan : t.planning with
      | slave i nowNs =>
        rw [t.rank_slave hne hplan] at hrank
        omega
      | pathB i nowNs =>
        rw [t.rank_pathB hne hplan] at hrank
        omega
      | check => simp [Threads.rank, hne, hplan] at hrank
      | none =>
        rw [t.rank_none hne hplan] at hrank
        unfold Monitor.rank at hrank
        split at hrank <;> (try split at hrank) <;> omega
    cases rtTick_move x t.clear.toMaster with
    | cyclic hpre => exact hpre hbus
    | enters hpre => exact hpre hbus
    | waits _ _ hne => exact hne hdone
    | leaves _ _ hleft =>
      rw [hpost] at hleft
      split at hleft <;> cases hleft
  | cons e es ih =>
    intro t turn ha ht hloop hin hrank
    have he : e.inLoop = true := hin e (by simp)
    by_cases hbus : t.bus.state = .recover
    swap
    · exact ⟨[], e :: es ++ [.tick x y], rfl, hbus⟩
    by_cases hpost : (t.step e).bus.state = .recover
    swap
    · exact ⟨[e], es ++ [.tick x y], rfl, hpost⟩
    obtain ⟨turn', -, ht'⟩ := turn_step ht e
    have hdown := rank_step ha ht hbus hloop he hpost
    have hcount : (t.step e).rank ≤ es.countP TEvent.returning := by
      rw [List.countP_cons] at hrank
      cases hret : e.returning with
      | true =>
        simp only [hret, Bool.toNat_true, if_true] at hdown hrank
        omega
      | false =>
        simp only [hret, Bool.toNat_false, Bool.false_eq_true, if_false] at hdown hrank
        omega
    obtain ⟨es₁, es₂, heq, hleft⟩ :=
      ih (ha.step e) ht' (main_inLoop hloop he) (fun e' he' => hin e' (by simp [he'])) hcount
    exact ⟨e :: es₁, es₂, by rw [List.cons_append, heq, List.cons_append], hleft⟩

/-! ## Every run -/

/-- The threads when the main loop starts, with recovery on. -/
def startRecovering (cfg : Config) (busCfg : BusCfg) (fixed : List (Handle × Nat))
    (slavecount : Nat) (configadr : Nat → Nat) (diagEnabled : Bool) (ticksPerSnapshot : Nat) :
    Threads :=
  .start (start cfg busCfg fixed true) slavecount configadr diagEnabled ticksPerSnapshot

/-- While the monitor is in `recover_full` the bus state is RECOVER, and the RT thread
sends neither process data nor a probe nor a mailbox frame, nor anything else of its
loop. -/
def BusIsMonitors (_ : List (Rec Threads TEvent)) (r : Rec Threads TEvent) : Prop :=
  Executing r.pre.toMaster →
    r.pre.bus.state = .recover ∧ ∀ f ∈ r.post.mainSent, f.shutdown = true

/-- In RECOVER the monitor answers within `2 * slaves + 8` steps in which what it waits
for has come, and then RECOVER is left. -/
def Answers (t : Threads) : Prop :=
  t.main = .loop → ∀ es x y, (∀ e ∈ es, e.inLoop = true) →
    2 * t.slaves + 8 ≤ es.countP TEvent.returning →
    ∃ es₁ es₂, es ++ [TEvent.tick x y] = es₁ ++ es₂ ∧
      (run Threads.step t es₁).bus.state ≠ .recover

/-- **The hand-over of the bus.**  In every run the marks follow the protocol: each
entry into RECOVER is followed by one start of `recover_full`, by its end, and by RT
leaving with the result of that.  While `recover_full` runs the bus is the monitor's,
and it does answer. -/
theorem recovery_hands_over (cfg : Config) (busCfg : BusCfg) (fixed : List (Handle × Nat))
    (slavecount : Nat) (configadr : Nat → Nat) (diagEnabled : Bool) (ticksPerSnapshot : Nat)
    (es : List TEvent) :
    let t := startRecovering cfg busCfg fixed slavecount configadr diagEnabled ticksPerSnapshot
    (Turn.play .rt (marks (trace Threads.step t es))).isSome = true ∧
      Along Threads.step t es BusIsMonitors ∧ Answers (run Threads.step t es) := by
  intro t
  let Inv (hist : List (Rec Threads TEvent)) (t : Threads) : Prop :=
    Alive t ∧ ∃ turn, Turn.play .rt (marks hist) = some turn ∧ InTurn turn t.toMaster
  have hinit : Inv [] t := by
    refine ⟨⟨rfl, fun _ => rfl, nofun, ?_, nofun, fun h => absurd rfl h⟩, .rt, rfl, ?_⟩
    · show (if slavecount > srecMaxSlaves then srecMaxSlaves else slavecount) =
        min slavecount srecMaxSlaves
      split <;> omega
    · exact ⟨⟨nofun, rfl, rfl⟩, rfl, Nat.two_pow_pos 32, rfl⟩
  have hstep : ∀ hist t e, Inv hist t → Inv (hist ++ [⟨t, e, t.step e⟩]) (t.step e) := by
    rintro hist t e ⟨ha, turn, hplay, ht⟩
    obtain ⟨turn', hnext, ht'⟩ := turn_step ht e
    refine ⟨ha.step e, turn', ?_, ht'⟩
    rw [marks, filterMap_concat, Turn.play_append, ← marks, hplay]
    exact hnext
  have hinv : Inv (trace Threads.step t es) (run Threads.step t es) :=
    Along.invariant (C := fun _ _ => True) hinit (fun hist t e h _ => hstep hist t e h)
      (fun _ _ _ _ => trivial)
  obtain ⟨ha, turn, hplay, ht⟩ := hinv
  refine ⟨by rw [hplay]; rfl, ?_, ?_⟩
  · refine Along.of_invariant' hinit hstep ?_ es
    rintro hist t e ⟨-, turn, -, ht⟩ hex
    exact ⟨ht.holds.recover hex, silent_in_recover (ht.holds.recover hex) e⟩
  · intro hloop es' x y hin hcount
    exact leaves_recover es' x y ha ht hloop hin ((Threads.rank_le _).trans hcount)

end EcMaster.EcmRun
