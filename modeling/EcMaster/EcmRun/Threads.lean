import EcMaster.EcmRun.Loop
import EcMaster.Lib.Run
import EcMaster.Policy.PlannerRun

/-!
# The main thread and the monitor

`Loop` has the part of the two threads that moves process data.  Here is the rest
of what they do on the bus, around the same `Master`:

* the RT thread sends one diagnostic frame per second and collects its reply,
  hands the read over to the monitor, and executes at most one recovery command
  per tick (`diagTurn`, `rtExecCommand`);
* the monitor answers a request of recovery, or it takes over the diagnostic reads
  and plans with them slave by slave (`recoveryStep`), which queues commands for
  the RT thread or reconfigures a slave on the bus (`pathB`);
* the main thread, which is the RT thread, leaves OP after the loop, prints, stops
  the other threads and waits for them, and requests INIT (`mainStep`).

A step of the monitor makes one access to what it shares with the RT thread.  A
round of the main loop is one step: it reads what the monitor stores at one point
only, and it publishes its state at the end.

Two things are added to the program's data for the statements.  `mainSent` and
`monitorSent` are the frames of the last step.  `returns` counts how often the bus
came back from RECOVER to RUN; a diagnostic frame, what is read from it and a
command carry its value, which says from which time they are.

`master_run` connects this model to `Loop`: the master in it makes a run of
`Master.step`.
-/

namespace EcMaster.EcmRun

open EcMaster.ByteImage EcMaster.Pdo EcMaster.Cia402 EcMaster.Policy EcMaster.Run

/-! ## Diagnostic reads -/

/-- `ecm_diag_raw_slave_t`, as far as the planner depends on it: the working
counters of the error counters and of the AL status, and the latter. -/
structure RawSlave where
  wkcErr : Int
  wkcAl : Int
  alStatus : Nat
  alCode : Nat
deriving DecidableEq, Repr

/-- `ecm_diag_raw_t`. -/
structure DiagRaw where
  frameOk : Bool
  brdCount : Int
  first : Nat
  count : Nat
  s : Nat → RawSlave
  seen : Nat

/-- `ecm_diag_slave_t`.  `seen` is the time of `al_status`. -/
structure DiagSlave where
  seenRead : Nat
  answered : Bool
  alStatus : Nat
  alCode : Nat
  seen : Nat

/-- `ecm_diag_t`. -/
structure Diag where
  n : Nat
  reads : Nat
  brdCount : Int
  s : Nat → DiagSlave

/-- `ECM_DIAG_MAX_SLAVES`. -/
def diagMaxSlaves : Nat := 64

/-- `ecm_diag_init`. -/
def ecmDiagInit (n : Nat) : Diag :=
  { n := min n diagMaxSlaves
    reads := 0
    brdCount := -1
    s := fun _ => { seenRead := 0, answered := false, alStatus := 0, alCode := 0, seen := 0 } }

/-- One slave in `ecm_diag_ingest`.  A slave that answers without its AL status keeps
the old one. -/
def DiagSlave.ingest (d : DiagSlave) (reads seen : Nat) (r : RawSlave) : DiagSlave :=
  let d := { d with seenRead := reads, answered := r.wkcErr > 0 || r.wkcAl > 0 }
  if r.wkcAl > 0 then { d with alStatus := r.alStatus, alCode := r.alCode, seen := seen } else d

/-- `ecm_diag_ingest`. -/
def ecmDiagIngest (d : Diag) (raw : DiagRaw) : Diag :=
  let reads := d.reads + 1
  if !raw.frameOk then { d with reads := reads }
  else
    { d with
      reads := reads
      brdCount := raw.brdCount
      s := fun i =>
        if raw.first ≤ i ∧ i < min (raw.first + raw.count) d.n then
          (d.s i).ingest reads raw.seen (raw.s i)
        else d.s i }

/-- `ecm_diag_io_t`. -/
structure DiagIo where
  pending : Bool
  nextFirst : Nat
  first : Nat
  count : Nat
  age : Nat
  seen : Nat
deriving DecidableEq, Repr

/-- `ECM_DIAG_SOEM_SLAVES_PER_FRAME`. -/
def diagSlavesPerFrame : Nat := 22

/-- `ecm_diag_soem_send`: the next chunk of slaves.  `out` says that the frame went
out. -/
def ecmDiagSoemSend (slavecount : Nat) (out : Bool) (now : Nat) (io : DiagIo) : DiagIo :=
  if io.pending ∨ slavecount = 0 then io
  else
    let n := min slavecount diagMaxSlaves
    let first := if io.nextFirst < n then io.nextFirst else 0
    let count := min (n - first) diagSlavesPerFrame
    { pending := out
      nextFirst := if first + count ≥ n then 0 else first + count
      first := first
      count := count
      age := 0
      seen := now }

/-- The reply to a diagnostic frame. -/
structure DiagReply where
  brdCount : Int
  s : Nat → RawSlave

/-- `DIAG_MAX_AGE_TICKS`. -/
def diagMaxAgeTicks : Nat := 5

/-- `ecm_diag_soem_collect`: what it hands out, if anything.  A reply that does not
match the frame is no reply. -/
def ecmDiagSoemCollect (reply : Option DiagReply) (io : DiagIo) : DiagIo × Option DiagRaw :=
  if !io.pending then (io, none)
  else
    match reply with
    | some r =>
        ({ io with pending := false },
          some
            { frameOk := true, brdCount := r.brdCount, first := io.first, count := io.count
              s := r.s, seen := io.seen })
    | none =>
        let io := { io with age := io.age + 1 }
        if io.age < diagMaxAgeTicks then (io, none)
        else
          ({ io with pending := false },
            some
              { frameOk := false, brdCount := 0, first := io.first, count := io.count
                s := fun _ => ⟨0, 0, 0, 0⟩, seen := io.seen })

/-- `ecm_diag_handoff_put`: two slots, oldest first. -/
def ecmDiagHandoffPut (h : List DiagRaw) (raw : DiagRaw) : List DiagRaw :=
  if h.length ≥ 2 then h else h ++ [raw]

/-! ## Recovery commands -/

/-- `ecm_cmd_t`. -/
structure AlCmd where
  slave : Nat
  configadr : Nat
  reg : Nat
  value : Nat
deriving DecidableEq, Repr

/-- An entry of `g_cmdq`: the command, the time of the AL status it was decided
from, and the time it was pushed. -/
structure Queued where
  cmd : AlCmd
  seen : Nat
  pushed : Nat
deriving DecidableEq, Repr

/-- `ECM_CMDQ_LEN`. -/
def cmdqLen : Nat := 16

/-- `ecm_cmdq_push`. -/
def ecmCmdqPush (q : List Queued) (c : Queued) : List Queued :=
  if q.length ≥ cmdqLen then q else q ++ [c]

/-- `ECT_REG_ALCTL`. -/
def regAlctl : Nat := 0x0120

/-- `EC_STATE_ACK`. -/
def alAck : Nat := 0x10

/-- `CMD_MIN_BUDGET_US`. -/
def cmdMinBudgetUs : Nat := 100

/-! ## The threads -/

/-- The frames of the main thread. -/
inductive MainFrame where
  | processData
  | mailbox
  | diag
  | alControl (c : Queued)
  | probe
  /-- `request_all_state`: the request of SAFE-OP or INIT, and `ecx_statecheck`. -/
  | requestSafeOp
  | stateCheck
  | requestInit
deriving DecidableEq, Repr

/-- The frames that come after the loop. -/
def MainFrame.shutdown : MainFrame → Bool
  | .requestSafeOp | .stateCheck | .requestInit => true
  | _ => false

/-- The frames of the monitor.  `scan` is everything in `recover_full` before its
process data, `readState` the states and the DC anchor. -/
inductive MonitorFrame where
  | scan
  | processData
  | requestOp
  | readState
  | pathB (slave : Nat)
deriving DecidableEq, Repr

/-- Where the monitor is in `recovery_step`: not in it, before it looks at
`g_bus_state_pub`, at a slave, or in `recover_path_b` for a slave. -/
inductive Planning where
  | none
  | check
  | slave (i nowNs : Nat)
  | pathB (i nowNs : Nat)
deriving DecidableEq, Repr

/-- Where the main thread is: in the loop, before the request of SAFE-OP, in
`ecx_statecheck`, at the statistics, at the joins, before the request of INIT, and
at the end. -/
inductive MainPhase where
  | loop
  | leaveOp
  | stateCheck
  | print
  | join
  | init
  | closed
deriving DecidableEq, Repr

/-- The first frame of the shutdown is out. -/
def MainPhase.leftOp : MainPhase → Bool
  | .loop | .leaveOp => false
  | _ => true

/-- The main thread, the monitor and what they share.  `awake` says that the monitor
has passed the test of `g_monitor_stop`. -/
structure Threads extends Master where
  slavecount : Nat
  configadr : Nat → Nat
  diagEnabled : Bool
  ticksPerSnapshot : Nat
  busStatePub : BusState
  diagIo : DiagIo
  diagNextTick : Nat
  handoff : List DiagRaw
  cmdq : List Queued
  main : MainPhase
  monitorStop : Bool
  awake : Bool
  exited : Bool
  iterations : Nat
  planning : Planning
  diag : Diag
  srec : SrecPlan
  returns : Nat
  mainSent : List MainFrame
  monitorSent : List MonitorFrame

/-- What a round of the main loop finds besides `TickIn`: mailbox traffic, the reply
to the diagnostic frame, whether a frame goes out, and the time left in the tick. -/
structure RtIn where
  mailbox : Bool
  reply : Option DiagReply
  diagOut : Bool
  budgetUs : Nat

/-- What a step of the monitor finds besides `MonitorIn`: the time, the slaves that
`recover_full` gives up, and the end of `recover_path_b`. -/
structure PlanIn where
  nowNs : Nat
  refused : List Nat
  pathDone : Bool
  cfgFail : Bool
deriving DecidableEq, Repr

/-! ### The RT thread -/

/-- The diagnostics of a round.  `io_due` is that the IO group was serviced. -/
def Threads.diagTurn (t : Threads) (x : TickIn) (y : RtIn) : Threads :=
  if !t.diagEnabled then t
  else if t.diagIo.pending then
    let r := ecmDiagSoemCollect y.reply t.diagIo
    { t with
      diagIo := r.1
      handoff := match r.2 with
        | some raw => ecmDiagHandoffPut t.handoff raw
        | none => t.handoff }
  else if t.tick ≥ t.diagNextTick ∧ x.ioClass = none then
    { t with
      diagIo := ecmDiagSoemSend t.slavecount y.diagOut t.returns t.diagIo
      diagNextTick := u64 (t.tick + t.ticksPerSnapshot)
      mainSent := t.mainSent ++ if y.diagOut then [.diag] else [] }
  else t

/-- `rt_exec_command`. -/
def Threads.rtExecCommand (t : Threads) (y : RtIn) : Threads :=
  match t.cmdq with
  | [] => t
  | c :: rest =>
      if y.budgetUs < cmdMinBudgetUs then t
      else { t with cmdq := rest, mainSent := t.mainSent ++ [.alControl c] }

/-- What a round of the main loop does on the bus besides the process data: in RUN
and DEGRADED the diagnostics and a command, in LOST a probe. -/
def Threads.busTurn (t : Threads) (x : TickIn) (y : RtIn) : Threads :=
  if t.bus.state.cyclic then
    let t :=
      { t with mainSent := .processData :: if y.mailbox then [.mailbox] else [] }.diagTurn x y
    if x.ioClass = none then t.rtExecCommand y else t
  else { t with mainSent := if ecmBusProbeDue t.bus t.tick then [.probe] else [] }

/-- The bus comes back to RUN. -/
def Comes (pre post : BusState) : Prop := pre = .recover ∧ post = .run

instance (pre post : BusState) : Decidable (Comes pre post) :=
  inferInstanceAs (Decidable (_ ∧ _))

/-- A round of the main loop. -/
def Threads.rtTick (t : Threads) (x : TickIn) (y : RtIn) : Threads :=
  let m := EcmRun.rtTick x t.toMaster
  { t.busTurn x y with
    toMaster := m
    busStatePub := m.bus.state
    returns := if Comes t.bus.state m.bus.state then t.returns + 1 else t.returns }

/-! ### The monitor -/

/-- `recover_config_failed`, as far as the planner is concerned. -/
def configFailed (p : SrecPlan) (i : Nat) : SrecPlan :=
  if i < srecMaxSlaves then
    p.set i { p.s i with failed := true, failedConfig := true, failedCode := 0 }
  else p

/-- What the planner is told about slave `i`. -/
def Threads.srecInput (t : Threads) (i : Nat) : SrecInput :=
  { inReach := (i : Int) < t.diag.brdCount
    answered := (t.diag.s i).answered
    alStatus := (t.diag.s i).alStatus
    alCode := (t.diag.s i).alCode }

/-- A command for slave `i`, which is slave `i + 1` of SOEM. -/
def Threads.push (t : Threads) (i value : Nat) : Threads :=
  { t with
    cmdq := ecmCmdqPush t.cmdq
      { cmd :=
          { slave := i + 1, configadr := t.configadr (i + 1), reg := regAlctl, value := value }
        seen := (t.diag.s i).seen
        pushed := t.returns } }

/-- What `recovery_step` does with a decision for slave `i`.  The error that it gives
to the axes of a slave is an argument of their hook (`xeCmd`, `xeRt`). -/
def Threads.act (t : Threads) (i nowNs : Nat) : Sact → Threads
  | .none => t
  | .ack => t.push i (alState (t.diag.s i).alStatus + alAck)
  | .op => t.push i alOp
  | .reconfig => { t with planning := .pathB i nowNs }

/-- `recovery_step` for one slave. -/
def Threads.planSlave (t : Threads) (i nowNs : Nat) : Threads :=
  if i < t.diag.n ∧ i < t.srec.n then
    let next := { t with planning := .slave (i + 1) nowNs }
    if (t.diag.s i).seenRead ≠ t.diag.reads then next
    else
      let r := ecmSrecDecide t.srec i (t.srecInput i) nowNs
      { next with srec := r.1 }.act i nowNs r.2.act
  else { t with planning := .none }

/-- The rest of an iteration of the monitor that has no request to answer. -/
def Threads.diagIteration (t : Threads) : Threads :=
  let iterations := (t.iterations + 1) % 2 ^ 32
  let t := { t with awake := false, iterations := iterations }
  if iterations % 10 = 0 ∧ t.diagEnabled then
    let d := t.handoff.foldl ecmDiagIngest t.diag
    { t with
      handoff := []
      diag := d
      planning := if t.recoverEnabled ∧ d.reads ≠ t.diag.reads then .check else .none }
  else t

/-- The top of the monitor's loop.  After the last iteration it takes over the
remaining reads. -/
def Threads.wake (t : Threads) : Threads :=
  if t.monitorStop then
    { t with
      exited := true
      diag := if t.diagEnabled then t.handoff.foldl ecmDiagIngest t.diag else t.diag
      handoff := if t.diagEnabled then [] else t.handoff }
  else { t with awake := true }

/-- `recovery_step`. -/
def Threads.recoveryStep (t : Threads) (y : PlanIn) : Threads :=
  match t.planning with
  | .none => t
  | .check => { t with planning := if t.busStatePub.cyclic then .slave 0 y.nowNs else .none }
  | .slave i nowNs => t.planSlave i nowNs
  | .pathB i nowNs =>
      let t := { t with monitorSent := [.pathB (i + 1)] }
      if y.pathDone then
        { t with
          planning := .slave (i + 1) nowNs
          srec := if y.cfgFail then configFailed t.srec i else t.srec }
      else t

/-- `recover_full` and the answer to the RT thread. -/
def Threads.recoverFull (t : Threads) (x : MonitorIn) (y : PlanIn) : Threads :=
  let next := { t with toMaster := EcmRun.monitorStep x t.toMaster }
  match t.monitor with
  | .idle => { next with awake := false }
  | .scan _ =>
      { next with
        srec := y.refused.foldl configFailed t.srec
        monitorSent := [.scan, .processData, .requestOp] }
  | .keepalive _ => { next with monitorSent := [.processData, .readState] }
  | .finish _ => { next with monitorSent := [.readState] }

/-- Without the frames of the last step. -/
def Threads.clear (t : Threads) : Threads :=
  { t with sent := [], mainSent := [], monitorSent := [] }

/-- One step of the monitor thread. -/
def Threads.monitorTurn (t : Threads) (x : MonitorIn) (y : PlanIn) : Threads :=
  if t.exited then t
  else if t.planning ≠ .none then t.recoveryStep y
  else if t.monitor ≠ .idle then t.recoverFull x y
  else if !t.awake then t.wake
  else if t.recoverReq ≠ t.recoverDone then t.recoverFull x y
  else t.diagIteration

/-! ### The shutdown -/

/-- The main thread after the loop.  `reached` ends `ecx_statecheck`. -/
def Threads.mainStep (t : Threads) (reached : Bool) : Threads :=
  match t.main with
  | .loop => { t with main := .leaveOp }
  | .leaveOp => { t with main := .stateCheck, mainSent := [.requestSafeOp] }
  | .stateCheck =>
      { t with main := if reached then .print else .stateCheck, mainSent := [.stateCheck] }
  | .print => { t with main := .join, monitorStop := true }
  | .join => if t.exited then { t with main := .init } else t
  | .init => { t with main := .closed, mainSent := [.requestInit] }
  | .closed => t

/-! ### Runs -/

/-- What can happen: a round of the main loop, a step of the monitor, a call of the
application, or the main thread ends the loop and goes on. -/
inductive TEvent where
  | tick (x : TickIn) (y : RtIn)
  | monitor (x : MonitorIn) (y : PlanIn)
  | app (e : Event)
  | main (reached : Bool)

/-- One event. -/
def Threads.step (t : Threads) (e : TEvent) : Threads :=
  let t := t.clear
  match e with
  | .tick x y => if t.main = .loop then t.rtTick x y else t
  | .monitor x y => t.monitorTurn x y
  | .app e => { t with toMaster := appStep e t.toMaster }
  | .main reached => t.mainStep reached

/-- The threads when the main loop starts. -/
def Threads.start (m : Master) (slavecount : Nat) (configadr : Nat → Nat) (diagEnabled : Bool)
    (ticksPerSnapshot : Nat) : Threads :=
  { m with
    slavecount := slavecount
    configadr := configadr
    diagEnabled := diagEnabled
    ticksPerSnapshot := ticksPerSnapshot
    busStatePub := .run
    diagIo := { pending := false, nextFirst := 0, first := 0, count := 0, age := 0, seen := 0 }
    diagNextTick := 0
    handoff := []
    cmdq := []
    main := .loop
    monitorStop := false
    awake := false
    exited := false
    iterations := 0
    planning := .none
    diag := ecmDiagInit slavecount
    srec := ecmSrecInit slavecount 5 1000000000
    returns := 0
    mainSent := []
    monitorSent := [] }

/-! ## What a round of the main loop does -/

/-- What the main thread leaves to the monitor. -/
structure PlanKept (t t' : Threads) : Prop where
  slavecount : t'.slavecount = t.slavecount
  awake : t'.awake = t.awake
  exited : t'.exited = t.exited
  planning : t'.planning = t.planning
  diag : t'.diag = t.diag
  srec : t'.srec = t.srec

/-- What a round of the main loop leaves alone besides. -/
structure TurnKept (t t' : Threads) : Prop extends PlanKept t t' where
  main : t'.main = t.main
  monitorStop : t'.monitorStop = t.monitorStop
  monitorSent : t'.monitorSent = t.monitorSent

theorem Threads.diagTurn_kept (t : Threads) (x : TickIn) (y : RtIn) :
    TurnKept t (t.diagTurn x y) := by
  unfold Threads.diagTurn
  split_ifs <;> exact ⟨⟨rfl, rfl, rfl, rfl, rfl, rfl⟩, rfl, rfl, rfl⟩

theorem Threads.rtExecCommand_kept (t : Threads) (y : RtIn) :
    TurnKept t (t.rtExecCommand y) := by
  unfold Threads.rtExecCommand
  split
  · exact ⟨⟨rfl, rfl, rfl, rfl, rfl, rfl⟩, rfl, rfl, rfl⟩
  · split <;> exact ⟨⟨rfl, rfl, rfl, rfl, rfl, rfl⟩, rfl, rfl, rfl⟩

theorem TurnKept.trans {t t' t'' : Threads} (h : TurnKept t t') (h' : TurnKept t' t'') :
    TurnKept t t'' :=
  ⟨⟨h'.slavecount.trans h.slavecount, h'.awake.trans h.awake, h'.exited.trans h.exited,
    h'.planning.trans h.planning, h'.diag.trans h.diag, h'.srec.trans h.srec⟩,
    h'.main.trans h.main, h'.monitorStop.trans h.monitorStop,
    h'.monitorSent.trans h.monitorSent⟩

theorem Threads.busTurn_kept (t : Threads) (x : TickIn) (y : RtIn) :
    TurnKept t (t.busTurn x y) := by
  unfold Threads.busTurn
  split
  · have hdiag := Threads.diagTurn_kept
      { t with mainSent := .processData :: if y.mailbox then [.mailbox] else [] } x y
    have hdiag' : TurnKept t _ := ⟨⟨hdiag.slavecount, hdiag.awake, hdiag.exited, hdiag.planning,
      hdiag.diag, hdiag.srec⟩, hdiag.main, hdiag.monitorStop, hdiag.monitorSent⟩
    dsimp only
    split
    · exact hdiag'.trans (Threads.rtExecCommand_kept _ y)
    · exact hdiag'
  · exact ⟨⟨rfl, rfl, rfl, rfl, rfl, rfl⟩, rfl, rfl, rfl⟩

theorem Threads.rtTick_kept (t : Threads) (x : TickIn) (y : RtIn) :
    TurnKept t (t.rtTick x y) := by
  obtain ⟨⟨hcount, hawake, hexited, hplan, hdiag, hsrec⟩, hmain, hstop, hsent⟩ :=
    t.busTurn_kept x y
  exact ⟨⟨hcount, hawake, hexited, hplan, hdiag, hsrec⟩, hmain, hstop, hsent⟩

theorem Threads.mainStep_kept (t : Threads) (reached : Bool) :
    PlanKept t (t.mainStep reached) := by
  unfold Threads.mainStep
  split <;> (try split) <;> exact ⟨rfl, rfl, rfl, rfl, rfl, rfl⟩

theorem Threads.diagTurn_queue (t : Threads) (x : TickIn) (y : RtIn) :
    (t.diagTurn x y).cmdq = t.cmdq ∧
      ∀ c, MainFrame.alControl c ∈ (t.diagTurn x y).mainSent → MainFrame.alControl c ∈ t.mainSent := by
  unfold Threads.diagTurn
  split
  · exact ⟨rfl, fun c hc => hc⟩
  split
  · exact ⟨rfl, fun c hc => hc⟩
  split
  · refine ⟨rfl, fun c hc => ?_⟩
    rcases List.mem_append.1 hc with hc | hc
    · exact hc
    · split at hc <;> simp at hc
  · exact ⟨rfl, fun c hc => hc⟩

theorem Threads.rtExecCommand_queue (t : Threads) (y : RtIn) :
    (t.rtExecCommand y).cmdq.Sublist t.cmdq ∧
      ∀ c, MainFrame.alControl c ∈ (t.rtExecCommand y).mainSent →
        MainFrame.alControl c ∈ t.mainSent ∨ c ∈ t.cmdq := by
  unfold Threads.rtExecCommand
  split
  · exact ⟨List.Sublist.refl _, fun c hc => .inl hc⟩
  · rename_i c rest hq
    split
    · exact ⟨List.Sublist.refl _, fun c hc => .inl hc⟩
    · refine ⟨by rw [hq]; exact List.sublist_cons_self c rest, fun d hd => ?_⟩
      rcases List.mem_append.1 hd with hd | hd
      · exact .inl hd
      · obtain rfl : d = c := by simpa using hd
        exact .inr (by simp [hq])

/-- A round takes commands out of the queue, and sends only such. -/
theorem Threads.busTurn_queue (t : Threads) (x : TickIn) (y : RtIn) :
    (t.busTurn x y).cmdq.Sublist t.cmdq ∧
      ∀ c, MainFrame.alControl c ∈ (t.busTurn x y).mainSent → c ∈ t.cmdq := by
  unfold Threads.busTurn
  split
  · dsimp only
    generalize hsent : (MainFrame.processData :: if y.mailbox then [MainFrame.mailbox] else []) =
      frames
    have hnone : ∀ c, MainFrame.alControl c ∉ frames := by
      intro c
      rw [← hsent]
      split <;> simp
    obtain ⟨hcmdq, hold⟩ := Threads.diagTurn_queue { t with mainSent := frames } x y
    split
    · obtain ⟨hsub, hnew⟩ :=
        (Threads.diagTurn { t with mainSent := frames } x y).rtExecCommand_queue y
      rw [hcmdq] at hsub hnew
      exact ⟨hsub, fun c hc => (hnew c hc).resolve_left fun h => hnone c (hold c h)⟩
    · exact ⟨by simp only [hcmdq, List.Sublist.refl], fun c hc => absurd (hold c hc) (hnone c)⟩
  · refine ⟨List.Sublist.refl _, fun c hc => ?_⟩
    dsimp only at hc
    split at hc <;> simp at hc

/-- In RECOVER the RT thread only waits. -/
theorem Threads.busTurn_recover {t : Threads} (hbus : t.bus.state = .recover) (x : TickIn)
    (y : RtIn) : t.busTurn x y = { t with mainSent := [] } := by
  have hcyclic : ¬ t.bus.state.cyclic = true := by rw [hbus]; decide
  have hprobe : ¬ ecmBusProbeDue t.bus t.tick = true := by simp [ecmBusProbeDue, hbus]
  rw [Threads.busTurn, if_neg hcyclic, if_neg hprobe]

/-! ## What a step of the monitor does -/

/-- The steps of the monitor. -/
inductive MonitorMove (t : Threads) (x : MonitorIn) (y : PlanIn) : Threads → Prop where
  | exited (hexited : t.exited = true) : MonitorMove t x y t
  | plan (hexited : t.exited = false) (hplan : t.planning ≠ .none) :
      MonitorMove t x y (t.recoveryStep y)
  | recover (hexited : t.exited = false) (hplan : t.planning = .none)
      (hwork : t.monitor ≠ .idle ∨ t.awake = true ∧ t.recoverReq ≠ t.recoverDone) :
      MonitorMove t x y (t.recoverFull x y)
  | wake (hexited : t.exited = false) (hplan : t.planning = .none) (hidle : t.monitor = .idle)
      (hawake : t.awake = false) : MonitorMove t x y t.wake
  | iterate (hexited : t.exited = false) (hplan : t.planning = .none) (hidle : t.monitor = .idle)
      (hawake : t.awake = true) (hreq : t.recoverReq = t.recoverDone) :
      MonitorMove t x y t.diagIteration

theorem Threads.monitorTurn_move (t : Threads) (x : MonitorIn) (y : PlanIn) :
    MonitorMove t x y (t.monitorTurn x y) := by
  unfold Threads.monitorTurn
  cases hexited : t.exited with
  | true => exact .exited hexited
  | false =>
    rw [if_neg Bool.false_ne_true]
    by_cases hplan : t.planning = .none
    · rw [if_neg (not_not_intro hplan)]
      by_cases hidle : t.monitor = .idle
      · rw [if_neg (not_not_intro hidle)]
        cases hawake : t.awake with
        | false => exact .wake hexited hplan hidle hawake
        | true =>
          rw [if_neg (by decide)]
          by_cases hreq : t.recoverReq = t.recoverDone
          · rw [if_neg (not_not_intro hreq)]
            exact .iterate hexited hplan hidle hawake hreq
          · rw [if_pos hreq]
            exact .recover hexited hplan (.inr ⟨hawake, hreq⟩)
      · rw [if_pos hidle]
        exact .recover hexited hplan (.inl hidle)
    · rw [if_pos hplan]
      exact .plan hexited hplan

/-- What the monitor leaves to the main thread. -/
structure MainKept (t t' : Threads) : Prop where
  busStatePub : t'.busStatePub = t.busStatePub
  diagIo : t'.diagIo = t.diagIo
  main : t'.main = t.main
  monitorStop : t'.monitorStop = t.monitorStop
  returns : t'.returns = t.returns
  mainSent : t'.mainSent = t.mainSent

/-- A step outside `recover_full` leaves the master alone as well. -/
structure MasterKept (t t' : Threads) : Prop extends MainKept t t' where
  master : t'.toMaster = t.toMaster

theorem Threads.wake_kept (t : Threads) : MasterKept t t.wake := by
  unfold Threads.wake
  split <;> exact ⟨⟨rfl, rfl, rfl, rfl, rfl, rfl⟩, rfl⟩

theorem Threads.diagIteration_kept (t : Threads) : MasterKept t t.diagIteration := by
  unfold Threads.diagIteration
  dsimp only
  split <;> exact ⟨⟨rfl, rfl, rfl, rfl, rfl, rfl⟩, rfl⟩

/-- What `recovery_step` does with one slave: it is past the last one, it goes on to the
next, it queues a command, or it starts a reconfiguration.  A command is for a slave
that has answered in the last read. -/
inductive PlanMove (t : Threads) (i nowNs : Nat) : Threads → Prop where
  | ended : PlanMove t i nowNs { t with planning := .none }
  | next (srec : SrecPlan) (hn : srec.n = t.srec.n) (hi : i < t.srec.n) :
      PlanMove t i nowNs { t with planning := .slave (i + 1) nowNs, srec := srec }
  | push (srec : SrecPlan) (hn : srec.n = t.srec.n) (hi : i < t.srec.n) (value : Nat)
      (hread : (t.diag.s i).seenRead = t.diag.reads)
      (hanswered : (t.diag.s i).answered = true) :
      PlanMove t i nowNs
        ({ t with planning := .slave (i + 1) nowNs, srec := srec }.push i value)
  | pathB (srec : SrecPlan) (hn : srec.n = t.srec.n) (hi : i < t.srec.n) :
      PlanMove t i nowNs { t with planning := .pathB i nowNs, srec := srec }

theorem Threads.planSlave_move (t : Threads) (i nowNs : Nat) :
    PlanMove t i nowNs (t.planSlave i nowNs) := by
  unfold Threads.planSlave
  by_cases hi : i < t.diag.n ∧ i < t.srec.n
  · rw [if_pos hi]
    dsimp only
    by_cases hread : (t.diag.s i).seenRead = t.diag.reads
    · have hn := (t.srec.step_same (.decide i (t.srecInput i) nowNs)).n
      have hact := ecmSrecDecide_act t.srec i (t.srecInput i) nowNs
      have hanswered : wantedAct (t.srecInput i) ≠ .reconfig →
          (t.diag.s i).answered = true := by
        intro hne
        by_contra hno
        exact hne (by simp [wantedAct, Threads.srecInput, hno])
      rw [if_neg (not_not_intro hread)]
      simp only [SrecPlan.step] at hn
      generalize ecmSrecDecide t.srec i (t.srecInput i) nowNs = r at hn hact ⊢
      cases hr : r.2.act with
      | none => exact .next r.1 hn hi.2
      | ack =>
        refine .push r.1 hn hi.2 _ hread (hanswered ?_)
        simp [← hact.resolve_left (by simp [hr]), hr]
      | op =>
        refine .push r.1 hn hi.2 _ hread (hanswered ?_)
        simp [← hact.resolve_left (by simp [hr]), hr]
      | reconfig => exact .pathB r.1 hn hi.2
    · rw [if_pos hread]
      exact .next t.srec rfl hi.2
  · rw [if_neg hi]
    exact .ended

theorem Threads.planSlave_kept (t : Threads) (i nowNs : Nat) :
    MasterKept t (t.planSlave i nowNs) := by
  have hmove := t.planSlave_move i nowNs
  generalize t.planSlave i nowNs = t' at hmove ⊢
  cases hmove <;> exact ⟨⟨rfl, rfl, rfl, rfl, rfl, rfl⟩, rfl⟩

theorem Threads.recoveryStep_kept (t : Threads) (y : PlanIn) :
    MasterKept t (t.recoveryStep y) := by
  unfold Threads.recoveryStep
  split
  · exact ⟨⟨rfl, rfl, rfl, rfl, rfl, rfl⟩, rfl⟩
  · exact ⟨⟨rfl, rfl, rfl, rfl, rfl, rfl⟩, rfl⟩
  · exact t.planSlave_kept _ _
  · dsimp only
    split <;> exact ⟨⟨rfl, rfl, rfl, rfl, rfl, rfl⟩, rfl⟩

theorem Threads.recoverFull_kept (t : Threads) (x : MonitorIn) (y : PlanIn) :
    MainKept t (t.recoverFull x y) := by
  unfold Threads.recoverFull
  dsimp only
  split <;> exact ⟨rfl, rfl, rfl, rfl, rfl, rfl⟩

theorem Threads.monitorTurn_kept (t : Threads) (x : MonitorIn) (y : PlanIn) :
    MainKept t (t.monitorTurn x y) := by
  have hmove := t.monitorTurn_move x y
  generalize t.monitorTurn x y = t' at hmove ⊢
  cases hmove with
  | exited => exact ⟨rfl, rfl, rfl, rfl, rfl, rfl⟩
  | plan => exact (t.recoveryStep_kept y).toMainKept
  | recover => exact t.recoverFull_kept x y
  | wake => exact t.wake_kept.toMainKept
  | iterate => exact t.diagIteration_kept.toMainKept

/-- A command on the wire comes from the queue. -/
theorem Threads.step_sends {t : Threads} {e : TEvent} {c : Queued}
    (hc : MainFrame.alControl c ∈ (t.step e).mainSent) : c ∈ t.cmdq := by
  cases e with
  | tick x y =>
    rw [Threads.step] at hc
    split at hc
    · exact (t.clear.busTurn_queue x y).2 c hc
    · simp [Threads.clear] at hc
  | monitor x y =>
    rw [Threads.step, (t.clear.monitorTurn_kept x y).mainSent] at hc
    simp [Threads.clear] at hc
  | app e => simp [Threads.step, Threads.clear] at hc
  | main reached =>
    rw [Threads.step, Threads.mainStep] at hc
    split at hc <;> (try split at hc) <;> simp [Threads.clear] at hc

/-! ## Without recovery -/

/-- With `--no-recover` the monitor answers requests without a recovery, and it does
not plan. -/
structure Off (t : Threads) : Prop where
  enabled : t.recoverEnabled = false
  planning : t.planning = .none
  cmdq : t.cmdq = []
  monitor : t.monitor = .idle

theorem monitorStep_off {m : Master} (hen : m.recoverEnabled = false) (hidle : m.monitor = .idle)
    (x : MonitorIn) :
    (monitorStep x m).recoverEnabled = false ∧ (monitorStep x m).monitor = .idle := by
  unfold monitorStep
  simp only [hidle, hen, Bool.false_eq_true, if_false]
  split <;> exact ⟨rfl, rfl⟩

theorem Off.step {t : Threads} (hoff : Off t) (e : TEvent) :
    Off (t.step e) ∧ (t.step e).monitorSent = [] := by
  obtain ⟨hen, hplan, hcmdq, hidle⟩ := hoff
  cases e with
  | tick x y =>
    rw [Threads.step]
    split
    · have hkept := t.clear.rtTick_kept x y
      have hmaster : (EcmRun.rtTick x t.clear.toMaster).recoverEnabled = false ∧
          (EcmRun.rtTick x t.clear.toMaster).monitor = .idle := by
        unfold EcmRun.rtTick rtBus EcmRun.busTurn
        dsimp only
        split <;> (try split_ifs) <;> exact ⟨hen, hidle⟩
      have hempty : (t.clear.busTurn x y).cmdq = [] := by
        rw [← List.sublist_nil, ← hcmdq]
        exact (t.clear.busTurn_queue x y).1
      exact ⟨⟨hmaster.1, hkept.planning.trans hplan, hempty, hmaster.2⟩, hkept.monitorSent⟩
    · exact ⟨⟨hen, hplan, hcmdq, hidle⟩, rfl⟩
  | monitor x y =>
    rw [Threads.step]
    have hmove := t.clear.monitorTurn_move x y
    generalize t.clear.monitorTurn x y = t' at hmove ⊢
    cases hmove with
    | exited => exact ⟨⟨hen, hplan, hcmdq, hidle⟩, rfl⟩
    | plan hexited hne => exact absurd hplan hne
    | recover =>
      have hidle' : t.clear.monitor = .idle := hidle
      have hmaster := monitorStep_off (m := t.clear.toMaster) hen hidle x
      simp only [Threads.recoverFull, hidle']
      exact ⟨⟨hmaster.1, hplan, hcmdq, hmaster.2⟩, rfl⟩
    | wake =>
      unfold Threads.wake
      split <;> exact ⟨⟨hen, hplan, hcmdq, hidle⟩, rfl⟩
    | iterate =>
      unfold Threads.diagIteration
      dsimp only
      split
      · refine ⟨⟨hen, ?_, hcmdq, hidle⟩, rfl⟩
        simp [Threads.clear, hen]
      · exact ⟨⟨hen, hplan, hcmdq, hidle⟩, rfl⟩
  | app e => cases e <;> exact ⟨⟨hen, hplan, hcmdq, hidle⟩, rfl⟩
  | main reached =>
    rw [Threads.step, Threads.mainStep]
    split <;> (try split) <;> exact ⟨⟨hen, hplan, hcmdq, hidle⟩, rfl⟩

/-! ## The master of the threads -/

theorem Threads.recoverFull_master (t : Threads) (x : MonitorIn) (y : PlanIn) :
    (t.recoverFull x y).toMaster = monitorStep x t.toMaster := by
  unfold Threads.recoverFull
  split <;> rfl

/-- A master that sends nothing is a master after a call that does nothing. -/
theorem Master.step_silent (m : Master) : ∃ e, m.step e = { m with sent := [] } :=
  ⟨.app (.hook
    { tick := 0, tSendNs := 0, inValid := false, busLost := false, inputs := m.io
      xeCmd := fun _ => .none, xeRt := fun _ => .none }), rfl⟩

theorem Threads.step_master (t : Threads) (e : TEvent) :
    ∃ e', (t.step e).toMaster = t.toMaster.step e' := by
  obtain ⟨silent, hsilent⟩ := t.toMaster.step_silent
  cases e with
  | tick x y =>
    by_cases hloop : t.main = .loop
    · refine ⟨.tick x, ?_⟩
      rw [Threads.step, if_pos (by exact hloop)]
      rfl
    · refine ⟨silent, ?_⟩
      rw [hsilent, Threads.step, if_neg (by exact hloop)]
      rfl
  | monitor x y =>
    have hmove := t.clear.monitorTurn_move x y
    rw [Threads.step]
    generalize t.clear.monitorTurn x y = t' at hmove ⊢
    cases hmove with
    | exited => exact ⟨silent, hsilent.symm⟩
    | plan => exact ⟨silent, (t.clear.recoveryStep_kept y).master.trans hsilent.symm⟩
    | recover => exact ⟨.monitor x, t.clear.recoverFull_master x y⟩
    | wake => exact ⟨silent, t.clear.wake_kept.master.trans hsilent.symm⟩
    | iterate => exact ⟨silent, t.clear.diagIteration_kept.master.trans hsilent.symm⟩
  | app e =>
    refine ⟨.app e, ?_⟩
    cases e <;> rfl
  | main reached =>
    refine ⟨silent, ?_⟩
    rw [hsilent, Threads.step, Threads.mainStep]
    split <;> (try split) <;> rfl

/-- The master in a run of the threads makes a run of the main loop. -/
theorem Threads.master_run (t : Threads) (es : List TEvent) :
    ∃ es', (run Threads.step t es).toMaster = run Master.step t.toMaster es' := by
  induction es generalizing t with
  | nil => exact ⟨[], rfl⟩
  | cons e es ih =>
    obtain ⟨e', he'⟩ := t.step_master e
    obtain ⟨es', hes'⟩ := ih (t.step e)
    exact ⟨e' :: es', by rw [run_cons, run_cons, hes', he']⟩

end EcMaster.EcmRun
