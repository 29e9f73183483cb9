import EcMaster.Lib.Gate
import EcMaster.Lib.Run
import EcMaster.Policy.Planner

/-!
# The fence between a recovery and the SDOs of the API

The monitor's recovery switches the mailbox of a slave to polling and sends on the
socket itself, so no SDO of the API may be in flight then.  `api_fence_begin` sets
`g_sdo_block` and locks `g_sdo_mx`, `api_fence_end` undoes both; `be_sdo` locks
`g_sdo_mx` for every SDO and refuses it while `g_sdo_block` is set.

The two threads are machines that make one access to the shared data per step.
The monitor has a stack of calls, since `recover_full` calls `recover_path_b`.
Both take the fence in the same way, so a call is the work that it does behind the
fence (`Work`) and its place (`Pc`).  `g_sdo_mx` is a plain mutex: a thread that
locks it twice waits for itself.

The fence is the gate of `Lib.Gate` as long as calls are not nested
(`gate_step`).  `fence_holds` says what follows for the program; the condition is
that `recover_full` finds no slave to reconfigure.  `fence_blocks_itself` is the run in
which it does.
-/

namespace EcMaster.EcmRun

open EcMaster.Policy EcMaster.Run

/-! ## The monitor thread -/

/-- The work behind the fence.  `recover_full` starts with `brd`, `recover_path_b`
with `recover`. -/
inductive Work where
  /-- `recover_full`: how many slaves answer. -/
  | brd
  /-- The loop of `recover_full` over the slaves. -/
  | slaves (brd : Int) (todo : List Nat)
  /-- `pd_exchange_all`. -/
  | exchange
  /-- `request_op_keepalive`. -/
  | keepalive
  /-- The last read of the states and the DC anchor. -/
  | readState
  /-- `recover_path_b`: `ecx_recover_slave`. -/
  | recover (s : Nat)
  /-- `ecx_reconfig_slave` with a polled mailbox, and the mode it had before. -/
  | reconfig (s : Nat) (saved : Bool)
deriving DecidableEq, Repr

/-- Where a call is: before the store to `g_sdo_block`, before the lock, at its
work, before the unlock, before the store of 0. -/
inductive Pc where
  | enter
  | lock
  | work (w : Work)
  | unlock
  | clear
deriving DecidableEq, Repr

/-- A call of `recover_full` or `recover_path_b`. -/
structure Call where
  start : Work
  pc : Pc
deriving DecidableEq, Repr

def recoverFull : Call := { start := .brd, pc := .enter }

def recoverPathB (s : Nat) : Call := { start := .recover s, pc := .enter }

/-! ## The API thread -/

/-- The results of `be_sdo`. -/
inductive SdoRc where
  | ok | busy | noMbx | timeout | tooLarge | failed
deriving DecidableEq, Repr

/-- `be_mbx_rc`, with 0 for no error. -/
def beMbxRc (rc : Int) : SdoRc :=
  if rc = 0 then .ok
  else if rc = -1 then .busy
  else if rc = -2 then .timeout
  else if rc = -3 then .tooLarge
  else .failed

/-- Where `be_sdo` is: not called, before the lock, before the check of
`g_sdo_block`, before the check of the mailbox, in the SDO, before the unlock. -/
inductive ApiPc where
  | idle
  | lock (slave : Nat)
  | check (slave : Nat)
  | mbx (slave : Nat)
  | sdo (slave : Nat)
  | unlock (rc : SdoRc)
deriving DecidableEq, Repr

/-! ## The shared state -/

/-- The two threads and what they share.  `mbxCyclic` says which slaves have a
cyclic mailbox (`ECT_MBXH_CYCLIC`), `planning` which slaves `recovery_step` has
still to look at. -/
structure Fence where
  apiOn : Bool
  slavecount : Nat
  recoverCyclicMbx : Bool
  sdoBlock : Bool
  sdoMx : Option Gate.Side
  mbxCyclic : Nat → Bool
  srec : SrecPlan
  calls : List Call
  planning : List Nat
  api : ApiPc

/-- What a step of the monitor finds.  `recover` and `plan` are what an idle
monitor is to do: answer a request, or plan with a fresh diagnostic read.
`wkc` and `alStatus` are the reply of a slave, `diag` is the read of the
planner (`none` if the slave was not in it), `addrOk` and `cfgFail` are the
outcome of a reconfiguration and `opDone` ends the wait for OP. -/
structure RecoveryIn where
  recover : Bool
  plan : Bool
  brd : Int
  wkc : Int
  alStatus : Nat
  diag : Option SrecInput
  nowNs : Nat
  addrOk : Bool
  cfgFail : Bool
  opDone : Bool
deriving DecidableEq, Repr

/-- What a step of the API thread finds: the slave of the next request, and the
result of the mailbox worker. -/
structure ApiIn where
  slave : Option Nat
  rc : Int
deriving DecidableEq, Repr

/-- The monitor's place in its current call. -/
def Fence.goto (m : Fence) (c : Call) (rest : List Call) (pc : Pc) : Fence :=
  { m with calls := { c with pc := pc } :: rest }

/-- The end of the work: `api_fence_end` does nothing without the API. -/
def Fence.endWork (m : Fence) (c : Call) (rest : List Call) : Fence :=
  if m.apiOn then m.goto c rest .unlock else { m with calls := rest }

/-- The slave must be reconfigured. -/
def needsPathB (wkc : Int) (alStatus : Nat) : Bool :=
  wkc ≤ 0 || alState alStatus = alInit || alState alStatus = alPreop

/-- `recover_full` looks at slave `s`. -/
def lookAt (x : RecoveryIn) (m : Fence) (brd : Int) (s : Nat) : Bool :=
  (s : Int) - 1 < brd && !(s - 1 < srecMaxSlaves && (m.srec.s (s - 1)).failedConfig)
    && needsPathB x.wkc x.alStatus

/-- `recover_config_failed`, as far as the planner is concerned. -/
def recoverConfigFailed (m : Fence) (s : Nat) : Fence :=
  if s - 1 < srecMaxSlaves then
    { m with
      srec := m.srec.set (s - 1)
        { m.srec.s (s - 1) with failed := true, failedConfig := true, failedCode := 0 } }
  else m

/-- The end of a reconfiguration: the mailbox mode comes back, and a slave that did
not take its configuration is given up. -/
def reconfigured (x : RecoveryIn) (m : Fence) (s : Nat) (saved : Bool) : Fence :=
  let m :=
    { m with
      mbxCyclic :=
        if m.recoverCyclicMbx then m.mbxCyclic else Function.update m.mbxCyclic s saved }
  if x.cfgFail then recoverConfigFailed m s else m

/-- One piece of the work. -/
def workStep (x : RecoveryIn) (m : Fence) (c : Call) (rest : List Call) : Work → Fence
  | .brd => m.goto c rest (.work (.slaves x.brd ((List.range m.slavecount).map (· + 1))))
  | .slaves _ [] => m.goto c rest (.work .exchange)
  | .slaves brd (s :: todo) =>
      let m' := m.goto c rest (.work (.slaves brd todo))
      -- A slave that needs no reconfiguration gets at most an acknowledgement.
      if lookAt x m brd s then { m' with calls := recoverPathB s :: m'.calls } else m'
  | .exchange => m.goto c rest (.work .keepalive)
  | .keepalive => if x.opDone then m.goto c rest (.work .readState) else m
  | .readState => m.endWork c rest
  | .recover s =>
      if x.addrOk then
        { m.goto c rest (.work (.reconfig s (m.mbxCyclic s))) with
          mbxCyclic :=
            if m.recoverCyclicMbx then m.mbxCyclic else Function.update m.mbxCyclic s false }
      else m.endWork c rest
  | .reconfig s saved => (reconfigured x m s saved).endWork c rest

/-- One step of the call on top. -/
def callStep (x : RecoveryIn) (m : Fence) (c : Call) (rest : List Call) : Fence :=
  match c.pc with
  | .enter =>
      if m.apiOn then { m.goto c rest .lock with sdoBlock := true }
      else m.goto c rest (.work c.start)
  -- Blocked while anyone has the mutex, the caller itself included.
  | .lock =>
      if m.sdoMx = none then { m.goto c rest (.work c.start) with sdoMx := some .guard } else m
  | .work w => workStep x m c rest w
  | .unlock => { m.goto c rest .clear with sdoMx := none }
  | .clear => { m with calls := rest, sdoBlock := false }

/-- `recovery_step` for one slave.  An acknowledgement and a request of OP go to the
RT thread. -/
def planStep (x : RecoveryIn) (m : Fence) (i : Nat) (todo : List Nat) : Fence :=
  let m := { m with planning := todo }
  match x.diag with
  | none => m
  | some d =>
      let r := ecmSrecDecide m.srec i d x.nowNs
      let m := { m with srec := r.1 }
      if r.2.act = .reconfig then { m with calls := [recoverPathB (i + 1)] } else m

/-- One step of the monitor thread. -/
def recoveryStep (x : RecoveryIn) (m : Fence) : Fence :=
  match m.calls, m.planning with
  | c :: rest, _ => callStep x m c rest
  | [], i :: todo => planStep x m i todo
  | [], [] =>
      if x.recover then { m with calls := [recoverFull] }
      else if x.plan then { m with planning := List.range m.srec.n }
      else m

/-- One step of the API thread. -/
def beSdo (x : ApiIn) (m : Fence) : Fence :=
  match m.api with
  | .idle =>
      match x.slave with
      | some s => { m with api := .lock s }
      | none => m
  | .lock s => if m.sdoMx = none then { m with sdoMx := some .client, api := .check s } else m
  | .check s => { m with api := if m.sdoBlock then .unlock .busy else .mbx s }
  | .mbx s => { m with api := if m.mbxCyclic s then .sdo s else .unlock .noMbx }
  | .sdo _ => { m with api := .unlock (beMbxRc x.rc) }
  | .unlock _ => { m with sdoMx := none, api := .idle }

/-- A step of either thread. -/
inductive FEvent where
  | monitor (x : RecoveryIn)
  | api (x : ApiIn)
deriving DecidableEq, Repr

def Fence.step (m : Fence) : FEvent → Fence
  | .monitor x => recoveryStep x m
  | .api x => beSdo x m

/-- The threads when they are created. -/
def Fence.start (apiOn : Bool) (slavecount : Nat) (recoverCyclicMbx : Bool)
    (mbxCyclic : Nat → Bool) : Fence :=
  { apiOn := apiOn
    slavecount := slavecount
    recoverCyclicMbx := recoverCyclicMbx
    sdoBlock := false
    sdoMx := none
    mbxCyclic := mbxCyclic
    srec := ecmSrecInit slavecount 5 1000000000
    calls := []
    planning := []
    api := .idle }

/-! ## The fence is a gate -/

/-- The monitor as the guard of the gate. -/
def guardPc : List Call → Gate.GuardPc
  | [] => .out
  | c :: _ =>
      match c.pc with
      | .enter => .out
      | .lock => .raised
      | .work _ | .unlock => .inside
      | .clear => .released

/-- The API thread as its client. -/
def clientPc : ApiPc → Gate.ClientPc
  | .idle | .lock _ => .out
  | .check _ | .unlock _ => .holding
  | .mbx _ | .sdo _ => .passed

/-- The gate that the two threads are at. -/
def Fence.gate (m : Fence) : Gate :=
  { flag := m.sdoBlock, owner := m.sdoMx, guard := guardPc m.calls, client := clientPc m.api }

/-- `recover_full` is about to call `recover_path_b`. -/
def findsPathB (x : RecoveryIn) (m : Fence) : Bool :=
  match m.calls with
  | { pc := .work (.slaves brd (s :: _)), .. } :: _ => lookAt x m brd s
  | _ => false

/-- The step finds no slave to reconfigure in `recover_full`. -/
def PlainRecovery (_ : List (Rec Fence FEvent)) (r : Rec Fence FEvent) : Prop :=
  match r.ev with
  | .monitor x => findsPathB x r.pre = false
  | .api _ => True

/-- What the work of a call leaves alone: it stays behind the fence. -/
structure Behind (m m' : Fence) : Prop where
  apiOn : m'.apiOn = m.apiOn
  sdoBlock : m'.sdoBlock = m.sdoBlock
  sdoMx : m'.sdoMx = m.sdoMx
  api : m'.api = m.api
  calls : ∃ c, m'.calls = [c] ∧ guardPc [c] = .inside

theorem behind_goto {m : Fence} {c : Call} {w : Work} :
    Behind m (m.goto c [] (.work w)) :=
  ⟨rfl, rfl, rfl, rfl, _, rfl, rfl⟩

theorem behind_endWork {m : Fence} {c : Call} (hon : m.apiOn = true) :
    Behind m (m.endWork c []) := by
  rw [Fence.endWork, if_pos hon]
  exact ⟨rfl, rfl, rfl, rfl, _, rfl, rfl⟩

theorem behind_reconfigured {x : RecoveryIn} {m : Fence} {c : Call} {s : Nat} {saved : Bool}
    (hon : m.apiOn = true) : Behind m ((reconfigured x m s saved).endWork c []) := by
  have hframe : (reconfigured x m s saved).apiOn = m.apiOn ∧
      (reconfigured x m s saved).sdoBlock = m.sdoBlock ∧
      (reconfigured x m s saved).sdoMx = m.sdoMx ∧ (reconfigured x m s saved).api = m.api := by
    unfold reconfigured recoverConfigFailed
    split_ifs <;> simp
  obtain ⟨hon', hblock, hmx, hapi⟩ := hframe
  obtain ⟨h₁, h₂, h₃, h₄, hcalls⟩ := behind_endWork (c := c) (hon'.trans hon)
  exact ⟨h₁.trans hon', h₂.trans hblock, h₃.trans hmx, h₄.trans hapi, hcalls⟩

/-- The work of a call that calls no other. -/
theorem behind_workStep {x : RecoveryIn} {m : Fence} {c : Call} {w : Work}
    (hon : m.apiOn = true) (hcalls : m.calls = [c]) (hpc : c.pc = .work w)
    (hplain : findsPathB x m = false) : Behind m (workStep x m c [] w) := by
  cases w with
  | brd => exact behind_goto
  | slaves brd todo =>
    cases todo with
    | nil => exact behind_goto
    | cons s todo =>
      have hlook : lookAt x m brd s = false := by
        obtain ⟨start, pc⟩ := c
        simp only at hpc
        simpa [findsPathB, hcalls, hpc] using hplain
      rw [workStep, hlook]
      exact behind_goto
  | exchange => exact behind_goto
  | keepalive =>
    rw [workStep]
    split_ifs
    · exact behind_goto
    · exact ⟨rfl, rfl, rfl, rfl, c, hcalls, by rw [guardPc, hpc]⟩
  | readState => exact behind_endWork hon
  | recover s =>
    rw [workStep]
    cases x.addrOk with
    | true => exact ⟨rfl, rfl, rfl, rfl, _, rfl, rfl⟩
    | false => exact behind_endWork hon
  | reconfig s saved => exact behind_reconfigured hon

/-- The monitor has at most one call on its stack. -/
def Fence.Flat (m : Fence) : Prop := m.calls.length ≤ 1

/-- One step of a call that is alone on the stack. -/
theorem gate_callStep {x : RecoveryIn} {m : Fence} {c : Call} (hon : m.apiOn = true)
    (hcalls : m.calls = [c]) (hplain : findsPathB x m = false) :
    (callStep x m c []).apiOn = true ∧ (callStep x m c []).Flat ∧
      Relation.ReflGen Gate.Step m.gate (callStep x m c []).gate := by
  have hguard : m.gate.guard = guardPc [c] := by rw [Fence.gate, hcalls]
  cases hpc : c.pc with
  | enter =>
    have hstep : callStep x m c [] = { m.goto c [] .lock with sdoBlock := true } := by
      simp [callStep, hpc, hon]
    rw [hstep]
    exact ⟨hon, Nat.le_refl 1, .single (.raise (hguard.trans (by rw [guardPc, hpc])))⟩
  | lock =>
    by_cases hmx : m.sdoMx = none
    · have hstep : callStep x m c [] =
          { m.goto c [] (.work c.start) with sdoMx := some .guard } := by
        simp [callStep, hpc, hmx]
      rw [hstep]
      exact ⟨hon, Nat.le_refl 1, .single (.enter (hguard.trans (by rw [guardPc, hpc])) hmx)⟩
    · have hstep : callStep x m c [] = m := by simp [callStep, hpc, hmx]
      rw [hstep]
      exact ⟨hon, by rw [Fence.Flat, hcalls]; exact Nat.le_refl 1, .refl⟩
  | work w =>
    have hstep : callStep x m c [] = workStep x m c [] w := by simp [callStep, hpc]
    obtain ⟨hon', hblock, hmx, hapi, c', hcalls', hin⟩ := behind_workStep hon hcalls hpc hplain
    have hsame : (workStep x m c [] w).gate = m.gate := by
      have hg : guardPc m.calls = .inside := by rw [hcalls, guardPc, hpc]
      simp only [Fence.gate, hblock, hmx, hapi, hcalls', hin, hg]
    rw [hstep, hsame]
    exact ⟨hon'.trans hon, by rw [Fence.Flat, hcalls']; exact Nat.le_refl 1, .refl⟩
  | unlock =>
    have hstep : callStep x m c [] = { m.goto c [] .clear with sdoMx := none } := by
      simp [callStep, hpc]
    rw [hstep]
    exact ⟨hon, Nat.le_refl 1, .single (.leave (hguard.trans (by rw [guardPc, hpc])))⟩
  | clear =>
    have hstep : callStep x m c [] = { m with calls := [], sdoBlock := false } := by
      simp [callStep, hpc]
    rw [hstep]
    exact ⟨hon, Nat.zero_le 1, .single (.lower (hguard.trans (by rw [guardPc, hpc])))⟩

/-- Outside the calls nothing happens to the gate: a call starts before the fence. -/
theorem gate_between {m m' : Fence} (hcalls : m.calls = []) (hblock : m'.sdoBlock = m.sdoBlock)
    (hmx : m'.sdoMx = m.sdoMx) (hapi : m'.api = m.api) (hout : guardPc m'.calls = .out) :
    Relation.ReflGen Gate.Step m.gate m'.gate := by
  have hguard : guardPc m.calls = .out := by rw [hcalls, guardPc]
  have hsame : m'.gate = m.gate := by
    simp only [Fence.gate, hblock, hmx, hapi, hout, hguard]
  rw [hsame]

/-- `recovery_step` starts at most one call. -/
theorem planStep_spec (x : RecoveryIn) {m : Fence} (hcalls : m.calls = []) (i : Nat)
    (todo : List Nat) :
    (planStep x m i todo).apiOn = m.apiOn ∧ (planStep x m i todo).sdoBlock = m.sdoBlock ∧
      (planStep x m i todo).sdoMx = m.sdoMx ∧ (planStep x m i todo).api = m.api ∧
      ((planStep x m i todo).calls = [] ∨
        (planStep x m i todo).calls = [recoverPathB (i + 1)]) := by
  unfold planStep
  cases x.diag with
  | none => exact ⟨rfl, rfl, rfl, rfl, .inl hcalls⟩
  | some d =>
    dsimp only
    split_ifs
    · exact ⟨rfl, rfl, rfl, rfl, .inr rfl⟩
    · exact ⟨rfl, rfl, rfl, rfl, .inl hcalls⟩

/-- One step of the monitor. -/
theorem gate_recoveryStep {x : RecoveryIn} {m : Fence} (hon : m.apiOn = true) (hflat : m.Flat)
    (hplain : findsPathB x m = false) :
    (recoveryStep x m).apiOn = true ∧ (recoveryStep x m).Flat ∧
      Relation.ReflGen Gate.Step m.gate (recoveryStep x m).gate := by
  cases hcalls : m.calls with
  | cons c rest =>
    have hrest : rest = [] := by simpa [Fence.Flat, hcalls] using hflat
    subst hrest
    have hstep : recoveryStep x m = callStep x m c [] := by simp [recoveryStep, hcalls]
    rw [hstep]
    exact gate_callStep hon hcalls hplain
  | nil =>
    cases hplan : m.planning with
    | cons i todo =>
      have hstep : recoveryStep x m = planStep x m i todo := by simp [recoveryStep, hcalls, hplan]
      obtain ⟨hon', hblock, hmx, hapi, hnew⟩ := planStep_spec x hcalls i todo
      rw [hstep]
      refine ⟨hon'.trans hon, ?_, gate_between hcalls hblock hmx hapi ?_⟩
      · rcases hnew with hnew | hnew <;> simp [Fence.Flat, hnew]
      · rcases hnew with hnew | hnew <;> rw [hnew] <;> rfl
    | nil =>
      simp only [recoveryStep, hcalls, hplan]
      split_ifs
      · exact ⟨hon, Nat.le_refl 1, gate_between hcalls rfl rfl rfl rfl⟩
      · exact ⟨hon, Nat.zero_le 1, gate_between hcalls rfl rfl rfl rfl⟩
      · exact ⟨hon, hflat, .refl⟩

/-- One step of the API thread. -/
theorem gate_beSdo (x : ApiIn) (m : Fence) :
    (beSdo x m).apiOn = m.apiOn ∧ (beSdo x m).calls = m.calls ∧
      Relation.ReflGen Gate.Step m.gate (beSdo x m).gate := by
  have hclient : m.gate.client = clientPc m.api := rfl
  have hstay : ∀ pc, clientPc pc = clientPc m.api →
      Relation.ReflGen Gate.Step m.gate { m with api := pc }.gate := by
    intro pc hpc
    have hsame : { m with api := pc }.gate = m.gate := by simp only [Fence.gate, hpc]
    rw [hsame]
  cases hapi : m.api with
  | idle =>
    cases hx : x.slave with
    | none =>
      have hstep : beSdo x m = m := by simp [beSdo, hapi, hx]
      rw [hstep]
      exact ⟨rfl, rfl, .refl⟩
    | some s =>
      have hstep : beSdo x m = { m with api := .lock s } := by simp [beSdo, hapi, hx]
      rw [hstep]
      exact ⟨rfl, rfl, hstay _ (by rw [hapi]; rfl)⟩
  | lock s =>
    by_cases hmx : m.sdoMx = none
    · have hstep : beSdo x m = { m with sdoMx := some .client, api := .check s } := by
        simp [beSdo, hapi, hmx]
      rw [hstep]
      exact ⟨rfl, rfl, .single (.acquire (by rw [hclient, hapi]; rfl) hmx)⟩
    · have hstep : beSdo x m = m := by simp [beSdo, hapi, hmx]
      rw [hstep]
      exact ⟨rfl, rfl, .refl⟩
  | check s =>
    cases hblock : m.sdoBlock with
    | true =>
      have hstep : beSdo x m = { m with api := .unlock .busy } := by simp [beSdo, hapi, hblock]
      rw [hstep]
      exact ⟨rfl, rfl, hstay _ (by rw [hapi]; rfl)⟩
    | false =>
      have hstep : beSdo x m = { m with api := .mbx s } := by simp [beSdo, hapi, hblock]
      rw [hstep]
      exact ⟨rfl, rfl, .single (.pass (by rw [hclient, hapi]; rfl) hblock)⟩
  | mbx s =>
    cases hmbx : m.mbxCyclic s with
    | true =>
      have hstep : beSdo x m = { m with api := .sdo s } := by simp [beSdo, hapi, hmbx]
      rw [hstep]
      exact ⟨rfl, rfl, hstay _ (by rw [hapi]; rfl)⟩
    | false =>
      have hstep : beSdo x m = { m with api := .unlock .noMbx } := by simp [beSdo, hapi, hmbx]
      rw [hstep]
      exact ⟨rfl, rfl, .single (.done (by rw [hclient, hapi]; rfl))⟩
  | sdo s =>
    have hstep : beSdo x m = { m with api := .unlock (beMbxRc x.rc) } := by simp [beSdo, hapi]
    rw [hstep]
    exact ⟨rfl, rfl, .single (.done (by rw [hclient, hapi]; rfl))⟩
  | unlock rc =>
    have hstep : beSdo x m = { m with sdoMx := none, api := .idle } := by simp [beSdo, hapi]
    rw [hstep]
    exact ⟨rfl, rfl, .single (.release (by rw [hclient, hapi]; simp [clientPc]))⟩

/-- The two threads are at a gate: every step of theirs is one of its steps or
none. -/
theorem gate_step {hist : List (Rec Fence FEvent)} {m : Fence} {e : FEvent}
    (hon : m.apiOn = true) (hflat : m.Flat) (hplain : PlainRecovery hist ⟨m, e, m.step e⟩) :
    (m.step e).apiOn = true ∧ (m.step e).Flat ∧
      Relation.ReflGen Gate.Step m.gate (m.step e).gate := by
  cases e with
  | monitor x => exact gate_recoveryStep hon hflat hplain
  | api x =>
    obtain ⟨hon', hcalls, hstep⟩ := gate_beSdo x m
    exact ⟨hon'.trans hon, by rw [Fence.Flat]; exact hcalls ▸ hflat, hstep⟩

/-- So a whole run keeps the invariant of the gate. -/
theorem gate_run {m : Fence} {evs : List FEvent} (hon : m.apiOn = true) (hflat : m.Flat)
    (hinv : m.gate.Inv) (hplain : Along Fence.step m evs PlainRecovery) :
    (run Fence.step m evs).apiOn = true ∧ (run Fence.step m evs).Flat ∧
      (run Fence.step m evs).gate.Inv := by
  refine Along.invariant (I := fun _ m => m.apiOn = true ∧ m.Flat ∧ m.gate.Inv)
    ⟨hon, hflat, hinv⟩ ?_ hplain
  intro hist m e ⟨hon, hflat, hinv⟩ hC
  obtain ⟨hon', hflat', hstep⟩ := gate_step hon hflat hC
  exact ⟨hon', hflat', hinv.of_reflGen hstep⟩

/-! ## What the fence is for -/

/-- The fence at one moment: the monitor does not wait for a mutex that it has;
`g_sdo_block` is set from the first step of a recovery function to its last; and
while the monitor is behind the fence no SDO is between its check and its
completion. -/
structure Fenced (m : Fence) : Prop where
  not_self : ∀ c rest, m.calls = c :: rest → c.pc = .lock → m.sdoMx ≠ some .guard
  blocked : ∀ c ∈ m.calls, c.pc ≠ .enter → m.sdoBlock = true
  alone : ∀ s, m.api = .mbx s ∨ m.api = .sdo s → ∀ c ∈ m.calls, c.pc = .enter ∨ c.pc = .lock

/-- A gate that keeps its invariant fences. -/
theorem fenced_of_gate {m : Fence} (hflat : m.Flat) (hinv : m.gate.Inv) : Fenced m := by
  have hcall : ∀ c ∈ m.calls, m.gate.guard = guardPc [c] := by
    intro c hc
    cases hcalls : m.calls with
    | nil => simp [hcalls] at hc
    | cons c' rest =>
      have hrest : rest = [] := by simpa [Fence.Flat, hcalls] using hflat
      have hcc : c = c' := by simpa [hcalls, hrest] using hc
      rw [Fence.gate, hcalls, hrest, hcc]
  refine ⟨fun c rest hcalls hpc => ?_, fun c hc hpc => ?_, fun s hapi c hc => ?_⟩
  · have hguard := hcall c (by simp [hcalls])
    exact hinv.not_self (hguard.trans (by rw [guardPc, hpc]))
  · refine hinv.flag_up.2 ?_
    rw [hcall c hc, guardPc]
    cases hc' : c.pc <;> simp_all
  · have hpassed : m.gate.client = .passed := by
      rcases hapi with hapi | hapi <;> rw [Fence.gate, hapi] <;> rfl
    have hguard := hinv.exclusive hpassed
    rw [hcall c hc, guardPc] at hguard
    cases hc' : c.pc <;> simp_all

/-- **The fence.**  With the API on, in every run of the two threads in which
`recover_full` finds no slave to reconfigure, the fence holds in every state. -/
theorem fence_holds (slavecount : Nat) (recoverCyclicMbx : Bool) (mbxCyclic : Nat → Bool)
    (evs : List FEvent)
    (hplain : Along Fence.step (Fence.start true slavecount recoverCyclicMbx mbxCyclic) evs
      PlainRecovery) :
    Fenced (run Fence.step (Fence.start true slavecount recoverCyclicMbx mbxCyclic) evs) := by
  have hflat₀ : (Fence.start true slavecount recoverCyclicMbx mbxCyclic).Flat := Nat.zero_le 1
  have hinv₀ : (Fence.start true slavecount recoverCyclicMbx mbxCyclic).gate.Inv := by
    constructor <;> simp [Fence.start, Fence.gate, guardPc, clientPc]
  obtain ⟨-, hflat, hinv⟩ := gate_run rfl hflat₀ hinv₀ hplain
  exact fenced_of_gate hflat hinv

/-! ## Two recoveries -/

instance (hist : List (Rec Fence FEvent)) (r : Rec Fence FEvent) :
    Decidable (PlainRecovery hist r) :=
  match r with
  | ⟨pre, .monitor x, _⟩ => inferInstanceAs (Decidable (findsPathB x pre = false))
  | ⟨_, .api _, _⟩ => inferInstanceAs (Decidable True)

/-- A step of the monitor in which every slave answers with the given AL status. -/
def smallRecovery (wkc : Int) (alStatus : Nat) : FEvent :=
  .monitor
    { recover := true, plan := false, brd := 1, wkc := wkc, alStatus := alStatus, diag := none
      nowNs := 0, addrOk := true, cfgFail := false, opDone := true }

/-- A step of the API thread for an SDO of slave 1. -/
def smallSdo : FEvent := .api { slave := some 1, rc := 0 }

/-- The one slave is in SAFE-OP with an error: it is only acknowledged.  The SDO in
flight is waited for, and the next one is refused. -/
theorem fence_holds_small :
    Fenced (run Fence.step (Fence.start true 1 false fun _ => true)
      [smallSdo, smallSdo, smallSdo, smallSdo, smallRecovery 1 0x14, smallRecovery 1 0x14,
        smallRecovery 1 0x14, smallSdo, smallSdo, smallRecovery 1 0x14, smallRecovery 1 0x14,
        smallRecovery 1 0x14, smallRecovery 1 0x14, smallSdo, smallSdo]) :=
  fence_holds 1 false (fun _ => true) _ (by decide)

/-- The one slave does not answer: `recover_full` calls `recover_path_b`, which locks
`g_sdo_mx` again. -/
theorem fence_blocks_itself :
    ¬ Fenced (run Fence.step (Fence.start true 1 false fun _ => true)
      [smallRecovery 0 0, smallRecovery 0 0, smallRecovery 0 0, smallRecovery 0 0,
        smallRecovery 0 0, smallRecovery 0 0]) :=
  fun hfence => hfence.not_self _ _ rfl rfl rfl

end EcMaster.EcmRun
