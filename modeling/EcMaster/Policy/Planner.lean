import Mathlib

/-!
# The recovery planner of a slave

`ecm_srec_*` of `ecm_policy.c`: what the monitor does with a slave that is not in
OP, from one diagnostic read of it.  An acknowledgement or a reconfiguration is
an attempt; attempts are bounded and backed off.  A slave that reports an AL
status code of the class CONFIG is given up at once.
-/

namespace EcMaster.Policy

/-- `ecm_sact_t`. -/
inductive Sact where
  | none | ack | op | reconfig
deriving DecidableEq, Repr

/-- `ecm_al_class_t`. -/
inductive AlClass where
  | ok | transient | config
deriving DecidableEq, Repr

/-- The codes of the class CONFIG. -/
def alConfigCodes : List Nat :=
  [0x0003, 0x0004, 0x0006, 0x000E, 0x0013, 0x0014, 0x0015, 0x0016, 0x0017, 0x001C, 0x001D,
    0x001E, 0x001F, 0x0024, 0x0025, 0x0026, 0x0027, 0x0028, 0x0029, 0x002E, 0x0030, 0x0031,
    0x0035, 0x0036, 0x0037, 0x0041, 0x0042, 0x0043, 0x0044, 0x0045, 0x004F, 0x0070]

/-- `ecm_al_code_class`. -/
def ecmAlCodeClass (code : Nat) : AlClass :=
  if code = 0 then .ok else if code ∈ alConfigCodes then .config else .transient

/-- The AL states, in the low nibble of the AL status. -/
def alInit : Nat := 0x01
def alPreop : Nat := 0x02
def alSafeop : Nat := 0x04
def alOp : Nat := 0x08

/-- The state in an AL status. -/
def alState (alStatus : Nat) : Nat := alStatus % 16

/-- The error flag in an AL status. -/
def alErr (alStatus : Nat) : Bool := alStatus.testBit 4

/-- `ecm_srec_input_t`. -/
structure SrecInput where
  inReach : Bool
  answered : Bool
  alStatus : Nat
  alCode : Nat
deriving DecidableEq, Repr

/-- `ecm_srec_t`. -/
structure Srec where
  attempts : Nat
  nextTryNs : Nat
  failed : Bool
  failedConfig : Bool
  failedCode : Nat
  unhealthy : Bool
  last : Sact
  recoveries : Nat
  actions : Sact → Nat

/-- `ecm_srec_plan_t`. -/
structure SrecPlan where
  n : Nat
  maxAttempts : Nat
  backoff0Ns : Nat
  s : Nat → Srec

/-- `ECM_SREC_MAX_SLAVES`. -/
def srecMaxSlaves : Nat := 64

/-- `ecm_srec_init`. -/
def ecmSrecInit (n maxAttempts backoff0Ns : Nat) : SrecPlan :=
  { n := if n > srecMaxSlaves then srecMaxSlaves else n
    maxAttempts := maxAttempts
    backoff0Ns := backoff0Ns
    s := fun _ =>
      { attempts := 0, nextTryNs := 0, failed := false, failedConfig := false, failedCode := 0
        unhealthy := false, last := .none, recoveries := 0, actions := fun _ => 0 } }

/-- The planner with slave `i` replaced. -/
def SrecPlan.set (p : SrecPlan) (i : Nat) (s : Srec) : SrecPlan :=
  { p with s := Function.update p.s i s }

/-- `ecm_srec_reset`. -/
def ecmSrecReset (p : SrecPlan) (i : Nat) : SrecPlan :=
  if i ≥ p.n then p
  else
    p.set i
      { p.s i with
        failed := false, failedConfig := false, failedCode := 0, attempts := 0, nextTryNs := 0 }

/-- A decision: the action and the flags `*recovered` and `*gave_up`. -/
structure Decision where
  act : Sact
  recovered : Bool
  gaveUp : Bool
deriving DecidableEq, Repr

/-- The action that the state of the slave asks for. -/
def wantedAct (x : SrecInput) : Sact :=
  if !x.answered || alState x.alStatus = alInit || alState x.alStatus = alPreop then .reconfig
  else if alErr x.alStatus then .ack
  else if alState x.alStatus = alSafeop then .op
  else .none

/-- The end of `ecm_srec_decide`, for a slave that is not healthy and not given up. -/
def planAct (p : SrecPlan) (s : Srec) (nowNs : Nat) (act : Sact) : Srec × Decision :=
  let attempt := act = .ack ∨ act = .reconfig
  if attempt ∧ nowNs < s.nextTryNs then (s, ⟨.none, false, false⟩)
  else if attempt ∧ s.attempts ≥ p.maxAttempts then
    ({ s with failed := true }, ⟨.none, false, true⟩)
  else
    let s :=
      if attempt then
        { s with
          attempts := (s.attempts + 1) % 2 ^ 32
          -- The shift of `backoff0_ns` is by at most 20.
          nextTryNs := (nowNs + p.backoff0Ns * 2 ^ min s.attempts 20) % 2 ^ 64 }
      else s
    let s :=
      if act = .none then s
      else { s with last := act, actions := Function.update s.actions act (s.actions act + 1) }
    (s, ⟨act, false, false⟩)

/-- `ecm_srec_decide`. -/
def ecmSrecDecide (p : SrecPlan) (i : Nat) (x : SrecInput) (nowNs : Nat) :
    SrecPlan × Decision :=
  let s := p.s i
  if i ≥ p.n ∨ !x.inReach then (p, ⟨.none, false, false⟩)
  else if x.answered ∧ alState x.alStatus = alOp ∧ !alErr x.alStatus then
    (p.set i
      { s with
        recoveries := if s.unhealthy then s.recoveries + 1 else s.recoveries
        unhealthy := false, attempts := 0, failed := false, failedConfig := false
        failedCode := 0, nextTryNs := 0, last := .none },
      ⟨.none, s.unhealthy, false⟩)
  else
    let s := { s with unhealthy := true }
    if s.failed then (p.set i s, ⟨.none, false, false⟩)
    else if x.answered ∧ alErr x.alStatus ∧ ecmAlCodeClass x.alCode = .config then
      (p.set i { s with failed := true, failedConfig := true, failedCode := x.alCode },
        ⟨.none, false, true⟩)
    else
      let r := planAct p s nowNs (wantedAct x)
      (p.set i r.1, r.2)

end EcMaster.Policy
