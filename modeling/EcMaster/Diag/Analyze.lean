import EcMaster.Lib.Ranked
import EcMaster.Policy.Bus

/-!
# Diagnosis of the bus

`ecm_diag.c` without its texts: the class of a working counter, the reading of the
ESC error counters and the findings that are derived from them.

A read of a slave is the 20-byte block `0x0300..0x0313`.  `ecmDiagIngest` turns
the blocks of one chunk of slaves into deltas and adds them up.  In clear-on-read
mode the block itself is the delta.  `ecmDiagAnalyze` derives the findings in a
fixed order (`findings`), keeps as many as the caller has room for and sorts them
by severity.

Slaves are numbered from `0` here, as the arrays of the source are; a finding
names slave `i` as `i + 1`.  Counters of 64 bits are numbers.
-/

namespace EcMaster.Diag

open EcMaster.Policy EcMaster.Ranked

/-- `ECM_DIAG_MAX_SLAVES`. -/
def maxSlaves : Nat := 64

/-! ## Working counters -/

/-- `ecm_wkc_classify`. -/
def ecmWkcClassify (wkc expected : Int) : WkcClass :=
  if wkc = expected then .wkcOk
  else if wkc < 0 then .wkcNoframe
  else if wkc = 0 then .wkcZero
  else if wkc < expected then .wkcPartial
  else .wkcOver

/-- `ecm_wkc_stats_t`. -/
structure WkcStats where
  count : WkcClass → Nat
  lastMissing : Int
  runBad : Nat
  maxRunBad : Nat

/-- `ecm_wkc_account`. -/
def ecmWkcAccount (st : WkcStats) (wkc expected : Int) : WkcStats :=
  let c := ecmWkcClassify wkc expected
  let st := { st with
    count := Function.update st.count c (st.count c + 1)
    lastMissing := if c = WkcClass.wkcPartial then expected - wkc else st.lastMissing }
  if c = WkcClass.wkcOk then { st with runBad := 0 }
  else { st with runBad := st.runBad + 1, maxRunBad := max st.maxRunBad (st.runBad + 1) }

/-! ## Error counters -/

/-- The block `0x0300..0x0313` of one slave, by offset. -/
abbrev ErrBlock := Nat → UInt8

/-- `ECM_DIAG_PORTS`. -/
abbrev Port := Fin 4

/-- `ecm_diag_counts_t`. -/
@[ext] structure Counts where
  inv : Port → Nat
  rx : Port → Nat
  fwd : Port → Nat
  pu : Nat
  pdi : Nat
  lost : Port → Nat

/-- The counters of a block, by their offsets in it. -/
def countsOf (e : Nat → Nat) : Counts :=
  { inv := fun p => e (2 * p)
    rx := fun p => e (2 * p + 1)
    fwd := fun p => e (8 + p)
    pu := e 12
    pdi := e 13
    lost := fun p => e (16 + p) }

/-- The counter at an offset of the block. -/
def Counts.cell (c : Counts) (j : Nat) : Nat :=
  if j < 8 then
    if j % 2 = 0 then c.inv (Fin.ofNat 4 (j / 2)) else c.rx (Fin.ofNat 4 (j / 2))
  else if j < 12 then c.fwd (Fin.ofNat 4 (j - 8))
  else if j = 12 then c.pu
  else if j = 13 then c.pdi
  else c.lost (Fin.ofNat 4 (j - 16))

/-- `split`. -/
def split (e : ErrBlock) : Counts := countsOf fun j => (e j).toNat

/-- `add`. -/
def Counts.add (t d : Counts) : Counts :=
  { inv := fun p => t.inv p + d.inv p
    rx := fun p => t.rx p + d.rx p
    fwd := fun p => t.fwd p + d.fwd p
    pu := t.pu + d.pu
    pdi := t.pdi + d.pdi
    lost := fun p => t.lost p + d.lost p }

/-- No errors. -/
def noCounts : Counts := countsOf fun _ => 0

/-- `is_counter`: everything in the block but the PDI error code. -/
def isCounter (j : Nat) : Bool := j != 14 && j != 15

theorem countsOf_add (e f : Nat → Nat) :
    (countsOf e).add (countsOf f) = countsOf fun j => e j + f j := rfl

theorem Counts.add_noCounts (c : Counts) : c.add noCounts = c := by
  ext <;> simp [Counts.add, noCounts, countsOf]

theorem Counts.add_assoc (a b c : Counts) : (a.add b).add c = a.add (b.add c) := by
  ext <;> simp [Counts.add, Nat.add_assoc]

/-! ## Reads -/

/-- `ecm_diag_raw_slave_t`. -/
structure RawSlave where
  stationAddr : UInt16
  wkcErr : Int
  wkcDl : Int
  wkcAl : Int
  err : ErrBlock
  dlStatus : UInt16
  alStatus : UInt16
  alCode : UInt16

/-- `ecm_diag_raw_t`: one read of the slaves `first ..< first + count`. -/
structure Raw where
  seq : Nat
  tNs : Nat
  frameOk : Bool
  clearOnRead : Bool
  first : Nat
  count : Nat
  brdCount : Int
  brdAlOr : UInt16
  framesLost : Nat
  handoffDrops : Nat
  ngroups : Nat
  wkc : Fin 2 → WkcStats
  s : Nat → RawSlave

/-- `ecm_emcy_t`. -/
structure Emcy where
  tNs : Nat
  tick : Nat
  code : UInt16
  reg : UInt8
  data : Fin 5 → UInt8

/-- `ecm_diag_slave_t`. -/
structure DiagSlave where
  tot : Counts
  last : Counts
  prev : ErrBlock
  havePrev : Bool
  saturated : Nat
  answered : Bool
  everAnswered : Bool
  noAnswer : Nat
  stationAddr : UInt16
  dlStatus : UInt16
  alStatus : UInt16
  alCode : UInt16
  seenRead : Nat
  emcyCount : Nat
  emcy : Nat → Emcy
  emcyNext : Nat

/-- `ecm_diag_t`. -/
structure DiagModel where
  n : Nat
  expectedState : UInt16
  reads : Nat
  framesLost : Nat
  handoffDrops : Nat
  lastSeq : Nat
  lastTNs : Nat
  brdCount : Int
  brdAlOr : UInt16
  ngroups : Nat
  wkc : Fin 2 → WkcStats
  s : Nat → DiagSlave
  emcyTotal : Nat
  emcyLost : Nat
  emcyBadSlave : Nat

/-- A slave that was never read. -/
def unread : DiagSlave :=
  { tot := noCounts, last := noCounts, prev := fun _ => 0, havePrev := false, saturated := 0
    answered := false, everAnswered := false, noAnswer := 0
    stationAddr := 0, dlStatus := 0, alStatus := 0, alCode := 0, seenRead := 0
    emcyCount := 0
    emcy := fun _ => { tNs := 0, tick := 0, code := 0, reg := 0, data := fun _ => 0 }
    emcyNext := 0 }

/-- `ecm_diag_init`. -/
def ecmDiagInit (n : Nat) (expectedState : UInt16) : DiagModel :=
  { n := if maxSlaves < n then maxSlaves else n
    expectedState := expectedState
    reads := 0, framesLost := 0, handoffDrops := 0, lastSeq := 0, lastTNs := 0
    brdCount := -1, brdAlOr := 0, ngroups := 0
    wkc := fun _ => { count := fun _ => 0, lastMissing := 0, runBad := 0, maxRunBad := 0 }
    s := fun _ => unread
    emcyTotal := 0, emcyLost := 0, emcyBadSlave := 0 }

/-- What one read adds to each counter. -/
def delta (clearOnRead : Bool) (s : DiagSlave) (err : ErrBlock) : ErrBlock := fun j =>
  if !isCounter j then 0
  else if clearOnRead || !s.havePrev then err j
  else if s.prev j ≤ err j then err j - s.prev j
  else err j  -- cleared meanwhile, or a power cycle

/-- The error block of a slave that answered for it. -/
def ingestCounters (clearOnRead : Bool) (err : ErrBlock) (s : DiagSlave) : DiagSlave :=
  let last := split (delta clearOnRead s err)
  let sat := (List.range 20).any fun j => isCounter j && err j == 0xFF
  { s with
    prev := if clearOnRead then fun _ => 0 else err
    havePrev := !clearOnRead
    saturated := if sat then s.saturated + 1 else s.saturated
    last := last
    tot := s.tot.add last }

/-- The body of the loop of `ecm_diag_ingest`. -/
def ingestSlave (clearOnRead : Bool) (reads : Nat) (r : RawSlave) (s : DiagSlave) : DiagSlave :=
  let answered := decide (0 < r.wkcErr) || decide (0 < r.wkcAl)
  let s := { s with
    seenRead := reads, stationAddr := r.stationAddr, last := noCounts, answered := answered }
  if !answered then { s with noAnswer := s.noAnswer + 1 }
  else
    let s := { s with everAnswered := true }
    let s := if 0 < r.wkcErr then ingestCounters clearOnRead r.err s else s
    let s := if 0 < r.wkcDl then { s with dlStatus := r.dlStatus } else s
    if 0 < r.wkcAl then { s with alStatus := r.alStatus, alCode := r.alCode } else s

/-- `ecm_diag_ingest`. -/
def ecmDiagIngest (d : DiagModel) (raw : Raw) : DiagModel :=
  let d := { d with
    reads := d.reads + 1
    lastSeq := raw.seq
    lastTNs := raw.tNs
    framesLost := raw.framesLost
    handoffDrops := raw.handoffDrops
    ngroups := min raw.ngroups 2
    wkc := raw.wkc }
  if !raw.frameOk then d
  else
    { d with
      brdCount := raw.brdCount
      brdAlOr := raw.brdAlOr
      s := fun i =>
        if raw.first ≤ i ∧ i < min (raw.first + raw.count) d.n then
          ingestSlave raw.clearOnRead d.reads (raw.s i) (d.s i)
        else d.s i }

@[simp] theorem ecmDiagIngest_n (d : DiagModel) (raw : Raw) : (ecmDiagIngest d raw).n = d.n := by
  unfold ecmDiagIngest
  dsimp only
  split <;> rfl

/-- The totals after a read that came back. -/
theorem ingestSlave_tot (reads : Nat) (r : RawSlave) (s : DiagSlave) :
    (ingestSlave true reads r s).tot =
      if 0 < r.wkcErr then s.tot.add (split r.err) else s.tot := by
  have hsplit : ∀ t : DiagSlave, split (delta true t r.err) = split r.err := by
    intro t
    have hkept : ∀ j, isCounter j = true → delta true t r.err j = r.err j := by
      intro j hj
      simp [delta, hj]
    ext p
    all_goals first
      | exact congrArg UInt8.toNat (hkept _ (by decide))
      | exact congrArg UInt8.toNat (hkept _ (by revert p; decide))
  unfold ingestSlave
  by_cases herr : 0 < r.wkcErr
  · simp only [herr, decide_true, Bool.true_or, Bool.not_true, Bool.false_eq_true, if_false,
      if_true]
    unfold ingestCounters
    split <;> split <;> simp only [hsplit]
  · by_cases hal : 0 < r.wkcAl <;> simp [herr, hal]
    split <;> rfl

/-! ## Findings -/

/-- `ecm_find_type_t`. -/
inductive FindType where
  | chainBroken | missingLinkUp | noAddress | cableFwd | cableRet | fwdNoOrigin | puOnly | pdi
  | lostLink | state | saturated | diagLost | emcy | emcyLost
deriving DecidableEq, Repr

/-- `ecm_sev_t`. -/
inductive Sev where
  | info | warn | error
deriving DecidableEq, Repr

/-- The order of the enumeration. -/
def Sev.rank : Sev → Nat
  | .info => 0 | .warn => 1 | .error => 2

/-- `ecm_diag_finding_t`. -/
structure Finding where
  type : FindType
  sev : Sev
  a : Nat
  b : Nat
  c : Nat
  count : Nat
  active : Bool
deriving DecidableEq, Repr

/-- Link of a port in the DL status. -/
def dlLinkPort (p : Nat) (dl : UInt16) : Bool := dl.toNat.testBit (4 + p)

/-- 1. How far does the frame get? -/
def topology (d : DiagModel) : List Finding :=
  if 0 ≤ d.brdCount ∧ d.brdCount < d.n then
    let m := d.brdCount.toNat
    if m = 0 then [⟨.chainBroken, .error, 0, d.n, 0, 0, true⟩]
    else
      let s := d.s (m - 1)
      let known := s.answered && s.seenRead == d.reads
      if known && dlLinkPort 1 s.dlStatus then [⟨.missingLinkUp, .error, m, d.n, 0, 0, true⟩]
      else [⟨.chainBroken, .error, m, d.n, 0, 0, true⟩]
  else []

/-- 2. On the bus but not answering its address. -/
def unaddressed (d : DiagModel) : List Finding :=
  let onBus := if d.brdCount < 0 then d.n else min d.brdCount.toNat d.n
  (List.range onBus).flatMap fun i =>
    let s := d.s i
    if s.seenRead == d.reads && !s.answered then
      [⟨.noAddress, .error, i + 1, 0, s.stationAddr.toNat, s.noAnswer, true⟩]
    else []

/-- The errors that were first seen on a port. -/
def originCount (c : Counts) (p : Port) : Nat := max (c.inv p) (c.rx p)

/-- The finding of the errors first seen on port `p` of slave `i`. -/
def originFinding (d : DiagModel) (i : Nat) (p : Port) : List Finding :=
  let s := d.s i
  if originCount s.tot p = 0 then []
  else
    let act := decide (0 < s.last.inv p + s.last.rx p)
    [{ type := if p = 0 then .cableFwd else .cableRet
       sev := if act then .error else .warn
       a := i + 1, b := p, c := 0, count := originCount s.tot p, active := act }]

/-- 3. Frame errors: origins first. -/
def origins (d : DiagModel) : List Finding :=
  (List.range d.n).flatMap fun i => (List.finRange 4).flatMap (originFinding d i)

/-- `any_origin`. -/
def anyOrigin (d : DiagModel) : Bool :=
  (List.range d.n).any fun i => (List.finRange 4).any fun p => originCount (d.s i).tot p ≠ 0

/-- All forwarded errors of a slave. -/
def fwdTotal (c : Counts) : Nat := c.fwd 0 + c.fwd 1 + c.fwd 2 + c.fwd 3

/-- The variables of the loop over forwarded errors. -/
structure FwdScan where
  first : Nat
  sum : Nat
  originSoFar : Bool

/-- One turn of that loop. -/
def FwdScan.turn (d : DiagModel) (x : FwdScan) (i : Nat) : FwdScan :=
  let c := (d.s i).tot
  let originSoFar := x.originSoFar || decide (c.inv 0 ≠ 0) || decide (c.rx 0 ≠ 0)
  let unexplained := decide (c.fwd 0 ≠ 0) && !originSoFar || decide (fwdTotal c ≠ 0) && !anyOrigin d
  if unexplained then
    { first := if x.first = 0 then i + 1 else x.first, sum := x.sum + fwdTotal c
      originSoFar := originSoFar }
  else { x with originSoFar := originSoFar }

/-- Forwarded errors on port 0 need an origin on port 0 of a slave not behind it;
forwarded errors anywhere need at least one origin. -/
def forwarded (d : DiagModel) : List Finding :=
  let x := (List.range d.n).foldl (FwdScan.turn d) ⟨0, 0, false⟩
  if x.first = 0 then [] else [⟨.fwdNoOrigin, .warn, x.first, 0, 0, x.sum, false⟩]

/-- `port_err`. -/
def portErr (c : Counts) : Bool :=
  (List.finRange 4).any fun p => c.inv p ≠ 0 || c.rx p ≠ 0 || c.fwd p ≠ 0

/-- The errors of a slave that no cable is behind. -/
def slaveErrors (d : DiagModel) : List Finding :=
  (List.range d.n).flatMap fun i =>
    let s := d.s i
    (if s.tot.pu ≠ 0 ∧ portErr s.tot = false then
      [⟨.puOnly, .warn, i + 1, 0, 0, s.tot.pu, decide (0 < s.last.pu)⟩] else []) ++
    (if s.tot.pdi ≠ 0 then
      [⟨.pdi, if s.last.pdi ≠ 0 then .error else .warn, i + 1, 0, 0, s.tot.pdi,
        decide (0 < s.last.pdi)⟩] else []) ++
    ((List.finRange 4).flatMap fun p =>
      if s.tot.lost p ≠ 0 then
        [⟨.lostLink, .warn, i + 1, p, 0, s.tot.lost p, decide (0 < s.last.lost p)⟩] else []) ++
    (if s.saturated ≠ 0 then [⟨.saturated, .warn, i + 1, 0, 0, s.saturated, false⟩] else [])

/-- 4. AL state of every slave that answered this time. -/
def alStates (d : DiagModel) : List Finding :=
  (List.range d.n).flatMap fun i =>
    let s := d.s i
    if !s.answered || s.seenRead != d.reads then []
    else if s.alStatus &&& 0x10 ≠ 0 ∨
        (d.expectedState ≠ 0 ∧ s.alStatus &&& 0x0F ≠ d.expectedState) then
      [⟨.state, .error, i + 1, s.alStatus.toNat, s.alCode.toNat, 0, true⟩]
    else []

/-- `ecm_diag_emcy`, for a slave of the array. -/
def ecmDiagEmcy (s : DiagSlave) (k : Nat) : Option Emcy :=
  if 4 ≤ k ∨ s.emcyCount ≤ k then none else some (s.emcy ((s.emcyNext + 7 - k) % 4))

/-- 5. Emergency messages. -/
def emergencies (d : DiagModel) : List Finding :=
  (List.range d.n).flatMap fun i =>
    match ecmDiagEmcy (d.s i) 0 with
    | none => []
    | some e =>
        [⟨.emcy, if e.code ≠ 0 then .warn else .info, i + 1, e.reg.toNat, e.code.toNat,
          (d.s i).emcyCount, decide (e.code ≠ 0)⟩]

/-- Every finding, in the order of derivation. -/
def findings (d : DiagModel) : List Finding :=
  topology d ++ unaddressed d ++ origins d ++ forwarded d ++ slaveErrors d ++ alStates d ++
    (if d.framesLost ≠ 0 then [⟨.diagLost, .info, 0, 0, 0, d.framesLost, false⟩] else []) ++
    emergencies d ++
    (if d.emcyLost ≠ 0 then [⟨.emcyLost, .warn, 0, 0, 0, d.emcyLost, false⟩] else [])

/-- `ecm_diag_analyze`: what is in `out` afterwards. -/
def ecmDiagAnalyze (d : DiagModel) (max : Nat) : List Finding :=
  sortBack (fun f => f.sev.rank) ((findings d).foldl (push max) [])

/-- With room for all of them the findings are only reordered. -/
theorem ecmDiagAnalyze_perm {d : DiagModel} {max : Nat} (h : (findings d).length ≤ max) :
    (ecmDiagAnalyze d max).Perm (findings d) := by
  unfold ecmDiagAnalyze
  rw [foldl_push, List.take_of_length_le h]
  exact sortBack_perm _ _

end EcMaster.Diag
