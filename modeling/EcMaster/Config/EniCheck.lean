import EcMaster.Config.Eni

/-!
# The check of a configuration

`ecm_eni_check_supported` of `ecm_eni.c`: what a configuration asks for and the master
does not do.  It refuses process data by LRD and LWR, register InitCmds that are not in
the table `knownRegs`, and DC register InitCmds that do not say the same as the slave
record.  Each finding counts in `bad` or in `warn` and adds a line to the message.

The last loop reads `slave[pos - 1]` of an array of 64 slaves, whatever the position of
the InitCmd is.  `slaveAt` is that access: a slave, the zeroes behind the slaves, or
nothing behind the array, and then `ecmEniCheckSupported` has no result.
-/

namespace EcMaster.Config

open EcMaster.CText
open EcMaster.Records

/-! ## Commands and registers -/

/-- `ecm_eni_cmd_name`. -/
def ecmEniCmdName (cmd : Nat) : Text :=
  (["NOP", "APRD", "APWR", "APRW", "FPRD", "FPWR", "FPRW", "BRD", "BWR", "BRW", "LRD", "LWR",
    "LRW", "ARMW", "FRMW"].map txt).getD cmd (txt "?")

/-- `K_RD` and `K_WR`. -/
inductive Access
  | rd
  | wr
deriving DecidableEq, Repr

/-- `cmd_kind`. -/
def cmdKind (cmd : Nat) : Option Access :=
  if cmd = 1 ∨ cmd = 4 ∨ cmd = 7 then some .rd
  else if cmd = 2 ∨ cmd = 5 ∨ cmd = 8 then some .wr
  else none

/-- A line of `KNOWN_REGS`. -/
structure KnownReg where
  ado : Nat
  kinds : List Access
  zeroOnly : Bool
  why : String

/-- `KNOWN_REGS`. -/
def knownRegs : List KnownReg :=
  [ ⟨0x0010, [.rd, .wr], false, "station address: SOEM ecx_config_init"⟩
  , ⟨0x0101, [.wr], false, "DL control: SOEM ecx_config_init"⟩
  , ⟨0x0103, [.wr], false, "DL control (loop): SOEM ecx_config_init"⟩
  , ⟨0x0120, [.wr], false, "AL control: ecm_run state machine"⟩
  , ⟨0x0130, [.rd], false, "AL status: ecm_run state machine"⟩
  , ⟨0x0200, [.wr], false, "ECAT event mask: SOEM ecx_config_init"⟩
  , ⟨0x0300, [.wr], false, "RX error counters: SOEM ecx_config_init"⟩
  , ⟨0x0500, [.wr], false, "SII ownership: SOEM SII access"⟩
  , ⟨0x0502, [.rd, .wr], false, "SII control: SOEM SII access (identity check E-03)"⟩
  , ⟨0x0508, [.rd], false, "SII data: SOEM SII access (identity check E-03)"⟩
  , ⟨0x0600, [.wr], false, "FMMU 0: SOEM ecx_config_map_group"⟩
  , ⟨0x0610, [.wr], false, "FMMU 1: SOEM ecx_config_map_group"⟩
  , ⟨0x0620, [.wr], false, "FMMU 2: SOEM ecx_config_map_group"⟩
  , ⟨0x0630, [.wr], false, "FMMU 3: SOEM ecx_config_map_group"⟩
  , ⟨0x0800, [.rd, .wr], false, "SM 0: SOEM (SII / CoE)"⟩
  , ⟨0x0808, [.wr], false, "SM 1: SOEM (SII / CoE)"⟩
  , ⟨0x0810, [.wr], false, "SM 2: SOEM (SII / CoE); size checked by the layout check"⟩
  , ⟨0x0818, [.wr], false, "SM 3: SOEM (SII / CoE); size checked by the layout check"⟩
  , ⟨0x0820, [.wr], false, "SM 4: SOEM (SII / CoE)"⟩
  , ⟨0x0828, [.wr], false, "SM 5: SOEM (SII / CoE)"⟩
  , ⟨0x0910, [.wr], false, "DC system time: SOEM ecx_configdc"⟩
  , ⟨0x0930, [.wr], false, "DC speed counter start: SOEM ecx_configdc"⟩
  , ⟨0x0934, [.wr], false, "DC filter: SOEM ecx_configdc"⟩
  , ⟨0x0980, [.wr], false, "DC AssignActivate: ecm_run from the ENI (assign)"⟩
  , ⟨0x0981, [.wr], false, "DC activation: ecm_run DC setup"⟩
  , ⟨0x0990, [.wr], false, "DC start time: ecm_run DC setup"⟩
  , ⟨0x09A0, [.wr], false, "SYNC0 (+ SYNC1) cycle: ecm_run from the ENI (sync0_ns, sync1_ns)"⟩
  , ⟨0x09A4, [.wr], false, "SYNC1 cycle: ecm_run from the ENI (sync1_ns, Phase 9.5)"⟩
  , ⟨0x09A8, [.wr], true, "latch control left at reset (0): latch not used by ecm_run"⟩ ]

/-- `ecm_eni_reg_known`: the answer and the reason. -/
def ecmEniRegKnown (r : EniReg) : Bool × Text :=
  match knownRegs.find? (·.ado == r.ado) with
  | none => (false, txt "not done by SOEM/ecm_run")
  | some known =>
      match cmdKind r.cmd with
      | none => (false, txt "register known, but not with this command")
      | some kind =>
          if !known.kinds.contains kind then
            (false, txt "register known, but not with this command")
          else if known.zeroOnly ∧ kind = .wr ∧ r.data.any (· ≠ 0) then
            (false, txt "non-zero write; ecm_run only supports the reset value")
          else (true, txt known.why)

/-! ## The report -/

/-- `bad`, `warn` and the message. -/
structure Report where
  bad : Nat
  warn : Nat
  err : Text
deriving DecidableEq, Repr

/-- A finding that refuses the configuration. -/
def Report.addBad (rep : Report) (msg : Text) : Report :=
  { rep with bad := rep.bad + 1, err := rep.err ++ msg ++ txt "\n" }

/-- A finding that does not. -/
def Report.addWarn (rep : Report) (msg : Text) : Report :=
  { rep with warn := rep.warn + 1, err := rep.err ++ msg ++ txt "\n" }

/-- `trans_list`. -/
def transList (mask : Nat) : Text :=
  (txt ",").intercalate
    (((List.range 16).filter (mask.testBit ·)).map fun i => transNames.getD i (txt "?"))

/-- The line about a register InitCmd that is not known. -/
def unknownRegText (allowUnknownReg : Bool) (r : EniReg) (why : Text) : Text :=
  let hex := (r.data.map fun b => hexLower 2 b.toNat).flatten ++
    if r.data.length < r.len then txt ".." else []
  (if allowUnknownReg then txt "warning: " else []) ++
    (if r.pos ≠ 0 then txt "slave " ++ dec r.pos else txt "master") ++
    txt " register InitCmd " ++ transList r.trans ++ txt " " ++ ecmEniCmdName r.cmd ++
    txt " 0x" ++ hexUpper 4 r.ado ++ txt " len " ++ dec r.len ++ txt " data " ++
    (if hex = [] then txt "-" else hex) ++ txt ": " ++ why

/-- The body of the first loop over the register InitCmds. -/
def checkKnown (allowUnknownReg : Bool) (rep : Report) (r : EniReg) : Report :=
  let known := ecmEniRegKnown r
  if known.1 then rep
  else
    let msg := unknownRegText allowUnknownReg r known.2
    if allowUnknownReg then rep.addWarn msg else rep.addBad msg

/-! ## The DC registers -/

/-- `ECM_ENI_T_PS`. -/
abbrev transPs : Nat := 2

/-- `eni->slave[i]`. -/
def slaveAt (eni : Eni) (i : Nat) : Option EniSlave :=
  if i < ecmEniMaxSlaves then
    some (eni.slave.getD i
      { pos := 0, name := [], vendor := 0, product := 0, rev := 0, checkRev := false, addr := 0
        osizeBits := 0, isizeBits := 0, dc := false, refclock := false, sync0Ns := 0
        sync1Ns := 0, shiftNs := 0, assign := 0, stateMs := [0, 0, 0] })
  else none

/-- Bytes, the least significant one first. -/
def littleEndian : List UInt8 → Nat
  | [] => 0
  | b :: bs => b.toNat + 256 * littleEndian bs

/-- The `n` bytes of the InitCmd from byte `i` on, as a number. -/
def EniReg.number (r : EniReg) (i n : Nat) : Nat := littleEndian ((r.data.drop i).take n)

/-- `want`, `got` and `what`: the numbers that have to be equal. -/
def dcCompared (s : EniSlave) (r : EniReg) : List (Nat × Nat) × Text :=
  if r.ado = 0x0980 ∧ 2 ≤ r.data.length then ([(s.assign, r.number 0 2)], txt "AssignActivate")
  else if r.ado = 0x09A0 ∧ 4 ≤ r.data.length then
    ((s.sync0Ns, r.number 0 4) :: if 8 ≤ r.data.length then [(s.sync1Ns, r.number 4 4)] else [],
      txt "SYNC0/SYNC1 cycle")
  else if r.ado = 0x09A4 ∧ 4 ≤ r.data.length then
    ([(s.sync1Ns, r.number 0 4)], txt "SYNC1 cycle")
  else ([], [])

/-- The InitCmds that the second loop does not pass over. -/
def readsSlave (r : EniReg) : Bool :=
  r.pos ≠ 0 ∧ r.trans.testBit transPs ∧ cmdKind r.cmd = some .wr

/-- One comparison. -/
def compareDc (r : EniReg) (what : Text) (rep : Report) (x : (Nat × Nat) × Nat) : Report :=
  if x.1.1 = x.1.2 then rep
  else
    rep.addBad (txt "slave " ++ dec r.pos ++ txt ": DC register InitCmd 0x" ++
      hexUpper 4 (r.ado + 4 * x.2) ++ txt " (" ++ what ++ txt ") writes " ++ dec x.1.2 ++
      txt ", the DC element says " ++ dec x.1.1)

/-- The body of the second loop over the register InitCmds. -/
def checkDc (eni : Eni) (rep : Report) (r : EniReg) : Option Report :=
  if readsSlave r then
    (slaveAt eni (r.pos - 1)).map fun s =>
      if s.dc then
        let compared := dcCompared s r
        compared.1.zipIdx.foldl (compareDc r compared.2) rep
      else rep
  else some rep

/-- `ecm_eni_check_supported`. -/
def ecmEniCheckSupported (eni : Eni) (allowUnknownReg : Bool) : Option Report :=
  let rep : Report := { bad := 0, warn := 0, err := [] }
  let rep :=
    if eni.version < 2 then
      rep.addWarn (txt "warning: enicfg " ++ dec eni.version ++ txt
        " has no register InitCmds / process data command: " ++
        txt "not checked (regenerate with tools/eni/eni2cfg.py)")
    else rep
  let rep :=
    if eni.pdCmd = .lrdLwr then
      rep.addBad (txt "process data by LRD/LWR not supported, use LRW (SOEM maps one LRW; " ++
        txt "TwinCAT: untick 'Use RD/WR instead of RW' in every Box)")
    else rep
  (eni.reg.foldl (checkKnown allowUnknownReg) rep) |> eni.reg.foldlM (checkDc eni)

/-! ## What a report without findings says -/

section Clean

variable {α : Type}

/-- A loop that never takes a finding back and ends without one has none at any turn. -/
theorem clean_foldl {f : Report → α → Report} (hmono : ∀ rep x, rep.bad ≤ (f rep x).bad) :
    ∀ {xs : List α} {rep : Report}, (xs.foldl f rep).bad = 0 →
      rep.bad = 0 ∧ ∀ x ∈ xs, ∃ rep', rep'.bad = 0 ∧ (f rep' x).bad = 0
  | [], _, h => ⟨h, nofun⟩
  | x :: xs, rep, h => by
      obtain ⟨hnext, hall⟩ := @clean_foldl _ hmono xs (f rep x) h
      have hrep : rep.bad = 0 := Nat.le_zero.1 (hnext ▸ hmono rep x)
      refine ⟨hrep, ?_⟩
      intro y hy
      rcases List.mem_cons.1 hy with rfl | hy
      · exact ⟨rep, hrep, hnext⟩
      · exact hall y hy

theorem clean_foldlM {f : Report → α → Option Report}
    (hmono : ∀ rep x rep', f rep x = some rep' → rep.bad ≤ rep'.bad) :
    ∀ {xs : List α} {rep last : Report}, xs.foldlM f rep = some last → last.bad = 0 →
      rep.bad = 0 ∧ ∀ x ∈ xs, ∃ rep' next, f rep' x = some next ∧ next.bad = 0
  | [], rep, last, h, hlast => by
      rw [List.foldlM_nil, Option.pure_def, Option.some.injEq] at h
      exact ⟨h ▸ hlast, nofun⟩
  | x :: xs, rep, last, h, hlast => by
      rw [List.foldlM_cons, Option.bind_eq_bind, Option.bind_eq_some_iff] at h
      obtain ⟨next, hx, hrest⟩ := h
      obtain ⟨hnext, hall⟩ := clean_foldlM hmono hrest hlast
      have hrep : rep.bad = 0 := Nat.le_zero.1 (hnext ▸ hmono rep x next hx)
      refine ⟨hrep, ?_⟩
      intro y hy
      rcases List.mem_cons.1 hy with rfl | hy
      · exact ⟨rep, next, hx, hnext⟩
      · exact hall y hy

/-- A loop whose turns all leave a report alone leaves it alone. -/
theorem foldl_kept {f : Report → α → Report} {rep : Report} :
    ∀ {xs : List α}, (∀ x ∈ xs, f rep x = rep) → xs.foldl f rep = rep
  | [], _ => rfl
  | x :: xs, h => by
      rw [List.foldl_cons, h x List.mem_cons_self]
      exact foldl_kept fun y hy => h y (List.mem_cons_of_mem x hy)

theorem foldlM_kept {f : Report → α → Option Report} {rep : Report} :
    ∀ {xs : List α}, (∀ x ∈ xs, f rep x = some rep) → xs.foldlM f rep = some rep
  | [], _ => rfl
  | x :: xs, h => by
      rw [List.foldlM_cons, h x List.mem_cons_self]
      exact foldlM_kept fun y hy => h y (List.mem_cons_of_mem x hy)

end Clean

theorem bad_le_checkKnown (allow : Bool) (rep : Report) (r : EniReg) :
    rep.bad ≤ (checkKnown allow rep r).bad := by
  unfold checkKnown
  dsimp only
  split
  · exact Nat.le_refl _
  · split
    · exact Nat.le_refl _
    · exact Nat.le_succ _

theorem bad_le_compareDc (r : EniReg) (what : Text) (rep : Report) (x : (Nat × Nat) × Nat) :
    rep.bad ≤ (compareDc r what rep x).bad := by
  unfold compareDc
  split
  · exact Nat.le_refl _
  · exact Nat.le_succ _

theorem bad_le_foldl {α : Type} {f : Report → α → Report}
    (hmono : ∀ rep x, rep.bad ≤ (f rep x).bad) (xs : List α) (rep : Report) :
    rep.bad ≤ (xs.foldl f rep).bad := by
  induction xs generalizing rep with
  | nil => exact Nat.le_refl _
  | cons x xs ih => exact Nat.le_trans (hmono rep x) (ih (f rep x))

theorem bad_le_checkDc {eni : Eni} {rep rep' : Report} {r : EniReg}
    (h : checkDc eni rep r = some rep') : rep.bad ≤ rep'.bad := by
  unfold checkDc at h
  split at h
  · obtain ⟨s, -, rfl⟩ := Option.map_eq_some_iff.1 h
    split
    · exact bad_le_foldl (bad_le_compareDc r _) _ rep
    · exact Nat.le_refl _
  · rw [Option.some.inj h]

/-- The check finds nothing that refuses the configuration. -/
def Passes (eni : Eni) : Prop := ∃ rep, ecmEniCheckSupported eni false = some rep ∧ rep.bad = 0

/-- What is left when the check finds nothing. -/
structure Clean (eni : Eni) : Prop where
  lrw : eni.pdCmd ≠ .lrdLwr
  known : ∀ r ∈ eni.reg, (ecmEniRegKnown r).1 = true
  read : ∀ r ∈ eni.reg, readsSlave r = true → ∃ s, slaveAt eni (r.pos - 1) = some s ∧
    (s.dc = true → ∀ x ∈ (dcCompared s r).1, x.1 = x.2)

theorem clean_of_passes {eni : Eni} (hpasses : Passes eni) : Clean eni := by
  obtain ⟨rep, h, hbad⟩ := hpasses
  unfold ecmEniCheckSupported at h
  dsimp only at h
  obtain ⟨hfirst, hsecond⟩ := clean_foldlM (fun _ _ _ => bad_le_checkDc) h hbad
  obtain ⟨hstart, hknown⟩ := clean_foldl (bad_le_checkKnown false) hfirst
  refine ⟨?_, ?_, ?_⟩
  · intro hlrd
    rw [if_pos hlrd] at hstart
    exact absurd hstart (Nat.succ_ne_zero _)
  · intro r hr
    obtain ⟨rep', -, hclean⟩ := hknown r hr
    unfold checkKnown at hclean
    dsimp only at hclean
    split at hclean
    · assumption
    · exact absurd hclean (Nat.succ_ne_zero _)
  · intro r hr hreads
    obtain ⟨rep', next, hstep, hclean⟩ := hsecond r hr
    unfold checkDc at hstep
    rw [if_pos hreads, Option.map_eq_some_iff] at hstep
    obtain ⟨s, hs, rfl⟩ := hstep
    refine ⟨s, hs, ?_⟩
    intro hdc x hx
    dsimp only at hclean
    rw [if_pos hdc] at hclean
    obtain ⟨-, hall⟩ := clean_foldl (bad_le_compareDc r _) hclean
    obtain ⟨i, hi, hxi⟩ := List.mem_iff_getElem.1 hx
    have hmem : (x, i) ∈ (dcCompared s r).1.zipIdx := by
      rw [List.mem_zipIdx_iff_getElem?]
      exact List.getElem?_eq_some_iff.2 ⟨hi, hxi⟩
    obtain ⟨rep'', -, hequal⟩ := hall (x, i) hmem
    unfold compareDc at hequal
    split at hequal
    · assumption
    · exact absurd hequal (Nat.succ_ne_zero _)

theorem Clean.checkDc {eni : Eni} (h : Clean eni) {r : EniReg} (hr : r ∈ eni.reg) (rep : Report) :
    checkDc eni rep r = some rep := by
  unfold Config.checkDc
  split
  · rename_i hreads
    obtain ⟨s, hs, hequal⟩ := h.read r hr hreads
    rw [hs, Option.map_some]
    split
    · rename_i hdc
      refine congrArg some (foldl_kept ?_)
      rintro ⟨x, i⟩ hx
      exact if_pos (hequal hdc x (List.fst_mem_of_mem_zipIdx hx))
    · rfl
  · rfl

/-- A configuration without findings passes. -/
theorem Clean.passes {eni : Eni} (h : Clean eni) : Passes eni := by
  have hfirst : ∀ rep, eni.reg.foldl (checkKnown false) rep = rep := fun rep =>
    foldl_kept fun r hr => by rw [checkKnown, if_pos (h.known r hr)]
  have hsecond : ∀ rep, eni.reg.foldlM (Config.checkDc eni) rep = some rep := fun rep =>
    foldlM_kept fun r hr => h.checkDc hr rep
  unfold Passes ecmEniCheckSupported
  dsimp only
  rw [if_neg h.lrw, hfirst, hsecond]
  refine ⟨_, rfl, ?_⟩
  split <;> rfl

end EcMaster.Config
