import EcMaster.Lib.Records

/-!
# The loader of the network configuration

`ecm_eni_parse_text` of `ecm_eni.c`: the text of an `.enicfg` file, one record a line,
becomes an `ecm_eni_t` or a message.  One definition stands for each kind of record, and
`record` is the chain of comparisons that picks it.

The arrays of the C structure are lists, and their counters are the lengths of the lists.
A position is read as a `uint32_t`, compared as an `int`, and stored as a `uint16_t`.
These three conversions are kept (`asInt`, `% 65536`), since what the loader accepts
depends on them.

`Told` relates the records of a text to the configuration.  The entries of the four
arrays are, in order, what the records of the four kinds with fields say, and of the
kinds with one value the last record counts.  `told_of_parse` is proved from one step
lemma, `Told.step`, and the rest of the development does not look into the loop of the
loader again.
-/

namespace EcMaster.Config

open EcMaster.CText
open EcMaster.Records

/-! ## Sizes -/

/-- `ECM_ENI_MAX_SLAVES`. -/
abbrev ecmEniMaxSlaves : Nat := 64

/-- `ECM_ENI_MAX_COE`. -/
abbrev ecmEniMaxCoe : Nat := 256

/-- `ECM_ENI_MAX_DATA`. -/
abbrev ecmEniMaxData : Nat := 256

/-- `ECM_ENI_NAME_LEN`. -/
abbrev ecmEniNameLen : Nat := 64

/-- `ECM_ENI_MAX_REG`. -/
abbrev ecmEniMaxReg : Nat := 1024

/-- `ECM_ENI_REG_DATA`. -/
abbrev ecmEniRegData : Nat := 32

/-- `ECM_ENI_MAX_PDO`. -/
abbrev ecmEniMaxPdo : Nat := 1024

/-- `MAXTOK`. -/
abbrev maxTok : Nat := 48

/-! ## The configuration -/

/-- `ecm_eni_slave_t`.  `stateMs` has the timeouts of PREOP, SAFEOP and OP. -/
structure EniSlave where
  pos : Nat
  name : Text
  vendor : Nat
  product : Nat
  rev : Nat
  checkRev : Bool
  addr : Nat
  osizeBits : Nat
  isizeBits : Nat
  dc : Bool
  refclock : Bool
  sync0Ns : Nat
  sync1Ns : Nat
  shiftNs : Int
  assign : Nat
  stateMs : List Nat
deriving DecidableEq, Repr

/-- `ecm_eni_reg_t`.  `nkept` is the length of `data`. -/
structure EniReg where
  pos : Nat
  trans : Nat
  cmd : Nat
  ado : Nat
  len : Nat
  data : List UInt8
deriving DecidableEq, Repr

/-- The two directions of a PDO entry. -/
inductive EniDir
  | out
  | input
deriving DecidableEq, Repr

/-- `ecm_eni_pdo_t`. -/
structure EniPdo where
  pos : Nat
  dir : EniDir
  pdo : Nat
  index : Nat
  sub : Nat
  bits : Nat
deriving DecidableEq, Repr

/-- `ecm_eni_coe_t`.  `len` is the length of `data`. -/
structure EniCoe where
  pos : Nat
  trans : Nat
  ccs : Nat
  index : Nat
  sub : Nat
  ca : Bool
  timeoutMs : Nat
  data : List UInt8
deriving DecidableEq, Repr

/-- `ECM_ENI_PD_*`. -/
inductive PdCmd
  | unknown
  | lrw
  | lrdLwr
  | none
deriving DecidableEq, Repr

/-- `ecm_eni_t`. -/
structure Eni where
  version : Nat
  source : Text
  cycleUs : Nat
  pdCmd : PdCmd
  reg : List EniReg
  pdo : List EniPdo
  slave : List EniSlave
  coe : List EniCoe
deriving DecidableEq, Repr

/-- The structure after `memset`. -/
def Eni.zero : Eni :=
  { version := 0, source := [], cycleUs := 0, pdCmd := .unknown
    reg := [], pdo := [], slave := [], coe := [] }

/-- What `ecm_eni_parse_text` holds between two lines. -/
structure Loading where
  eni : Eni
  declared : Int
  haveVersion : Bool
  lineno : Nat

/-- The state before the first line. -/
def Loading.start : Loading :=
  { eni := Eni.zero, declared := -1, haveVersion := false, lineno := 0 }

/-! ## Fields -/

/-- `(int)v` of a `uint32_t`. -/
def asInt (v : Nat) : Int := if v < 2 ^ 31 then v else (v : Int) - 2 ^ 32

/-- `TRANS_NAMES`. -/
def transNames : List Text :=
  ["IP", "PI", "PS", "SP", "SO", "OS", "SI", "OI", "IB", "BI", "II", "PP", "SS", "OO", "OP"].map txt

/-- The mask with the given bits. -/
def maskOf (bits : List Nat) : Nat := bits.foldl (fun mask i => mask ||| 1 <<< i) 0

/-- `ecm_eni_trans_parse`. -/
def ecmEniTransParse (list : Option Text) : Nat :=
  match list with
  | none => 0
  | some list =>
      if 64 ≤ list.length then 0
      else
        match (strtok (ch ',') list).mapM (transNames.idxOf? ·) with
        | none => 0
        | some bits => maskOf bits

/-- `hexbytes`. -/
def hexbytes (max : Nat) (s : Text) : Option (List UInt8) :=
  if s = txt "-" then some [] else hexBytes max s

/-- `kv(tok, n, 2, key)`. -/
def kv (tok : List Text) (key : String) : Option Text := valueOf (txt key) (tok.drop 2)

section Fields

variable (lineno : Nat)

/-- `seterr` with the number of the line, and `return -1`. -/
def fail {α : Type} (msg : Text) : Except Text α :=
  .error (txt "line " ++ dec lineno ++ txt ": " ++ msg)

/-- A check that fails. -/
def refuse (bad : Prop) [Decidable bad] (msg : Text) : Except Text Unit :=
  if bad then fail lineno msg else .ok ()

/-- A value that has to be there. -/
def present {α : Type} (v : Option α) (msg : Text) : Except Text α :=
  match v with
  | some v => .ok v
  | none => fail lineno msg

/-- `NEED_U32`. -/
def needU32 (tok : List Text) (key : String) (maxv : Nat) : Except Text Nat :=
  present lineno (((kv tok key).bind unsigned32).filter (· ≤ maxv))
    (tok.headD [] ++ txt ": bad or missing '" ++ txt key ++ txt "'")

/-- An optional AL state timeout. -/
def stateMs (tok : List Text) (key : String) : Except Text Nat :=
  match kv tok key with
  | none => .ok 0
  | some v =>
      present lineno ((unsigned32 v).filter (· ≤ 600000))
        (txt "slave: bad '" ++ txt key ++ txt "'")

/-! ## The records with fields -/

/-- `parse_slave` behind the check of the position. -/
def slaveFields (tok : List Text) (pos : Nat) : Except Text EniSlave := do
  let name := clip ecmEniNameLen ((kv tok "name").getD [])
  let vendor ← needU32 lineno tok "vendor" 0xFFFFFFFF
  let product ← needU32 lineno tok "product" 0xFFFFFFFF
  let rev ← needU32 lineno tok "rev" 0xFFFFFFFF
  let checkRev ← needU32 lineno tok "check_rev" 1
  let addr ← needU32 lineno tok "addr" 0xFFFF
  let osizeBits ← needU32 lineno tok "osize_bits" 0xFFFFFF
  let isizeBits ← needU32 lineno tok "isize_bits" 0xFFFFFF
  let dc ← needU32 lineno tok "dc" 1
  let refclock ← needU32 lineno tok "refclock" 1
  let sync0Ns ← needU32 lineno tok "sync0_ns" 0xFFFFFFFF
  let sync1Ns ← needU32 lineno tok "sync1_ns" 0xFFFFFFFF
  let assign ← needU32 lineno tok "assign" 0xFFFF
  let shiftNs ← present lineno ((kv tok "shift_ns").bind signed32)
    (txt "slave: bad or missing 'shift_ns'")
  let preop ← stateMs lineno tok "preop_ms"
  let safeop ← stateMs lineno tok "safeop_ms"
  let op ← stateMs lineno tok "op_ms"
  refuse lineno (dc ≠ 0 ∧ (sync0Ns = 0 ∨ assign = 0))
    (txt "slave " ++ dec pos ++ txt ": dc 1 needs sync0_ns and assign")
  refuse lineno (dc = 0 ∧ refclock ≠ 0) (txt "slave " ++ dec pos ++ txt ": refclock without dc")
  pure
    { pos := pos % 65536, name, vendor, product, rev, checkRev := checkRev ≠ 0, addr
      osizeBits, isizeBits, dc := dc ≠ 0, refclock := refclock ≠ 0
      sync0Ns, sync1Ns, shiftNs, assign, stateMs := [preop, safeop, op] }

/-- `parse_reg` behind the checks of the position and of the room. -/
def regFields (tok : List Text) (pos : Nat) : Except Text EniReg := do
  let trans := ecmEniTransParse (kv tok "trans")
  refuse lineno (trans = 0) (txt "reg: bad 'trans'")
  let cmd ← needU32 lineno tok "cmd" 14
  let ado ← needU32 lineno tok "ado" 0xFFFF
  let len ← needU32 lineno tok "len" 0x7FF
  let data ← present lineno ((kv tok "data").bind (hexbytes ecmEniRegData))
    (txt "reg: bad 'data' (hex, max " ++ dec ecmEniRegData ++ txt " byte)")
  pure { pos := pos % 65536, trans, cmd, ado, len, data }

/-- `dir` of a `pdo` record. -/
def dirOf (d : Text) : Option EniDir :=
  if d = txt "out" then some .out else if d = txt "in" then some .input else none

/-- `parse_pdo` behind the checks of the position and of the room. -/
def pdoFields (tok : List Text) (pos : Nat) : Except Text EniPdo := do
  let dir ← present lineno ((kv tok "dir").bind dirOf) (txt "pdo: bad 'dir'")
  let pdo ← needU32 lineno tok "pdo" 0xFFFF
  let index ← needU32 lineno tok "index" 0xFFFF
  let sub ← needU32 lineno tok "sub" 0xFF
  let bits ← needU32 lineno tok "bits" 0xFFFF
  refuse lineno (bits = 0) (txt "pdo: bits 0")
  pure { pos := pos % 65536, dir, pdo, index, sub, bits }

/-- `ECM_ENI_CCS_DOWNLOAD`. -/
abbrev ccsDownload : Nat := 1

/-- `ECM_ENI_CCS_UPLOAD`. -/
abbrev ccsUpload : Nat := 2

/-- `parse_coe` behind the checks of the position and of the room. -/
def coeFields (tok : List Text) (pos : Nat) : Except Text EniCoe := do
  let trans := ecmEniTransParse (kv tok "trans")
  refuse lineno (trans = 0) (txt "coe: bad 'trans'")
  let ccs ← needU32 lineno tok "ccs" 2
  refuse lineno (ccs ≠ ccsDownload ∧ ccs ≠ ccsUpload)
    (txt "coe: ccs " ++ dec ccs ++ txt " unsupported")
  let index ← needU32 lineno tok "index" 0xFFFF
  let sub ← needU32 lineno tok "sub" 0xFF
  let ca ← needU32 lineno tok "ca" 1
  let timeoutMs ← needU32 lineno tok "timeout_ms" 600000
  let data ← present lineno ((kv tok "data").bind (hexbytes ecmEniMaxData))
    (txt "coe: bad 'data' (hex, max " ++ dec ecmEniMaxData ++ txt " byte)")
  refuse lineno (ccs = ccsDownload ∧ data = []) (txt "coe: download without data")
  pure { pos := pos % 65536, trans, ccs, index, sub, ca := ca ≠ 0, timeoutMs, data }

end Fields

/-- The position of a record. -/
def positionOf (tok : List Text) : Option Nat := tok[1]?.bind unsigned32

/-- `parse_slave`. -/
def parseSlave (st : Loading) (tok : List Text) : Except Text Loading := do
  let pos ← present st.lineno (positionOf tok) (txt "slave: bad position")
  refuse st.lineno (asInt pos ≠ st.eni.slave.length + 1 ∨ ecmEniMaxSlaves < pos)
    (txt "slave " ++ dec pos ++ txt " out of order (expected " ++
      dec (st.eni.slave.length + 1) ++ txt ")")
  let s ← slaveFields st.lineno tok pos
  pure { st with eni := { st.eni with slave := st.eni.slave ++ [s] } }

/-- `parse_reg`. -/
def parseReg (st : Loading) (tok : List Text) : Except Text Loading := do
  let pos ← present st.lineno
    ((positionOf tok).filter fun pos => asInt pos ≤ st.eni.slave.length)
    (txt "reg: position not 0 (master) or a declared slave")
  refuse st.lineno (ecmEniMaxReg ≤ st.eni.reg.length)
    (txt "more than " ++ dec ecmEniMaxReg ++ txt " register InitCmds")
  let r ← regFields st.lineno tok pos
  pure { st with eni := { st.eni with reg := st.eni.reg ++ [r] } }

/-- `parse_pdo`. -/
def parsePdo (st : Loading) (tok : List Text) : Except Text Loading := do
  let pos ← present st.lineno
    ((positionOf tok).filter fun pos => 1 ≤ pos ∧ asInt pos ≤ st.eni.slave.length)
    (txt "pdo: position not a declared slave")
  refuse st.lineno (ecmEniMaxPdo ≤ st.eni.pdo.length)
    (txt "more than " ++ dec ecmEniMaxPdo ++ txt " PDO entries")
  let p ← pdoFields st.lineno tok pos
  pure { st with eni := { st.eni with pdo := st.eni.pdo ++ [p] } }

/-- `parse_coe`. -/
def parseCoe (st : Loading) (tok : List Text) : Except Text Loading := do
  let pos ← present st.lineno
    ((positionOf tok).filter fun pos => 1 ≤ pos ∧ asInt pos ≤ st.eni.slave.length)
    (txt "coe: position not a declared slave")
  refuse st.lineno (ecmEniMaxCoe ≤ st.eni.coe.length)
    (txt "more than " ++ dec ecmEniMaxCoe ++ txt " CoE InitCmds")
  let c ← coeFields st.lineno tok pos
  pure { st with eni := { st.eni with coe := st.eni.coe ++ [c] } }

/-! ## The file -/

/-- The names of the process data commands. -/
def pdCmdOf (t : Text) : Option PdCmd :=
  if t = txt "lrw" then some .lrw
  else if t = txt "lrd_lwr" then some .lrdLwr
  else if t = txt "none" then some .none
  else Option.none

/-- One record: the chain of comparisons with the kinds. -/
def record (st : Loading) (tok : List Text) : Except Text Loading :=
  let key := tok.headD []
  let n := tok.length
  let value := tok.getD 1 []
  if key = txt "enicfg" then
    if n ≠ 2 ∨ (value ≠ txt "1" ∧ value ≠ txt "2") then
      fail st.lineno (txt "unsupported enicfg version")
    else
      .ok { st with
        eni := { st.eni with version := if value = txt "1" then 1 else 2 }, haveVersion := true }
  else if !st.haveVersion then fail st.lineno (txt "missing 'enicfg 1' header")
  else if key = txt "source" ∧ 2 ≤ n then
    .ok { st with eni := { st.eni with source := clip 128 value } }
  else if key = txt "cycle_us" ∧ n = 2 then
    match unsigned32 value with
    | some v => .ok { st with eni := { st.eni with cycleUs := v } }
    | none => fail st.lineno (txt "bad cycle_us")
  else if key = txt "slaves" ∧ n = 2 then
    match (unsigned32 value).filter fun v => 1 ≤ v ∧ v ≤ ecmEniMaxSlaves with
    | some v => .ok { st with declared := v }
    | none => fail st.lineno (txt "bad slave count")
  else if key = txt "slave" then parseSlave st tok
  else if key = txt "coe" then parseCoe st tok
  else if key = txt "pdo" ∧ 2 ≤ st.eni.version then parsePdo st tok
  else if key = txt "reg" ∧ 2 ≤ st.eni.version then parseReg st tok
  else if key = txt "pd_cmd" ∧ 2 ≤ st.eni.version ∧ n = 2 then
    match pdCmdOf value with
    | some c => .ok { st with eni := { st.eni with pdCmd := c } }
    | none => fail st.lineno (txt "bad pd_cmd '" ++ value ++ txt "'")
  else fail st.lineno (txt "unknown record '" ++ key ++ txt "'")

/-- A line without fields, or a comment. -/
def skipped (tok : List Text) : Bool := tok.isEmpty || (tok.headD []).head? == some (ch '#')

/-- One line. -/
def loadLine (st : Loading) (line : Text) : Except Text Loading :=
  let st := { st with lineno := st.lineno + 1 }
  if 1024 ≤ line.length then fail st.lineno (txt "too long")
  else
    let tok := tokenize maxTok line
    if skipped tok then .ok st else record st tok

/-- The bits of one direction that the `pdo` records give the slave at `pos`. -/
def pdoBits (pdo : List EniPdo) (pos : Nat) (dir : EniDir) : Nat :=
  ((pdo.filter fun p => p.pos = pos ∧ p.dir = dir).map (·.bits)).foldl
    (fun sum bits => (sum + bits) % 2 ^ 32) 0

/-- The PDO entries of the slave at position `i + 1` do not add up to its sizes. -/
def sizesDiffer (eni : Eni) (i : Nat) (s : EniSlave) : Prop :=
  pdoBits eni.pdo (i + 1) .out ≠ s.osizeBits ∨ pdoBits eni.pdo (i + 1) .input ≠ s.isizeBits

instance (eni : Eni) (i : Nat) (s : EniSlave) : Decidable (sizesDiffer eni i s) :=
  inferInstanceAs (Decidable (_ ∨ _))

/-- The message about the sizes of a slave. -/
def sizesText (eni : Eni) (i : Nat) (s : EniSlave) : Text :=
  txt "slave " ++ dec (i + 1) ++ txt ": pdo entries " ++ dec (pdoBits eni.pdo (i + 1) .out) ++
    txt " out / " ++ dec (pdoBits eni.pdo (i + 1) .input) ++ txt " in bits, slave record " ++
    dec s.osizeBits ++ txt " / " ++ dec s.isizeBits

/-- What is left to check at the end of the text. -/
def loadEnd (st : Loading) : Except Text Eni :=
  let eni := st.eni
  let refs := (eni.slave.filter (·.refclock)).length
  let dcs := (eni.slave.filter (·.dc)).length
  if !st.haveVersion then .error (txt "empty file or missing 'enicfg 1' header")
  else if 2 ≤ eni.version ∧ eni.pdCmd = .unknown then
    .error (txt "enicfg 2 without a 'pd_cmd' record")
  else
    match (eni.slave.zipIdx.find? fun x => eni.pdo ≠ [] ∧ sizesDiffer eni x.2 x.1) with
    | some (s, i) => .error (sizesText eni i s)
    | none =>
        if st.declared ≠ eni.slave.length then
          .error (txt "'slaves " ++ decInt st.declared ++ txt "' but " ++
            dec eni.slave.length ++ txt " slave records")
        else if 1 < refs ∨ (dcs ≠ 0 ∧ refs ≠ 1) then
          .error (dec dcs ++ txt " DC slaves but " ++ dec refs ++ txt " reference clocks")
        else .ok eni

/-- `ecm_eni_parse_text`. -/
def ecmEniParseText (text : Text) : Except Text Eni := do
  let st ← (splitLines [] text).foldlM loadLine Loading.start
  loadEnd st

/-! ## The records of a text -/

/-- The kinds of records. -/
inductive Kind
  | enicfg
  | source
  | cycleUs
  | slaves
  | slave
  | coe
  | pdo
  | reg
  | pdCmd
deriving DecidableEq

/-- The first field of a record of a kind. -/
def Kind.key : Kind → Text
  | .enicfg => txt "enicfg"
  | .source => txt "source"
  | .cycleUs => txt "cycle_us"
  | .slaves => txt "slaves"
  | .slave => txt "slave"
  | .coe => txt "coe"
  | .pdo => txt "pdo"
  | .reg => txt "reg"
  | .pdCmd => txt "pd_cmd"

/-- The kinds, in the order of the comparisons. -/
def Kind.all : List Kind :=
  [.enicfg, .source, .cycleUs, .slaves, .slave, .coe, .pdo, .reg, .pdCmd]

theorem Kind.mem_all (k : Kind) : k ∈ Kind.all := by
  cases k <;> decide

theorem Kind.key_inj {k k' : Kind} (h : k.key = k'.key) : k = k' := by
  have hall : ∀ k ∈ Kind.all, ∀ k' ∈ Kind.all, k.key = k'.key → k = k' := by decide +kernel
  exact hall k k.mem_all k' k'.mem_all h

/-- The records of lines: the fields of every line that is not skipped. -/
def recordsOf (lines : List Text) : List (List Text) :=
  (lines.map (tokenize maxTok)).filter fun tok => !skipped tok

theorem recordsOf_append (lines lines' : List Text) :
    recordsOf (lines ++ lines') = recordsOf lines ++ recordsOf lines' := by
  unfold recordsOf
  rw [List.map_append, List.filter_append]

theorem recordsOf_concat (lines : List Text) (line : Text) :
    recordsOf (lines ++ [line]) =
      recordsOf lines ++ if skipped (tokenize maxTok line) then [] else [tokenize maxTok line] := by
  rw [recordsOf_append]
  unfold recordsOf
  rw [List.map_singleton, List.filter_cons, List.filter_nil]
  cases skipped (tokenize maxTok line) <;> rfl

/-- The records of a kind, in order. -/
def ofKind (k : Kind) (recs : List (List Text)) : List (List Text) :=
  recs.filter fun tok => tok.headD [] = k.key

theorem ofKind_append (k : Kind) (recs recs' : List (List Text)) :
    ofKind k (recs ++ recs') = ofKind k recs ++ ofKind k recs' :=
  List.filter_append ..

theorem ofKind_singleton {k k' : Kind} {tok : List Text} (h : tok.headD [] = k'.key) :
    ofKind k [tok] = if k' = k then [tok] else [] := by
  unfold ofKind
  rw [List.filter_cons, List.filter_nil, h]
  by_cases hk : k' = k
  · rw [if_pos hk, if_pos (decide_eq_true (congrArg Kind.key hk))]
  · rw [if_neg hk, if_neg]
    simpa using fun hkey => hk (Kind.key_inj hkey)

/-! ## What one record does -/

section Checks

variable {lineno : Nat}

theorem fail_ne_ok {α : Type} {msg : Text} {a : α} : fail lineno msg ≠ .ok a := by
  unfold fail
  exact nofun

theorem refuse_eq_ok {bad : Prop} [Decidable bad] {msg : Text} {u : Unit} :
    refuse lineno bad msg = .ok u ↔ ¬bad := by
  unfold refuse
  split
  · rename_i h
    simp [fail_ne_ok, h]
  · rename_i h
    simp [h]

theorem present_eq_ok {α : Type} {v : Option α} {msg : Text} {a : α} :
    present lineno v msg = .ok a ↔ v = some a := by
  unfold present
  split
  · simp
  · simp [fail_ne_ok]

theorem needU32_eq_ok {tok : List Text} {key : String} {maxv a : Nat} :
    needU32 lineno tok key maxv = .ok a ↔
      (kv tok key).bind unsigned32 = some a ∧ a ≤ maxv := by
  unfold needU32
  rw [present_eq_ok, Option.filter_eq_some_iff, decide_eq_true_eq]

end Checks

/-- `s` is what a `slave` record says. -/
def SlaveOf (tok : List Text) (s : EniSlave) : Prop :=
  ∃ lineno, ∃ pos ≤ ecmEniMaxSlaves, positionOf tok = some pos ∧ slaveFields lineno tok pos = .ok s

/-- `r` is what a `reg` record says, with `nslaves` slaves known. -/
def RegOf (nslaves : Nat) (tok : List Text) (r : EniReg) : Prop :=
  ∃ lineno pos, positionOf tok = some pos ∧ asInt pos ≤ nslaves ∧ regFields lineno tok pos = .ok r

/-- `p` is what a `pdo` record says, with `nslaves` slaves known. -/
def PdoOf (nslaves : Nat) (tok : List Text) (p : EniPdo) : Prop :=
  ∃ lineno pos, positionOf tok = some pos ∧ (1 ≤ pos ∧ asInt pos ≤ nslaves) ∧
    pdoFields lineno tok pos = .ok p

/-- `c` is what a `coe` record says, with `nslaves` slaves known. -/
def CoeOf (nslaves : Nat) (tok : List Text) (c : EniCoe) : Prop :=
  ∃ lineno pos, positionOf tok = some pos ∧ (1 ≤ pos ∧ asInt pos ≤ nslaves) ∧
    coeFields lineno tok pos = .ok c

/-- What a record that is accepted does to the state. -/
inductive Does (st : Loading) (tok : List Text) : Kind → Loading → Prop
  | enicfg (v : Nat) :
      Does st tok .enicfg { st with eni := { st.eni with version := v }, haveVersion := true }
  | source (t : Text) : Does st tok .source { st with eni := { st.eni with source := t } }
  | cycleUs (v : Nat) (hv : unsigned32 (tok.getD 1 []) = some v) :
      Does st tok .cycleUs { st with eni := { st.eni with cycleUs := v } }
  | slaves (v : Nat) (hv : unsigned32 (tok.getD 1 []) = some v)
      (hrange : 1 ≤ v ∧ v ≤ ecmEniMaxSlaves) :
      Does st tok .slaves { st with declared := v }
  | slave (s : EniSlave) (hs : SlaveOf tok s) (hpos : s.pos = st.eni.slave.length + 1) :
      Does st tok .slave { st with eni := { st.eni with slave := st.eni.slave ++ [s] } }
  | coe (c : EniCoe) (hc : CoeOf st.eni.slave.length tok c) :
      Does st tok .coe { st with eni := { st.eni with coe := st.eni.coe ++ [c] } }
  | pdo (p : EniPdo) (hp : PdoOf st.eni.slave.length tok p)
      (hroom : st.eni.pdo.length < ecmEniMaxPdo) :
      Does st tok .pdo { st with eni := { st.eni with pdo := st.eni.pdo ++ [p] } }
  | reg (r : EniReg) (hr : RegOf st.eni.slave.length tok r) :
      Does st tok .reg { st with eni := { st.eni with reg := st.eni.reg ++ [r] } }
  | pdCmd (c : PdCmd) (hc : pdCmdOf (tok.getD 1 []) = some c) :
      Does st tok .pdCmd { st with eni := { st.eni with pdCmd := c } }

section Record

variable {st : Loading} {tok : List Text}

theorem slaveFields_pos {lineno pos : Nat} {s : EniSlave}
    (h : slaveFields lineno tok pos = .ok s) : s.pos = pos % 65536 := by
  unfold slaveFields at h
  simp only [bind_eq_ok, pure_eq_ok] at h
  obtain ⟨_, -, _, -, _, -, _, -, _, -, _, -, _, -, _, -, _, -, _, -, _, -, _, -, _, -, _, -, _, -,
    _, -, _, -, _, -, rfl⟩ := h
  rfl

theorem grants_parseSlave : Grants (parseSlave st tok) (Does st tok .slave) := by
  intro st' h
  unfold parseSlave at h
  simp only [bind_eq_ok, pure_eq_ok, present_eq_ok, refuse_eq_ok, not_or, not_not] at h
  obtain ⟨pos, hpos, -, ⟨hnext, hmax⟩, s, hs, rfl⟩ := h
  have hle : pos ≤ 64 := Nat.le_of_not_lt hmax
  refine .slave s ⟨_, pos, hle, hpos, hs⟩ ?_
  rw [slaveFields_pos hs]
  have hsmall : asInt pos = pos := if_pos (by omega)
  rw [hsmall] at hnext
  omega

theorem grants_parseReg : Grants (parseReg st tok) (Does st tok .reg) := by
  intro st' h
  unfold parseReg at h
  simp only [bind_eq_ok, pure_eq_ok, present_eq_ok, refuse_eq_ok, Option.filter_eq_some_iff,
    decide_eq_true_eq] at h
  obtain ⟨pos, ⟨hpos, hle⟩, -, -, r, hr, rfl⟩ := h
  exact .reg r ⟨_, pos, hpos, hle, hr⟩

theorem grants_parsePdo : Grants (parsePdo st tok) (Does st tok .pdo) := by
  intro st' h
  unfold parsePdo at h
  simp only [bind_eq_ok, pure_eq_ok, present_eq_ok, refuse_eq_ok, Option.filter_eq_some_iff,
    decide_eq_true_eq, not_le] at h
  obtain ⟨pos, ⟨hpos, hle⟩, -, hroom, p, hp, rfl⟩ := h
  exact .pdo p ⟨_, pos, hpos, hle, hp⟩ hroom

theorem grants_parseCoe : Grants (parseCoe st tok) (Does st tok .coe) := by
  intro st' h
  unfold parseCoe at h
  simp only [bind_eq_ok, pure_eq_ok, present_eq_ok, refuse_eq_ok, Option.filter_eq_some_iff,
    decide_eq_true_eq] at h
  obtain ⟨pos, ⟨hpos, hle⟩, -, -, c, hc, rfl⟩ := h
  exact .coe c ⟨_, pos, hpos, hle, hc⟩

theorem grants_fail {α : Type} {Q : α → Prop} {lineno : Nat} {msg : Text} :
    Grants (fail lineno msg) Q := grants_error

/-- Every record that is accepted is of one of the kinds, and does what that kind does. -/
theorem grants_record :
    Grants (record st tok) fun st' => ∃ k : Kind, tok.headD [] = k.key ∧ Does st tok k st' := by
  unfold record
  dsimp only
  refine Grants.ite (fun hkey => ?_) fun _ => Grants.ite (fun _ => grants_fail) fun _ => ?_
  · refine Grants.ite (fun _ => grants_fail) fun _ => grants_ok.2 ?_
    exact ⟨.enicfg, hkey, .enicfg _⟩
  refine Grants.ite (fun hkey => grants_ok.2 ⟨.source, hkey.1, .source _⟩) fun _ => ?_
  refine Grants.ite (fun hkey => ?_) fun _ => ?_
  · cases hv : unsigned32 (tok.getD 1 []) with
    | none => exact grants_fail
    | some v => exact grants_ok.2 ⟨.cycleUs, hkey.1, .cycleUs v hv⟩
  refine Grants.ite (fun hkey => ?_) fun _ => ?_
  · cases hv : (unsigned32 (tok.getD 1 [])).filter fun v => 1 ≤ v ∧ v ≤ ecmEniMaxSlaves with
    | none => exact grants_fail
    | some v =>
        rw [Option.filter_eq_some_iff, decide_eq_true_eq] at hv
        exact grants_ok.2 ⟨.slaves, hkey.1, .slaves v hv.1 hv.2⟩
  refine Grants.ite (fun hkey => grants_parseSlave.mono fun _ h => ⟨.slave, hkey, h⟩) fun _ => ?_
  refine Grants.ite (fun hkey => grants_parseCoe.mono fun _ h => ⟨.coe, hkey, h⟩) fun _ => ?_
  refine Grants.ite (fun hkey => grants_parsePdo.mono fun _ h => ⟨.pdo, hkey.1, h⟩) fun _ => ?_
  refine Grants.ite (fun hkey => grants_parseReg.mono fun _ h => ⟨.reg, hkey.1, h⟩) fun _ => ?_
  refine Grants.ite (fun hkey => ?_) fun _ => grants_fail
  cases hc : pdCmdOf (tok.getD 1 []) with
  | none => exact grants_fail
  | some c => exact grants_ok.2 ⟨.pdCmd, hkey.1, .pdCmd c hc⟩

end Record

/-! ## What a text says -/

theorem ofKind_snoc {k k' : Kind} {tok : List Text} (h : tok.headD [] = k'.key)
    (recs : List (List Text)) :
    ofKind k (recs ++ [tok]) = if k' = k then ofKind k recs ++ [tok] else ofKind k recs := by
  rw [ofKind_append, ofKind_singleton h]
  split
  · rfl
  · exact List.append_nil _

/-- The last record of a kind that has one has `P`. -/
def LastOf (k : Kind) (recs : List (List Text)) (P : List Text → Prop) : Prop :=
  ∀ tok, (ofKind k recs).getLast? = some tok → P tok

theorem LastOf.snoc {k k' : Kind} {recs : List (List Text)} {tok : List Text}
    {P Q : List Text → Prop} (h : LastOf k recs P) (hkey : tok.headD [] = k'.key)
    (hsame : k' ≠ k → ∀ tok, P tok → Q tok) (hnew : k' = k → Q tok) :
    LastOf k (recs ++ [tok]) Q := by
  intro last hlast
  rw [ofKind_snoc hkey] at hlast
  by_cases hk : k' = k
  · rw [if_pos hk, List.getLast?_concat, Option.some.injEq] at hlast
    rw [← hlast]
    exact hnew hk
  · rw [if_neg hk] at hlast
    exact hsame hk last (h last hlast)

/-- The records of a kind say the entries of a list, in order. -/
def Says {α : Type} (R : List Text → α → Prop) (k : Kind) (recs : List (List Text))
    (xs : List α) : Prop :=
  List.Forall₂ R (ofKind k recs) xs

section Says

variable {α : Type} {R R' : List Text → α → Prop} {k k' : Kind} {recs : List (List Text)}
  {tok : List Text} {xs : List α}

theorem Says.mono (h : Says R k recs xs) (hR : ∀ tok x, R tok x → R' tok x) :
    Says R' k recs xs :=
  List.Forall₂.imp hR h

theorem Says.other (h : Says R k recs xs) (hkey : tok.headD [] = k'.key) (hk : k' ≠ k) :
    Says R k (recs ++ [tok]) xs := by
  unfold Says
  rw [ofKind_snoc hkey, if_neg hk]
  exact h

theorem Says.snoc (h : Says R k recs xs) (hkey : tok.headD [] = k.key) {x : α} (hx : R tok x) :
    Says R k (recs ++ [tok]) (xs ++ [x]) := by
  unfold Says
  rw [ofKind_snoc hkey, if_pos rfl]
  exact List.rel_append h (.cons hx .nil)

/-- What a list has of a record. -/
theorem Says.of_mem (h : Says R k recs xs) {x : α} (hx : x ∈ xs) :
    ∃ tok ∈ ofKind k recs, R tok x :=
  exists_of_forall₂ h hx

end Says

theorem RegOf.mono {n m : Nat} (h : n ≤ m) (tok : List Text) (r : EniReg) :
    RegOf n tok r → RegOf m tok r := by
  rintro ⟨lineno, pos, hpos, hle, hr⟩
  exact ⟨lineno, pos, hpos, by omega, hr⟩

theorem PdoOf.mono {n m : Nat} (h : n ≤ m) (tok : List Text) (p : EniPdo) :
    PdoOf n tok p → PdoOf m tok p := by
  rintro ⟨lineno, pos, hpos, ⟨hone, hle⟩, hp⟩
  exact ⟨lineno, pos, hpos, ⟨hone, by omega⟩, hp⟩

theorem CoeOf.mono {n m : Nat} (h : n ≤ m) (tok : List Text) (c : EniCoe) :
    CoeOf n tok c → CoeOf m tok c := by
  rintro ⟨lineno, pos, hpos, ⟨hone, hle⟩, hc⟩
  exact ⟨lineno, pos, hpos, ⟨hone, by omega⟩, hc⟩

/-- The count that the last `slaves` record declares, `-1` without one. -/
def Declared (recs : List (List Text)) (d : Int) : Prop :=
  d = -1 ∨ ∃ tok v, (ofKind .slaves recs).getLast? = some tok ∧
    unsigned32 (tok.getD 1 []) = some v ∧ (1 ≤ v ∧ v ≤ ecmEniMaxSlaves) ∧ d = v

theorem Declared.other {recs : List (List Text)} {d : Int} {tok : List Text} {k : Kind}
    (h : Declared recs d) (hkey : tok.headD [] = k.key) (hk : k ≠ .slaves) :
    Declared (recs ++ [tok]) d := by
  unfold Declared
  rw [ofKind_snoc hkey, if_neg hk]
  exact h

/-- What the records read so far say is what the loader holds. -/
structure Told (recs : List (List Text)) (st : Loading) : Prop where
  slave : Says SlaveOf .slave recs st.eni.slave
  coe : Says (CoeOf st.eni.slave.length) .coe recs st.eni.coe
  pdo : Says (PdoOf st.eni.slave.length) .pdo recs st.eni.pdo
  reg : Says (RegOf st.eni.slave.length) .reg recs st.eni.reg
  order : ∀ i s, st.eni.slave[i]? = some s → s.pos = i + 1
  room : st.eni.pdo.length ≤ ecmEniMaxPdo
  declared : Declared recs st.declared
  cycleUs : LastOf .cycleUs recs fun tok => unsigned32 (tok.getD 1 []) = some st.eni.cycleUs
  pdCmd : LastOf .pdCmd recs fun tok => pdCmdOf (tok.getD 1 []) = some st.eni.pdCmd

theorem told_start : Told [] Loading.start := by
  constructor
  case slave | coe | pdo | reg => exact .nil
  case order => exact nofun
  case room => exact Nat.zero_le _
  case declared => exact .inl rfl
  case cycleUs | pdCmd => exact nofun

section Step

variable {st st' : Loading} {recs : List (List Text)} {tok : List Text} {k : Kind}

/-- A slave more: the earlier ones keep their places. -/
theorem order_snoc {slave : List EniSlave} {s : EniSlave}
    (h : ∀ i s, slave[i]? = some s → s.pos = i + 1) (hs : s.pos = slave.length + 1) :
    ∀ i t, (slave ++ [s])[i]? = some t → t.pos = i + 1 := by
  intro i t ht
  rw [List.getElem?_append] at ht
  split at ht
  · exact h i t ht
  · rename_i hi
    rw [List.getElem?_singleton] at ht
    split at ht
    · rename_i hzero
      rw [← Option.some.inj ht, hs]
      omega
    · exact absurd ht (by simp)

/-- One record. -/
theorem Told.step (h : Told recs st) (hkey : tok.headD [] = k.key) (hd : Does st tok k st') :
    Told (recs ++ [tok]) st' := by
  have hkeep : ∀ {P : List Text → Prop} {k' : Kind}, LastOf k' recs P → k ≠ k' →
      LastOf k' (recs ++ [tok]) P :=
    fun hP hne => hP.snoc hkey (fun _ _ hp => hp) fun heq => absurd heq hne
  cases hd with
  | enicfg | source =>
      exact ⟨h.slave.other hkey nofun, h.coe.other hkey nofun, h.pdo.other hkey nofun,
        h.reg.other hkey nofun, h.order, h.room, h.declared.other hkey nofun,
        hkeep h.cycleUs nofun, hkeep h.pdCmd nofun⟩
  | cycleUs v hv =>
      refine ⟨h.slave.other hkey nofun, h.coe.other hkey nofun, h.pdo.other hkey nofun,
        h.reg.other hkey nofun, h.order, h.room, h.declared.other hkey nofun, ?_,
        hkeep h.pdCmd nofun⟩
      exact h.cycleUs.snoc hkey (fun hne => absurd rfl hne) fun _ => hv
  | slaves v hv hrange =>
      refine ⟨h.slave.other hkey nofun, h.coe.other hkey nofun, h.pdo.other hkey nofun,
        h.reg.other hkey nofun, h.order, h.room, .inr ⟨tok, v, ?_, hv, hrange, rfl⟩,
        hkeep h.cycleUs nofun, hkeep h.pdCmd nofun⟩
      rw [ofKind_snoc hkey, if_pos rfl, List.getLast?_concat]
  | slave s hs hpos =>
      refine ⟨h.slave.snoc hkey hs, ?_, ?_, ?_, order_snoc h.order hpos, h.room,
        h.declared.other hkey nofun, hkeep h.cycleUs nofun, hkeep h.pdCmd nofun⟩
      · exact (h.coe.other hkey nofun).mono (CoeOf.mono (by simp))
      · exact (h.pdo.other hkey nofun).mono (PdoOf.mono (by simp))
      · exact (h.reg.other hkey nofun).mono (RegOf.mono (by simp))
  | coe c hc =>
      exact ⟨h.slave.other hkey nofun, h.coe.snoc hkey hc, h.pdo.other hkey nofun,
        h.reg.other hkey nofun, h.order, h.room, h.declared.other hkey nofun,
        hkeep h.cycleUs nofun, hkeep h.pdCmd nofun⟩
  | pdo p hp hroom =>
      refine ⟨h.slave.other hkey nofun, h.coe.other hkey nofun, h.pdo.snoc hkey hp,
        h.reg.other hkey nofun, h.order, ?_, h.declared.other hkey nofun,
        hkeep h.cycleUs nofun, hkeep h.pdCmd nofun⟩
      rw [List.length_append, List.length_singleton]
      exact hroom
  | reg r hr =>
      exact ⟨h.slave.other hkey nofun, h.coe.other hkey nofun, h.pdo.other hkey nofun,
        h.reg.snoc hkey hr, h.order, h.room, h.declared.other hkey nofun,
        hkeep h.cycleUs nofun, hkeep h.pdCmd nofun⟩
  | pdCmd c hc =>
      refine ⟨h.slave.other hkey nofun, h.coe.other hkey nofun, h.pdo.other hkey nofun,
        h.reg.other hkey nofun, h.order, h.room, h.declared.other hkey nofun,
        hkeep h.cycleUs nofun, ?_⟩
      exact h.pdCmd.snoc hkey (fun hne => absurd rfl hne) fun _ => hc

/-- One line, with the records of the lines before it. -/
theorem grants_loadLine {lines : List Text} {line : Text} (h : Told (recordsOf lines) st) :
    Grants (loadLine st line) (Told (recordsOf (lines ++ [line]))) := by
  have h' : Told (recordsOf lines) { st with lineno := st.lineno + 1 } :=
    ⟨h.slave, h.coe, h.pdo, h.reg, h.order, h.room, h.declared, h.cycleUs, h.pdCmd⟩
  rw [recordsOf_concat]
  unfold loadLine
  dsimp only
  refine Grants.ite (fun _ => grants_fail) fun _ => Grants.ite (fun hskip => ?_) fun hskip => ?_
  · rw [if_pos hskip, List.append_nil]
    exact grants_ok.2 h'
  · rw [if_neg hskip]
    refine grants_record.mono ?_
    rintro st' ⟨k, hkey, hd⟩
    exact h'.step hkey hd

end Step

/-- The records of a text. -/
def records (text : Text) : List (List Text) := recordsOf (splitLines [] text)

/-- An accepted text says what is loaded, and passes the last checks. -/
theorem told_of_parse {text : Text} {e : Eni} (h : ecmEniParseText text = .ok e) :
    ∃ st, Told (records text) st ∧ loadEnd st = .ok e := by
  obtain ⟨st, hst, hend⟩ := bind_eq_ok.1 h
  refine ⟨st, ?_, hend⟩
  have hrun : Grants ((splitLines [] text).foldlM loadLine Loading.start)
      (Told (recordsOf ([] ++ splitLines [] text))) :=
    Grants.foldlM_seen (I := fun lines st => Told (recordsOf lines) st)
      (fun _ _ _ hI => grants_loadLine hI) _ told_start
  exact hrun st hst

end EcMaster.Config
