import EcMaster.Api.Jw

/-!
# The statistics document

`ecm_api_stats_json` of `api/ecm_api.c` writes everything the process publishes
as one JSON object: bus, groups, histograms, clock, slaves, axes, RT thread,
findings and the sources of each part.  The model has its members in the order
of the source, with the conditions under which each is written.

Character arrays are byte texts that end at their first NUL, flags that the
source only tests are `Bool`, and an array with a count is a function and its
count.  The lists of a group's slaves, of the disabled idle states and of the
command line words are the entries up to their counts, which the code does not
compare with the size of the array.

The whole document is one object of RFC 8259 whatever the statistics are, and
if it does not fit the buffer nothing is published.
-/

namespace EcMaster.Api

open EcMaster.ByteImage EcMaster.CText EcMaster.Rfc8259

/-! ## The data -/

/-- `ecm_api_hist_t`; `has` is `have`. -/
structure Hist where
  has : Bool
  count : UInt64
  sumNs : UInt64
  minNs : Int
  maxNs : Int
  b : Nat → UInt64

/-- `ecm_api_linhist_t`. -/
structure Linhist where
  has : Bool
  n : UInt64
  b : Nat → UInt64

/-- `ecm_api_rt_group_t`; `wkc` is indexed by `ecm_wkc_class_t`. -/
structure RtGroup where
  cycles : UInt64
  overrun : UInt64
  wkc : Nat → UInt64
  maxRunBad : UInt32

/-- `ecm_api_rt_t`. -/
structure RtPart where
  seq : UInt64
  monoNs : UInt64
  tick : UInt64
  ngroups : Int
  g : Nat → RtGroup
  dcOn : Bool
  dcState : Int
  dcLocks : UInt64
  dcUnlocks : UInt64
  dcClamps : UInt64
  dcWraps : UInt64
  dcStale : UInt64
  dcErrNs : Int
  txtimeHave : Bool
  txtimeLate : UInt64
  txtimeBypass : UInt64
  sendErr : UInt64
  taiSteps : UInt64
  hookCalls : UInt64
  hoDrops : UInt64

/-- `ecm_api_tel_t`. -/
structure TelPart where
  seq : UInt64
  monoNs : UInt64
  wakeJitter : Hist
  prepSend : Hist
  occupancy : Hist
  turnaround : Hist
  ringDrops : UInt64
  hoDrops : UInt64

/-- `ecm_api_emcy_t`. -/
structure Emcy where
  monoNs : UInt64
  tick : UInt64
  code : UInt16
  reg : UInt8
  data : Nat → UInt8

/-- `ecm_api_mon_slave_t`. -/
structure MonSlave where
  station : UInt16
  alStatus : UInt16
  alCode : UInt16
  dlStatus : UInt16
  answered : Bool
  everAnswered : Bool
  inv : Nat → UInt64
  rx : Nat → UInt64
  fwd : Nat → UInt64
  lost : Nat → UInt64
  pu : UInt64
  pdi : UInt64
  emcyCount : UInt64
  nemcy : Int
  emcy : Nat → Emcy
  sact : Int
  unhealthy : Bool
  failed : Bool
  failedConfig : Bool
  attempts : UInt32
  recoveries : UInt64
  initcmdFailed : UInt64

/-- `ecm_api_finding_t`. -/
structure FindingText where
  type : Text
  sev : Text
  a : Int
  b : Int
  c : UInt32
  count : UInt64
  active : Bool
  text : Text

/-- `ecm_api_mon_t`. -/
structure MonPart where
  seq : UInt64
  monoNs : UInt64
  diagOn : Bool
  diagReads : UInt64
  diagFramesLost : UInt64
  emcyTotal : UInt64
  emcyLost : UInt64
  n : Int
  s : Nat → MonSlave
  nf : Int
  f : Nat → FindingText
  hoDrops : UInt64

/-- `ecm_api_port_t`. -/
structure Port where
  name : Text
  iface : Text
  link : Int
  tx : UInt64
  noframe : UInt64
  crcErr : Int
  rxMissed : Int
  carrierChanges : Int

/-- `ecm_api_group_cfg_t`. -/
structure GroupCfg where
  name : Text
  slaves : List UInt16
  cycleNs : Int

/-- `ecm_api_slave_cfg_t`. -/
structure SlaveCfg where
  pos : Int
  vendor : UInt32
  product : UInt32
  revision : UInt32
  name : Text

/-- `ecm_api_axis_t`. -/
structure AxisText where
  name : Text
  slave : Int
  n : Int
  state : Text
  err : Text
  errorSrc : Text
  sw : UInt16
  cw : UInt16
  errorCode : UInt16
  mode : Int
  modeDisplay : Int
  homed : Bool
  valid : Bool
  pos : Int
  vel : Int
  tick : UInt64
  used : UInt64
  late : UInt64
  underruns : UInt64
  dropped : UInt64
  stepRefused : UInt32
  ppAcked : UInt32
  errorText : Text

/-- `ecm_api_rtcfg_t`. -/
structure RtCfg where
  rtCpu : Int
  isolated : Text
  haveIsolated : Bool
  idleDriver : Text
  idleOff : Bool
  nstates : Int
  disabled : List Text
  kernel : Text
  flags : List Text

/-- `ecm_api_stats_t`; `dc` and `hookH` are the histograms of the two records of
the RT thread. -/
structure Stats where
  pid : Int
  cycleNs : Int
  link : Text
  nSlaves : Int
  nports : Int
  ngroups : Int
  path : Text
  ports : Nat → Port
  gcfg : Nat → GroupCfg
  scfg : Nat → SlaveCfg
  dcRefPos : Int
  dmaLatencyHeld : Bool
  hook : Text
  apiCpus : Text
  rtcfg : RtCfg
  pubSeq : UInt64
  monoNs : UInt64
  final : Bool
  fsm : Text
  haveRt : Bool
  haveTel : Bool
  haveMon : Bool
  haveDc : Bool
  haveHook : Bool
  rt : RtPart
  dc : Linhist
  hookH : Hist
  tel : TelPart
  mon : MonPart
  etfMissed : UInt64
  etfInvalid : UInt64
  naxes : Int
  ax : Nat → AxisText

/-- `ECM_API_SCHEMA`. -/
def apiSchema : Nat := 1
/-- `ECM_API_MAX_SLAVES`. -/
def apiMaxSlaves : Nat := 64
/-- `ECM_API_MAX_AXES`. -/
def apiMaxAxes : Nat := 32
/-- `ECM_API_MAX_GROUPS`. -/
def apiMaxGroups : Nat := 2
/-- `ECM_API_MAX_PORTS`. -/
def apiMaxPorts : Nat := 2
/-- `ECM_API_MAX_FINDINGS`. -/
def apiMaxFindings : Nat := 32
/-- `ECM_API_EMCY_KEEP`. -/
def apiEmcyKeep : Nat := 4
/-- `ECM_API_DC_BINS`. -/
def apiDcBins : Nat := 1001
/-- `HIST_NUM_BUCKETS`. -/
def histNumBuckets : Nat := 120
/-- `ECM_API_HIST_BINS`. -/
def apiHistBins : Nat := histNumBuckets + 1

/-! ## Keys -/

def ecmApiDcKey (s : Int) : String :=
  if s = 0 then "UNANCHORED" else if s = 1 then "ACQUIRE" else if s = 2 then "LOCKED"
  else "UNKNOWN"

def ecmApiSactKey (a : Int) : String :=
  if a = 0 then "none" else if a = 1 then "ack" else if a = 2 then "op"
  else if a = 3 then "reconfig" else "unknown"

def ecmApiAlKey (al : UInt16) : String :=
  match (al &&& 0x0F).toNat with
  | 1 => "INIT"
  | 2 => "PREOP"
  | 3 => "BOOT"
  | 4 => "SAFEOP"
  | 8 => "OP"
  | _ => "UNKNOWN"

def ecmApiRecoverKey (s : MonSlave) : String :=
  if s.failedConfig then "failed_config"
  else if s.failed then "failed"
  else if s.unhealthy then "retrying"
  else "ok"

def ecmEmcyClassName (code : UInt16) : String :=
  if code = 0 then "error reset / no error"
  else
    match (code >>> 8).toNat with
    | 0x10 => "generic error"
    | 0x20 | 0x21 | 0x22 | 0x23 => "current"
    | 0x30 | 0x31 | 0x32 | 0x33 => "voltage"
    | 0x40 | 0x41 | 0x42 => "temperature"
    | 0x50 => "device hardware"
    | 0x60 | 0x61 | 0x62 | 0x63 => "device software"
    | 0x70 => "additional modules"
    | 0x80 | 0x81 | 0x82 => "monitoring / communication"
    | 0x90 => "external error"
    | 0xF0 => "additional functions"
    | 0xFF => "device specific"
    | _ => "unknown class"

/-! ## Parts of the document -/

/-- `for (int i = 0; i < n && i < max; i++) body(i);` -/
def loop (n : Int) (max : Nat) (body : Nat → Jw → Jw) : List (Jw → Jw) :=
  (List.range (min n.toNat max)).map body

/-- The number of bins up to the last one that is not zero. -/
def binsUsed (b : Nat → UInt64) : Nat → Nat
  | 0 => 0
  | n + 1 => if b n = 0 then binsUsed b n else n + 1

def kcounts (k : String) (b : Nat → UInt64) (n : Nat) : Jw → Jw :=
  block (karr k) (closing false) ((List.range (binsUsed b n)).map fun i => anum (b i).toNat)

def ku64x4 (k : String) (v : Nat → UInt64) : Jw → Jw :=
  block (karr k) (closing false) ((List.range 4).map fun i => anum (v i).toNat)

def khist (k : String) (h : Hist) : Jw → Jw :=
  if !h.has then knull k
  else
    block (kobj k) (closing true) [
      kstr "unit" (txt "ns"),
      kstr "buckets" (txt "log20_100ns_v1"),
      ku64 "count" h.count.toNat,
      ku64 "sum" h.sumNs.toNat,
      ki64 "min" h.minNs,
      ki64 "max" h.maxNs,
      kcounts "counts" h.b apiHistBins]

/-- The histogram, or the empty one of a part that is not there. -/
def khistOf (k : String) : Option Hist → Jw → Jw
  | some h => khist k h
  | none => knull k

/-- `bucket_table`; `upper` are the bounds that `hist_init` computes. -/
def bucketTable (upper : Nat → UInt64) : Jw → Jw :=
  block (kobj "buckets") (closing true) [
    block (kobj "log20_100ns_v1") (closing true) [
      kstr "unit" (txt "ns"),
      block (karr "upper") (closing false)
        ((List.range histNumBuckets).map fun i => anum (upper i).toNat),
      ku64 "n" apiHistBins],
    block (kobj "lin1us_v1") (closing true) [
      kstr "unit" (txt "us"),
      ku64 "width" 1,
      ku64 "n" apiDcBins]]

/-- The data bytes of an emergency message. -/
def kemcyData (data : Nat → UInt8) (j : Jw) : Jw :=
  jprintf (quote :: ((List.range 5).flatMap fun i => hexUpper 2 (data i).toNat) ++ [quote])
    (jkey (txt "data") j)

def emcyObj (e : Emcy) : Jw → Jw :=
  block aobj (closing true) [
    ku64 "mono_ns" e.monoNs.toNat,
    ku64 "tick" e.tick.toNat,
    khex "code" e.code.toNat 4,
    khex "reg" e.reg.toNat 2,
    kemcyData e.data,
    kstr "class" (txt (ecmEmcyClassName e.code))]

/-! ## `ecm_api_rtcfg_json` -/

/-- The members of the RT configuration. -/
def rtcfgMembers (r : RtCfg) : List (Jw → Jw) := [
  ki64 "rt_cpu" r.rtCpu,
  if r.haveIsolated then kstr "isolated_cpus" r.isolated else knull "isolated_cpus",
  block (kobj "cpuidle") (closing true) [
    if cstr r.idleDriver ≠ [] then kstr "driver" r.idleDriver else knull "driver",
    kbool "off" r.idleOff,
    ki64 "states" r.nstates,
    block (karr "states_disabled") (closing false) (r.disabled.map astr)],
  kstr "kernel" r.kernel,
  block (karr "cmdline_flags") (closing false) (r.flags.map astr)]

/-- `ecm_api_rtcfg_json`: the buffer and the length of the members in it. -/
def ecmApiRtcfgJson (r : RtCfg) (buf : Image) (cap : Nat) : Image × Nat :=
  if cap = 0 then (buf, 0)
  else
    let j := seq (rtcfgMembers r) (Jw.start buf cap 2)
    if j.ovf then (Function.update j.b 0 0, 0) else (j.b, j.len)

/-- The RT configuration behind the other members of its object; `m` is the
local buffer. -/
def rtcfgPart (r : RtCfg) (m : Image) (j : Jw) : Jw :=
  let ml := ecmApiRtcfgJson r m 2048
  if ml.2 ≠ 0 then jraw (slice ml.1 0 ml.2) (jraw [ch ','] j) else j

/-! ## The members of the document -/

section Members

variable (st : Stats)

/-- `rt`, `t` and `m` of the source: the parts that are there. -/
def Stats.rtPart : Option RtPart := if st.haveRt then some st.rt else none
def Stats.telPart : Option TelPart := if st.haveTel then some st.tel else none
def Stats.monPart : Option MonPart := if st.haveMon then some st.mon else none

/-- The sum over the groups of the RT thread, in `uint64_t`. -/
def groupSum (r : RtPart) (f : RtGroup → UInt64) : UInt64 :=
  ((List.range (min r.ngroups.toNat apiMaxGroups)).map fun g => f (r.g g)).foldl (· + ·) 0

/-- The frames sent and lost on a port: with one port every cyclic frame went
through it. -/
def portFrames (po : Port) : UInt64 × UInt64 :=
  match st.rtPart with
  | some r =>
      if st.nports = 1 then (groupSum r (·.cycles), groupSum r fun g => g.wkc 1)
      else (po.tx, po.noframe)
  | none => (po.tx, po.noframe)

def portObj (p : Nat) : Jw → Jw :=
  let po := st.ports p
  let frames := portFrames st po
  block aobj (closing true) [
    kstr "name" po.name,
    kstr "iface" po.iface,
    kstr "link" (txt (if po.link > 0 then "up" else if po.link = 0 then "down" else "unknown")),
    ifSome st.rtPart fun _ => [ku64 "tx" frames.1.toNat, ku64 "noframe" frames.2.toNat],
    kopt "crc_err" po.crcErr,
    kopt "rx_missed" po.rxMissed,
    kopt "carrier_changes" po.carrierChanges]

def busPart : Jw → Jw :=
  block (kobj "bus") (closing true) [
    kstr "fsm" (match st.rtPart with | some _ => st.fsm | none => txt "STARTING"),
    ki64 "cycle_ns" st.cycleNs,
    kstr "link" st.link,
    ki64 "n_slaves" st.nSlaves,
    block (karr "ports") (closing false) (loop st.nports apiMaxPorts (portObj st)),
    kstr "path" st.path]

def groupObj (g : Nat) : Jw → Jw :=
  let gc := st.gcfg g
  block aobj (closing true) [
    kstr "name" gc.name,
    block (karr "slaves") (closing false) (gc.slaves.map fun s => anum s.toNat),
    ki64 "cycle_ns" gc.cycleNs,
    ifSome st.rtPart fun rt => [
      ifThen ((g : Int) < rt.ngroups) [
        ku64 "cycles" (rt.g g).cycles.toNat,
        ku64 "ok" ((rt.g g).wkc 0).toNat,
        ku64 "noframe" ((rt.g g).wkc 1).toNat,
        ku64 "zero" ((rt.g g).wkc 2).toNat,
        ku64 "partial" ((rt.g g).wkc 3).toNat,
        ku64 "over" ((rt.g g).wkc 4).toNat,
        ku64 "max_run_bad" (rt.g g).maxRunBad.toNat,
        ku64 "overrun" (rt.g g).overrun.toNat]]]

def groupsPart : Jw → Jw :=
  block (karr "groups") (closing false) (loop st.ngroups apiMaxGroups (groupObj st))

def histPart : Jw → Jw :=
  block (kobj "hist") (closing true) [
    khistOf "wake_jitter" (st.telPart.map (·.wakeJitter)),
    khistOf "prep_send" (st.telPart.map (·.prepSend)),
    khistOf "turnaround" (st.telPart.map (·.turnaround)),
    khistOf "occupancy" (st.telPart.map (·.occupancy)),
    if st.haveDc && st.dc.has then
      block (kobj "dc_err") (closing true) [
        kstr "unit" (txt "us"),
        kstr "buckets" (txt "lin1us_v1"),
        ku64 "count" st.dc.n.toNat,
        kcounts "counts" st.dc.b apiDcBins]
    else knull "dc_err",
    khistOf "hook" (if st.haveHook then some st.hookH else none)]

/-- An object with what is known of one part, or `null` if it is not there. -/
def sourceOf {α : Type} (k : String) (p : Option α) (fs : α → List (Jw → Jw)) : Jw → Jw :=
  match p with
  | some a => block (kobj k) (closing true) (fs a)
  | none => knull k

def dcPart : Jw → Jw :=
  sourceOf "dc" (st.rtPart.filter (·.dcOn)) fun rt => [
    kstr "state" (txt (ecmApiDcKey rt.dcState)),
    ki64 "ref_pos" st.dcRefPos,
    ku64 "locks" rt.dcLocks.toNat,
    ku64 "unlocks" rt.dcUnlocks.toNat,
    ku64 "clamps" rt.dcClamps.toNat,
    ku64 "wraps" rt.dcWraps.toNat,
    ku64 "stale" rt.dcStale.toNat,
    ki64 "err_ns" rt.dcErrNs]

def linkPart : Jw → Jw :=
  block (kobj "link") (closing true) [
    ifSome st.rtPart fun rt => [
      ifThen rt.txtimeHave [
        ku64 "txtime_late" rt.txtimeLate.toNat,
        ku64 "txtime_bypass" rt.txtimeBypass.toNat,
        ku64 "send_err" rt.sendErr.toNat,
        ku64 "tai_steps" rt.taiSteps.toNat]],
    ku64 "etf_missed" st.etfMissed.toNat,
    ku64 "etf_invalid" st.etfInvalid.toNat]

/-- What the monitor adds to a slave. -/
def monSlavePart (m : MonPart) (s : MonSlave) : List (Jw → Jw) := [
  ifThen (m.diagOn && s.everAnswered) [
    khex "station" s.station.toNat 4,
    kstr "al" (txt (ecmApiAlKey s.alStatus)),
    kbool "al_err" (s.alStatus &&& 0x10 ≠ 0),
    khex "al_code" s.alCode.toNat 4,
    khex "dl_status" s.dlStatus.toNat 4],
  ifThen m.diagOn [
    kbool "answered" s.answered,
    ku64x4 "inv" s.inv,
    ku64x4 "rx_err" s.rx,
    ku64x4 "fwd_err" s.fwd,
    ku64x4 "lost_link" s.lost,
    ku64 "pu_err" s.pu.toNat,
    ku64 "pdi_err" s.pdi.toNat],
  kstr "policy" (txt (ecmApiSactKey s.sact)),
  kstr "recover" (txt (ecmApiRecoverKey s)),
  ku64 "attempts" s.attempts.toNat,
  ku64 "recoveries" s.recoveries.toNat,
  ku64 "initcmd_failed" s.initcmdFailed.toNat,
  ku64 "emcy_count" s.emcyCount.toNat,
  block (karr "emcy") (closing false) (loop s.nemcy apiEmcyKeep fun k => emcyObj (s.emcy k))]

def slaveObj (i : Nat) : Jw → Jw :=
  let sc := st.scfg i
  block aobj (closing true) [
    ki64 "pos" sc.pos,
    khex "vendor" sc.vendor.toNat 8,
    khex "product" sc.product.toNat 8,
    khex "revision" sc.revision.toNat 8,
    kstr "name" sc.name,
    ifSome st.monPart fun m => [ifThen ((i : Int) < m.n) (monSlavePart m (m.s i))]]

def slavesPart : Jw → Jw :=
  block (karr "slaves") (closing false) (loop st.nSlaves apiMaxSlaves (slaveObj st))

def axisObj (k : Nat) : Jw → Jw :=
  let a := st.ax k
  block aobj (closing true) [
    kstr "name" a.name,
    ki64 "slave" a.slave,
    ki64 "n" a.n,
    ifThen a.valid [
      kstr "state" a.state,
      khex "sw" a.sw.toNat 4,
      khex "cw" a.cw.toNat 4,
      ki64 "mode" a.mode,
      ki64 "mode_display" a.modeDisplay,
      kstr "err" a.err,
      khex "error_code" a.errorCode.toNat 4,
      kstr "error_src" a.errorSrc,
      kstr "error_text" a.errorText,
      ki64 "pos" a.pos,
      ki64 "vel" a.vel,
      ku64 "tick" a.tick.toNat,
      ku64 "used" a.used.toNat,
      ku64 "late" a.late.toNat,
      ku64 "underruns" a.underruns.toNat,
      ku64 "dropped" a.dropped.toNat,
      ku64 "step_refused" a.stepRefused.toNat,
      ku64 "pp_acked" a.ppAcked.toNat,
      kbool "homed" a.homed]]

def axesPart : Jw → Jw :=
  block (karr "axes") (closing false) (loop st.naxes apiMaxAxes (axisObj st))

/-- The `rt` object; `m` is the local buffer of the source. -/
def rtObj (m : Image) : Jw → Jw :=
  block (kobj "rt") (closing true) [
    kbool "dma_latency_held" st.dmaLatencyHeld,
    if cstr st.hook ≠ [] then kstr "hook" st.hook else knull "hook",
    ifSome st.rtPart fun rt => [ku64 "hook_calls" rt.hookCalls.toNat],
    fun j => rtcfgPart st.rtcfg m (kstr "api_cpus" st.apiCpus j)]

def findingObj (f : FindingText) : Jw → Jw :=
  block aobj (closing true) [
    kstr "type" f.type,
    kstr "sev" f.sev,
    kstr "text" f.text,
    ki64 "a" f.a,
    ki64 "b" f.b,
    ku64 "c" f.c.toNat,
    ku64 "count" f.count.toNat,
    kbool "active" f.active]

def findingsPart : Jw → Jw :=
  block (karr "findings") (closing false)
    (match st.monPart with
    | some m => loop m.nf apiMaxFindings fun k => findingObj (m.f k)
    | none => [])

def sourcesPart : Jw → Jw :=
  block (kobj "sources") (closing true) [
    sourceOf "rt" st.rtPart fun rt => [
      ku64 "seq" rt.seq.toNat,
      ku64 "mono_ns" rt.monoNs.toNat,
      ku64 "tick" rt.tick.toNat],
    sourceOf "telemetry" st.telPart fun t => [
      ku64 "seq" t.seq.toNat,
      ku64 "mono_ns" t.monoNs.toNat,
      ku64 "ring_drops" t.ringDrops.toNat],
    sourceOf "monitor" st.monPart fun m => [
      ku64 "seq" m.seq.toNat,
      ku64 "mono_ns" m.monoNs.toNat,
      kbool "diag" m.diagOn,
      ku64 "diag_reads" m.diagReads.toNat,
      ku64 "diag_frames_lost" m.diagFramesLost.toNat,
      ku64 "emcy_total" m.emcyTotal.toNat,
      ku64 "emcy_lost" m.emcyLost.toNat],
    ku64 "handoff_drops"
      ((match st.rtPart with | some rt => rt.hoDrops | none => 0) +
        (match st.telPart with | some t => t.hoDrops | none => 0) +
        (match st.monPart with | some m => m.hoDrops | none => 0)).toNat]

/-- The members of the document. -/
def statsMembers (upper : Nat → UInt64) (m : Image) : List (Jw → Jw) := [
  ku64 "schema" apiSchema,
  ku64 "pub_seq" st.pubSeq.toNat,
  ku64 "mono_ns" st.monoNs.toNat,
  ki64 "pid" st.pid,
  kbool "final" st.final,
  bucketTable upper,
  busPart st,
  groupsPart st,
  histPart st,
  dcPart st,
  linkPart st,
  slavesPart st,
  axesPart st,
  rtObj st m,
  findingsPart st,
  sourcesPart st]

/-- `ecm_api_stats_json`: the buffer afterwards and the length of the text.  `upper`
are the bounds of `hist_init`, `m` is what the local buffer holds before it is
used. -/
def ecmApiStatsJson (upper : Nat → UInt64) (m buf : Image) (cap : Nat) : Image × Nat :=
  if cap = 0 then (buf, 0)
  else
    let j := jputs [10]
      (block (jopen (opening true)) (closing true) (statsMembers st upper m)
        (Jw.start buf cap 0))
    if j.ovf then (Function.update j.b 0 0, 0) else (j.b, j.len)

end Members

/-! ## Every part writes items -/

section Parts

variable {d : Nat}

theorem emits_loop {obj : Bool} {body : Nat → Jw → Jw} (hbody : ∀ i, Emits d obj (body i))
    (n : Int) (max : Nat) : ∀ f ∈ loop n max body, Emits d obj f := by
  intro f hf
  obtain ⟨i, -, rfl⟩ := List.mem_map.1 hf
  exact hbody i

theorem emits_kcounts (k : String) (b : Nat → UInt64) (n : Nat) (hd : d + 1 < jwDepths) :
    Emits d true (kcounts k b n) :=
  emits_karr k hd (by simp)

theorem emits_ku64x4 (k : String) (v : Nat → UInt64) (hd : d + 1 < jwDepths) :
    Emits d true (ku64x4 k v) :=
  emits_karr k hd (by simp)

theorem emits_khist (k : String) (h : Hist) (hd : d + 2 < jwDepths) :
    Emits d true (khist k h) := by
  unfold khist
  refine emits_ite (fun _ => emits_knull k) fun _ => emits_kobj k (by omega) ?_
  simp [emits_kcounts _ _ _ hd]

theorem emits_khistOf (k : String) (h : Option Hist) (hd : d + 2 < jwDepths) :
    Emits d true (khistOf k h) := by
  cases h with
  | none => exact emits_knull k
  | some h => exact emits_khist k h hd

theorem emits_bucketTable (upper : Nat → UInt64) : Emits 1 true (bucketTable upper) := by
  refine emits_kobj _ (by decide) ?_
  simp only [List.forall_mem_cons, List.not_mem_nil, IsEmpty.forall_iff, implies_true, and_true]
  constructor
  · refine emits_kobj _ (by decide) ?_
    have hupper : Emits 3 true (block (karr "upper") (closing false)
        ((List.range histNumBuckets).map fun i => anum (upper i).toNat)) :=
      emits_karr _ (by decide) (by simp)
    simp [hupper]
  · exact emits_kobj _ (by decide) (by simp)

theorem emits_kemcyData (data : Nat → UInt8) : Emits d true (kemcyData data) := by
  refine emits_member _ fun _ => fills_value (value_string ?_)
  refine chars_of_unescaped fun c hc => isUnescaped_of_isHexdig ?_
  obtain ⟨i, -, hc⟩ := List.mem_flatMap.1 hc
  exact isHexdig_of_mem_hexUpper hc

theorem emits_emcyObj (e : Emcy) : Emits 4 false (emcyObj e) :=
  emits_aobj (by decide) (by simp [emits_kemcyData])

theorem emits_portObj (st : Stats) (p : Nat) : Emits 3 false (portObj st p) :=
  emits_aobj (by decide) (by simp [emits_ifSome])

theorem emits_busPart (st : Stats) : Emits 1 true (busPart st) := by
  refine emits_kobj _ (by decide) ?_
  have hports := emits_karr "ports" (d := 2) (by decide)
    (emits_loop (emits_portObj st) st.nports apiMaxPorts)
  simp [hports]

theorem emits_groupObj (st : Stats) (g : Nat) : Emits 2 false (groupObj st g) := by
  refine emits_aobj (by decide) ?_
  have hslaves : Emits 3 true (block (karr "slaves") (closing false)
      ((st.gcfg g).slaves.map fun s => anum s.toNat)) :=
    emits_karr _ (by decide) (by simp)
  simp [hslaves, emits_ifSome, emits_ifThen]

theorem emits_groupsPart (st : Stats) : Emits 1 true (groupsPart st) :=
  emits_karr _ (by decide) (emits_loop (emits_groupObj st) _ _)

theorem emits_histPart (st : Stats) : Emits 1 true (histPart st) := by
  refine emits_kobj _ (by decide) ?_
  have hdc : ∀ (c : Bool) fs, (∀ f ∈ fs, Emits 3 true f) →
      Emits 2 true (if c then block (kobj "dc_err") (closing true) fs else knull "dc_err") :=
    fun c fs hfs => emits_ite (fun _ => emits_kobj _ (by decide) hfs) fun _ => emits_knull _
  simp only [List.forall_mem_cons, List.not_mem_nil, IsEmpty.forall_iff, implies_true, and_true]
  refine ⟨emits_khistOf _ _ (by decide), emits_khistOf _ _ (by decide),
    emits_khistOf _ _ (by decide), emits_khistOf _ _ (by decide), hdc _ _ ?_,
    emits_khistOf _ _ (by decide)⟩
  simp [emits_kcounts "counts" st.dc.b apiDcBins (d := 3) (by decide)]

theorem emits_sourceOf {α : Type} (k : String) (o : Option α) {fs : α → List (Jw → Jw)}
    (hd : d + 1 < jwDepths) (hfs : ∀ a, ∀ f ∈ fs a, Emits (d + 1) true f) :
    Emits d true (sourceOf k o fs) := by
  cases o with
  | none => exact emits_knull k
  | some a => exact emits_kobj k hd (hfs a)

theorem emits_dcPart (st : Stats) : Emits 1 true (dcPart st) :=
  emits_sourceOf _ _ (by decide) (by simp)

theorem emits_linkPart (st : Stats) : Emits 1 true (linkPart st) :=
  emits_kobj _ (by decide) (by simp [emits_ifSome, emits_ifThen])

theorem emits_monSlavePart (m : MonPart) (s : MonSlave) :
    ∀ f ∈ monSlavePart m s, Emits 3 true f := by
  have hemcy := emits_karr "emcy" (d := 3) (by decide)
    (emits_loop (fun k => emits_emcyObj (s.emcy k)) s.nemcy apiEmcyKeep)
  have hfour : ∀ k v, Emits 3 true (ku64x4 k v) := fun k v => emits_ku64x4 k v (by decide)
  simp [monSlavePart, hemcy, hfour, emits_ifThen]

theorem emits_slaveObj (st : Stats) (i : Nat) : Emits 2 false (slaveObj st i) := by
  refine emits_aobj (by decide) ?_
  have hmon : ∀ m : MonPart, Emits 3 true (ifThen ((i : Int) < m.n) (monSlavePart m (m.s i))) :=
    fun m => emits_ifThen (emits_monSlavePart m (m.s i))
  simp [emits_ifSome, hmon]

theorem emits_slavesPart (st : Stats) : Emits 1 true (slavesPart st) :=
  emits_karr _ (by decide) (emits_loop (emits_slaveObj st) _ _)

theorem emits_axisObj (st : Stats) (k : Nat) : Emits 2 false (axisObj st k) :=
  emits_aobj (by decide) (by simp [emits_ifThen])

theorem emits_axesPart (st : Stats) : Emits 1 true (axesPart st) :=
  emits_karr _ (by decide) (emits_loop (emits_axisObj st) _ _)

theorem emits_findingsPart (st : Stats) : Emits 1 true (findingsPart st) := by
  have hfinding : ∀ f, Emits 2 false (findingObj f) := fun f =>
    emits_aobj (by decide) (by simp)
  refine emits_karr _ (by decide) ?_
  cases st.monPart with
  | none => simp
  | some m => exact emits_loop (fun k => hfinding (m.f k)) _ _

theorem emits_sourcesPart (st : Stats) : Emits 1 true (sourcesPart st) := by
  have hsource : ∀ {α : Type} (k : String) (o : Option α) {fs : α → List (Jw → Jw)},
      (∀ a, ∀ f ∈ fs a, Emits 3 true f) → Emits 2 true (sourceOf k o fs) :=
    fun k o _ hfs => emits_sourceOf k o (by decide) hfs
  exact emits_kobj _ (by decide) (by simp [hsource])

/-! ## The RT configuration -/

theorem emits_rtcfgMembers (r : RtCfg) : ∀ f ∈ rtcfgMembers r, Emits 2 true f := by
  have hstates : Emits 3 true (block (karr "states_disabled") (closing false)
      (r.disabled.map astr)) :=
    emits_karr _ (by decide) (by simp)
  have hidle : Emits 2 true (block (kobj "cpuidle") (closing true) [
      if cstr r.idleDriver ≠ [] then kstr "driver" r.idleDriver else knull "driver",
      kbool "off" r.idleOff,
      ki64 "states" r.nstates,
      block (karr "states_disabled") (closing false) (r.disabled.map astr)]) :=
    emits_kobj _ (by decide) (by simp [hstates, emits_ite])
  have hflags : Emits 2 true (block (karr "cmdline_flags") (closing false)
      (r.flags.map astr)) :=
    emits_karr _ (by decide) (by simp)
  simp only [rtcfgMembers, List.forall_mem_cons, List.not_mem_nil, IsEmpty.forall_iff,
    implies_true, and_true]
  exact ⟨emits_ki64 _ _, emits_ite (fun _ => emits_kstr _ _) fun _ => emits_knull _, hidle,
    emits_kstr _ _, hflags⟩

/-- The members of the RT configuration, written where a name is due. -/
theorem ok_rtcfgMembers (r : RtCfg) (m : Image) {cap : Nat} (hcap : 0 < cap)
    (within : List Bool) :
    (seq (rtcfgMembers r) (Jw.start m cap 2)).Ok m cap [] ⟨.key, true :: within⟩
      ⟨.after, true :: within⟩ := by
  set first : Spot := ⟨.key, true :: within⟩
  have hfirst : Writes first [] ⟨dueItem true, true :: within⟩ := fun _ hr => hr
  have hstart : (Jw.start m cap 2).Ok m cap [] first
      (place first true within ((Jw.start m cap 2).comma 2)) := by
    have hempty := holds_start m hcap 2
    exact ⟨rfl, hempty.2, hempty.3, fun hovf => ⟨(hempty.text hovf).1, [], rfl, fun _ hr => hr⟩⟩
  have hemits := emits_rtcfgMembers r
  rw [rtcfgMembers, List.forall_mem_cons] at hemits
  -- the first member is always there, so a comma is due behind all of them
  obtain ⟨hj₁, hd₁, -, -⟩ := hemits.1 hfirst hstart rfl
  obtain ⟨hj₂, -, -, hkept⟩ := emits_seq hemits.2 hfirst hj₁ hd₁
  have hcomma := hkept (by
    rw [ki64, jprintf_comma]
    exact jkey_comma _ (Jw.start m cap 2))
  rw [hcomma] at hj₂
  exact hj₂

/-- What `ecm_api_rtcfg_json` leaves in its buffer are members of an object. -/
theorem writes_rtcfg (r : RtCfg) (m : Image) {cap : Nat}
    (hsome : (ecmApiRtcfgJson r m cap).2 ≠ 0) (within : List Bool) :
    Writes ⟨.key, true :: within⟩
      (slice (ecmApiRtcfgJson r m cap).1 0 (ecmApiRtcfgJson r m cap).2)
      ⟨.after, true :: within⟩ := by
  unfold ecmApiRtcfgJson at hsome ⊢
  by_cases hcap : cap = 0
  · simp [hcap] at hsome
  have hok := ok_rtcfgMembers r m (Nat.pos_of_ne_zero hcap) within
  rw [if_neg hcap] at hsome ⊢
  generalize seq (rtcfgMembers r) (Jw.start m cap 2) = j at hok hsome ⊢
  dsimp only at hsome ⊢
  cases hovf : j.ovf with
  | true => simp [hovf] at hsome
  | false =>
    obtain ⟨-, t, ht, hwrites⟩ := hok.text hovf
    rw [List.nil_append] at ht
    rw [if_neg (by simp), ht]
    exact hwrites

/-- The string before the RT configuration, and the configuration if it fits its
buffer. -/
theorem emits_rtcfgPart (r : RtCfg) (m : Image) (k : String) (v : Text) :
    Emits 2 true fun j => rtcfgPart r m (kstr k v j) := by
  refine emits_member (txt k) (g := fun j => rtcfgPart r m (jstr v j)) fun within => ?_
  unfold rtcfgPart
  dsimp only
  split
  next hsome =>
    have hcomma := fills_jraw (d := 2) (writes_comma true within)
    have hmembers := fills_jraw (d := 2) (writes_rtcfg r m hsome within)
    exact ((fills_jstr v (true :: within)).comp hcomma).comp hmembers
  next => exact fills_jstr v (true :: within)

theorem emits_rtObj (st : Stats) (m : Image) : Emits 1 true (rtObj st m) := by
  refine emits_kobj _ (by decide) ?_
  have hcfg := emits_rtcfgPart st.rtcfg m "api_cpus" st.apiCpus
  simp [hcfg, emits_ifSome, emits_ite]

/-! ## The document -/

theorem emits_statsMembers (st : Stats) (upper : Nat → UInt64) (m : Image) :
    ∀ f ∈ statsMembers st upper m, Emits 1 true f := by
  simp [statsMembers, emits_bucketTable, emits_busPart, emits_groupsPart, emits_histPart,
    emits_dcPart, emits_linkPart, emits_slavesPart, emits_axesPart, emits_rtObj,
    emits_findingsPart, emits_sourcesPart]

/-- An object, with a line feed behind it. -/
def ObjectLine (u : Text) : Prop := ∃ v, u = opening true :: (v ++ [10]) ∧ Value (opening true :: v)

/-- The bracket and the text behind it. -/
theorem value_of_leads {u : Text} (hu : Leads [opening true] ⟨.opened true, []⟩ ⟨.after, []⟩ u) :
    ObjectLine (u ++ [10]) := by
  obtain ⟨t, rfl, hwrites⟩ := hu
  refine ⟨t, by simp, ?_⟩
  have hrest := hwrites [] rfl
  rw [List.append_nil] at hrest
  obtain ⟨r, rfl, htail⟩ | ⟨items, r, hitems, rfl, htail⟩ := hrest
  · have hr : r = [] := htail
    subst hr
    exact value_empty true
  · have hr : r = [] := htail
    subst hr
    exact value_container hitems

theorem holds_document (st : Stats) (upper : Nat → UInt64) (m buf : Image) {cap : Nat}
    (hcap : 0 < cap) :
    (jputs [10] (block (jopen (opening true)) (closing true) (statsMembers st upper m)
      (Jw.start buf cap 0))).Holds buf cap ObjectLine := by
  have hopen : (jopen (opening true) (Jw.start buf cap 0)).Ok buf cap [opening true]
      ⟨.opened true, []⟩ ⟨.opened true, []⟩ := by
    have hraw : (jraw [opening true] (Jw.start buf cap 0)).Ok buf cap [opening true]
        ⟨.opened true, []⟩ ⟨.opened true, []⟩ :=
      holds_jraw (holds_start buf hcap 0) fun u hu => ⟨[], by simp [hu], fun _ hr => hr⟩
    exact ⟨hraw.1, hraw.2, hraw.3, hraw.4⟩
  have hdepth : (jraw [opening true] (Jw.start buf cap 0)).depth = 0 := by
    unfold jraw
    repeat' split
    all_goals rfl
  obtain ⟨hdown, hclear⟩ := jopen_down (opening true) hdepth (by decide)
  have hitems := ok_items (emits_statsMembers st upper m) hopen hdown
    (by rw [hclear, Function.update_self])
  exact holds_jraw hitems.1 fun _ hu => value_of_leads hu

/-- Whatever the statistics, the buffer size and the buffer hold, nothing outside
the buffer is written, and the result is `0` or the length of a text that ends
with a NUL and is one object of RFC 8259. -/
theorem stats_json_is_one_object (st : Stats) (upper : Nat → UInt64) (m buf : Image)
    (cap : Nat) :
    let r := ecmApiStatsJson st upper m buf cap
    (∀ i, cap ≤ i → r.1 i = buf i) ∧
      (r.2 = 0 ∨ (r.2 < cap ∧ r.1 r.2 = 0 ∧ (0 : UInt8) ∉ slice r.1 0 r.2 ∧
        (slice r.1 0 r.2).head? = some (opening true) ∧
        ∃ depth count, JsonText escapes depth count (slice r.1 0 r.2))) := by
  intro r
  by_cases hcap : cap = 0
  · have hr : r = (buf, 0) := if_pos hcap
    rw [hr]
    exact ⟨fun _ _ => rfl, .inl rfl⟩
  have hdoc := holds_document st upper m buf (Nat.pos_of_ne_zero hcap)
  have hr : r = if (jputs [10] (block (jopen (opening true)) (closing true)
      (statsMembers st upper m) (Jw.start buf cap 0))).ovf then _ else _ := if_neg hcap
  rw [hr]
  split
  next =>
    refine ⟨fun i hi => ?_, .inl rfl⟩
    exact (Function.update_of_ne (by omega) _ _).trans (hdoc.outside i hi)
  next hovf =>
    obtain ⟨hnul, v, htext, d, n, hvalue⟩ := hdoc.text (by simpa using hovf)
    have hjson : JsonText escapes d n (opening true :: (v ++ [10])) :=
      ⟨⟨[], opening true :: v, [10], ws_nil, hvalue, fun c hc => by simp_all [isWs], by simp⟩⟩
    refine ⟨hdoc.outside, .inr ⟨hdoc.len_lt, hnul, ?_, ?_, d, n, ?_⟩⟩
    · rw [htext]
      exact Within.zero_not_mem ⟨d, n, Nat.le_refl d, Nat.le_refl n, hjson⟩ rfl
    · rw [htext]
      rfl
    · rw [htext]
      exact hjson

end Parts

end EcMaster.Api
