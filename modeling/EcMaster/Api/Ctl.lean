import EcMaster.Api.Allow
import EcMaster.Api.Reply

/-!
# One request, one reply

`ecm_ctl_handle` of `libecmaster/api/ecm_ctl.c` and the four commands behind
it.  A request is one line; the reply is written into a buffer of `cap`
bytes.  In between the commands ask the backend, and the world that comes
back says what they asked.

The token bucket counts in rationals where the source has doubles.  `dt` is
the time that the SDO of the request took on the monotonic clock; a request
measures at most one.

`cmdSdoWrite` is in three parts, in the order of the source: the arguments,
the checks that count as refused writes (`writeGate`), and the write with its
read back (`writeThrough`).
-/

namespace EcMaster.Api

open EcMaster.ByteImage EcMaster.CText

/-- `ecm_ctl_state_t`. -/
structure CtlState where
  tokens : ℚ
  lastNs : UInt64
  cmds : UInt64
  ok : UInt64
  errors : UInt64
  rateLimited : UInt64
  refusedWrites : UInt64
  sdoReads : UInt64
  sdoWrites : UInt64
  sdoNsMax : UInt64
deriving DecidableEq, Repr

/-- `ECM_CTL_RATE`. -/
def ctlRate : Nat := 20

/-- `ecm_ctl_state_init`. -/
def ecmCtlStateInit : CtlState :=
  { tokens := ctlRate, lastNs := 0, cmds := 0, ok := 0, errors := 0, rateLimited := 0
    refusedWrites := 0, sdoReads := 0, sdoWrites := 0, sdoNsMax := 0 }

/-- `req_t`.  The buffer of the id has 72 bytes. -/
structure Req where
  s : Image
  t : List Tok
  id : Text
  short : id.length < 72

/-- What one call of `ecm_ctl_handle` leaves behind. -/
structure Done (σ : Type) where
  reply : Text
  st : CtlState
  world : World σ

/-- `head`. -/
def head (w : Rw) (r : Req) (ok : Bool) : Rw :=
  rf w (txt "\x7b\"id\":" ++ r.id ++ txt ",\"ok\":" ++ if ok then txt "true" else txt "false")

section Commands

variable {σ D : Type}

/-- `fail`, for the formatted message: it starts the reply again. -/
def fail (st : CtlState) (w : Rw) (r : Req) (code msg : Text) (x : World σ) : Done σ :=
  let w := head (.start w.cap) r false
  let w := rstr (rs w (txt ",\"error\":")) code
  let w := rstr (rs w (txt ",\"msg\":")) (clip 256 msg)
  let w := rs w (txt "\x7d")
  { reply := rend w, st := { st with errors := st.errors + 1 }, world := x }

/-- `refuse`. -/
def refuse (st : CtlState) (w : Rw) (r : Req) (code msg : Text) (x : World σ) : Done σ :=
  fail { st with refusedWrites := st.refusedWrites + 1 } w r code (clip 256 msg) x

/-- Slave, index, sub and type of an SDO request. -/
structure SdoArgs where
  slave : Nat
  index : UInt16
  sub : UInt8
  type : CType
deriving DecidableEq, Repr

/-- The unsigned integer of a member of the request. -/
def member (r : Req) (key : Text) : Option Nat :=
  ((ecmJsonGet r.s r.t 0 key).bind fun v => ecmJsonU64 r.s (tokAt r.t v)).map UInt64.toNat

/-- The type that a request names. -/
def typeArg (r : Req) (needType : Bool) : Except Text CType :=
  let v := ecmJsonGet r.s r.t 0 (txt "type")
  let tn := match v with
    | none => some (txt "raw")
    | some v => ecmJsonStr r.s (tokAt r.t v) 16
  match tn with
  | none => .error (txt "\"type\": a string")
  | some tn =>
      if v = none ∧ needType then .error (txt "\"type\" required")
      else
        match ecmCtlTypeParse (cstr tn) with
        | none => .error (txt "\"type\": u8 i8 u16 i16 u32 i32 u64 i64 f32 raw")
        | some type => .ok type

/-- `sdo_args`: the arguments, or an error message. -/
def sdoArgs (r : Req) (needType : Bool) : Except Text SdoArgs :=
  match (member r (txt "slave")).filter fun x => 1 ≤ x ∧ x ≤ 0xFFFF with
  | none => .error (txt "\"slave\": 1..65535 required")
  | some slave =>
    match (member r (txt "index")).filter fun x => x ≤ 0xFFFF with
    | none => .error (txt "\"index\": 0..0xFFFF required (\"0x6061\" or a number)")
    | some index =>
      match (member r (txt "sub")).filter fun x => x ≤ 0xFF with
      | none => .error (txt "\"sub\": 0..255 required")
      | some sub =>
        match typeArg r needType with
        | .error e => .error e
        | .ok type =>
            if (ecmJsonGet r.s r.t 0 (txt "ca")).isSome then
              .error (txt "Complete Access is not offered through the API")
            else .ok { slave, index := UInt16.ofNat index, sub := UInt8.ofNat sub, type }

/-- `slave S 0xIIII:B` of the messages. -/
def SdoArgs.text (a : SdoArgs) : Text :=
  txt "slave " ++ dec a.slave ++ txt " 0x" ++ hexUpper 4 a.index.toNat ++ txt ":" ++ dec a.sub.toNat

/-- `0xIIII:B` of the messages. -/
def SdoArgs.object (a : SdoArgs) : Text :=
  txt "0x" ++ hexUpper 4 a.index.toNat ++ txt ":" ++ dec a.sub.toNat

/-- `sdo_head`. -/
def sdoHead (w : Rw) (r : Req) (a : SdoArgs) : Rw :=
  rf (head w r true) (txt ",\"slave\":" ++ dec a.slave ++ txt ",\"index\":\"0x" ++
    hexUpper 4 a.index.toNat ++ txt "\",\"sub\":" ++ dec a.sub.toNat ++ txt ",\"type\":\"" ++
    ecmCtlTypeName a.type ++ txt "\"")

/-- `sdo_fail`. -/
def sdoFail (be : Backend σ) (st : CtlState) (w : Rw) (r : Req) (a : SdoArgs) (rc : Int)
    (abort : UInt32) (x : World σ) : Done σ :=
  if rc = sdoBusy then fail st w r (txt "busy") (txt "mailbox queue full, retry") x
  else if rc = sdoTimeout then
    fail st w r (txt "timeout") (a.text ++ txt ": no completion in time") x
  else if rc = sdoTooLarge then fail st w r (txt "too_large") (txt "more than 256 bytes") x
  else if rc = sdoNoMbx then
    fail st w r (txt "no_mailbox") (txt "slave " ++ dec a.slave ++
      txt ": no mailbox access in SAFE-OP/OP (see the ecm_run start-up log)") x
  else
    let w := rs (head (.start w.cap) r false) (txt ",\"error\":\"sdo_failed\"")
    let w :=
      if abort ≠ 0 then
        let text := match be.abortText with
          | none => []
          | some f => f abort
        rstr (rf w (txt ",\"abort\":\"0x" ++ hexUpper 8 abort.toNat ++ txt "\",\"msg\":")) text
      else
        rf w (txt ",\"abort\":null,\"msg\":\"" ++ a.text ++
          txt ": no answer, or no abort code seen\"")
    { reply := rend (rs w (txt "\x7d")), st := { st with errors := st.errors + 1 }, world := x }

/-- The longest SDO so far. -/
def CtlState.timed (st : CtlState) (dt : UInt64) : CtlState :=
  if st.sdoNsMax < dt then { st with sdoNsMax := dt } else st

variable (fp : Fp D) (be : Backend σ)

/-- `cmd_sdo_read`. -/
def cmdSdoRead (st : CtlState) (w : Rw) (r : Req) (dt : UInt64) (x : World σ) : Done σ :=
  match sdoArgs r false with
  | .error e => fail st w r (txt "bad_request") e x
  | .ok a =>
    let found := x.identity be a.slave
    let x := found.2
    if found.1 = none then fail st w r (txt "no_slave") (txt "no slave " ++ dec a.slave) x
    else
      let ready := x.ready be a.slave
      let x := ready.2
      if ready.1.1 ≠ 0 then fail st w r (txt "not_ready") (cstr (clip 160 ready.1.2)) x
      else
        let rd := x.sdoRead be a.slave a.index a.sub
        let x := rd.2
        let st := { st.timed dt with sdoReads := st.sdoReads + 1 }
        let size := rd.1.data.length
        if rd.1.rc ≠ 0 then sdoFail be st w r a rd.1.rc rd.1.abort x
        else if a.type ≠ .raw ∧ size ≠ ecmCtlTypeSize a.type then
          let w := rf (head (.start w.cap) r false) (txt ",\"error\":\"size_mismatch\",\"msg\":\"" ++
            ecmCtlTypeName a.type ++ txt " is " ++ dec (ecmCtlTypeSize a.type) ++
            txt " bytes, the object has " ++ dec size ++ txt "\",\"size\":" ++ dec size ++
            txt ",\"raw\":")
          { reply := rend (rs (rhex w rd.1.data) (txt "\x7d"))
            st := { st with errors := st.errors + 1 }, world := x }
        else
          let w := rf (sdoHead w r a) (txt ",\"size\":" ++ dec size ++ txt ",\"raw\":")
          let w := rhex w rd.1.data
          let num := ecmCtlDecodeJson fp a.type rd.1.data 64
          let w := if a.type ≠ .raw ∧ num.1 ≠ 0 then
              rs (rs w (txt ",\"value\":")) (cstr (num.2.getD []))
            else w
          { reply := rend (rf w (txt ",\"ms\":" ++ fp.ms dt ++ txt "\x7d"))
            st := { st with ok := st.ok + 1 }, world := x }

/-- `[min, max]` as the message of a value outside of it. -/
def rangeText (type : CType) (e : Allow D) : Text :=
  let m := rs (Rw.start 160) (txt "[")
  let m := rs (rval fp m type e.min) (txt ", ")
  (rs (rval fp m type e.max) (txt "]")).out

/-- The checks of `cmd_sdo_write` that refuse a write, in their order: the
code and the message of the first that does. -/
def writeGate (al : Option (AllowList D)) (a : SdoArgs) (val : Val D)
    (vendor product : UInt32) (x : World σ) : Option (Text × Text) × World σ :=
  if commArea a.index then
    (some (txt "denied_comm_area", txt "0x" ++ hexUpper 4 a.index.toNat ++
      txt (": the communication area 0x1000..0x1FFF is never written through the API " ++
        "(PDO mapping/assignment, sync manager, sync)")), x)
  else
    let denied := x.deny be a.slave a.index a.sub
    let x := denied.2
    if denied.1.1 ≠ 0 then
      (some (txt "denied_hard", a.text ++ txt ": " ++ cstr (clip 160 denied.1.2)), x)
    else
      let m := x.rxpdo be a.slave a.index a.sub
      let x := m.2
      if m.1 < 0 then
        (some (txt "denied_no_pdo_table", txt ("the PDO table is not known (no --eni / --pdo-scan): " ++
          "no write can be shown not to be in an RxPDO")), x)
      else if 0 < m.1 then
        (some (txt "denied_rxpdo", a.text ++
          txt " is mapped in its RxPDO: the master writes it every cycle"), x)
      else
        let owned := x.initcmd be a.slave a.index a.sub
        let x := owned.2
        if 0 < owned.1 then
          (some (txt "denied_initcmd", a.text ++
            txt " is written by the ENI (CoE InitCmd): its value is part of the configuration"), x)
        else
          match allowFind al vendor product a.index a.sub with
          | none =>
              let path := match al with
                | none => []
                | some al => al.path
              (some (txt "not_allowed", txt "slave " ++ dec a.slave ++ txt " (vendor 0x" ++
                hexUpper 8 vendor.toNat ++ txt " product 0x" ++ hexUpper 8 product.toNat ++
                txt ") " ++ a.object ++ txt " is not in the allowlist" ++
                if path = [] then txt " (none loaded)" else txt " " ++ path), x)
          | some e =>
              if e.type ≠ a.type then
                (some (txt "type_mismatch", txt "the allowlist gives " ++ ecmCtlTypeName e.type ++
                  txt " for " ++ a.object), x)
              else if ecmCtlValFits fp a.type val = false ∨
                  ecmCtlValCmp fp a.type val e.min = .lt ∨ ecmCtlValCmp fp a.type val e.max = .gt then
                (some (txt "out_of_range", a.object ++ txt ": value outside " ++
                  rangeText fp a.type e), x)
              else (none, x)

/-- The reply to a write that the slave took: what was written and what was
read back. -/
def writtenReply (w : Rw) (r : Req) (a : SdoArgs) (val : Val D) (b : Text) (rd : Sdo)
    (dt : UInt64) : Text :=
  let w := rval fp (rs (sdoHead w r a) (txt ",\"written\":")) a.type val
  let w := rhex (rs w (txt ",\"raw\":")) b
  let w :=
    if rd.rc ≠ 0 then
      rf w (txt ",\"readback\":null,\"readback_ok\":false,\"readback_error\":\"" ++
        (if rd.rc = sdoFailed then txt "sdo_failed"
          else if rd.rc = sdoTimeout then txt "timeout"
          else if rd.rc = sdoNoMbx then txt "no_mailbox"
          else txt "busy") ++ txt "\"")
    else
      let num := (ecmCtlDecodeJson fp a.type rd.data 64).2.getD (txt "null")
      let w := rs (rs w (txt ",\"readback\":")) (cstr num)
      rf w (txt ",\"readback_ok\":" ++ if rd.data = b then txt "true" else txt "false")
  rend (rf w (txt ",\"ms\":" ++ fp.ms dt ++ txt "\x7d"))

/-- The write and the read back. -/
def writeThrough (st : CtlState) (w : Rw) (r : Req) (a : SdoArgs) (val : Val D) (b : Text)
    (dt : UInt64) (x : World σ) : Done σ :=
  let wr := x.sdoWrite be a.slave a.index a.sub b
  let x := wr.2
  let st := { st with sdoWrites := st.sdoWrites + 1 }.timed dt
  if wr.1.rc ≠ 0 then sdoFail be st w r a wr.1.rc wr.1.abort x
  else
    let rd := x.sdoRead be a.slave a.index a.sub
    { reply := writtenReply fp w r a val b rd.1 dt
      st := { st with sdoReads := st.sdoReads + 1, ok := st.ok + 1 }, world := rd.2 }

/-- The value of a write request. -/
def valueArg (r : Req) (type : CType) : Option (Val D) :=
  (ecmJsonGet r.s r.t 0 (txt "value")).bind fun v => tokVal fp r.s (tokAt r.t v) type

/-- `cmd_sdo_write`. -/
def cmdSdoWrite (al : Option (AllowList D)) (st : CtlState) (w : Rw) (r : Req)
    (dt : UInt64) (x : World σ) : Done σ :=
  match sdoArgs r true with
  | .error e => fail st w r (txt "bad_request") e x
  | .ok a =>
    if a.type = .raw then
      fail st w r (txt "bad_request") (txt "sdo_write needs a numeric type, not raw") x
    else
      match valueArg fp r a.type with
      | none => fail st w r (txt "bad_request")
          (txt "\"value\": a " ++ ecmCtlTypeName a.type ++ txt " number required") x
      | some val =>
        let found := x.identity be a.slave
        match found.1 with
        | none => fail st w r (txt "no_slave") (txt "no slave " ++ dec a.slave) found.2
        | some (vendor, product) =>
          let gate := writeGate fp be al a val vendor product found.2
          match gate.1 with
          | some (code, msg) => refuse st w r code msg gate.2
          | none =>
            let ready := gate.2.ready be a.slave
            if ready.1.1 ≠ 0 then
              fail st w r (txt "not_ready") (cstr (clip 160 ready.1.2)) ready.2
            else
              -- the value fits, or the gate had refused it
              let b := (ecmCtlEncode fp a.type val).getD []
              writeThrough fp be st w r a val b dt ready.2

/-- One entry of the list in the info reply. -/
def rallow (w : Rw) (i : Nat) (e : Allow D) : Rw :=
  let w := rf w ((if i = 0 then [] else txt ",") ++ txt "\x7b\"vendor\":\"0x" ++
    hexUpper 8 e.vendor.toNat ++ txt "\",\"product\":\"0x" ++ hexUpper 8 e.product.toNat ++
    txt "\",\"index\":\"0x" ++ hexUpper 4 e.index.toNat ++ txt "\",\"sub\":" ++ dec e.sub.toNat ++
    txt ",\"type\":\"" ++ ecmCtlTypeName e.type ++ txt "\",\"min\":")
  let w := rs (rval fp w e.type e.min) (txt ",\"max\":")
  let w := rs (rval fp w e.type e.max) (txt ",\"note\":")
  rs (rstr w e.note) (txt "\x7d")

/-- The entries of the list from number `i` on. -/
def rallows (w : Rw) : Nat → List (Allow D) → Rw
  | _, [] => w
  | i, e :: es => rallows (rallow fp w i e) (i + 1) es

/-- The part of the info reply that the backend writes. -/
def backendInfo (w : Rw) (x : World σ) : Rw × World σ :=
  match be.info with
  | none => (w, x)
  | some f =>
      if w.out.length < w.cap then
        -- `w->cap - w->len - 2` in `size_t`
        let room := (w.cap + 2 ^ 64 - w.out.length - 2) % 2 ^ 64
        let r := f x.ctx room
        let x := x.after r.2 .info
        if room ≤ r.1.length then ({ w with ovf := true }, x)
        else (rs { w with out := w.out ++ r.1 } (txt ","), x)
      else (w, x)

/-- `cmd_info`. -/
def cmdInfo (al : Option (AllowList D)) (st : CtlState) (w : Rw) (r : Req) (x : World σ) :
    Done σ :=
  let info := backendInfo be (rs (head w r true) (txt ",\"info\":\x7b")) x
  let x := info.2
  let w := rf info.1 (txt "\"ctl\":\x7b\"version\":1,\"max_clients\":4,\"rate_per_s\":" ++
    dec ctlRate ++ txt ",\"line_max\":1024,\"cmds\":" ++ dec st.cmds.toNat ++ txt ",\"errors\":" ++
    dec st.errors.toNat ++ txt ",\"rate_limited\":" ++ dec st.rateLimited.toNat ++
    txt ",\"refused_writes\":" ++ dec st.refusedWrites.toNat ++ txt ",\"sdo_reads\":" ++
    dec st.sdoReads.toNat ++ txt ",\"sdo_writes\":" ++ dec st.sdoWrites.toNat ++
    txt ",\"sdo_ms_max\":" ++ fp.ms st.sdoNsMax ++ txt "\x7d")
  let w := rs w (txt ",\"allow\":\x7b\"path\":")
  let w := match al with
    | none => rs w (txt "null")
    | some al => if al.path = [] then rs w (txt "null") else rstr w al.path
  let w := rallows fp (rs w (txt ",\"entries\":[")) 0 ((al.map (·.e)).getD [])
  let w := rs w (txt "]\x7d\x7d\x7d")
  if w.ovf then
    fail st w r (txt "too_large") (txt "info does not fit in " ++ dec w.cap ++ txt " bytes") x
  else { reply := rend w, st := { st with ok := st.ok + 1 }, world := x }

/-- `cmd_dump`. -/
def cmdDump (st : CtlState) (w : Rw) (r : Req) (x : World σ) : Done σ :=
  match be.dump with
  | none => fail st w r (txt "dump_failed") (txt "not available") x
  | some f =>
      let d := f x.ctx
      let x := x.after d.2 (.dump d.1.1)
      let m := cstr (clip 1024 d.1.2)
      if d.1.1 < 0 then fail st w r (txt "dump_failed") m x
      else
        { reply := rend (rs (rs (rs (head w r true) (txt ",")) m) (txt "\x7d"))
          st := { st with ok := st.ok + 1 }, world := x }

end Commands

/-! ## `ecm_ctl_handle` -/

/-- The bucket at the time of a request. -/
def refill (st : CtlState) (nowNs : UInt64) : CtlState :=
  let tokens :=
    if st.lastNs = 0 then st.tokens
    else
      let filled := st.tokens + ((nowNs - st.lastNs).toNat : ℚ) / 10 ^ 9 * ctlRate
      if (ctlRate : ℚ) < filled then ctlRate else filled
  { st with tokens, lastNs := nowNs }

/-- Whether the id of a request is refused, and the text that the reply gives
back. -/
def requestId (line : Image) (t : List Tok) : Bool × Text :=
  if (tokAt t 0).type ≠ .obj then (false, txt "null")
  else
    match ecmJsonGet line t 0 (txt "id") with
    | none => (false, txt "null")
    | some iv =>
        let k := tokAt t iv
        -- a string goes back with its quotes
        let a := if k.type = .str then k.start - 1 else k.start
        let b := if k.type = .str then k.stop + 1 else k.stop
        if (k.type = .num ∨ k.type = .str ∨ k.type = .null) ∧ b - a < 72 then
          (false, cstr (slice line a (b - a)))
        else (true, txt "null")

/-- The text of an error of the tokenizer. -/
def JErr.text : JErr → Text
  | .tooManyTokens => txt "too many JSON tokens"
  | .tooDeep => txt "nested too deep"
  | .badText => txt "not JSON"

/-- The command that a request names. -/
def requestCmd (line : Image) (t : List Tok) : Option Text :=
  ((ecmJsonGet line t 0 (txt "cmd")).bind fun v => ecmJsonStr line (tokAt t v) 24).map cstr

section Handle

variable {σ D : Type} (fp : Fp D) (be : Backend σ)

/-- The command of a request that is one JSON object. -/
def dispatch (al : Option (AllowList D)) (st : CtlState) (w : Rw) (r : Req) (dt : UInt64)
    (x : World σ) : Done σ :=
  match requestCmd r.s r.t with
  | none => fail st w r (txt "bad_request") (txt "\"cmd\" required") x
  | some cmd =>
      if cmd = txt "info" then cmdInfo fp be al st w r x
      else if cmd = txt "sdo_read" then cmdSdoRead fp be st w r dt x
      else if cmd = txt "sdo_write" then cmdSdoWrite fp be al st w r dt x
      else if cmd = txt "diag_dump" then cmdDump be st w r x
      else fail st w r (txt "unknown_cmd")
        (cmd ++ txt ": info | sdo_read | sdo_write | diag_dump") x

/-- The request of a line: its tokens and the id of its reply. -/
def requestOf (line : Image) (len : Nat) : Req :=
  let t := match ecmJsonParse line len 64 with
    | .error _ => []
    | .ok t => t
  let id := match ecmJsonParse line len 64 with
    | .error _ => txt "null"
    | .ok t => (requestId line t).2
  { s := line, t, id := clip 72 id, short := length_clip_lt id (by decide) }

/-- `ecm_ctl_handle`. -/
def ecmCtlHandle (al : Option (AllowList D)) (line : Image) (len : Nat) (nowNs : UInt64)
    (cap : Nat) (dt : UInt64) (st : CtlState) (x : World σ) : Done σ :=
  let w := Rw.start cap
  let r := requestOf line len
  let st := refill { st with cmds := st.cmds + 1 } nowNs
  if st.tokens < 1 then
    fail { st with rateLimited := st.rateLimited + 1 } w r (txt "rate_limited")
      (txt "more than " ++ dec ctlRate ++ txt " commands per second") x
  else
    let st := { st with tokens := st.tokens - 1 }
    match ecmJsonParse line len 64 with
    | .error (e, pos) => fail st w r (txt "bad_request") (e.text ++ txt " at byte " ++ dec pos) x
    | .ok t =>
        if (requestId line t).1 then
          fail st w r (txt "bad_request")
            (txt "\"id\": a number or a string of at most " ++ dec 69 ++ txt " characters") x
        else if (tokAt t 0).type ≠ .obj then
          fail st w r (txt "bad_request") (txt "one JSON object per line") x
        else dispatch fp be al st w r dt x

end Handle

end EcMaster.Api
