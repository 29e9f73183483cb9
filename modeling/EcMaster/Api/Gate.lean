import EcMaster.Api.Ctl

/-!
# The gate in front of an SDO write

A remote client may change an object of a slave only if every check of
`cmd_sdo_write` lets it.  This file states what those checks add up to, over
the calls that one request makes into the backend: `Granted` lists what must
have been answered before the write, and `ErrorReply` is the reply of
everything else.

`writeGate_cases` reads the checks off the gate,
`cmdSdoWrite_cases` says that a write request is either refused without a
frame to the slave or granted, and `handle_cases` lifts that to
`ecm_ctl_handle`.
-/

namespace EcMaster.Api

open EcMaster.ByteImage EcMaster.CText

/-! ## Error replies -/

/-- The line that `fail` writes. -/
def errorText (id code msg : Text) : Text :=
  txt "\x7b\"id\":" ++ id ++ txt ",\"ok\":" ++ txt "false" ++ txt ",\"error\":" ++ quoted code ++
    txt ",\"msg\":" ++ quoted msg ++ txt "\x7d"

/-- The reply is an error line.  Only a buffer that has no room for one is
left empty; that of the server has 128 KiB. -/
def ErrorReply (cap : Nat) (reply : Text) : Prop :=
  ∃ id code msg, reply = errorText id code msg ++ [10] ∨ (cap < 2048 ∧ reply = [])

section Replies

variable {σ : Type}

theorem fail_world (st : CtlState) (w : Rw) (r : Req) (code msg : Text) (x : World σ) :
    (fail st w r code msg x).world = x := rfl

/-- `fail` writes its line, or nothing where there is no room. -/
theorem fail_eq (st : CtlState) (w : Rw) (r : Req) (code msg : Text) (x : World σ) :
    (fail st w r code msg x).reply =
      if (errorText r.id code (clip 256 msg)).length + 2 ≤ w.cap then
        errorText r.id code (clip 256 msg) ++ [10] else [] := by
  have hshort := r.short
  have hhead : (Rw.start w.cap).Wrote
      (txt "\x7b\"id\":" ++ r.id ++ txt ",\"ok\":" ++ txt "false") (head (.start w.cap) r false) := by
    apply rf_wrote
    simp only [List.length_append]
    have hlit : (txt "\x7b\"id\":").length + (txt ",\"ok\":").length + (txt "false").length = 17 := by
      decide
    omega
  have hcode := (hhead.trans (rs_wrote _ (txt ",\"error\":"))).trans (rstr_wrote _ code)
  have hmsg := (hcode.trans (rs_wrote _ (txt ",\"msg\":"))).trans (rstr_wrote _ (clip 256 msg))
  exact rend_of_wrote (hmsg.trans (rs_wrote _ (txt "\x7d")))

theorem fail_errorReply (st : CtlState) (w : Rw) (r : Req) {code : Text} (msg : Text)
    (x : World σ) (hcode : code.length ≤ 24) :
    ErrorReply w.cap (fail st w r code msg x).reply := by
  refine ⟨r.id, code, clip 256 msg, ?_⟩
  rw [fail_eq]
  split
  · exact .inl rfl
  · rename_i hroom
    right
    refine ⟨?_, rfl⟩
    have hshort := r.short
    have hmsg := length_clip_lt msg (show 0 < 256 by decide)
    have hc := length_quoted_le code
    have hm := length_quoted_le (clip 256 msg)
    have hlit : (txt "\x7b\"id\":").length + (txt ",\"ok\":").length + (txt "false").length +
        (txt ",\"error\":").length + (txt ",\"msg\":").length + (txt "\x7d").length = 34 := by
      decide
    simp only [errorText, List.length_append] at hroom
    omega

/-- The request ended in an error and nothing was sent to a slave. -/
structure Refused (cap : Nat) (x : World σ) (d : Done σ) : Prop where
  reply : ErrorReply cap d.reply
  asked : x.Asked d.world

theorem fail_refused (st : CtlState) (w : Rw) (r : Req) {code : Text} (msg : Text)
    {x y : World σ} (hcode : code.length ≤ 24) (hasked : x.Asked y) :
    Refused w.cap x (fail st w r code msg y) :=
  ⟨fail_errorReply st w r msg y hcode, hasked⟩

theorem isWrite_of_not_reaches {c : Call} (h : c.reachesSlave = false) : c.isWrite = false := by
  cases c <;> simp_all [Call.reachesSlave, Call.isWrite]

theorem sdoFail_world (be : Backend σ) (st : CtlState) (w : Rw) (r : Req) (a : SdoArgs)
    (rc : Int) (abort : UInt32) (x : World σ) : (sdoFail be st w r a rc abort x).world = x := by
  unfold sdoFail
  repeat' split
  all_goals rfl

/-- The write and the read back are all that `writeThrough` calls. -/
theorem writeThrough_calls {D : Type} (fp : Fp D) (be : Backend σ) (st : CtlState) (w : Rw)
    (r : Req) (a : SdoArgs) (val : Val D) (b : Text) (dt : UInt64) (x : World σ) : ∃ rc after,
      (writeThrough fp be st w r a val b dt x).world.calls =
        x.calls ++ Call.sdoWrite a.slave a.index a.sub b rc :: after ∧
      ∀ c ∈ after, c.isWrite = false := by
  unfold writeThrough
  dsimp only
  split
  · refine ⟨(x.sdoWrite be a.slave a.index a.sub b).1.rc, [], ?_, by simp⟩
    rw [sdoFail_world]
    rfl
  · let y := (x.sdoWrite be a.slave a.index a.sub b).2
    refine ⟨(x.sdoWrite be a.slave a.index a.sub b).1.rc,
      [.sdoRead a.slave a.index a.sub (y.sdoRead be a.slave a.index a.sub).1.rc], ?_,
      by simp [Call.isWrite]⟩
    show (x.calls ++ [_]) ++ [_] = _
    rw [List.append_assoc]
    rfl

end Replies

/-! ## What a write needs -/

section Gate

variable {σ D : Type} {fp : Fp D} {be : Backend σ}

/-- The entry that allows a write of `val`: the slave's identity was asked
for, and the list has an entry for exactly this object of such a slave, with
the type of the request and the value inside its range. -/
structure Allowed (fp : Fp D) (al : AllowList D) (a : SdoArgs) (val : Val D) (before : List Call)
    (e : Allow D) : Prop where
  listed : e ∈ al.e
  identity : Call.identity a.slave (some (e.vendor, e.product)) ∈ before
  index : e.index = a.index
  sub : e.sub = a.sub
  type : e.type = a.type
  min : e.min.Le fp val
  max : val.Le fp e.max

/-- What must have been answered before `bytes` are written for a request
with the arguments `a` and the value `val`. -/
structure Granted (fp : Fp D) (be : Backend σ) (al : AllowList D) (a : SdoArgs) (val : Val D)
    (bytes : Text) (before : List Call) : Prop where
  area : ¬ (0x1000 ≤ a.index ∧ a.index ≤ 0x1FFF)
  deny : be.deny ≠ none → Call.deny a.slave a.index a.sub 0 ∈ before
  rxpdo : Call.rxpdo a.slave a.index a.sub 0 ∈ before
  initcmd : be.initcmd ≠ none → ∃ r ≤ 0, Call.initcmd a.slave a.index a.sub r ∈ before
  allowed : ∃ e, Allowed fp al a val before e
  ready : Call.ready a.slave 0 ∈ before
  range : a.type.IsInt → a.type.least ≤ val.toInt ∧ val.toInt ≤ a.type.greatest
  bytes : a.type.IsInt → bytes = twosComplement (ecmCtlTypeSize a.type) val.toInt

/-- The arguments and the value of a write request. -/
def writeRequest (fp : Fp D) (r : Req) : Option (SdoArgs × Val D) :=
  match sdoArgs r true with
  | .error _ => none
  | .ok a => (valueArg fp r a.type).map fun val => (a, val)

/-- The entry that the gate found, and how the value compares with it. -/
structure Passed (fp : Fp D) (be : Backend σ) (al : AllowList D) (a : SdoArgs) (val : Val D)
    (vendor product : UInt32) (x : World σ) : Prop where
  area : commArea a.index = false
  deny : be.deny ≠ none → Call.deny a.slave a.index a.sub 0 ∈ x.calls
  rxpdo : Call.rxpdo a.slave a.index a.sub 0 ∈ x.calls
  initcmd : be.initcmd ≠ none → ∃ r ≤ 0, Call.initcmd a.slave a.index a.sub r ∈ x.calls
  fits : ecmCtlValFits fp a.type val = true
  entry : ∃ e, allowFind (some al) vendor product a.index a.sub = some e ∧ e.type = a.type ∧
    ecmCtlValCmp fp a.type val e.min ≠ .lt ∧ ecmCtlValCmp fp a.type val e.max ≠ .gt

/-- The gate sends nothing.  It refuses with a short code, or it has made all
its checks. -/
theorem writeGate_cases (fp : Fp D) (be : Backend σ) (al : AllowList D) (a : SdoArgs)
    (val : Val D) (vendor product : UInt32) (x : World σ) :
    (∃ code msg y, writeGate fp be (some al) a val vendor product x = (some (code, msg), y) ∧
      code.length ≤ 24 ∧ x.Asked y) ∨
    (∃ y, writeGate fp be (some al) a val vendor product x = (none, y) ∧ x.Asked y ∧
      Passed fp be al a val vendor product y) := by
  have hdeny := World.asked_deny be (x := x) a.slave a.index a.sub
  have hmem := fun h => World.mem_deny be (x := x) h a.slave a.index a.sub
  unfold writeGate
  dsimp only
  generalize x.deny be a.slave a.index a.sub = denied at hdeny hmem ⊢
  have hrxpdo := World.asked_rxpdo be (x := denied.2) a.slave a.index a.sub
  have hmap := World.mem_rxpdo be (x := denied.2) a.slave a.index a.sub
  generalize denied.2.rxpdo be a.slave a.index a.sub = m at hrxpdo hmap ⊢
  have hinit := World.asked_initcmd be (x := m.2) a.slave a.index a.sub
  have howned := fun h => World.mem_initcmd be (x := m.2) h a.slave a.index a.sub
  generalize m.2.initcmd be a.slave a.index a.sub = owned at hinit howned ⊢
  have hall := (hdeny.trans hrxpdo).trans hinit
  split
  · exact .inl ⟨_, _, _, rfl, by decide, World.Asked.refl x⟩
  rename_i harea
  split
  · exact .inl ⟨_, _, _, rfl, by decide, hdeny⟩
  rename_i hzero
  split
  · exact .inl ⟨_, _, _, rfl, by decide, hdeny.trans hrxpdo⟩
  rename_i hknown
  split
  · exact .inl ⟨_, _, _, rfl, by decide, hdeny.trans hrxpdo⟩
  rename_i hfree
  split
  · exact .inl ⟨_, _, _, rfl, by decide, hall⟩
  rename_i hnot
  split
  · exact .inl ⟨_, _, _, rfl, by decide, hall⟩
  rename_i e hfind
  split
  · exact .inl ⟨_, _, _, rfl, by decide, hall⟩
  rename_i htype
  split
  · exact .inl ⟨_, _, _, rfl, by decide, hall⟩
  rename_i hrange
  simp only [not_or, Bool.not_eq_false] at hrange
  right
  refine ⟨_, rfl, hall, ?_⟩
  have hm : m.1 = 0 := by omega
  exact {
    area := by simpa using harea
    deny := fun h => by
      have hmem := hmem h
      rw [not_not.1 hzero] at hmem
      exact (hrxpdo.trans hinit).mem hmem
    rxpdo := by
      rw [hm] at hmap
      exact hinit.mem hmap
    initcmd := fun h => ⟨owned.1, by omega, howned h⟩
    fits := hrange.1
    entry := ⟨e, hfind, not_not.1 htype, hrange.2.1, hrange.2.2⟩ }

/-- The entry that the gate found allows the value, in a list of proper
entries. -/
theorem Passed.allowed {al : AllowList D} {a : SdoArgs} {val : Val D} {vendor product : UInt32}
    {x : World σ} (h : Passed fp be al a val vendor product x)
    (hal : ∀ e ∈ al.e, e.Proper fp) (hval : val.Of a.type) {before : List Call}
    (hid : Call.identity a.slave (some (vendor, product)) ∈ before) :
    ∃ e, Allowed fp al a val before e := by
  obtain ⟨e, hfind, htype, hmin, hmax⟩ := h.entry
  have hlisted : e ∈ al.e := List.mem_of_find?_eq_some hfind
  have hsame := List.find?_some
    (show al.e.find? (fun e => e.same vendor product a.index a.sub) = some e from hfind)
  simp only [Allow.same, Bool.and_eq_true, decide_eq_true_eq] at hsame
  obtain ⟨⟨⟨hvendor, hproduct⟩, hindex⟩, hsub⟩ := hsame
  have hproper := hal e hlisted
  have hminOf : e.min.Of a.type := htype ▸ hproper.minOf
  have hmaxOf : e.max.Of a.type := htype ▸ hproper.maxOf
  exact ⟨e, {
    listed := hlisted
    identity := by rw [hvendor, hproduct]; exact hid
    index := hindex
    sub := hsub
    type := htype
    min := (valCmp_le hval hminOf).2.1 hmin
    max := (valCmp_le hval hmaxOf).1.1 hmax }⟩

/-- A gate that let the request pass, a ready slave and the bytes of the value
grant the write. -/
theorem Passed.granted {al : AllowList D} {a : SdoArgs} {val : Val D} {vendor product : UInt32}
    {x y : World σ} (h : Passed fp be al a val vendor product x)
    (hal : ∀ e ∈ al.e, e.Proper fp) (hval : val.Of a.type)
    (hid : Call.identity a.slave (some (vendor, product)) ∈ x.calls) (hxy : x.Asked y)
    (hready : Call.ready a.slave 0 ∈ y.calls) :
    Granted fp be al a val ((ecmCtlEncode fp a.type val).getD []) y.calls where
  area := by simpa [commArea] using h.area
  deny hbe := hxy.mem (h.deny hbe)
  rxpdo := hxy.mem h.rxpdo
  initcmd hbe := by
    obtain ⟨r, hr, hmem⟩ := h.initcmd hbe
    exact ⟨r, hr, hxy.mem hmem⟩
  allowed := h.allowed hal hval (hxy.mem hid)
  ready := hready
  range hint := ((fits_iff hint).1 h.fits).2
  bytes hint := by
    have hsome : ∃ b, ecmCtlEncode fp a.type val = some b := by
      unfold ecmCtlEncode
      rw [if_pos h.fits]
      exact ⟨_, rfl⟩
    obtain ⟨b, hb⟩ := hsome
    rw [hb]
    exact encode_eq hint hb

/-! ## The two outcomes of a write request -/

/-- The request wrote once, after everything that `Granted` asks for. -/
structure Wrote (fp : Fp D) (be : Backend σ) (al : AllowList D) (r : Req) (d : Done σ) (a : SdoArgs)
    (val : Val D) (bytes : Text) (rc : Int) (before after : List Call) : Prop where
  request : writeRequest fp r = some (a, val)
  calls : d.world.calls = before ++ Call.sdoWrite a.slave a.index a.sub bytes rc :: after
  onceBefore : ∀ c ∈ before, c.isWrite = false
  onceAfter : ∀ c ∈ after, c.isWrite = false
  granted : Granted fp be al a val bytes before

/-- A write request is refused with nothing sent, or it writes once and was
granted. -/
theorem cmdSdoWrite_cases (be : Backend σ) {al : AllowList D} (hal : ∀ e ∈ al.e, e.Proper fp)
    (st : CtlState) (w : Rw) (r : Req) (dt : UInt64) {x : World σ} (hx : x.calls = []) :
    Refused w.cap x (cmdSdoWrite fp be (some al) st w r dt x) ∨
      ∃ a val bytes rc before after,
        Wrote fp be al r (cmdSdoWrite fp be (some al) st w r dt x) a val bytes rc before after := by
  unfold cmdSdoWrite
  split
  · exact .inl (fail_refused st w r _ (by decide) (World.Asked.refl x))
  rename_i a hargs
  split
  · exact .inl (fail_refused st w r _ (by decide) (World.Asked.refl x))
  rename_i hraw
  split
  · exact .inl (fail_refused st w r _ (by decide) (World.Asked.refl x))
  rename_i val hvalue
  dsimp only
  have hfound := World.asked_identity be (x := x) a.slave
  have hid := World.mem_identity be (x := x) a.slave
  generalize x.identity be a.slave = found at hfound hid ⊢
  split
  · exact .inl (fail_refused st w r _ (by decide) hfound)
  rename_i vendor product hsome
  rw [hsome] at hid
  obtain ⟨code, msg, y, hgate, hcode, hasked⟩ | ⟨y, hgate, hasked, hpassed⟩ :=
    writeGate_cases fp be al a val vendor product found.2
  · rw [hgate]
    exact .inl (fail_refused _ w r _ hcode (hfound.trans hasked))
  rw [hgate]
  dsimp only
  have hready := World.asked_ready be (x := y) a.slave
  have hmem := World.mem_ready be (x := y) a.slave
  generalize y.ready be a.slave = ready at hready hmem ⊢
  have hbefore := (hfound.trans hasked).trans hready
  split
  · exact .inl (fail_refused st w r _ (by decide) hbefore)
  rename_i hzero
  rw [not_not.1 hzero] at hmem
  have hval : val.Of a.type := by
    obtain ⟨v, -, hv⟩ := Option.bind_eq_some_iff.1 hvalue
    exact tokVal_of hraw hv
  obtain ⟨rc, after, hcalls, hafter⟩ := writeThrough_calls fp be st w r a val
    ((ecmCtlEncode fp a.type val).getD []) dt ready.2
  right
  refine ⟨a, val, _, rc, ready.2.calls, after, ?_, hcalls, ?_, hafter,
    hpassed.granted hal hval (hasked.mem hid) hready hmem⟩
  · simp [writeRequest, hargs, hvalue]
  · intro c hc
    exact isWrite_of_not_reaches (hbefore.quiet hx c hc)

/-! ## Whole requests -/

/-- The line is a request to write: one JSON object with this command. -/
def IsWriteRequest (line : Image) (len : Nat) : Prop :=
  ∃ t, ecmJsonParse line len 64 = .ok t ∧ (tokAt t 0).type = .obj ∧
    requestCmd line t = some (txt "sdo_write")

/-- The request has written nothing. -/
def NoWrite (d : Done σ) : Prop := ∀ c ∈ d.world.calls, c.isWrite = false

theorem Refused.noWrite {cap : Nat} {x : World σ} {d : Done σ} (h : Refused cap x d)
    (hx : x.calls = []) : NoWrite d :=
  fun c hc => isWrite_of_not_reaches (h.asked.quiet hx c hc)

end Gate

section Others

variable {σ D : Type} (fp : Fp D) (be : Backend σ) {x : World σ}

theorem cmdInfo_world (al : Option (AllowList D)) (st : CtlState) (w : Rw) (r : Req) :
    (cmdInfo fp be al st w r x).world =
      (backendInfo be (rs (head w r true) (txt ",\"info\":\x7b")) x).2 := by
  unfold cmdInfo
  extract_lets info y
  split
  · rfl
  · rfl

theorem cmdInfo_noWrite (al : Option (AllowList D)) (st : CtlState) (w : Rw) (r : Req)
    (hx : x.calls = []) : NoWrite (cmdInfo fp be al st w r x) := by
  have hinfo : ∀ w, ∀ c ∈ (backendInfo be w x).2.calls, c.isWrite = false := by
    intro w
    unfold backendInfo
    split
    · simp [hx]
    · dsimp only
      split
      · split <;> simp [World.after, hx, Call.isWrite]
      · simp [hx]
  unfold NoWrite
  rw [cmdInfo_world]
  exact hinfo _

theorem cmdSdoRead_noWrite (st : CtlState) (w : Rw) (r : Req) (dt : UInt64) (hx : x.calls = []) :
    NoWrite (cmdSdoRead fp be st w r dt x) := by
  have hfound : ∀ slave, ∀ c ∈ (x.identity be slave).2.calls, c.isWrite = false := by
    intro slave
    simp [World.identity, World.after, hx, Call.isWrite]
  have hready : ∀ slave, ∀ c ∈ ((x.identity be slave).2.ready be slave).2.calls,
      c.isWrite = false := by
    intro slave
    simp [World.identity, World.ready, World.after, hx, Call.isWrite]
  have hread : ∀ slave index sub,
      ∀ c ∈ (((x.identity be slave).2.ready be slave).2.sdoRead be slave index sub).2.calls,
        c.isWrite = false := by
    intro slave index sub
    simp [World.identity, World.ready, World.sdoRead, World.after, hx, Call.isWrite]
  unfold cmdSdoRead
  split
  · simp [NoWrite, fail_world, hx]
  rename_i a _
  dsimp only
  split
  · exact hfound a.slave
  split
  · exact hready a.slave
  split
  · intro c hc
    rw [sdoFail_world] at hc
    exact hread a.slave a.index a.sub c hc
  split
  · exact hread a.slave a.index a.sub
  · exact hread a.slave a.index a.sub

theorem cmdDump_noWrite (st : CtlState) (w : Rw) (r : Req) (hx : x.calls = []) :
    NoWrite (cmdDump be st w r x) := by
  unfold cmdDump
  split
  · simp [NoWrite, fail_world, hx]
  · dsimp only
    split <;> simp [NoWrite, fail_world, World.after, hx, Call.isWrite]

end Others

section Handle

variable {σ D : Type} {fp : Fp D}

/-- A request for another command writes nothing; a request to write is
refused or granted. -/
theorem dispatch_cases (be : Backend σ) {al : AllowList D} (hal : ∀ e ∈ al.e, e.Proper fp)
    (st : CtlState) (w : Rw) (r : Req) (dt : UInt64) {x : World σ} (hx : x.calls = []) :
    (NoWrite (dispatch fp be (some al) st w r dt x) ∧
      (requestCmd r.s r.t = some (txt "sdo_write") →
        Refused w.cap x (dispatch fp be (some al) st w r dt x))) ∨
    (requestCmd r.s r.t = some (txt "sdo_write") ∧ ∃ a val bytes rc before after,
      Wrote fp be al r (dispatch fp be (some al) st w r dt x) a val bytes rc before after) := by
  have hfail : ∀ code msg, NoWrite (fail st w r code msg x) := by
    intro code msg
    simp [NoWrite, fail_world, hx]
  unfold dispatch
  split
  · rename_i hnone
    exact .inl ⟨hfail _ _, fun h => by simp [hnone] at h⟩
  rename_i cmd hcmd
  rw [hcmd]
  split
  · rename_i h
    exact .inl ⟨cmdInfo_noWrite fp be _ st w r hx, fun h' => absurd (h ▸ h') (by decide)⟩
  split
  · rename_i h
    exact .inl ⟨cmdSdoRead_noWrite fp be st w r dt hx, fun h' => absurd (h ▸ h') (by decide)⟩
  split
  · rename_i h
    rcases cmdSdoWrite_cases be hal st w r dt hx with hrefused | hwrote
    · exact .inl ⟨hrefused.noWrite hx, fun _ => hrefused⟩
    · exact .inr ⟨congrArg some h, hwrote⟩
  split
  · rename_i h
    exact .inl ⟨cmdDump_noWrite be st w r hx, fun h' => absurd (h ▸ h') (by decide)⟩
  · rename_i hne _
    exact .inl ⟨hfail _ _, fun h' => absurd (Option.some.inj h') hne⟩

/-- The two outcomes of a request. -/
theorem handle_cases (be : Backend σ) {al : AllowList D} (hal : ∀ e ∈ al.e, e.Proper fp)
    (line : Image) (len : Nat) (nowNs : UInt64) (cap : Nat) (dt : UInt64) (st : CtlState)
    {x : World σ} (hx : x.calls = []) :
    (NoWrite (ecmCtlHandle fp be (some al) line len nowNs cap dt st x) ∧
      (IsWriteRequest line len →
        Refused cap x (ecmCtlHandle fp be (some al) line len nowNs cap dt st x))) ∨
    (IsWriteRequest line len ∧ ∃ a val bytes rc before after,
      Wrote fp be al (requestOf line len)
        (ecmCtlHandle fp be (some al) line len nowNs cap dt st x) a val bytes rc before after) := by
  have hfail : ∀ (st : CtlState) (code msg : Text), code.length ≤ 24 →
      Refused cap x (fail st (Rw.start cap) (requestOf line len) code msg x) :=
    fun st code msg hcode => fail_refused st (Rw.start cap) _ msg hcode (World.Asked.refl x)
  unfold ecmCtlHandle
  dsimp only
  split
  · exact .inl ⟨(hfail _ _ _ (by decide)).noWrite hx, fun _ => hfail _ _ _ (by decide)⟩
  split
  · exact .inl ⟨(hfail _ _ _ (by decide)).noWrite hx, fun _ => hfail _ _ _ (by decide)⟩
  rename_i t hparse
  split
  · exact .inl ⟨(hfail _ _ _ (by decide)).noWrite hx, fun _ => hfail _ _ _ (by decide)⟩
  split
  · exact .inl ⟨(hfail _ _ _ (by decide)).noWrite hx, fun _ => hfail _ _ _ (by decide)⟩
  rename_i hobj
  have ht : (requestOf line len).t = t := by simp [requestOf, hparse]
  have hreq : IsWriteRequest line len ↔
      requestCmd (requestOf line len).s (requestOf line len).t = some (txt "sdo_write") := by
    rw [ht]
    constructor
    · rintro ⟨t', hparse', -, hcmd⟩
      rw [hparse] at hparse'
      cases hparse'
      exact hcmd
    · exact fun hcmd => ⟨t, hparse, not_not.1 hobj, hcmd⟩
  rw [hreq]
  exact dispatch_cases be hal _ (Rw.start cap) (requestOf line len) dt hx

/-- The place of the only element with a property is unique. -/
theorem only_split {α : Type} {p : α → Bool} {l₁ l₂ m₁ m₂ : List α} {a b : α}
    (hl : ∀ c ∈ l₁, p c = false) (hm : ∀ c ∈ l₂, p c = false) (hb : p b = true)
    (h : l₁ ++ a :: l₂ = m₁ ++ b :: m₂) : m₁ = l₁ ∧ b = a := by
  have hbefore : b ∉ l₁ := fun hmem => by simp [hl b hmem] at hb
  have hbehind : b ∉ l₂ := fun hmem => by simp [hm b hmem] at hb
  obtain ⟨rfl, rfl, -⟩ := (List.append_cons_inj_of_notMem hbefore hbehind).1 h
  exact ⟨rfl, rfl⟩

/-- One request writes at most once.  A write was granted: it is for the
object, the type and the value of the request, and every check had been
answered before.  Every other request to write gets an error and sends
nothing.  The allowlist is any that `ecm_ctl_allow_load` leaves behind. -/
theorem sdo_write_gate {ρ : Type} (fp : Fp D) (be : Backend σ) (loader : Option (Backend ρ))
    (path : Option Text) (file : Except Text Text) (errlen : Nat) (y : World ρ) (line : Image)
    (len : Nat) (nowNs : UInt64) (cap : Nat) (dt : UInt64) (st : CtlState) (ctx : σ) :
    let al := (ecmCtlAllowLoad fp loader path file errlen y).al
    let d := ecmCtlHandle fp be (some al) line len nowNs cap dt st { ctx, calls := [] }
    d.world.calls.countP Call.isWrite ≤ 1 ∧
    (∀ slave index sub bytes rc before after,
      d.world.calls = before ++ Call.sdoWrite slave index sub bytes rc :: after →
        IsWriteRequest line len ∧ ∃ a val, writeRequest fp (requestOf line len) = some (a, val) ∧
          slave = a.slave ∧ index = a.index ∧ sub = a.sub ∧ Granted fp be al a val bytes before) ∧
    (IsWriteRequest line len → NoWrite d →
      ErrorReply cap d.reply ∧ ∀ c ∈ d.world.calls, c.reachesSlave = false) := by
  intro al d
  have hal : ∀ e ∈ al.e, e.Proper fp := ecmCtlAllowLoad_proper loader path file errlen y
  have hx : ({ ctx, calls := [] } : World σ).calls = [] := rfl
  rcases handle_cases be hal line len nowNs cap dt st hx with ⟨hno, hrefused⟩ |
    ⟨hreq, a, val, bytes, rc, before, after, hwrote⟩
  · refine ⟨?_, ?_, ?_⟩
    · rw [List.countP_eq_zero.2 (fun c hc => by simp [hno c hc])]
      omega
    · intro slave index sub b rc before after hcalls
      have hfalse := hno (.sdoWrite slave index sub b rc) (by rw [hcalls]; simp)
      cases hfalse
    · intro hreq _
      have hr := hrefused hreq
      exact ⟨hr.reply, hr.asked.quiet hx⟩
  · have hcalls : d.world.calls = _ := hwrote.calls
    refine ⟨?_, ?_, ?_⟩
    · rw [hcalls, List.countP_append, List.countP_cons,
        List.countP_eq_zero.2 (fun c hc => by simp [hwrote.onceBefore c hc]),
        List.countP_eq_zero.2 (fun c hc => by simp [hwrote.onceAfter c hc])]
      simp [Call.isWrite]
    · intro slave index sub b rc' before' after' hsplit
      obtain ⟨rfl, hcall⟩ := only_split hwrote.onceBefore hwrote.onceAfter
        (show Call.isWrite (.sdoWrite slave index sub b rc') = true from rfl) (hcalls ▸ hsplit)
      simp only [Call.sdoWrite.injEq] at hcall
      obtain ⟨rfl, rfl, rfl, rfl, rfl⟩ := hcall
      exact ⟨hreq, a, val, hwrote.request, rfl, rfl, rfl, hwrote.granted⟩
    · intro _ hno
      have hfalse := hno (.sdoWrite a.slave a.index a.sub bytes rc) (by rw [hcalls]; simp)
      cases hfalse

end Handle

/-! A list with one entry for `oneSlave` and a request for it. -/

/-- Integers in the place of doubles, for requests without a float. -/
def noFloats : Fp Int where
  val := Int.cast
  strtod _ := none
  ofInt := id
  toF32 _ := 0
  g9 := decInt
  f32Json w := dec w.toNat
  ms t := dec t.toNat

def oneEntry : Text :=
  txt ("\x7b\"schema\":1,\"allow\":[\x7b\"vendor\":\"0x00100000\",\"product\":\"0x000C0108\"," ++
    "\"index\":\"0x2008\",\"sub\":0,\"type\":\"u16\",\"min\":0,\"max\":1000\x7d]\x7d")

def oneWrite : Text :=
  txt ("\x7b\"id\":9,\"cmd\":\"sdo_write\",\"slave\":1,\"index\":\"0x2008\",\"sub\":0," ++
    "\"type\":\"u16\",\"value\":1000\x7d")

/-- The request is granted, with the two bytes of `1000`. -/
theorem sdo_write_gate_oneWrite :
    let al := (ecmCtlAllowLoad noFloats (some oneSlave) (some (txt "allow.json")) (.ok oneEntry) 256
      { ctx := (), calls := [] }).al
    ∃ a val before, writeRequest noFloats (requestOf (ofText oneWrite) oneWrite.length) = some (a, val) ∧
      Granted noFloats oneSlave al a val [232, 3] before := by
  intro al
  obtain ⟨-, hgate, -⟩ := sdo_write_gate noFloats oneSlave (some oneSlave)
    (some (txt "allow.json")) (.ok oneEntry) 256 { ctx := (), calls := [] } (ofText oneWrite)
    oneWrite.length 1 131072 0 ecmCtlStateInit ()
  obtain ⟨-, a, val, hreq, -, -, -, hgranted⟩ := hgate 1 0x2008 0 [232, 3] 0
    [.identity 1 (some (0x00100000, 0x000C0108)), .deny 1 0x2008 0 0, .rxpdo 1 0x2008 0 0,
      .initcmd 1 0x2008 0 0, .ready 1 0] [.sdoRead 1 0x2008 0 0] (by decide +kernel)
  exact ⟨a, val, _, hreq, hgranted⟩

end EcMaster.Api
