import EcMaster.Cia402.InFlight
import EcMaster.Lib.BitFields

/-!
# The published state of an axis

After the turn of an axis `publish` packs its state into eight words of the seqlock of
that axis, and `ecm_cia402_read` takes them apart again.  The words have room for the
values that the fields really take: `AxisFits` is their range, and every hook and every
command keeps it.  `ppPhase` and `hmPhase` have two bits, the length of the PP queue five.

* `publishWords_fields` says that the words are the fields side by side.
* `Published.step` keeps the ranges, and the seqlocks whole, over every event.
* `read_after_hook`: what a read returns after a hook is the axis.
-/

namespace EcMaster.Cia402

open EcMaster.ByteImage EcMaster.Pdo EcMaster.Xchg EcMaster.Run EcMaster.BitFields

/-! ## Reading -/

/-- `ecm_cia402_state_t`. -/
structure AxisState where
  tick : Nat
  sw : Nat
  cw : Nat
  ecode : Nat
  ds : Nat
  target : Nat
  err : Nat
  errDs : Nat
  modeOk : Nat
  modeDisp : Int
  modeReq : Int
  apos : Int
  avel : Int
  used : Nat
  late : Nat
  underrun : Nat
  dropped : Nat
  lastSeq : Nat
  stepRefused : Nat
  homed : Nat
  hmPhase : Nat
  ppPhase : Nat
  ppN : Nat
  ppAcked : Nat
deriving DecidableEq, Repr

/-- The fields of the words `w` of an axis. -/
def stateOfWords (t : Nat) (w : Nat → Nat) : AxisState :=
  { tick := t
    sw := w 0 % 2 ^ 16
    cw := (w 0 >>> 16) % 2 ^ 16
    ds := (w 0 >>> 32) % 2 ^ 8
    target := (w 0 >>> 40) % 2 ^ 8
    err := (w 0 >>> 48) % 2 ^ 8
    errDs := (w 0 >>> 56) % 2 ^ 8
    apos := toI32 (w 1 % 2 ^ 32 : Nat)
    avel := toI32 ((w 1 >>> 32) % 2 ^ 32 : Nat)
    ecode := w 2 % 2 ^ 16
    modeDisp := toI8 ((w 2 >>> 16) % 2 ^ 8 : Nat)
    modeOk := (w 2 >>> 24) % 2 ^ 8
    modeReq := toI8 ((w 2 >>> 32) % 2 ^ 8 : Nat)
    homed := (w 2 >>> 40) % 2 ^ 8 &&& 1
    hmPhase := (w 2 >>> 41) % 2 ^ 8 &&& 3
    ppPhase := (w 2 >>> 43) % 2 ^ 8 &&& 3
    ppN := (w 2 >>> 45) % 2 ^ 8 &&& 31
    used := w 3
    late := w 4
    underrun := w 5
    lastSeq := w 6 % 2 ^ 32
    stepRefused := (w 6 >>> 32) % 2 ^ 32
    dropped := w 7 % 2 ^ 32
    ppAcked := (w 7 >>> 32) % 2 ^ 32 }

/-- `ecm_cia402_read`, with no write going on. -/
def ecmCia402Read (c : EcmCia402) (axis : Int) : Option AxisState :=
  if axis < 0 ∨ axis ≥ c.naxes then none
  else (ecmXstRead (c.st axis.toNat) xstWords).map fun r => stateOfWords r.1 (r.2.getD · 0)

/-- The state of an axis, of the last three counters the low 32 bits. -/
def Axis.state (a : Axis) (tick : Nat) : AxisState :=
  { tick := tick
    sw := a.sw
    cw := a.cw
    ecode := a.ecode
    ds := a.ds.code
    target := a.target.code
    err := a.err.code
    errDs := a.errDs.code
    modeOk := a.modeOk.toNat
    modeDisp := a.modeDisp
    modeReq := a.modeReq.code
    apos := a.apos
    avel := a.avel
    used := a.used
    late := a.late
    underrun := a.underrun
    dropped := a.dropped % 2 ^ 32
    lastSeq := a.lastSeq
    stepRefused := a.stepRefused % 2 ^ 32
    homed := a.homed.toNat
    hmPhase := a.hmPhase.code
    ppPhase := a.ppPhase.code
    ppN := a.ppN
    ppAcked := a.ppAcked % 2 ^ 32 }

/-! ## The ranges of the fields -/

/-- The inputs of step 1 have the widths of their C types. -/
structure InputsFit (s : Inputs) : Prop where
  sw : s.sw < 2 ^ 16
  ecode : s.ecode < 2 ^ 16
  apos : -2 ^ 31 ≤ s.apos ∧ s.apos < 2 ^ 31
  avel : -2 ^ 31 ≤ s.avel ∧ s.avel < 2 ^ 31
  modeDisp : -2 ^ 7 ≤ s.modeDisp ∧ s.modeDisp < 2 ^ 7

structure AxisFits (a : Axis) : Prop where
  inputs : InputsFit a.toInputs
  cw : a.cw < 2 ^ 16
  pp : PpOk a.toPpState
  lastSeq : a.lastSeq < 2 ^ 32

theorem toI32_range (v : Int) : -2 ^ 31 ≤ toI32 v ∧ toI32 v < 2 ^ 31 := by
  unfold toI32
  have hle := Int.le_bmod (x := v) (m := 2 ^ 32) (by decide)
  have hlt := Int.bmod_lt (x := v) (m := 2 ^ 32) (by decide)
  omega

theorem toI8_range (v : Int) : -2 ^ 7 ≤ toI8 v ∧ toI8 v < 2 ^ 7 := by
  unfold toI8
  have hle := Int.le_bmod (x := v) (m := 2 ^ 8) (by decide)
  have hlt := Int.bmod_lt (x := v) (m := 2 ^ 8) (by decide)
  omega

/-- A signed value, cut to `n` bits and read back. -/
theorem bmod_toU64 {n : Nat} (hn : n ≤ 64) (v : Int) :
    Int.bmod (toU64 v % 2 ^ n : Nat) (2 ^ n) = Int.bmod v (2 ^ n) := by
  have hdvd : ((2 ^ n : Nat) : Int) ∣ 2 ^ 64 := by
    exact_mod_cast Nat.pow_dvd_pow 2 hn
  have hcast : ((toU64 v % 2 ^ n : Nat) : Int) = v % (2 ^ n : Nat) := by
    rw [toU64, Int.natCast_emod, Int.toNat_of_nonneg (Int.emod_nonneg v (by decide)),
      Int.emod_emod_of_dvd v hdvd]
  rw [hcast, Int.emod_bmod]

theorem toI32_toU64 {v : Int} (hv : -2 ^ 31 ≤ v ∧ v < 2 ^ 31) :
    toI32 (toU64 v % 2 ^ 32 : Nat) = v := by
  rw [toI32, bmod_toU64 (by decide)]
  exact Int.bmod_eq_of_le (by omega) (by omega)

theorem toI8_toU64 {v : Int} (hv : -2 ^ 7 ≤ v ∧ v < 2 ^ 7) :
    toI8 (toU64 v % 2 ^ 8 : Nat) = v := by
  rw [toI8, bmod_toU64 (by decide)]
  exact Int.bmod_eq_of_le (by omega) (by omega)

theorem modeReq_range (m : OpMode) : -2 ^ 7 ≤ m.code ∧ m.code < 2 ^ 7 := by
  cases m <;> decide

/-! ## The words are the fields side by side -/

/-- The fields of the packed words 0, 1, 2, 6 and 7, with their widths. -/
def Axis.fields (a : Axis) : Nat → List (Nat × Nat)
  | 0 => [(16, a.sw), (16, a.cw), (8, a.ds.code), (8, a.target.code), (8, a.err.code),
      (8, a.errDs.code)]
  | 1 => [(32, toU64 a.apos % 2 ^ 32), (32, toU64 a.avel % 2 ^ 32)]
  | 2 => [(16, a.ecode), (8, toU64 a.modeDisp % 2 ^ 8), (8, a.modeOk.toNat),
      (8, toU64 a.modeReq.code % 2 ^ 8), (1, a.homed.toNat), (2, a.hmPhase.code),
      (2, a.ppPhase.code), (5, a.ppN)]
  | 6 => [(32, a.lastSeq), (32, a.stepRefused % 2 ^ 32)]
  | 7 => [(32, a.dropped % 2 ^ 32), (32, a.ppAcked % 2 ^ 32)]
  | _ => []

theorem publishWords_fields (a : Axis) :
    publishWords a = [pack (a.fields 0), pack (a.fields 1), pack (a.fields 2), a.used, a.late,
      a.underrun, pack (a.fields 6), pack (a.fields 7)] := by
  simp only [publishWords, Axis.fields, pack, Nat.shiftLeft_or_distrib, ← Nat.shiftLeft_add,
    Nat.or_assoc, Nat.zero_shiftLeft, Nat.or_zero, Nat.reduceAdd]

theorem DriveState.code_lt (ds : DriveState) : ds.code < 2 ^ 8 := by cases ds <;> decide

theorem AxErr.code_lt (e : AxErr) : e.code < 2 ^ 8 := by cases e <;> decide

theorem Target.code_lt (t : Target) : t.code < 2 ^ 8 := by cases t <;> decide

theorem HmPhase.code_lt (p : HmPhase) : p.code < 2 ^ 2 := by cases p <;> decide

theorem PpPhase.code_lt (p : PpPhase) : p.code < 2 ^ 2 := by cases p <;> decide

/-- Every field fits its width. -/
theorem AxisFits.fields {a : Axis} (h : AxisFits a) (k : Nat) :
    ∀ f ∈ a.fields k, f.2 < 2 ^ f.1 := by
  have hmod : ∀ n m : Nat, n % 2 ^ m < 2 ^ m := fun n m => Nat.mod_lt n (Nat.two_pow_pos m)
  have hn : a.ppN < 2 ^ 5 := Nat.lt_of_le_of_lt h.pp.n (by decide)
  have hok := Nat.lt_of_le_of_lt (Bool.toNat_le a.modeOk) (by decide : 1 < 2 ^ 8)
  have hhomed := Nat.lt_of_le_of_lt (Bool.toNat_le a.homed) (by decide : 1 < 2 ^ 1)
  unfold Axis.fields
  split <;> intro f hf <;> simp only [List.mem_cons, List.not_mem_nil, or_false] at hf
  · rcases hf with rfl | rfl | rfl | rfl | rfl | rfl
    · exact h.inputs.sw
    · exact h.cw
    · exact a.ds.code_lt
    · exact a.target.code_lt
    · exact a.err.code_lt
    · exact a.errDs.code_lt
  · rcases hf with rfl | rfl <;> exact hmod _ 32
  · rcases hf with rfl | rfl | rfl | rfl | rfl | rfl | rfl | rfl
    · exact h.inputs.ecode
    · exact hmod _ 8
    · exact hok
    · exact hmod _ 8
    · exact hhomed
    · exact a.hmPhase.code_lt
    · exact a.ppPhase.code_lt
    · exact hn
  · rcases hf with rfl | rfl
    · exact h.lastSeq
    · exact hmod _ 32
  · rcases hf with rfl | rfl <;> exact hmod _ 32

/-- A byte of a word, cut to `n` bits. -/
theorem mod_and_mask (w : Nat) {n : Nat} (hn : n ≤ 8) :
    w % 2 ^ 8 &&& (2 ^ n - 1) = w % 2 ^ n := by
  rw [Nat.and_two_pow_sub_one_eq_mod, Nat.mod_mod_of_dvd w (Nat.pow_dvd_pow 2 hn)]

/-- The round trip of the words. -/
theorem stateOfWords_publishWords {a : Axis} (h : AxisFits a) (t : Nat) :
    stateOfWords t ((publishWords a).getD · 0) = a.state t := by
  have hword : ∀ k, unpack ((a.fields k).map Prod.fst) (pack (a.fields k)) =
      (a.fields k).map Prod.snd := fun k => unpack_pack (h.fields k)
  have h0 := hword 0
  have h1 := hword 1
  have h2 := hword 2
  have h6 := hword 6
  have h7 := hword 7
  rw [publishWords_fields]
  generalize pack (a.fields 0) = w0 at *
  generalize pack (a.fields 1) = w1 at *
  generalize pack (a.fields 2) = w2 at *
  generalize pack (a.fields 6) = w6 at *
  generalize pack (a.fields 7) = w7 at *
  simp only [Axis.fields, List.map_cons, List.map_nil, unpack, ← Nat.shiftRight_add,
    Nat.reduceAdd, List.cons.injEq, and_true] at h0 h1 h2 h6 h7
  obtain ⟨hsw, hcw, hds, htarget, herr, herrDs⟩ := h0
  obtain ⟨hapos, havel⟩ := h1
  obtain ⟨hecode, hdisp, hok, hreq, hhomed, hhm, hpp, hn⟩ := h2
  obtain ⟨hseq, hrefused⟩ := h6
  obtain ⟨hdropped, hacked⟩ := h7
  have hone : (w2 >>> 40) % 2 ^ 8 &&& 1 = (w2 >>> 40) % 2 ^ 1 :=
    mod_and_mask (n := 1) _ (by decide)
  have hthree : ∀ k, (w2 >>> k) % 2 ^ 8 &&& 3 = (w2 >>> k) % 2 ^ 2 :=
    fun k => mod_and_mask (n := 2) _ (by decide)
  have hmask : (w2 >>> 45) % 2 ^ 8 &&& 31 = (w2 >>> 45) % 2 ^ 5 :=
    mod_and_mask (n := 5) _ (by decide)
  simp only [stateOfWords, Axis.state, List.getD_cons_zero, List.getD_cons_succ, hone, hthree,
    hmask, hsw, hcw, hds, htarget, herr, herrDs, hapos, havel, hecode, hdisp, hok, hreq, hhomed,
    hhm, hpp, hn, hseq, hrefused, hdropped, hacked, toI32_toU64 h.inputs.apos,
    toI32_toU64 h.inputs.avel, toI8_toU64 h.inputs.modeDisp, toI8_toU64 (modeReq_range a.modeReq)]

/-! ## A hook and a command keep the ranges -/

theorem InputsFit.readInputs {a : Axis} (h : InputsFit a.toInputs) (p : Params) (hk : AxHook) :
    InputsFit (readInputs p hk a).toInputs := by
  have hmod : ∀ n : Nat, n % 2 ^ 16 < 2 ^ 16 := fun n => Nat.mod_lt n (by decide)
  unfold EcMaster.Cia402.readInputs
  split
  · refine ⟨hmod _, ?_, ?_, ?_, ?_⟩ <;> dsimp only
    · split_ifs
      · exact hmod _
      · exact h.ecode
    · split_ifs
      · exact toI32_range _
      · exact h.apos
    · unfold derivedVel
      split_ifs
      · exact toI32_range _
      · exact toI32_range _
      · exact ⟨by decide, by decide⟩
      · exact h.avel
    · split_ifs
      · exact toI8_range _
      · exact modeReq_range _
  · exact ⟨h.sw, h.ecode, h.apos, h.avel, h.modeDisp⟩

/-- The back half writes a controlword of 16 bits. -/
theorem back_cw_lt (p : Params) (h : AxHook) (ring : XRing XSp) {w : Work}
    (hw : w.cw < 2 ^ 16) : (back p h ring w).cw < 2 ^ 16 := by
  obtain ⟨w', heq, hfr⟩ := back_eq p h ring w
  have hw' : w'.cw < 2 ^ 16 := by
    rcases hfr.cw with hcw | hcw <;> rw [hcw]
    · exact hw
    · decide
  rw [heq]
  cases profileOut_cw p h w' with
  | same hcw => exact hcw ▸ hw'
  | timeout hcw => exact hcw ▸ by decide
  | ppUp hwas hcw =>
    rw [hcw]
    rcases ppBits_cases (profileOut p h w').a.ppFlags with hb | hb | hb | hb <;> rw [hb] <;> decide
  | hmUp hwas hcw => exact hcw ▸ by decide

/-- The sequence number is that of the last command. -/
theorem lastSeq_applyCmd (shutdown : Bool) (xe : AxErr) (tick : Nat) (x : XCmd) (a : Axis) :
    (applyCmd shutdown xe tick x a).lastSeq = x.seq := by
  unfold applyCmd dispatchCmd
  split
  · unfold cmdEnable
    split_ifs <;> rfl
  · rfl
  · rfl
  · rfl
  · unfold cmdSetMode
    dsimp only
    split_ifs <;> rfl
  · unfold cmdPpPoint
    dsimp only
    split_ifs <;> rfl
  · unfold cmdPvVel
    split_ifs <;> rfl
  · unfold cmdHome
    split_ifs <;> rfl
  · rfl

theorem lastSeq_profileOut (p : Params) (h : AxHook) (w : Work) :
    (profileOut p h w).a.lastSeq = w.a.lastSeq := by
  have hclear : (clearProfile w).a.lastSeq = w.a.lastSeq := by
    unfold clearProfile
    dsimp only
    split_ifs <;> rfl
  unfold profileOut
  rw [← hclear]
  generalize clearProfile w = w
  dsimp only
  split
  · have hpp : (ppHandshake p h w).a.lastSeq = w.a.lastSeq := by
      unfold ppHandshake ppRaise ppTimeout
      split
      · rfl
      · split <;> split_ifs <;> rfl
    rw [← hpp]
    unfold ppOut
    dsimp only
    split_ifs <;> rfl
  · unfold pvOut
    split_ifs <;> rfl
  · have hhm : (hmProgress p h w.a).lastSeq = w.a.lastSeq := by
      unfold hmProgress
      dsimp only
      split_ifs <;> rfl
    unfold hmOut
    dsimp only
    split_ifs
    · exact hhm
    · exact hhm
    · rfl
  · rfl

theorem lastSeq_axisRt (p : Params) (h : AxHook) (ring : XRing XSp) (a : Axis) :
    (axisRt p h ring a).a.lastSeq = a.lastSeq := by
  have hfront : (front p h a).a.lastSeq = a.lastSeq := by
    rw [front_frame]
    unfold confirmMode readInputs
    split <;> rfl
  have hcsv : ∀ w, (csvOut w).a.lastSeq = w.a.lastSeq := fun w => by
    unfold csvOut
    split_ifs <;> rfl
  have hcsp : ∀ w, (cspOut w).a.lastSeq = w.a.lastSeq := fun w => by
    unfold cspOut
    dsimp only
    split_ifs <;> rfl
  have hlimit : ∀ w, (stepLimit w).a.lastSeq = w.a.lastSeq := fun w => by
    unfold stepLimit
    dsimp only
    split_ifs <;> rfl
  have htake : ∀ w, (takeSetpoint h ring w).1.a.lastSeq = w.a.lastSeq := fun w => by
    unfold takeSetpoint
    dsimp only
    split_ifs <;> rfl
  cases hlost : h.busLost with
  | true =>
    rw [(axisRt_lost ring a hlost).1]
    exact hfront
  | false =>
    rw [(axisRt_live ring a hlost).1]
    dsimp only [back]
    rw [lastSeq_profileOut, hcsv, hcsp, hlimit, htake, hfront]

theorem AxisFits.axisRt {a : Axis} (h : AxisFits a) (p : Params) (hk : AxHook)
    (ring : XRing XSp) : AxisFits (axisRt p hk ring a).a := by
  refine ⟨?_, ?_, ppOk_axisRt p hk ring h.pp, ?_⟩
  · rw [(axisRt_frame p hk ring a).2.1]
    exact h.inputs.readInputs p hk
  · cases hlost : hk.busLost with
    | true =>
      rw [(axisRt_lost ring a hlost).1]
      simpa using h.cw
    | false =>
      rw [(axisRt_live ring a hlost).1]
      refine back_cw_lt p hk ring ?_
      rcases front_cw p hk a with hcw | hcw <;> omega
  · rw [lastSeq_axisRt]
    exact h.lastSeq

theorem AxisFits.applyCmd {a : Axis} (h : AxisFits a) (shutdown : Bool) (xe : AxErr) (tick : Nat)
    {x : XCmd} (hx : x.seq < 2 ^ 32) : AxisFits (applyCmd shutdown xe tick x a) := by
  obtain ⟨-, hinputs, hcw, -⟩ := applyCmd_frame shutdown xe tick x a
  refine ⟨hinputs ▸ h.inputs, hcw ▸ h.cw, ppOk_applyCmd shutdown xe tick x h.pp, ?_⟩
  rw [lastSeq_applyCmd]
  exact hx

/-! ## Whole runs -/

/-- The ranges of all axes, and what the hook needs to keep them: the sequence numbers
of the commands in the ring have 32 bits, and no seqlock is left half written. -/
structure Published (c : EcmCia402) : Prop where
  ring : c.cmd.WF
  seqs : ∀ x ∈ c.cmd.toList, x.seq < 2 ^ 32
  axes : ∀ i, AxisFits (c.ax i)
  whole : ∀ i, (c.st i).seq % 2 = 0

/-- The sequence number of a command is a `uint32_t`. -/
def Event.SeqFits : Event → Prop
  | .cmd _ _ _ _ seq _ => seq < 2 ^ 32
  | _ => True

theorem AxisFits.zero : AxisFits Axis.zero :=
  ⟨⟨by decide, by decide, by decide, by decide, by decide⟩, by decide,
    ⟨by decide, by decide⟩, by decide⟩

namespace Published

variable {c : EcmCia402}

/-- One axis is replaced. -/
theorem update (h : Published c) (i n bad : Nat) {a : Axis} (ha : AxisFits a) :
    Published { c with ax := Function.update c.ax i a, naxes := n, cmdBad := bad } := by
  refine ⟨h.ring, h.seqs, fun j => ?_, h.whole⟩
  dsimp only
  by_cases hj : j = i
  · rw [hj, Function.update_self]
    exact ha
  · rw [Function.update_of_ne hj]
    exact h.axes j

theorem applyTo (h : Published c) (tick : Nat) (xe : AxErr) {x : XCmd} (hx : x.seq < 2 ^ 32) :
    Published (applyTo c tick xe x) := by
  unfold EcMaster.Cia402.applyTo
  by_cases hlt : x.target < c.naxes
  · rw [if_pos hlt]
    exact h.update x.target c.naxes _ ((h.axes _).applyCmd _ _ _ hx)
  · rw [if_neg hlt]
    exact ⟨h.ring, h.seqs, h.axes, h.whole⟩

theorem cmdLoop (h : Published c) (env : HookEnv) (budget : Nat) :
    Published (cmdLoop env budget c).1 := by
  induction budget generalizing c with
  | zero =>
    unfold EcMaster.Cia402.cmdLoop
    split
    · exact h
    · split_ifs
      · exact h
      · exact ⟨h.ring, h.seqs, h.axes, h.whole⟩
  | succ n ih =>
    unfold EcMaster.Cia402.cmdLoop
    split
    · exact h
    · rename_i x hpeek
      obtain ⟨hwf, hpop⟩ := XRing.ecmXringPop_spec h.ring hpeek
      have hx := h.seqs x (by rw [hpop]; exact List.mem_cons_self ..)
      split_ifs
      · exact h
      · have happly := h.applyTo env.tick (env.xeCmd n) hx
        have hcmd : (EcMaster.Cia402.applyTo c env.tick (env.xeCmd n) x).cmd = c.cmd := by
          unfold EcMaster.Cia402.applyTo
          split_ifs <;> rfl
        refine ih ⟨?_, ?_, happly.axes, happly.whole⟩ <;> dsimp only <;> rw [hcmd]
        · exact hwf
        · exact fun y hy => h.seqs y (by rw [hpop]; exact List.mem_cons_of_mem x hy)

theorem axisTurn (env : HookEnv) {s : EcmCia402 × Image} (h : Published s.1) (i : Nat) :
    Published (axisTurn env s i).1 := by
  refine ⟨h.ring, h.seqs, fun j => ?_, fun j => ?_⟩ <;> dsimp only [EcMaster.Cia402.axisTurn]
  · by_cases hj : j = i
    · rw [hj, Function.update_self]
      exact (h.axes i).axisRt _ _ _
    · rw [Function.update_of_ne hj]
      exact h.axes j
  · by_cases hj : j = i
    · rw [hj, Function.update_self]
      exact ecmXstWrite_even (h.whole i) _ _
    · rw [Function.update_of_ne hj]
      exact h.whole j

theorem axesLoop (env : HookEnv) {s : EcmCia402 × Image} (h : Published s.1) (n : Nat) :
    Published (axesLoop env n s).1 := by
  unfold EcMaster.Cia402.axesLoop
  induction n with
  | zero => exact h
  | succ n ih =>
    rw [List.range_succ, List.foldl_append]
    exact ih.axisTurn env n

/-- The step lemma. -/
theorem step {s : Sys} (h : Published s.c) {e : Event} (he : e.SeqFits) :
    Published (s.step e).c := by
  cases e with
  | hook env =>
    have hall := (h.cmdLoop env xchgCmdPerTick).axesLoop env
      (s := ((EcMaster.Cia402.cmdLoop env xchgCmdPerTick s.c).1,
        freshImage s.obytes s.io env.inputs))
      (EcMaster.Cia402.cmdLoop env xchgCmdPerTick s.c).1.naxes
    exact ⟨hall.ring, hall.seqs, hall.axes, hall.whole⟩
  | cmd axis op arg0 arg1 seq tick =>
    dsimp only [Sys.step, ecmCia402Cmd2]
    split_ifs
    · exact h
    · refine ⟨XRing.wf_ecmXringPush h.ring _, fun x hx => ?_, h.axes, h.whole⟩
      dsimp only at hx
      rw [XRing.toList_ecmXringPush h.ring] at hx
      split_ifs at hx
      · rcases List.mem_append.1 hx with hx | hx
        · exact h.seqs x hx
        · rw [List.mem_singleton.1 hx]
          exact he
      · exact h.seqs x hx
  | setpoint axis tick v =>
    dsimp only [Sys.step, ecmCia402Setpoint]
    split_ifs
    · exact h
    · exact ⟨h.ring, h.seqs, h.axes, h.whole⟩
  | shutdown =>
    refine ⟨h.ring, h.seqs, fun i => ?_, h.whole⟩
    have ha := h.axes i
    dsimp only [Sys.step, ecmCia402Shutdown]
    split_ifs
    · exact ⟨ha.inputs, ha.cw, ha.pp, ha.lastSeq⟩
    · exact ha

theorem addSetup (h : Published c) (x : AxisSetup) : Published (addSetup c x) := by
  unfold EcMaster.Cia402.addSetup ecmCia402AddAxis
  have hzero := AxisFits.zero
  by_cases hfull : c.naxes ≥ axisMax
  · rw [if_pos hfull]
    exact h
  · rw [if_neg hfull]
    have hadd := h.update c.naxes (c.naxes + 1) c.cmdBad
      (a := { Axis.zero with modes := x.modes, b := x.b, modeReq := firstMode x.modes })
      ⟨hzero.inputs, hzero.cw, hzero.pp, hzero.lastSeq⟩
    have ha := hadd.axes (c.naxes : Int).toNat
    dsimp only [ecmCia402SetStepLimit]
    split_ifs <;> first
      | exact hadd
      | exact hadd.update _ _ _ ⟨ha.inputs, ha.cw, ha.pp, ha.lastSeq⟩

theorem boot (cfg : Config) : Published cfg.boot.c := by
  have hinit : Published (ecmCia402SetHomeTimeout
      (ecmCia402Init cfg.cycleNs cfg.stepTimeoutMs) cfg.homeTimeoutMs) := by
    refine ⟨XRing.wf_ecmXringInit _ (.inr rfl), fun x hx => ?_, fun _ => AxisFits.zero,
      fun _ => rfl⟩
    have hnil : x ∈ ([] : List XCmd) := hx
    exact absurd hnil (List.not_mem_nil)
  unfold Config.boot
  generalize ecmCia402SetHomeTimeout _ _ = c at hinit
  dsimp only
  induction cfg.axes generalizing c with
  | nil => exact hinit
  | cons x xs ih => exact ih _ (hinit.addSetup x)

theorem run {s : Sys} (h : Published s.c) {es : List Event} (hes : ∀ e ∈ es, e.SeqFits) :
    Published (run Sys.step s es).c := by
  induction es generalizing s with
  | nil => exact h
  | cons e es ih =>
    exact ih (h.step (hes e (List.mem_cons_self ..))) fun e' he' =>
      hes e' (List.mem_cons_of_mem e he')

end Published

/-- The turns of the axes leave in each seqlock the axis as it is then. -/
theorem axesLoop_st (env : HookEnv) (s : EcmCia402 × Image) (n : Nat) {i : Nat} (hi : i < n) :
    (axesLoop env n s).1.st i =
      ecmXstWrite (s.1.st i) env.tick (publishWords ((axesLoop env n s).1.ax i)) := by
  have hbefore : ∀ m, m ≤ i → (axesLoop env m s).1.st i = s.1.st i := by
    intro m hm
    induction m with
    | zero => rfl
    | succ m ih =>
      unfold axesLoop
      rw [List.range_succ, List.foldl_append]
      dsimp only [List.foldl_cons, List.foldl_nil, axisTurn]
      rw [Function.update_of_ne (by omega)]
      exact ih (by omega)
  induction n with
  | zero => omega
  | succ n ih =>
    have hsucc : axesLoop env (n + 1) s = axisTurn env (axesLoop env n s) n := by
      unfold axesLoop
      rw [List.range_succ, List.foldl_append]
      rfl
    rw [hsucc]
    dsimp only [axisTurn]
    by_cases hin : i = n
    · subst hin
      rw [Function.update_self, Function.update_self, hbefore i (Nat.le_refl i)]
    · rw [Function.update_of_ne hin, Function.update_of_ne hin]
      exact ih (by omega)

/-- A read of words just published, with no write going on. -/
theorem ecmXstRead_write {s : Xst} (hs : s.seq % 2 = 0) (tick : Nat) (a : Axis) :
    ecmXstRead (ecmXstWrite s tick (publishWords a)) xstWords = some (tick, publishWords a) := by
  have heven := ecmXstWrite_even hs tick (publishWords a)
  rw [ecmXstRead, if_neg (by omega)]
  rfl

theorem naxes_run {s : Sys} {i : Nat} (hi : i < s.c.naxes) (es : List Event) :
    i < (run Sys.step s es).c.naxes := by
  induction es generalizing s with
  | nil => exact hi
  | cons e es ih =>
    have hn := (sees_step hi (sees_axis s.c i) e).2.1
    exact ih (hn ▸ hi)

/-- After every hook of every run a read returns the axis as it is, no field disturbed by
another. -/
theorem read_after_hook (cfg : Config) (evs : List Event) (hseq : ∀ e ∈ evs, e.SeqFits)
    (env : HookEnv) (i : Fin cfg.axes.length) :
    let c := ((run Sys.step cfg.boot evs).step (.hook env)).c
    ecmCia402Read c i = some ((c.ax i).state env.tick) := by
  intro c
  have hpub := (Published.boot cfg).run hseq
  have hfits : AxisFits (c.ax i) := (hpub.step (e := .hook env) trivial).axes i
  have hbefore := naxes_run (sees_boot cfg i).1 evs
  have hi : i.1 < c.naxes := by
    have hstep := naxes_run (sees_boot cfg i).1 (evs ++ [.hook env])
    rw [run_append] at hstep
    exact hstep
  have hwhole := (hpub.cmdLoop env xchgCmdPerTick).whole i
  have hst : c.st i = ecmXstWrite
      ((cmdLoop env xchgCmdPerTick (run Sys.step cfg.boot evs).c).1.st i) env.tick
      (publishWords (c.ax i)) := by
    refine axesLoop_st env _ _ ?_
    rw [(sees_cmdLoop env cfg.boot.c.p xchgCmdPerTick _ _ hbefore (sees_axis _ _)).2.1]
    exact hbefore
  rw [ecmCia402Read, if_neg (by omega), Int.toNat_natCast, hst, ecmXstRead_write hwhole]
  exact congrArg some (stateOfWords_publishWords hfits env.tick)

/-- The axis of the small set-up runs in CSP, at a negative position and with a command
whose sequence number has all 32 bits. -/
theorem read_after_hook_small :
    let evs := [.cmd 0 .enable 0 0 0xFFFFFFFF 0, smallHook 1 0x0040 (-5) 8]
    let env : HookEnv :=
      { tick := 2, tSendNs := 0, inValid := true, busLost := false
        inputs := smallInputs 0x0027 (-6) 8, xeCmd := fun _ => .none, xeRt := fun _ => .none }
    let c := ((run Sys.step smallConfig.boot evs).step (.hook env)).c
    (∀ e ∈ evs, e.SeqFits) ∧
      ecmCia402Read c 0 = some ((c.ax 0).state 2) ∧
      (c.ax 0).apos = -6 ∧ (c.ax 0).lastSeq = 0xFFFFFFFF ∧ (c.ax 0).cw = 0x000F := by
  intro evs env c
  have hseq : ∀ e ∈ evs, e.SeqFits := by
    intro e he
    simp only [evs, List.mem_cons, List.not_mem_nil, or_false] at he
    rcases he with rfl | rfl
    · exact (by decide : 0xFFFFFFFF < 2 ^ 32)
    · exact trivial
  exact ⟨hseq, read_after_hook smallConfig evs hseq env ⟨0, by decide⟩, by decide +kernel,
    by decide +kernel, by decide +kernel⟩

end EcMaster.Cia402
