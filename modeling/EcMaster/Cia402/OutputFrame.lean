import EcMaster.Cia402.Image

/-!
# What a hook writes, and what it depends on

`ecm_cia402_rt` writes the image only through `ecm_pdo_set` on four objects of each
axis, and without a bus it writes nothing.  `bitAt_axesLoop` is the frame: a bit that
belongs to no such object is left alone.

For axes that share no bit, the turn of an axis sees its own bits of the image as
they were before the hook, and what it writes stays.  So the bits of its objects
after the hook are a function of the axis itself, its setpoint ring, its bits of the
image, and the commands.  `SameFor` and `SameBits` say that two states and two images
agree in these, and `output_frame` that the hook then leaves the same bits behind,
whatever the other axes are.

The command ring is shared.  A command for another axis takes one of the places of a
hook, so the commands of all axes are part of what has to agree.
-/

namespace EcMaster.Cia402

open EcMaster.ByteImage EcMaster.Pdo EcMaster.Xchg EcMaster.Run

/-- The objects that an axis reads. -/
def Bind.ins (b : Bind) : List Handle := [b.sw, b.apos, b.avel, b.err, b.modeDisp]

/-- All objects of an axis. -/
def Bind.handles (b : Bind) : List Handle := b.ins ++ [b.cw, b.tpos, b.tvel, b.mode]

/-- The objects of one axis share no bit with those of another. -/
def HandlesApart (c : EcmCia402) : Prop :=
  ∀ i < c.naxes, ∀ j < c.naxes, i ≠ j →
    ∀ g ∈ (c.ax i).b.handles, ∀ g' ∈ (c.ax j).b.handles, g.Disjoint g'

instance (c : EcmCia402) : Decidable (HandlesApart c) :=
  inferInstanceAs (Decidable (∀ i < c.naxes, ∀ j < c.naxes, i ≠ j →
    ∀ g ∈ (c.ax i).b.handles, ∀ g' ∈ (c.ax j).b.handles, g.Disjoint g'))

/-- Two images have the same bits at the objects of an axis. -/
def SameBits (b : Bind) (io io' : Image) : Prop :=
  ∀ g ∈ b.handles, ∀ x, g.Covers x → bitAt io x = bitAt io' x

/-- Two states agree in axis `i`, its setpoints, and the commands. -/
structure SameFor (i : Nat) (c c' : EcmCia402) : Prop where
  p : c.p = c'.p
  cmd : c.cmd = c'.cmd
  shutdown : c.shutdown = c'.shutdown
  axis : c.ax i = c'.ax i
  ring : c.sp i = c'.sp i

/-- Two calls of the hook agree in what axis `i` gets to see of them. -/
structure SameCall (i : Nat) (env env' : HookEnv) : Prop where
  tick : env.tick = env'.tick
  inValid : env.inValid = env'.inValid
  busLost : env.busLost = env'.busLost
  xeRt : env.xeRt i = env'.xeRt i

/-- The external errors that the commands for axis `i` meet are the same. -/
def SameErrors (i : Nat) (log log' : List (XCmd × AxErr)) : Prop :=
  List.Forall₂ (fun q q' => q.1.target = i → q.2 = q'.2) log log'

theorem Bind.out_mem (b : Bind) (k : OutObj) : b.out k ∈ b.handles := by
  cases k <;> simp [Bind.out, Bind.handles]

/-! ## The writes of one axis -/

theorem writeOutputs_silent (b : Bind) (io : Image) : writeOutputs b .silent io = io := rfl

/-- One call of `ecm_pdo_set` that may not be made, at one bit. -/
theorem bitAt_set_congr {h : Handle} (v : Option Nat) {io io' : Image} {x : Nat}
    (hx : bitAt io x = bitAt io' x) :
    bitAt (match v with | some v => ecmPdoSet h io v | none => io) x =
      bitAt (match v with | some v => ecmPdoSet h io' v | none => io') x := by
  cases v with
  | none => exact hx
  | some v =>
    simp only [bitAt_ecmPdoSet]
    split
    · rfl
    · exact hx

theorem bitAt_set_other {h : Handle} (v : Option Nat) (io : Image) {x : Nat}
    (hx : ¬ h.Covers x) :
    bitAt (match v with | some v => ecmPdoSet h io v | none => io) x = bitAt io x := by
  cases v with
  | none => rfl
  | some v => rw [bitAt_ecmPdoSet, if_neg hx]

/-- What an axis writes at a bit does not depend on the other bits. -/
theorem bitAt_writeOutputs_congr (b : Bind) (o : Outputs) {io io' : Image} {x : Nat}
    (hx : bitAt io x = bitAt io' x) :
    bitAt (writeOutputs b o io) x = bitAt (writeOutputs b o io') x := by
  rw [writeOutputs_eq, writeOutputs_eq]
  simp only [List.foldl_cons, List.foldl_nil]
  exact bitAt_set_congr _ (bitAt_set_congr _ (bitAt_set_congr _ (bitAt_set_congr _ hx)))

/-- An axis leaves alone every bit that belongs to none of its objects. -/
theorem bitAt_writeOutputs_other {b : Bind} (o : Outputs) (io : Image) {x : Nat}
    (hx : ∀ k, ¬ (b.out k).Covers x) : bitAt (writeOutputs b o io) x = bitAt io x := by
  rw [writeOutputs_eq]
  simp only [List.foldl_cons, List.foldl_nil]
  refine (bitAt_set_other (o.raw .cw) _ (hx .cw)).trans ?_
  refine (bitAt_set_other (o.raw .mode) _ (hx .mode)).trans ?_
  refine (bitAt_set_other (o.raw .tvel) _ (hx .tvel)).trans ?_
  exact bitAt_set_other (o.raw .tpos) io (hx .tpos)

/-! ## The reads of one axis -/

/-- An axis reads its inputs and nothing else of the image. -/
theorem axisRt_congr (p : Params) (h : AxHook) (ring : XRing XSp) (a : Axis) {io : Image}
    (hin : ∀ g ∈ a.b.ins, ∀ x, g.Covers x → bitAt h.io x = bitAt io x) :
    axisRt p { h with io := io } ring a = axisRt p h ring a := by
  have hget : ∀ g ∈ a.b.ins, ecmPdoGet g io = ecmPdoGet g h.io := fun g hg =>
    ecmPdoGet_congr fun x hx => (hin g hg x hx).symm
  have hread : readInputs p { h with io := io } a = readInputs p h a := by
    unfold readInputs
    simp only [hget a.b.sw (by simp [Bind.ins]), hget a.b.apos (by simp [Bind.ins]),
      hget a.b.avel (by simp [Bind.ins]), hget a.b.err (by simp [Bind.ins]),
      hget a.b.modeDisp (by simp [Bind.ins])]
  -- no other step looks at the image
  have hlatched : latched p { h with io := io } a = latched p h a := by
    unfold latched
    rw [hread]
    have hfault : ∀ a, latchFault { h with io := io } a = latchFault h a := fun _ => rfl
    have hext : ∀ a, latchExt { h with io := io } a = latchExt h a := fun _ => rfl
    have hdropped : ∀ a, latchDropped { h with io := io } a = latchDropped h a := fun _ => rfl
    rw [hfault, hext, hdropped]
  have hfront : front p { h with io := io } a = front p h a := by
    unfold front
    rw [hlatched]
    have htimeout : ∀ w, stepTimeout p { h with io := io } w = stepTimeout p h w := fun _ => rfl
    rw [htimeout]
  have htake : ∀ w, takeSetpoint { h with io := io } ring w = takeSetpoint h ring w :=
    fun _ => rfl
  have hprofile : ∀ w, profileOut p { h with io := io } w = profileOut p h w := by
    intro w
    have hpp : ∀ w, ppOut p { h with io := io } w = ppOut p h w := fun _ => rfl
    have hhm : ∀ w, hmOut p { h with io := io } w = hmOut p h w := fun _ => rfl
    unfold profileOut
    simp only [hpp, hhm]
  have hback : ∀ w, back p { h with io := io } ring w = back p h ring w := by
    intro w
    unfold back
    rw [hprofile, htake]
  unfold axisRt
  simp only [hfront, htake, hback]

/-! ## The turns -/

theorem axesLoop_succ (env : HookEnv) (n : Nat) (s : EcmCia402 × Image) :
    axesLoop env (n + 1) s = axisTurn env (axesLoop env n s) n := by
  simp [axesLoop, List.range_succ]

/-- The image after one more turn. -/
theorem axesLoop_image (env : HookEnv) (c : EcmCia402) (io : Image) (n : Nat) :
    (axesLoop env (n + 1) (c, io)).2 =
      writeOutputs (c.ax n).b
        (axisRt c.p (env.axHook n (axesLoop env n (c, io)).2) (c.sp n) (c.ax n)).out
        (axesLoop env n (c, io)).2 := by
  obtain ⟨hp, -, -, hall⟩ := axesLoop_spec env c io n
  obtain ⟨hax, hsp⟩ := hall n
  rw [if_neg (Nat.lt_irrefl n)] at hax hsp
  rw [axesLoop_succ]
  unfold axisTurn
  dsimp only
  rw [hp, hax, hsp]

/-- The turns leave alone every bit that belongs to no object of their axes. -/
theorem bitAt_axesLoop (env : HookEnv) (c : EcmCia402) (io : Image) {x : Nat} :
    ∀ n, (∀ j < n, ∀ k, ¬ ((c.ax j).b.out k).Covers x) →
      bitAt (axesLoop env n (c, io)).2 x = bitAt io x := by
  intro n
  induction n with
  | zero => intro _; rfl
  | succ n ih =>
    intro hx
    rw [axesLoop_image, bitAt_writeOutputs_other _ _ (hx n (Nat.lt_succ_self n))]
    exact ih fun j hj => hx j (Nat.lt_succ_of_lt hj)

/-- The turns after that of axis `i` leave its bits alone. -/
theorem bitAt_axesLoop_own (env : HookEnv) (c : EcmCia402) (io : Image) {i x : Nat} :
    ∀ n, i < n → (∀ j < n, j ≠ i → ∀ k, ¬ ((c.ax j).b.out k).Covers x) →
      bitAt (axesLoop env n (c, io)).2 x = bitAt (axesLoop env (i + 1) (c, io)).2 x := by
  intro n
  induction n with
  | zero => intro hi; omega
  | succ n ih =>
    intro hi hx
    by_cases hlast : i = n
    · rw [hlast]
    · have hn : n ≠ i := fun h => hlast h.symm
      rw [axesLoop_image, bitAt_writeOutputs_other _ _ (hx n (Nat.lt_succ_self n) hn)]
      exact ih (by omega) fun j hj => hx j (Nat.lt_succ_of_lt hj)

/-- Without a bus the turns write nothing. -/
theorem axesLoop_lost {env : HookEnv} (hlost : env.busLost = true) (c : EcmCia402) (io : Image)
    (n : Nat) : (axesLoop env n (c, io)).2 = io := by
  induction n with
  | zero => rfl
  | succ n ih =>
    have hsilent := (axisRt_lost (p := c.p) (h := env.axHook n (axesLoop env n (c, io)).2)
      (c.sp n) (c.ax n) hlost).1
    rw [axesLoop_image, hsilent, writeOutputs_silent, ih]

/-! ## The commands -/

theorem cmdLoop_naxes (env : HookEnv) (budget : Nat) (c : EcmCia402) :
    (cmdLoop env budget c).1.naxes = c.naxes := by
  induction budget generalizing c with
  | zero =>
    unfold cmdLoop
    split
    · rfl
    · split_ifs <;> rfl
  | succ n ih =>
    unfold cmdLoop
    split
    · rfl
    · split_ifs
      · rfl
      · dsimp only
        rw [ih]
        exact (applyTo_frame c env.tick (env.xeCmd n) _).2.1

theorem applyTo_cmd (c : EcmCia402) (tick : Nat) (xe : AxErr) (x : XCmd) :
    (applyTo c tick xe x).cmd = c.cmd := by
  unfold applyTo
  split_ifs <;> rfl

/-- Which commands a hook applies is up to the ring and the tick. -/
theorem cmdLoop_commands {env env' : HookEnv} (htick : env.tick = env'.tick) (budget : Nat)
    {c c' : EcmCia402} (hcmd : c.cmd = c'.cmd) :
    (cmdLoop env budget c).2.map Prod.fst = (cmdLoop env' budget c').2.map Prod.fst := by
  induction budget generalizing c c' with
  | zero =>
    unfold cmdLoop
    rw [hcmd, htick]
    split
    · rfl
    · split_ifs <;> rfl
  | succ n ih =>
    unfold cmdLoop
    rw [hcmd, htick]
    split
    · rfl
    · split_ifs
      · rfl
      · dsimp only
        rw [List.map_cons, List.map_cons]
        congr 1
        apply ih
        dsimp only
        rw [applyTo_cmd, applyTo_cmd, hcmd]

/-- The commands for one axis, where the errors that they meet are the same. -/
theorem cmdEvents_congr {i tick : Nat} {log log' : List (XCmd × AxErr)}
    (hxe : SameErrors i log log') (hcmds : log.map Prod.fst = log'.map Prod.fst) :
    cmdEvents i tick log = cmdEvents i tick log' := by
  induction hxe with
  | nil => rfl
  | @cons q q' log log' hq _ ih =>
    rw [List.map_cons, List.map_cons, List.cons.injEq] at hcmds
    obtain ⟨hhead, htail⟩ := hcmds
    rw [cmdEvents_cons, cmdEvents_cons i tick q', ih htail]
    congr 1
    unfold cmdEvents
    by_cases htarget : q.1.target = i
    · have hsame : q = q' := Prod.ext hhead (hq htarget)
      rw [hsame]
    · have htarget' : ¬ q'.1.target = i := hhead ▸ htarget
      simp [htarget, htarget']

/-! ## The hook -/

section Noninterference

variable {i : Nat} {env env' : HookEnv} {c c' : EcmCia402} {io io' : Image}

theorem HandlesApart.cmdLoop (hapart : HandlesApart c) (env : HookEnv) (budget : Nat) :
    HandlesApart (cmdLoop env budget c).1 := by
  intro i hi j hj hne
  rw [cmdLoop_naxes] at hi hj
  rw [bind_cmdLoop env budget c hi, bind_cmdLoop env budget c hj]
  exact hapart i hi j hj hne

/-- The command loop keeps two states in agreement. -/
theorem SameFor.cmdLoop (hsame : SameFor i c c') (hi : i < c.naxes) (hi' : i < c'.naxes)
    (hcall : SameCall i env env') (budget : Nat)
    (hxe : SameErrors i (cmdLoop env budget c).2 (cmdLoop env' budget c').2) :
    (cmdLoop env budget c).1.p = (cmdLoop env' budget c').1.p ∧
      (cmdLoop env budget c).1.ax i = (cmdLoop env' budget c').1.ax i ∧
      (cmdLoop env budget c).1.sp i = (cmdLoop env' budget c').1.sp i := by
  obtain ⟨hp, -, hsees⟩ := sees_cmdLoop env c.p budget c _ hi (sees_axis c i)
  obtain ⟨hp', -, hsees'⟩ := sees_cmdLoop env' c.p budget c' _ hi' (sees_axis c' i)
  have hstart : c.axis i = c'.axis i := by
    unfold EcmCia402.axis
    rw [hsame.axis, hsame.ring, hsame.shutdown]
  have hevents : cmdEvents i env.tick (Cia402.cmdLoop env budget c).2 =
      cmdEvents i env'.tick (Cia402.cmdLoop env' budget c').2 := by
    rw [hcall.tick]
    exact cmdEvents_congr hxe (cmdLoop_commands hcall.tick budget hsame.cmd)
  rw [hstart, hevents] at hsees
  refine ⟨(hp.trans hsame.p).trans hp'.symm, ?_, ?_⟩
  · exact hsees.axis.symm.trans hsees'.axis
  · exact hsees.ring.symm.trans hsees'.ring

/-- The turns of other axes leave the bits of axis `i` alone. -/
theorem HandlesApart.untouched (hapart : HandlesApart c) (hi : i < c.naxes) {g : Handle}
    (hg : g ∈ (c.ax i).b.handles) {x : Nat} (hx : g.Covers x) :
    ∀ j < c.naxes, j ≠ i → ∀ k, ¬ ((c.ax j).b.out k).Covers x := by
  intro j hj hne k hcov
  exact hapart i hi j hj (Ne.symm hne) g hg _ (Bind.out_mem _ k) x hx hcov

/-- The turns, where the states agree in axis `i`. -/
theorem bitAt_axesLoop_congr (hapart : HandlesApart c) (hapart' : HandlesApart c')
    (hi : i < c.naxes) (hi' : i < c'.naxes) (hp : c.p = c'.p) (hax : c.ax i = c'.ax i)
    (hsp : c.sp i = c'.sp i) (hcall : SameCall i env env') (hbits : SameBits (c.ax i).b io io')
    {k : OutObj} {x : Nat} (hx : ((c.ax i).b.out k).Covers x) :
    bitAt (axesLoop env c.naxes (c, io)).2 x = bitAt (axesLoop env' c'.naxes (c', io')).2 x := by
  -- at its turn the axis finds its bits as they were
  have hbefore : ∀ g ∈ (c.ax i).b.handles, ∀ y, g.Covers y →
      bitAt (axesLoop env i (c, io)).2 y = bitAt (axesLoop env' i (c', io')).2 y := by
    intro g hg y hy
    have hfree := hapart.untouched hi hg hy
    have hfree' := hapart'.untouched hi' (hax ▸ hg) hy
    rw [bitAt_axesLoop env c io i fun j hj => hfree j (by omega) (by omega),
      bitAt_axesLoop env' c' io' i fun j hj => hfree' j (by omega) (by omega)]
    exact hbits g hg y hy
  have hturn : axisRt c'.p (env'.axHook i (axesLoop env' i (c', io')).2) (c'.sp i) (c'.ax i) =
      axisRt c.p (env.axHook i (axesLoop env i (c, io)).2) (c.sp i) (c.ax i) := by
    have hhook : env'.axHook i (axesLoop env' i (c', io')).2 =
        { env.axHook i (axesLoop env i (c, io)).2 with io := (axesLoop env' i (c', io')).2 } := by
      unfold HookEnv.axHook
      rw [hcall.tick, hcall.inValid, hcall.busLost, hcall.xeRt]
    rw [hhook, ← hp, ← hsp, ← hax]
    apply axisRt_congr
    intro g hg
    exact hbefore g (List.mem_append_left _ hg)
  have hmem := Bind.out_mem (c.ax i).b k
  rw [bitAt_axesLoop_own env c io _ hi (hapart.untouched hi hmem hx),
    bitAt_axesLoop_own env' c' io' _ hi' (hapart'.untouched hi' (hax ▸ hmem) hx),
    axesLoop_image, axesLoop_image, hturn, ← hax]
  exact bitAt_writeOutputs_congr _ _ (hbefore _ hmem x hx)

end Noninterference

/-- A hook changes only bits of the objects that its axes write, none without a bus,
and for axes that share no bit, the bits of one axis do not depend on the others. -/
theorem output_frame :
    (∀ env c io x, bitAt (ecmCia402Rt env c io).2 x ≠ bitAt io x →
      ∃ j < c.naxes, ∃ k, ((c.ax j).b.out k).Covers x) ∧
    (∀ env c io, env.busLost = true → (ecmCia402Rt env c io).2 = io) ∧
    ∀ i env env' c c' io io', i < c.naxes → i < c'.naxes →
      HandlesApart c → HandlesApart c' → SameFor i c c' → SameCall i env env' →
      SameErrors i (cmdLoop env xchgCmdPerTick c).2 (cmdLoop env' xchgCmdPerTick c').2 →
      SameBits (c.ax i).b io io' → ∀ k x, ((c.ax i).b.out k).Covers x →
        bitAt (ecmCia402Rt env c io).2 x = bitAt (ecmCia402Rt env' c' io').2 x := by
  refine ⟨?_, ?_, ?_⟩
  · intro env c io x hchanged
    by_contra hnone
    apply hchanged
    apply bitAt_axesLoop
    intro j hj k hcov
    rw [cmdLoop_naxes] at hj
    rw [bind_cmdLoop env _ c hj] at hcov
    exact hnone ⟨j, hj, k, hcov⟩
  · intro env c io hlost
    exact axesLoop_lost hlost _ io _
  · intro i env env' c c' io io' hi hi' hapart hapart' hsame hcall hxe hbits k x hx
    have hbind := bind_cmdLoop env xchgCmdPerTick c hi
    obtain ⟨hp, hax, hsp⟩ := hsame.cmdLoop hi hi' hcall _ hxe
    rw [← cmdLoop_naxes env xchgCmdPerTick] at hi
    rw [← cmdLoop_naxes env' xchgCmdPerTick] at hi'
    rw [← hbind] at hbits hx
    exact bitAt_axesLoop_congr (hapart.cmdLoop env _) (hapart'.cmdLoop env' _) hi hi' hp hax hsp
      hcall hbits hx

/-! Two axes of twelve bytes each, the second one with a fault in one of the states. -/

/-- Controlword and target position, statusword and actual position. -/
def bindAt (byte : Nat) : Bind :=
  { Bind.zero with
    cw := ⟨8 * byte, 16⟩, tpos := ⟨8 * byte + 16, 32⟩
    sw := ⟨8 * byte + 48, 16⟩, apos := ⟨8 * byte + 64, 32⟩ }

def twoAxes (second : DriveState) : EcmCia402 :=
  { ecmCia402Init 1000000 1000 with
    naxes := 2
    ax := fun i => { Axis.zero with
      b := bindAt (12 * i), modeReq := .csp, target := .enabled
      ds := if i = 0 then .rtso else second } }

/-- A hook whose frame did not come back. -/
def noFrame : HookEnv :=
  { tick := 1, tSendNs := 0, inValid := false, busLost := false, inputs := fun _ => 0
    xeCmd := fun _ => .none, xeRt := fun _ => .none }

theorem output_frame_twoAxes :
    ∀ k x, (((twoAxes .oe).ax 0).b.out k).Covers x →
      bitAt (ecmCia402Rt noFrame (twoAxes .oe) fun _ => 0).2 x =
        bitAt (ecmCia402Rt noFrame (twoAxes .fault) fun b => if b < 12 then 0 else 255).2 x := by
  have hapart : HandlesApart (twoAxes .oe) ∧ HandlesApart (twoAxes .fault) := by decide +kernel
  have hbits : SameBits ((twoAxes .oe).ax 0).b (fun _ => 0) fun b => if b < 12 then 0 else 255 := by
    intro g hg x hx
    have hlow : ∀ g ∈ ((twoAxes .oe).ax 0).b.handles, g.bit + g.bits ≤ 96 := by decide +kernel
    have hend := hlow g hg
    have hbyte : x / 8 < 12 := by
      unfold Handle.Covers at hx
      omega
    simp [bitAt, hbyte]
  exact output_frame.2.2 0 noFrame noFrame (twoAxes .oe) (twoAxes .fault) _ _ (by decide)
    (by decide) hapart.1 hapart.2 ⟨rfl, rfl, rfl, rfl, rfl⟩ ⟨rfl, rfl, rfl, rfl⟩ .nil hbits

end EcMaster.Cia402
