import EcMaster.Cia402.Run

/-!
# The outputs in the process image

What an axis writes with `ecm_pdo_set` stays in the image until it writes the
object again: a hook without a bus writes nothing, and no mode writes every
object.  `read_ecmCia402Rt` says what a hook makes of one output object, and
`read_image` that after a whole run the object holds the value the axis wrote
last.

The process data must be laid out properly for that: every entry of the outputs
has its own bits, and the bits are in the output part of the image.
-/

namespace EcMaster.Cia402

open EcMaster.ByteImage EcMaster.Pdo EcMaster.Xchg EcMaster.Run

/-! ## The output objects of an axis -/

/-- The objects an axis writes: 0x6040, 0x607A, 0x60FF and 0x6060. -/
inductive OutObj where
  | cw | tpos | tvel | mode
deriving DecidableEq, Repr

instance (P : OutObj → Prop) [DecidablePred P] : Decidable (∀ k, P k) :=
  decidable_of_iff (P .cw ∧ P .tpos ∧ P .tvel ∧ P .mode)
    ⟨fun ⟨hcw, htpos, htvel, hmode⟩ k => by cases k <;> assumption,
      fun hall => ⟨hall _, hall _, hall _, hall _⟩⟩

/-- Where the object is. -/
def Bind.out (b : Bind) : OutObj → Handle
  | .cw => b.cw
  | .tpos => b.tpos
  | .tvel => b.tvel
  | .mode => b.mode

/-- The value passed to `ecm_pdo_set` for the object, if it was called. -/
def Outputs.raw (o : Outputs) : OutObj → Option Nat
  | .cw => o.cw
  | .tpos => o.tpos.map toU64
  | .tvel => o.tvel.map toU64
  | .mode => o.mode.map fun m => toU64 m.code % 2 ^ 8

/-- A value as it is read back from an entry, or else what was there before. -/
def stored (h : Handle) (v : Option Nat) (old : Nat) : Nat :=
  match v with
  | some v => v % 2 ^ h.bits
  | none => old

/-- The output entries of `n` axes have bits of their own, in the first `obytes`
bytes of the image. -/
structure Layout (obytes n : Nat) (bind : Nat → Bind) : Prop where
  inside : ∀ i < n, ∀ k, ((bind i).out k).bit + ((bind i).out k).bits ≤ 8 * obytes
  apart : ∀ i < n, ∀ j < n, ∀ k l, (i, k) ≠ (j, l) →
    ((bind i).out k).Disjoint ((bind j).out l)

theorem layout_iff (obytes n : Nat) (bind : Nat → Bind) :
    Layout obytes n bind ↔
      (∀ i < n, ∀ k, ((bind i).out k).bit + ((bind i).out k).bits ≤ 8 * obytes) ∧
      (∀ i < n, ∀ j < n, ∀ k l, (i, k) ≠ (j, l) →
        ((bind i).out k).Disjoint ((bind j).out l)) :=
  ⟨fun hlay => ⟨hlay.inside, hlay.apart⟩, fun ⟨hin, hap⟩ => ⟨hin, hap⟩⟩

instance (obytes n : Nat) (bind : Nat → Bind) : Decidable (Layout obytes n bind) :=
  decidable_of_iff _ (layout_iff obytes n bind).symm

/-! ## One axis -/

/-- A call of `ecm_pdo_set` that may not be made. -/
theorem read_set_self (h : Handle) (v : Option Nat) (io : Image) :
    ecmPdoGet h (match v with | some v => ecmPdoSet h io v | none => io) =
      stored h v (ecmPdoGet h io) := by
  cases v with
  | none => rfl
  | some v => exact ecmPdoGet_set_self h io v

theorem read_set_disjoint {h g : Handle} (hd : h.Disjoint g) (v : Option Nat) (io : Image) :
    ecmPdoGet h (match v with | some v => ecmPdoSet g io v | none => io) = ecmPdoGet h io := by
  cases v with
  | none => rfl
  | some v => exact ecmPdoGet_set_disjoint hd io v

/-- The four calls in their order. -/
theorem writeOutputs_eq (b : Bind) (o : Outputs) (io : Image) :
    writeOutputs b o io =
      [OutObj.tpos, .tvel, .mode, .cw].foldl
        (fun io k => match o.raw k with | some v => ecmPdoSet (b.out k) io v | none => io) io := by
  obtain ⟨cw, tpos, tvel, mode⟩ := o
  cases cw <;> cases tpos <;> cases tvel <;> cases mode <;> rfl

/-- Entries other than those of the axis are left alone. -/
theorem read_writeOutputs_other {h : Handle} {b : Bind} (hd : ∀ l, h.Disjoint (b.out l))
    (o : Outputs) (io : Image) : ecmPdoGet h (writeOutputs b o io) = ecmPdoGet h io := by
  rw [writeOutputs_eq]
  simp only [List.foldl_cons, List.foldl_nil]
  rw [read_set_disjoint (hd _), read_set_disjoint (hd _), read_set_disjoint (hd _),
    read_set_disjoint (hd _)]

/-- An entry of the axis has its new value, or keeps the old one. -/
theorem read_writeOutputs_self {b : Bind} {k : OutObj}
    (hd : ∀ l, k ≠ l → (b.out k).Disjoint (b.out l)) (o : Outputs) (io : Image) :
    ecmPdoGet (b.out k) (writeOutputs b o io) =
      stored (b.out k) (o.raw k) (ecmPdoGet (b.out k) io) := by
  rw [writeOutputs_eq]
  simp only [List.foldl_cons, List.foldl_nil]
  cases k with
  | cw =>
    have hmode := hd .mode (by decide)
    have htvel := hd .tvel (by decide)
    have htpos := hd .tpos (by decide)
    rw [read_set_self, read_set_disjoint hmode, read_set_disjoint htvel, read_set_disjoint htpos]
  | mode =>
    have hcw := hd .cw (by decide)
    have htvel := hd .tvel (by decide)
    have htpos := hd .tpos (by decide)
    rw [read_set_disjoint hcw, read_set_self, read_set_disjoint htvel, read_set_disjoint htpos]
  | tvel =>
    have hcw := hd .cw (by decide)
    have hmode := hd .mode (by decide)
    have htpos := hd .tpos (by decide)
    rw [read_set_disjoint hcw, read_set_disjoint hmode, read_set_self, read_set_disjoint htpos]
  | tpos =>
    have hcw := hd .cw (by decide)
    have hmode := hd .mode (by decide)
    have htvel := hd .tvel (by decide)
    rw [read_set_disjoint hcw, read_set_disjoint hmode, read_set_disjoint htvel, read_set_self]

/-! ## All axes of a hook -/

/-- The turns of the first `n` axes, at the entry of axis `i`. -/
theorem read_axesLoop (env : HookEnv) (c : EcmCia402) (io : Image) {obytes : Nat}
    (hlay : Layout obytes c.naxes fun j => (c.ax j).b) {i : Nat} (hi : i < c.naxes) (k : OutObj) :
    ∀ n ≤ c.naxes,
      ecmPdoGet ((c.ax i).b.out k) (axesLoop env n (c, io)).2 =
        if i < n then
          stored ((c.ax i).b.out k)
            ((axisRt c.p (env.axHook i (axesLoop env i (c, io)).2) (c.sp i) (c.ax i)).out.raw k)
            (ecmPdoGet ((c.ax i).b.out k) io)
        else ecmPdoGet ((c.ax i).b.out k) io := by
  intro n
  induction n with
  | zero => intro _; simp [axesLoop]
  | succ n ih =>
    intro hn
    have ih := ih (by omega)
    obtain ⟨hp, hnaxes, -, hall⟩ := axesLoop_spec env c io n
    obtain ⟨hax, hsp⟩ := hall n
    rw [if_neg (by omega)] at hax hsp
    have hstep : axesLoop env (n + 1) (c, io) = axisTurn env (axesLoop env n (c, io)) n := by
      simp [axesLoop, List.range_succ]
    rw [hstep]
    unfold axisTurn
    dsimp only
    rw [hp, hax, hsp]
    by_cases hin : i = n
    · subst hin
      rw [if_pos (by omega), read_writeOutputs_self, ih, if_neg (by omega)]
      exact fun l hl => hlay.apart i hi i hi k l (by simpa using hl)
    · rw [read_writeOutputs_other, ih]
      · have hiff : i < n + 1 ↔ i < n := by omega
        simp [hiff]
      · exact fun l => hlay.apart i hi n (by omega) k l (by simp [hin])

theorem Layout.congr {obytes n : Nat} {bind bind' : Nat → Bind} (hlay : Layout obytes n bind)
    (heq : ∀ j < n, bind' j = bind j) : Layout obytes n bind' := by
  refine ⟨fun i hi k => ?_, fun i hi j hj k l hne => ?_⟩
  · rw [heq i hi]
    exact hlay.inside i hi k
  · rw [heq i hi, heq j hj]
    exact hlay.apart i hi j hj k l hne

/-- The command loop keeps the bindings. -/
theorem bind_cmdLoop (env : HookEnv) (budget : Nat) (c : EcmCia402) {i : Nat}
    (hi : i < c.naxes) : ((cmdLoop env budget c).1.ax i).b = (c.ax i).b := by
  have hrun := (sees_cmdLoop env c.p budget c _ hi (sees_axis c i)).2.2
  rw [← hrun.axis, run_axStep_cfg]
  rfl

/-- The events of one hook for axis `i`: the commands before its turn, and its
turn. -/
def hookTurn (i : Nat) (env : HookEnv) (c : EcmCia402) (io : Image) : List AxEv :=
  let r := cmdLoop env xchgCmdPerTick c
  cmdEvents i env.tick r.2 ++ [.hook (env.axHook i (axesLoop env i (r.1, io)).2)]

/-- A hook at one output entry: what the turn of the axis wrote, or what was there
before. -/
theorem read_ecmCia402Rt (env : HookEnv) {c : EcmCia402} (io : Image) {obytes : Nat}
    (hlay : Layout obytes c.naxes fun j => (c.ax j).b) {i : Nat} {t : AxSt} (hi : i < c.naxes)
    (hs : Sees c i t) (k : OutObj) :
    ecmPdoGet ((c.ax i).b.out k) (ecmCia402Rt env c io).2 =
      stored ((c.ax i).b.out k) ((run (axStep c.p) t (hookTurn i env c io)).out.raw k)
        (ecmPdoGet ((c.ax i).b.out k) io) := by
  obtain ⟨hp, hn, hcmd⟩ := sees_cmdLoop env c.p xchgCmdPerTick c t hi hs
  have hbind := fun j hj => bind_cmdLoop env xchgCmdPerTick c (i := j) hj
  have hlay' : Layout obytes (cmdLoop env xchgCmdPerTick c).1.naxes
      fun j => ((cmdLoop env xchgCmdPerTick c).1.ax j).b := by
    rw [hn]
    exact hlay.congr hbind
  have hread := read_axesLoop env (cmdLoop env xchgCmdPerTick c).1 io hlay'
    (by rw [hn]; exact hi) k _ (Nat.le_refl _)
  rw [hbind i hi, if_pos (by rw [hn]; exact hi), ← hcmd.axis, ← hcmd.ring, hp] at hread
  rw [hookTurn, run_append]
  exact hread

/-! ## Whole runs -/

/-- What the axis wrote last to the object. -/
def lastOut (k : OutObj) (hist : List AxRec) : Option Nat :=
  hist.reverse.findSome? fun q => if q.ev.hook?.isSome then q.post.out.raw k else none

theorem lastOut_append (k : OutObj) (hist after : List AxRec) :
    lastOut k (hist ++ after) = (lastOut k after).or (lastOut k hist) := by
  unfold lastOut
  rw [List.reverse_append, List.findSome?_append]

/-- Without a hook nothing is written. -/
theorem lastOut_quiet (k : OutObj) (p : Params) (t : AxSt) {es : List AxEv}
    (hquiet : ∀ e ∈ es, e.hook? = none) : lastOut k (trace (axStep p) t es) = none := by
  unfold lastOut
  rw [List.findSome?_eq_none_iff]
  intro q hq
  have hev : q.ev ∈ (trace (axStep p) t es).map Rec.ev :=
    List.mem_map_of_mem (List.mem_reverse.1 hq)
  rw [map_ev_trace] at hev
  simp [hquiet _ hev]

theorem cmdEvents_quiet (i tick : Nat) (l : List (XCmd × AxErr)) :
    ∀ e ∈ cmdEvents i tick l, e.hook? = none := by
  intro e he
  simp only [cmdEvents, List.mem_map] at he
  obtain ⟨q, -, rfl⟩ := he
  rfl

/-- A hook writes what its turn wrote. -/
theorem lastOut_hookTurn (k : OutObj) (p : Params) (t : AxSt) (i : Nat) (env : HookEnv)
    (c : EcmCia402) (io : Image) :
    lastOut k (trace (axStep p) t (hookTurn i env c io)) =
      (run (axStep p) t (hookTurn i env c io)).out.raw k := by
  rw [hookTurn, trace_append, lastOut_append, run_append,
    lastOut_quiet k p t (cmdEvents_quiet i env.tick _), Option.or_none]
  simp only [trace, lastOut, List.reverse_singleton, List.findSome?_singleton, AxEv.hook?,
    Option.isSome_some, if_true, run_cons, run_nil]

/-- The outputs at the start of a hook are those the last one has left. -/
theorem read_freshImage {obytes : Nat} {h : Handle} (hin : h.bit + h.bits ≤ 8 * obytes)
    (io inputs : Image) : ecmPdoGet h (freshImage obytes io inputs) = ecmPdoGet h io := by
  apply ecmPdoGet_congr
  intro n hn
  unfold Handle.Covers at hn
  have hlt : n / 8 < obytes := by omega
  simp [bitAt, freshImage, hlt]

theorem stored_or (h : Handle) (v w : Option Nat) (old : Nat) :
    stored h (v.or w) old = stored h v (stored h w old) := by
  cases v <;> rfl

/-- One event at one output entry. -/
theorem read_step {s : Sys} {i : Nat} {t : AxSt} (hi : i < s.c.naxes) (hs : Sees s.c i t)
    (hlay : Layout s.obytes s.c.naxes fun j => (s.c.ax j).b) (e : Event) (k : OutObj) :
    ecmPdoGet ((s.c.ax i).b.out k) (s.step e).io =
      stored ((s.c.ax i).b.out k) (lastOut k (trace (axStep s.c.p) t (axisEvents i s e)))
        (ecmPdoGet ((s.c.ax i).b.out k) s.io) := by
  cases e with
  | hook env =>
    have hturn : axisEvents i s (.hook env) =
        hookTurn i env s.c (freshImage s.obytes s.io env.inputs) := rfl
    rw [hturn, lastOut_hookTurn, ← read_freshImage (hlay.inside i hi k) s.io env.inputs]
    exact read_ecmCia402Rt env _ hlay hi hs k
  | cmd axis op arg0 arg1 seq tick => rfl
  | setpoint axis tick v =>
    rw [lastOut_quiet k _ t (by simp [axisEvents, AxEv.hook?])]
    rfl
  | shutdown => rfl

/-- The bindings after an event. -/
theorem bind_step {s : Sys} (e : Event) {i : Nat} (hi : i < s.c.naxes) :
    ((s.step e).c.ax i).b = (s.c.ax i).b := by
  rw [← (sees_step hi (sees_axis s.c i) e).2.2.axis, run_axStep_cfg]
  rfl

/-- After a run an output entry holds what the axis wrote last. -/
theorem read_run {s : Sys} {i : Nat} {t : AxSt} (hi : i < s.c.naxes) (hs : Sees s.c i t)
    (hlay : Layout s.obytes s.c.naxes fun j => (s.c.ax j).b) (es : List Event) (k : OutObj) :
    ecmPdoGet ((s.c.ax i).b.out k) (run Sys.step s es).io =
      stored ((s.c.ax i).b.out k) (lastOut k (trace (axStep s.c.p) t (axisEvs i s es)))
        (ecmPdoGet ((s.c.ax i).b.out k) s.io) := by
  induction es generalizing s t with
  | nil => rfl
  | cons e es ih =>
    obtain ⟨hp, hn, hstep⟩ := sees_step hi hs e
    have hob : (s.step e).obytes = s.obytes := by cases e <;> rfl
    have hlay' : Layout (s.step e).obytes (s.step e).c.naxes fun j => ((s.step e).c.ax j).b := by
      rw [hob, hn]
      exact hlay.congr fun j hj => bind_step e hj
    have hrest := ih (hn ▸ hi) hstep hlay'
    rw [bind_step e hi, hp, read_step hi hs hlay e k, ← stored_or, ← lastOut_append,
      ← trace_append] at hrest
    exact hrest

/-- The output entries of the set-up have bits of their own, in the output bytes. -/
def Config.Laid (cfg : Config) : Prop :=
  Layout cfg.obytes cfg.axes.length fun j => (cfg.axes[j]?.map AxisSetup.b).getD .zero

instance (cfg : Config) : Decidable cfg.Laid := inferInstanceAs (Decidable (Layout _ _ _))

theorem Config.Laid.boot {cfg : Config} (hlaid : cfg.Laid) :
    Layout cfg.boot.obytes cfg.boot.c.naxes fun j => (cfg.boot.c.ax j).b := by
  have hn : cfg.boot.c.naxes = cfg.axes.length := by
    have hfold := (foldl_addSetup cfg.axes
      (c := ecmCia402SetHomeTimeout (ecmCia402Init cfg.cycleNs cfg.stepTimeoutMs)
        cfg.homeTimeoutMs) (by simpa [ecmCia402SetHomeTimeout, ecmCia402Init] using cfg.few)).1
    simpa [Config.boot, ecmCia402SetHomeTimeout, ecmCia402Init] using hfold
  rw [hn]
  refine Layout.congr hlaid fun j hj => ?_
  rw [← (sees_boot cfg ⟨j, hj⟩).2.axis]
  simp [hj, AxisSetup.init, AxisSetup.start]

/-- The bindings after a run are those of the set-up. -/
theorem bind_of_config (cfg : Config) (evs : List Event) (i : Fin cfg.axes.length) :
    ((run Sys.step cfg.boot evs).c.ax i).b = (cfg.axes.get i).b := by
  rw [← (sees_of_config cfg evs i).axis, run_axStep_cfg]
  rfl

/-- **The image.**  After every run from a set-up, an output entry holds what its
axis wrote last, and 0 before the first write. -/
theorem read_image (cfg : Config) (hlaid : cfg.Laid) (evs : List Event)
    (i : Fin cfg.axes.length) (k : OutObj) :
    ecmPdoGet ((cfg.axes.get i).b.out k) (run Sys.step cfg.boot evs).io =
      stored ((cfg.axes.get i).b.out k)
        (lastOut k (trace (axStep cfg.boot.c.p) (cfg.axes.get i).init (axisEvs i cfg.boot evs)))
        0 := by
  obtain ⟨hi, hs⟩ := sees_boot cfg i
  have hbind : (cfg.boot.c.ax i).b = (cfg.axes.get i).b := bind_of_config cfg [] i
  have hzero : ∀ h : Handle, ecmPdoGet h cfg.boot.io = 0 := by
    intro h
    apply Nat.eq_of_testBit_eq
    intro j
    rw [testBit_ecmPdoGet]
    simp [Config.boot, bitAt]
  have hread := read_run hi hs hlaid.boot evs k
  rw [hbind, hzero] at hread
  exact hread

end EcMaster.Cia402
