import EcMaster.Cia402.Enable
import EcMaster.Cia402.Velocity
import EcMaster.EcmRun.Loop

/-!
# The bus-lost latch on the wire

S5: when the bus is lost, the axes are disabled and stay so until a new
`ENABLE`.  The latch is in the axis, and an axis that is latched commands no
motion (`quiet_axis`).  But without a bus an axis writes nothing, so the image
keeps what it wrote last, and the monitor sends that image in its recovery,
before the next hook with a bus.

`latch_on_wire` says that the latch holds on the wire if the outputs of the axis
are at rest whenever the bus is lost.  `latch_not_on_wire` is a run in which
the axis is enabled when the bus is lost: the monitor's frames carry 0x0F.
-/

namespace EcMaster.EcmRun

open EcMaster.ByteImage EcMaster.Pdo EcMaster.Cia402 EcMaster.Policy EcMaster.Run

/-- The frame commands motion of an axis: the low nibble of its controlword is 0xF
or its 0x60FF is not 0. -/
def Energised (b : Bind) (io : Image) : Prop :=
  ecmPdoGet b.cw io % 16 = 15 ∨ ecmPdoGet b.tvel io ≠ 0

instance (b : Bind) (io : Image) : Decidable (Energised b io) :=
  inferInstanceAs (Decidable (_ ∨ _))

/-! ## An axis without `ENABLE` -/

/-- An axis that is not enabled writes no 0xF and no velocity. -/
theorem quiet_axisRt {p : Params} {h : AxHook} (ring : Xchg.XRing XSp) {a : Axis}
    (ht : a.target ≠ .enabled) :
    (axisRt p h ring a).a.target ≠ .enabled ∧
      (∀ cw ∈ (axisRt p h ring a).out.cw, cw % 16 ≠ 15) ∧
      (a.b.tvel.mapped = true → ∀ v ∈ (axisRt p h ring a).out.tvel, v = 0) := by
  have hpost : (axisRt p h ring a).a.target ≠ .enabled :=
    fun hten => ht (front_target_enabled (axisRt_enabled hten)).1
  refine ⟨hpost, fun cw hcw hf => ht (front_target_enabled (axisRt_nibble hcw hf)).1, ?_⟩
  intro hmap v hv
  cases hlost : h.busLost with
  | true => simp [(axisRt_lost ring a hlost).1, Outputs.silent] at hv
  | false =>
    cases hvel : a.modeReq.velocity with
    | false => simp [axisRt_tvel_none ring hvel] at hv
    | true =>
      obtain ⟨v', hv', hruns⟩ : ∃ v, (axisRt p h ring a).out.tvel = some v ∧
          (v ≠ 0 → (axisRt p h ring a).a.running = true ∧
            (axisRt p h ring a).a.target = .enabled) := by
        cases hm : a.modeReq with
        | csv => exact axisRt_csv ring hlost hm hmap
        | pv => exact axisRt_pv_writes ring hlost hm hmap
        | _ => simp [hm, OpMode.velocity] at hvel
      cases hv.symm.trans hv'
      by_contra hne
      exact hpost (hruns hne).2

/-- What an axis that is not enabled writes. -/
def QuietOut (b : Bind) (q : AxRec) : Prop :=
  q.ev.hook?.isSome = true → (∀ cw ∈ q.post.out.cw, cw % 16 ≠ 15) ∧
    (b.tvel.mapped = true → ∀ v ∈ q.post.out.tvel, v = 0)

/-- One step of an axis that is not enabled. -/
theorem quiet_axStep {p : Params} {t : AxSt} {e : AxEv} (ht : t.a.target ≠ .enabled)
    (hno : ¬ AcceptsEnable ⟨t, e, axStep p t e⟩) :
    (axStep p t e).a.target ≠ .enabled ∧ QuietOut t.a.b ⟨t, e, axStep p t e⟩ := by
  cases e with
  | cmd c xe tick =>
    refine ⟨fun hten => ?_, by simp [QuietOut, AxEv.hook?]⟩
    rcases target_applyCmd (hten : (applyCmd t.shutdown xe tick c t.a).target = _) with
      ⟨hop, hacc, -⟩ | ⟨hwas, -⟩
    · exact hno ⟨c, xe, tick, rfl, hop, hacc⟩
    · exact ht hwas
  | setpoint sp => exact ⟨ht, by simp [QuietOut, AxEv.hook?]⟩
  | shutdown => exact ⟨by simp [axStep], by simp [QuietOut, AxEv.hook?]⟩
  | hook h =>
    obtain ⟨hpost, hcw, hvel⟩ := quiet_axisRt (p := p) (h := h) t.ring ht
    exact ⟨hpost, fun _ => ⟨hcw, hvel⟩⟩

/-- Any number of steps. -/
theorem quiet_axis {p : Params} {b : Bind} (es : List AxEv) :
    ∀ {t : AxSt}, t.a.target ≠ .enabled → t.a.b = b →
      (∀ q ∈ trace (axStep p) t es, ¬ AcceptsEnable q) →
      (run (axStep p) t es).a.target ≠ .enabled ∧
        ∀ q ∈ trace (axStep p) t es, QuietOut b q := by
  induction es with
  | nil => intro t ht _ _; exact ⟨ht, by simp [trace]⟩
  | cons e es ih =>
    intro t ht hb hno
    simp only [trace, List.mem_cons, forall_eq_or_imp] at hno ⊢
    obtain ⟨hpost, hout⟩ := quiet_axStep ht hno.1
    have hb' : (axStep p t e).a.b = b := by rw [axStep_cfg, hb]
    obtain ⟨hend, hrest⟩ := ih hpost hb' hno.2
    exact ⟨hend, hb ▸ hout, hrest⟩

/-! ## The hook and the image -/

/-- The low nibble of a value in an entry. -/
theorem nibble_of_mod {v bits : Nat} (hv : v % 2 ^ bits % 16 = 15) : v % 16 = 15 := by
  by_cases hbits : 4 ≤ bits
  · have hdvd : 16 ∣ 2 ^ bits := Nat.pow_dvd_pow 2 hbits
    rwa [Nat.mod_mod_of_dvd _ hdvd] at hv
  · have hlt : v % 2 ^ bits < 2 ^ bits := Nat.mod_lt _ (Nat.two_pow_pos _)
    have hle : 2 ^ bits ≤ 2 ^ 3 := Nat.pow_le_pow_right (by omega) (by omega)
    omega

/-- A value that was written last was written by some hook. -/
theorem lastOut_mem {k : OutObj} {hist : List AxRec} {v : Nat} (hv : lastOut k hist = some v) :
    ∃ q ∈ hist, q.ev.hook?.isSome = true ∧ q.post.out.raw k = some v := by
  obtain ⟨q, hq, hout⟩ := List.exists_of_findSome?_eq_some hv
  split_ifs at hout with hhook
  exact ⟨q, List.mem_reverse.1 hq, hhook, hout⟩

/-- Entries at rest stay at rest under quiet steps. -/
theorem quiet_stored {b : Bind} {hist : List AxRec} (hquiet : ∀ q ∈ hist, QuietOut b q)
    {io io' : Image} (hrest : ¬ Energised b io)
    (hread : ∀ k, ecmPdoGet (b.out k) io' =
      stored (b.out k) (lastOut k hist) (ecmPdoGet (b.out k) io)) : ¬ Energised b io' := by
  obtain ⟨hcw, htvel⟩ := not_or.1 hrest
  have hcw' : ecmPdoGet b.cw io' = _ := hread .cw
  have htvel' : ecmPdoGet b.tvel io' = _ := hread .tvel
  rintro (hnibble | hvel)
  · rw [hcw'] at hnibble
    cases hlast : lastOut .cw hist with
    | none =>
      rw [hlast] at hnibble
      exact hcw hnibble
    | some v =>
      obtain ⟨q, hq, hhook, hout⟩ := lastOut_mem hlast
      rw [hlast] at hnibble
      exact (hquiet q hq hhook).1 v hout (nibble_of_mod hnibble)
  · rw [htvel'] at hvel
    cases hlast : lastOut .tvel hist with
    | none =>
      rw [hlast] at hvel
      exact htvel hvel
    | some v =>
      obtain ⟨q, hq, hhook, hout⟩ := lastOut_mem hlast
      obtain ⟨w, hw, rfl⟩ := Option.map_eq_some_iff.1 hout
      rw [hlast] at hvel
      cases hmap : b.tvel.mapped with
      | true =>
        rw [(hquiet q hq hhook).2 hmap w hw] at hvel
        exact hvel (by simp [stored, toU64])
      | false =>
        have hbits : b.tvel.bits = 0 := by simpa [Handle.mapped] using hmap
        exact hvel (by simp [stored, Bind.out, hbits, Nat.mod_one])

/-- Axis `i` is bound to `b`, and the entries of the axes have bits of their own. -/
structure Wired (i : Nat) (b : Bind) (s : Sys) : Prop where
  inRange : i < s.c.naxes
  bind : (s.c.ax i).b = b
  lay : Layout s.obytes s.c.naxes fun j => (s.c.ax j).b

theorem Wired.step {i : Nat} {b : Bind} {s : Sys} (hw : Wired i b s) (e : Event) :
    Wired i b (s.step e) := by
  obtain ⟨-, hn, -⟩ := sees_step hw.inRange (sees_axis s.c i) e
  have hob : (s.step e).obytes = s.obytes := by cases e <;> rfl
  refine ⟨hn ▸ hw.inRange, (bind_step e hw.inRange).trans hw.bind, ?_⟩
  rw [hob, hn]
  exact hw.lay.congr fun j hj => bind_step e hj

/-- An event at an axis that is not enabled and whose outputs are at rest. -/
theorem quiet_step {s : Sys} {i : Nat} {b : Bind} {e : Event} (hw : Wired i b s)
    (ht : (s.c.ax i).target ≠ .enabled) (hrest : ¬ Energised b s.io)
    (hno : ∀ q ∈ trace (axStep s.c.p) (s.c.axis i) (axisEvents i s e), ¬ AcceptsEnable q) :
    ((s.step e).c.ax i).target ≠ .enabled ∧ ¬ Energised b (s.step e).io := by
  have hs := sees_axis s.c i
  obtain ⟨hend, hquiet⟩ := quiet_axis (axisEvents i s e) (t := s.c.axis i) ht hw.bind hno
  refine ⟨?_, quiet_stored hquiet hrest fun k => ?_⟩
  · rw [← (sees_step hw.inRange hs e).2.2.axis]
    exact hend
  · have hread := read_step hw.inRange hs hw.lay e k
    rwa [hw.bind] at hread

/-- A hook without a bus disables the axis and leaves its outputs alone. -/
theorem lost_step {s : Sys} {i : Nat} {b : Bind} {env : HookEnv} (hw : Wired i b s)
    (hlost : env.busLost = true) :
    ((s.step (.hook env)).c.ax i).target = .disabled ∧
      ∀ k, ecmPdoGet (b.out k) (s.step (.hook env)).io = ecmPdoGet (b.out k) s.io := by
  have hs := sees_axis s.c i
  have hturn : axisEvents i s (.hook env) =
      hookTurn i env s.c (freshImage s.obytes s.io env.inputs) := rfl
  refine ⟨?_, fun k => ?_⟩
  · rw [← (sees_step hw.inRange hs _).2.2.axis, hturn, hookTurn, run_append]
    exact (axisRt_lost _ _ hlost).2
  · have hread := read_step hw.inRange hs hw.lay (.hook env) k
    rw [hw.bind, hturn, lastOut_hookTurn, hookTurn, run_append, run_cons, run_nil] at hread
    rw [hread, axStep, (axisRt_lost _ _ hlost).1]
    cases k <;> rfl

/-! ## The main loop and the monitor -/

/-- The values of `--pdo-set` are not those of the axis. -/
def Apart (b : Bind) (fixed : List (Handle × Nat)) : Prop :=
  ∀ q ∈ fixed, b.cw.Disjoint q.1 ∧ b.tvel.Disjoint q.1

instance (b : Bind) (fixed : List (Handle × Nat)) : Decidable (Apart b fixed) :=
  inferInstanceAs (Decidable (∀ q ∈ fixed, _))

theorem energised_congr {b : Bind} {io io' : Image} (hcw : ecmPdoGet b.cw io' = ecmPdoGet b.cw io)
    (htvel : ecmPdoGet b.tvel io' = ecmPdoGet b.tvel io) :
    Energised b io' ↔ Energised b io := by
  rw [Energised, hcw, htvel, Energised]

theorem energised_setFixed {b : Bind} {fixed : List (Handle × Nat)} (hap : Apart b fixed)
    (io : Image) : Energised b (setFixed fixed io) ↔ Energised b io := by
  induction fixed generalizing io with
  | nil => rfl
  | cons q fixed ih =>
    obtain ⟨hcw, htvel⟩ := hap q (by simp)
    have hrest := ih (fun q' hq' => hap q' (by simp [hq'])) (ecmPdoSet q.1 io q.2)
    exact hrest.trans (energised_congr (ecmPdoGet_set_disjoint hcw io q.2)
      (ecmPdoGet_set_disjoint htvel io q.2))

/-- The bus state becomes LOST. -/
def EntersLost (r : Rec Master MEvent) : Prop :=
  r.pre.bus.state ≠ .lost ∧ r.post.bus.state = .lost

instance : DecidablePred EntersLost := fun _ => inferInstanceAs (Decidable (_ ∧ _))

/-- The hook of the round accepts an `ENABLE` for axis `i`. -/
def AcceptsIn (i : Nat) (r : Rec Master MEvent) : Prop :=
  match r.ev with
  | .tick x =>
      let s := (rtBus x r.pre).1.toSys
      ∃ q ∈ trace (axStep s.c.p) (s.c.axis i) (axisEvents i s (rtHook x r.pre)), AcceptsEnable q
  | _ => False

instance (i : Nat) : DecidablePred (AcceptsIn i) := fun ⟨_, ev, _⟩ =>
  match ev with
  | .tick _ => inferInstanceAs (Decidable (∃ q ∈ _, AcceptsEnable q))
  | .monitor _ => inferInstanceAs (Decidable False)
  | .app _ => inferInstanceAs (Decidable False)

/-- **The latch on the wire** at one step: if the bus was lost and no `ENABLE` was
accepted since, then no frame of the step commands motion of the axis. -/
def WireQuiet (i : Nat) (b : Bind) (hist : List (Rec Master MEvent))
    (r : Rec Master MEvent) : Prop :=
  Since EntersLost (fun after => ∀ q ∈ after, ¬ AcceptsIn i q) hist →
    ∀ f ∈ r.post.sent, ¬ Energised b f

instance (i : Nat) (b : Bind) (hist : List (Rec Master MEvent)) (r : Rec Master MEvent) :
    Decidable (WireQuiet i b hist r) :=
  inferInstanceAs (Decidable (_ → ∀ f ∈ r.post.sent, ¬ Energised b f))

/-- When the bus is lost the outputs of the axis are at rest already. -/
def RestsWhenLost (b : Bind) (_ : List (Rec Master MEvent)) (r : Rec Master MEvent) : Prop :=
  EntersLost r → ¬ Energised b r.pre.io

instance (b : Bind) (hist : List (Rec Master MEvent)) (r : Rec Master MEvent) :
    Decidable (RestsWhenLost b hist r) :=
  inferInstanceAs (Decidable (EntersLost r → ¬ Energised b r.pre.io))

/-- The round up to the hook changes neither the layer nor, up to the values of
`--pdo-set`, the image; and what it sends is the image. -/
theorem rtBus_spec (x : TickIn) (m : Master) :
    (rtBus x m).1.c = m.c ∧ (rtBus x m).1.obytes = m.obytes ∧
      (rtBus x m).1.pdoSet = m.pdoSet ∧
      (((rtBus x m).1.io = m.io ∧ (rtBus x m).1.sent = []) ∨
        ((rtBus x m).1.io = setFixed m.pdoSet m.io ∧
          (rtBus x m).1.sent = [setFixed m.pdoSet m.io])) := by
  unfold rtBus busTurn
  dsimp only
  split <;> (try split_ifs) <;> simp

/-- What a step of the monitor does to the layer and the image. -/
theorem monitorStep_spec (x : MonitorIn) (m : Master) :
    (monitorStep x m).c = m.c ∧ (monitorStep x m).obytes = m.obytes ∧
      (monitorStep x m).pdoSet = m.pdoSet ∧ (monitorStep x m).bus = m.bus ∧
      (((monitorStep x m).io = m.io ∧ (monitorStep x m).sent = []) ∨
        ((monitorStep x m).io = freshImage m.obytes m.io x.inputs ∧
          (monitorStep x m).sent = [m.io])) := by
  unfold monitorStep pdExchangeAll
  dsimp only
  split <;> (try split_ifs) <;> simp

/-- A call of the application does not write outputs. -/
theorem appStep_spec (e : Event) (m : Master) :
    (appStep e m).io = m.io ∧ (appStep e m).pdoSet = m.pdoSet ∧ (appStep e m).bus = m.bus ∧
      (appStep e m).sent = [] := by
  cases e <;> simp [appStep, Sys.step]

/-! ## The invariant -/

theorem Wired.congr {i : Nat} {b : Bind} {s s' : Sys} (hw : Wired i b s) (hc : s'.c = s.c)
    (hob : s'.obytes = s.obytes) : Wired i b s' := by
  refine ⟨?_, ?_, ?_⟩ <;> rw [hc]
  · exact hw.inRange
  · exact hw.bind
  · rw [hob]
    exact hw.lay

/-- The axis is not enabled and its outputs are at rest. -/
def Quiet (i : Nat) (b : Bind) (s : Sys) : Prop :=
  (s.c.ax i).target ≠ .enabled ∧ ¬ Energised b s.io

theorem wired_master {i : Nat} {b : Bind} {m : Master} (hw : Wired i b m.toSys) (e : MEvent) :
    Wired i b (m.step e).toSys ∧ (m.step e).pdoSet = m.pdoSet := by
  cases e with
  | tick x =>
    obtain ⟨hc, hob, hfix, -⟩ := rtBus_spec x m
    exact ⟨(hw.congr hc hob : Wired i b (rtBus x m).1.toSys).step (rtHook x m), hfix⟩
  | monitor x =>
    obtain ⟨hc, hob, hfix, -⟩ := monitorStep_spec x m
    exact ⟨hw.congr hc hob, hfix⟩
  | app e =>
    refine ⟨?_, (appStep_spec e m).2.1⟩
    cases e with
    | hook env => exact hw
    | cmd axis op arg0 arg1 seq tick => exact hw.step (.cmd axis op arg0 arg1 seq tick)
    | setpoint axis tick v => exact hw.step (.setpoint axis tick v)
    | shutdown => exact hw.step .shutdown

/-- The round up to the hook leaves a quiet axis quiet. -/
theorem energised_rtBus {b : Bind} {m : Master} (hap : Apart b m.pdoSet) (x : TickIn) :
    Energised b (rtBus x m).1.io ↔ Energised b m.io := by
  obtain ⟨-, -, -, ⟨hio, -⟩ | ⟨hio, -⟩⟩ := rtBus_spec x m
  · rw [hio]
  · rw [hio, energised_setFixed hap]

/-- The frames of a step carry the outputs before it. -/
theorem energised_sent {b : Bind} {m : Master} (hap : Apart b m.pdoSet) (e : MEvent) :
    ∀ f ∈ (m.step e).sent, Energised b f ↔ Energised b m.io := by
  intro f hf
  cases e with
  | tick x =>
    have hf : f ∈ (rtBus x m).1.sent := hf
    obtain ⟨-, -, -, ⟨-, hsent⟩ | ⟨-, hsent⟩⟩ := rtBus_spec x m
    · simp [hsent] at hf
    · rw [hsent, List.mem_singleton] at hf
      rw [hf, energised_setFixed hap]
  | monitor x =>
    have hf : f ∈ (monitorStep x m).sent := hf
    obtain ⟨-, -, -, -, ⟨-, hsent⟩ | ⟨-, hsent⟩⟩ := monitorStep_spec x m
    · simp [hsent] at hf
    · rw [hsent, List.mem_singleton] at hf
      rw [hf]
  | app e =>
    have hf : f ∈ (appStep e m).sent := hf
    simp [(appStep_spec e m).2.2.2] at hf

/-- The step that loses the bus: the hook disables the axis and writes nothing. -/
theorem quiet_of_entersLost {i : Nat} {b : Bind} {m : Master} {e : MEvent}
    (hw : Wired i b m.toSys) (hap : Apart b m.pdoSet)
    (hlost : EntersLost ⟨m, e, m.step e⟩) (hrest : ¬ Energised b m.io) :
    Quiet i b (m.step e).toSys := by
  obtain ⟨hpre, hpost⟩ := hlost
  cases e with
  | tick x =>
    obtain ⟨hc, hob, -⟩ := rtBus_spec x m
    have hbus : (rtBus x m).1.bus.state = .lost := hpost
    have henv : (hookEnv x (rtBus x m).1 (rtBus x m).2).busLost = true := by
      simp [hookEnv, hbus, BusState.cyclic]
    have hw' : Wired i b (rtBus x m).1.toSys := hw.congr hc hob
    obtain ⟨htarget, hread⟩ := lost_step hw' henv
    refine ⟨?_, ?_⟩
    · show ((Sys.step (rtBus x m).1.toSys (rtHook x m)).c.ax i).target ≠ .enabled
      rw [rtHook, htarget]
      decide
    · exact fun hen => hrest ((energised_rtBus hap x).1
        ((energised_congr (hread .cw) (hread .tvel)).1 hen))
  | monitor x =>
    have hbus : (monitorStep x m).bus = m.bus := (monitorStep_spec x m).2.2.2.1
    exact absurd (hbus ▸ hpost : m.bus.state = .lost) hpre
  | app e =>
    have hbus : (appStep e m).bus = m.bus := (appStep_spec e m).2.2.1
    exact absurd (hbus ▸ hpost : m.bus.state = .lost) hpre

/-- A step that accepts no `ENABLE` leaves a quiet axis quiet. -/
theorem Quiet.step {i : Nat} {b : Bind} {m : Master} {e : MEvent} (hq : Quiet i b m.toSys)
    (hw : Wired i b m.toSys) (hap : Apart b m.pdoSet)
    (hno : ¬ AcceptsIn i ⟨m, e, m.step e⟩) : Quiet i b (m.step e).toSys := by
  obtain ⟨ht, hrest⟩ := hq
  cases e with
  | tick x =>
    obtain ⟨hc, hob, -⟩ := rtBus_spec x m
    apply quiet_step (hw.congr hc hob : Wired i b (rtBus x m).1.toSys)
    · rw [hc]
      exact ht
    · exact fun hen => hrest ((energised_rtBus hap x).1 hen)
    · exact fun q hq hacc => hno ⟨q, hq, hacc⟩
  | monitor x =>
    obtain ⟨hc, -, -, -, hio⟩ := monitorStep_spec x m
    have hin := fun k => hw.bind ▸ hw.lay.inside i hw.inRange k
    have hsame : Energised b (monitorStep x m).io ↔ Energised b m.io := by
      rcases hio with ⟨hio, -⟩ | ⟨hio, -⟩
      · rw [hio]
      · rw [hio]
        exact energised_congr (read_freshImage (hin .cw) _ _) (read_freshImage (hin .tvel) _ _)
    refine ⟨?_, fun hen => hrest (hsame.1 hen)⟩
    show ((monitorStep x m).c.ax i).target ≠ .enabled
    rw [hc]
    exact ht
  | app e =>
    cases e with
    | hook env => exact ⟨ht, hrest⟩
    | cmd axis op arg0 arg1 seq tick =>
      exact quiet_step (e := .cmd axis op arg0 arg1 seq tick) hw ht hrest
        (by simp [axisEvents, trace])
    | setpoint axis tick v =>
      refine quiet_step (e := .setpoint axis tick v) hw ht hrest ?_
      rintro q hq ⟨c, xe, t, hev, -⟩
      have hmem := List.mem_map_of_mem (f := Rec.ev) hq
      rw [map_ev_trace, hev] at hmem
      simp [axisEvents] at hmem
    | shutdown =>
      exact quiet_step (e := .shutdown) hw ht hrest
        (by simp [axisEvents, trace, AcceptsEnable])

/-- What carries the latch over a run. -/
structure LatchInv (i : Nat) (b : Bind) (fixed : List (Handle × Nat))
    (hist : List (Rec Master MEvent)) (m : Master) : Prop where
  wired : Wired i b m.toSys
  pdoSet : m.pdoSet = fixed
  quiet : Since EntersLost (fun after => ∀ q ∈ after, ¬ AcceptsIn i q) hist → Quiet i b m.toSys

theorem LatchInv.step {i : Nat} {b : Bind} {fixed : List (Handle × Nat)}
    {hist : List (Rec Master MEvent)} {m : Master} {e : MEvent} (hap : Apart b fixed)
    (hinv : LatchInv i b fixed hist m) (hrest : RestsWhenLost b hist ⟨m, e, m.step e⟩) :
    LatchInv i b fixed (hist ++ [⟨m, e, m.step e⟩]) (m.step e) := by
  obtain ⟨hw, hfix, hquiet⟩ := hinv
  obtain ⟨hw', hfix'⟩ := wired_master hw e
  refine ⟨hw', hfix'.trans hfix, fun hsince => ?_⟩
  have hap : Apart b m.pdoSet := hfix ▸ hap
  rcases hsince.of_concat with hlost | ⟨hbefore, hno⟩
  · exact quiet_of_entersLost hw hap hlost (hrest hlost)
  · exact (hquiet hbefore).step hw hap hno

/-- **S5 on the wire.**  In every run of the main loop and the monitor in which the
outputs of the axis are at rest whenever the bus is lost, no frame after the loss
commands motion of the axis before a new `ENABLE` is accepted. -/
theorem latch_on_wire (cfg : Config) (hlaid : cfg.Laid) (busCfg : BusCfg)
    (fixed : List (Handle × Nat)) (recoverEnabled : Bool) (i : Fin cfg.axes.length)
    (hap : Apart (cfg.axes.get i).b fixed) (evs : List MEvent)
    (hrest : Along Master.step (start cfg busCfg fixed recoverEnabled) evs
      (RestsWhenLost (cfg.axes.get i).b)) :
    Along Master.step (start cfg busCfg fixed recoverEnabled) evs
      (WireQuiet i (cfg.axes.get i).b) := by
  refine Along.of_invariant (I := LatchInv i (cfg.axes.get i).b fixed) ?_ ?_ ?_ hrest
  · obtain ⟨hi, hs⟩ := sees_boot cfg i
    exact ⟨⟨hi, bind_of_config cfg [] i, hlaid.boot⟩, rfl, fun hs => absurd hs (since_nil _ _)⟩
  · exact fun hist m e hinv hC => hinv.step hap hC
  · intro hist m e hinv _ hsince f hf hen
    have hap : Apart (cfg.axes.get i).b m.pdoSet := hinv.pdoSet ▸ hap
    exact (hinv.quiet hsince).2 ((energised_sent hap e f hf).1 hen)

/-! ## A small bus -/

/-- The bus is lost after one round without a frame. -/
def smallBus : BusCfg := { nLost := 1, probeTicks := 1, recoverBackoffTicks := 1 }

/-- A round with a statusword in the mode csp. -/
def smallTick (motionClass : WkcClass) (sw : Nat) : MEvent :=
  .tick
    { motionClass := motionClass, ioClass := none, brdWkc := 1, tSendNs := 0
      inputs := smallInputs sw 0 8, xeCmd := fun _ => .none, xeRt := fun _ => .none }

/-- A step of the monitor that does not find the slaves in OP yet. -/
def smallMonitor : MEvent :=
  .monitor { inputs := fun _ => 0, allOp := false, timedOut := false, anyOp := true }

/-- The axis is disabled before the bus is lost: the frames of the recovery do not
move it. -/
theorem latch_on_wire_small :
    Along Master.step (start smallConfig smallBus [] true)
      [.app (smallCmd .enable 0), smallTick .wkcOk 0x27, .app (smallCmd .disable 0),
        smallTick .wkcOk 0x27, smallTick .wkcNoframe 0x27, smallTick .wkcNoframe 0x27,
        smallMonitor, smallMonitor, smallMonitor] (WireQuiet 0 smallBind) :=
  latch_on_wire smallConfig (by decide) smallBus [] true ⟨0, by decide⟩ (by decide) _
    (by decide +kernel)

/-- The axis is in Operation enabled when the bus is lost.  The monitor then sends
the controlword 0x0F from the image. -/
theorem latch_not_on_wire :
    smallConfig.Laid ∧ Apart smallBind [] ∧
      ¬ Along Master.step (start smallConfig smallBus [] true)
        [.app (smallCmd .enable 0), smallTick .wkcOk 0x27, smallTick .wkcNoframe 0x27,
          smallTick .wkcNoframe 0x27, smallMonitor, smallMonitor] (WireQuiet 0 smallBind) := by
  decide +kernel

end EcMaster.EcmRun
