import EcMaster.Lib.Run
import EcMaster.Policy.Bus

/-!
# Runs of the bus state machine

The bus state machine has no memory of its own beyond a run length and one
flag, and it is called from one place of the cycle for each of its functions.
This file says what it has done after any list of calls, including calls that
its state does not expect, which it ignores.

What is remembered is stated over the history of the calls, not over the fields
of the machine:

* `noframes` is the length of the current run of motion cycles without a frame;
* `lastIo` is the last IO class reported;

both since the machine was initialised or last recovered.  `BusInv` ties the
fields to them.  A call moves the machine along one edge and emits one event,
or leaves it where it is (`BusFsm.call_moves`), so the events replay to the
state.

`entered` counts the events by their target, except that the machine starts with
one entry into RUN that no event reports.
-/

namespace EcMaster.Policy

open EcMaster.Run

/-- A call of the bus state machine. -/
inductive BusCall where
  | onCycle (tick : Nat) (motionClass : WkcClass) (ioClass : Option WkcClass)
  | onProbe (tick : Nat) (brdWkc : Int)
  | onRecoverDone (tick : Nat) (ok : Bool)
deriving DecidableEq, Repr

def BusFsm.call (f : BusFsm) : BusCall → BusFsm × Option BusEvent
  | .onCycle tick motionClass ioClass => ecmBusOnCycle f tick motionClass ioClass
  | .onProbe tick brdWkc => ecmBusOnProbe f tick brdWkc
  | .onRecoverDone tick ok => ecmBusOnRecoverDone f tick ok

def BusFsm.step (f : BusFsm) (c : BusCall) : BusFsm := (f.call c).1

/-- The events emitted by the calls of a history. -/
def busEvents (hist : List (Rec BusFsm BusCall)) : List BusEvent :=
  hist.filterMap fun r => (r.pre.call r.ev).2

/-! ## The edges and their replay -/

/-- The edges of the state diagram. -/
def BusState.edge : BusState → BusState → Bool
  | .run, .degraded | .degraded, .run => true
  | .run, .lost | .degraded, .lost => true
  | .lost, .recover => true
  | .recover, .run | .recover, .lost => true
  | _, _ => false

/-- The state that a list of events leads to, if each starts where the one
before it ended and follows an edge. -/
def replay : BusState → List BusEvent → Option BusState
  | s, [] => some s
  | s, e :: es => if e.source = s ∧ s.edge e.target then replay e.target es else none

theorem replay_concat {s t : BusState} {es : List BusEvent} {e : BusEvent}
    (hes : replay s es = some t) (hsource : e.source = t) (hedge : t.edge e.target) :
    replay s (es ++ [e]) = some e.target := by
  induction es generalizing s with
  | nil =>
    obtain rfl : s = t := by simpa [replay] using hes
    simp [replay, hsource, hedge]
  | cons d es ih =>
    simp only [replay] at hes
    split at hes
    · rename_i hd
      simp only [List.cons_append, replay, if_pos hd]
      exact ih hes
    · cases hes

/-! ## What one call does -/

/-- A call leaves the machine in its state, or moves it along an edge and emits
the event of that. -/
inductive BusMove (f f' : BusFsm) : Option BusEvent → Prop where
  | stays (hstate : f'.state = f.state) (hentered : f'.entered = f.entered) : BusMove f f' none
  | goes (e : BusEvent) (hsource : e.source = f.state) (htarget : e.target = f'.state)
      (hedge : f.state.edge f'.state)
      (hentered : f'.entered = Function.update f.entered e.target (f.entered e.target + 1)) :
      BusMove f f' (some e)

/-- A cycle accounted: the run of cycles without a frame, and the IO class. -/
def BusFsm.account (f : BusFsm) (motionClass : WkcClass) (ioClass : Option WkcClass) : BusFsm :=
  { f with
    noframeRun := if motionClass = .wkcNoframe then f.noframeRun + 1 else 0
    ioOk := match ioClass with
      | some c => c = .wkcOk
      | none => f.ioOk
    ioLastClass := ioClass.getD f.ioLastClass }

/-- The state after a cycle, which the accounted machine decides. -/
def BusFsm.cycled (f : BusFsm) (motionClass : WkcClass) : BusState :=
  if f.noframeRun ≥ f.cfg.nLost then .lost
  else if motionClass = .wkcOk ∧ f.ioOk then .run
  else .degraded

/-- What a call of `ecm_bus_on_cycle` in RUN or DEGRADED leaves behind. -/
structure CycleDone (f : BusFsm) (motionClass : WkcClass) (ioClass : Option WkcClass)
    (f' : BusFsm) (e : Option BusEvent) : Prop where
  state : f'.state = (f.account motionClass ioClass).cycled motionClass
  noframeRun : f'.noframeRun = (f.account motionClass ioClass).noframeRun
  ioOk : f'.ioOk = (f.account motionClass ioClass).ioOk
  cfg : f'.cfg = f.cfg
  move : BusMove f f' e

/-- The second half of `ecm_bus_on_cycle`, from the accounted machine. -/
def BusFsm.decided (g : BusFsm) (tick : Nat) (motionClass : WkcClass) :
    BusFsm × Option BusEvent :=
  if g.noframeRun ≥ g.cfg.nLost then
    { g with nextProbeTick := tick + 1 }.go tick .lost WkcClass.wkcNoframe.code 0
  else if g.state = .run ∧ (motionClass ≠ .wkcOk ∨ !g.ioOk) then
    g.go tick .degraded (if motionClass ≠ .wkcOk then motionClass.code else g.ioLastClass.code)
      (if motionClass ≠ .wkcOk then 0 else 1)
  else if g.state = .degraded ∧ ¬ (motionClass ≠ .wkcOk ∨ !g.ioOk) then
    g.go tick .run WkcClass.wkcOk.code 0
  else (g, none)

theorem ecmBusOnCycle_cyclic {f : BusFsm} (hcyclic : f.state.cyclic) (tick : Nat)
    (motionClass : WkcClass) (ioClass : Option WkcClass) :
    ecmBusOnCycle f tick motionClass ioClass =
      (f.account motionClass ioClass).decided tick motionClass :=
  if_neg (by simp [hcyclic])

theorem ecmBusOnCycle_spec {f : BusFsm} (hcyclic : f.state.cyclic) (tick : Nat)
    (motionClass : WkcClass) (ioClass : Option WkcClass) :
    CycleDone f motionClass ioClass (f.step (.onCycle tick motionClass ioClass))
      (f.call (.onCycle tick motionClass ioClass)).2 := by
  rw [BusFsm.step, BusFsm.call, ecmBusOnCycle_cyclic hcyclic, BusFsm.decided]
  have hrun : f.state = .run ∨ f.state = .degraded := by
    revert hcyclic
    cases f.state <;> simp [BusState.cyclic]
  by_cases hn : (f.account motionClass ioClass).noframeRun ≥
      (f.account motionClass ioClass).cfg.nLost
  · have hedge : f.state.edge .lost := by rcases hrun with h | h <;> rw [h] <;> rfl
    have hcycled : (f.account motionClass ioClass).cycled motionClass = .lost := if_pos hn
    rw [if_pos hn]
    exact ⟨hcycled.symm, rfl, rfl, rfl, .goes _ rfl rfl hedge rfl⟩
  rw [if_neg hn]
  by_cases hbad : motionClass ≠ .wkcOk ∨ !(f.account motionClass ioClass).ioOk
  · have hcycled : (f.account motionClass ioClass).cycled motionClass = .degraded := by
      rw [BusFsm.cycled, if_neg hn, if_neg (by simpa [imp_iff_not_or] using hbad)]
    rcases hrun with hs | hs
    · have hedge : f.state.edge .degraded := by rw [hs]; rfl
      rw [if_pos ⟨hs, hbad⟩]
      exact ⟨hcycled.symm, rfl, rfl, rfl, .goes _ rfl rfl hedge rfl⟩
    · have hne : f.state ≠ .run := by rw [hs]; decide
      rw [if_neg fun h => hne h.1, if_neg fun h => h.2 hbad]
      exact ⟨hs.trans hcycled.symm, rfl, rfl, rfl, .stays rfl rfl⟩
  · have hcycled : (f.account motionClass ioClass).cycled motionClass = .run := by
      rw [BusFsm.cycled, if_neg hn, if_pos (by simpa using hbad)]
    rw [if_neg fun h => hbad h.2]
    rcases hrun with hs | hs
    · have hne : f.state ≠ .degraded := by rw [hs]; decide
      rw [if_neg fun h => hne h.1]
      exact ⟨hs.trans hcycled.symm, rfl, rfl, rfl, .stays rfl rfl⟩
    · have hedge : f.state.edge .run := by rw [hs]; rfl
      rw [if_pos ⟨hs, hbad⟩]
      exact ⟨hcycled.symm, rfl, rfl, rfl, .goes _ rfl rfl hedge rfl⟩

theorem ecmBusOnProbe_move (f : BusFsm) (tick : Nat) (brdWkc : Int) :
    BusMove f (ecmBusOnProbe f tick brdWkc).1 (ecmBusOnProbe f tick brdWkc).2 := by
  unfold ecmBusOnProbe
  by_cases hs : f.state = .lost
  · have hedge : f.state.edge .recover := by rw [hs]; rfl
    rw [if_neg (not_not_intro hs)]
    split
    · exact .goes _ rfl rfl hedge rfl
    · exact .stays rfl rfl
  · rw [if_pos hs]
    exact .stays rfl rfl

theorem ecmBusOnRecoverDone_move (f : BusFsm) (tick : Nat) (ok : Bool) :
    BusMove f (ecmBusOnRecoverDone f tick ok).1 (ecmBusOnRecoverDone f tick ok).2 := by
  unfold ecmBusOnRecoverDone
  by_cases hs : f.state = .recover
  · have hrun : f.state.edge .run := by rw [hs]; rfl
    have hlost : f.state.edge .lost := by rw [hs]; rfl
    rw [if_neg (not_not_intro hs)]
    split
    · exact .goes _ rfl rfl hrun rfl
    · exact .goes _ rfl rfl hlost rfl
  · rw [if_pos hs]
    exact .stays rfl rfl

/-- A cycle in LOST or RECOVER is not accounted. -/
theorem ecmBusOnCycle_ignored {f : BusFsm} (hcyclic : ¬ f.state.cyclic) (tick : Nat)
    (motionClass : WkcClass) (ioClass : Option WkcClass) :
    ecmBusOnCycle f tick motionClass ioClass = (f, none) :=
  if_pos (by simpa using hcyclic)

theorem BusFsm.call_moves (f : BusFsm) (c : BusCall) : BusMove f (f.step c) (f.call c).2 := by
  cases c with
  | onCycle tick motionClass ioClass =>
    by_cases hcyclic : f.state.cyclic
    · exact (ecmBusOnCycle_spec hcyclic tick motionClass ioClass).move
    · simp only [BusFsm.step, BusFsm.call, ecmBusOnCycle_ignored hcyclic]
      exact .stays rfl rfl
  | onProbe tick brdWkc => exact ecmBusOnProbe_move f tick brdWkc
  | onRecoverDone tick ok => exact ecmBusOnRecoverDone_move f tick ok

/-- A probe that leaves the machine in RUN or DEGRADED was ignored. -/
theorem ecmBusOnProbe_cyclic {f : BusFsm} {tick : Nat} {brdWkc : Int}
    (hcyclic : (ecmBusOnProbe f tick brdWkc).1.state.cyclic) :
    (ecmBusOnProbe f tick brdWkc).1 = f := by
  by_cases hs : f.state = .lost
  · have hpost : ¬ (ecmBusOnProbe f tick brdWkc).1.state.cyclic := by
      rw [ecmBusOnProbe, if_neg (not_not_intro hs)]
      split
      · exact Bool.false_ne_true
      · rw [hs]
        exact Bool.false_ne_true
    exact absurd hcyclic hpost
  · rw [ecmBusOnProbe, if_pos hs]

/-- The call reports the success of a recovery that the machine waits for. -/
def recovers (r : Rec BusFsm BusCall) : Bool :=
  match r.ev with
  | .onRecoverDone _ ok => ok && r.pre.state = .recover
  | _ => false

/-- After the end of a recovery was reported, the machine in RUN or DEGRADED has
recovered with nothing remembered, or it has ignored the report. -/
theorem ecmBusOnRecoverDone_cyclic {f : BusFsm} {tick : Nat} {ok : Bool}
    (hcyclic : (ecmBusOnRecoverDone f tick ok).1.state.cyclic) :
    (ok = true ∧ f.state = .recover ∧ (ecmBusOnRecoverDone f tick ok).1.noframeRun = 0 ∧
      (ecmBusOnRecoverDone f tick ok).1.ioOk = true) ∨
    (f.state ≠ .recover ∧ (ecmBusOnRecoverDone f tick ok).1 = f) := by
  by_cases hs : f.state = .recover
  · cases ok with
    | true => exact .inl ⟨rfl, hs, by simp [ecmBusOnRecoverDone, hs, BusFsm.go]⟩
    | false => simp [ecmBusOnRecoverDone, hs, BusFsm.go, BusState.cyclic] at hcyclic
  · exact .inr ⟨hs, by rw [ecmBusOnRecoverDone, if_pos hs]⟩

theorem BusFsm.step_cfg (f : BusFsm) (c : BusCall) : (f.step c).cfg = f.cfg := by
  cases c with
  | onCycle tick motionClass ioClass =>
    by_cases hcyclic : f.state.cyclic
    · exact (ecmBusOnCycle_spec hcyclic tick motionClass ioClass).cfg
    · simp only [BusFsm.step, BusFsm.call, ecmBusOnCycle_ignored hcyclic]
  | onProbe tick brdWkc =>
    simp only [BusFsm.step, BusFsm.call, ecmBusOnProbe]
    split_ifs <;> rfl
  | onRecoverDone tick ok =>
    simp only [BusFsm.step, BusFsm.call, ecmBusOnRecoverDone]
    split_ifs <;> rfl

/-! ## What the history says -/

/-- The motion cycles without a frame since the last other class, the last
recovery or the start. -/
def noframes (hist : List (Rec BusFsm BusCall)) : Nat :=
  hist.foldl
    (fun n r =>
      match r.ev with
      | .onCycle _ motionClass _ => if motionClass = .wkcNoframe then n + 1 else 0
      | _ => if recovers r then 0 else n) 0

/-- The last IO class reported since the last recovery or the start. -/
def lastIo (hist : List (Rec BusFsm BusCall)) : Option WkcClass :=
  hist.foldl
    (fun c r =>
      match r.ev with
      | .onCycle _ _ ioClass => ioClass.or c
      | _ => if recovers r then none else c) none

/-- The events into a state. -/
def entries (s : BusState) (es : List BusEvent) : Nat := es.countP fun e => e.target = s

/-- The machine after a history of calls, `nLost` being its threshold. -/
structure BusInv (nLost : Nat) (hist : List (Rec BusFsm BusCall)) (f : BusFsm) : Prop where
  replays : replay .run (busEvents hist) = some f.state
  entered : ∀ s, f.entered s = entries s (busEvents hist) + if s = .run then 1 else 0
  threshold : f.cfg.nLost = nLost
  noframeRun : f.state.cyclic → f.noframeRun = noframes hist ∧ noframes hist < nLost
  ioOk : f.state.cyclic → (f.ioOk ↔ ∀ c ∈ lastIo hist, c = .wkcOk)

theorem busEvents_concat (hist : List (Rec BusFsm BusCall)) (f : BusFsm) (c : BusCall) :
    busEvents (hist ++ [⟨f, c, f.step c⟩]) = busEvents hist ++ (f.call c).2.toList := by
  rw [busEvents, filterMap_concat]
  rfl

theorem noframes_concat (hist : List (Rec BusFsm BusCall)) (r : Rec BusFsm BusCall) :
    noframes (hist ++ [r]) =
      match r.ev with
      | .onCycle _ motionClass _ => if motionClass = .wkcNoframe then noframes hist + 1 else 0
      | _ => if recovers r then 0 else noframes hist := by
  simp only [noframes, List.foldl_append, List.foldl_cons, List.foldl_nil]

theorem lastIo_concat (hist : List (Rec BusFsm BusCall)) (r : Rec BusFsm BusCall) :
    lastIo (hist ++ [r]) =
      match r.ev with
      | .onCycle _ _ ioClass => ioClass.or (lastIo hist)
      | _ => if recovers r then none else lastIo hist := by
  simp only [lastIo, List.foldl_append, List.foldl_cons, List.foldl_nil]

variable {nLost : Nat} {hist : List (Rec BusFsm BusCall)} {f : BusFsm}

theorem BusInv.replays_step (hI : BusInv nLost hist f) (c : BusCall) :
    replay .run (busEvents (hist ++ [⟨f, c, f.step c⟩])) = some (f.step c).state := by
  rw [busEvents_concat]
  have hmove := f.call_moves c
  generalize (f.call c).2 = ev at hmove ⊢
  cases hmove with
  | stays hstate => rw [hstate, ← hI.replays]; simp
  | goes e hsource htarget hedge =>
    rw [← htarget] at hedge ⊢
    exact replay_concat hI.replays hsource hedge

theorem BusInv.entered_step (hI : BusInv nLost hist f) (c : BusCall) (s : BusState) :
    (f.step c).entered s =
      entries s (busEvents (hist ++ [⟨f, c, f.step c⟩])) + if s = .run then 1 else 0 := by
  rw [busEvents_concat]
  have hmove := f.call_moves c
  generalize (f.call c).2 = ev at hmove ⊢
  cases hmove with
  | stays _ hentered => rw [hentered, hI.entered]; simp [entries]
  | goes e _ _ _ hentered =>
    rw [hentered]
    by_cases hs : s = e.target
    · subst hs
      rw [Function.update_self, hI.entered]
      simp only [entries, Option.toList_some, List.countP_append, List.countP_singleton,
        decide_true, if_true]
      omega
    · rw [Function.update_of_ne hs, hI.entered]
      simp [entries, Ne.symm hs]

/-- The accounted machine remembers what the history with the cycle says. -/
theorem BusInv.account (hI : BusInv nLost hist f) (hcyclic : f.state.cyclic) (tick : Nat)
    (motionClass : WkcClass) (ioClass : Option WkcClass) (f' : BusFsm) :
    (f.account motionClass ioClass).noframeRun =
        noframes (hist ++ [⟨f, .onCycle tick motionClass ioClass, f'⟩]) ∧
      ((f.account motionClass ioClass).ioOk ↔
        ∀ c ∈ lastIo (hist ++ [⟨f, .onCycle tick motionClass ioClass, f'⟩]), c = .wkcOk) := by
  rw [noframes_concat, lastIo_concat]
  refine ⟨?_, ?_⟩
  · rw [← (hI.noframeRun hcyclic).1]
    rfl
  · cases ioClass with
    | none => exact hI.ioOk hcyclic
    | some c => simp [BusFsm.account]

/-- A cycle loses the bus exactly when it is the `nLost`-th in a row without a
frame. -/
theorem BusInv.cycled_lost (hI : BusInv nLost hist f) (hn : 1 ≤ nLost) (hcyclic : f.state.cyclic)
    (motionClass : WkcClass) (ioClass : Option WkcClass) :
    (f.account motionClass ioClass).cycled motionClass = .lost ↔
      motionClass = .wkcNoframe ∧ (f.account motionClass ioClass).noframeRun = nLost := by
  have hcfg : (f.account motionClass ioClass).cfg.nLost = nLost := hI.threshold
  have hbound : f.noframeRun < nLost := by
    rw [(hI.noframeRun hcyclic).1]
    exact (hI.noframeRun hcyclic).2
  have hrun : (f.account motionClass ioClass).noframeRun =
      if motionClass = .wkcNoframe then f.noframeRun + 1 else 0 := rfl
  rw [BusFsm.cycled, hcfg]
  by_cases hm : motionClass = .wkcNoframe
  · rw [if_pos hm] at hrun
    split_ifs with h₁ h₂
    · exact ⟨fun _ => ⟨hm, by omega⟩, fun _ => rfl⟩
    · simp [hm] at h₂
    · exact ⟨nofun, fun h => by omega⟩
  · rw [if_neg hm] at hrun
    rw [hrun, if_neg (by omega)]
    split_ifs <;> simp [hm]

theorem BusInv.step (hn : 1 ≤ nLost) (hI : BusInv nLost hist f) (c : BusCall) :
    BusInv nLost (hist ++ [⟨f, c, f.step c⟩]) (f.step c) := by
  suffices hkeeps : (f.step c).state.cyclic →
      ((f.step c).noframeRun = noframes (hist ++ [⟨f, c, f.step c⟩]) ∧
        noframes (hist ++ [⟨f, c, f.step c⟩]) < nLost) ∧
      ((f.step c).ioOk ↔ ∀ c' ∈ lastIo (hist ++ [⟨f, c, f.step c⟩]), c' = .wkcOk) from
    { replays := hI.replays_step c
      entered := hI.entered_step c
      threshold := (congrArg BusCfg.nLost (f.step_cfg c)).trans hI.threshold
      noframeRun := fun h => (hkeeps h).1
      ioOk := fun h => (hkeeps h).2 }
  intro hpost
  cases c with
  | onCycle tick motionClass ioClass =>
    by_cases hcyclic : f.state.cyclic
    · have hdone := ecmBusOnCycle_spec hcyclic tick motionClass ioClass
      obtain ⟨hrun, hio⟩ := hI.account hcyclic tick motionClass ioClass
        (f.step (.onCycle tick motionClass ioClass))
      have hcfg : (f.account motionClass ioClass).cfg.nLost = nLost := hI.threshold
      have hkept : ¬ (f.account motionClass ioClass).noframeRun ≥ nLost := by
        intro hlost
        have hstate : (f.step (.onCycle tick motionClass ioClass)).state = .lost := by
          rw [← hcfg] at hlost
          exact hdone.state.trans (if_pos hlost)
        rw [hstate] at hpost
        exact Bool.false_ne_true hpost
      rw [← hrun, ← hio]
      exact ⟨⟨hdone.noframeRun, Nat.lt_of_not_le hkept⟩, by rw [hdone.ioOk]⟩
    · have hsame : f.step (.onCycle tick motionClass ioClass) = f := by
        simp only [BusFsm.step, BusFsm.call, ecmBusOnCycle_ignored hcyclic]
      rw [hsame] at hpost
      exact absurd hpost hcyclic
  | onProbe tick brdWkc =>
    have hsame : f.step (.onProbe tick brdWkc) = f := ecmBusOnProbe_cyclic hpost
    rw [hsame] at hpost ⊢
    rw [noframes_concat, lastIo_concat]
    exact ⟨hI.noframeRun hpost, hI.ioOk hpost⟩
  | onRecoverDone tick ok =>
    rw [noframes_concat, lastIo_concat]
    rcases ecmBusOnRecoverDone_cyclic hpost with ⟨hok, hs, hrun, hio⟩ | ⟨hs, hsame⟩
    · have hrec : recovers ⟨f, .onRecoverDone tick ok, f.step (.onRecoverDone tick ok)⟩ := by
        simp [recovers, hok, hs]
      simp only [hrec, if_true]
      exact ⟨⟨hrun, by omega⟩, by simp [BusFsm.step, BusFsm.call, hio]⟩
    · have hrec : ¬ recovers ⟨f, .onRecoverDone tick ok, f.step (.onRecoverDone tick ok)⟩ := by
        simp [recovers, hs]
      have hsame : f.step (.onRecoverDone tick ok) = f := hsame
      simp only [if_neg hrec]
      rw [hsame] at hpost ⊢
      exact ⟨hI.noframeRun hpost, hI.ioOk hpost⟩

/-! ## Every run -/

/-- LOST is entered from RUN or DEGRADED at the cycle that is the `nLost`-th in a
row without a frame, and at no other call. -/
def LosesExactly (nLost : Nat) (hist : List (Rec BusFsm BusCall)) (r : Rec BusFsm BusCall) : Prop :=
  r.pre.state.cyclic →
    (r.post.state = .lost ↔
      (∃ tick ioClass, r.ev = .onCycle tick .wkcNoframe ioClass) ∧
        noframes (hist ++ [r]) = nLost)

/-- After a cycle that does not lose the bus, the state is RUN exactly when the
motion class of the cycle and the last IO class are OK. -/
def RunsExactly (hist : List (Rec BusFsm BusCall)) (r : Rec BusFsm BusCall) : Prop :=
  ∀ tick motionClass ioClass, r.ev = .onCycle tick motionClass ioClass →
    r.pre.state.cyclic → r.post.state ≠ .lost →
    (r.post.state = .run ↔
      motionClass = .wkcOk ∧ ∀ c ∈ lastIo (hist ++ [r]), c = .wkcOk)

theorem BusInv.init (cfg : BusCfg) (hn : 1 ≤ cfg.nLost) :
    BusInv cfg.nLost [] (ecmBusInit cfg) where
  replays := rfl
  entered s := by
    by_cases hs : s = .run <;> simp [ecmBusInit, busEvents, entries, hs]
  threshold := if_neg (by omega)
  noframeRun _ := ⟨rfl, hn⟩
  ioOk _ := by simp [ecmBusInit, lastIo]

theorem BusInv.losesExactly (hI : BusInv nLost hist f) (hn : 1 ≤ nLost) (c : BusCall) :
    LosesExactly nLost hist ⟨f, c, f.step c⟩ := by
  change f.state.cyclic → _
  intro hcyclic
  cases c with
  | onCycle tick motionClass ioClass =>
    have hdone := ecmBusOnCycle_spec hcyclic tick motionClass ioClass
    obtain ⟨hrun, -⟩ := hI.account hcyclic tick motionClass ioClass
      (f.step (.onCycle tick motionClass ioClass))
    have hlost := hI.cycled_lost hn hcyclic motionClass ioClass
    rw [← hdone.state, hrun] at hlost
    simpa using hlost
  | onProbe tick brdWkc =>
    have hne : f.state ≠ .lost := by intro h; rw [h] at hcyclic; cases hcyclic
    have hsame : f.step (.onProbe tick brdWkc) = f := by
      simp [BusFsm.step, BusFsm.call, ecmBusOnProbe, hne]
    simp [hsame, hne]
  | onRecoverDone tick ok =>
    have hne : f.state ≠ .lost := by intro h; rw [h] at hcyclic; cases hcyclic
    have hnr : f.state ≠ .recover := by intro h; rw [h] at hcyclic; cases hcyclic
    have hsame : f.step (.onRecoverDone tick ok) = f := by
      simp [BusFsm.step, BusFsm.call, ecmBusOnRecoverDone, hnr]
    simp [hsame, hne]

theorem BusInv.runsExactly (hI : BusInv nLost hist f) (c : BusCall) :
    RunsExactly hist ⟨f, c, f.step c⟩ := by
  intro tick motionClass ioClass
  change c = _ → f.state.cyclic → (f.step c).state ≠ .lost → ((f.step c).state = .run ↔ _)
  rintro rfl hcyclic hkept
  have hdone := ecmBusOnCycle_spec hcyclic tick motionClass ioClass
  obtain ⟨-, hio⟩ := hI.account hcyclic tick motionClass ioClass
    (f.step (.onCycle tick motionClass ioClass))
  rw [← hio, hdone.state, BusFsm.cycled]
  rw [hdone.state, BusFsm.cycled] at hkept
  split_ifs at hkept ⊢ with h₁ h₂
  · exact absurd rfl hkept
  · exact ⟨fun _ => h₂, fun _ => rfl⟩
  · exact ⟨nofun, fun h => absurd h h₂⟩

/-- For every list of calls of the machine: its events are a path of the state
diagram from RUN to its state; it loses the bus and returns to RUN exactly when
the history says so; and it has counted each state once for every event into
it, and RUN once more for the start. -/
theorem bus_follows_history (cfg : BusCfg) (hn : 1 ≤ cfg.nLost) (calls : List BusCall) :
    replay .run (busEvents (trace BusFsm.step (ecmBusInit cfg) calls)) =
        some (run BusFsm.step (ecmBusInit cfg) calls).state ∧
      Along BusFsm.step (ecmBusInit cfg) calls (LosesExactly cfg.nLost) ∧
      Along BusFsm.step (ecmBusInit cfg) calls RunsExactly ∧
      ∀ s, (run BusFsm.step (ecmBusInit cfg) calls).entered s =
        entries s (busEvents (trace BusFsm.step (ecmBusInit cfg) calls)) +
          if s = .run then 1 else 0 := by
  have hI : BusInv cfg.nLost (trace BusFsm.step (ecmBusInit cfg) calls)
      (run BusFsm.step (ecmBusInit cfg) calls) :=
    Along.invariant (C := fun _ _ => True) (I := BusInv cfg.nLost) (BusInv.init cfg hn)
      (fun _ _ c h _ => h.step hn c) (fun _ _ _ _ => trivial)
  refine ⟨hI.replays, ?_, ?_, hI.entered⟩
  · exact Along.of_invariant' (I := BusInv cfg.nLost) (BusInv.init cfg hn)
      (fun _ _ c h => h.step hn c) (fun _ _ c h => h.losesExactly hn c) calls
  · exact Along.of_invariant' (I := BusInv cfg.nLost) (BusInv.init cfg hn)
      (fun _ _ c h => h.step hn c) (fun _ _ c h => h.runsExactly c) calls

/-- A bus that is lost after two cycles, answers a probe and recovers. -/
def lostAndBack : List BusCall :=
  [.onCycle 1 .wkcNoframe none, .onCycle 2 .wkcNoframe (some .wkcZero), .onCycle 3 .wkcOk none,
    .onProbe 3 0, .onProbe 13 8, .onRecoverDone 40 true, .onCycle 41 .wkcOk none]

theorem bus_follows_history_lostAndBack :
    (busEvents (trace BusFsm.step (ecmBusInit ⟨2, 10, 1000⟩) lostAndBack)).map BusEvent.target =
        [.degraded, .lost, .recover, .run] ∧
      Along BusFsm.step (ecmBusInit ⟨2, 10, 1000⟩) lostAndBack (LosesExactly 2) ∧
      (run BusFsm.step (ecmBusInit ⟨2, 10, 1000⟩) lostAndBack).entered .run =
        entries .run (busEvents (trace BusFsm.step (ecmBusInit ⟨2, 10, 1000⟩) lostAndBack)) + 1 :=
  have h := bus_follows_history ⟨2, 10, 1000⟩ (by decide) lostAndBack
  ⟨by decide, h.2.1, h.2.2.2 .run⟩

/-- The entries into RUN are not the events into RUN: the machine starts there
without an event. -/
theorem entered_counts_the_start :
    ¬ ∀ (cfg : BusCfg) (calls : List BusCall) (s : BusState), 1 ≤ cfg.nLost →
      (run BusFsm.step (ecmBusInit cfg) calls).entered s =
        entries s (busEvents (trace BusFsm.step (ecmBusInit cfg) calls)) := by
  intro h
  have hrun := h ecmBusDefaultCfg [] .run (by decide)
  revert hrun
  decide

end EcMaster.Policy
