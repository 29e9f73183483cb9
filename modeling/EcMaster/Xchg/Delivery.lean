import EcMaster.Lib.Run
import EcMaster.Xchg.Hook

/-!
# Delivery through the exchange

What becomes of everything the application pushes, over any run of hooks and
pushes.  Each ring is accounted for as a list: what was accepted is what hooks
have taken, in order, followed by what is still queued (`XInv`).  So nothing is
used twice, and the counters of a slot add up.

A setpoint goes to the IOmap in the hook before its tick or not at all.  From the
first value applied to a slot on, every hook with a bus leaves the value applied
last in the bits of the slot.  This last part needs that no other output slot
shares a bit with it: of two slots over the same bits the one added later wins
(`later_slot_wins`).

An input slot publishes its value in the last hook with valid inputs.  In a hook
without, the RT thread reads the value back from the record it wrote itself,
which is always whole.
-/

namespace EcMaster.Xchg

open EcMaster.ByteImage EcMaster.Pdo EcMaster.Run

/-- What can happen to the exchange. -/
inductive XEvent where
  | cmd (c : Xcmd)
  | setpoint (slot : Int) (tick : Nat) (v0 : Int)
  | hook (env : XchgArgs)

def EcmXchg.step (x : EcmXchg) : XEvent → EcmXchg
  | .cmd c => (ecmXchgCmd x c).1
  | .setpoint slot tick v0 => (ecmXchgSetpoint x slot tick v0).1
  | .hook env => (ecmXchgRt env x).x

/-- An exchange with its slots, each a handle and its direction, before the first
hook. -/
def xchgStart (cycleNs : Nat) (slots : List (Handle × Bool)) : EcmXchg :=
  slots.foldl (fun x s => (ecmXchgAddSlot x s.1 s.2).getD x) (ecmXchgInit cycleNs)

abbrev XRec := Rec EcmXchg XEvent

/-! ## Histories -/

/-- The hook of a step, if it is one. -/
def XRec.hook? (r : XRec) : Option XHook :=
  match r.ev with
  | .hook env => some (ecmXchgRt env r.pre)
  | _ => none

/-- The command accepted by a step. -/
def acceptedCmd (r : XRec) : Option Xcmd :=
  match r.ev with
  | .cmd c => if (ecmXchgCmd r.pre c).2 then some c else none
  | _ => none

/-- The setpoint of slot `i` accepted by a step. -/
def acceptedSp (i : Nat) (r : XRec) : Option Xsp :=
  match r.ev with
  | .setpoint slot tick v0 =>
      if slot = i ∧ (ecmXchgSetpoint r.pre slot tick v0).2 then some ⟨tick, v0⟩ else none
  | _ => none

def acceptedCmds (hist : List XRec) : List Xcmd := hist.filterMap acceptedCmd

def acceptedSps (i : Nat) (hist : List XRec) : List Xsp := hist.filterMap (acceptedSp i)

/-- The commands that hooks have taken. -/
def takenCmds (hist : List XRec) : List Xcmd := (hist.filterMap XRec.hook?).flatMap XHook.cmds

/-- The setpoints of slot `i` that hooks have taken from its ring. -/
def takenSps (i : Nat) (hist : List XRec) : List Xsp :=
  (hist.filterMap XRec.hook?).flatMap fun t => t.popped i

/-- The setpoints of slot `i` that hooks have written to the IOmap. -/
def usedSps (i : Nat) (hist : List XRec) : List Xsp :=
  (hist.filterMap XRec.hook?).flatMap fun t => usedIn i t.writes

/-- The value applied last to slot `i`, by a setpoint or a command. -/
def appliedLast (i : Nat) (hist : List XRec) : Option Int :=
  lastApplied i none ((hist.filterMap XRec.hook?).flatMap XHook.writes)

/-- The value of slot `i` in the last hook with valid inputs. -/
def lastInput (i : Nat) (hist : List XRec) : Nat :=
  hist.foldl
    (fun v r =>
      match r.ev with
      | .hook env => if env.inValid then ecmPdoGet (r.pre.slot i).h (ecmXchgRt env r.pre).io else v
      | _ => v) 0

theorem hooks_concat {r : XRec} (hist : List XRec) {t : Option XHook} (hr : r.hook? = t) :
    (hist ++ [r]).filterMap XRec.hook? = hist.filterMap XRec.hook? ++ t.toList := by
  rw [filterMap_concat, hr]

theorem acceptedSps_concat (i : Nat) (hist : List XRec) (r : XRec) :
    acceptedSps i (hist ++ [r]) = acceptedSps i hist ++ (acceptedSp i r).toList :=
  filterMap_concat ..

theorem acceptedCmds_concat (hist : List XRec) (r : XRec) :
    acceptedCmds (hist ++ [r]) = acceptedCmds hist ++ (acceptedCmd r).toList :=
  filterMap_concat ..

/-! ## The invariant -/

/-- The exchange after a history of steps from `x₀`. -/
structure XInv (x₀ : EcmXchg) (hist : List XRec) (x : EcmXchg) : Prop where
  layout : SameLayout x₀ x
  cmdWF : x.cmd.WF
  cmds : acceptedCmds hist = takenCmds hist ++ x.cmd.toList
  cmdApplied : x.cmdApplied = (takenCmds hist).length
  spWF : ∀ i, (x.sp i).WF
  sps : ∀ i, acceptedSps i hist = takenSps i hist ++ (x.sp i).toList
  sub : ∀ i, (usedSps i hist).Sublist (takenSps i hist)
  total : ∀ i, (x.slot i).used + (x.slot i).late + (x.slot i).droppedLost =
    (takenSps i hist).length
  held : ∀ i, (x.slot i).held = appliedLast i hist
  even : ∀ i, (x.st i).seq % 2 = 0
  value : ∀ i, i < x₀.nslots → (x₀.slot i).isOut = false → (x.st i).w.headD 0 = lastInput i hist

variable {x₀ x : EcmXchg} {hist : List XRec}

/-- A push, which adds to a ring what was accepted. -/
theorem XInv.push_step (hI : XInv x₀ hist x) {r : XRec} {cmd : XRing Xcmd} {sp : Nat → XRing Xsp}
    (hhook : r.hook? = none)
    (hcmd : cmd.WF ∧ cmd.toList = x.cmd.toList ++ (acceptedCmd r).toList)
    (hsp : ∀ i, (sp i).WF ∧ (sp i).toList = (x.sp i).toList ++ (acceptedSp i r).toList) :
    XInv x₀ (hist ++ [r]) { x with cmd := cmd, sp := sp } := by
  have hhooks : (hist ++ [r]).filterMap XRec.hook? = hist.filterMap XRec.hook? := by
    rw [hooks_concat hist hhook, Option.toList_none, List.append_nil]
  have htaken : ∀ i, takenSps i (hist ++ [r]) = takenSps i hist := fun i => by
    rw [takenSps, hhooks, takenSps]
  have hcmds : takenCmds (hist ++ [r]) = takenCmds hist := by rw [takenCmds, hhooks, takenCmds]
  constructor
  case layout => exact hI.layout.trans ⟨rfl, fun _ => rfl, fun _ => rfl⟩
  case cmdWF => exact hcmd.1
  case cmds => rw [acceptedCmds_concat, hcmds, hcmd.2, hI.cmds, List.append_assoc]
  case cmdApplied => rw [hcmds]; exact hI.cmdApplied
  case spWF => exact fun i => (hsp i).1
  case sps => intro i; rw [acceptedSps_concat, htaken, (hsp i).2, hI.sps, List.append_assoc]
  case sub => intro i; rw [htaken, usedSps, hhooks]; exact hI.sub i
  case total => intro i; rw [htaken]; exact hI.total i
  case held => intro i; rw [appliedLast, hhooks]; exact hI.held i
  case even => exact hI.even
  case value =>
    intro i hi hout
    rw [lastInput, List.foldl_append]
    obtain ⟨pre, ev, post⟩ := r
    cases ev with
    | cmd c => exact hI.value i hi hout
    | setpoint slot tick v0 => exact hI.value i hi hout
    | hook env => cases hhook

theorem XInv.cmd_step (hI : XInv x₀ hist x) (c : Xcmd) :
    XInv x₀ (hist ++ [⟨x, .cmd c, x.step (.cmd c)⟩]) (x.step (.cmd c)) := by
  obtain ⟨hwf, hlist⟩ := XRing.ecmXringPush_spec hI.cmdWF c
  refine hI.push_step (r := ⟨x, .cmd c, x.step (.cmd c)⟩) rfl ⟨hwf, ?_⟩ fun i =>
    ⟨hI.spWF i, (List.append_nil _).symm⟩
  rw [hlist]
  by_cases hok : (ecmXringPush x.cmd c).2 <;> simp [acceptedCmd, ecmXchgCmd, hok]

theorem XInv.setpoint_step (hI : XInv x₀ hist x) (slot : Int) (tick : Nat) (v0 : Int) :
    XInv x₀ (hist ++ [⟨x, .setpoint slot tick v0, x.step (.setpoint slot tick v0)⟩])
      (x.step (.setpoint slot tick v0)) := by
  have hcmd : x.cmd.WF ∧ x.cmd.toList = x.cmd.toList ++ (none : Option Xcmd).toList :=
    ⟨hI.cmdWF, (List.append_nil _).symm⟩
  by_cases hbad : slot < 0 ∨ slot ≥ x.nslots ∨ !(x.slot slot.toNat).isOut
  · have hpush : ecmXchgSetpoint x slot tick v0 = (x, false) := if_pos hbad
    have hstep : x.step (.setpoint slot tick v0) = x := congrArg Prod.fst hpush
    rw [hstep]
    refine hI.push_step (r := ⟨x, .setpoint slot tick v0, x⟩) rfl hcmd fun i => ⟨hI.spWF i, ?_⟩
    simp [acceptedSp, hpush]
  · have hpush : ecmXchgSetpoint x slot tick v0 = _ := if_neg hbad
    have hstep : x.step (.setpoint slot tick v0) = _ := congrArg Prod.fst hpush
    rw [hstep]
    refine hI.push_step (r := ⟨x, .setpoint slot tick v0, _⟩) rfl hcmd fun i => ?_
    simp only [acceptedSp, hpush]
    by_cases hi : slot = i
    · subst hi
      obtain ⟨hwf, hlist⟩ := XRing.ecmXringPush_spec (hI.spWF i) ⟨tick, v0⟩
      simp only [Int.toNat_natCast, Function.update_self]
      refine ⟨hwf, ?_⟩
      rw [hlist]
      cases (ecmXringPush (x.sp i) ⟨tick, v0⟩).2 <;> simp
    · have hne : i ≠ slot.toNat := by omega
      simpa [Function.update_of_ne hne, hi] using hI.spWF i

/-- The value published for an input slot. -/
theorem slotWords_value {env : XchgArgs} {io : Image} {s : Xslot} {st : Xst}
    (hout : s.isOut = false) (heven : st.seq % 2 = 0) :
    (ecmXstWrite st env.tick (slotWords env io s st)).w.headD 0 =
      if env.inValid then ecmPdoGet s.h io else st.w.headD 0 := by
  have hread : ecmXstRead st 6 = some (st.tick, st.w.take 6) := if_neg (by omega)
  cases hvalid : env.inValid with
  | true => simp [ecmXstWrite, slotWords, xstWords, hout, hvalid]
  | false =>
    cases hw : st.w <;> simp [ecmXstWrite, slotWords, xstWords, hout, hvalid, hread, hw]

theorem XInv.hook_step (hI : XInv x₀ hist x) (env : XchgArgs) :
    XInv x₀ (hist ++ [⟨x, .hook env, x.step (.hook env)⟩]) (x.step (.hook env)) := by
  have hdone : HookDone env x (ecmXchgRt env x) := ecmXchgRt_done env x
  have hstep : x.step (.hook env) = (ecmXchgRt env x).x := rfl
  rw [hstep]
  generalize hr : (⟨x, .hook env, (ecmXchgRt env x).x⟩ : XRec) = r
  have hhooks := hooks_concat hist (r := r) (t := some (ecmXchgRt env x)) (by rw [← hr]; rfl)
  have hacc : ∀ i, SlotAccount _ _ _ _ _ _ _ _ := fun i => (hdone.slots i (hI.spWF i)).2
  have htaken : ∀ i, takenSps i (hist ++ [r]) = takenSps i hist ++ (ecmXchgRt env x).popped i := by
    intro i
    rw [takenSps, hhooks]
    simp [takenSps]
  have hcmds : takenCmds (hist ++ [r]) = takenCmds hist ++ (ecmXchgRt env x).cmds := by
    rw [takenCmds, hhooks]
    simp [takenCmds]
  constructor
  case layout => exact hI.layout.trans hdone.layout
  case cmdWF => exact (hdone.cmds hI.cmdWF).1
  case cmds =>
    rw [hcmds, List.append_assoc, ← (hdone.cmds hI.cmdWF).2, ← hI.cmds, acceptedCmds_concat, ← hr]
    exact List.append_nil _
  case cmdApplied => rw [hcmds, hdone.applied, hI.cmdApplied, List.length_append]
  case spWF => exact fun i => (hdone.slots i (hI.spWF i)).1
  case sps =>
    intro i
    rw [htaken, List.append_assoc, ← (hacc i).queue, ← hI.sps i, acceptedSps_concat, ← hr]
    exact List.append_nil _
  case sub =>
    intro i
    rw [htaken, usedSps, hhooks]
    simpa [usedSps] using (hI.sub i).append (hacc i).sub
  case total => intro i; rw [htaken, (hacc i).total, hI.total, List.length_append]
  case held =>
    intro i
    rw [hdone.held, hI.held, appliedLast, appliedLast, hhooks, List.flatMap_append,
      lastApplied_append]
    simp
  case even =>
    intro i
    rw [hdone.st]
    split
    · exact ecmXstWrite_even (hI.even i) _ _
    · exact hI.even i
  case value =>
    intro i hi hout
    have hi' : i < x.nslots := by rw [hI.layout.nslots]; exact hi
    have hout' : ((ecmXchgRt env x).x.slot i).isOut = false := by
      rw [hdone.layout.isOut, hI.layout.isOut]
      exact hout
    rw [hdone.st, if_pos hi', slotWords_value hout' (hI.even i), hdone.layout.h, hI.value i hi hout,
      lastInput, lastInput, List.foldl_append, ← hr]
    rfl

theorem XInv.step (hI : XInv x₀ hist x) (e : XEvent) :
    XInv x₀ (hist ++ [⟨x, e, x.step e⟩]) (x.step e) := by
  cases e with
  | cmd c => exact hI.cmd_step c
  | setpoint slot tick v0 => exact hI.setpoint_step slot tick v0
  | hook env => exact hI.hook_step env

/-! ## The start -/

/-- An exchange that no hook has touched. -/
structure Fresh (x : EcmXchg) : Prop where
  cmd : x.cmd.WF ∧ x.cmd.toList = []
  sp : ∀ i, (x.sp i).WF ∧ (x.sp i).toList = []
  cmdApplied : x.cmdApplied = 0
  slot : ∀ i, (x.slot i).used = 0 ∧ (x.slot i).late = 0 ∧ (x.slot i).droppedLost = 0 ∧
    (x.slot i).armed = false
  st : ∀ i, (x.st i).seq = 0 ∧ (x.st i).w.headD 0 = 0

theorem Fresh.init (cycleNs : Nat) : Fresh (ecmXchgInit cycleNs) where
  cmd := ⟨XRing.wf_ecmXringInit _ (.inr rfl), XRing.toList_ecmXringInit _ _⟩
  sp _ := ⟨XRing.wf_ecmXringInit _ (.inl rfl), XRing.toList_ecmXringInit _ _⟩
  cmdApplied := rfl
  slot _ := ⟨rfl, rfl, rfl, rfl⟩
  st _ := ⟨rfl, rfl⟩

theorem Fresh.addSlot (hx : Fresh x) (h : Handle) (isOut : Bool) :
    Fresh ((ecmXchgAddSlot x h isOut).getD x) := by
  unfold ecmXchgAddSlot
  split
  · exact hx
  · refine ⟨hx.cmd, hx.sp, hx.cmdApplied, fun i => ?_, hx.st⟩
    simp only [Option.getD_some]
    by_cases hi : i = x.nslots
    · subst hi
      rw [Function.update_self]
      exact ⟨rfl, rfl, rfl, rfl⟩
    · rw [Function.update_of_ne hi]
      exact hx.slot i

theorem fresh_xchgStart (cycleNs : Nat) (slots : List (Handle × Bool)) :
    Fresh (xchgStart cycleNs slots) := by
  induction slots using List.reverseRecOn with
  | nil => exact .init cycleNs
  | append_singleton slots s ih =>
    rw [xchgStart, List.foldl_append]
    exact ih.addSlot s.1 s.2

theorem XInv.start (hx : Fresh x) : XInv x [] x where
  layout := SameLayout.refl x
  cmdWF := hx.cmd.1
  cmds := hx.cmd.2.symm
  cmdApplied := hx.cmdApplied
  spWF i := (hx.sp i).1
  sps i := (hx.sp i).2.symm
  sub _ := .slnil
  total i := by simp [hx.slot i, takenSps]
  held i := by simp [Xslot.held, hx.slot i, appliedLast, lastApplied]
  even i := by rw [(hx.st i).1]
  value i _ _ := (hx.st i).2

/-! ## Every run -/

/-- The commands that a hook takes are due, and few. -/
def CmdsInTime (_ : List XRec) (r : XRec) : Prop :=
  ∀ env, r.ev = .hook env →
    (ecmXchgRt env r.pre).cmds.length ≤ cmdPerTick ∧
      ∀ c ∈ (ecmXchgRt env r.pre).cmds, c.tick ≤ env.k1

/-- A hook changes the IOmap by its writes only; it makes none without a bus, and
each is a `SET` that it took, a setpoint that it took for the next tick, or the
value applied last to the slot, again. -/
def WritesInTime (hist : List XRec) (r : XRec) : Prop :=
  ∀ env, r.ev = .hook env →
    (ecmXchgRt env r.pre).io = (ecmXchgRt env r.pre).writes.foldl (putWrite r.pre) env.iomap ∧
      ∀ w ∈ (ecmXchgRt env r.pre).writes, env.busLost = false ∧
        match w with
        | .set c => c ∈ (ecmXchgRt env r.pre).cmds
        | .setpoint i e => e.tick = env.k1 ∧ e ∈ (ecmXchgRt env r.pre).popped i
        | .hold i v => appliedLast i (hist ++ [r]) = some v

/-- A hook without a bus leaves the IOmap as it is. -/
def LostKeepsImage (_ : List XRec) (r : XRec) : Prop :=
  ∀ env, r.ev = .hook env → env.busLost → (ecmXchgRt env r.pre).io = env.iomap

/-- After a hook with a bus the bits of slot `i` show the value applied last, which
is the setpoint used in that hook if there is one. -/
def ShowsLast (i : Nat) (hist : List XRec) (r : XRec) : Prop :=
  ∀ env, r.ev = .hook env → env.busLost = false → ∀ v, appliedLast i (hist ++ [r]) = some v →
    ecmPdoGet (r.pre.slot i).h (ecmXchgRt env r.pre).io = xword v % 2 ^ (r.pre.slot i).h.bits ∧
      ∀ e ∈ usedIn i (ecmXchgRt env r.pre).writes, v = e.v

/-- After a hook the record of slot `i` shows its value in the last hook with valid
inputs. -/
def PublishesLast (i : Nat) (hist : List XRec) (r : XRec) : Prop :=
  ∀ env, r.ev = .hook env → (r.post.st i).w.headD 0 = lastInput i (hist ++ [r])

theorem cmdsInTime (x : EcmXchg) (e : XEvent) (hist : List XRec) :
    CmdsInTime hist ⟨x, e, x.step e⟩ := by
  intro env _
  have hdone := ecmXchgRt_done env x
  exact ⟨hdone.few, hdone.due⟩

theorem XInv.writesInTime (hI : XInv x₀ hist x) (e : XEvent) :
    WritesInTime hist ⟨x, e, x.step e⟩ := by
  rintro env rfl
  have hdone := ecmXchgRt_done env x
  refine ⟨hdone.io, fun w hw => ?_⟩
  obtain ⟨hlost, hof⟩ := hdone.writes w hw
  refine ⟨hlost, ?_⟩
  cases hof with
  | set c hc => exact hc
  | setpoint i e he =>
    have hacc := (hdone.slots i (hI.spWF i)).2
    exact ⟨(hacc.why e he).1, hacc.sub.subset he⟩
  | hold i v hv => exact ((hI.hook_step env).held i).symm.trans hv

theorem lostKeepsImage (x : EcmXchg) (e : XEvent) (hist : List XRec) :
    LostKeepsImage hist ⟨x, e, x.step e⟩ := by
  intro env _ hlost
  have hdone := ecmXchgRt_done env x
  have hnone : (ecmXchgRt env x).writes = [] := by
    refine List.eq_nil_iff_forall_not_mem.2 fun w hw => ?_
    have hbus := (hdone.writes w hw).1
    rw [hlost] at hbus
    cases hbus
  have hio := hdone.io
  rwa [hnone] at hio

theorem XInv.showsLast (hI : XInv x₀ hist x) {i : Nat} (hi : i < x₀.nslots)
    (hout : (x₀.slot i).isOut) (hapart : Apart x₀ i) (e : XEvent) :
    ShowsLast i hist ⟨x, e, x.step e⟩ := by
  rintro env rfl hlost v hv
  have hdone := ecmXchgRt_done env x
  have hheld : ((ecmXchgRt env x).x.slot i).held = some v := ((hI.hook_step env).held i).trans hv
  refine ⟨?_, fun e he => ?_⟩
  · exact hdone.shows hlost i (by rw [hI.layout.nslots]; exact hi)
      ((hI.layout.isOut i).trans hout) (hI.layout.apart hapart) v hheld
  · exact Option.some.inj (hheld.symm.trans (hdone.used i e he))

theorem XInv.publishesLast (hI : XInv x₀ hist x) {i : Nat} (hi : i < x₀.nslots)
    (hin : (x₀.slot i).isOut = false) (e : XEvent) : PublishesLast i hist ⟨x, e, x.step e⟩ := by
  rintro env rfl
  exact (hI.hook_step env).value i hi hin

/-- For every exchange and every run of pushes and hooks.  The commands: those
taken are the first ones accepted, in order, counted by `cmd_applied`, at most
eight in a hook and none before the hook of its tick.  The IOmap: it changes
only by `SET` commands, by setpoints in the hook before their tick, and by
values held, never without a bus.  The setpoints of a slot: those accepted are
those taken, in order, and those still queued, each used at most once, and the
counters of the slot add up to them.  An output slot that shares no bit with
another one shows its last applied value after every hook with a bus.  An input
slot publishes its last valid value. -/
theorem exchange_delivers (cycleNs : Nat) (slots : List (Handle × Bool)) (es : List XEvent) :
    let x₀ := xchgStart cycleNs slots
    let hist := trace EcmXchg.step x₀ es
    let x := run EcmXchg.step x₀ es
    (acceptedCmds hist = takenCmds hist ++ x.cmd.toList ∧
      x.cmdApplied = (takenCmds hist).length ∧ Along EcmXchg.step x₀ es CmdsInTime) ∧
    (Along EcmXchg.step x₀ es WritesInTime ∧ Along EcmXchg.step x₀ es LostKeepsImage) ∧
    (∀ i, acceptedSps i hist = takenSps i hist ++ (x.sp i).toList ∧
      (usedSps i hist).Sublist (takenSps i hist) ∧
      (acceptedSps i hist).length = (x.slot i).used + (x.slot i).late + (x.slot i).droppedLost +
        (x.sp i).toList.length) ∧
    (∀ i, i < x₀.nslots → (x₀.slot i).isOut → Apart x₀ i →
      Along EcmXchg.step x₀ es (ShowsLast i)) ∧
    ∀ i, i < x₀.nslots → (x₀.slot i).isOut = false →
      Along EcmXchg.step x₀ es (PublishesLast i) := by
  intro x₀ hist x
  have hinit : XInv x₀ [] x₀ := .start (fresh_xchgStart cycleNs slots)
  have hstep : ∀ hist x e, XInv x₀ hist x → XInv x₀ (hist ++ [⟨x, e, x.step e⟩]) (x.step e) :=
    fun _ _ e hI => hI.step e
  have hI : XInv x₀ hist x :=
    Along.invariant (C := fun _ _ => True) (I := XInv x₀) hinit (fun hist x e hI _ =>
      hstep hist x e hI) (fun _ _ _ _ => trivial)
  have along : ∀ {P : List XRec → XRec → Prop},
      (∀ hist x e, XInv x₀ hist x → P hist ⟨x, e, x.step e⟩) → Along EcmXchg.step x₀ es P :=
    fun hP => Along.of_invariant' (I := XInv x₀) hinit hstep hP es
  refine ⟨⟨hI.cmds, hI.cmdApplied, ?_⟩, ⟨?_, ?_⟩, fun i => ⟨hI.sps i, hI.sub i, ?_⟩, ?_, ?_⟩
  · exact along fun hist x e _ => cmdsInTime x e hist
  · exact along fun _ _ e hI => hI.writesInTime e
  · exact along fun hist x e _ => lostKeepsImage x e hist
  · rw [hI.sps i, List.length_append, hI.total i]
  · exact fun i hi hout hapart => along fun _ _ e hI => hI.showsLast hi hout hapart e
  · exact fun i hi hin => along fun _ _ e hI => hI.publishesLast hi hin e

/-- A hook with a bus and valid inputs over an empty IOmap. -/
def plainHook (tick : Nat) : XEvent :=
  .hook { iomap := fun _ => 0, tick := tick, tSendNs := 0, inValid := true, busLost := false }

/-- Two outputs and an input next to each other. -/
def threeSlots : List (Handle × Bool) := [(⟨0, 8⟩, true), (⟨8, 16⟩, true), (⟨32, 8⟩, false)]

theorem exchange_delivers_threeSlots :
    let x₀ := xchgStart 1000000 threeSlots
    let es : List XEvent := [.setpoint 0 1 5, plainHook 0, .cmd ⟨0, 1, .set, 1, -2⟩, plainHook 1]
    Apart x₀ 0 ∧ (usedSps 0 (trace EcmXchg.step x₀ es)).map Xsp.v = [5] ∧
      Along EcmXchg.step x₀ es (ShowsLast 0) ∧ Along EcmXchg.step x₀ es (PublishesLast 2) := by
  intro x₀ es
  have hapart : Apart x₀ 0 := by
    unfold Apart
    decide
  have h := exchange_delivers 1000000 threeSlots es
  exact ⟨hapart, by decide +kernel, h.2.2.2.1 0 (by decide) (by decide) hapart,
    h.2.2.2.2 2 (by decide) (by decide)⟩

/-- Two output slots over the same byte.  Each gets a setpoint for tick 1, and the
bits of the first one show that of the second. -/
theorem later_slot_wins :
    ¬ ∀ (cycleNs : Nat) (slots : List (Handle × Bool)) (es : List XEvent) (i : Nat),
      i < (xchgStart cycleNs slots).nslots → ((xchgStart cycleNs slots).slot i).isOut →
        Along EcmXchg.step (xchgStart cycleNs slots) es (ShowsLast i) := by
  intro h
  have hall := h 1000000 [(⟨0, 8⟩, true), (⟨0, 8⟩, true)]
    ([.setpoint 0 1 5, .setpoint 1 1 9] ++ plainHook 0 :: []) 0 (by decide) (by decide)
  have hread := hall.at _ rfl rfl 5 (by decide +kernel)
  exact absurd hread.1 (by decide +kernel)

end EcMaster.Xchg
