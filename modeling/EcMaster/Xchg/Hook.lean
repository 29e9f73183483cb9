import EcMaster.Xchg.Exchange

/-!
# What one hook of the exchange does

A hook is described by the writes it makes to the IOmap (`Wrote`), by the
commands it takes (`CmdsDone`), and for each slot by the setpoints it takes and
the one it uses (`SlotDone`).  `ecmXchgRt_done` puts them together: `HookDone` is
all that a proof about runs needs to know.

After a hook with a bus the bits of an output slot show the value that the slot
holds (`HookDone.shows`), provided that no other output slot shares a bit with
it.  `ecm_xchg_add_slot` does not ask for that.
-/

namespace EcMaster.Xchg

open EcMaster.ByteImage EcMaster.Pdo

/-! ## Writes -/

/-- The value that the slot holds, once one was applied. -/
def Xslot.held (s : Xslot) : Option Int := if s.armed then some s.last else none

/-- The value that a write applies to slot `i`; holding a value applies none. -/
def Xwrite.applied (i : Nat) : Xwrite → Option Int
  | .set c => if c.target = i then some c.arg0 else none
  | .setpoint slot e => if slot = i then some e.v else none
  | .hold _ _ => none

/-- The value applied last to slot `i` by some writes, `old` before them. -/
def lastApplied (i : Nat) (old : Option Int) (ws : List Xwrite) : Option Int :=
  ws.foldl (fun v w => (w.applied i).or v) old

theorem lastApplied_append (i : Nat) (old : Option Int) (ws ws' : List Xwrite) :
    lastApplied i old (ws ++ ws') = lastApplied i (lastApplied i old ws) ws' :=
  List.foldl_append

/-- The slots are where they were. -/
structure SameLayout (x x' : EcmXchg) : Prop where
  nslots : x'.nslots = x.nslots
  h : ∀ i, (x'.slot i).h = (x.slot i).h
  isOut : ∀ i, (x'.slot i).isOut = (x.slot i).isOut

theorem SameLayout.refl (x : EcmXchg) : SameLayout x x := ⟨rfl, fun _ => rfl, fun _ => rfl⟩

theorem SameLayout.trans {x x' x'' : EcmXchg} (h : SameLayout x x') (h' : SameLayout x' x'') :
    SameLayout x x'' :=
  ⟨h'.nslots.trans h.nslots, fun i => (h'.h i).trans (h.h i), fun i => (h'.isOut i).trans (h.isOut i)⟩

/-- One slot replaced by one in the same place. -/
theorem SameLayout.update {x x' : EcmXchg} {i : Nat} {s : Xslot} (hn : x'.nslots = x.nslots)
    (hslot : x'.slot = Function.update x.slot i s) (hh : s.h = (x.slot i).h)
    (hout : s.isOut = (x.slot i).isOut) : SameLayout x x' := by
  refine ⟨hn, fun j => ?_, fun j => ?_⟩
  all_goals
    rw [hslot]
    by_cases hj : j = i
    · subst hj
      rwa [Function.update_self]
    · rw [Function.update_of_ne hj]

/-- The IOmap after a write. -/
def putWrite (x : EcmXchg) (io : Image) (w : Xwrite) : Image :=
  ecmPdoSet (x.slot w.slot).h io (xword w.value)

theorem SameLayout.putWrite {x x' : EcmXchg} (h : SameLayout x x') :
    putWrite x' = EcMaster.Xchg.putWrite x := by
  funext io w
  rw [EcMaster.Xchg.putWrite, EcMaster.Xchg.putWrite, h.h]

/-- From `t` to `t'` the hook has made the writes `ws`, and the slots hold the
values these applied. -/
structure Wrote (t t' : XHook) (ws : List Xwrite) : Prop where
  layout : SameLayout t.x t'.x
  writes : t'.writes = t.writes ++ ws
  io : t'.io = ws.foldl (putWrite t.x) t.io
  held : ∀ i, (t'.x.slot i).held = lastApplied i (t.x.slot i).held ws

theorem Wrote.nothing {t t' : XHook} (hlayout : SameLayout t.x t'.x) (hio : t'.io = t.io)
    (hwrites : t'.writes = t.writes) (hheld : ∀ i, (t'.x.slot i).held = (t.x.slot i).held) :
    Wrote t t' [] :=
  ⟨hlayout, by rw [hwrites, List.append_nil], hio, hheld⟩

theorem Wrote.trans {t t' t'' : XHook} {ws ws' : List Xwrite} (h : Wrote t t' ws)
    (h' : Wrote t' t'' ws') : Wrote t t'' (ws ++ ws') where
  layout := h.layout.trans h'.layout
  writes := by rw [h'.writes, h.writes, List.append_assoc]
  io := by rw [h'.io, h.io, h.layout.putWrite, List.foldl_append]
  held i := by rw [h'.held, h.held, lastApplied_append]

theorem Wrote.apply (t : XHook) {w : Xwrite} (hw : w.applied w.slot = some w.value) :
    Wrote t (t.apply w) [w] where
  layout := SameLayout.update rfl rfl rfl rfl
  writes := rfl
  io := rfl
  held i := by
    simp only [XHook.apply, XHook.put, lastApplied, List.foldl_cons, List.foldl_nil]
    by_cases hi : i = w.slot
    · subst hi
      rw [Function.update_self, hw]
      rfl
    · rw [Function.update_of_ne hi]
      have hnone : w.applied i = none := by
        cases w with
        | set c => exact if_neg fun h => hi h.symm
        | setpoint slot e => exact if_neg fun h => hi h.symm
        | hold slot v => rfl
      rw [hnone, Option.none_or]

/-! ## Commands -/

/-- From `t` to `t'` the hook has taken the commands `cs` and made the writes `ws`. -/
structure CmdsDone (k1 : Nat) (busLost : Bool) (budget : Nat) (t t' : XHook) (cs : List Xcmd)
    (ws : List Xwrite) : Prop where
  wrote : Wrote t t' ws
  cmds : t'.cmds = t.cmds ++ cs
  bound : cs.length ≤ budget
  due : ∀ c ∈ cs, c.tick ≤ k1
  sets : ∀ w ∈ ws, busLost = false ∧ ∃ c ∈ cs, w = .set c
  applied : t'.x.cmdApplied = t.x.cmdApplied + cs.length
  ring : t.x.cmd.WF → t'.x.cmd.WF ∧ t.x.cmd.toList = cs ++ t'.x.cmd.toList
  sp : t'.x.sp = t.x.sp
  st : t'.x.st = t.x.st
  popped : t'.popped = t.popped
  counts : ∀ i, (t'.x.slot i).used = (t.x.slot i).used ∧ (t'.x.slot i).late = (t.x.slot i).late ∧
    (t'.x.slot i).droppedLost = (t.x.slot i).droppedLost

theorem CmdsDone.none (k1 : Nat) (busLost : Bool) (budget : Nat) {t t' : XHook}
    (hx : t'.x = { t.x with cmdDeferred := t'.x.cmdDeferred }) (hio : t'.io = t.io)
    (hcmds : t'.cmds = t.cmds) (hpopped : t'.popped = t.popped) (hwrites : t'.writes = t.writes) :
    CmdsDone k1 busLost budget t t' [] [] := by
  have hslot : t'.x.slot = t.x.slot := by rw [hx]
  constructor
  case wrote =>
    refine .nothing ⟨by rw [hx], ?_, ?_⟩ hio hwrites ?_
    all_goals intro i; rw [hslot]
  case cmds => simpa using hcmds
  case bound => exact Nat.zero_le _
  case due => simp
  case sets => simp
  case applied => rw [hx]; rfl
  case ring => intro hwf; rw [hx]; exact ⟨hwf, rfl⟩
  case sp => rw [hx]
  case st => rw [hx]
  case popped => exact hpopped
  case counts => intro i; rw [hslot]; exact ⟨rfl, rfl, rfl⟩

/-- One command. -/
theorem execCmd_done (k1 : Nat) (busLost : Bool) {c : Xcmd} {t : XHook}
    (hpeek : ecmXringPeek t.x.cmd = some c) (hdue : c.tick ≤ k1) :
    ∃ ws, CmdsDone k1 busLost 1 t (execCmd busLost c t) [c] ws := by
  have hring : t.x.cmd.WF → (ecmXringPop t.x.cmd).WF ∧
      t.x.cmd.toList = [c] ++ (ecmXringPop t.x.cmd).toList := fun hwf =>
    XRing.ecmXringPop_spec hwf hpeek
  unfold execCmd
  by_cases hset : c.op = .set ∧ c.target < t.x.nslots ∧ (t.x.slot c.target).isOut ∧ !busLost
  · have hwrote := Wrote.apply t (w := .set c) (if_pos rfl)
    refine ⟨[.set c], ?_⟩
    rw [if_pos hset]
    constructor
    case wrote =>
      exact ⟨⟨hwrote.layout.nslots, hwrote.layout.h, hwrote.layout.isOut⟩, hwrote.writes,
        hwrote.io, hwrote.held⟩
    case sets => simpa using hset.2.2.2
    case counts =>
      intro i
      simp only [XHook.apply, XHook.put, Xwrite.slot]
      by_cases hi : i = c.target
      · subst hi
        rw [Function.update_self]
        exact ⟨rfl, rfl, rfl⟩
      · rw [Function.update_of_ne hi]
        exact ⟨rfl, rfl, rfl⟩
    case ring => exact hring
    case due => simpa using hdue
    all_goals rfl
  · refine ⟨[], ?_⟩
    rw [if_neg hset]
    split
    all_goals
      constructor
      case wrote => exact .nothing ⟨rfl, fun _ => rfl, fun _ => rfl⟩ rfl rfl fun _ => rfl
      case sets => simp
      case ring => exact hring
      case due => simpa using hdue
      case counts => exact fun _ => ⟨rfl, rfl, rfl⟩
      all_goals rfl

theorem CmdsDone.trans {k1 m n : Nat} {busLost : Bool} {t t' t'' : XHook} {cs cs' : List Xcmd}
    {ws ws' : List Xwrite} (h : CmdsDone k1 busLost m t t' cs ws)
    (h' : CmdsDone k1 busLost n t' t'' cs' ws') :
    CmdsDone k1 busLost (m + n) t t'' (cs ++ cs') (ws ++ ws') where
  wrote := h.wrote.trans h'.wrote
  cmds := by rw [h'.cmds, h.cmds, List.append_assoc]
  bound := by
    have := h.bound
    have := h'.bound
    rw [List.length_append]
    omega
  due c hc := (List.mem_append.1 hc).elim (h.due c) (h'.due c)
  sets w hw := by
    rcases List.mem_append.1 hw with hw | hw
    · obtain ⟨hlost, c, hc, rfl⟩ := h.sets w hw
      exact ⟨hlost, c, List.mem_append_left _ hc, rfl⟩
    · obtain ⟨hlost, c, hc, rfl⟩ := h'.sets w hw
      exact ⟨hlost, c, List.mem_append_right _ hc, rfl⟩
  applied := by rw [h'.applied, h.applied, List.length_append, Nat.add_assoc]
  ring hwf := by
    obtain ⟨hwf', hlist⟩ := h.ring hwf
    obtain ⟨hwf'', hlist'⟩ := h'.ring hwf'
    exact ⟨hwf'', by rw [hlist, hlist', List.append_assoc]⟩
  sp := h'.sp.trans h.sp
  st := h'.st.trans h.st
  popped := h'.popped.trans h.popped
  counts i := by
    obtain ⟨h₁, h₂, h₃⟩ := h.counts i
    obtain ⟨h₁', h₂', h₃'⟩ := h'.counts i
    exact ⟨h₁'.trans h₁, h₂'.trans h₂, h₃'.trans h₃⟩

/-- The command loop takes commands in order, only those that are due, and at most
its budget of them. -/
theorem cmdLoop_done (k1 : Nat) (busLost : Bool) (budget : Nat) (t : XHook) :
    ∃ cs ws, CmdsDone k1 busLost budget t (cmdLoop k1 busLost budget t) cs ws := by
  induction budget generalizing t with
  | zero =>
    refine ⟨[], [], ?_⟩
    unfold cmdLoop
    split
    · exact .none k1 busLost 0 rfl rfl rfl rfl rfl
    · split
      · exact .none k1 busLost 0 rfl rfl rfl rfl rfl
      · exact .none k1 busLost 0 rfl rfl rfl rfl rfl
  | succ n ih =>
    unfold cmdLoop
    split
    · exact ⟨[], [], .none k1 busLost _ rfl rfl rfl rfl rfl⟩
    · rename_i c hpeek
      by_cases hdue : c.tick > k1
      · rw [if_pos hdue]
        exact ⟨[], [], .none k1 busLost _ rfl rfl rfl rfl rfl⟩
      · rw [if_neg hdue]
        obtain ⟨ws, hone⟩ := execCmd_done k1 busLost hpeek (Nat.le_of_not_lt hdue)
        obtain ⟨cs, ws', hrest⟩ := ih (execCmd busLost c t)
        refine ⟨[c] ++ cs, ws ++ ws', ?_⟩
        have hall := hone.trans hrest
        rwa [Nat.add_comm 1 n] at hall

/-! ## Setpoints -/

/-- The setpoint of slot `i` that a write used. -/
def Xwrite.usedOf (i : Nat) : Xwrite → Option Xsp
  | .setpoint slot e => if slot = i then some e else none
  | _ => none

/-- The setpoints of slot `i` that some writes used. -/
def usedIn (i : Nat) (ws : List Xwrite) : List Xsp := ws.filterMap (Xwrite.usedOf i)

/-- What the turn of slot `i` leaves alone. -/
structure Beside (i : Nat) (t t' : XHook) : Prop where
  slot : ∀ j, j ≠ i → t'.x.slot j = t.x.slot j
  sp : ∀ j, j ≠ i → t'.x.sp j = t.x.sp j
  popped : ∀ j, j ≠ i → t'.popped j = t.popped j
  cmd : t'.x.cmd = t.x.cmd
  cmdApplied : t'.x.cmdApplied = t.x.cmdApplied
  st : t'.x.st = t.x.st
  cmds : t'.cmds = t.cmds

theorem Beside.refl (i : Nat) (t : XHook) : Beside i t t :=
  ⟨fun _ _ => rfl, fun _ _ => rfl, fun _ _ => rfl, rfl, rfl, rfl, rfl⟩

theorem Beside.trans {i : Nat} {t t' t'' : XHook} (h : Beside i t t') (h' : Beside i t' t'') :
    Beside i t t'' where
  slot j hj := (h'.slot j hj).trans (h.slot j hj)
  sp j hj := (h'.sp j hj).trans (h.sp j hj)
  popped j hj := (h'.popped j hj).trans (h.popped j hj)
  cmd := h'.cmd.trans h.cmd
  cmdApplied := h'.cmdApplied.trans h.cmdApplied
  st := h'.st.trans h.st
  cmds := h'.cmds.trans h.cmds

/-- A slot and its ring before and after a hook or a part of it, in which
`popped` left the ring and `used` was used. -/
structure SlotAccount (k1 : Nat) (busLost : Bool) (s s' : Xslot) (q q' popped used : List Xsp) :
    Prop where
  queue : q = popped ++ q'
  sub : used.Sublist popped
  why : ∀ e ∈ used, e.tick = k1 ∧ busLost = false
  used : s'.used = s.used + used.length
  total : s'.used + s'.late + s'.droppedLost = s.used + s.late + s.droppedLost + popped.length

theorem SlotAccount.refl (k1 : Nat) (busLost : Bool) {s s' : Xslot} (q : List Xsp)
    (hused : s'.used = s.used) (hlate : s'.late = s.late)
    (hdropped : s'.droppedLost = s.droppedLost) :
    SlotAccount k1 busLost s s' q q [] [] where
  queue := rfl
  sub := .slnil
  why := by simp
  used := by simpa using hused
  total := by simp [hused, hlate, hdropped]

theorem SlotAccount.trans {k1 : Nat} {busLost : Bool} {s s' s'' : Xslot}
    {q q' q'' popped popped' used used' : List Xsp}
    (h : SlotAccount k1 busLost s s' q q' popped used)
    (h' : SlotAccount k1 busLost s' s'' q' q'' popped' used') :
    SlotAccount k1 busLost s s'' q q'' (popped ++ popped') (used ++ used') where
  queue := by rw [h.queue, h'.queue, List.append_assoc]
  sub := h.sub.append h'.sub
  why e he := (List.mem_append.1 he).elim (h.why e) (h'.why e)
  used := by rw [h'.used, h.used, List.length_append, Nat.add_assoc]
  total := by rw [h'.total, h.total, List.length_append, Nat.add_assoc]

/-- From `t` to `t'` slot `i` had the setpoints `popped` taken from its ring and
`used` used, and nothing else happened. -/
structure SpTaken (k1 : Nat) (busLost : Bool) (i : Nat) (t t' : XHook) (popped used : List Xsp)
    (ws : List Xwrite) : Prop where
  wrote : Wrote t t' ws
  beside : Beside i t t'
  record : t'.popped i = t.popped i ++ popped
  account : (t.x.sp i).WF → (t'.x.sp i).WF ∧
    SlotAccount k1 busLost (t.x.slot i) (t'.x.slot i) (t.x.sp i).toList (t'.x.sp i).toList
      popped used

theorem SpTaken.refl (k1 : Nat) (busLost : Bool) (i : Nat) (t : XHook) :
    SpTaken k1 busLost i t t [] [] [] where
  wrote := .nothing (SameLayout.refl _) rfl rfl fun _ => rfl
  beside := .refl i t
  record := by simp
  account hwf := ⟨hwf, .refl k1 busLost _ rfl rfl rfl⟩

theorem SpTaken.trans {k1 : Nat} {busLost : Bool} {i : Nat} {t t' t'' : XHook}
    {popped popped' used used' : List Xsp} {ws ws' : List Xwrite}
    (h : SpTaken k1 busLost i t t' popped used ws)
    (h' : SpTaken k1 busLost i t' t'' popped' used' ws') :
    SpTaken k1 busLost i t t'' (popped ++ popped') (used ++ used') (ws ++ ws') where
  wrote := h.wrote.trans h'.wrote
  beside := h.beside.trans h'.beside
  record := by rw [h'.record, h.record, List.append_assoc]
  account hwf := by
    obtain ⟨hwf', hacc⟩ := h.account hwf
    obtain ⟨hwf'', hacc'⟩ := h'.account hwf'
    exact ⟨hwf'', hacc.trans hacc'⟩

/-- A setpoint that leaves the ring, used or not. -/
theorem XHook.popSp_taken {k1 : Nat} {busLost : Bool} {i : Nat} {t : XHook} {e : Xsp} {s : Xslot}
    (used : List Xsp) (hpeek : ecmXringPeek (t.x.sp i) = some e) (hh : s.h = (t.x.slot i).h)
    (hout : s.isOut = (t.x.slot i).isOut) (hheld : s.held = (t.x.slot i).held)
    (hsub : used.Sublist [e]) (hwhy : ∀ e' ∈ used, e'.tick = k1 ∧ busLost = false)
    (hused : s.used = (t.x.slot i).used + used.length)
    (htotal : s.used + s.late + s.droppedLost =
      (t.x.slot i).used + (t.x.slot i).late + (t.x.slot i).droppedLost + 1) :
    SpTaken k1 busLost i t (t.popSp i e s) [e] used [] := by
  have hslot : (t.popSp i e s).x.slot i = s := Function.update_self ..
  have hsp : (t.popSp i e s).x.sp i = ecmXringPop (t.x.sp i) := Function.update_self ..
  have hslot' : ∀ j, j ≠ i → (t.popSp i e s).x.slot j = t.x.slot j := fun j hj =>
    Function.update_of_ne hj ..
  constructor
  case wrote =>
    refine .nothing (SameLayout.update rfl rfl hh hout) rfl rfl fun j => ?_
    by_cases hj : j = i
    · subst hj
      rw [hslot, hheld]
    · rw [hslot' j hj]
  case beside =>
    exact ⟨hslot', fun j hj => Function.update_of_ne hj .., fun j hj => Function.update_of_ne hj ..,
      rfl, rfl, rfl, rfl⟩
  case record => exact Function.update_self ..
  case account =>
    intro hwf
    obtain ⟨hwf', hlist⟩ := XRing.ecmXringPop_spec hwf hpeek
    rw [hslot, hsp]
    exact ⟨hwf', hlist, hsub, hwhy, hused, htotal⟩

/-- A setpoint applied, still in the ring. -/
theorem XHook.apply_taken (k1 : Nat) (busLost : Bool) (i : Nat) (t : XHook) (e : Xsp) :
    SpTaken k1 busLost i t (t.apply (.setpoint i e)) [] [] [.setpoint i e] := by
  have hslot : (t.apply (.setpoint i e)).x.slot i =
      { t.x.slot i with last := e.v, armed := true } := Function.update_self ..
  constructor
  case wrote => exact Wrote.apply t (if_pos rfl)
  case beside =>
    exact ⟨fun j hj => Function.update_of_ne hj .., fun _ _ => rfl, fun _ _ => rfl, rfl, rfl, rfl,
      rfl⟩
  case record => exact (List.append_nil _).symm
  case account =>
    intro hwf
    refine ⟨hwf, ?_⟩
    rw [hslot]
    exact .refl k1 busLost _ rfl rfl rfl

/-- The end of the setpoint loop of slot `i`: at most one setpoint was used, and
that one written. -/
def SpLoopDone (k1 : Nat) (busLost : Bool) (i : Nat) (t : XHook) (r : XHook × Bool) : Prop :=
  ∃ popped, ∃ u : Option Xsp,
    SpTaken k1 busLost i t r.1 popped u.toList (u.toList.map (Xwrite.setpoint i)) ∧
      r.2 = u.isSome ∧ (u.isSome → busLost = false)

theorem SpLoopDone.stop (k1 : Nat) (busLost : Bool) (i : Nat) (t : XHook) :
    SpLoopDone k1 busLost i t (t, false) :=
  ⟨[], none, .refl k1 busLost i t, rfl, nofun⟩

theorem SpLoopDone.use {k1 : Nat} {busLost : Bool} {i : Nat} {t : XHook} {e : Xsp}
    (hpeek : ecmXringPeek (t.x.sp i) = some e) (htick : e.tick = k1) (hlost : busLost = false) :
    SpLoopDone k1 busLost i t
      ((t.apply (.setpoint i e)).popSp i e
        { (t.apply (.setpoint i e)).x.slot i with
          used := ((t.apply (.setpoint i e)).x.slot i).used + 1 }, true) := by
  refine ⟨[e], some e, ?_, rfl, fun _ => hlost⟩
  refine (XHook.apply_taken k1 busLost i t e).trans (XHook.popSp_taken [e] hpeek rfl rfl rfl
    (.refl _) ?_ rfl ?_)
  · simp [htick, hlost]
  · simp only
    omega

theorem SpLoopDone.skip {k1 : Nat} {busLost : Bool} {i : Nat} {t : XHook} {e : Xsp}
    {r : XHook × Bool} (hpeek : ecmXringPeek (t.x.sp i) = some e)
    (hrest : SpLoopDone k1 busLost i
      (t.popSp i e
        (if busLost then { t.x.slot i with droppedLost := (t.x.slot i).droppedLost + 1 }
          else { t.x.slot i with late := (t.x.slot i).late + 1 })) r) :
    SpLoopDone k1 busLost i t r := by
  obtain ⟨popped, u, htaken, hused, hlost⟩ := hrest
  refine ⟨[e] ++ popped, u, SpTaken.trans (XHook.popSp_taken [] hpeek ?_ ?_ ?_
    (List.nil_sublist _) (by simp) ?_ ?_) htaken, hused, hlost⟩
  all_goals cases busLost <;> simp [Xslot.held] <;> omega

/-- A setpoint that is not skipped ends the loop. -/
theorem SpLoopDone.head {k1 : Nat} {busLost : Bool} {i : Nat} {t : XHook} {e : Xsp}
    (hpeek : ecmXringPeek (t.x.sp i) = some e) :
    SpLoopDone k1 busLost i t
      (if busLost then (t, false)
        else if e.tick = k1 then
          ((t.apply (.setpoint i e)).popSp i e
            { (t.apply (.setpoint i e)).x.slot i with
              used := ((t.apply (.setpoint i e)).x.slot i).used + 1 }, true)
        else (t, false)) := by
  cases busLost with
  | true => exact .stop k1 true i t
  | false =>
    by_cases htick : e.tick = k1
    · rw [if_neg Bool.false_ne_true, if_pos htick]
      exact .use hpeek htick rfl
    · rw [if_neg Bool.false_ne_true, if_neg htick]
      exact .stop k1 false i t

/-- The loop skips what is too old or has no frame to go out in, and then uses at
most one setpoint. -/
theorem spLoop_done (k1 : Nat) (busLost : Bool) (i : Nat) (budget : Nat) (t : XHook) :
    SpLoopDone k1 busLost i t (spLoop k1 busLost i budget t) := by
  induction budget generalizing t with
  | zero =>
    unfold spLoop
    split
    · exact .stop k1 busLost i t
    · rename_i e hpeek
      by_cases hstale : e.tick < k1 ∨ (busLost ∧ e.tick = k1)
      · rw [if_pos hstale]
        exact .stop k1 busLost i t
      · rw [if_neg hstale]
        exact .head hpeek
  | succ n ih =>
    unfold spLoop
    split
    · exact .stop k1 busLost i t
    · rename_i e hpeek
      by_cases hstale : e.tick < k1 ∨ (busLost ∧ e.tick = k1)
      · rw [if_pos hstale]
        exact .skip hpeek (ih _)
      · rw [if_neg hstale]
        exact .head hpeek

/-! ## One slot -/

/-- A write of the turn of slot `i`, which uses `used`: that setpoint, or the value
that the slot holds, again. -/
def SlotWrite (busLost : Bool) (i : Nat) (s : Xslot) (used : List Xsp) (w : Xwrite) : Prop :=
  busLost = false ∧
    ((∃ e ∈ used, w = .setpoint i e) ∨ (used = [] ∧ ∃ v ∈ s.held, w = .hold i v))

/-- What the turn of slot `i` does. -/
structure SlotDone (k1 : Nat) (busLost : Bool) (i : Nat) (t t' : XHook) (popped used : List Xsp)
    (ws : List Xwrite) : Prop extends SpTaken k1 busLost i t t' popped used ws where
  uses : usedIn i ws = used
  one : used.length ≤ 1
  legit : ∀ w ∈ ws, SlotWrite busLost i (t.x.slot i) used w
  shows : busLost = false → ∀ v ∈ (t'.x.slot i).held,
    ecmPdoGet (t.x.slot i).h t'.io = xword v % 2 ^ (t.x.slot i).h.bits

/-- The value that the slot holds, written again. -/
theorem XHook.hold_taken (k1 : Nat) (busLost : Bool) (i : Nat) (t : XHook) (v : Int) :
    SpTaken k1 busLost i t
      (XHook.put
        { t with
          x :=
            { t.x with
              slot := Function.update t.x.slot i
                { t.x.slot i with underrun := (t.x.slot i).underrun + 1 } } }
        (.hold i v)) [] [] [.hold i v] := by
  have hslot : Function.update t.x.slot i
      { t.x.slot i with underrun := (t.x.slot i).underrun + 1 } i =
        { t.x.slot i with underrun := (t.x.slot i).underrun + 1 } := Function.update_self ..
  have hslot' : ∀ j, j ≠ i → Function.update t.x.slot i
      { t.x.slot i with underrun := (t.x.slot i).underrun + 1 } j = t.x.slot j := fun j hj =>
    Function.update_of_ne hj ..
  constructor
  case wrote =>
    refine ⟨SameLayout.update rfl rfl rfl rfl, rfl, ?_, fun j => ?_⟩
    · simp only [XHook.put, Xwrite.slot, hslot, List.foldl_cons, List.foldl_nil, putWrite]
    · simp only [XHook.put, lastApplied, List.foldl_cons, List.foldl_nil, Xwrite.applied,
        Option.none_or]
      by_cases hj : j = i
      · subst hj
        rw [hslot]
        rfl
      · rw [hslot' j hj]
  case beside =>
    exact ⟨hslot', fun _ _ => rfl, fun _ _ => rfl, rfl, rfl, rfl, rfl⟩
  case record => exact (List.append_nil _).symm
  case account =>
    intro hwf
    refine ⟨hwf, ?_⟩
    simp only [XHook.put, hslot]
    exact .refl k1 busLost _ rfl rfl rfl

theorem usedIn_map_setpoint (i : Nat) (es : List Xsp) :
    usedIn i (es.map (Xwrite.setpoint i)) = es := by
  induction es with
  | nil => rfl
  | cons e es ih => simpa [usedIn, Xwrite.usedOf] using ih

/-- After a turn whose one write is that of the held value, the bits show it. -/
theorem Wrote.shows {t t' : XHook} {w : Xwrite} (h : Wrote t t' [w])
    (hheld : (t'.x.slot w.slot).held = some w.value) :
    ∀ v ∈ (t'.x.slot w.slot).held,
      ecmPdoGet (t.x.slot w.slot).h t'.io = xword v % 2 ^ (t.x.slot w.slot).h.bits := by
  intro v hv
  obtain rfl : w.value = v := by rw [hheld] at hv; simpa using hv
  rw [h.io]
  exact ecmPdoGet_set_self _ _ _

/-- The turn of an output slot. -/
theorem slotTurn_done (k1 : Nat) (busLost : Bool) {t : XHook} {i : Nat}
    (hout : (t.x.slot i).isOut) :
    ∃ popped used ws, SlotDone k1 busLost i t (slotTurn k1 busLost t i) popped used ws := by
  obtain ⟨popped, u, htaken, hgot, hlost⟩ := spLoop_done k1 busLost i spSkipMax t
  unfold slotTurn
  rw [if_neg (by simp [hout])]
  generalize spLoop k1 busLost i spSkipMax t = r at htaken hgot
  cases u with
  | some e =>
    -- A setpoint was used.
    refine ⟨popped, [e], [.setpoint i e], ?_⟩
    rw [if_neg (by simp [hgot])]
    have hheld : (r.1.x.slot i).held = some e.v := by
      rw [htaken.wrote.held i]
      simp [lastApplied, Xwrite.applied]
    refine { htaken with
      uses := usedIn_map_setpoint i [e], one := Nat.le_refl 1, legit := ?_, shows := ?_ }
    · intro w hw
      exact ⟨hlost rfl, .inl ⟨e, by simp, by simpa using hw⟩⟩
    · intro _
      exact Wrote.shows (w := .setpoint i e) htaken.wrote hheld
  | none =>
    have hsame : (r.1.x.slot i).held = (t.x.slot i).held := htaken.wrote.held i
    by_cases hhold : !r.2 ∧ (r.1.x.slot i).armed ∧ !busLost
    · -- No setpoint: the last value again.
      have hheld : (r.1.x.slot i).held = some (r.1.x.slot i).last := by
        simp [Xslot.held, hhold.2.1]
      rw [if_pos hhold]
      have hall := htaken.trans (XHook.hold_taken k1 busLost i r.1 (r.1.x.slot i).last)
      refine ⟨_, _, _, { hall with uses := rfl, one := Nat.zero_le 1, legit := ?_, shows := ?_ }⟩
      · intro w hw
        refine ⟨by simpa using hhold.2.2, .inr ⟨rfl, (r.1.x.slot i).last, ?_, by simpa using hw⟩⟩
        rw [← hsame, hheld]
        rfl
      · intro _
        refine Wrote.shows (w := .hold i (r.1.x.slot i).last) hall.wrote ?_
        rw [hall.wrote.held]
        exact hsame.symm.trans hheld
    · rw [if_neg hhold]
      refine ⟨popped, [], [], { htaken with
        uses := rfl, one := Nat.zero_le 1, legit := nofun, shows := ?_ }⟩
      intro hbus v hv
      have harmed : (r.1.x.slot i).armed = false := by simpa [hgot, hbus] using hhold
      simp [Xslot.held, harmed] at hv

/-! ## All slots -/

/-- No later output slot, which is written after it, shares a bit with slot `i`. -/
def Apart (x : EcmXchg) (i : Nat) : Prop :=
  ∀ j, j < x.nslots → i < j → (x.slot j).isOut → (x.slot i).h.Disjoint (x.slot j).h

/-- What the turns of the first `n` slots do. -/
structure SlotsDone (k1 : Nat) (busLost : Bool) (n : Nat) (t t' : XHook) (ws : List Xwrite) :
    Prop where
  wrote : Wrote t t' ws
  cmd : t'.x.cmd = t.x.cmd
  cmdApplied : t'.x.cmdApplied = t.x.cmdApplied
  st : t'.x.st = t.x.st
  cmds : t'.cmds = t.cmds
  later : ∀ i, n ≤ i → t'.x.slot i = t.x.slot i
  one : ∀ i, (usedIn i ws).length ≤ 1
  legit : ∀ w ∈ ws, w.slot < n ∧ SlotWrite busLost w.slot (t.x.slot w.slot) (usedIn w.slot ws) w
  account : ∀ i, (t.x.sp i).WF → (t'.x.sp i).WF ∧ ∃ popped, t'.popped i = t.popped i ++ popped ∧
    SlotAccount k1 busLost (t.x.slot i) (t'.x.slot i) (t.x.sp i).toList (t'.x.sp i).toList
      popped (usedIn i ws)
  shows : busLost = false → ∀ i, i < n → (t.x.slot i).isOut → Apart t.x i →
    ∀ v ∈ (t'.x.slot i).held, ecmPdoGet (t.x.slot i).h t'.io = xword v % 2 ^ (t.x.slot i).h.bits

theorem usedIn_append (i : Nat) (ws ws' : List Xwrite) :
    usedIn i (ws ++ ws') = usedIn i ws ++ usedIn i ws' :=
  List.filterMap_append

theorem usedIn_eq_nil {i : Nat} {ws : List Xwrite} (hws : ∀ w ∈ ws, w.slot ≠ i) :
    usedIn i ws = [] := by
  refine List.filterMap_eq_nil_iff.2 fun w hw => ?_
  cases w with
  | set c => rfl
  | setpoint slot e => exact if_neg (hws _ hw)
  | hold slot v => rfl

theorem SlotWrite.slot_eq {busLost : Bool} {i : Nat} {s : Xslot} {used : List Xsp} {w : Xwrite}
    (h : SlotWrite busLost i s used w) : w.slot = i := by
  rcases h.2 with ⟨e, -, rfl⟩ | ⟨-, v, -, rfl⟩ <;> rfl

/-- A read of an entry that none of the writes touches. -/
theorem ecmPdoGet_putWrites {x : EcmXchg} {h : Handle} {ws : List Xwrite}
    (hws : ∀ w ∈ ws, h.Disjoint (x.slot w.slot).h) (io : Image) :
    ecmPdoGet h (ws.foldl (putWrite x) io) = ecmPdoGet h io := by
  induction ws generalizing io with
  | nil => rfl
  | cons w ws ih =>
    rw [List.foldl_cons, ih fun w' hw' => hws w' (List.mem_cons_of_mem _ hw'), putWrite,
      ecmPdoGet_set_disjoint (hws w List.mem_cons_self)]

/-- The turn of one more slot. -/
theorem SlotsDone.succ {k1 : Nat} {busLost : Bool} {n : Nat} {t t' t'' : XHook}
    {ws ws' : List Xwrite} {popped used : List Xsp} (h : SlotsDone k1 busLost n t t' ws)
    (hn : n < t.x.nslots) (hout : (t.x.slot n).isOut)
    (h' : SlotDone k1 busLost n t' t'' popped used ws') :
    SlotsDone k1 busLost (n + 1) t t'' (ws ++ ws') := by
  have hslot' : ∀ w ∈ ws', w.slot = n := fun w hw => (h'.legit w hw).slot_eq
  have hother : ∀ i, i ≠ n → usedIn i (ws ++ ws') = usedIn i ws := fun i hi => by
    have hnil : usedIn i ws' = [] := usedIn_eq_nil fun w hw => by rw [hslot' w hw]; exact hi.symm
    rw [usedIn_append, hnil, List.append_nil]
  have hnone : usedIn n ws = [] := usedIn_eq_nil fun w hw => Nat.ne_of_lt (h.legit w hw).1
  have hself : usedIn n (ws ++ ws') = used := by rw [usedIn_append, hnone, List.nil_append, h'.uses]
  constructor
  case wrote => exact h.wrote.trans h'.wrote
  case cmd => exact h'.beside.cmd.trans h.cmd
  case cmdApplied => exact h'.beside.cmdApplied.trans h.cmdApplied
  case st => exact h'.beside.st.trans h.st
  case cmds => exact h'.beside.cmds.trans h.cmds
  case later =>
    intro i hi
    rw [h'.beside.slot i (by omega), h.later i (by omega)]
  case one =>
    intro i
    by_cases hi : i = n
    · subst hi
      rw [hself]
      exact h'.one
    · rw [hother i hi]
      exact h.one i
  case legit =>
    intro w hw
    rcases List.mem_append.1 hw with hw | hw
    · obtain ⟨hlt, hwrite⟩ := h.legit w hw
      rw [hother w.slot (Nat.ne_of_lt hlt)]
      exact ⟨Nat.lt_succ_of_lt hlt, hwrite⟩
    · have hwrite := h'.legit w hw
      rw [h.later n (Nat.le_refl n)] at hwrite
      rw [hslot' w hw, hself]
      exact ⟨Nat.lt_succ_self n, hwrite⟩
  case account =>
    intro i hwf
    obtain ⟨hwf', popped', hrec, hacc⟩ := h.account i hwf
    by_cases hi : i = n
    · subst hi
      obtain ⟨hwf'', hacc'⟩ := h'.account hwf'
      refine ⟨hwf'', popped' ++ popped, ?_, ?_⟩
      · rw [h'.record, hrec, List.append_assoc]
      · rw [usedIn_append, h'.uses]
        exact hacc.trans hacc'
    · rw [h'.beside.sp i hi, h'.beside.popped i hi, h'.beside.slot i hi, hother i hi]
      exact ⟨hwf', popped', hrec, hacc⟩
  case shows =>
    intro hbus i hi houti hapart v hv
    by_cases hin : i = n
    · subst hin
      have hread := h'.shows hbus v hv
      rwa [h.later i (Nat.le_refl i)] at hread
    · rw [h'.beside.slot i hin] at hv
      rw [h'.wrote.io, ecmPdoGet_putWrites fun w hw => ?_]
      · exact h.shows hbus i (by omega) houti hapart v hv
      · rw [hslot' w hw, h.wrote.layout.h]
        exact hapart n hn (by omega) hout

theorem slotTurns_done (k1 : Nat) (busLost : Bool) (t : XHook) {n : Nat} (hn : n ≤ t.x.nslots) :
    ∃ ws, SlotsDone k1 busLost n t ((List.range n).foldl (slotTurn k1 busLost) t) ws := by
  induction n with
  | zero =>
    refine ⟨[], ?_⟩
    constructor
    case wrote => exact .nothing (SameLayout.refl _) rfl rfl fun _ => rfl
    case account =>
      intro i hwf
      exact ⟨hwf, [], (List.append_nil _).symm, .refl k1 busLost _ rfl rfl rfl⟩
    case later => exact fun _ _ => rfl
    case one => exact fun _ => Nat.zero_le 1
    case legit => exact nofun
    case shows => exact nofun
    all_goals rfl
  | succ n ih =>
    obtain ⟨ws, h⟩ := ih (by omega)
    rw [List.range_succ, List.foldl_append, List.foldl_cons, List.foldl_nil]
    generalize (List.range n).foldl (slotTurn k1 busLost) t = t' at h ⊢
    by_cases hout : (t.x.slot n).isOut
    · obtain ⟨popped, used, ws', hdone⟩ :=
        slotTurn_done k1 busLost ((h.wrote.layout.isOut n).trans hout)
      exact ⟨ws ++ ws', h.succ hn hout hdone⟩
    · have hsame : slotTurn k1 busLost t' n = t' := by
        rw [slotTurn, if_pos]
        rw [h.wrote.layout.isOut n]
        simpa using hout
      rw [hsame]
      refine ⟨ws, { h with later := ?_, legit := ?_, shows := ?_ }⟩
      · exact fun i hi => h.later i (by omega)
      · exact fun w hw => ⟨Nat.lt_succ_of_lt (h.legit w hw).1, (h.legit w hw).2⟩
      · intro hbus i hi houti
        have hne : i ≠ n := by rintro rfl; exact hout houti
        exact h.shows hbus i (by omega) houti

/-- The published records. -/
theorem publishSlots_done (env : XchgArgs) (t : XHook) (n : Nat) :
    (List.range n).foldl (publishSlot env) t =
      { t with
        x :=
          { t.x with
            st := fun i =>
              if i < n then
                ecmXstWrite (t.x.st i) env.tick (slotWords env t.io (t.x.slot i) (t.x.st i))
              else t.x.st i } } := by
  induction n with
  | zero => simp
  | succ n ih =>
    rw [List.range_succ, List.foldl_append, List.foldl_cons, List.foldl_nil, ih]
    simp only [publishSlot, Nat.lt_irrefl, if_false]
    congr 2
    funext i
    by_cases hi : i = n
    · subst hi
      simp
    · rw [Function.update_of_ne hi]
      have hlt : i < n + 1 ↔ i < n := by omega
      simp only [hlt]

/-! ## The hook -/

/-- A write of a hook: a `SET` command that it took, a setpoint that it used, or
the value that the slot holds, again. -/
inductive WriteOf (t : XHook) : Xwrite → Prop where
  | set (c : Xcmd) (hc : c ∈ t.cmds) : WriteOf t (.set c)
  | setpoint (i : Nat) (e : Xsp) (he : e ∈ usedIn i t.writes) : WriteOf t (.setpoint i e)
  | hold (i : Nat) (v : Int) (hv : (t.x.slot i).held = some v) : WriteOf t (.hold i v)

/-- What a hook does. -/
structure HookDone (env : XchgArgs) (x : EcmXchg) (t : XHook) : Prop where
  layout : SameLayout x t.x
  io : t.io = t.writes.foldl (putWrite x) env.iomap
  held : ∀ i, (t.x.slot i).held = lastApplied i (x.slot i).held t.writes
  writes : ∀ w ∈ t.writes, env.busLost = false ∧ WriteOf t w
  cmds : x.cmd.WF → t.x.cmd.WF ∧ x.cmd.toList = t.cmds ++ t.x.cmd.toList
  few : t.cmds.length ≤ cmdPerTick
  due : ∀ c ∈ t.cmds, c.tick ≤ env.k1
  applied : t.x.cmdApplied = x.cmdApplied + t.cmds.length
  slots : ∀ i, (x.sp i).WF → (t.x.sp i).WF ∧
    SlotAccount env.k1 env.busLost (x.slot i) (t.x.slot i) (x.sp i).toList (t.x.sp i).toList
      (t.popped i) (usedIn i t.writes)
  used : ∀ i, ∀ e ∈ usedIn i t.writes, (t.x.slot i).held = some e.v
  shows : env.busLost = false → ∀ i, i < x.nslots → (x.slot i).isOut → Apart x i →
    ∀ v ∈ (t.x.slot i).held, ecmPdoGet (x.slot i).h t.io = xword v % 2 ^ (x.slot i).h.bits
  st : ∀ i, t.x.st i =
    if i < x.nslots then
      ecmXstWrite (x.st i) env.tick (slotWords env t.io (t.x.slot i) (x.st i))
    else x.st i

/-- Without `SET` commands the value of slot `i` is that of its setpoint. -/
theorem lastApplied_of_usedIn {i : Nat} {old : Option Int} {ws : List Xwrite}
    (hws : ∀ w ∈ ws, ∀ c, w ≠ .set c) (hone : (usedIn i ws).length ≤ 1) :
    lastApplied i old ws = ((usedIn i ws).head?.map Xsp.v).or old := by
  induction ws generalizing old with
  | nil => rfl
  | cons w ws ih =>
    have hws' : ∀ w' ∈ ws, ∀ c, w' ≠ .set c := fun w' hw' => hws w' (List.mem_cons_of_mem _ hw')
    cases w with
    | set c => exact absurd rfl (hws _ List.mem_cons_self c)
    | hold slot v =>
      have hused : usedIn i (.hold slot v :: ws) = usedIn i ws := rfl
      rw [hused] at hone ⊢
      exact ih hws' hone
    | setpoint slot e =>
      by_cases hslot : slot = i
      · have hused : usedIn i (.setpoint slot e :: ws) = e :: usedIn i ws := by
          simp [usedIn, Xwrite.usedOf, hslot]
        rw [hused] at hone ⊢
        have hnil : usedIn i ws = [] := List.eq_nil_of_length_eq_zero (by simpa using hone)
        have hstep : lastApplied i old (.setpoint slot e :: ws) = lastApplied i (some e.v) ws := by
          simp [lastApplied, Xwrite.applied, hslot]
        rw [hstep, ih hws' (by rw [hnil]; exact Nat.zero_le 1), hnil]
        rfl
      · have hused : usedIn i (.setpoint slot e :: ws) = usedIn i ws := by
          simp [usedIn, Xwrite.usedOf, hslot]
        have hstep : lastApplied i old (.setpoint slot e :: ws) = lastApplied i old ws := by
          simp [lastApplied, Xwrite.applied, hslot]
        rw [hused] at hone ⊢
        rw [hstep]
        exact ih hws' hone

theorem SameLayout.apart {x x' : EcmXchg} (h : SameLayout x x') {i : Nat} (hapart : Apart x i) :
    Apart x' i := by
  intro j hj hlater hout
  rw [h.h, h.h]
  rw [h.nslots] at hj
  rw [h.isOut] at hout
  exact hapart j hj hlater hout

/-- The three steps of a hook together. -/
theorem HookDone.of_steps {env : XchgArgs} {x : EcmXchg} {t t' : XHook} {cs : List Xcmd}
    {ws ws' : List Xwrite}
    (hc : CmdsDone env.k1 env.busLost cmdPerTick
      { x := x, io := env.iomap, cmds := [], popped := fun _ => [], writes := [] } t cs ws)
    (hs : SlotsDone env.k1 env.busLost t.x.nslots t t' ws') (clock : Xst) :
    HookDone env x
      { t' with
        x :=
          { t'.x with
            st := fun i =>
              if i < t'.x.nslots then
                ecmXstWrite (t'.x.st i) env.tick (slotWords env t'.io (t'.x.slot i) (t'.x.st i))
              else t'.x.st i
            clock := clock } } := by
  have hw := hc.wrote.trans hs.wrote
  have hwrites : t'.writes = ws ++ ws' := hw.writes
  have hcmds : t'.cmds = cs := hs.cmds.trans hc.cmds
  have hset : ∀ w ∈ ws, ∃ c ∈ cs, w = .set c := fun w hw => (hc.sets w hw).2
  have hnoset : ∀ w ∈ ws', ∀ c, w ≠ .set c := by
    rintro w hw c rfl
    rcases (hs.legit _ hw).2.2 with ⟨e, -, h⟩ | ⟨-, v, -, h⟩ <;> cases h
  -- The setpoints used are those of the second step.
  have hused : ∀ i, usedIn i t'.writes = usedIn i ws' := by
    intro i
    have hnil : usedIn i ws = [] := by
      refine List.filterMap_eq_nil_iff.2 fun w hw => ?_
      obtain ⟨c, -, rfl⟩ := hset w hw
      rfl
    rw [hwrites, usedIn_append, hnil, List.nil_append]
  have hheld : ∀ i, (t'.x.slot i).held =
      ((usedIn i ws').head?.map Xsp.v).or (t.x.slot i).held := fun i =>
    (hs.wrote.held i).trans (lastApplied_of_usedIn hnoset (hs.one i))
  constructor
  case layout => exact ⟨hw.layout.nslots, hw.layout.h, hw.layout.isOut⟩
  case io => rw [hwrites]; exact hw.io
  case held => rw [hwrites]; exact hw.held
  case writes =>
    intro w hw'
    rcases List.mem_append.1 (hwrites ▸ hw') with hw' | hw'
    · obtain ⟨hlost, c, hcs, rfl⟩ := hc.sets w hw'
      exact ⟨hlost, .set c (hcmds ▸ hcs)⟩
    · obtain ⟨-, hlost, hwrite⟩ := hs.legit w hw'
      refine ⟨hlost, ?_⟩
      rcases hwrite with ⟨e, he, hwe⟩ | ⟨hnone, v, hv, hwv⟩
      · rw [hwe]
        exact .setpoint w.slot e (by rw [hused]; exact he)
      · rw [hwv]
        refine .hold w.slot v ?_
        rw [show ∀ i, (t'.x.slot i).held = _ from hheld, hnone]
        exact hv
  case cmds =>
    intro hwf
    rw [hcmds]
    simp only [hs.cmd]
    exact hc.ring hwf
  case few => rw [hcmds]; exact hc.bound
  case due => rw [hcmds]; exact hc.due
  case applied => rw [hcmds]; exact hs.cmdApplied.trans hc.applied
  case slots =>
    intro i hwf
    have hwf : (t.x.sp i).WF := by rw [hc.sp]; exact hwf
    obtain ⟨hwf', popped, hrec, hacc⟩ := hs.account i hwf
    obtain ⟨h₁, h₂, h₃⟩ := hc.counts i
    have hpopped : t'.popped i = popped := by rw [hrec, hc.popped]; rfl
    rw [hused, hpopped]
    refine ⟨hwf', ?_, hacc.sub, hacc.why, ?_, ?_⟩
    · have hqueue := hacc.queue
      rwa [hc.sp] at hqueue
    · rw [hacc.used, h₁]
    · rw [hacc.total, h₁, h₂, h₃]
  case used =>
    intro i e he
    rw [hused] at he
    have hone : usedIn i ws' = [e] := by
      have hlen := hs.one i
      match usedIn i ws', hlen, he with
      | [e'], _, he => simp at he; rw [he]
    rw [hheld, hone]
    rfl
  case shows =>
    intro hlost i hi hout hapart v hv
    have hread := hs.shows hlost i (by rw [hc.wrote.layout.nslots]; exact hi)
      ((hc.wrote.layout.isOut i).trans hout) (hc.wrote.layout.apart hapart) v hv
    rwa [hc.wrote.layout.h] at hread
  case st =>
    intro i
    have hst : t'.x.st i = x.st i := by rw [hs.st, hc.st]
    have hn : t'.x.nslots = x.nslots := hw.layout.nslots
    rw [← hst, ← hn]

theorem ecmXchgRt_done (env : XchgArgs) (x : EcmXchg) : HookDone env x (ecmXchgRt env x) := by
  obtain ⟨cs, ws, hc⟩ := cmdLoop_done env.k1 env.busLost cmdPerTick
    { x := x, io := env.iomap, cmds := [], popped := fun _ => [], writes := [] }
  obtain ⟨ws', hs⟩ := slotTurns_done env.k1 env.busLost _ (Nat.le_refl _)
  unfold ecmXchgRt
  simp only [publishSlots_done]
  exact .of_steps hc hs _

end EcMaster.Xchg
