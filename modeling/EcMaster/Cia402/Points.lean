import EcMaster.Cia402.InFlight

/-!
# The points of PP

An accepted `PP_POINT` waits in a ring of 16, is raised with bit 4 of the
controlword when the drive is ready for it, and is acknowledged, or it is lost and
counted.  `PpTurn` says once what a hook can do to the points.

`PointsCounted` is the account: every applied `PP_POINT` is lost, acknowledged, in
the queue or raised.  `PointsSent` is about the wire: the points for which bit 4
goes up are accepted points, in their order, each once and unchanged.  It needs
that no hook with points before it confirms another mode in the very hook in which
the mode was requested.  Otherwise the axis goes on running, its raised point stays
raised in another mode, and back in PP bit 4 goes up for it a second time
(`point_sent_twice`).
-/

namespace EcMaster.Cia402

open EcMaster.Run EcMaster.Xchg

/-! ## What a hook does to the points -/

/-- The first point of the queue is raised. -/
def PpState.raise (pp : PpState) (tick : Nat) : PpState :=
  { pp with
    ppCur := pp.ppQ pp.ppHead
    ppFlags := pp.ppQf pp.ppHead
    ppHead := (pp.ppHead + 1) % ppQueue
    ppN := pp.ppN - 1
    ppPhase := .up
    ppSince := tick
    ppSent := pp.ppSent + 1 }

/-- The handshake of an axis that runs in PP.  `sw` is the statusword it works
with. -/
inductive PpStep (p : Params) (tick sw : Nat) : PpState → PpState → Prop where
  | keep {pp : PpState} : PpStep p tick sw pp pp
  | raise {pp : PpState} (hidle : pp.ppPhase = .idle) (hn : pp.ppN ≠ 0)
      (hlow : swBit sw 0x1000 = false)
      (hready : swBit (pp.ppQf pp.ppHead) ppImm = true ∨ swBit sw 0x0400 = true) :
      PpStep p tick sw pp (pp.raise tick)
  | ack {pp : PpState} (hup : pp.ppPhase = .up) (hhigh : swBit sw 0x1000 = true)
      (htwo : u64 (pp.ppSince + 2) ≤ tick) :
      PpStep p tick sw pp { pp with ppPhase := .waitLow, ppAcked := pp.ppAcked + 1 }
  | expire {pp : PpState} (hup : pp.ppPhase = .up)
      (hlate : p.stepTimeoutTicks < sub64 tick pp.ppSince)
      (hno : ¬ (swBit sw 0x1000 = true ∧ u64 (pp.ppSince + 2) ≤ tick)) :
      PpStep p tick sw pp { pp with ppPhase := .idle, ppLost := pp.ppLost + 1 }
  | low {pp : PpState} (hwait : pp.ppPhase = .waitLow) (hlow : swBit sw 0x1000 = false) :
      PpStep p tick sw pp { pp with ppPhase := .idle }

/-- The points after a stop. -/
def PpState.cleared (pp : PpState) (cur : Int) : PpState :=
  { pp with
    ppLost := pp.ppLost + (pp.ppN + if pp.ppPhase = .up then 1 else 0)
    ppN := 0
    ppPhase := .idle
    ppCur := cur }

theorem clearProfile_pp {w : Work} (hrun : w.running = false) :
    (clearProfile w).a.toPpState = w.a.toPpState.cleared w.a.ppCur := by
  unfold clearProfile
  rw [if_neg (by simp [hrun])]
  dsimp only
  by_cases hhm : w.a.hmPhase = .running
  · rw [if_pos hhm]
    rfl
  · rw [if_neg hhm]
    rfl

theorem ppStep_ppHandshake (p : Params) (h : AxHook) {w : Work} (hrun : w.running = true) :
    PpStep p h.tick w.a.sw w.a.toPpState (ppHandshake p h w).a.toPpState := by
  unfold ppHandshake
  rw [if_neg (by simp [hrun])]
  split
  · rename_i hidle
    split_ifs with hnext
    · obtain ⟨hn, hlow, hready⟩ := hnext
      exact .raise hidle hn (by simpa using hlow) hready
    · exact .keep
  · rename_i hup
    split_ifs with hack hlate
    · exact .ack hup hack.1 hack.2
    · exact .expire hup hlate hack
    · exact .keep
  · rename_i hwait
    split_ifs with hlow
    · exact .low hwait (by simpa using hlow)
    · exact .keep

/-- A raised point goes back to rest by the time-out only. -/
theorem ppHandshake_late {p : Params} {h : AxHook} {w : Work} (hrun : w.running = true)
    (hwas : w.a.ppPhase = .up) (hidle : (ppHandshake p h w).a.ppPhase = .idle) :
    (ppHandshake p h w).a.err = .handshake ∧ (ppHandshake p h w).a.target = .disabled := by
  unfold ppHandshake at hidle ⊢
  rw [if_neg (by simp [hrun])] at hidle ⊢
  simp only [hwas] at hidle ⊢
  by_cases hack : swBit w.a.sw 0x1000 ∧ h.tick ≥ u64 (w.a.ppSince + 2)
  · rw [if_pos hack] at hidle
    cases hidle
  · rw [if_neg hack] at hidle ⊢
    by_cases hlate : sub64 h.tick w.a.ppSince > p.stepTimeoutTicks
    · rw [if_pos hlate]
      exact ⟨rfl, rfl⟩
    · rw [if_neg hlate, hwas] at hidle
      cases hidle

/-- What a hook does to the points of an axis. -/
inductive PpTurn (p : Params) (h : AxHook) (a a' : Axis) : Prop where
  /-- Nothing: there is no bus, or the axis runs in another mode. -/
  | kept (hpp : a'.toPpState = a.toPpState)
      (hwhy : h.busLost = true ∨ (runsOn h a = true ∧ a.modeReq ≠ .pp))
  | stopped (hlive : h.busLost = false) (hidle : a.modeReq = .pp → runsOn h a = false)
      (hpp : a'.toPpState = a.toPpState.cleared a'.ppCur)
  | shaken (hruns : runsOn h a = true) (hmode : a.modeReq = .pp)
      (hpp : PpStep p h.tick a'.sw a.toPpState a'.toPpState)
      (hlate : a.ppPhase = .up → a'.ppPhase = .idle → a'.err = .handshake ∧ a'.target = .disabled)

theorem hmOut_pp (p : Params) (h : AxHook) (w : Work) :
    (hmOut p h w).a.toPpState = w.a.toPpState := by
  rcases hmOut_axis p h w with heq | ⟨-, -, heq⟩
  · rw [heq]
  · rw [heq, (hmProgress_pp p h w.a).1]

/-- Step 7 of an axis that does not run. -/
theorem profileOut_stopped (p : Params) (h : AxHook) {w : Work} (hrun : w.running = false) :
    (profileOut p h w).a.toPpState = w.a.toPpState.cleared (profileOut p h w).a.ppCur := by
  have hclear := clearProfile_pp hrun
  have hrun' : (clearProfile w).running = false := (clearProfile_frame w).running.trans hrun
  have hsame : ∀ w' : Work, w'.a.toPpState = (clearProfile w).a.toPpState →
      w'.a.toPpState = w.a.toPpState.cleared w'.a.ppCur := by
    intro w' hw'
    rw [hw', hclear]
    rfl
  unfold profileOut
  dsimp only
  split
  · rw [ppOut_axis, ppHandshake, if_pos (by simp [hrun'])]
    show { (clearProfile w).a.toPpState with ppCur := (clearProfile w).a.apos } = _
    rw [hclear]
    rfl
  · exact hsame _ (by rw [pvOut_axis])
  · exact hsame _ (hmOut_pp p h _)
  · exact hsame _ rfl

/-- Step 7 of an axis that runs. -/
theorem profileOut_runs (p : Params) (h : AxHook) {w : Work} (hrun : w.running = true) :
    (w.a.modeReq ≠ .pp ∧ (profileOut p h w).a.toPpState = w.a.toPpState) ∨
      (w.a.modeReq = .pp ∧ (profileOut p h w).a = (ppHandshake p h w).a) := by
  have hkeep : clearProfile w = w := if_pos hrun
  unfold profileOut
  dsimp only
  rw [hkeep]
  split
  · rename_i hmode
    exact .inr ⟨hmode, ppOut_axis p h w⟩
  · rename_i hmode
    exact .inl ⟨by simp [hmode], by rw [pvOut_axis]⟩
  · rename_i hmode
    exact .inl ⟨by simp [hmode], hmOut_pp p h w⟩
  · rename_i hpp _ _
    exact .inl ⟨fun hmode => hpp hmode, rfl⟩

/-- A hook as a whole. -/
theorem axisRt_points (p : Params) (h : AxHook) (ring : XRing XSp) (a : Axis) :
    PpTurn p h a (axisRt p h ring a).a := by
  cases hlost : h.busLost with
  | true =>
    refine .kept ?_ (.inl hlost)
    rw [(axisRt_lost ring a hlost).1]
    simp
  | false =>
    obtain ⟨w, heq, hfr⟩ := back_eq p h ring (front p h a)
    have ha := (axisRt_live (p := p) ring a hlost).1
    rw [heq] at ha
    have hpp : w.a.toPpState = a.toPpState := by simpa using hfr.pp
    have hmode : w.a.modeReq = a.modeReq := by simpa using congrArg ModeState.modeReq hfr.mode
    cases hrun : w.running with
    | false =>
      refine .stopped hlost (fun hm => ?_) ?_
      · have hprof := (hfr.profile (by simp [hm, OpMode.cyclic])).1
        rw [← front_runs_eq p h a, ← hprof, hrun]
      · rw [← hpp, ha]
        exact profileOut_stopped p h hrun
    | true =>
      have hruns : runsOn h a = true := by
        rw [← front_runs_eq p h a]
        exact hfr.running hrun
      rcases profileOut_runs p h hrun with ⟨hm, hsame⟩ | ⟨hm, hshake⟩
      · refine .kept ?_ (.inr ⟨hruns, hmode ▸ hm⟩)
        rw [ha, ← hpp]
        exact hsame
      · refine .shaken hruns (hmode ▸ hm) ?_ fun hwas hidle => ?_
        swap
        · rw [ha, hshake] at hidle ⊢
          exact ppHandshake_late hrun (by rw [hpp]; exact hwas) hidle
        have hsw : (ppHandshake p h w).a.sw = w.a.sw :=
          congrArg Inputs.sw (ppHandshake_frame p h w).inputs
        rw [ha, hshake]
        show PpStep p h.tick (ppHandshake p h w).a.sw a.toPpState (ppHandshake p h w).a.toPpState
        rw [hsw, ← hpp]
        exact ppStep_ppHandshake p h hrun

/-! ## The account -/

/-- Every point that was ever commanded. -/
def PpState.total (pp : PpState) : Nat :=
  pp.ppLost + pp.ppAcked + pp.ppN + if pp.ppPhase = .up then 1 else 0

theorem PpStep.total {p : Params} {tick sw : Nat} {pp pp' : PpState}
    (hstep : PpStep p tick sw pp pp') : pp'.total = pp.total := by
  cases hstep with
  | keep => rfl
  | raise hidle hn =>
    simp only [PpState.total, PpState.raise, hidle, reduceCtorEq, if_true, if_false]
    omega
  | ack hup =>
    simp only [PpState.total, hup]
    rw [if_neg (by decide), if_pos trivial]
    omega
  | expire hup =>
    simp only [PpState.total, hup]
    rw [if_neg (by decide), if_pos trivial]
    omega
  | low hwait => simp [PpState.total, hwait]

theorem PpTurn.total {p : Params} {h : AxHook} {a a' : Axis} (hturn : PpTurn p h a a') :
    a'.toPpState.total = a.toPpState.total := by
  cases hturn with
  | kept hpp => rw [hpp]
  | stopped _ _ hpp =>
    rw [hpp]
    simp only [PpState.total, PpState.cleared, reduceCtorEq, if_false]
    omega
  | shaken _ _ hpp => exact hpp.total

/-- A `PP_POINT` is queued or counted as lost, and no other command touches the
account. -/
theorem total_applyCmd (shutdown : Bool) (xe : AxErr) (tick : Nat) (x : XCmd) (a : Axis) :
    (applyCmd shutdown xe tick x a).toPpState.total =
      a.toPpState.total + if x.op = .ppPoint then 1 else 0 := by
  have hkeep : ∀ a' : Axis, a'.toPpState = a.toPpState → x.op ≠ .ppPoint →
      a'.toPpState.total = a.toPpState.total + if x.op = .ppPoint then 1 else 0 := by
    intro a' hpp hop
    rw [hpp, if_neg hop, Nat.add_zero]
  cases hop : x.op with
  | ppPoint =>
    rw [if_pos rfl]
    simp only [applyCmd, dispatchCmd, hop, cmdPpPoint]
    split_ifs with hidle hfull
    all_goals
      simp only [PpState.total]
      omega
  | _ =>
    rw [← hop]
    refine hkeep _ ?_ (by simp [hop])
    simp only [applyCmd, dispatchCmd, hop, cmdEnable, cmdFaultReset, cmdSetMode, cmdPvVel, cmdHome]
    try split_ifs <;> rfl

/-! ## The queue as a list -/

/-- A point: its target and its flags. -/
abbrev Point := Int × Nat

/-- The waiting points, the next one first. -/
def PpState.queue (pp : PpState) : List Point :=
  (List.range pp.ppN).map fun i =>
    (pp.ppQ ((pp.ppHead + i) % ppQueue), pp.ppQf ((pp.ppHead + i) % ppQueue))

/-- The queue with one more point. -/
def PpState.push (pp : PpState) (pt : Point) : PpState :=
  { pp with
    ppQ := Function.update pp.ppQ ((pp.ppHead + pp.ppN) % ppQueue) pt.1
    ppQf := Function.update pp.ppQf ((pp.ppHead + pp.ppN) % ppQueue) pt.2
    ppN := pp.ppN + 1 }

theorem queue_push {pp : PpState} (hok : PpOk pp) (hroom : pp.ppN ≠ ppQueue) (pt : Point) :
    (pp.push pt).queue = pp.queue ++ [pt] := by
  have hn := hok.n
  unfold PpState.queue PpState.push
  simp only [List.range_succ, List.map_append, List.map_cons, List.map_nil, Function.update_self]
  congr 1
  refine List.map_congr_left fun i hi => ?_
  have hi : i < pp.ppN := List.mem_range.1 hi
  have hne : (pp.ppHead + i) % ppQueue ≠ (pp.ppHead + pp.ppN) % ppQueue := by
    unfold ppQueue at *
    omega
  rw [Function.update_of_ne hne, Function.update_of_ne hne]

/-- Raising takes the first point of the queue. -/
theorem queue_raise {pp : PpState} (hok : PpOk pp) (hn : pp.ppN ≠ 0) (tick : Nat) :
    pp.queue = (pp.ppQ pp.ppHead, pp.ppQf pp.ppHead) :: (pp.raise tick).queue := by
  obtain ⟨n, hn'⟩ := Nat.exists_eq_succ_of_ne_zero hn
  have hhead : (pp.ppHead + 0) % ppQueue = pp.ppHead := Nat.mod_eq_of_lt hok.head
  unfold PpState.queue PpState.raise
  simp only [hn', Nat.succ_eq_add_one, List.range_succ_eq_map, List.map_cons, List.map_map, hhead,
    Nat.add_sub_cancel]
  congr 1
  refine List.map_congr_left fun i _ => ?_
  have hidx : (pp.ppHead + (i + 1)) % ppQueue = ((pp.ppHead + 1) % ppQueue + i) % ppQueue := by
    unfold ppQueue
    omega
  simp only [Function.comp, Nat.succ_eq_add_one, hidx]

/-! ## Histories -/

/-- The step applies a `PP_POINT`. -/
def isPoint (q : AxRec) : Bool :=
  match q.ev with
  | .cmd c _ _ => c.op = .ppPoint
  | _ => false

/-- The point that the step accepts. -/
def acceptedPoint (q : AxRec) : Option Point :=
  match q.ev with
  | .cmd c _ _ =>
      if c.op = .ppPoint ∧ profileAccepted c q.pre.a = true then
        some (c.arg0, (c.arg1 % 256).toNat)
      else none
  | _ => none

/-- The point for which the step begins the handshake. -/
def raisedPoint (q : AxRec) : Option Point :=
  if q.pre.a.ppPhase ≠ .up ∧ q.post.a.ppPhase = .up then some (q.post.a.ppCur, q.post.a.ppFlags)
  else none

/-- The point for which bit 4 of the controlword goes up in the step. -/
def sentPoint (q : AxRec) : Option Point :=
  if q.ev.hook?.isSome ∧ q.post.a.modeReq = .pp ∧ q.pre.a.cw.testBit 4 = false ∧
      q.post.out.cw.any (·.testBit 4) then
    some (q.post.a.ppCur, q.post.a.ppFlags)
  else none

def acceptedPoints (hist : List AxRec) : List Point := hist.filterMap acceptedPoint
def raisedPoints (hist : List AxRec) : List Point := hist.filterMap raisedPoint
def sentPoints (hist : List AxRec) : List Point := hist.filterMap sentPoint

/-- What the points of an axis are after a history.  The points that were raised
and those that wait are accepted points in their order. -/
structure PointsInv (hist : List AxRec) (s : AxSt) : Prop where
  ok : PpOk s.a.toPpState
  counted : s.a.toPpState.total = hist.countP isPoint
  sent : (raisedPoints hist).length = s.a.ppSent
  order : (raisedPoints hist ++ s.a.toPpState.queue).Sublist (acceptedPoints hist)
  last : s.a.ppPhase = .up → (raisedPoints hist).getLast? = some (s.a.ppCur, s.a.ppFlags)

theorem pointsInv_init (x : AxisSetup) : PointsInv [] x.init :=
  ⟨⟨by show 0 < ppQueue; decide, Nat.zero_le _⟩, rfl, rfl, List.Sublist.refl [],
    fun hup => by cases hup⟩

/-- A step that raises no point and keeps the raised one, if any is left. -/
theorem PointsInv.keep {hist : List AxRec} {s : AxSt} {r : AxRec} (hI : PointsInv hist s)
    (hpre : r.pre = s) (hok : PpOk r.post.a.toPpState)
    (hcount : r.post.a.toPpState.total = s.a.toPpState.total + if isPoint r then 1 else 0)
    (hsent : r.post.a.ppSent = s.a.ppSent)
    (hqueue : r.post.a.toPpState.queue.Sublist
      (s.a.toPpState.queue ++ (acceptedPoint r).toList))
    (hup : r.post.a.ppPhase = .up →
      s.a.ppPhase = .up ∧ r.post.a.ppCur = s.a.ppCur ∧ r.post.a.ppFlags = s.a.ppFlags) :
    PointsInv (hist ++ [r]) r.post := by
  have hnone : raisedPoint r = none := by
    unfold raisedPoint
    rw [if_neg]
    rintro ⟨hno, hyes⟩
    rw [hpre] at hno
    exact hno (hup hyes).1
  have hraised : raisedPoints (hist ++ [r]) = raisedPoints hist := by
    simp [raisedPoints, hnone]
  refine ⟨hok, ?_, ?_, ?_, fun hphase => ?_⟩
  · rw [hcount, hI.counted, List.countP_append, List.countP_singleton]
  · rw [hraised, hsent]
    exact hI.sent
  · rw [hraised, acceptedPoints, filterMap_concat]
    refine ((List.Sublist.refl _).append hqueue).trans ?_
    rw [← List.append_assoc]
    exact hI.order.append (List.Sublist.refl _)
  · obtain ⟨hwas, hcur, hflags⟩ := hup hphase
    rw [hraised, hcur, hflags]
    exact hI.last hwas

/-- The handshake of PP. -/
theorem PointsInv.shake {p : Params} {tick sw : Nat} {hist : List AxRec} {s : AxSt} {r : AxRec}
    (hI : PointsInv hist s) (hpre : r.pre = s) (hhook : r.ev.hook?.isSome = true)
    (hstep : PpStep p tick sw s.a.toPpState r.post.a.toPpState)
    (hok : PpOk r.post.a.toPpState) :
    PointsInv (hist ++ [r]) r.post := by
  obtain ⟨h, hev⟩ := exists_hook hhook
  have hpoint : isPoint r = false := by simp [isPoint, hev]
  have haccepted : acceptedPoint r = none := by simp [acceptedPoint, hev]
  have htotal := hstep.total
  generalize hpp : s.a.toPpState = pp at hstep htotal
  generalize hpp' : r.post.a.toPpState = pp' at hstep htotal
  -- all but the raise leave the queue and the raised point as they are
  have hkeep (hsent : pp'.ppSent = pp.ppSent) (hqueue : pp'.queue = pp.queue)
      (hup : pp'.ppPhase = .up → pp.ppPhase = .up ∧ pp'.ppCur = pp.ppCur ∧
        pp'.ppFlags = pp.ppFlags) : PointsInv (hist ++ [r]) r.post := by
    subst hpp hpp'
    refine hI.keep hpre hok ?_ hsent ?_ hup
    · rw [htotal, hpoint]
      rfl
    · rw [hqueue, haccepted]
      simp
  cases hstep with
  | keep => exact hkeep rfl rfl fun hup => ⟨hup, rfl, rfl⟩
  | ack => exact hkeep rfl rfl (by simp)
  | expire => exact hkeep rfl rfl (by simp)
  | low => exact hkeep rfl rfl (by simp)
  | raise hidle hn hlow hready =>
    subst hpp
    have hraised : raisedPoint r = some (s.a.ppQ s.a.ppHead, s.a.ppQf s.a.ppHead) := by
      unfold raisedPoint
      rw [hpre, if_pos ⟨by simp [hidle], by rw [hpp']; rfl⟩, hpp']
      rfl
    have hlist : raisedPoints (hist ++ [r]) =
        raisedPoints hist ++ [(s.a.ppQ s.a.ppHead, s.a.ppQf s.a.ppHead)] := by
      simp [raisedPoints, hraised]
    refine ⟨hok, ?_, ?_, ?_, fun _ => ?_⟩
    · rw [hpp', htotal, hI.counted, List.countP_append, List.countP_singleton, hpoint]
      rfl
    · rw [hlist, List.length_append, hI.sent, hpp']
      rfl
    · rw [hlist, List.append_assoc, acceptedPoints, filterMap_concat, haccepted, hpp']
      have horder := hI.order
      rw [queue_raise hI.ok hn tick] at horder
      simpa [acceptedPoints] using horder
    · rw [hlist, hpp']
      simp [PpState.raise]

theorem queue_cleared (pp : PpState) (cur : Int) : (pp.cleared cur).queue = [] := rfl

theorem PointsInv.hook {hist : List AxRec} {s : AxSt} (hI : PointsInv hist s) (p : Params)
    (h : AxHook) :
    PointsInv (hist ++ [⟨s, .hook h, axStep p s (.hook h)⟩]) (axStep p s (.hook h)) := by
  have hturn := axisRt_points p h s.ring s.a
  have hok := ppOk_axisRt p h s.ring hI.ok
  have htotal := hturn.total
  change PpTurn p h s.a (axStep p s (.hook h)).a at hturn
  change PpOk (axStep p s (.hook h)).a.toPpState at hok
  change (axStep p s (.hook h)).a.toPpState.total = _ at htotal
  generalize axStep p s (.hook h) = t at *
  cases hturn with
  | kept hpp =>
    refine hI.keep (r := ⟨s, .hook h, t⟩) rfl hok ?_ ?_ ?_ ?_
    · exact htotal
    · exact (congrArg PpState.ppSent hpp :)
    · simp [hpp]
    · simp [hpp]
  | stopped hlive hidle hpp =>
    refine hI.keep (r := ⟨s, .hook h, t⟩) rfl hok ?_ ?_ ?_ ?_
    · exact htotal
    · exact (congrArg PpState.ppSent hpp :)
    · rw [hpp, queue_cleared]
      exact List.nil_sublist _
    · rw [hpp]
      simp [PpState.cleared]
  | shaken hruns hmode hpp => exact hI.shake (r := ⟨s, .hook h, t⟩) rfl rfl hpp hok

theorem PointsInv.cmd {hist : List AxRec} {s : AxSt} (hI : PointsInv hist s) (p : Params)
    (c : XCmd) (xe : AxErr) (tick : Nat) :
    PointsInv (hist ++ [⟨s, .cmd c xe tick, axStep p s (.cmd c xe tick)⟩])
      (axStep p s (.cmd c xe tick)) := by
  have hcmd := profile_applyCmd s.shutdown xe tick c s.a
  have hok := ppOk_applyCmd s.shutdown xe tick c hI.ok
  have htotal := total_applyCmd s.shutdown xe tick c s.a
  change ProfileCmd tick c s.a (axStep p s (.cmd c xe tick)).a at hcmd
  change PpOk (axStep p s (.cmd c xe tick)).a.toPpState at hok
  change (axStep p s (.cmd c xe tick)).a.toPpState.total = _ at htotal
  generalize axStep p s (.cmd c xe tick) = t at *
  have htotal : t.a.toPpState.total = s.a.toPpState.total +
      if isPoint ⟨s, .cmd c xe tick, t⟩ then 1 else 0 := by
    simpa [isPoint] using htotal
  -- a command other than an accepted point keeps the queue
  have hkeep (hpp : t.a.toPpState = { s.a.toPpState with ppLost := t.a.ppLost }) :
      PointsInv (hist ++ [⟨s, .cmd c xe tick, t⟩]) t := by
    refine hI.keep (r := ⟨s, .cmd c xe tick, t⟩) rfl hok htotal ?_ ?_ ?_
    · exact (congrArg PpState.ppSent hpp :)
    · rw [hpp]
      exact List.sublist_append_left _ _
    · have hphase : t.a.ppPhase = s.a.ppPhase := (congrArg PpState.ppPhase hpp :)
      exact fun hup => ⟨hphase ▸ hup, (congrArg PpState.ppCur hpp :),
        (congrArg PpState.ppFlags hpp :)⟩
  cases hcmd with
  | refused hacc hpp hhm => exact hkeep hpp
  | vel hop hacc hpp hhm => exact hkeep (by rw [hpp])
  | home hop hacc hpp hhm => exact hkeep (by rw [hpp])
  | point hop hacc hroom hpp hhm =>
    have hpush : t.a.toPpState = s.a.toPpState.push (c.arg0, (c.arg1 % 256).toNat) := hpp
    refine hI.keep (r := ⟨s, .cmd c xe tick, t⟩) rfl hok htotal ?_ ?_ ?_
    · exact (congrArg PpState.ppSent hpp :)
    · rw [hpush, queue_push hI.ok hroom]
      simp [acceptedPoint, hop, hacc]
    · simp [hpp]

theorem PointsInv.step {hist : List AxRec} {s : AxSt} (hI : PointsInv hist s) (p : Params)
    (e : AxEv) : PointsInv (hist ++ [⟨s, e, axStep p s e⟩]) (axStep p s e) := by
  cases e with
  | cmd c xe tick => exact hI.cmd p c xe tick
  | setpoint sp | shutdown =>
    exact hI.keep rfl hI.ok rfl rfl (List.sublist_append_left _ _) fun hup => ⟨hup, rfl, rfl⟩
  | hook h => exact hI.hook p h

/-! ## What is written for a raised point -/

/-- Only the time-out of the handshake changes the controlword, and it leaves no
point raised. -/
theorem ppHandshake_up_cw {p : Params} {h : AxHook} {w : Work}
    (hup : (ppHandshake p h w).a.ppPhase = .up) : (ppHandshake p h w).cw = w.cw := by
  unfold ppHandshake ppRaise ppTimeout at hup ⊢
  split
  · rfl
  · rename_i hrun
    rw [if_neg hrun] at hup
    split at hup <;> split_ifs at hup ⊢ <;> simp_all

theorem ppOut_spec (p : Params) (h : AxHook) (w : Work) :
    (ppOut p h w).tpos =
        (if (ppHandshake p h w).a.b.tpos.mapped then some (ppHandshake p h w).a.ppCur
        else (ppHandshake p h w).tpos) ∧
      (ppOut p h w).cw =
        if (ppHandshake p h w).running && (ppHandshake p h w).cw = 0x000F &&
            (ppHandshake p h w).a.ppPhase = .up then
          (ppHandshake p h w).cw ||| ppBits (ppHandshake p h w).a.ppFlags
        else (ppHandshake p h w).cw := by
  unfold ppOut
  generalize ppHandshake p h w = w1
  dsimp only
  by_cases hmap : w1.a.b.tpos.mapped = true
  · simp only [hmap, if_true]
    split_ifs <;> exact ⟨rfl, rfl⟩
  · simp only [if_neg hmap]
    split_ifs <;> exact ⟨rfl, rfl⟩

/-- In PP with a bus, 0x607A is the current point, and bit 4 is up while a point is
raised and no reset pulse is under way. -/
theorem axisRt_pp {p : Params} {h : AxHook} (ring : XRing XSp) {a : Axis}
    (hlive : h.busLost = false) (hmode : a.modeReq = .pp) :
    (a.b.tpos.mapped = true →
        (axisRt p h ring a).out.tpos = some (axisRt p h ring a).a.ppCur) ∧
      (runsOn h a = true → a.resetPulse = 0 → (axisRt p h ring a).a.ppPhase = .up →
        (axisRt p h ring a).out.cw =
          some (0x000F ||| ppBits (axisRt p h ring a).a.ppFlags)) := by
  obtain ⟨w, heq, hfr⟩ := back_eq p h ring (front p h a)
  obtain ⟨ha, hcw, htpos, -⟩ := axisRt_live (p := p) ring a hlive
  obtain ⟨hrunning, hwcw, -, -⟩ := hfr.profile (by simp [hmode, OpMode.cyclic])
  have hcl := clearProfile_frame w
  have hclmode : (clearProfile w).a.modeReq = .pp := by
    rw [hcl.mode, hfr.mode]
    simpa using hmode
  have hprof : profileOut p h w = ppOut p h (clearProfile w) := by
    unfold profileOut
    dsimp only
    rw [hclmode]
  have hshake := ppHandshake_frame p h (clearProfile w)
  have hcfg : (ppHandshake p h (clearProfile w)).a.b = a.b := by
    have hall := hshake.cfg.trans (hcl.cfg.trans hfr.cfg)
    simpa using congrArg AxisCfg.b hall
  obtain ⟨hptpos, hpcw⟩ := ppOut_spec p h (clearProfile w)
  rw [ha, hcw, htpos, heq, hprof]
  refine ⟨fun hmap => ?_, fun hruns hpulse hup => ?_⟩
  · rw [hptpos, if_pos (by rw [hcfg]; exact hmap), ppOut_axis]
  · simp only [ppOut_axis] at hup ⊢
    have hf : (ppHandshake p h (clearProfile w)).cw = 0x000F := by
      rw [ppHandshake_up_cw hup, (clearProfile_control w).1, hwcw, front_cw_runs hruns hpulse]
    have hrun : (ppHandshake p h (clearProfile w)).running = true := by
      rw [hshake.running, hcl.running, hrunning, front_runs_eq, hruns]
    rw [hpcw, if_pos (by simp [hrun, hf, hup]), hf]

/-! ## Every run -/

/-- The account of the points. -/
structure PointsCounted (hist : List AxRec) (r : AxRec) : Prop where
  counted : (hist ++ [r]).countP isPoint =
    r.post.a.ppLost + r.post.a.ppAcked + r.post.a.ppN + if r.post.a.ppPhase = .up then 1 else 0
  room : r.post.a.ppN ≤ 16
  head : r.post.a.ppHead < 16
  raised : (raisedPoints (hist ++ [r])).length = r.post.a.ppSent
  order : (raisedPoints (hist ++ [r])).Sublist (acceptedPoints (hist ++ [r]))

/-- A hook that writes bit 4 in PP writes the controlword and 0x607A of the last point
for which bit 4 went up. -/
def ShowsLastPoint (hist : List AxRec) (r : AxRec) : Prop :=
  r.ev.hook?.isSome = true → r.post.a.modeReq = .pp → ∀ cw ∈ r.post.out.cw,
    cw.testBit 4 = true → ∃ pt ∈ (sentPoints (hist ++ [r])).getLast?,
      cw = 0x000F ||| ppBits pt.2 ∧ (r.post.a.b.tpos.mapped = true → r.post.out.tpos = some pt.1)

/-- The points on the wire: bit 4 goes up once for each, in the order in which they
were accepted, and as long as it is up the controlword and 0x607A are those of the
last of them. -/
structure PointsSent (hist : List AxRec) (r : AxRec) : Prop where
  sent : (sentPoints (hist ++ [r])).length = r.post.a.ppSent
  order : (sentPoints (hist ++ [r])).Sublist (acceptedPoints (hist ++ [r]))
  unchanged : ShowsLastPoint hist r

/-- A hook that finds the axis ready to run with points before it has no reset
pulse to send, and if the axis ran at the last hook with a bus, it ran in the mode
that is requested now. -/
def PointsSettled (hist : List AxRec) (r : AxRec) : Prop :=
  ∀ h ∈ r.ev.hook?, runsOn h r.pre.a = true → (r.pre.a.ppN ≠ 0 ∨ r.pre.a.ppPhase = .up) →
    r.pre.a.resetPulse = 0 ∧
      (r.pre.a.running = true → ∀ q ∈ lastLive hist, q.post.a.modeReq = r.pre.a.modeReq)

instance (hist : List AxRec) (r : AxRec) : Decidable (PointsSettled hist r) :=
  inferInstanceAs (Decidable (∀ h ∈ r.ev.hook?, _))

/-- Bit 4 on the wire and the phase of the handshake go together, if the mode is
settled. -/
structure WireInv (hist : List AxRec) (s : AxSt) : Prop where
  high : s.a.cw.testBit 4 = true → s.a.running = true ∧ ∃ q ∈ lastLive hist,
    q.post.a.modeReq = .hm ∨ (q.post.a.modeReq = .pp ∧ s.a.ppPhase = .up)
  up : s.a.ppPhase = .up → s.a.running = true ∧ s.a.cw.testBit 4 = true ∧
    ∃ q ∈ lastLive hist, q.post.a.modeReq = .pp
  same : sentPoints hist = raisedPoints hist

theorem wireInv_init (x : AxisSetup) : WireInv [] x.init := by
  refine ⟨fun hbit => ?_, fun hup => ?_, rfl⟩
  · have hzero : x.init.a.cw = 0 := rfl
    simp [hzero] at hbit
  · cases hup

/-- A step that is no hook with a bus and keeps the phase. -/
theorem WireInv.quiet {hist : List AxRec} {s : AxSt} {r : AxRec} (hI : WireInv hist s)
    (hpre : r.pre = s) (hlive : live r = false) (hcw : r.post.a.cw = s.a.cw)
    (hrun : r.post.a.running = s.a.running) (hphase : r.post.a.ppPhase = s.a.ppPhase)
    (hsilent : r.ev.hook?.isSome = true → r.post.out.cw = none) :
    WireInv (hist ++ [r]) r.post := by
  have hlast : lastLive (hist ++ [r]) = lastLive hist := by
    rw [lastLive_concat, if_neg (by simp [hlive])]
  have hsent : sentPoint r = none := by
    unfold sentPoint
    rw [if_neg]
    rintro ⟨hhook, -, -, hany⟩
    simp [hsilent hhook] at hany
  have hraised : raisedPoint r = none := by
    unfold raisedPoint
    rw [if_neg]
    rintro ⟨hno, hyes⟩
    exact hno (by rw [hpre, ← hphase, hyes])
  refine ⟨?_, ?_, ?_⟩
  · rw [hcw, hrun, hphase, hlast]
    exact hI.high
  · rw [hcw, hrun, hphase, hlast]
    exact hI.up
  · simpa [sentPoints, raisedPoints, hsent, hraised] using hI.same

/-- A point that is raised after a hook with a bus is a point of PP, and bit 4 is up
for it. -/
theorem WireInv.raised {p : Params} {h : AxHook} {hist : List AxRec} {s : AxSt}
    (hI : WireInv hist s) (hC : PointsSettled hist ⟨s, .hook h, axStep p s (.hook h)⟩)
    (hlive : h.busLost = false) (hup : (axisRt p h s.ring s.a).a.ppPhase = .up) :
    runsOn h s.a = true ∧ s.a.modeReq = .pp ∧
      (axisRt p h s.ring s.a).out.cw =
        some (0x000F ||| ppBits (axisRt p h s.ring s.a).a.ppFlags) ∧
      (s.a.ppPhase ≠ .up → s.a.cw.testBit 4 = false) := by
  cases axisRt_points p h s.ring s.a with
  | kept hpp hwhy =>
    -- the point was raised in PP, and the axis now runs in another mode
    rcases hwhy with hlost | ⟨hruns, hmode⟩
    · simp [hlive] at hlost
    · have hwas : s.a.ppPhase = .up := by
        rw [← hup]
        exact (congrArg PpState.ppPhase hpp :).symm
      obtain ⟨hrun, -, q, hq, hqmode⟩ := hI.up hwas
      have hset := (hC h rfl hruns (.inr hwas)).2 hrun q hq
      exact absurd (hset ▸ hqmode) hmode
  | stopped _ _ hpp =>
    rw [hpp] at hup
    cases hup
  | shaken hruns hmode hpp =>
    have hbefore : s.a.ppN ≠ 0 ∨ s.a.ppPhase = .up := by
      generalize (axisRt p h s.ring s.a).a.toPpState = pp' at hpp hup
      cases hpp with
      | keep => exact .inr hup
      | raise hidle hn => exact .inl hn
      | ack => cases hup
      | expire => cases hup
      | low => cases hup
    obtain ⟨hpulse, hset⟩ := hC h rfl hruns hbefore
    refine ⟨hruns, hmode, (axisRt_pp s.ring hlive hmode).2 hruns hpulse hup, fun hno => ?_⟩
    by_contra hbit
    obtain ⟨hrun, q, hq, hhm | ⟨-, hwas⟩⟩ := hI.high (by simpa using hbit)
    · have hqm : q.post.a.modeReq = .pp := (hset hrun q hq).trans hmode
      rw [hhm] at hqm
      cases hqm
    · exact hno hwas

theorem ppBits_testBit_four (flags : Nat) : (0x000F ||| ppBits flags).testBit 4 = true := by
  rcases ppBits_cases flags with hb | hb | hb | hb <;> simp [hb, Nat.testBit]

/-- Bit 4 goes up on the wire when a point is raised. -/
theorem WireInv.sentPoint_eq {p : Params} {h : AxHook} {hist : List AxRec} {s : AxSt}
    (hI : WireInv hist s) (hC : PointsSettled hist ⟨s, .hook h, axStep p s (.hook h)⟩)
    (hlive : h.busLost = false) :
    sentPoint ⟨s, .hook h, axStep p s (.hook h)⟩ =
      raisedPoint ⟨s, .hook h, axStep p s (.hook h)⟩ := by
  have hmode : (axStep p s (.hook h)).a.modeReq = s.a.modeReq := by simp [axStep]
  by_cases hup : (axStep p s (.hook h)).a.ppPhase = .up
  · obtain ⟨-, hpp, hout, hlow⟩ := hI.raised hC hlive hup
    have hany : (axStep p s (.hook h)).out.cw.any (·.testBit 4) = true :=
      (Option.any_eq_true _ _).2 ⟨_, hout, ppBits_testBit_four _⟩
    by_cases hwas : s.a.ppPhase = .up
    · have hbit := (hI.up hwas).2.1
      have hsent : sentPoint ⟨s, .hook h, axStep p s (.hook h)⟩ = none :=
        if_neg fun hrise => by simp [hbit] at hrise
      have hraised : raisedPoint ⟨s, .hook h, axStep p s (.hook h)⟩ = none :=
        if_neg fun hrise => hrise.1 hwas
      rw [hsent, hraised]
    · exact (if_pos ⟨rfl, hmode.trans hpp, hlow hwas, hany⟩ : sentPoint _ = _).trans
        (if_pos ⟨hwas, hup⟩ : raisedPoint _ = _).symm
  · have hraised : raisedPoint ⟨s, .hook h, axStep p s (.hook h)⟩ = none :=
      if_neg fun hrise => hup hrise.2
    rw [hraised]
    refine if_neg ?_
    rintro ⟨-, hpp, -, hany⟩
    obtain ⟨cw, hcw, hbit⟩ := (Option.any_eq_true _ _).1 hany
    rcases (axisRt_bit4 hcw hbit).2 with ⟨-, hphase, -⟩ | ⟨hhm, -⟩
    · exact hup hphase
    · rw [← hmode, hpp] at hhm
      cases hhm

theorem WireInv.hook {p : Params} {h : AxHook} {hist : List AxRec} {s : AxSt}
    (hI : WireInv hist s) (hC : PointsSettled hist ⟨s, .hook h, axStep p s (.hook h)⟩) :
    WireInv (hist ++ [⟨s, .hook h, axStep p s (.hook h)⟩]) (axStep p s (.hook h)) := by
  cases hlost : h.busLost with
  | true =>
    refine hI.quiet (r := ⟨s, .hook h, axStep p s (.hook h)⟩) rfl (by simp [live, hlost]) ?_ ?_ ?_ ?_
    all_goals
      simp only [axStep, (axisRt_lost (p := p) s.ring s.a hlost).1, front_groups, Outputs.silent,
        implies_true]
  | false =>
    have hlast : lastLive (hist ++ [⟨s, .hook h, axStep p s (.hook h)⟩]) =
        some ⟨s, .hook h, axStep p s (.hook h)⟩ := by
      rw [lastLive_concat, if_pos (by simp [live, hlost])]
    have hmode : (axisRt p h s.ring s.a).a.modeReq = s.a.modeReq := by simp
    have hrun := axisRt_running (p := p) s.ring s.a hlost
    have hcw : (axisRt p h s.ring s.a).out.cw = some (axisRt p h s.ring s.a).a.cw := by
      obtain ⟨ha, hcw, -⟩ := axisRt_live (p := p) s.ring s.a hlost
      rw [ha, hcw]
    refine ⟨fun hbit => ?_, fun hup => ?_, ?_⟩
    · obtain ⟨hruns, hwhy⟩ := axisRt_bit4 hcw hbit
      refine ⟨hrun.trans hruns, _, hlast, ?_⟩
      rcases hwhy with ⟨hpp, hup, -⟩ | ⟨hhm, -⟩
      · exact .inr ⟨hmode.trans hpp, hup⟩
      · exact .inl (hmode.trans hhm)
    · obtain ⟨hruns, hpp, hout, -⟩ := hI.raised hC hlost hup
      refine ⟨hrun.trans hruns, ?_, _, hlast, hmode.trans hpp⟩
      rw [hcw, Option.some.injEq] at hout
      show (axisRt p h s.ring s.a).a.cw.testBit 4 = true
      rw [hout]
      exact ppBits_testBit_four _
    · rw [sentPoints, raisedPoints, filterMap_concat, filterMap_concat,
        hI.sentPoint_eq hC hlost]
      exact congrArg (· ++ _) hI.same

theorem WireInv.step {p : Params} {hist : List AxRec} {s : AxSt} (hI : WireInv hist s) (e : AxEv)
    (hC : PointsSettled hist ⟨s, e, axStep p s e⟩) :
    WireInv (hist ++ [⟨s, e, axStep p s e⟩]) (axStep p s e) := by
  cases e with
  | cmd c xe tick =>
    refine hI.quiet (r := ⟨s, .cmd c xe tick, axStep p s (.cmd c xe tick)⟩) rfl rfl
      (by simp [axStep]) (by simp [axStep]) ?_ (by simp [AxEv.hook?])
    show (applyCmd s.shutdown xe tick c s.a).ppPhase = s.a.ppPhase
    cases profile_applyCmd s.shutdown xe tick c s.a with
    | refused _ hpp => rw [hpp]
    | point _ _ _ hpp => rw [hpp]
    | vel _ _ hpp => rw [hpp]
    | home _ _ hpp => rw [hpp]
  | setpoint sp => exact hI.quiet rfl rfl rfl rfl rfl (by simp [AxEv.hook?])
  | shutdown => exact hI.quiet rfl rfl rfl rfl rfl (by simp [AxEv.hook?])
  | hook h => exact hI.hook hC

theorem pointsSent_of_inv {p : Params} {hist : List AxRec} {s : AxSt} {e : AxEv}
    (hP : PointsInv (hist ++ [⟨s, e, axStep p s e⟩]) (axStep p s e))
    (hW : WireInv (hist ++ [⟨s, e, axStep p s e⟩]) (axStep p s e)) :
    PointsSent hist ⟨s, e, axStep p s e⟩ := by
  refine ⟨?_, ?_, fun hhook hmode cw hcw hbit => ?_⟩
  · rw [hW.same]
    exact hP.sent
  · rw [hW.same]
    exact (List.sublist_append_left _ _).trans hP.order
  · obtain ⟨h, rfl⟩ := exists_hook hhook
    have hmode : s.a.modeReq = .pp := by simpa [axStep] using hmode
    obtain ⟨hruns, ⟨-, hup, heq⟩ | ⟨hhm, -⟩⟩ := axisRt_bit4 hcw hbit
    · have hlive : h.busLost = false := by simp_all [runsOn]
      rw [hW.same]
      refine ⟨_, hP.last hup, heq, fun hmap => ?_⟩
      exact (axisRt_pp s.ring hlive hmode).1 (by simpa [axStep] using hmap)
    · rw [hmode] at hhm
      cases hhm

/-- **Points are neither lost silently nor overwritten.**  In every run every
`PP_POINT` is accounted for, and those that were raised are accepted points in
their order.  If the mode is settled at every hook that has points before it, bit 4
goes up once for each of them. -/
theorem points_neither_lost_nor_overwritten (cfg : Config) (evs : List Event)
    (i : Fin cfg.axes.length) :
    cfg.AxisAlong evs i PointsCounted ∧
      (cfg.AxisAlong evs i PointsSettled → cfg.AxisAlong evs i PointsSent) := by
  constructor
  · refine Along.of_invariant' (I := PointsInv) (pointsInv_init _)
      (fun hist s e hI => hI.step _ e) (fun hist s e hI => ?_) _
    have hpost := hI.step cfg.boot.c.p e
    exact ⟨hpost.counted.symm, hpost.ok.n, hpost.ok.head, hpost.sent,
      (List.sublist_append_left _ _).trans hpost.order⟩
  · refine Along.of_invariant (I := fun hist s => PointsInv hist s ∧ WireInv hist s)
      ⟨pointsInv_init _, wireInv_init _⟩
      (fun hist s e hI hC => ⟨hI.1.step _ e, hI.2.step e hC⟩) (fun hist s e hI hC => ?_)
    exact pointsSent_of_inv (hI.1.step _ e) (hI.2.step e hC)

/-- CSP is requested and confirmed in the very next hook while a point is raised,
and then PP again. -/
def pointOverModes : List Event :=
  [ smallCmd .setMode 1, smallCmd .enable 0, smallHook 6 0x427 1000 1,
    smallCmd .ppPoint 5000, smallHook 7 0x427 1000 1,
    smallCmd .setMode 8, smallHook 8 0x427 1000 8,
    smallCmd .setMode 1, smallHook 9 0x427 1000 1 ]

/-- In `pointOverModes` bit 4 goes up twice for the one point. -/
theorem point_sent_twice :
    ¬ smallConfig.AxisAlong pointOverModes ⟨0, by decide⟩ PointsSent := by
  intro hall
  have hcount : smallConfig.AxisAlong pointOverModes ⟨0, by decide⟩ fun hist r =>
      (sentPoints (hist ++ [r])).length = r.post.a.ppSent :=
    fun hist r rest htrace => (hall hist r rest htrace).sent
  revert hcount
  decide

/-- A run that meets the condition: three points, the second of them relative. -/
theorem points_neither_lost_nor_overwritten_small :
    smallConfig.AxisAlong
      [ smallCmd .setMode 1, smallCmd .enable 0, smallHook 6 0x427 1000 1,
        smallCmd .ppPoint 5000, .cmd 0 .ppPoint 600 1 0 0, smallHook 7 0x427 1000 1,
        smallHook 8 0x427 1000 1, smallHook 9 0x1427 1000 1, smallHook 10 0x427 2000 1,
        smallCmd .ppPoint 7000, smallHook 11 0x427 5000 1 ]
      ⟨0, by decide⟩ PointsSent :=
  (points_neither_lost_nor_overwritten smallConfig _ ⟨0, by decide⟩).2 (by decide)

end EcMaster.Cia402
