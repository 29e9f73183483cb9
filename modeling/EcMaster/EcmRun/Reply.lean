import EcMaster.Core.DcGate
import EcMaster.Diag.Analyze
import EcMaster.EcmRun.Latch

/-!
# Replies that are not taken

SOEM matches a reply to a frame by an index of which it has sixteen, so a late
reply can be taken for the reply to a newer frame.  The main loop has two checks
against that: the datagram headers of the reply must be those of the frame that
was sent (`replyHeaderMatches`), and the reference time of a motion reply must
pass the gate of `ecm_dc_update`.  A reply that fails either is to leave no
trace: `service_group` has copied the inputs before the receive and puts them
back, the cycle counts as one without a frame, and the hook is told so.

`Receive` is what SOEM does in one exchange, `serviceGroup` the code around it,
and `tickIn` the part of the main loop that makes of two exchanges the round of
`EcMaster.EcmRun.Loop`.

The copy has 256 bytes and is not made at all of a larger image, so a rejected
reply is undone whatever bytes it brings exactly in the groups of at most 256 bytes.
`in_valid` is the motion group's flag: it says nothing about a rejected reply of the
I/O group.  `large_image_keeps_foreign_inputs` has a round for each.
-/

namespace EcMaster.EcmRun

open EcMaster.ByteImage EcMaster.Core EcMaster.Cia402 EcMaster.Diag EcMaster.Policy

/-! ## The headers of a reply -/

/-- A little-endian word. -/
def le16 (b : Image) (i : Nat) : Nat := (b i).toNat + 256 * (b (i + 1)).toNat

/-- The loop of `reply_header_matches` over the datagrams from offset `off` on, for
at most `fuel` of them. -/
def datagramsMatch (tx rx : Image) (txlen : Int) : Nat → Nat → Bool
  | 0, _ => false
  | fuel + 1, off =>
      if txlen < off + 10 then false
      else if rx off ≠ tx off then false                                    -- command
      else if ∃ k < 4, rx (off + 2 + k) ≠ tx (off + 2 + k) then false       -- ADP and ADO
      else if le16 tx (off + 6) % 0x800 ≠ le16 rx (off + 6) % 0x800 then false
      else if le16 tx (off + 6) < 0x8000 then true                          -- the last one
      else datagramsMatch tx rx txlen fuel (off + 10 + le16 tx (off + 6) % 0x800 + 2)

/-- `reply_header_matches`, with `tx` and `txlen` behind the Ethernet header. -/
def replyHeaderMatches (tx rx : Image) (txlen : Int) : Bool :=
  le16 rx 0 % 0x800 == le16 tx 0 % 0x800 && datagramsMatch tx rx txlen 32 2

/-! ## One exchange -/

/-- What SOEM does between the send and the end of the receive: the buffers of the
index of the frame, the working counter that it returns, and the bytes that it
has put into the inputs of the group. -/
structure Receive where
  sentIdx : Option Nat
  tx : Image
  txlen : Int
  rx : Image
  wkc : Int
  inputs : Image

/-- The reply is that of another frame. -/
def Receive.foreign (x : Receive) : Bool :=
  decide (0 < x.wkc) && x.sentIdx.isSome && !replyHeaderMatches x.tx x.rx x.txlen

/-- The part of `group_stats_t` and of SOEM's group that an exchange works on. -/
structure Group where
  expectedWkc : Int
  ibytes : Nat
  inputs : Image
  inSnap : Image
  inSnapLen : Nat
  replyForeign : Bool
  foreignReplies : Nat
  lastIdx : Option Nat
  cycles : Nat
  wkcMismatch : Nat
  wkcs : WkcStats

/-- `memcpy`. -/
def copyBytes (len : Nat) (dst src : Image) : Image := fun i => if i < len then src i else dst i

/-- `EC_NOFRAME`. -/
def ecNoframe : Int := -1

/-- The size of `in_snap`. -/
def inSnapSize : Nat := 256

/-- The inputs are put back. -/
def Group.restore (g : Group) : Group :=
  { g with inputs := copyBytes g.inSnapLen g.inputs g.inSnap }

/-- The copy of the inputs and the receive. -/
def Group.receive (g : Group) (x : Receive) : Group :=
  let len := if g.ibytes ≤ inSnapSize then g.ibytes else 0
  { g with
    lastIdx := x.sentIdx
    inSnapLen := len
    inSnap := copyBytes len g.inSnap g.inputs
    inputs := copyBytes g.ibytes g.inputs x.inputs
    replyForeign := x.foreign
    foreignReplies := if x.foreign then g.foreignReplies + 1 else g.foreignReplies }

/-- `service_group`, with the working counter that it hands out. -/
def serviceGroup (replyCheck : Bool) (x : Receive) (g : Group) : Group × Int :=
  let g := g.receive x
  let rejected := x.foreign && replyCheck
  let g := if rejected then g.restore else g
  let wkc := if rejected then ecNoframe else x.wkc
  ({ g with
      cycles := g.cycles + 1
      wkcMismatch := if wkc = g.expectedWkc then g.wkcMismatch else g.wkcMismatch + 1
      wkcs := ecmWkcAccount g.wkcs wkc g.expectedWkc },
    wkc)

/-! ## The exchanges of a round -/

/-- The options that the round reads. -/
structure RxCfg where
  replyCheck : Bool
  dcEnabled : Bool

/-- The groups and the DC loop. -/
structure Rx where
  motion : Group
  io : Group
  dc : Dc
  staleReplies : Nat

/-- What a round with process data finds: the exchanges of its groups, the
reference time in `ctx.DCtime` and the host time of the send, and the arguments
of the hook that come from elsewhere. -/
structure RoundIn where
  motion : Receive
  io : Receive
  ioDue : Bool
  dcTime : UInt64
  hostNs : UInt64
  brdWkc : Int
  tSendNs : Nat
  xeCmd : Nat → AxErr
  xeRt : Nat → AxErr

/-- The DC loop after the motion exchange. -/
def dcTurn (cfg : RxCfg) (x : RoundIn) (motionWkc : Int) (dc : Dc) : Dc :=
  if cfg.dcEnabled && decide (0 < motionWkc) then (ecmDcUpdate dc x.dcTime x.hostNs).1 else dc

/-- The groups after both exchanges and the reply-age rejection, with the classes
of the round. -/
def exchange (cfg : RxCfg) (x : RoundIn) (r : Rx) : Rx × WkcClass × Option WkcClass :=
  let m := serviceGroup cfg.replyCheck x.motion r.motion
  let i := if x.ioDue then serviceGroup cfg.replyCheck x.io r.io else (r.io, 0)
  let dc := dcTurn cfg x m.2 r.dc
  let stale := cfg.dcEnabled && decide (0 < m.2) && dc.lastRejected && !m.1.replyForeign
  let motion := if stale && cfg.replyCheck then m.1.restore else m.1
  let motionClass :=
    if cfg.replyCheck && (stale || m.1.replyForeign) then .wkcNoframe
    else ecmWkcClassify m.2 m.1.expectedWkc
  let ioClass :=
    if !x.ioDue then none
    else if cfg.replyCheck && i.1.replyForeign then some .wkcNoframe
    else some (ecmWkcClassify i.2 i.1.expectedWkc)
  ({ motion := motion, io := i.1, dc := dc
     staleReplies := if stale then r.staleReplies + 1 else r.staleReplies },
    motionClass, ioClass)

/-- The round of the main loop that the exchanges make. -/
def tickIn (cfg : RxCfg) (x : RoundIn) (r : Rx) (obytes : Nat) : TickIn :=
  let e := exchange cfg x r
  { motionClass := e.2.1
    ioClass := e.2.2
    brdWkc := x.brdWkc
    tSendNs := x.tSendNs
    inputs := fun n => e.1.motion.inputs (n - obytes)
    xeCmd := x.xeCmd
    xeRt := x.xeRt }

/-- The groups of a master. -/
inductive GroupId where
  | motion | io
deriving DecidableEq, Repr

/-- A group by its number. -/
def Rx.group (r : Rx) : GroupId → Group
  | .motion => r.motion
  | .io => r.io

/-- The class that the bus state machine gets for a group. -/
def TickIn.class (t : TickIn) : GroupId → Option WkcClass
  | .motion => some t.motionClass
  | .io => t.ioClass

/-- The reply of a group is rejected: it is that of another frame, or the gate has
rejected its time. -/
def Rejected (cfg : RxCfg) (x : RoundIn) (r : Rx) : GroupId → Bool
  | .motion =>
      x.motion.foreign || cfg.dcEnabled && decide (0 < x.motion.wkc) &&
        (ecmDcUpdate r.dc x.dcTime x.hostNs).1.lastRejected
  | .io => x.ioDue && x.io.foreign

/-! ## What an exchange leaves behind -/

/-- The round in which the reply of a group brings other bytes. -/
def RoundIn.deliver (x : RoundIn) (bytes : Image) : GroupId → RoundIn
  | .motion => { x with motion := { x.motion with inputs := bytes } }
  | .io => { x with io := { x.io with inputs := bytes } }

/-- The exchange of a group. -/
def RoundIn.receive (x : RoundIn) : GroupId → Receive
  | .motion => x.motion
  | .io => x.io

/-- The copy undoes the receive, if it was made. -/
theorem restore_receive {g : Group} (x : Receive) (hsize : g.ibytes ≤ inSnapSize) :
    (g.receive x).restore.inputs = g.inputs := by
  funext i
  unfold Group.restore Group.receive copyBytes
  simp only [if_pos hsize]
  by_cases hi : i < g.ibytes <;> simp [hi]

/-- Without the copy the bytes of the reply stay. -/
theorem restore_receive_large {g : Group} (x : Receive) (hsize : ¬ g.ibytes ≤ inSnapSize) :
    (g.receive x).restore.inputs 0 = x.inputs 0 := by
  have hpos : 0 < g.ibytes := Nat.lt_of_lt_of_le (by decide) (Nat.le_of_not_le hsize)
  unfold Group.restore Group.receive copyBytes
  simp [if_neg hsize, hpos]

@[simp] theorem serviceGroup_replyForeign (replyCheck : Bool) (x : Receive) (g : Group) :
    (serviceGroup replyCheck x g).1.replyForeign = x.foreign := by
  unfold serviceGroup
  dsimp only
  split <;> rfl

/-- A reply of another frame. -/
theorem serviceGroup_foreign {x : Receive} (g : Group) (h : x.foreign = true) :
    (serviceGroup true x g).1.inputs = (g.receive x).restore.inputs ∧
      (serviceGroup true x g).2 = ecNoframe := by
  simp [serviceGroup, h]

/-- Any other reply. -/
theorem serviceGroup_own {x : Receive} (g : Group) (h : x.foreign = false) :
    (serviceGroup true x g).1.restore.inputs = (g.receive x).restore.inputs ∧
      (serviceGroup true x g).2 = x.wkc := by
  simp [serviceGroup, h, Group.restore]

/-- The classes of a round, and the inputs of the motion group, when the motion reply
is rejected. -/
theorem exchange_motion {cfg : RxCfg} {x : RoundIn} {r : Rx} (hcheck : cfg.replyCheck = true)
    (hrej : Rejected cfg x r .motion = true) :
    (exchange cfg x r).2.1 = .wkcNoframe ∧
      (exchange cfg x r).1.motion.inputs = (r.motion.receive x.motion).restore.inputs := by
  unfold exchange
  dsimp only
  rw [hcheck, serviceGroup_replyForeign]
  cases hforeign : x.motion.foreign with
  | true =>
    have h := serviceGroup_foreign r.motion hforeign
    simp [h.1]
  | false =>
    have h := serviceGroup_own r.motion hforeign
    rw [Rejected, hforeign, Bool.false_or, Bool.and_eq_true, Bool.and_eq_true] at hrej
    obtain ⟨⟨hdc, hwkc⟩, hgate⟩ := hrej
    simp [h, dcTurn, hdc, hwkc, hgate]

/-- The same for the I/O group. -/
theorem exchange_io {cfg : RxCfg} {x : RoundIn} {r : Rx} (hcheck : cfg.replyCheck = true)
    (hrej : Rejected cfg x r .io = true) :
    (exchange cfg x r).2.2 = some .wkcNoframe ∧
      (exchange cfg x r).1.io.inputs = (r.io.receive x.io).restore.inputs := by
  rw [Rejected, Bool.and_eq_true] at hrej
  have h := serviceGroup_foreign r.io hrej.2
  unfold exchange
  dsimp only
  rw [hcheck]
  simp [hrej.1, hrej.2, h.1]

/-- The class of the motion exchange. -/
theorem exchange_motionClass {cfg : RxCfg} (x : RoundIn) (r : Rx) (hcheck : cfg.replyCheck = true) :
    (exchange cfg x r).2.1 = if Rejected cfg x r .motion then .wkcNoframe
      else ecmWkcClassify x.motion.wkc r.motion.expectedWkc := by
  cases hrej : Rejected cfg x r .motion with
  | true => exact (exchange_motion hcheck hrej).1
  | false =>
    rw [Rejected, Bool.or_eq_false_iff] at hrej
    obtain ⟨hforeign, hgate⟩ := hrej
    have hwkc := (serviceGroup_own r.motion hforeign).2
    have hexpected :
        (serviceGroup true x.motion r.motion).1.expectedWkc = r.motion.expectedWkc := by
      simp [serviceGroup, hforeign, Group.receive]
    have hstale : (cfg.dcEnabled && decide (0 < x.motion.wkc) &&
        (dcTurn cfg x x.motion.wkc r.dc).lastRejected) = false := by
      unfold dcTurn
      split
      · exact hgate
      · rename_i hoff
        rw [Bool.not_eq_true] at hoff
        rw [hoff, Bool.false_and]
    unfold exchange
    dsimp only
    rw [hcheck, serviceGroup_replyForeign, hwkc, hexpected, hforeign, hstale]
    rfl

/-- The inputs of a group after a round in which its reply is rejected. -/
theorem exchange_rejected {cfg : RxCfg} {x : RoundIn} {r : Rx} {g : GroupId}
    (hcheck : cfg.replyCheck = true) (hrej : Rejected cfg x r g = true) :
    ((exchange cfg x r).1.group g).inputs =
      ((r.group g).receive (x.receive g)).restore.inputs := by
  cases g with
  | motion => exact (exchange_motion hcheck hrej).2
  | io => exact (exchange_io hcheck hrej).2

/-- The verdict on a reply does not depend on the bytes that it brings. -/
theorem rejected_deliver (cfg : RxCfg) (x : RoundIn) (r : Rx) (bytes : Image) (g : GroupId) :
    Rejected cfg (x.deliver bytes g) r g = Rejected cfg x r g := by
  cases g <;> rfl

/-- With process data, the hook is told whether the motion class is OK. -/
theorem rtHook_inValid {m : Master} (hcyclic : m.bus.state.cyclic = true) (t : TickIn) :
    ∃ env, rtHook t m = .hook env ∧ env.inValid = decide (t.motionClass = .wkcOk) := by
  refine ⟨_, rfl, ?_⟩
  have hstate : (ecmBusTick m.bus).state = m.bus.state := rfl
  simp only [hookEnv, rtBus, busTurn, hstate]
  cases hs : m.bus.state <;> simp_all [BusState.cyclic]

/-- A rejected reply of a group is undone, whatever bytes it brings, exactly if the
inputs of the group fit the copy.  The bus state machine gets a cycle without a frame
for the group.  The hook is told that the inputs are not valid exactly if the motion
reply is rejected or its working counter is not the expected one. -/
theorem rejected_reply_leaves_no_trace (cfg : RxCfg) (x : RoundIn) (r : Rx) (m : Master)
    (g : GroupId) (hcheck : cfg.replyCheck = true) (hcyclic : m.bus.state.cyclic = true)
    (hrej : Rejected cfg x r g = true) :
    ((∀ bytes, ((exchange cfg (x.deliver bytes g) r).1.group g).inputs = (r.group g).inputs) ↔
        (r.group g).ibytes ≤ inSnapSize) ∧
      (tickIn cfg x r m.obytes).class g = some .wkcNoframe ∧
      ∃ env, rtHook (tickIn cfg x r m.obytes) m = .hook env ∧
        (env.inValid = false ↔ Rejected cfg x r .motion = true ∨
          ecmWkcClassify x.motion.wkc r.motion.expectedWkc ≠ .wkcOk) := by
  have hdeliver : ∀ bytes, ((exchange cfg (x.deliver bytes g) r).1.group g).inputs =
      ((r.group g).receive ((x.deliver bytes g).receive g)).restore.inputs := fun bytes =>
    exchange_rejected hcheck ((rejected_deliver cfg x r bytes g).trans hrej)
  refine ⟨⟨fun hundone => ?_, fun hsize bytes => ?_⟩, ?_, ?_⟩
  · -- a reply whose first byte is another one than that of the inputs
    by_contra hsize
    have hbytes : ∀ bytes : Image, ((x.deliver bytes g).receive g).inputs = bytes := by
      intro bytes
      cases g <;> rfl
    have hfirst := congrFun ((hdeliver fun _ => (r.group g).inputs 0 + 1).symm.trans
      (hundone fun _ => (r.group g).inputs 0 + 1)) 0
    rw [restore_receive_large _ hsize, hbytes] at hfirst
    simp at hfirst
  · rw [hdeliver, restore_receive _ hsize]
  · cases g with
    | motion => exact congrArg some (exchange_motion hcheck hrej).1
    | io => exact (exchange_io hcheck hrej).1
  · obtain ⟨env, hhook, hvalid⟩ := rtHook_inValid hcyclic (tickIn cfg x r m.obytes)
    refine ⟨env, hhook, ?_⟩
    have hclass : (tickIn cfg x r m.obytes).motionClass = (exchange cfg x r).2.1 := rfl
    rw [hvalid, hclass, exchange_motionClass x r hcheck, decide_eq_false_iff_not]
    cases Rejected cfg x r .motion <;> simp

/-- A group of `ibytes` inputs, all zero. -/
def zeroGroup (ibytes : Nat) : Group :=
  { expectedWkc := 3, ibytes := ibytes, inputs := fun _ => 0, inSnap := fun _ => 0, inSnapLen := 0
    replyForeign := false, foreignReplies := 0, lastIdx := none, cycles := 0, wkcMismatch := 0
    wkcs := { count := fun _ => 0, lastMissing := 0, runBad := 0, maxRunBad := 0 } }

/-- A frame of one LRW datagram of four bytes, and a reply whose datagram has the
command `cmd`.  The inputs are all ones. -/
def lrwReply (cmd : UInt8) : Receive :=
  { sentIdx := some 5
    tx := fun i => if i = 0 then 16 else if i = 2 then 12 else if i = 8 then 4 else 0
    txlen := 18
    rx := fun i => if i = 0 then 16 else if i = 2 then cmd else if i = 8 then 4 else 0
    wkc := 3
    inputs := fun _ => 1 }

/-- A round with the two replies. -/
def twoReplies (motion io : Receive) : RoundIn :=
  { motion := motion, io := io, ioDue := true, dcTime := 0, hostNs := 0, brdWkc := 0, tSendNs := 0
    xeCmd := fun _ => .none, xeRt := fun _ => .none }

/-- Two groups of a size, without DC. -/
def twoGroups (ibytes : Nat) : Rx :=
  { motion := zeroGroup ibytes, io := zeroGroup ibytes, dc := msStart, staleReplies := 0 }

/-- Replies are checked, and there is no DC. -/
def checked : RxCfg := { replyCheck := true, dcEnabled := false }

theorem rejected_reply_leaves_no_trace_lrd :
    Rejected checked (twoReplies (lrwReply 10) (lrwReply 12)) (twoGroups 256) .motion = true ∧
      (exchange checked (twoReplies (lrwReply 10) (lrwReply 12)) (twoGroups 256)).1.motion.inputs =
        fun _ => 0 :=
  ⟨by decide +kernel, (rejected_reply_leaves_no_trace checked
    (twoReplies (lrwReply 10) (lrwReply 12)) (twoGroups 256) (start smallConfig smallBus [] true)
    .motion rfl rfl (by decide +kernel)).1.2 (by decide) fun _ => 1⟩

/-- The inputs of a group of 257 bytes stay those of the foreign reply, and the
hook takes the inputs of a round for valid in which the I/O reply was rejected. -/
theorem large_image_keeps_foreign_inputs :
    (Rejected checked (twoReplies (lrwReply 10) (lrwReply 12)) (twoGroups 257) .motion = true ∧
      (exchange checked (twoReplies (lrwReply 10) (lrwReply 12)) (twoGroups 257)).1.motion.inputs 0
        ≠ (twoGroups 257).motion.inputs 0) ∧
    (Rejected checked (twoReplies (lrwReply 12) (lrwReply 10)) (twoGroups 4) .io = true ∧
      ∃ env, rtHook (tickIn checked (twoReplies (lrwReply 12) (lrwReply 10)) (twoGroups 4) 0)
        (start smallConfig smallBus [] true) = .hook env ∧ env.inValid = true) := by
  refine ⟨⟨by decide +kernel, by decide +kernel⟩, by decide +kernel, _, rfl, by decide +kernel⟩

end EcMaster.EcmRun
