import EcMaster.Esc.Dc
import EcMaster.Lib.Records
import EcMaster.Lib.Run
import EcMaster.Lib.Slots

/-!
# The SYNC0 accounting of a node

`esc_dc_frame_end` of `tools/soft_bus/esc_dc.c` counts, for every node, the SYNC0 events of
its clock and the SYNC0 intervals in which no process-data frame arrived.  It runs when a
frame has passed, so it hears of events only then, possibly many cycles late, and keeps one
flag and the number of the last event.

The history is that of the clock unit: what the functions of `esc_dc.h` are called with,
and the registers as the rest of the node leaves them in between, whatever they are.
`Lib/Slots` is the count itself.  Here a slot is a SYNC0 interval, the frames are the
arrivals and those with process data are marked.

The interval of a frame is computed from its distance to the start of SYNC0, which
the results take to fit in an `int64_t`; a write of the system time offset can make it
larger.  The totals are natural numbers, 64 bits wide in the source.
-/

namespace EcMaster.Esc

open EcMaster.Checked EcMaster.Records EcMaster.Run EcMaster.Slots
open EcMaster.Core (toI64 toI64_eq)

/-- A node with the totals of its accounting. -/
structure Counted where
  node : Node
  totEvents : Nat
  totNoFrame : Nat

/-- New SYNC0 events, up to number `k`. -/
def newEvents (x : Counted) (k : Int) : Counted :=
  let d := x.node.dc
  let newEv := k - d.sync0KLast
  let nofr := (if d.pdSinceEvent then 0 else 1) + (newEv - 1)
  { node := { x.node with dc := { d with sync0KLast := k, pdSinceEvent := false } }
    totEvents := x.totEvents + newEv.toNat
    totNoFrame := x.totNoFrame + nofr.toNat }

/-- The SYNC0 events since the last frame. -/
def countEvents (cfg : DcCfg) (x : Counted) : Counted :=
  let d := x.node.dc
  let sys := escDcFrameSys cfg x.node
  let k := (toI64 (sys - d.sync0Start)).tdiv d.sync0Cycle
  if d.sync0Start ≤ sys ∧ d.sync0KLast < k then newEvents x k else x

/-- A process-data frame has passed. -/
def notePd (hasPd : Bool) (x : Counted) : Counted :=
  if hasPd then { x with node := { x.node with dc := { x.node.dc with pdSinceEvent := true } } }
  else x

/-- `esc_dc_frame_end` for one node. -/
def escDcFrameEnd (cfg : DcCfg) (hasPd : Bool) (x : Counted) : Counted :=
  if cfg.width = .off then x
  else
    let x := { x with node := { x.node with dc := { x.node.dc with readSystime := false } } }
    if !x.node.dc.sync0Active || decide (x.node.dc.sync0Cycle ≤ 0) then x
    else notePd hasPd (countEvents cfg x)

/-- What happens to the clock unit of a node. -/
inductive DcEvent where
  /-- `esc_dc_frame_begin`: a frame arrives at this local time. -/
  | frameBegin (localNs : Int)
  /-- The rest of the node leaves these registers. -/
  | registers (r : Regs)
  /-- `esc_dc_before_read`. -/
  | beforeRead (off len : Nat)
  /-- `esc_dc_after_write`. -/
  | afterWrite (off : Nat) (data : List UInt8)
  /-- `esc_dc_frame_end`: the frame has passed. -/
  | frameEnd (hasPd : Bool)

/-- One event.  `esc_dc_after_write` always returns. -/
def dcStep (cfg : DcCfg) (x : Counted) : DcEvent → Counted
  | .frameBegin localNs =>
      if cfg.width = .off then x
      else { x with node := { x.node with dc := { x.node.dc with frameLocalNs := localNs } } }
  | .registers r => { x with node := { x.node with regs := r } }
  | .beforeRead off len => { x with node := escDcBeforeRead cfg x.node off len }
  | .afterWrite off data =>
      match escDcAfterWrite cfg x.node off data with
      | .ok n => { x with node := n }
      | .error _ => x
  | .frameEnd hasPd => escDcFrameEnd cfg hasPd x

/-- The event writes the activation register: SYNC0 is started again, or stopped. -/
def DcEvent.Activates : DcEvent → Prop
  | .afterWrite off data => overlaps off data.length dcActivation 1 = true
  | _ => False

/-- The frame of a step that ends one: the system time at the node, and whether it has process
data. -/
def frameOf (cfg : DcCfg) (r : Rec Counted DcEvent) : Option (Int × Bool) :=
  match r.ev with
  | .frameEnd hasPd => some (escDcFrameSys cfg r.pre.node, hasPd)
  | _ => none

/-- The frames of a history. -/
def framesOf (cfg : DcCfg) (hist : List (Rec Counted DcEvent)) : List (Int × Bool) :=
  hist.filterMap (frameOf cfg)

/-- The SYNC0 intervals `0, …, k - 1` in which no process-data frame arrived. -/
def noFrames (start cycle : Int) (frames : List (Int × Bool)) (k : Nat) : Nat :=
  (List.range k).countP fun j : Nat =>
    ¬ ∃ f ∈ frames, f.2 = true ∧ start + j * cycle ≤ f.1 ∧ f.1 < start + (j + 1) * cycle

/-! ## The part of a node that the accounting uses -/

/-- The fields of the SYNC0 unit. -/
structure Sync0 where
  active : Bool
  start : Int
  cycle : Int
  kLast : Int
  pdSince : Bool
deriving DecidableEq, Repr

def Node.sync0 (n : Node) : Sync0 :=
  { active := n.dc.sync0Active, start := n.dc.sync0Start, cycle := n.dc.sync0Cycle
    kLast := n.dc.sync0KLast, pdSince := n.dc.pdSinceEvent }

section Keeps

variable {n : Node} {cfg : DcCfg} {off len : Nat}

theorem sync0_escDcBeforeRead : (escDcBeforeRead cfg n off len).sync0 = n.sync0 := by
  unfold escDcBeforeRead
  split
  · rfl
  · unfold readStart0 readSysdiff readSystime
    split <;> split <;> split <;> rfl

theorem sync0_compareSystime (data : List UInt8) :
    Grants (compareSystime cfg n off data) fun n' => n'.sync0 = n.sync0 := by
  unfold compareSystime
  refine Grants.ite (fun _ => ?_) fun _ => grants_pure.2 rfl
  exact Grants.bind_any fun _ => Grants.bind_any fun _ => Grants.bind_any fun _ =>
    Grants.bind_any fun _ => grants_pure.2 rfl

/-- A write that leaves the activation register alone. -/
theorem sync0_escDcAfterWrite {data : List UInt8}
    (hquiet : overlaps off data.length dcActivation 1 = false) :
    Grants (escDcAfterWrite cfg n off data) fun n' => n'.sync0 = n.sync0 := by
  unfold escDcAfterWrite
  refine Grants.ite (fun _ => grants_pure.2 rfl) fun _ => ?_
  dsimp only
  refine Grants.bind (sync0_compareSystime data) fun n1 h1 => grants_pure.2 ?_
  have hlatch : n1.sync0 = n.sync0 := by
    rw [h1]
    split <;> rfl
  rw [if_neg (by rw [hquiet]; decide), ← hlatch]
  split <;> split <;> split <;> rfl

/-- Everything but the end of a frame and a write of the activation register. -/
theorem sync0_dcStep {x : Counted} {e : DcEvent} (hquiet : ¬ e.Activates)
    (hend : ∀ hasPd, e ≠ .frameEnd hasPd) :
    (dcStep cfg x e).node.sync0 = x.node.sync0 ∧
      (dcStep cfg x e).totEvents = x.totEvents ∧ (dcStep cfg x e).totNoFrame = x.totNoFrame := by
  cases e with
  | frameBegin localNs =>
    rw [dcStep]
    split <;> exact ⟨rfl, rfl, rfl⟩
  | registers r => exact ⟨rfl, rfl, rfl⟩
  | beforeRead off len => exact ⟨sync0_escDcBeforeRead, rfl, rfl⟩
  | afterWrite off data =>
    have hkeeps : Grants (escDcAfterWrite cfg x.node off data) fun n' => n'.sync0 = x.node.sync0 :=
      sync0_escDcAfterWrite (Bool.eq_false_iff.2 hquiet)
    rw [dcStep]
    split
    · rename_i n' hn'
      exact ⟨hkeeps n' hn', rfl, rfl⟩
    · exact ⟨rfl, rfl, rfl⟩
  | frameEnd hasPd => exact absurd rfl (hend hasPd)

/-- SYNC0 after it has been started. -/
theorem sync0_of_activation (h : (sync0Activation cfg n).dc.sync0Active = true) :
    (sync0Activation cfg n).sync0.kLast = -1 ∧ (sync0Activation cfg n).sync0.pdSince = true := by
  unfold sync0Activation at h ⊢
  split at h
  · cases h
  rename_i hbits
  rw [if_neg hbits]
  dsimp only at h ⊢
  split at h
  · rename_i hwidth
    rw [if_pos hwidth]
    split at h
    · cases h
    · rename_i hpast
      rw [if_neg hpast]
      exact ⟨rfl, rfl⟩
  · rename_i hwidth
    rw [if_neg hwidth]
    split <;> exact ⟨rfl, rfl⟩

end Keeps

/-! ## The count -/

/-- The SYNC0 interval of a system time. -/
def slotOf (start cycle t : Int) : Int := (t - start) / cycle

theorem slotOf_eq_iff {start cycle t j : Int} (hcycle : 0 < cycle) :
    slotOf start cycle t = j ↔ start + j * cycle ≤ t ∧ t < start + (j + 1) * cycle := by
  have hlow : j ≤ slotOf start cycle t ↔ j * cycle ≤ t - start := Int.le_ediv_iff_mul_le hcycle
  have hhigh : slotOf start cycle t < j + 1 ↔ t - start < (j + 1) * cycle :=
    Int.ediv_lt_iff_lt_mul hcycle
  omega

/-- The frames as arrivals in intervals. -/
def arrivals (start cycle : Int) (frames : List (Int × Bool)) : List Arrival :=
  frames.map fun f => (slotOf start cycle f.1, f.2)

theorem missing_arrivals {start cycle : Int} (hcycle : 0 < cycle) (frames : List (Int × Bool))
    (k : Nat) : missing (arrivals start cycle frames) k = noFrames start cycle frames k := by
  unfold missing noFrames
  apply List.countP_congr
  intro j _
  have hiff : MarkedIn (arrivals start cycle frames) j ↔
      ∃ f ∈ frames, f.2 = true ∧ start + j * cycle ≤ f.1 ∧ f.1 < start + (j + 1) * cycle := by
    constructor
    · rintro ⟨a, ha, hmark, heq⟩
      obtain ⟨f, hf, rfl⟩ := List.mem_map.1 ha
      exact ⟨f, hf, hmark, (slotOf_eq_iff hcycle).1 heq⟩
    · rintro ⟨f, hf, hmark, hin⟩
      exact ⟨_, List.mem_map_of_mem hf, hmark, (slotOf_eq_iff hcycle).2 hin⟩
  simp only [decide_eq_true_eq, hiff]

/-- The SYNC0 unit runs with these variables. -/
def Runs (start cycle : Int) (t : Tally) : Sync0 :=
  { active := true, start, cycle, kLast := t.last, pdSince := t.seen }

/-- The node has counted these frames, from the totals `e0` and `f0` on. -/
structure Tracks (start cycle : Int) (e0 f0 : Nat) (frames : List (Int × Bool)) (x : Counted)
    (t : Tally) : Prop where
  counts : Counts (arrivals start cycle frames) t
  sync0 : x.node.sync0 = Runs start cycle t
  events : x.totEvents = e0 + t.begun
  noFrame : x.totNoFrame = f0 + t.missed

section Count

variable {cfg : DcCfg} {start cycle : Int} {e0 f0 : Nat} {frames : List (Int × Bool)}
  {x : Counted} {t : Tally}

/-- Behind the start, the division of the source is the interval. -/
theorem tdiv_eq_slotOf {sys : Int} (h : start ≤ sys) (hfits : sys - start < 2 ^ 63) :
    (toI64 (sys - start)).tdiv cycle = slotOf start cycle sys := by
  rw [toI64_eq ⟨by omega, hfits⟩]
  exact Int.tdiv_eq_ediv_of_nonneg (by omega)

/-- A new event is one in a later interval; before the start there is none. -/
theorem new_event_iff {start sys last : Int} (hfits : sys - start < 2 ^ 63) (hcycle : 0 < cycle)
    (hlast : -1 ≤ last) :
    (start ≤ sys ∧ last < (toI64 (sys - start)).tdiv cycle) ↔
      last < slotOf start cycle sys := by
  by_cases hsys : start ≤ sys
  · rw [tdiv_eq_slotOf hsys hfits]
    exact ⟨fun h => h.2, fun h => ⟨hsys, h⟩⟩
  · have hneg : slotOf start cycle sys < 0 := Int.ediv_neg_of_neg_of_pos (by omega) hcycle
    constructor
    · exact fun h => absurd h.1 hsys
    · omega

/-- The totals have moved as the tally has. -/
structure Moved (x x' : Counted) (t t' : Tally) : Prop where
  events : x'.totEvents + t.begun = x.totEvents + t'.begun
  noFrame : x'.totNoFrame + t.missed = x.totNoFrame + t'.missed

theorem countEvents_begin (cfg : DcCfg) (hcycle : 0 < cycle) (hlast : -1 ≤ t.last)
    (hsync : x.node.sync0 = Runs start cycle t)
    (hfits : escDcFrameSys cfg x.node - start < 2 ^ 63) :
    let k := slotOf start cycle (escDcFrameSys cfg x.node)
    let t' := if t.last < k then t.begin k else t
    (countEvents cfg x).node.sync0 = Runs start cycle t' ∧ Moved x (countEvents cfg x) t t' := by
  obtain ⟨hactive, rfl, rfl, hkLast, hpdSince⟩ := Sync0.mk.inj hsync
  intro k t'
  have hiff := new_event_iff hfits hcycle hlast
  rw [← hkLast] at hiff
  by_cases hnew : t.last < k
  · have hcond := hiff.2 (hkLast ▸ hnew)
    have ht' : t' = t.begin k := if_pos hnew
    rw [countEvents, if_pos hcond, tdiv_eq_slotOf hcond.1 hfits, ht']
    refine ⟨?_, ?_, ?_⟩
    · simp only [Node.sync0, newEvents, Runs, Tally.begin, hactive]
      rfl
    · simp only [newEvents, Tally.begin, hkLast, k]
      omega
    · simp only [newEvents, Tally.begin, hkLast, hpdSince, k]
      omega
  · have ht' : t' = t := if_neg hnew
    rw [countEvents, if_neg (fun hcond => hnew (hkLast ▸ hiff.1 hcond)), ht']
    exact ⟨hsync, rfl, rfl⟩

theorem notePd_seen {t : Tally} (hasPd : Bool) (hsync : x.node.sync0 = Runs start cycle t) :
    (notePd hasPd x).node.sync0 =
        Runs start cycle (if hasPd then { t with seen := true } else t) ∧
      (notePd hasPd x).totEvents = x.totEvents ∧ (notePd hasPd x).totNoFrame = x.totNoFrame := by
  obtain ⟨hactive, hstart, hcycle, hkLast, -⟩ := Sync0.mk.inj hsync
  cases hasPd with
  | false => exact ⟨hsync, rfl, rfl⟩
  | true =>
    refine ⟨?_, rfl, rfl⟩
    simp only [notePd, if_true, Node.sync0, Runs, hactive, hstart, hcycle, hkLast]

/-- `esc_dc_frame_end` while SYNC0 runs: the variables of the count make one step. -/
theorem frameEnd_arrive (hwidth : cfg.width ≠ .off) (hcycle : 0 < cycle) (hlast : -1 ≤ t.last)
    (hsync : x.node.sync0 = Runs start cycle t)
    (hfits : escDcFrameSys cfg x.node - start < 2 ^ 63) (hasPd : Bool) :
    let t' := t.arrive (slotOf start cycle (escDcFrameSys cfg x.node)) hasPd
    (escDcFrameEnd cfg hasPd x).node.sync0 = Runs start cycle t' ∧
      Moved x (escDcFrameEnd cfg hasPd x) t t' := by
  obtain ⟨hactive, -, hcyc, -, -⟩ := Sync0.mk.inj hsync
  have hruns : ¬ ((!x.node.dc.sync0Active || decide (x.node.dc.sync0Cycle ≤ 0)) = true) := by
    rw [hactive, hcyc]
    simpa using hcycle
  rw [escDcFrameEnd, if_neg hwidth]
  dsimp only
  rw [if_neg hruns]
  generalize hx1 : ({ x with
    node := { x.node with dc := { x.node.dc with readSystime := false } } } : Counted) = x1
  have hx1sync : x1.node.sync0 = Runs start cycle t := by
    rw [← hx1]
    exact hsync
  have hx1sys : escDcFrameSys cfg x1.node = escDcFrameSys cfg x.node := by
    rw [← hx1]
    rfl
  have htotals : x1.totEvents = x.totEvents ∧ x1.totNoFrame = x.totNoFrame := by
    rw [← hx1]
    exact ⟨rfl, rfl⟩
  obtain ⟨hcount, hmoved⟩ := countEvents_begin cfg hcycle hlast hx1sync (hx1sys ▸ hfits)
  obtain ⟨hpd, hevents, hnoFrame⟩ := notePd_seen hasPd hcount
  rw [hx1sys] at hpd hmoved
  refine ⟨hpd, ?_, ?_⟩
  · rw [hevents, hmoved.events, htotals.1, Tally.arrive]
    cases hasPd <;> rfl
  · rw [hnoFrame, hmoved.noFrame, htotals.2, Tally.arrive]
    cases hasPd <;> rfl

/-- The end of a frame is one arrival. -/
theorem Tracks.frameEnd (h : Tracks start cycle e0 f0 frames x t) (hwidth : cfg.width ≠ .off)
    (hcycle : 0 < cycle) (hmono : ∀ f ∈ frames, f.1 ≤ escDcFrameSys cfg x.node)
    (hfits : escDcFrameSys cfg x.node - start < 2 ^ 63) (hasPd : Bool) :
    Tracks start cycle e0 f0 (frames ++ [(escDcFrameSys cfg x.node, hasPd)])
      (escDcFrameEnd cfg hasPd x)
      (t.arrive (slotOf start cycle (escDcFrameSys cfg x.node)) hasPd) := by
  have hlast : -1 ≤ t.last := by
    rcases h.counts.last with hlast | ⟨hlast, -⟩ <;> omega
  obtain ⟨hsync, hevents, hnoFrame⟩ := frameEnd_arrive hwidth hcycle hlast h.sync0 hfits hasPd
  have he := h.events
  have hf := h.noFrame
  refine ⟨?_, hsync, by omega, by omega⟩
  rw [arrivals, List.map_append]
  refine h.counts.arrive ?_ hasPd
  intro a ha
  obtain ⟨f, hf, rfl⟩ := List.mem_map.1 ha
  exact Int.ediv_le_ediv hcycle (Int.sub_le_sub_right (hmono f hf) start)

/-- Any other event, except for a write of the activation register. -/
theorem Tracks.other (h : Tracks start cycle e0 f0 frames x t) {e : DcEvent}
    (hquiet : ¬ e.Activates) (hend : ∀ hasPd, e ≠ .frameEnd hasPd) :
    Tracks start cycle e0 f0 frames (dcStep cfg x e) t := by
  obtain ⟨hsync, hevents, hnoFrame⟩ := sync0_dcStep hquiet hend
  exact ⟨h.counts, hsync.trans h.sync0, hevents.trans h.events, hnoFrame.trans h.noFrame⟩

/-- What the node has counted when a frame behind the start has passed. -/
theorem Tracks.totals (h : Tracks start cycle e0 f0 frames x t) (hcycle : 0 < cycle) {sys : Int}
    (hsys : start ≤ sys) (hlast : t.last = max (slotOf start cycle sys) (-1)) :
    x.totEvents = e0 + (slotOf start cycle sys).toNat + 1 ∧
      x.totNoFrame = f0 + noFrames start cycle frames (slotOf start cycle sys).toNat := by
  have hslot : 0 ≤ slotOf start cycle sys := Int.ediv_nonneg (by omega) (by omega)
  have hbegun := h.counts.begun
  have hlast : t.last = slotOf start cycle sys := by omega
  constructor
  · rw [h.events]
    omega
  · rw [h.noFrame, h.counts.missed, missing_arrivals hcycle, hlast]

end Count

/-! ## Every run -/

/-- A node at which SYNC0 has just been started. -/
def started (cfg : DcCfg) (n : Node) (e0 f0 : Nat) : Counted :=
  { node := sync0Activation cfg n, totEvents := e0, totNoFrame := f0 }

theorem tracks_started {cfg : DcCfg} {n : Node}
    (hactive : (sync0Activation cfg n).dc.sync0Active = true) (e0 f0 : Nat) :
    Tracks (sync0Activation cfg n).dc.sync0Start (sync0Activation cfg n).dc.sync0Cycle e0 f0 []
      (started cfg n e0 f0) Tally.start := by
  obtain ⟨hkLast, hpdSince⟩ := sync0_of_activation hactive
  refine ⟨counts_start, ?_, rfl, rfl⟩
  change Sync0.mk _ _ _ _ _ = Sync0.mk _ _ _ _ _
  rw [Sync0.mk.injEq]
  exact ⟨hactive, rfl, rfl, hkLast, hpdSince⟩

/-- The frames of a run, in the order of their system times, are so at every step. -/
theorem along_framesOf {cfg : DcCfg} {x : Counted} {es : List DcEvent}
    (hmono : (framesOf cfg (trace (dcStep cfg) x es)).Pairwise fun f g => f.1 ≤ g.1) :
    Along (dcStep cfg) x es fun hist r =>
      ∀ f ∈ framesOf cfg hist, ∀ g ∈ frameOf cfg r, f.1 ≤ g.1 := by
  intro hist r rest htrace f hf g hg
  rw [htrace, framesOf, List.filterMap_append, List.pairwise_append] at hmono
  exact hmono.2.2 f hf g (List.mem_filterMap.2 ⟨r, List.mem_cons_self, hg⟩)

/-- What holds of the frames of a run holds of the frame at every step. -/
theorem along_frameOf {cfg : DcCfg} {P : Int × Bool → Prop} {x : Counted} {es : List DcEvent}
    (hP : ∀ f ∈ framesOf cfg (trace (dcStep cfg) x es), P f) :
    Along (dcStep cfg) x es fun _ r => ∀ g ∈ frameOf cfg r, P g := by
  intro hist r rest htrace g hg
  refine hP g (List.mem_filterMap.2 ⟨r, ?_, hg⟩)
  rw [htrace]
  exact List.mem_append_right hist List.mem_cons_self

/-- The frames with one more step. -/
theorem framesOf_frameEnd (cfg : DcCfg) (hist : List (Rec Counted DcEvent)) (x : Counted)
    (hasPd : Bool) :
    framesOf cfg (hist ++ [⟨x, .frameEnd hasPd, dcStep cfg x (.frameEnd hasPd)⟩]) =
      framesOf cfg hist ++ [(escDcFrameSys cfg x.node, hasPd)] :=
  filterMap_concat ..

theorem framesOf_other {cfg : DcCfg} (hist : List (Rec Counted DcEvent)) {x : Counted}
    {e : DcEvent} (hend : ∀ hasPd, e ≠ .frameEnd hasPd) :
    framesOf cfg (hist ++ [⟨x, e, dcStep cfg x e⟩]) = framesOf cfg hist := by
  rw [framesOf, filterMap_concat]
  cases e with
  | frameEnd hasPd => exact absurd rfl (hend hasPd)
  | _ => exact List.append_nil _

/-- From a start of SYNC0 with start time `S` and cycle `C` on, as long as the activation register
is not written, the system time of the node does not go back and its distance to `S` fits in
an `int64_t`: when a frame at system time `t ≥ S` has passed, the node has counted
`(t - S) / C + 1` events, and as many intervals without a frame as there are. -/
theorem sync0_ground_truth (cfg : DcCfg) (hwidth : cfg.width ≠ .off) (n : Node)
    (hactive : (sync0Activation cfg n).dc.sync0Active = true)
    (hcycle : 0 < (sync0Activation cfg n).dc.sync0Cycle) (e0 f0 : Nat) (es : List DcEvent)
    (hquiet : ∀ e ∈ es, ¬ e.Activates)
    (hmono : (framesOf cfg (trace (dcStep cfg) (started cfg n e0 f0) es)).Pairwise
      fun f g => f.1 ≤ g.1)
    (hfits : ∀ f ∈ framesOf cfg (trace (dcStep cfg) (started cfg n e0 f0) es),
      f.1 - (sync0Activation cfg n).dc.sync0Start < 2 ^ 63) :
    Along (dcStep cfg) (started cfg n e0 f0) es fun hist r => ∀ hasPd, r.ev = .frameEnd hasPd →
      let start := (sync0Activation cfg n).dc.sync0Start
      let cycle := (sync0Activation cfg n).dc.sync0Cycle
      let t := escDcFrameSys cfg r.pre.node
      start ≤ t →
        r.post.totEvents = e0 + ((t - start) / cycle).toNat + 1 ∧
        r.post.totNoFrame = f0 + noFrames start cycle (framesOf cfg (hist ++ [r]))
          ((t - start) / cycle).toNat := by
  refine Along.of_invariant (I := fun hist x => ∃ t,
      Tracks (sync0Activation cfg n).dc.sync0Start (sync0Activation cfg n).dc.sync0Cycle e0 f0
        (framesOf cfg hist) x t) ⟨_, tracks_started hactive e0 f0⟩ ?_ ?_
    ((Along.of_forall hquiet _).and ((along_framesOf hmono).and (along_frameOf hfits)))
  · rintro hist x e ⟨t, ht⟩ ⟨hq, horder, hroom⟩
    by_cases hend : ∃ hasPd, e = .frameEnd hasPd
    · obtain ⟨hasPd, rfl⟩ := hend
      rw [framesOf_frameEnd]
      exact ⟨_, ht.frameEnd hwidth hcycle (fun f hf => horder f hf _ rfl) (hroom _ rfl)
        hasPd⟩
    · have hend : ∀ hasPd, e ≠ .frameEnd hasPd := fun hasPd he => hend ⟨hasPd, he⟩
      rw [framesOf_other hist hend]
      exact ⟨t, ht.other hq hend⟩
  · rintro hist x e ⟨t, ht⟩ ⟨-, horder, hroom⟩ hasPd rfl start cycle sys hsys
    have hframes : ∀ f ∈ framesOf cfg hist, f.1 ≤ escDcFrameSys cfg x.node :=
      fun f hf => horder f hf _ rfl
    have hlast := ht.counts.last_arrive (k := slotOf start cycle (escDcFrameSys cfg x.node)) (by
      intro a ha
      obtain ⟨f, hf, rfl⟩ := List.mem_map.1 ha
      exact Int.ediv_le_ediv hcycle (Int.sub_le_sub_right (hframes f hf) start)) hasPd
    rw [framesOf_frameEnd]
    exact (ht.frameEnd hwidth hcycle hframes (hroom _ rfl) hasPd).totals hcycle hsys hlast

/-- Clocks of 32 bits. -/
def dc32 : DcCfg := { width := .w32, hopNs := 0, n := 1 }

theorem dcActivation_lt : dcActivation < escRegSpaceSize := by decide

theorem dcStart0_lt : dcStart0 + 3 < escRegSpaceSize := by decide

theorem dcCycle0_lt : dcCycle0 + 3 < escRegSpaceSize := by decide

/-- Registers with the activation byte `act`, start time 5000 and cycle 1000. -/
def sync0Regs (act : UInt8) : Regs :=
  ((Regs.set (fun _ => 0) dcActivation act dcActivation_lt).set32 dcStart0 5000
    dcStart0_lt).set32 dcCycle0 1000 dcCycle0_lt

/-- A node at local time 0 whose SYNC0 is about to be started. -/
def sync0Node : Node :=
  { regs := sync0Regs 3
    positionInChain := 0
    dc :=
      { frameLocalNs := 0, lastDtNs := 0, dtFiltX16 := 0, dtWrites := 0, tclIX16 := 0
        trimPpb := 0, sync0Active := false, sync0Start := 0, sync0Cycle := 0, sync0KLast := 0
        pdSinceEvent := false, startInPast := 0, readSystime := false } }

/-- A process-data frame at 5500 and another frame at 8200. -/
def twoFrames : List DcEvent :=
  [.frameBegin 5500, .frameEnd true, .frameBegin 8200, .frameEnd false]

/-- Four events, and the intervals 1 and 2 without a frame. -/
theorem sync0_ground_truth_twoFrames :
    let x := run (dcStep dc32) (started dc32 sync0Node 0 0) twoFrames
    (x.totEvents, x.totNoFrame) = (4, 2) ∧
      Along (dcStep dc32) (started dc32 sync0Node 0 0) twoFrames fun hist r =>
        ∀ hasPd, r.ev = .frameEnd hasPd →
          let start := (sync0Activation dc32 sync0Node).dc.sync0Start
          let cycle := (sync0Activation dc32 sync0Node).dc.sync0Cycle
          let t := escDcFrameSys dc32 r.pre.node
          start ≤ t →
            r.post.totEvents = 0 + ((t - start) / cycle).toNat + 1 ∧
            r.post.totNoFrame = 0 + noFrames start cycle (framesOf dc32 (hist ++ [r]))
              ((t - start) / cycle).toNat := by
  refine ⟨by decide +kernel, sync0_ground_truth dc32 (by decide) sync0Node (by decide +kernel)
    (by decide +kernel) 0 0 twoFrames ?_ (by decide +kernel) (by decide +kernel)⟩
  simp [twoFrames, DcEvent.Activates]

/-- SYNC0 is started, then stopped again by a write of 0 to the activation register, and a frame
passes behind the start time: no event is counted. -/
theorem stopped_sync0_counts_nothing :
    let stop : List DcEvent := [.registers (sync0Regs 0), .afterWrite dcActivation [0]]
    let x := run (dcStep dc32) (started dc32 sync0Node 0 0) stop
    let y := run (dcStep dc32) x [.frameBegin 5500, .frameEnd true]
    (started dc32 sync0Node 0 0).node.dc.sync0Active = true ∧ x.node.dc.sync0Active = false ∧
      escDcFrameSys dc32 y.node = 5500 ∧
      (sync0Activation dc32 sync0Node).dc.sync0Start = 5000 ∧ y.totEvents = 0 := by
  decide +kernel

end EcMaster.Esc
