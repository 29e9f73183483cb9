import EcMaster.Telemetry.Turnaround

/-!
# Which transmit time an arrival gets

`Traffic` is a sequence of frames: what the order ring says about each, the EtherCAT
index in it, and the times at which it leaves and comes back.  A run hands them to the
correlator in order and loses none: `drain n` pops the samples of the next `n` frames,
`completion` is the completion of the next frame that has had none, `arrival` the same
for arrivals.  They come at any time, also before the sample of the frame is drained.
After a resynchronisation both go on behind the frames that were pending.

An arrival gets its transmit time from a table that is searched by tick.  Several frames
of the motion group share a tick, and where the table wraps between two of them the
second lies in a lower slot.  The first arrival then takes the time of the second frame.

* `fifoTake_own` says when a frame finds its own sample, and `rxLookupTake_first` what
  the search of the table finds.
* `InStep` is the invariant: the FIFOs hold the frames that are due, and every motion
  frame on its way has a slot, the earlier of two frames of one tick the lower slot.
* `steady_pairs_own_times` is the result: while every call is `Steady`, an arrival adds
  nothing to the histogram or the turnaround of its own frame.
-/

namespace EcMaster.Telemetry

open EcMaster.Run

/-! ## Runs without loss or reordering -/

/-- The frames, in the order in which they are sent.  The RT thread knows the index of
the process data frames only. -/
structure Traffic where
  sample : Nat → TxOrderSample
  idx : Nat → UInt8
  txTime : Nat → UInt64
  rxTime : Nat → UInt64
  known : ∀ n, (sample n).ecIdx = idx n ∨ (sample n).ecIdx = txOrderIdxUnknown

/-- The correlator, and how many frames have been drained, completed and received. -/
structure Watched where
  c : TurnaroundCtx
  sent : Nat
  completed : Nat
  arrived : Nat
deriving DecidableEq, Repr

inductive FrameEv where
  | drain (n : Nat)
  | completion
  | arrival
  | resync
deriving DecidableEq, Repr

namespace Traffic

variable (t : Traffic)

/-- The samples of the frames from `a` up to `b`. -/
def samples (a b : Nat) : List TxOrderSample := (List.Ico a b).map t.sample

/-- The call that an event makes. -/
def call (w : Watched) : FrameEv → TurnEv
  | .drain n => .drain (t.samples w.sent (w.sent + n))
  | .completion => .txComplete (t.txTime w.completed) (some (t.idx w.completed))
  | .arrival => .rxArrival (t.rxTime w.arrived) (some (t.idx w.arrived))
  | .resync => .resync

def step (w : Watched) (e : FrameEv) : Watched :=
  let c := w.c.step (t.call w e)
  match e with
  | .drain n => { w with c := c, sent := w.sent + n }
  | .completion => { w with c := c, completed := w.completed + 1 }
  | .arrival => { w with c := c, arrived := w.arrived + 1 }
  | .resync =>
    { w with c := c, completed := max w.completed w.sent, arrived := max w.arrived w.sent }

/-- The turnaround of a frame. -/
def turnaround (n : Nat) : Int64 := (t.rxTime n - t.txTime n).toInt64

/-- An arrival adds nothing to the histogram, or the turnaround of its own frame.
Nothing else adds to it. -/
def OwnTimes (r : Rec Watched FrameEv) : Prop :=
  r.post.c.hist = r.pre.c.hist ∨
    r.ev = .arrival ∧ r.post.c.hist = r.pre.c.hist ++ [t.turnaround r.pre.arrived]

instance (r : Rec Watched FrameEv) : Decidable (t.OwnTimes r) := by
  unfold OwnTimes
  infer_instance

/-! ## The condition -/

/-- Frame `n` finds its own sample in the FIFO: the sample is drained, at most 12 ticks
older than the last one drained, and if it has no index then none of those in reach has
the index of the frame. -/
def Answerable (n sent : Nat) (q : List TxOrderSample) : Prop :=
  n < sent ∧
    (t.sample (sent - 1)).tick - (t.sample n).tick ≤ turnaroundMaxAgeTicks ∧
    ((t.sample n).ecIdx = t.idx n ∨ ∀ e ∈ q.take turnaroundLookahead, e.ecIdx ≠ t.idx n)

/-- The next slot of the table is free, and every slot with this tick lies below it. -/
def SlotInOrder (c : TurnaroundCtx) (tick : UInt64) : Prop :=
  (c.entries.getD (c.nextSlot % rxLookupCapacity) ⟨noTick, 0⟩).tick = noTick ∧
    ∀ k < rxLookupCapacity, (c.entries.getD k ⟨noTick, 0⟩).tick = tick →
      k < c.nextSlot % rxLookupCapacity

/-- What a call must find.  A drain finds room.  A completion finds its own sample and,
for a motion frame, the table in order.  An arrival finds its own sample, and comes
after its completion. -/
def Steady (w : Watched) : FrameEv → Prop
  | .drain n =>
    w.c.pendingTx.length + n ≤ txOrderRingCapacity ∧
      w.c.pendingRx.length + n ≤ txOrderRingCapacity
  | .completion =>
    t.Answerable w.completed w.sent w.c.pendingTx ∧
      ((t.sample w.completed).groupId ≠ groupIo →
        (t.sample w.completed).tick ≠ noTick ∧ SlotInOrder w.c (t.sample w.completed).tick)
  | .arrival => t.Answerable w.arrived w.sent w.c.pendingRx ∧ w.arrived < w.completed
  | .resync => True

instance (w : Watched) (e : FrameEv) : Decidable (t.Steady w e) := by
  cases e <;> simp only [Steady, Answerable, SlotInOrder] <;> infer_instance

/-! ## The samples of a range of frames -/

theorem length_samples (a b : Nat) : (t.samples a b).length = b - a := by
  rw [samples, List.length_map, List.Ico.length]

theorem samples_self (a : Nat) : t.samples a a = [] := by
  rw [samples, List.Ico.self_empty, List.map_nil]

theorem samples_cons {a b : Nat} (hab : a < b) :
    t.samples a b = t.sample a :: t.samples (a + 1) b := by
  rw [samples, List.Ico.eq_cons hab, List.map_cons, samples]

theorem samples_append {a b : Nat} (hab : a ≤ b) (n : Nat) :
    t.samples a b ++ t.samples b (b + n) = t.samples a (b + n) := by
  rw [samples, samples, samples, ← List.map_append,
    List.Ico.append_consecutive hab (Nat.le_add_right b n)]

/-- The youngest of them. -/
theorem getLast_samples {a b : Nat} (hab : a < b) (hne : t.samples a b ≠ []) :
    (t.samples a b).getLast hne = t.sample (b - 1) := by
  obtain ⟨m, rfl⟩ : ∃ m, b = m + 1 := ⟨b - 1, by omega⟩
  have hsplit : t.samples a (m + 1) = t.samples a m ++ [t.sample m] := by
    rw [samples, List.Ico.succ_top (by omega), List.map_append, samples]
    rfl
  simp only [hsplit, List.getLast_append_singleton, Nat.add_sub_cancel]

end Traffic

/-! ## A frame and its sample -/

/-- The oldest pending sample is taken if it is young enough and has the index, or has
none while no sample in reach has it. -/
theorem fifoTake_oldest {s : TxOrderSample} {rest : List TxOrderSample} {i : UInt8}
    (hyoung : tooOld ((s :: rest).getLast (List.cons_ne_nil s rest)).tick s = false)
    (hidx : s.ecIdx = i ∨ s.ecIdx = txOrderIdxUnknown ∧
      ∀ e ∈ (s :: rest).take turnaroundLookahead, e.ecIdx ≠ i) :
    fifoTake (s :: rest) (some i) = ⟨.took s, [], rest⟩ := by
  dsimp only [fifoTake]
  generalize ((s :: rest).getLast (List.cons_ne_nil s rest)).tick = newest at hyoung ⊢
  have hold : (s :: rest).takeWhile (tooOld newest) = [] := by
    rw [List.takeWhile_cons, hyoung]
    rfl
  have hrest : (s :: rest).dropWhile (tooOld newest) = s :: rest := by
    rw [List.dropWhile_cons, hyoung]
    rfl
  rw [hold, hrest]
  rcases hidx with hidx | ⟨hunknown, hnone⟩
  · have hfind : ((s :: rest).take turnaroundLookahead).findIdx? (fun e => e.ecIdx == i) =
        some 0 := by
      simp [turnaroundLookahead, List.findIdx?_cons, hidx]
    rw [hfind]
    rfl
  · have hfind : ((s :: rest).take turnaroundLookahead).findIdx? (fun e => e.ecIdx == i) =
        none := by
      rw [List.findIdx?_eq_none_iff]
      intro e he
      simpa using hnone e he
    rw [hfind]
    dsimp only
    rw [if_pos hunknown]

/-- An answerable frame takes its own sample from the frames that are due. -/
theorem Traffic.fifoTake_own {t : Traffic} {n sent : Nat}
    (h : t.Answerable n sent (t.samples n sent)) :
    fifoTake (t.samples n sent) (some (t.idx n)) =
      ⟨.took (t.sample n), [], t.samples (n + 1) sent⟩ := by
  obtain ⟨hlt, hage, hidx⟩ := h
  have hcons := t.samples_cons hlt
  have hlast := t.getLast_samples hlt (by simp [hcons])
  simp only [hcons] at hlast hidx ⊢
  apply fifoTake_oldest
  · rw [hlast]
    simpa [tooOld] using hage
  · rcases hidx with hidx | hnone
    · exact .inl hidx
    · rcases t.known n with hknown | hunknown
      · exact .inl hknown
      · exact .inr ⟨hunknown, hnone⟩

/-! ## The table -/

/-- The search finds the lowest slot with the tick. -/
theorem rxLookupTake_first {tick ts : UInt64} {entries : List RxEntry} {k : Nat}
    (hk : entries[k]? = some ⟨tick, ts⟩)
    (hfirst : ∀ j e, entries[j]? = some e → e.tick = tick → k ≤ j) :
    rxLookupTake tick entries = some (ts, entries.set k ⟨noTick, ts⟩) := by
  induction entries generalizing k with
  | nil => simp at hk
  | cons e es ih =>
    cases k with
    | zero =>
      obtain rfl : e = ⟨tick, ts⟩ := by simpa using hk
      rw [rxLookupTake, if_pos rfl]
      rfl
    | succ k =>
      have hne : e.tick ≠ tick := fun he => absurd (hfirst 0 e rfl he) (by omega)
      have hrec := ih (k := k) (by simpa using hk)
        (fun j e' hj he' => Nat.le_of_succ_le_succ (hfirst (j + 1) e' (by simpa using hj) he'))
      rw [rxLookupTake, if_neg hne, hrec]
      rfl

/-- Frame `n` belongs to the motion group and is on its way: completed, not received. -/
structure OnItsWay (t : Traffic) (arrived completed n : Nat) : Prop where
  notReceived : arrived ≤ n
  completed : n < completed
  motion : (t.sample n).groupId ≠ groupIo

/-- `slot` gives the slots of the motion frames on their way. -/
structure SlotsOf (t : Traffic) (arrived completed : Nat) (entries : List RxEntry)
    (slot : Nat → Nat) : Prop where
  holds : ∀ n, OnItsWay t arrived completed n →
    entries[slot n]? = some ⟨(t.sample n).tick, t.txTime n⟩
  ticked : ∀ n, OnItsWay t arrived completed n → (t.sample n).tick ≠ noTick
  only : ∀ k e, entries[k]? = some e → e.tick ≠ noTick →
    ∃ n, OnItsWay t arrived completed n ∧ slot n = k
  ordered : ∀ m n, OnItsWay t arrived completed m → OnItsWay t arrived completed n → m < n →
    (t.sample m).tick = (t.sample n).tick → slot m < slot n

section Slots

variable {t : Traffic} {arrived completed : Nat} {entries : List RxEntry} {slot : Nat → Nat}

theorem OnItsWay.before {n : Nat} (h : OnItsWay t arrived (completed + 1) n)
    (hne : n ≠ completed) : OnItsWay t arrived completed n :=
  have hlt := h.completed
  ⟨h.notReceived, by omega, h.motion⟩

theorem OnItsWay.later {n : Nat} (h : OnItsWay t arrived completed n) :
    OnItsWay t arrived (completed + 1) n :=
  ⟨h.notReceived, Nat.lt_succ_of_lt h.completed, h.motion⟩

/-- A frame that is on its way after an arrival was so before it. -/
theorem OnItsWay.unreceived {n : Nat} (h : OnItsWay t (arrived + 1) completed n) :
    OnItsWay t arrived completed n :=
  ⟨Nat.le_of_succ_le h.notReceived, h.completed, h.motion⟩

/-- An arrival concerns the oldest frame alone. -/
theorem OnItsWay.stays {n : Nat} (h : OnItsWay t arrived completed n) (hne : n ≠ arrived) :
    OnItsWay t (arrived + 1) completed n :=
  have hle := h.notReceived
  ⟨by omega, h.completed, h.motion⟩

namespace SlotsOf

/-- No frame on its way, no slot in use. -/
theorem of_empty (hnone : completed ≤ arrived) (hempty : ∀ e ∈ entries, e.tick = noTick)
    (slot : Nat → Nat) : SlotsOf t arrived completed entries slot := by
  have hway : ∀ n, ¬ OnItsWay t arrived completed n := fun n hn =>
    absurd (Nat.lt_of_le_of_lt hn.notReceived hn.completed) (by omega)
  exact
    { holds := fun n hn => absurd hn (hway n)
      ticked := fun n hn => absurd hn (hway n)
      only := fun k e hk he => absurd (hempty e (List.mem_of_getElem? hk)) he
      ordered := fun m _ hm => absurd hm (hway m) }

/-- The slots depend on the frames on their way alone. -/
theorem congr {arrived' completed' : Nat} (h : SlotsOf t arrived completed entries slot)
    (hiff : ∀ n, OnItsWay t arrived' completed' n ↔ OnItsWay t arrived completed n) :
    SlotsOf t arrived' completed' entries slot :=
  { holds := fun n hn => h.holds n ((hiff n).1 hn)
    ticked := fun n hn => h.ticked n ((hiff n).1 hn)
    only := fun k e hk he => (h.only k e hk he).imp fun n hn => ⟨(hiff n).2 hn.1, hn.2⟩
    ordered := fun m n hm hn => h.ordered m n ((hiff m).1 hm) ((hiff n).1 hn) }

/-- The slots with the tick of a frame belong to frames of that tick. -/
theorem owner (h : SlotsOf t arrived completed entries slot) {k : Nat} {e : RxEntry}
    (hk : entries[k]? = some e) (he : e.tick ≠ noTick) :
    ∃ m, OnItsWay t arrived completed m ∧ slot m = k ∧ e.tick = (t.sample m).tick := by
  obtain ⟨m, hm, rfl⟩ := h.only k e hk he
  obtain rfl : e = ⟨(t.sample m).tick, t.txTime m⟩ :=
    Option.some.inj (hk.symm.trans (h.holds m hm))
  exact ⟨m, hm, rfl, rfl⟩

/-- The arrival of the oldest frame on its way finds its own time. -/
theorem lookup (h : SlotsOf t arrived completed entries slot)
    (hn : OnItsWay t arrived completed arrived) :
    rxLookupTake (t.sample arrived).tick entries =
      some (t.txTime arrived, entries.set (slot arrived) ⟨noTick, t.txTime arrived⟩) := by
  refine rxLookupTake_first (h.holds _ hn) fun j e hj he => ?_
  obtain ⟨m, hm, rfl, htick⟩ := h.owner hj (he ▸ h.ticked _ hn)
  -- a later frame of the same tick lies higher
  rcases Nat.eq_or_lt_of_le hm.notReceived with heq | hlt
  · rw [heq]
  · exact Nat.le_of_lt (h.ordered _ _ hn hm hlt (he.symm.trans htick))

/-- Two frames on their way have different slots. -/
theorem slot_ne (h : SlotsOf t arrived completed entries slot) {m n : Nat}
    (hm : OnItsWay t arrived completed m) (hn : OnItsWay t arrived completed n) (hlt : m < n) :
    slot m ≠ slot n := by
  intro heq
  have hentry : some (⟨(t.sample m).tick, t.txTime m⟩ : RxEntry) =
      some ⟨(t.sample n).tick, t.txTime n⟩ := by
    rw [← h.holds m hm, ← h.holds n hn, heq]
  have htick : (t.sample m).tick = (t.sample n).tick :=
    congrArg RxEntry.tick (Option.some.inj hentry)
  exact absurd (h.ordered m n hm hn hlt htick) (by omega)

/-- The completion of a motion frame: it goes into the free slot `k`, above those of its
tick. -/
theorem complete (h : SlotsOf t arrived completed entries slot) {k : Nat}
    (htick : (t.sample completed).tick ≠ noTick) (hk : k < entries.length)
    (hfree : ∀ e, entries[k]? = some e → e.tick = noTick)
    (habove : ∀ j e, entries[j]? = some e → e.tick = (t.sample completed).tick → j < k)
    (hway : OnItsWay t arrived (completed + 1) completed) :
    SlotsOf t arrived (completed + 1)
      (entries.set k ⟨(t.sample completed).tick, t.txTime completed⟩)
      (Function.update slot completed k) := by
  have hold : ∀ n, OnItsWay t arrived (completed + 1) n → n ≠ completed →
      Function.update slot completed k n = slot n ∧ slot n ≠ k := by
    intro n hn hne
    refine ⟨Function.update_of_ne hne k slot, fun heq => ?_⟩
    have hn' := hn.before hne
    exact h.ticked n hn' (hfree _ (heq ▸ h.holds n hn'))
  refine ⟨fun n hn => ?_, fun n hn => ?_, fun j e hj he => ?_, fun m n hm hn hlt htick' => ?_⟩
  · by_cases hne : n = completed
    · rw [hne, Function.update_self, List.getElem?_set_self hk]
    · obtain ⟨hslot, hslot'⟩ := hold n hn hne
      rw [hslot, List.getElem?_set_ne hslot'.symm]
      exact h.holds n (hn.before hne)
  · by_cases hne : n = completed
    · exact hne ▸ htick
    · exact h.ticked n (hn.before hne)
  · by_cases hjk : j = k
    · exact ⟨completed, hway, by rw [hjk, Function.update_self]⟩
    · rw [List.getElem?_set_ne (Ne.symm hjk)] at hj
      obtain ⟨n, hn, rfl⟩ := h.only j e hj he
      exact ⟨n, hn.later, (hold n hn.later (Nat.ne_of_lt hn.completed)).1⟩
  · have hm' : m ≠ completed := by
      have hle := hn.completed
      omega
    rw [(hold m hm hm').1]
    by_cases hne : n = completed
    · rw [hne, Function.update_self]
      exact habove _ _ (h.holds m (hm.before hm')) (hne ▸ htick')
    · rw [(hold n hn hne).1]
      exact h.ordered m n (hm.before hm') (hn.before hne) hlt htick'

/-- The arrival of the oldest frame on its way empties its slot. -/
theorem receive (h : SlotsOf t arrived completed entries slot)
    (hway : OnItsWay t arrived completed arrived) (ts : UInt64) :
    SlotsOf t (arrived + 1) completed (entries.set (slot arrived) ⟨noTick, ts⟩) slot := by
  refine ⟨fun n hn => ?_, fun n hn => h.ticked n hn.unreceived, fun k e hk he => ?_,
    fun m n hm hn => h.ordered m n hm.unreceived hn.unreceived⟩
  · rw [List.getElem?_set_ne (h.slot_ne hway hn.unreceived hn.notReceived)]
    exact h.holds n hn.unreceived
  · by_cases hkey : slot arrived = k
    · rw [← hkey, List.getElem?_set] at hk
      simp only [if_true, Option.ite_none_right_eq_some, Option.some.injEq] at hk
      exact absurd (congrArg RxEntry.tick hk.2.symm) he
    · rw [List.getElem?_set_ne hkey] at hk
      obtain ⟨n, hn, rfl⟩ := h.only k e hk he
      exact ⟨n, hn.stays fun heq => hkey (by rw [heq]), rfl⟩

end SlotsOf

end Slots

/-! ## The invariant -/

/-- The FIFOs hold the frames that are due, and the table those on their way. -/
structure InStep (t : Traffic) (w : Watched) : Prop where
  order : w.arrived ≤ w.completed ∧ w.completed ≤ w.sent
  dueTx : w.c.pendingTx = t.samples w.completed w.sent
  dueRx : w.c.pendingRx = t.samples w.arrived w.sent
  size : w.c.entries.length = rxLookupCapacity
  slots : ∃ slot, SlotsOf t w.arrived w.completed w.c.entries slot

def Watched.init : Watched := ⟨turnaroundInit, 0, 0, 0⟩

namespace InStep

variable {t : Traffic} {w : Watched}

theorem init (t : Traffic) : InStep t Watched.init := by
  refine ⟨⟨Nat.le_refl 0, Nat.le_refl 0⟩, (t.samples_self 0).symm, (t.samples_self 0).symm,
    List.length_replicate, fun _ => 0, SlotsOf.of_empty (Nat.le_refl 0) (fun e he => ?_) _⟩
  rw [List.eq_of_mem_replicate he]

theorem drain_c (h : InStep t w) {n : Nat} (hs : t.Steady w (.drain n)) :
    (t.step w (.drain n)).c =
      { w.c with
        pendingTx := t.samples w.completed (w.sent + n)
        pendingRx := t.samples w.arrived (w.sent + n) } := by
  have hlen : (t.samples w.sent (w.sent + n)).length = n := by
    rw [t.length_samples, Nat.add_sub_cancel_left]
  have htx := @drain_of_room w.c.pendingTx (t.samples w.sent (w.sent + n))
    (by rw [hlen]; exact hs.1)
  have hrx := @drain_of_room w.c.pendingRx (t.samples w.sent (w.sent + n))
    (by rw [hlen]; exact hs.2)
  rw [← t.samples_append h.order.2, ← t.samples_append (h.order.1.trans h.order.2),
    ← h.dueTx, ← h.dueRx, ← htx, ← hrx]
  exact drain_eq _ _

theorem drain (h : InStep t w) {n : Nat} (hs : t.Steady w (.drain n)) :
    InStep t (t.step w (.drain n)) := by
  have hc := h.drain_c hs
  refine ⟨⟨h.order.1, h.order.2.trans (Nat.le_add_right _ n)⟩, ?_, ?_, ?_, ?_⟩
  · rw [hc]
    rfl
  · rw [hc]
    rfl
  · rw [hc]
    exact h.size
  · rw [hc]
    exact h.slots

/-- A completion takes its own sample.  The transmit time of a motion frame goes into
the table. -/
theorem completion_c (h : InStep t w) (hs : t.Steady w .completion) :
    (t.step w .completion).c.pendingTx = t.samples (w.completed + 1) w.sent ∧
      (t.step w .completion).c.entries =
        (if (t.sample w.completed).groupId = groupIo then w.c.entries
        else w.c.entries.set (w.c.nextSlot % rxLookupCapacity)
          ⟨(t.sample w.completed).tick, t.txTime w.completed⟩) ∧
      (t.step w .completion).c.hist = w.c.hist := by
  have htake := Traffic.fifoTake_own (h.dueTx ▸ hs.1)
  rw [← h.dueTx] at htake
  dsimp only [Traffic.step, Traffic.call, TurnaroundCtx.step, turnaroundOnTxCompleteIdx]
  rw [htake]
  dsimp only
  split
  · exact ⟨rfl, rfl, rfl⟩
  · exact ⟨rfl, rfl, rfl⟩

theorem completion (h : InStep t w) (hs : t.Steady w .completion) :
    InStep t (t.step w .completion) := by
  obtain ⟨htx, hentries, -⟩ := h.completion_c hs
  have hrx : (t.step w .completion).c.pendingRx = w.c.pendingRx :=
    (txComplete_pending w.c _ _).2.1
  obtain ⟨slot, hslot⟩ := h.slots
  refine ⟨⟨h.order.1.trans (Nat.le_succ _), hs.1.1⟩, htx, hrx.trans h.dueRx, ?_, ?_⟩
  · rw [hentries]
    split
    · exact h.size
    · rw [List.length_set, h.size]
  · rw [hentries]
    split
    case isTrue hio =>
      refine ⟨slot, hslot.congr fun n => ⟨fun hn => hn.before fun heq => ?_, OnItsWay.later⟩⟩
      exact hn.motion (heq ▸ hio)
    case isFalse hmotion =>
      obtain ⟨htick, hfree, habove⟩ := hs.2 hmotion
      have hk : w.c.nextSlot % rxLookupCapacity < w.c.entries.length := by
        rw [h.size]
        exact Nat.mod_lt _ (by decide)
      refine ⟨_, hslot.complete htick hk (fun e he => ?_) (fun j e hj he => ?_)
        ⟨h.order.1, Nat.lt_succ_self _, hmotion⟩⟩
      · rwa [List.getD_eq_getElem?_getD, he] at hfree
      · refine habove j ?_ ?_
        · rw [← h.size]
          exact (List.getElem?_eq_some_iff.1 hj).1
        · rwa [List.getD_eq_getElem?_getD, hj]

/-- An arrival takes its own sample, and of the table its own slot.  It adds nothing to
the histogram or its own turnaround. -/
theorem arrival_c (h : InStep t w) (hs : t.Steady w .arrival) {slot : Nat → Nat}
    (hslot : SlotsOf t w.arrived w.completed w.c.entries slot) :
    (t.step w .arrival).c.pendingRx = t.samples (w.arrived + 1) w.sent ∧
      (t.step w .arrival).c.entries =
        (if (t.sample w.arrived).groupId = groupIo then w.c.entries
        else w.c.entries.set (slot w.arrived) ⟨noTick, t.txTime w.arrived⟩) ∧
      t.OwnTimes ⟨w, .arrival, t.step w .arrival⟩ := by
  have htake := Traffic.fifoTake_own (h.dueRx ▸ hs.1)
  rw [← h.dueRx] at htake
  dsimp only [Traffic.OwnTimes, Traffic.step, Traffic.call, TurnaroundCtx.step,
    turnaroundOnRxArrivalIdx]
  rw [htake]
  dsimp only
  by_cases hio : (t.sample w.arrived).groupId = groupIo
  · rw [if_pos hio, if_pos hio]
    exact ⟨rfl, rfl, .inl rfl⟩
  · rw [if_neg hio, if_neg hio, hslot.lookup ⟨Nat.le_refl _, hs.2, hio⟩]
    dsimp only [addTurnaround]
    split
    · exact ⟨rfl, rfl, .inl rfl⟩
    · exact ⟨rfl, rfl, .inr ⟨rfl, rfl⟩⟩

theorem arrival (h : InStep t w) (hs : t.Steady w .arrival) : InStep t (t.step w .arrival) := by
  obtain ⟨slot, hslot⟩ := h.slots
  obtain ⟨hrx, hentries, -⟩ := h.arrival_c hs hslot
  have htx : (t.step w .arrival).c.pendingTx = w.c.pendingTx := (rxArrival_pending w.c _ _).2.1
  refine ⟨⟨hs.2, h.order.2⟩, htx.trans h.dueTx, hrx, ?_, slot, ?_⟩
  · rw [hentries]
    split
    · exact h.size
    · rw [List.length_set, h.size]
  · rw [hentries]
    split
    case isTrue hio =>
      refine hslot.congr fun n => ⟨OnItsWay.unreceived, fun hn => hn.stays fun heq => ?_⟩
      exact hn.motion (heq ▸ hio)
    case isFalse hmotion => exact hslot.receive ⟨Nat.le_refl _, hs.2, hmotion⟩ _

theorem resync (h : InStep t w) : InStep t (t.step w .resync) := by
  have hc : max w.completed w.sent = w.sent := Nat.max_eq_right h.order.2
  have ha : max w.arrived w.sent = w.sent := Nat.max_eq_right (h.order.1.trans h.order.2)
  have hstep : t.step w .resync = ⟨turnaroundResync w.c, w.sent, w.sent, w.sent⟩ := by
    simp only [Traffic.step, hc, ha]
    rfl
  rw [hstep]
  refine ⟨⟨Nat.le_refl _, Nat.le_refl _⟩, (t.samples_self _).symm, (t.samples_self _).symm, ?_,
    fun _ => 0, SlotsOf.of_empty (Nat.le_refl _) (fun e he => ?_) _⟩
  · exact List.length_map .. |>.trans h.size
  · obtain ⟨e', -, rfl⟩ := List.mem_map.1 he
    rfl

/-- The step lemma. -/
theorem step (h : InStep t w) {e : FrameEv} (hs : t.Steady w e) : InStep t (t.step w e) := by
  cases e with
  | drain n => exact h.drain hs
  | completion => exact h.completion hs
  | arrival => exact h.arrival hs
  | resync => exact h.resync

theorem ownTimes (h : InStep t w) {e : FrameEv} (hs : t.Steady w e) :
    t.OwnTimes ⟨w, e, t.step w e⟩ := by
  cases e with
  | drain n =>
    refine .inl ?_
    dsimp only
    rw [h.drain_c hs]
  | completion => exact .inl (h.completion_c hs).2.2
  | arrival =>
    obtain ⟨slot, hslot⟩ := h.slots
    exact (h.arrival_c hs hslot).2.2
  | resync => exact .inl rfl

end InStep

/-- In every run of steady calls each value of the histogram is the turnaround of one
frame, the one whose arrival adds it. -/
theorem steady_pairs_own_times (t : Traffic) (es : List FrameEv)
    (hsteady : Along t.step Watched.init es fun _ r => t.Steady r.pre r.ev) :
    Along t.step Watched.init es fun _ r => t.OwnTimes r :=
  Along.of_invariant (I := fun _ w => InStep t w) (InStep.init t)
    (fun _ _ _ h hs => h.step hs) (fun _ _ _ h hs => h.ownTimes hs) hsteady

/-- A process data frame and a mailbox frame in every tick but the first, each back
after 50 us. -/
def mailboxTraffic : Traffic :=
  { sample := fun n =>
      ⟨UInt64.ofNat ((n + 1) / 2), 1, if n % 2 = 1 then UInt8.ofNat (n % 16) else 0xFF⟩
    idx := fun n => UInt8.ofNat (n % 16)
    txTime := fun n => UInt64.ofNat (100000 * n)
    rxTime := fun n => UInt64.ofNat (100000 * n) + 50000
    known := fun n => by
      dsimp only
      split
      · exact .inl rfl
      · exact .inr rfl }

/-- The reader sees both completions of a tick, then both arrivals. -/
def readTick : List FrameEv := [.drain 2, .completion, .completion, .arrival, .arrival]

theorem steady_pairs_own_times_two_ticks :
    (Along mailboxTraffic.step Watched.init (readTick ++ readTick) fun _ r =>
        mailboxTraffic.Steady r.pre r.ev) ∧
      (Along mailboxTraffic.step Watched.init (readTick ++ readTick) fun _ r =>
        mailboxTraffic.OwnTimes r) ∧
      (run mailboxTraffic.step Watched.init (readTick ++ readTick)).c.hist =
        [50000, 50000, 50000, 50000] := by
  have hsteady : Along mailboxTraffic.step Watched.init (readTick ++ readTick) fun _ r =>
      mailboxTraffic.Steady r.pre r.ev := by decide +kernel
  exact ⟨hsteady, steady_pairs_own_times mailboxTraffic _ hsteady, by decide +kernel⟩

/-- The 33 first ticks.  The frames of the last one get the slots 63 and 0. -/
def readTicks : List FrameEv :=
  [.drain 1, .completion, .arrival] ++ (List.replicate 32 readTick).flatten

/-- The table wraps between the two frames of a tick.  The first arrival takes the time
of the second frame, and the second adds 150 us to the histogram, although every frame
was back after 50. -/
theorem wrapped_table_swaps_times :
    (¬ Along mailboxTraffic.step Watched.init readTicks fun _ r => mailboxTraffic.OwnTimes r) ∧
      (run mailboxTraffic.step Watched.init readTicks).c.hist =
        List.replicate 63 50000 ++ [150000] ∧
      ∀ n, mailboxTraffic.turnaround n = 50000 := by
  refine ⟨by decide +kernel, by decide +kernel, fun n => ?_⟩
  have hsub : UInt64.ofNat (100000 * n) + 50000 - UInt64.ofNat (100000 * n) = 50000 := by
    rw [UInt64.add_comm, UInt64.add_sub_cancel]
  show (UInt64.ofNat (100000 * n) + 50000 - UInt64.ofNat (100000 * n)).toInt64 = 50000
  rw [hsub]
  rfl

end EcMaster.Telemetry
