import EcMaster.Lib.Run

/-!
# The turnaround correlator

The RT thread pushes one `TxOrderSample` for every frame it sends.  The telemetry
thread drains these samples into two FIFOs of pending sends, one for the transmit
completions and one for the arrivals, and gives every completion and every arrival
to a pending send: `fifoTake` looks for the EtherCAT index that the frame carries.
The transmit time of a motion send then waits in a table of 64 slots, which the
arrival searches by tick.

The FIFOs are lists here, oldest first.  `Books` follows every send that is drained:
`taken` by a completion (or an arrival), `skipped`, `discarded` by a
resynchronisation, or `dropped` by a drain that finds 256 sends pending.  The counters
are natural numbers, 64 bits wide in the source.

* `fifoTake_split` and `drain_split` say what one call does to a FIFO.
* `Books.Balanced` is the conservation law, with the dropped sends in it.
* `books_accounted_iff` is the law that the counters promise, without them: it holds
  in exactly the runs in which no drain finds a FIFO full.
-/

namespace EcMaster.Telemetry

open EcMaster.Run

/-! ## The correlator -/

def groupIo : UInt8 := 2

/-- Capacity of the order ring, and of the two FIFOs. -/
def txOrderRingCapacity : Nat := 256

def rxLookupCapacity : Nat := 64

def turnaroundLookahead : Nat := 32

def turnaroundMaxAgeTicks : UInt64 := 12

def turnaroundSanityMaxNs : Int64 := 1000000

/-- The index of a send whose frame the RT thread did not build itself. -/
def txOrderIdxUnknown : UInt8 := 0xFF

/-- The tick of an empty slot. -/
def noTick : UInt64 := 0xFFFFFFFFFFFFFFFF

/-- A send, as the RT thread reports it. -/
structure TxOrderSample where
  tick : UInt64
  groupId : UInt8
  ecIdx : UInt8
deriving DecidableEq, Repr

/-- A transmit time that waits for its arrival. -/
structure RxEntry where
  tick : UInt64
  rxTsNs : UInt64
deriving DecidableEq, Repr

structure TurnaroundCtx where
  entries : List RxEntry
  nextSlot : Nat
  pendingTx : List TxOrderSample
  pendingRx : List TxOrderSample
  statMatched : Nat
  statEvictedNoMatch : Nat
  statCompletionNoPending : Nat
  statRxNoPending : Nat
  statImplausible : Nat
  statTxIoDiscarded : Nat
  statRxIoDiscarded : Nat
  statTxSkipped : Nat
  statRxSkipped : Nat
  statTxUnmatched : Nat
  statRxUnmatched : Nat
  /-- The values added to the histogram, oldest first. -/
  hist : List Int64
deriving DecidableEq, Repr

def emptyEntries : List RxEntry := List.replicate rxLookupCapacity ⟨noTick, 0⟩

def turnaroundInit : TurnaroundCtx :=
  { entries := emptyEntries
    nextSlot := 0
    pendingTx := []
    pendingRx := []
    statMatched := 0
    statEvictedNoMatch := 0
    statCompletionNoPending := 0
    statRxNoPending := 0
    statImplausible := 0
    statTxIoDiscarded := 0
    statRxIoDiscarded := 0
    statTxSkipped := 0
    statRxSkipped := 0
    statTxUnmatched := 0
    statRxUnmatched := 0
    hist := [] }

def turnaroundResync (c : TurnaroundCtx) : TurnaroundCtx :=
  { c with
    entries := c.entries.map fun e => { e with tick := noTick }
    nextSlot := 0
    pendingTx := []
    pendingRx := [] }

/-- The transmit time of a send goes into the next slot. -/
def turnaroundNoteRx (c : TurnaroundCtx) (tick rxTsNs : UInt64) : TurnaroundCtx :=
  let idx := c.nextSlot % rxLookupCapacity
  { c with
    statEvictedNoMatch :=
      if (c.entries.getD idx ⟨noTick, 0⟩).tick ≠ noTick then c.statEvictedNoMatch + 1
      else c.statEvictedNoMatch
    entries := c.entries.set idx ⟨tick, rxTsNs⟩
    nextSlot := c.nextSlot + 1 }

/-- The first slot with this tick: its time, and the table with that slot emptied. -/
def rxLookupTake (tick : UInt64) : List RxEntry → Option (UInt64 × List RxEntry)
  | [] => none
  | e :: es =>
    if e.tick = tick then some (e.rxTsNs, { e with tick := noTick } :: es)
    else (rxLookupTake tick es).map fun (ts, es') => (ts, e :: es')

/-- One sample into a FIFO.  A full one loses its oldest send. -/
def enqueue (q : List TxOrderSample) (s : TxOrderSample) : List TxOrderSample :=
  (if txOrderRingCapacity ≤ q.length then q.tail else q) ++ [s]

def turnaroundDrainTxOrder (c : TurnaroundCtx) (ring : List TxOrderSample) : TurnaroundCtx :=
  ring.foldl (fun c s =>
    { c with pendingTx := enqueue c.pendingTx s, pendingRx := enqueue c.pendingRx s }) c

/-- What `fifoTake` answers. -/
inductive Fetched where
  /-- nothing is pending -/
  | empty
  /-- no pending send carries the index -/
  | unmatched
  | took (s : TxOrderSample)
deriving DecidableEq, Repr

/-- The answer of `fifoTake`, with the sends it passed over and those still pending. -/
structure FifoResult where
  out : Fetched
  skipped : List TxOrderSample
  rest : List TxOrderSample
deriving DecidableEq, Repr

/-- Too old to be answered, `newest` being the tick of the youngest pending send. -/
def tooOld (newest : UInt64) (e : TxOrderSample) : Bool :=
  decide (turnaroundMaxAgeTicks < newest - e.tick)

/-- Take the pending send that an event belongs to.  Without an index it is the
oldest. -/
def fifoTake (q : List TxOrderSample) (ecIdx : Option UInt8) : FifoResult :=
  match q with
  | [] => ⟨.empty, [], []⟩
  | oldest :: others =>
    match ecIdx with
    | none => ⟨.took oldest, [], others⟩
    | some i =>
      let newest := ((oldest :: others).getLast (List.cons_ne_nil oldest others)).tick
      let old := (oldest :: others).takeWhile (tooOld newest)
      let young := (oldest :: others).dropWhile (tooOld newest)
      match (young.take turnaroundLookahead).findIdx? (fun e => e.ecIdx == i) with
      | some j =>
        match young.drop j with
        | e :: rest => ⟨.took e, old ++ young.take j, rest⟩
        | [] => ⟨.unmatched, old, young⟩
      | none =>
        match young with
        | e :: rest =>
          -- a mailbox frame, whose index the RT thread did not know: pair by position
          if e.ecIdx = txOrderIdxUnknown then ⟨.took e, old, rest⟩
          else ⟨.unmatched, old, young⟩
        | [] => ⟨.unmatched, old, young⟩

def turnaroundOnTxCompleteIdx (c : TurnaroundCtx) (txTsNs : UInt64) (ecIdx : Option UInt8) :
    TurnaroundCtx :=
  let r := fifoTake c.pendingTx ecIdx
  let c := { c with pendingTx := r.rest, statTxSkipped := c.statTxSkipped + r.skipped.length }
  match r.out with
  | .empty => { c with statCompletionNoPending := c.statCompletionNoPending + 1 }
  | .unmatched => { c with statTxUnmatched := c.statTxUnmatched + 1 }
  | .took s =>
    if s.groupId = groupIo then { c with statTxIoDiscarded := c.statTxIoDiscarded + 1 }
    else turnaroundNoteRx c s.tick txTsNs

/-- The transmit time is in the slot: a plausible difference goes into the
histogram. -/
def addTurnaround (c : TurnaroundCtx) (rxTsNs txTsNs : UInt64) : TurnaroundCtx :=
  let turnaroundNs := (rxTsNs - txTsNs).toInt64
  if turnaroundNs < 0 ∨ turnaroundSanityMaxNs < turnaroundNs then
    { c with statImplausible := c.statImplausible + 1 }
  else { c with hist := c.hist ++ [turnaroundNs], statMatched := c.statMatched + 1 }

def turnaroundOnRxArrivalIdx (c : TurnaroundCtx) (rxTsNs : UInt64) (ecIdx : Option UInt8) :
    TurnaroundCtx :=
  let r := fifoTake c.pendingRx ecIdx
  let c := { c with pendingRx := r.rest, statRxSkipped := c.statRxSkipped + r.skipped.length }
  match r.out with
  | .empty => { c with statRxNoPending := c.statRxNoPending + 1 }
  | .unmatched => { c with statRxUnmatched := c.statRxUnmatched + 1 }
  | .took s =>
    if s.groupId = groupIo then { c with statRxIoDiscarded := c.statRxIoDiscarded + 1 }
    else match rxLookupTake s.tick c.entries with
      | some (txTsNs, entries) => addTurnaround { c with entries := entries } rxTsNs txTsNs
      | none => { c with statEvictedNoMatch := c.statEvictedNoMatch + 1 }

/-- A call of the correlator.  `drain` has the samples that it pops from the ring. -/
inductive TurnEv where
  | drain (ring : List TxOrderSample)
  | txComplete (tsNs : UInt64) (ecIdx : Option UInt8)
  | rxArrival (tsNs : UInt64) (ecIdx : Option UInt8)
  | resync
deriving DecidableEq, Repr

def TurnaroundCtx.step (c : TurnaroundCtx) : TurnEv → TurnaroundCtx
  | .drain ring => turnaroundDrainTxOrder c ring
  | .txComplete ts i => turnaroundOnTxCompleteIdx c ts i
  | .rxArrival ts i => turnaroundOnRxArrivalIdx c ts i
  | .resync => turnaroundResync c

/-! ## What a call does to the FIFOs -/

section Fields

variable (c : TurnaroundCtx) (ts ts' : UInt64) (i : Option UInt8) (ring : List TxOrderSample)

/-- A drain changes the two FIFOs and nothing else. -/
theorem drain_eq :
    turnaroundDrainTxOrder c ring =
      { c with
        pendingTx := ring.foldl enqueue c.pendingTx
        pendingRx := ring.foldl enqueue c.pendingRx } := by
  unfold turnaroundDrainTxOrder
  induction ring generalizing c with
  | nil => rfl
  | cons s ring ih => exact ih _

theorem addTurnaround_pending :
    (addTurnaround c ts ts').pendingTx = c.pendingTx ∧
      (addTurnaround c ts ts').pendingRx = c.pendingRx ∧
      (addTurnaround c ts ts').statTxSkipped = c.statTxSkipped ∧
      (addTurnaround c ts ts').statRxSkipped = c.statRxSkipped := by
  unfold addTurnaround
  dsimp only
  split <;> exact ⟨rfl, rfl, rfl, rfl⟩

/-- A completion works on the FIFO of the completions alone. -/
theorem txComplete_pending :
    (turnaroundOnTxCompleteIdx c ts i).pendingTx = (fifoTake c.pendingTx i).rest ∧
      (turnaroundOnTxCompleteIdx c ts i).pendingRx = c.pendingRx ∧
      (turnaroundOnTxCompleteIdx c ts i).statTxSkipped =
        c.statTxSkipped + (fifoTake c.pendingTx i).skipped.length ∧
      (turnaroundOnTxCompleteIdx c ts i).statRxSkipped = c.statRxSkipped := by
  unfold turnaroundOnTxCompleteIdx
  dsimp only
  split
  · exact ⟨rfl, rfl, rfl, rfl⟩
  · exact ⟨rfl, rfl, rfl, rfl⟩
  · split <;> exact ⟨rfl, rfl, rfl, rfl⟩

theorem rxArrival_pending :
    (turnaroundOnRxArrivalIdx c ts i).pendingRx = (fifoTake c.pendingRx i).rest ∧
      (turnaroundOnRxArrivalIdx c ts i).pendingTx = c.pendingTx ∧
      (turnaroundOnRxArrivalIdx c ts i).statRxSkipped =
        c.statRxSkipped + (fifoTake c.pendingRx i).skipped.length ∧
      (turnaroundOnRxArrivalIdx c ts i).statTxSkipped = c.statTxSkipped := by
  unfold turnaroundOnRxArrivalIdx
  dsimp only
  split
  · exact ⟨rfl, rfl, rfl, rfl⟩
  · exact ⟨rfl, rfl, rfl, rfl⟩
  · split
    · exact ⟨rfl, rfl, rfl, rfl⟩
    · split
      · obtain ⟨htx, hrx, hstx, hsrx⟩ := addTurnaround_pending
          { c with
            pendingRx := (fifoTake c.pendingRx i).rest
            statRxSkipped := c.statRxSkipped + (fifoTake c.pendingRx i).skipped.length
            entries := _ } ts _
        exact ⟨hrx, htx, hsrx, hstx⟩
      · exact ⟨rfl, rfl, rfl, rfl⟩

end Fields

/-- The send that was taken. -/
def Fetched.sends : Fetched → List TxOrderSample
  | .took s => [s]
  | _ => []

/-- `fifoTake` takes its sends from the front: those it passed over, the one it took,
and the rest. -/
theorem fifoTake_split (q : List TxOrderSample) (i : Option UInt8) :
    q = (fifoTake q i).skipped ++ ((fifoTake q i).out.sends ++ (fifoTake q i).rest) := by
  cases q with
  | nil => rfl
  | cons oldest others =>
    cases i with
    | none => rfl
    | some i =>
      dsimp only [fifoTake]
      generalize tooOld ((oldest :: others).getLast (List.cons_ne_nil oldest others)).tick = p
      generalize oldest :: others = q
      have hq : q = q.takeWhile p ++ q.dropWhile p := List.takeWhile_append_dropWhile.symm
      split
      case h_1 j _ =>
        split
        case h_1 e rest hdrop =>
          have hyoung : q.dropWhile p = (q.dropWhile p).take j ++ e :: rest := by
            rw [← hdrop, List.take_append_drop]
          rw [hyoung] at hq
          simpa [Fetched.sends] using hq
        case h_2 => exact hq
      case h_2 =>
        split
        case h_1 e rest hyoung =>
          split
          · rw [hyoung] at hq
            exact hq
          · exact hq
        case h_2 => exact hq

/-! ## The sends that a drain drops -/

/-- The sends that leave a FIFO, uncounted, while the ring is drained into it. -/
def droppedBy : List TxOrderSample → List TxOrderSample → List TxOrderSample
  | _, [] => []
  | q, s :: ring =>
    (if txOrderRingCapacity ≤ q.length then q.take 1 else []) ++ droppedBy (enqueue q s) ring

theorem enqueue_split (q : List TxOrderSample) (s : TxOrderSample) :
    q ++ [s] = (if txOrderRingCapacity ≤ q.length then q.take 1 else []) ++ enqueue q s := by
  unfold enqueue
  split
  · rw [← List.append_assoc, ← List.drop_one, List.take_append_drop]
  · rfl

/-- A drain appends the ring to the FIFO and drops from its front. -/
theorem drain_split (ring q : List TxOrderSample) :
    q ++ ring = droppedBy q ring ++ ring.foldl enqueue q := by
  induction ring generalizing q with
  | nil => exact List.append_nil q
  | cons s ring ih =>
    calc q ++ s :: ring = (q ++ [s]) ++ ring := by simp
      _ = (if txOrderRingCapacity ≤ q.length then q.take 1 else []) ++
            (enqueue q s ++ ring) := by rw [enqueue_split, List.append_assoc]
      _ = droppedBy q (s :: ring) ++ (s :: ring).foldl enqueue q := by
          rw [ih, ← List.append_assoc]
          rfl

theorem length_enqueue_le {q : List TxOrderSample} (hq : q.length ≤ txOrderRingCapacity)
    (s : TxOrderSample) : (enqueue q s).length ≤ txOrderRingCapacity := by
  unfold enqueue
  split
  case isTrue h =>
    rw [List.length_append, List.length_tail, List.length_singleton]
    have hpos : 0 < txOrderRingCapacity := by decide
    omega
  case isFalse h =>
    rw [List.length_append, List.length_singleton]
    omega

theorem length_drain_le {q : List TxOrderSample} (hq : q.length ≤ txOrderRingCapacity)
    (ring : List TxOrderSample) : (ring.foldl enqueue q).length ≤ txOrderRingCapacity := by
  induction ring generalizing q with
  | nil => exact hq
  | cons s ring ih => exact ih (length_enqueue_le hq s)

/-- Nothing is dropped exactly when the ring has room. -/
theorem droppedBy_eq_nil_iff {q : List TxOrderSample} (hq : q.length ≤ txOrderRingCapacity)
    (ring : List TxOrderSample) :
    droppedBy q ring = [] ↔ q.length + ring.length ≤ txOrderRingCapacity := by
  have hlen := congrArg List.length (drain_split ring q)
  simp only [List.length_append] at hlen
  have hle := length_drain_le hq ring
  constructor
  · intro hnil
    rw [hnil, List.length_nil] at hlen
    omega
  · intro hroom
    induction ring generalizing q with
    | nil => rfl
    | cons s ring ih =>
      rw [List.length_cons] at hroom
      have hfull : ¬ txOrderRingCapacity ≤ q.length := by omega
      have hqs : enqueue q s = q ++ [s] := by rw [enqueue, if_neg hfull]
      have hqlen : (enqueue q s).length = q.length + 1 := by rw [hqs, List.length_append]; rfl
      rw [droppedBy, if_neg hfull, List.nil_append]
      refine ih (length_enqueue_le hq s) ?_ (length_drain_le (length_enqueue_le hq s) ring) ?_
      · have hsplit := congrArg List.length (drain_split ring (enqueue q s))
        simpa using hsplit
      · omega

/-- With room, a drain appends. -/
theorem drain_of_room {q ring : List TxOrderSample}
    (hroom : q.length + ring.length ≤ txOrderRingCapacity) :
    ring.foldl enqueue q = q ++ ring := by
  have hnil := (droppedBy_eq_nil_iff (by omega) ring).2 hroom
  rw [drain_split, hnil, List.nil_append]

/-! ## The books -/

/-- Where the sends of one FIFO have gone. -/
structure Ledger where
  taken : List TxOrderSample
  skipped : List TxOrderSample
  discarded : List TxOrderSample
  dropped : List TxOrderSample
deriving DecidableEq, Repr

def Ledger.blank : Ledger := ⟨[], [], [], []⟩

/-- The ring is drained into the FIFO `q`. -/
def Ledger.drain (l : Ledger) (q ring : List TxOrderSample) : Ledger :=
  { l with dropped := l.dropped ++ droppedBy q ring }

/-- A completion or an arrival looks into the FIFO `q`. -/
def Ledger.take (l : Ledger) (q : List TxOrderSample) (i : Option UInt8) : Ledger :=
  { l with
    taken := l.taken ++ (fifoTake q i).out.sends
    skipped := l.skipped ++ (fifoTake q i).skipped }

/-- The FIFO `q` is emptied. -/
def Ledger.resync (l : Ledger) (q : List TxOrderSample) : Ledger :=
  { l with discarded := l.discarded ++ q }

/-- The correlator with the sends drained so far, and where they have gone on the side
of the completions (`tx`) and of the arrivals (`rx`). -/
structure Books where
  c : TurnaroundCtx
  drained : List TxOrderSample
  tx : Ledger
  rx : Ledger
deriving DecidableEq, Repr

def Books.init : Books := ⟨turnaroundInit, [], .blank, .blank⟩

def Books.step (b : Books) (e : TurnEv) : Books :=
  let c := b.c.step e
  match e with
  | .drain ring =>
    { c := c
      drained := b.drained ++ ring
      tx := b.tx.drain b.c.pendingTx ring
      rx := b.rx.drain b.c.pendingRx ring }
  | .txComplete _ i => { b with c := c, tx := b.tx.take b.c.pendingTx i }
  | .rxArrival _ i => { b with c := c, rx := b.rx.take b.c.pendingRx i }
  | .resync =>
    { b with c := c, tx := b.tx.resync b.c.pendingTx, rx := b.rx.resync b.c.pendingRx }

/-- Every drained send is in one place, the dropped ones included. -/
structure Ledger.Balanced (l : Ledger) (drained q : List TxOrderSample) (statSkipped : Nat) :
    Prop where
  perm : (l.taken ++ l.skipped ++ l.discarded ++ q ++ l.dropped).Perm drained
  counted : statSkipped = l.skipped.length
  fits : q.length ≤ txOrderRingCapacity

/-- Every drained send is taken, counted as skipped, discarded by a resynchronisation
or still pending, and in one of these places alone. -/
structure Ledger.Accounted (l : Ledger) (drained q : List TxOrderSample) (statSkipped : Nat) :
    Prop where
  perm : (l.taken ++ l.skipped ++ l.discarded ++ q).Perm drained
  counted : statSkipped = l.skipped.length
  total : l.taken.length + statSkipped + l.discarded.length + q.length = drained.length

namespace Ledger.Balanced

variable {l : Ledger} {drained q : List TxOrderSample} {n : Nat}

theorem drain (h : l.Balanced drained q n) (ring : List TxOrderSample) :
    (l.drain q ring).Balanced (drained ++ ring) (ring.foldl enqueue q) n := by
  refine ⟨?_, h.counted, length_drain_le h.fits ring⟩
  rw [List.perm_iff_count]
  intro s
  have hold := List.perm_iff_count.1 h.perm s
  have hnew := congrArg (List.count s) (drain_split ring q)
  simp only [List.count_append] at hold hnew
  simp only [Ledger.drain, List.count_append]
  omega

theorem take (h : l.Balanced drained q n) (i : Option UInt8) :
    (l.take q i).Balanced drained (fifoTake q i).rest (n + (fifoTake q i).skipped.length) := by
  refine ⟨?_, ?_, ?_⟩
  · rw [List.perm_iff_count]
    intro s
    have hold := List.perm_iff_count.1 h.perm s
    have hnew := congrArg (List.count s) (fifoTake_split q i)
    simp only [List.count_append] at hold hnew
    simp only [Ledger.take, List.count_append]
    omega
  · rw [Ledger.take, List.length_append, h.counted]
  · have hlen := congrArg List.length (fifoTake_split q i)
    simp only [List.length_append] at hlen
    have hfits := h.fits
    omega

theorem resync (h : l.Balanced drained q n) : (l.resync q).Balanced drained [] n := by
  refine ⟨?_, h.counted, Nat.zero_le _⟩
  have hperm := h.perm
  simp only [Ledger.resync, List.append_nil, ← List.append_assoc] at hperm ⊢
  exact hperm

theorem accounted_iff (h : l.Balanced drained q n) :
    l.Accounted drained q n ↔ l.dropped = [] := by
  have hlen := h.perm.length_eq
  simp only [List.length_append] at hlen
  constructor
  · intro ha
    have hlen' := ha.perm.length_eq
    simp only [List.length_append] at hlen'
    exact List.eq_nil_of_length_eq_zero (by omega)
  · intro hnil
    have hperm := h.perm
    rw [hnil, List.append_nil] at hperm
    rw [hnil, List.length_nil] at hlen
    exact ⟨hperm, h.counted, by rw [h.counted]; omega⟩

end Ledger.Balanced

structure Books.Balanced (b : Books) : Prop where
  tx : b.tx.Balanced b.drained b.c.pendingTx b.c.statTxSkipped
  rx : b.rx.Balanced b.drained b.c.pendingRx b.c.statRxSkipped

/-- The promise of the counters, for both sides. -/
structure Books.Accounted (b : Books) : Prop where
  tx : b.tx.Accounted b.drained b.c.pendingTx b.c.statTxSkipped
  rx : b.rx.Accounted b.drained b.c.pendingRx b.c.statRxSkipped

theorem Books.init_balanced : Books.init.Balanced :=
  ⟨⟨.refl _, rfl, Nat.zero_le _⟩, ⟨.refl _, rfl, Nat.zero_le _⟩⟩

/-- The step lemma of the conservation law. -/
theorem Books.Balanced.step {b : Books} (h : b.Balanced) (e : TurnEv) : (b.step e).Balanced := by
  cases e with
  | drain ring =>
    have htx := h.tx.drain ring
    have hrx := h.rx.drain ring
    dsimp only [Books.step, TurnaroundCtx.step]
    rw [drain_eq]
    exact ⟨htx, hrx⟩
  | txComplete ts i =>
    obtain ⟨hq, hq', hn, hn'⟩ := txComplete_pending b.c ts i
    refine ⟨?_, ?_⟩
    · dsimp only [Books.step, TurnaroundCtx.step]
      rw [hq, hn]
      exact h.tx.take i
    · dsimp only [Books.step, TurnaroundCtx.step]
      rw [hq', hn']
      exact h.rx
  | rxArrival ts i =>
    obtain ⟨hq, hq', hn, hn'⟩ := rxArrival_pending b.c ts i
    refine ⟨?_, ?_⟩
    · dsimp only [Books.step, TurnaroundCtx.step]
      rw [hq', hn']
      exact h.tx
    · dsimp only [Books.step, TurnaroundCtx.step]
      rw [hq, hn]
      exact h.rx.take i
  | resync => exact ⟨h.tx.resync, h.rx.resync⟩

/-- Conservation over a whole run, with the dropped sends. -/
theorem Books.run_balanced (es : List TurnEv) : (run Books.step Books.init es).Balanced :=
  Along.invariant (C := fun _ _ => True) (I := fun _ (b : Books) => b.Balanced) Books.init_balanced
    (fun _ _ e h _ => h.step e) (fun _ _ _ _ => trivial)

theorem Books.Balanced.accounted_iff {b : Books} (h : b.Balanced) :
    b.Accounted ↔ b.tx.dropped = [] ∧ b.rx.dropped = [] := by
  rw [← h.tx.accounted_iff, ← h.rx.accounted_iff]
  exact ⟨fun ha => ⟨ha.tx, ha.rx⟩, fun ⟨htx, hrx⟩ => ⟨htx, hrx⟩⟩

/-! ## Complete accounting -/

/-- A drain finds room for the samples it pops in both FIFOs. -/
def RoomFor (c : TurnaroundCtx) : TurnEv → Prop
  | .drain ring =>
    c.pendingTx.length + ring.length ≤ txOrderRingCapacity ∧
      c.pendingRx.length + ring.length ≤ txOrderRingCapacity
  | _ => True

/-- Exactly the calls with room leave the dropped sends as they are. -/
theorem Books.dropped_step_iff {b : Books} (h : b.Balanced) (e : TurnEv) :
    ((b.step e).tx.dropped = [] ∧ (b.step e).rx.dropped = []) ↔
      (b.tx.dropped = [] ∧ b.rx.dropped = []) ∧ RoomFor b.c e := by
  cases e with
  | drain ring =>
    have htx := droppedBy_eq_nil_iff h.tx.fits ring
    have hrx := droppedBy_eq_nil_iff h.rx.fits ring
    simp only [Books.step, Ledger.drain, List.append_eq_nil_iff, RoomFor, htx, hrx]
    tauto
  | txComplete ts i => exact ⟨fun hd => ⟨hd, trivial⟩, fun hd => hd.1⟩
  | rxArrival ts i => exact ⟨fun hd => ⟨hd, trivial⟩, fun hd => hd.1⟩
  | resync => exact ⟨fun hd => ⟨hd, trivial⟩, fun hd => hd.1⟩

/-- After every call the counters account for every drained send, exactly when no drain
of the run finds a FIFO without room. -/
theorem books_accounted_iff (es : List TurnEv) :
    (Along Books.step Books.init es fun _ r => r.post.Accounted) ↔
      Along Books.step Books.init es fun _ r => RoomFor r.pre.c r.ev := by
  constructor
  · intro hall hist r rest htrace
    have hacc : r.post.Accounted := hall hist r rest htrace
    obtain ⟨es₁, es₂, -, -, hpre, hpost⟩ := trace_split htrace
    have hbal : r.pre.Balanced := hpre ▸ Books.run_balanced es₁
    rw [hpost] at hacc
    have hnil := (hbal.step r.ev).accounted_iff.1 hacc
    exact ((Books.dropped_step_iff hbal r.ev).1 hnil).2
  · -- by induction along the run nothing has been dropped
    refine Along.of_invariant
      (I := fun _ b => b.Balanced ∧ b.tx.dropped = [] ∧ b.rx.dropped = [])
      ⟨Books.init_balanced, rfl, rfl⟩ ?_ ?_
    · rintro hist b e ⟨hbal, hnil⟩ hroom
      exact ⟨hbal.step e, (Books.dropped_step_iff hbal e).2 ⟨hnil, hroom⟩⟩
    · rintro hist b e ⟨hbal, hnil⟩ hroom
      exact (hbal.step e).accounted_iff.2 ((Books.dropped_step_iff hbal e).2 ⟨hnil, hroom⟩)

/-- 257 frames are sent before the first completion is read, a full order ring and one
more. -/
def lateReader : List TurnEv :=
  [.drain (List.replicate 256 ⟨1, 1, 0⟩), .drain [⟨1, 1, 0⟩]]

/-- The second drain drops the oldest of them, and no counter says so. -/
theorem full_fifo_drops_send :
    ¬ (run Books.step Books.init lateReader).Accounted ∧
      (run Books.step Books.init lateReader).drained.length = 257 ∧
      (run Books.step Books.init lateReader).c.pendingTx.length = 256 ∧
      (run Books.step Books.init lateReader).c.statTxSkipped = 0 := by
  have hfacts : (run Books.step Books.init lateReader).drained.length = 257 ∧
      (run Books.step Books.init lateReader).c.pendingTx.length = 256 ∧
      (run Books.step Books.init lateReader).c.statTxSkipped = 0 := by decide +kernel
  refine ⟨fun h => ?_, hfacts⟩
  have htotal := h.tx.total
  have htaken : (run Books.step Books.init lateReader).tx.taken = [] := by decide +kernel
  have hdiscarded : (run Books.step Books.init lateReader).tx.discarded = [] := by decide +kernel
  rw [hfacts.1, hfacts.2.1, hfacts.2.2, htaken, hdiscarded] at htotal
  exact absurd htotal (by decide)

end EcMaster.Telemetry
