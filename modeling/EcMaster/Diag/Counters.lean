import EcMaster.Diag.Cable

/-!
# Adding up error counters

The counters of an ESC have eight bits and stop at 255.  The master adds up what it
reads of them.  In clear-on-read mode a read that the slave answers returns its
counters and clears them, so every read is a difference.  In passive mode nothing
is cleared and the master subtracts what it read before.

A history is a list of `CounterEv`: errors, counters that something else than the
master has cleared, and diagnosis reads.  A read is the `Raw` that the master gets,
whose error blocks are those of the chain.  It may be lost (`frameOk`), leave a
slave out (`first`, `count`) or get no answer from it (`wkcErr`).  A lost read did
not get to any slave.

`count_of_reads`, `count_of_not_reads` and `count_chain` say what one event does to
the books of a slave and to its counters.  `Summed` and `Followed` are the invariants of the two modes,
and `counters_accumulate` is the result for every history.
-/

namespace EcMaster.Diag

open EcMaster.Run

theorem cell_countsOf (e : Nat → Nat) {j : Nat} (hj : j < 20) (hc : isCounter j = true) :
    (countsOf e).cell j = e j := by
  have hne : j ≠ 14 ∧ j ≠ 15 := by simpa [isCounter] using hc
  interval_cases j <;> first | rfl | omega

theorem cell_add (t d : Counts) (j : Nat) : (t.add d).cell j = t.cell j + d.cell j := by
  unfold Counts.cell
  split_ifs <;> rfl

/-! ## Histories -/

/-- What happens to the counters of a bus. -/
inductive CounterEv where
  /-- an error is counted by slave `i` at offset `j` -/
  | error (i j : Nat)
  /-- a power cycle, or another master -/
  | cleared (i j : Nat)
  /-- a diagnosis read; its error blocks are those of the chain -/
  | read (q : Raw)

namespace CounterEv

def isError (i j : Nat) : CounterEv → Bool
  | .error a b => a == i && b == j
  | _ => false

def isClear (i j : Nat) : CounterEv → Bool
  | .cleared a b => a == i && b == j
  | _ => false

/-- The read is a successful one of the counters of slave `i`. -/
def reads (i : Nat) : CounterEv → Bool
  | .read q => q.frameOk && decide (q.first ≤ i) && decide (i < q.first + q.count) &&
      decide (0 < (q.s i).wkcErr)
  | _ => false

end CounterEv

/-- One event, in one of the two modes. -/
def Bus.count (clearOnRead : Bool) (b : Bus) (e : CounterEv) : Bus :=
  match e with
  | .error i j => { b with chain := escCntInc b.chain (i, j) }
  | .cleared i j => { b with chain := Function.update b.chain i (Function.update (b.chain i) j 0) }
  | .read q =>
      { chain := fun i => if clearOnRead && e.reads i then fun _ => 0 else b.chain i
        diag := ecmDiagIngest b.diag
          { q with
            clearOnRead := clearOnRead
            s := fun i => { q.s i with err := b.chain i } } }

/-- The errors of a counter. -/
def errors (i j : Nat) (es : List CounterEv) : Nat := es.countP (CounterEv.isError i j)

/-- The history up to the last successful read of slave `i`. -/
def upToRead (i : Nat) (es : List CounterEv) : List CounterEv := es.rdropWhile fun e => !e.reads i

/-- The history after it. -/
def sinceRead (i : Nat) (es : List CounterEv) : List CounterEv := es.rtakeWhile fun e => !e.reads i

/-- No period that ends with a successful read of slave `i` has more than 255
errors of a counter. -/
def Countable (i j : Nat) (es : List CounterEv) : Prop :=
  ∀ before period e after, es = before ++ period ++ e :: after → e.reads i = true →
    (∀ x ∈ period, x.reads i = false) → errors i j period ≤ 255

/-- The counter as the last successful read has found it. -/
def lastValue (i j : Nat) (hist : List (Rec Bus CounterEv)) : Nat :=
  match (hist.filter (·.ev.reads i)).getLast? with
  | some r => (r.pre.chain i j).toNat
  | none => 0

/-- Some successful read of slave `i` has found a counter at its end. -/
def ReadFull (i : Nat) (hist : List (Rec Bus CounterEv)) : Prop :=
  ∃ r ∈ hist, r.ev.reads i = true ∧ ∃ j < 20, isCounter j = true ∧ r.pre.chain i j = 0xFF

theorem errors_concat (i j : Nat) (es : List CounterEv) (e : CounterEv) :
    errors i j (es ++ [e]) = errors i j es + if e.isError i j then 1 else 0 := by
  unfold errors
  rw [List.countP_append]
  simp [List.countP_cons]

theorem errors_upToRead_add (i j : Nat) (es : List CounterEv) :
    errors i j (upToRead i es) + errors i j (sinceRead i es) = errors i j es := by
  unfold errors upToRead sinceRead
  rw [← List.countP_append, List.rdropWhile_append_rtakeWhile]

theorem isError_of_reads {i j k : Nat} {e : CounterEv} (h : e.reads k = true) :
    e.isError i j = false := by
  cases e with
  | read q => rfl
  | error | cleared => cases h

theorem upToRead_concat (i : Nat) (es : List CounterEv) (e : CounterEv) :
    upToRead i (es ++ [e]) = if e.reads i then es ++ [e] else upToRead i es := by
  unfold upToRead
  rw [List.rdropWhile_concat]
  cases e.reads i <;> simp

theorem sinceRead_concat (i : Nat) (es : List CounterEv) (e : CounterEv) :
    sinceRead i (es ++ [e]) = if e.reads i then [] else sinceRead i es ++ [e] := by
  unfold sinceRead
  rw [List.rtakeWhile_concat]
  cases e.reads i <;> simp

theorem Countable.of_concat {i j : Nat} {es : List CounterEv} {e : CounterEv}
    (h : Countable i j (es ++ [e])) : Countable i j es := by
  intro before period r after hes
  exact h before period r (after ++ [e]) (by simp [hes])

/-- The period that a successful read ends. -/
theorem Countable.last {i j : Nat} {es : List CounterEv} {e : CounterEv}
    (h : Countable i j (es ++ [e])) (he : e.reads i = true) :
    errors i j (sinceRead i es) ≤ 255 := by
  refine h (upToRead i es) (sinceRead i es) e [] ?_ he ?_
  · unfold upToRead sinceRead
    rw [List.rdropWhile_append_rtakeWhile]
  · intro x hx
    simpa using List.mem_rtakeWhile_imp hx

theorem lastValue_concat (i j : Nat) (hist : List (Rec Bus CounterEv)) (r : Rec Bus CounterEv) :
    lastValue i j (hist ++ [r]) =
      if r.ev.reads i then (r.pre.chain i j).toNat else lastValue i j hist := by
  unfold lastValue
  rw [List.filter_append]
  cases hr : r.ev.reads i <;> simp [hr]

/-! ## One event -/

/-- Two states of a slave hold the same of its counters. -/
structure SameBooks (s t : DiagSlave) : Prop where
  tot : s.tot = t.tot
  prev : s.prev = t.prev
  havePrev : s.havePrev = t.havePrev
  saturated : s.saturated = t.saturated

theorem ingestSlave_of_pos (clearOnRead : Bool) (reads : Nat) {r : RawSlave} (s : DiagSlave)
    (h : 0 < r.wkcErr) :
    SameBooks (ingestSlave clearOnRead reads r s) (ingestCounters clearOnRead r.err s) := by
  unfold ingestSlave
  simp only [h, decide_true, Bool.true_or, Bool.not_true, Bool.false_eq_true, if_false, if_true]
  split <;> split <;> exact ⟨rfl, rfl, rfl, rfl⟩

theorem ingestSlave_of_not_pos (clearOnRead : Bool) (reads : Nat) {r : RawSlave} (s : DiagSlave)
    (h : ¬ 0 < r.wkcErr) : SameBooks (ingestSlave clearOnRead reads r s) s := by
  unfold ingestSlave
  simp only [h, decide_false, Bool.false_or, if_false]
  split
  · exact ⟨rfl, rfl, rfl, rfl⟩
  · split <;> split <;> exact ⟨rfl, rfl, rfl, rfl⟩

theorem ecmDiagIngest_of_reads {d : DiagModel} {i : Nat} (hi : i < d.n) {raw : Raw}
    (h : (CounterEv.read raw).reads i = true) :
    SameBooks ((ecmDiagIngest d raw).s i)
      (ingestCounters raw.clearOnRead (raw.s i).err (d.s i)) := by
  simp only [CounterEv.reads, Bool.and_eq_true, decide_eq_true_eq] at h
  obtain ⟨⟨⟨hok, hfirst⟩, hcount⟩, hwkc⟩ := h
  unfold ecmDiagIngest
  simp only [hok, Bool.not_true, Bool.false_eq_true, if_false]
  rw [if_pos ⟨hfirst, Nat.lt_min.2 ⟨hcount, hi⟩⟩]
  exact ingestSlave_of_pos _ _ _ hwkc

theorem ecmDiagIngest_of_not_reads {d : DiagModel} {i : Nat} {raw : Raw}
    (h : (CounterEv.read raw).reads i = false) :
    SameBooks ((ecmDiagIngest d raw).s i) (d.s i) := by
  unfold ecmDiagIngest
  dsimp only
  split
  · exact ⟨rfl, rfl, rfl, rfl⟩
  · rename_i hok
    dsimp only
    split
    · rename_i hchunk
      refine ingestSlave_of_not_pos _ _ _ fun hwkc => ?_
      have hcount := (Nat.lt_min.1 hchunk.2).1
      simp [CounterEv.reads, hchunk.1, hcount, hwkc] at h
      simp [h] at hok
    · exact ⟨rfl, rfl, rfl, rfl⟩

variable {clearOnRead : Bool} {b : Bus} {e : CounterEv} {i j : Nat}

theorem count_n : (b.count clearOnRead e).diag.n = b.diag.n := by
  cases e with
  | error | cleared => rfl
  | read q => exact ecmDiagIngest_n _ _

/-- The books of a slave change with a successful read of it only. -/
theorem count_of_not_reads (h : e.reads i = false) :
    SameBooks ((b.count clearOnRead e).diag.s i) (b.diag.s i) := by
  cases e with
  | error | cleared => exact ⟨rfl, rfl, rfl, rfl⟩
  | read q => exact ecmDiagIngest_of_not_reads h

theorem count_of_reads (hi : i < b.diag.n) (h : e.reads i = true) :
    SameBooks ((b.count clearOnRead e).diag.s i)
      (ingestCounters clearOnRead (b.chain i) (b.diag.s i)) := by
  cases e with
  | error | cleared => cases h
  | read q => exact ecmDiagIngest_of_reads hi h

/-- A counter changes with its own events, and with a read that clears it. -/
theorem count_chain (clearOnRead : Bool) (b : Bus) (e : CounterEv) (i j : Nat) :
    (b.count clearOnRead e).chain i j =
      if e.isError i j then bump (b.chain i j)
      else if e.isClear i j || clearOnRead && e.reads i then 0
      else b.chain i j := by
  cases e with
  | read q =>
    simp only [Bus.count, CounterEv.isError, CounterEv.isClear, Bool.false_or, Bool.false_eq_true,
      if_false]
    split <;> rfl
  | error a c =>
    simp only [Bus.count, escCntInc, CounterEv.isError, CounterEv.isClear, CounterEv.reads,
      Bool.and_false, Bool.or_false, Bool.false_eq_true, if_false, Function.update_apply]
    by_cases ha : i = a
    · subst ha
      by_cases hc : j = c
      · simp [hc]
      · simp [hc, Ne.symm hc]
    · simp [ha, Ne.symm ha]
  | cleared a c =>
    simp only [Bus.count, CounterEv.isError, CounterEv.isClear, CounterEv.reads, Bool.and_false,
      Bool.or_false, Bool.false_eq_true, if_false, Function.update_apply]
    by_cases ha : i = a
    · subst ha
      by_cases hc : j = c
      · simp [hc]
      · simp [hc, Ne.symm hc]
    · simp [ha, Ne.symm ha]

theorem toNat_bump (v : UInt8) : (bump v).toNat = min 255 (v.toNat + 1) := by
  have hv : v.toNat < 256 := v.toNat_lt
  unfold bump
  split
  · rename_i hroom
    have hroom : v.toNat < 255 := hroom
    rw [UInt8.toNat_add]
    change (v.toNat + 1) % 256 = _
    omega
  · rename_i hfull
    have hfull : ¬ v.toNat < 255 := hfull
    omega

/-- What a successful read adds to a counter's total. -/
theorem cell_ingestCounters (err : ErrBlock) (s : DiagSlave) (hj : j < 20)
    (hc : isCounter j = true) :
    (ingestCounters clearOnRead err s).tot.cell j =
      s.tot.cell j + (delta clearOnRead s err j).toNat := by
  unfold ingestCounters split
  rw [cell_add, cell_countsOf _ hj hc]

/-! ## Clear on read -/

/-- The books and the counter of slave `i` at offset `j`. -/
structure Summed (i j : Nat) (es : List CounterEv) (b : Bus) : Prop where
  total_le : (b.diag.s i).tot.cell j ≤ errors i j (upToRead i es)
  counter_le : (b.chain i j).toNat ≤ errors i j (sinceRead i es)
  counter_eq : (∀ e ∈ es, e.isClear i j = false) →
    (b.chain i j).toNat = min 255 (errors i j (sinceRead i es))
  total_eq : (∀ e ∈ es, e.isClear i j = false) → Countable i j es →
    (b.diag.s i).tot.cell j = errors i j (upToRead i es)

theorem Summed.step {es : List CounterEv} (hI : Summed i j es b) (hi : i < b.diag.n) (hj : j < 20)
    (hc : isCounter j = true) (e : CounterEv) : Summed i j (es ++ [e]) (b.count true e) := by
  have hchain := count_chain true b e i j
  have hle := hI.total_le
  have hcle := hI.counter_le
  have hsplit := errors_upToRead_add i j es
  cases hread : e.reads i with
  | true =>
    have herr : e.isError i j = false := isError_of_reads hread
    have htot : ((b.count true e).diag.s i).tot.cell j =
        (b.diag.s i).tot.cell j + (b.chain i j).toNat := by
      rw [(count_of_reads hi hread).tot, cell_ingestCounters _ _ hj hc]
      simp [delta, hc]
    have hzero : (b.count true e).chain i j = 0 := by
      rw [hchain, herr]
      simp [hread]
    have hup : errors i j (upToRead i (es ++ [e])) = errors i j es := by
      rw [upToRead_concat, hread, if_pos rfl, errors_concat, herr]
      simp
    have hsince : errors i j (sinceRead i (es ++ [e])) = 0 := by
      rw [sinceRead_concat, hread, if_pos rfl]
      rfl
    refine ⟨?_, ?_, fun _ => ?_, fun hclear hcount => ?_⟩
    · omega
    · simp [hzero]
    · simp [hzero, hsince]
    · have hclear : ∀ e ∈ es, e.isClear i j = false := fun x hx => hclear x (by simp [hx])
      have hperiod := hcount.last hread
      have hcounter := hI.counter_eq hclear
      have htotal := hI.total_eq hclear hcount.of_concat
      omega
  | false =>
    have htot : ((b.count true e).diag.s i).tot = (b.diag.s i).tot := (count_of_not_reads hread).tot
    have hup : upToRead i (es ++ [e]) = upToRead i es := by
      rw [upToRead_concat, hread]
      rfl
    have hsince : errors i j (sinceRead i (es ++ [e])) =
        errors i j (sinceRead i es) + if e.isError i j then 1 else 0 := by
      rw [sinceRead_concat, hread, if_neg (by decide), errors_concat]
    have hcounter : ((b.count true e).chain i j).toNat =
        if e.isError i j then min 255 ((b.chain i j).toNat + 1)
        else if e.isClear i j then 0 else (b.chain i j).toNat := by
      rw [hchain, hread]
      simp only [Bool.and_false, Bool.or_false]
      split
      · exact toNat_bump _
      · split <;> rfl
    refine ⟨?_, ?_, fun hclear => ?_, fun hclear hcount => ?_⟩
    · rw [htot, hup]
      exact hle
    · rw [hcounter, hsince]
      split_ifs <;> omega
    · have heq := hI.counter_eq fun x hx => hclear x (by simp [hx])
      rw [hcounter, hsince, hclear e (by simp)]
      simp only [Bool.false_eq_true, if_false]
      split_ifs <;> omega
    · rw [htot, hup]
      exact hI.total_eq (fun x hx => hclear x (by simp [hx])) hcount.of_concat

/-! ## Passive reads -/

/-- The books and the counter of slave `i` at offset `j`. -/
structure Followed (i j : Nat) (hist : List (Rec Bus CounterEv)) (b : Bus) : Prop where
  first : (b.diag.s i).havePrev = false → lastValue i j hist = 0
  prev : (b.diag.s i).havePrev = true → ((b.diag.s i).prev j).toNat = lastValue i j hist
  total : (∀ r ∈ hist, r.ev.isClear i j = false) →
    (b.diag.s i).tot.cell j = lastValue i j hist ∧ lastValue i j hist ≤ (b.chain i j).toNat

theorem Followed.step {hist : List (Rec Bus CounterEv)} (hI : Followed i j hist b)
    (hi : i < b.diag.n) (hj : j < 20) (hc : isCounter j = true) (e : CounterEv) :
    Followed i j (hist ++ [⟨b, e, b.count false e⟩]) (b.count false e) := by
  have hchain := count_chain false b e i j
  have hvalue := lastValue_concat i j hist ⟨b, e, b.count false e⟩
  simp only at hvalue
  cases hread : e.reads i with
  | true =>
    have herr : e.isError i j = false := isError_of_reads hread
    have hbooks : SameBooks ((b.count false e).diag.s i)
        (ingestCounters false (b.chain i) (b.diag.s i)) := count_of_reads hi hread
    rw [hread, if_pos rfl] at hvalue
    refine ⟨fun hprev => ?_, fun _ => ?_, fun hclear => ?_⟩
    · rw [hbooks.havePrev] at hprev
      cases hprev
    · rw [hbooks.prev, hvalue]
      rfl
    · have hold := hI.total fun r hr => hclear r (by simp [hr])
      have hnow : e.isClear i j = false := hclear ⟨b, e, b.count false e⟩ (by simp)
      have hkept : (b.count false e).chain i j = b.chain i j := by
        rw [hchain, herr, hnow]
        rfl
      refine ⟨?_, by rw [hvalue, hkept]⟩
      rw [hbooks.tot, hvalue, cell_ingestCounters _ _ hj hc, hold.1]
      unfold delta
      cases hprev : (b.diag.s i).havePrev with
      | false => simp [hc, hI.first hprev]
      | true =>
        have hle : (b.diag.s i).prev j ≤ b.chain i j := by
          rw [UInt8.le_iff_toNat_le, hI.prev hprev]
          exact hold.2
        simp only [hc, Bool.not_true, Bool.or_self, Bool.false_eq_true, if_false, if_pos hle]
        rw [UInt8.toNat_sub_of_le _ _ hle, hI.prev hprev]
        omega
  | false =>
    have hbooks : SameBooks ((b.count false e).diag.s i) (b.diag.s i) := count_of_not_reads hread
    rw [hread, if_neg (by decide)] at hvalue
    refine ⟨fun hprev => ?_, fun hprev => ?_, fun hclear => ?_⟩
    · rw [hvalue]
      exact hI.first (hbooks.havePrev ▸ hprev)
    · rw [hbooks.prev, hvalue]
      exact hI.prev (hbooks.havePrev ▸ hprev)
    · have hold := hI.total fun r hr => hclear r (by simp [hr])
      have hnow : e.isClear i j = false := hclear ⟨b, e, b.count false e⟩ (by simp)
      rw [hvalue, hbooks.tot, hchain, hnow]
      refine ⟨hold.1, ?_⟩
      simp only [Bool.false_and, Bool.or_self, Bool.false_eq_true, if_false]
      have hv : (b.chain i j).toNat < 256 := (b.chain i j).toNat_lt
      split
      · rw [toNat_bump]
        omega
      · exact hold.2

/-! ## Saturation -/

theorem saturated_step {hist : List (Rec Bus CounterEv)} (hi : i < b.diag.n)
    (hI : (b.diag.s i).saturated ≠ 0 ↔ ReadFull i hist) (e : CounterEv) :
    ((b.count clearOnRead e).diag.s i).saturated ≠ 0 ↔
      ReadFull i (hist ++ [⟨b, e, b.count clearOnRead e⟩]) := by
  have hfull : ReadFull i (hist ++ [⟨b, e, b.count clearOnRead e⟩]) ↔
      ReadFull i hist ∨ (e.reads i = true ∧
        ∃ j < 20, isCounter j = true ∧ b.chain i j = 0xFF) := by
    unfold ReadFull
    simp only [List.mem_append, List.mem_singleton, or_and_right, exists_or, exists_eq_left]
  rw [hfull, ← hI]
  cases hread : e.reads i with
  | false =>
    rw [(count_of_not_reads hread).saturated]
    simp
  | true =>
    rw [(count_of_reads hi hread).saturated]
    simp only [ingestCounters, List.any_eq_true, List.mem_range, Bool.and_eq_true, beq_iff_eq,
      true_and]
    split
    · rename_i hsome
      exact ⟨fun _ => .inr hsome, fun _ => by omega⟩
    · rename_i hnone
      exact ⟨.inl, fun h => h.resolve_right hnone⟩

/-! ## Every history -/

/-- What the master has added up after a history. -/
structure Accumulated (clearOnRead : Bool) (hist : List (Rec Bus CounterEv)) (d : DiagModel) :
    Prop where
  bounded : clearOnRead = true → ∀ i < d.n, ∀ j < 20, isCounter j = true →
    (d.s i).tot.cell j ≤ errors i j (upToRead i (hist.map Rec.ev))
  complete : clearOnRead = true → ∀ i < d.n, ∀ j < 20, isCounter j = true →
    (∀ r ∈ hist, r.ev.isClear i j = false) → Countable i j (hist.map Rec.ev) →
    (d.s i).tot.cell j = errors i j (upToRead i (hist.map Rec.ev))
  passive : clearOnRead = false → ∀ i < d.n, ∀ j < 20, isCounter j = true →
    (∀ r ∈ hist, r.ev.isClear i j = false) → (d.s i).tot.cell j = lastValue i j hist
  saturated : ∀ i < d.n, (d.s i).saturated ≠ 0 ↔ ReadFull i hist

/-- The invariants of both modes. -/
structure CountersInv (clearOnRead : Bool) (hist : List (Rec Bus CounterEv)) (b : Bus) : Prop where
  summed : clearOnRead = true → ∀ i < b.diag.n, ∀ j < 20, isCounter j = true →
    Summed i j (hist.map Rec.ev) b
  followed : clearOnRead = false → ∀ i < b.diag.n, ∀ j < 20, isCounter j = true →
    Followed i j hist b
  saturated : ∀ i < b.diag.n, (b.diag.s i).saturated ≠ 0 ↔ ReadFull i hist

theorem CountersInv.start (clearOnRead : Bool) (n : Nat) (expectedState : UInt16) :
    CountersInv clearOnRead [] (Bus.start n expectedState) := by
  refine ⟨fun _ i _ j hj hc => ?_, fun _ i _ j hj hc => ?_, fun i _ => ?_⟩
  · have hnone : noCounts.cell j = 0 := cell_countsOf _ hj hc
    exact ⟨Nat.le_of_eq hnone, Nat.le_refl _, fun _ => rfl, fun _ _ => hnone⟩
  · have hnone : noCounts.cell j = 0 := cell_countsOf _ hj hc
    exact ⟨fun _ => rfl, fun h => (nomatch h), fun _ => ⟨hnone, Nat.le_refl _⟩⟩
  · refine ⟨fun h => absurd rfl h, ?_⟩
    rintro ⟨r, hr, -⟩
    cases hr

theorem CountersInv.step {hist : List (Rec Bus CounterEv)} (hI : CountersInv clearOnRead hist b)
    (e : CounterEv) : CountersInv clearOnRead (hist ++ [⟨b, e, b.count clearOnRead e⟩])
      (b.count clearOnRead e) := by
  refine ⟨fun hmode i hi j hj hc => ?_, fun hmode i hi j hj hc => ?_, fun i hi => ?_⟩
  · subst hmode
    rw [count_n] at hi
    rw [List.map_append]
    exact (hI.summed rfl i hi j hj hc).step hi hj hc e
  · subst hmode
    rw [count_n] at hi
    exact (hI.followed rfl i hi j hj hc).step hi hj hc e
  · rw [count_n] at hi
    exact saturated_step hi (hI.saturated i hi) e

/-- A slave that is not read successfully keeps its totals. -/
theorem tot_ecmDiagIngest_of_unread {d : DiagModel} {raw : Raw} {i : Nat}
    (h : raw.frameOk = false ∨ (raw.s i).wkcErr ≤ 0) :
    ((ecmDiagIngest d raw).s i).tot = (d.s i).tot := by
  have hread : (CounterEv.read raw).reads i = false := by
    rcases h with hlost | hwkc
    · simp [CounterEv.reads, hlost]
    · simp [CounterEv.reads, hwkc]
  exact (ecmDiagIngest_of_not_reads hread).tot

/-- What a slave answers matters to its own totals only. -/
theorem ecmDiagIngest_other (d : DiagModel) (raw : Raw) (r : RawSlave) {i k : Nat} (hk : k ≠ i) :
    (ecmDiagIngest d { raw with s := Function.update raw.s i r }).s k =
      (ecmDiagIngest d raw).s k := by
  unfold ecmDiagIngest
  dsimp only
  split
  · rfl
  · dsimp only
    rw [Function.update_of_ne hk]

/-- For every bus, either mode and every history; and a lost frame, or a slave that
does not answer, changes no total. -/
theorem counters_accumulate (n : Nat) (expectedState : UInt16) (clearOnRead : Bool)
    (es : List CounterEv) :
    Accumulated clearOnRead
      (trace (Bus.count clearOnRead) (Bus.start n expectedState) es)
      (run (Bus.count clearOnRead) (Bus.start n expectedState) es).diag ∧
    (∀ (d : DiagModel) (raw : Raw), raw.frameOk = false →
      ∀ i, ((ecmDiagIngest d raw).s i).tot = (d.s i).tot) ∧
    ∀ (d : DiagModel) (raw : Raw) (i : Nat) (r : RawSlave), r.wkcErr ≤ 0 →
      ((ecmDiagIngest d { raw with s := Function.update raw.s i r }).s i).tot = (d.s i).tot ∧
      ∀ k ≠ i, ((ecmDiagIngest d { raw with s := Function.update raw.s i r }).s k).tot =
        ((ecmDiagIngest d raw).s k).tot := by
  refine ⟨?_, fun d raw hlost i => tot_ecmDiagIngest_of_unread (.inl hlost),
    fun d raw i r hwkc => ⟨tot_ecmDiagIngest_of_unread (.inr ?_), fun k hk => ?_⟩⟩
  · have hI : CountersInv clearOnRead
        (trace (Bus.count clearOnRead) (Bus.start n expectedState) es)
        (run (Bus.count clearOnRead) (Bus.start n expectedState) es) :=
      Along.invariant (C := fun _ _ => True) (CountersInv.start clearOnRead n expectedState)
        (fun _ _ e h _ => h.step e) (fun _ _ _ _ => trivial)
    have hev : ∀ {P : CounterEv → Prop} {hist : List (Rec Bus CounterEv)},
        (∀ r ∈ hist, P r.ev) → ∀ e ∈ hist.map Rec.ev, P e := by
      intro P hist h e he
      obtain ⟨r, hr, rfl⟩ := List.mem_map.1 he
      exact h r hr
    exact
      { bounded := fun hmode i hi j hj hc => (hI.summed hmode i hi j hj hc).total_le
        complete := fun hmode i hi j hj hc hclear hcount =>
          (hI.summed hmode i hi j hj hc).total_eq (hev hclear) hcount
        passive := fun hmode i hi j hj hc hclear =>
          ((hI.followed hmode i hi j hj hc).total hclear).1
        saturated := hI.saturated }
  · simpa using hwkc
  · rw [ecmDiagIngest_other d raw r hk]

end EcMaster.Diag
