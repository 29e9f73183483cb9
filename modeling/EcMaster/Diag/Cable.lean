import EcMaster.Diag.Analyze
import EcMaster.Lib.Run

/-!
# Localising cable faults

A frame that is corrupted on the cable into node `k` is seen as invalid by node
`k`, as forwarded by the nodes behind it, and as forwarded again on the way back
(`apply_bad_cable_counters` of the simulated bus).  The master reads the counters
with FPRW, which returns and clears them, a chunk of slaves at a time.

`Frame` is one frame on the bus: where it was corrupted, the diagnosis read that
it carries, if any, and whether the master got the reply.  `Bus.step` is what it
does to the counters of the chain and to the model of the master.

A read that has cleared counters and does not come back has lost their values.
That happens whenever a diagnosis frame is itself corrupted behind a slave of its
chunk, and `corrupted_read_loses_counts` is such a run.  `Frame.Kept` excludes
it, and `cable_faults_are_localised` is the result for every other run.  The
invariant is that what the master has added up and what still stands in a slave's
counters are together the errors of that slave.
-/

namespace EcMaster.Diag

open EcMaster.Run

/-! ## The chain -/

/-- The error counters of the nodes, by node and offset. -/
abbrev Chain := Nat → ErrBlock

/-- An ESC counter stops at 255. -/
def bump (v : UInt8) : UInt8 := if v < 0xFF then v + 1 else v

/-- `esc_cnt_inc`. -/
def escCntInc (c : Chain) (cell : Nat × Nat) : Chain :=
  Function.update c cell.1 (Function.update (c cell.1) cell.2 (bump (c cell.1 cell.2)))

/-- `apply_bad_cable_counters`. -/
def applyBadCableCounters (c : Chain) (nReach k : Nat) : Chain :=
  let c := escCntInc (escCntInc (escCntInc c (k, 0)) (k, 1)) (k, 12)
  let c := (List.range' (k + 1) (nReach - (k + 1))).foldl
    (fun c i => escCntInc (escCntInc c (i, 8)) (i, 12)) c
  (List.range (nReach - 1)).foldl (fun c i => escCntInc c (i, 9)) c

/-- The counters that one bad frame increments. -/
def badCells (n k : Nat) : List (Nat × Nat) :=
  [(k, 0), (k, 1), (k, 12)] ++
    (List.range' (k + 1) (n - (k + 1))).flatMap (fun i => [(i, 8), (i, 12)]) ++
    (List.range (n - 1)).map fun i => (i, 9)

theorem mem_badCells {n k : Nat} (hk : k < n) (i j : Nat) :
    (i, j) ∈ badCells n k ↔
      (i = k ∧ (j = 0 ∨ j = 1 ∨ j = 12)) ∨ (k < i ∧ i < n ∧ (j = 8 ∨ j = 12)) ∨
        (i + 1 < n ∧ j = 9) := by
  simp only [badCells, List.mem_append, List.mem_cons, Prod.mk.injEq, List.not_mem_nil, or_false,
    List.mem_flatMap, List.mem_range'_1, List.mem_map, List.mem_range]
  constructor
  · rintro ((h | ⟨x, hx, h⟩) | ⟨x, hx, h⟩) <;> omega
  · rintro (h | h | h)
    · left; left; omega
    · exact .inl (.inr ⟨i, by omega, by omega⟩)
    · exact .inr ⟨i, by omega, rfl, h.2.symm⟩

theorem nodup_badCells (n k : Nat) : (badCells n k).Nodup := by
  unfold badCells
  refine List.nodup_append.2 ⟨List.nodup_append.2 ⟨by simp, ?_, ?_⟩, ?_, ?_⟩
  · refine List.nodup_flatMap.2 ⟨by simp, ?_⟩
    have hnodup : (List.range' (k + 1) (n - (k + 1))).Nodup := List.nodup_range'
    refine hnodup.imp ?_
    intro a b hab
    simp [Function.onFun, List.disjoint_left, hab]
  · simp only [List.mem_flatMap, List.mem_range'_1]
    rintro x hx y ⟨i, hi, hy⟩ rfl
    obtain ⟨a, b⟩ := x
    simp at hx hy
    omega
  · exact List.nodup_range.map fun a b h => (Prod.mk.inj h).1
  · simp only [List.mem_append, List.mem_flatMap, List.mem_map]
    rintro x hx y ⟨i, hi, rfl⟩ rfl
    simp at hx

/-- Counters of a list without repetition, incremented once each. -/
theorem foldl_escCntInc {cells : List (Nat × Nat)} (hnodup : cells.Nodup) (c : Chain) (i j : Nat) :
    cells.foldl escCntInc c i j = if (i, j) ∈ cells then bump (c i j) else c i j := by
  induction cells generalizing c with
  | nil => simp
  | cons cell cells ih =>
    obtain ⟨hnot, hnodup⟩ := List.nodup_cons.1 hnodup
    rw [List.foldl_cons, ih hnodup]
    by_cases hcell : (i, j) = cell
    · subst hcell
      simp [hnot, escCntInc]
    · have hsame : escCntInc c cell i j = c i j := by
        unfold escCntInc
        by_cases hi : i = cell.1
        · subst hi
          have hj : j ≠ cell.2 := fun h => hcell (by rw [h])
          simp [Function.update_of_ne hj]
        · rw [Function.update_of_ne hi]
      simp [hsame, hcell]

theorem applyBadCableCounters_at (c : Chain) (n k i j : Nat) :
    applyBadCableCounters c n k i j = if (i, j) ∈ badCells n k then bump (c i j) else c i j := by
  rw [← foldl_escCntInc (nodup_badCells n k)]
  unfold badCells applyBadCableCounters
  rw [List.foldl_append, List.foldl_append, List.foldl_map, List.foldl_flatMap]
  rfl

/-! ## Frames -/

/-- A diagnosis read: the fields of the reply that are not error counters, and
the slaves that answer their address. -/
structure Read where
  raw : Raw
  answers : Nat → Bool

/-- A frame on the bus. -/
structure Frame where
  /-- the cable into this node corrupts it -/
  badCable : Option Nat
  /-- it gets to no node at all -/
  muted : Bool
  /-- the read that it carries -/
  read : Option Read
  /-- its reply gets to the master in time -/
  collected : Bool

namespace Frame

variable (n : Nat) (f : Frame)

/-- The node that the frame is corrupted into, in a chain of `n` nodes. -/
def badNode : Option Nat := if f.muted then none else f.badCable.filter (· < n)

/-- The number of nodes that process the frame. -/
def processed : Nat := if f.muted then 0 else (f.badNode n).getD n

/-- The master has the reply. -/
def returned : Bool := !f.muted && (f.badNode n).isNone && f.collected

/-- Slave `i` processes the read of the frame, and clears its counters. -/
def reaches (i : Nat) : Bool :=
  match f.read with
  | none => false
  | some q =>
      i < f.processed n && q.raw.first ≤ i && i < q.raw.first + q.raw.count && q.answers i

/-- What the master makes of the frame, if it carried a read. -/
def reply (c : Chain) : Option Raw :=
  f.read.map fun q =>
    if f.returned n then
      { q.raw with
        frameOk := true
        clearOnRead := true
        s := fun i => { q.raw.s i with err := c i, wkcErr := if q.answers i then 3 else 0 } }
    else { q.raw with frameOk := false }

/-- No read is lost after a slave has answered it. -/
def Kept : Prop := ∀ i < n, f.reaches n i = true → f.returned n = true

instance : Decidable (f.Kept n) := inferInstanceAs (Decidable (∀ i < n, _))

end Frame

/-- The counters of the chain and the model of the master. -/
structure Bus where
  chain : Chain
  diag : DiagModel

/-- One frame. -/
def Bus.step (n : Nat) (b : Bus) (f : Frame) : Bus :=
  let c := match f.badNode n with
    | some k => applyBadCableCounters b.chain n k
    | none => b.chain
  { chain := fun i => if f.reaches n i then fun _ => 0 else c i
    diag := match f.reply n c with
      | some raw => ecmDiagIngest b.diag raw
      | none => b.diag }

/-- A chain without errors and a master that has read nothing. -/
def Bus.start (n : Nat) (expectedState : UInt16) : Bus :=
  { chain := fun _ _ => 0, diag := ecmDiagInit n expectedState }

/-- The number of bad frames that were corrupted into node `k`. -/
def badInto (n k : Nat) (fs : List Frame) : Nat := fs.countP fun f => f.badNode n = some k

/-- Slave `i` has been read since the last bad frame. -/
def readSinceBad (n i : Nat) (fs : List Frame) : Bool :=
  (fs.reverse.takeWhile fun f => (f.badNode n).isNone).any fun f => f.reaches n i && f.returned n

/-- No counter of the chain is at 255. -/
def Unsaturated (n : Nat) (_ : List (Rec Bus Frame)) (r : Rec Bus Frame) : Prop :=
  ∀ i < n, ∀ j < 20, r.post.chain i j < 0xFF

instance (n : Nat) (hist : List (Rec Bus Frame)) (r : Rec Bus Frame) :
    Decidable (Unsaturated n hist r) :=
  inferInstanceAs (Decidable (∀ i < n, ∀ j < 20, _))

theorem readSinceBad_concat (n i : Nat) (fs : List Frame) (f : Frame) :
    readSinceBad n i (fs ++ [f]) =
      ((f.badNode n).isNone && (f.reaches n i && f.returned n || readSinceBad n i fs)) := by
  unfold readSinceBad
  rw [List.reverse_append, List.reverse_singleton, List.singleton_append, List.takeWhile_cons]
  cases (f.badNode n).isNone <;> simp

/-! ## What the errors add up to -/

/-- The number of frames that increment a counter. -/
def hits (n : Nat) (fs : List Frame) (i j : Nat) : Nat :=
  fs.countP fun f => (f.badNode n).any fun k => (i, j) ∈ badCells n k

theorem badNode_lt {n k : Nat} {f : Frame} (h : f.badNode n = some k) : k < n := by
  unfold Frame.badNode at h
  split at h
  · cases h
  · simpa using (Option.filter_eq_some_iff.1 h).2

theorem exists_of_hits {n i j : Nat} {fs : List Frame} (h : hits n fs i j ≠ 0) :
    ∃ k < n, badInto n k fs ≠ 0 ∧ (i, j) ∈ badCells n k := by
  obtain ⟨f, hf, hhit⟩ := List.countP_pos_iff.1 (Nat.pos_of_ne_zero h)
  cases hbad : f.badNode n with
  | none => simp [hbad] at hhit
  | some k =>
    refine ⟨k, badNode_lt hbad, ?_, by simpa [hbad] using hhit⟩
    exact Nat.pos_iff_ne_zero.1 (List.countP_pos_iff.2 ⟨f, hf, by simp [hbad]⟩)

theorem hits_ne_zero {n i j k : Nat} {fs : List Frame} (hbad : badInto n k fs ≠ 0)
    (hmem : (i, j) ∈ badCells n k) : hits n fs i j ≠ 0 := by
  obtain ⟨f, hf, hnode⟩ := List.countP_pos_iff.1 (Nat.pos_of_ne_zero hbad)
  refine Nat.pos_iff_ne_zero.1 (List.countP_pos_iff.2 ⟨f, hf, ?_⟩)
  rw [of_decide_eq_true hnode]
  simpa using hmem

/-- The two counters of an origin. -/
theorem hits_origin (n i j : Nat) (fs : List Frame) (hj : j = 0 ∨ j = 1) :
    hits n fs i j = badInto n i fs := by
  apply List.countP_congr
  intro f _
  cases hbad : f.badNode n with
  | none => simp
  | some k =>
    have hmem := mem_badCells (badNode_lt hbad) i j
    simp only [Option.any_some, decide_eq_true_eq, hmem, Option.some.injEq]
    omega

/-- The other ports see no origin. -/
theorem hits_eq_zero {n i j : Nat} {fs : List Frame} (hlo : 2 ≤ j) (hhi : j < 8) :
    hits n fs i j = 0 := by
  by_contra h
  obtain ⟨k, hk, -, hmem⟩ := exists_of_hits h
  rw [mem_badCells hk] at hmem
  omega

theorem hits_concat (n i j : Nat) (fs : List Frame) (f : Frame) :
    hits n (fs ++ [f]) i j =
      hits n fs i j + if (f.badNode n).any fun k => (i, j) ∈ badCells n k then 1 else 0 := by
  unfold hits
  rw [List.countP_append]
  simp [List.countP_cons]

/-! ## The invariant -/

/-- The state after the frames of a history. -/
structure CableInv (n : Nat) (hist : List (Rec Bus Frame)) (b : Bus) : Prop where
  size : b.diag.n = n
  sum : ∀ i < n, (b.diag.s i).tot.add (split (b.chain i)) = countsOf (hits n (hist.map Rec.ev) i)
  clear : ∀ i < n, readSinceBad n i (hist.map Rec.ev) → b.chain i = fun _ => 0

/-- What a read that came back has added to the total of a slave. -/
theorem ingest_reply_tot {n i : Nat} {b : Bus} {f : Frame} {c : Chain} (hsize : b.diag.n = n)
    (hi : i < n) :
    ((match f.reply n c with | some raw => ecmDiagIngest b.diag raw | none => b.diag).s i).tot =
      if f.reaches n i && f.returned n then (b.diag.s i).tot.add (split (c i))
      else (b.diag.s i).tot := by
  unfold Frame.reply Frame.reaches
  cases hread : f.read with
  | none => simp
  | some q =>
    simp only [Option.map_some]
    cases hret : f.returned n with
    | false => simp [ecmDiagIngest]
    | true =>
      -- the frame came back, so every node has processed it
      have hall : f.processed n = n := by
        simp only [Frame.returned, Bool.and_eq_true, Bool.not_eq_true', Option.isNone_iff_eq_none]
          at hret
        simp [Frame.processed, hret.1.1, hret.1.2]
      rw [hall]
      simp only [hi, decide_true, Bool.true_and, if_true, ecmDiagIngest, Bool.not_true,
        Bool.false_eq_true, if_false, hsize, Nat.lt_min, and_true, Bool.and_true]
      by_cases hchunk : q.raw.first ≤ i ∧ i < q.raw.first + q.raw.count
      · rw [if_pos hchunk, ingestSlave_tot]
        cases hans : q.answers i <;> simp [hchunk]
      · rw [if_neg hchunk, if_neg]
        simp only [Bool.and_eq_true, decide_eq_true_eq]
        exact fun h => hchunk h.1

theorem split_bad {n i k : Nat} {c : Chain}
    (hlt : ∀ j < 20, applyBadCableCounters c n k i j < 0xFF) :
    split (applyBadCableCounters c n k i) =
      (split (c i)).add (countsOf fun j => if (i, j) ∈ badCells n k then 1 else 0) := by
  have hone : ∀ j < 20, (applyBadCableCounters c n k i j).toNat =
      (c i j).toNat + if (i, j) ∈ badCells n k then 1 else 0 := by
    intro j hj
    have hj := hlt j hj
    rw [applyBadCableCounters_at] at hj ⊢
    split
    · rename_i hmem
      rw [if_pos hmem] at hj
      unfold bump at hj ⊢
      split
      · rename_i hroom
        rw [UInt8.lt_iff_toNat_lt] at hroom
        have hroom : (c i j).toNat + 1 < 256 := Nat.succ_lt_succ hroom
        rw [UInt8.toNat_add]
        exact Nat.mod_eq_of_lt hroom
      · rename_i hfull
        rw [if_neg hfull] at hj
        exact absurd hj hfull
    · rfl
  unfold split
  rw [countsOf_add]
  ext p
  all_goals exact hone _ (by omega)

theorem CableInv.step {n : Nat} {hist : List (Rec Bus Frame)} {b : Bus} (hI : CableInv n hist b)
    (f : Frame) (hkept : f.Kept n) (hlt : Unsaturated n hist ⟨b, f, b.step n f⟩) :
    CableInv n (hist ++ [⟨b, f, b.step n f⟩]) (b.step n f) := by
  have hev : (hist ++ [(⟨b, f, b.step n f⟩ : Rec Bus Frame)]).map Rec.ev =
      hist.map Rec.ev ++ [f] := by simp
  refine ⟨?_, ?_, ?_⟩
  · unfold Bus.step
    dsimp only
    split
    · rw [ecmDiagIngest_n, hI.size]
    · exact hI.size
  · intro i hi
    have hsum := hI.sum i hi
    have hkeep := hkept i hi
    have hlt := hlt i hi
    rw [hev]
    unfold Bus.step at hlt ⊢
    dsimp only at hlt ⊢
    rw [ingest_reply_tot hI.size hi]
    cases hbad : f.badNode n with
    | some k =>
      -- a bad frame does not come back, so it has cleared nothing here
      have hret : f.returned n = false := by simp [Frame.returned, hbad]
      have hreach : f.reaches n i = false := by
        by_contra h
        rw [hkeep (by simpa using h)] at hret
        cases hret
      rw [hbad] at hlt
      simp only [hreach, Bool.false_and, Bool.false_eq_true, if_false] at hlt ⊢
      rw [split_bad hlt, ← Counts.add_assoc, hsum, countsOf_add]
      congr 1
      funext j
      rw [hits_concat, hbad, Option.any_some]
      simp
    | none =>
      have hsame : countsOf (hits n (hist.map Rec.ev ++ [f]) i) =
          countsOf (hits n (hist.map Rec.ev) i) := by
        congr 1
        funext j
        simp [hits_concat, hbad]
      rw [hsame]
      cases hreach : f.reaches n i with
      | false => simpa using hsum
      | true =>
        rw [hkeep hreach]
        simp only [Bool.and_self, if_true]
        rw [show split (fun _ => 0) = noCounts from rfl, Counts.add_noCounts]
        exact hsum
  · intro i hi hread
    rw [hev, readSinceBad_concat, Bool.and_eq_true, Option.isNone_iff_eq_none] at hread
    obtain ⟨hbad, hread⟩ := hread
    unfold Bus.step
    dsimp only
    rw [hbad]
    cases hreach : f.reaches n i with
    | true => simp
    | false =>
      rw [hreach, Bool.false_and, Bool.false_or] at hread
      simpa using hI.clear i hi hread

/-! ## What the analyser makes of the sums -/

/-- The totals of the slaves are the errors of the bad frames. -/
def Exact (n : Nat) (fs : List Frame) (d : DiagModel) : Prop :=
  d.n = n ∧ ∀ i < n, (d.s i).tot = countsOf (hits n fs i)

section Analysis

variable {n : Nat} {fs : List Frame} {d : DiagModel}

theorem originCount_exact (h : Exact n fs d) {i : Nat} (hi : i < n) (p : Port) :
    originCount (d.s i).tot p = if p = 0 then badInto n i fs else 0 := by
  rw [h.2 i hi]
  unfold originCount countsOf
  dsimp only
  split
  · rename_i hp
    subst hp
    rw [hits_origin n i _ fs (by simp), hits_origin n i _ fs (by simp), Nat.max_self]
  · rename_i hp
    have hpos : 1 ≤ (p : Nat) := Nat.one_le_iff_ne_zero.2 fun h0 => hp (Fin.ext h0)
    rw [hits_eq_zero (by omega) (by omega), hits_eq_zero (by omega) (by omega), Nat.max_self]

theorem originFinding_exact (h : Exact n fs d) {i : Nat} (hi : i < n) (p : Port) (f : Finding)
    (hf : f ∈ originFinding d i p) : f.type = .cableFwd := by
  unfold originFinding at hf
  dsimp only at hf
  split at hf
  · simp at hf
  · rename_i hcount
    rw [originCount_exact h hi] at hcount
    have hp : p = 0 := by
      by_contra hp
      exact hcount (if_neg hp)
    rw [List.mem_singleton.1 hf, if_pos hp]

/-- The findings of the origins are those of the bad cables. -/
theorem origins_exact (h : Exact n fs d) :
    (origins d).map (fun f => (f.a, f.count)) =
      ((List.range n).filter fun k => badInto n k fs ≠ 0).map fun k => (k + 1, badInto n k fs) := by
  have hone : ∀ i ∈ List.range n,
      ((List.finRange 4).flatMap (originFinding d i)).map (fun f => (f.a, f.count)) =
        if badInto n i fs ≠ 0 then [(i + 1, badInto n i fs)] else [] := by
    intro i hi
    have hi := List.mem_range.1 hi
    have hports : List.finRange 4 = [(0 : Port), 1, 2, 3] := rfl
    simp only [hports, List.flatMap_cons, List.flatMap_nil, originFinding, originCount_exact h hi]
    by_cases hb : badInto n i fs = 0 <;> simp [hb]
  unfold origins
  rw [h.1, List.map_flatMap, List.flatMap_congr hone]
  induction List.range n with
  | nil => rfl
  | cons i is ih =>
    rw [List.flatMap_cons, ih]
    by_cases hb : badInto n i fs = 0 <;> simp [hb]

theorem anyOrigin_exact (h : Exact n fs d) {k : Nat} (hk : k < n) (hbad : badInto n k fs ≠ 0) :
    anyOrigin d = true := by
  refine List.any_eq_true.2 ⟨k, by simpa [h.1] using hk, ?_⟩
  refine List.any_eq_true.2 ⟨0, List.mem_finRange _, ?_⟩
  simpa [originCount_exact h hk] using hbad

/-- A forwarded error on the way out is behind its origin. -/
theorem fwd_origin (h : Exact n fs d) {i : Nat} (hi : i < n) (hfwd : (d.s i).tot.fwd 0 ≠ 0) :
    ∃ k < i, badInto n k fs ≠ 0 := by
  rw [h.2 i hi] at hfwd
  obtain ⟨k, hk, hbad, hmem⟩ := exists_of_hits hfwd
  rw [mem_badCells hk] at hmem
  exact ⟨k, by simp at hmem; omega, hbad⟩

theorem fwdTotal_origin (h : Exact n fs d) {i : Nat} (hi : i < n)
    (hfwd : fwdTotal (d.s i).tot ≠ 0) : anyOrigin d = true := by
  rw [h.2 i hi] at hfwd
  have hport : ∃ p : Port, hits n fs i (8 + p) ≠ 0 := by
    by_contra hno
    have hzero : ∀ p : Port, hits n fs i (8 + p) = 0 := fun p => by_contra fun hp => hno ⟨p, hp⟩
    exact hfwd (by simp only [fwdTotal, countsOf, hzero])
  obtain ⟨p, hp⟩ := hport
  obtain ⟨k, hk, hbad, -⟩ := exists_of_hits hp
  exact anyOrigin_exact h hk hbad

theorem turn_origin (h : Exact n fs d) {m : Nat} (hm : m < n) {x : FwdScan}
    (horigin : ∀ k < m, badInto n k fs ≠ 0 → x.originSoFar = true) :
    ∀ k < m + 1, badInto n k fs ≠ 0 → (x.turn d m).originSoFar = true := by
  intro k hk hbad
  have hturn : (x.turn d m).originSoFar =
      (x.originSoFar || decide ((d.s m).tot.inv 0 ≠ 0) || decide ((d.s m).tot.rx 0 ≠ 0)) := by
    unfold FwdScan.turn
    dsimp only
    split <;> rfl
  rw [hturn]
  rcases Nat.lt_succ_iff_lt_or_eq.1 hk with hk | rfl
  · simp [horigin k hk hbad]
  · have hinv : (d.s k).tot.inv 0 ≠ 0 := by
      rw [h.2 k hm]
      change hits n fs k 0 ≠ 0
      rwa [hits_origin n k 0 fs (.inl rfl)]
    simp [hinv]

theorem turn_first (h : Exact n fs d) {m : Nat} (hm : m < n) {x : FwdScan} (hfirst : x.first = 0)
    (horigin : ∀ k < m, badInto n k fs ≠ 0 → x.originSoFar = true) :
    (x.turn d m).first = 0 := by
  unfold FwdScan.turn
  dsimp only
  rw [if_neg]
  · exact hfirst
  · intro hun
    rcases Bool.or_eq_true_iff.1 hun with hun | hun
    · rw [Bool.and_eq_true, decide_eq_true_eq] at hun
      obtain ⟨k, hk, hbad⟩ := fwd_origin h hm hun.1
      rw [horigin k hk hbad] at hun
      simp at hun
    · rw [Bool.and_eq_true, decide_eq_true_eq] at hun
      rw [fwdTotal_origin h hm hun.1] at hun
      simp at hun

/-- No turn of the loop over forwarded errors finds one without an origin. -/
theorem forwarded_exact (h : Exact n fs d) : forwarded d = [] := by
  -- the loop has seen the origin of every node that it has passed
  have hscan : ∀ m ≤ n, ∃ x, (List.range m).foldl (FwdScan.turn d) ⟨0, 0, false⟩ = x ∧
      x.first = 0 ∧ ∀ k < m, badInto n k fs ≠ 0 → x.originSoFar = true := by
    intro m hm
    induction m with
    | zero => exact ⟨_, rfl, rfl, by simp⟩
    | succ m ih =>
      obtain ⟨x, hx, hfirst, horigin⟩ := ih (by omega)
      rw [List.range_succ, List.foldl_append, hx]
      exact ⟨_, rfl, turn_first h hm hfirst horigin, turn_origin h hm horigin⟩
  obtain ⟨x, hx, hfirst, -⟩ := hscan n (Nat.le_refl n)
  unfold forwarded
  rw [h.1, hx]
  simp [hfirst]

/-- An error of the processing unit comes with an error of a port. -/
theorem portErr_exact (h : Exact n fs d) {i : Nat} (hi : i < n) (hpu : (d.s i).tot.pu ≠ 0) :
    portErr (d.s i).tot = true := by
  refine List.any_eq_true.2 ⟨0, List.mem_finRange _, ?_⟩
  rw [h.2 i hi] at hpu ⊢
  obtain ⟨k, hk, hbad, hmem⟩ := exists_of_hits hpu
  rcases (mem_badCells hk i 12).1 hmem with ⟨rfl, -⟩ | ⟨hlt, -, -⟩ | ⟨-, h9⟩
  · have hinv : (countsOf (hits n fs i)).inv 0 ≠ 0 := by
      change hits n fs i 0 ≠ 0
      rwa [hits_origin n i 0 fs (.inl rfl)]
    simp [hinv]
  · have hfwd : (countsOf (hits n fs i)).fwd 0 ≠ 0 :=
      hits_ne_zero hbad ((mem_badCells hk i 8).2 (.inr (.inl ⟨hlt, hi, .inl rfl⟩)))
    simp [hfwd]
  · cases h9

theorem slaveErrors_exact (h : Exact n fs d) (f : Finding) (hf : f ∈ slaveErrors d) :
    f.type = .pdi ∨ f.type = .lostLink ∨ f.type = .saturated := by
  unfold slaveErrors at hf
  obtain ⟨i, hi, hf⟩ := List.mem_flatMap.1 hf
  have hi : i < n := by simpa [h.1] using hi
  simp only [List.mem_append] at hf
  rcases hf with ((hf | hf) | hf) | hf
  · rw [if_neg] at hf
    · cases hf
    · rintro ⟨hpu, hport⟩
      rw [portErr_exact h hi hpu] at hport
      cases hport
  · split at hf
    · rw [List.mem_singleton.1 hf]
      exact .inl rfl
    · cases hf
  · obtain ⟨p, -, hf⟩ := List.mem_flatMap.1 hf
    split at hf
    · rw [List.mem_singleton.1 hf]
      exact .inr (.inl rfl)
    · cases hf
  · split at hf
    · rw [List.mem_singleton.1 hf]
      exact .inr (.inr rfl)
    · cases hf

/-- The kinds of finding that a cable fault is localised with. -/
def cableTypes : List FindType := [.cableFwd, .cableRet, .fwdNoOrigin, .puOnly]

theorem topology_type (f : Finding) (hf : f ∈ topology d) : f.type ∉ cableTypes := by
  unfold topology at hf
  dsimp only at hf
  split at hf
  · split at hf
    · rw [List.mem_singleton.1 hf]
      simp [cableTypes]
    · split at hf <;> rw [List.mem_singleton.1 hf] <;> simp [cableTypes]
  · cases hf

theorem unaddressed_type (f : Finding) (hf : f ∈ unaddressed d) : f.type ∉ cableTypes := by
  obtain ⟨i, -, hf⟩ := List.mem_flatMap.1 hf
  dsimp only at hf
  split at hf
  · rw [List.mem_singleton.1 hf]
    simp [cableTypes]
  · cases hf

theorem alStates_type (f : Finding) (hf : f ∈ alStates d) : f.type ∉ cableTypes := by
  obtain ⟨i, -, hf⟩ := List.mem_flatMap.1 hf
  dsimp only at hf
  split at hf
  · cases hf
  · split at hf
    · rw [List.mem_singleton.1 hf]
      simp [cableTypes]
    · cases hf

theorem emergencies_type (f : Finding) (hf : f ∈ emergencies d) : f.type ∉ cableTypes := by
  obtain ⟨i, -, hf⟩ := List.mem_flatMap.1 hf
  split at hf
  · cases hf
  · rw [List.mem_singleton.1 hf]
    simp [cableTypes]

/-- The findings about cables are the origins. -/
theorem findings_exact (h : Exact n fs d) :
    (findings d).filter (fun f => f.type ∈ cableTypes) = origins d := by
  have hnone : ∀ l : List Finding, (∀ f ∈ l, f.type ∉ cableTypes) →
      l.filter (fun f => f.type ∈ cableTypes) = [] := by
    intro l hl
    exact List.filter_eq_nil_iff.2 fun f hf => by simpa using hl f hf
  have horigins : (origins d).filter (fun f => f.type ∈ cableTypes) = origins d := by
    refine List.filter_eq_self.2 fun f hf => ?_
    obtain ⟨i, hi, hf⟩ := List.mem_flatMap.1 hf
    obtain ⟨p, -, hf⟩ := List.mem_flatMap.1 hf
    rw [originFinding_exact h (by simpa [h.1] using hi) p f hf]
    decide
  have hslave : (slaveErrors d).filter (fun f => f.type ∈ cableTypes) = [] := by
    refine hnone _ fun f hf => ?_
    rcases slaveErrors_exact h f hf with ht | ht | ht <;> rw [ht] <;> decide
  have hlost : ∀ b : Prop, ∀ _ : Decidable b, ∀ f : Finding, f.type ∉ cableTypes →
      (if b then [f] else []).filter (fun f => f.type ∈ cableTypes) = [] := by
    intro b _ f hf
    refine hnone _ fun g hg => ?_
    split at hg
    · rwa [List.mem_singleton.1 hg]
    · cases hg
  unfold findings
  simp only [List.filter_append]
  rw [hnone _ topology_type, hnone _ unaddressed_type, horigins, forwarded_exact h, hslave,
    hnone _ alStates_type, hnone _ emergencies_type, hlost _ _ _ (by simp [cableTypes]),
    hlost _ _ _ (by simp [cableTypes])]
  simp

end Analysis

/-! ## Every run -/

theorem exact_of_run {n : Nat} (hn : n ≤ maxSlaves) (expectedState : UInt16) {fs : List Frame}
    (hkept : ∀ f ∈ fs, f.Kept n)
    (hlt : Along (Bus.step n) (Bus.start n expectedState) fs (Unsaturated n))
    (hread : ∀ i < n, readSinceBad n i fs) :
    Exact n fs (run (Bus.step n) (Bus.start n expectedState) fs).diag := by
  have hinit : CableInv n [] (Bus.start n expectedState) := by
    refine ⟨if_neg (by omega), fun i _ => rfl, fun i _ _ => rfl⟩
  have hinv := Along.invariant (I := CableInv n) hinit
    (fun hist b f hI hC => hI.step f hC.1 hC.2) ((Along.of_forall hkept _).and hlt)
  refine ⟨hinv.size, fun i hi => ?_⟩
  have hsum := hinv.sum i hi
  have hclear := hinv.clear i hi
  rw [map_ev_trace] at hsum hclear
  rw [hclear (hread i hi), show split (fun _ => 0) = noCounts from rfl, Counts.add_noCounts] at hsum
  exact hsum

/-- Of a chain in which every slave is read after the last bad frame, no counter
reaches 255 and no read is lost after a slave has answered it: the findings about
cables are one CABLE_FWD for every cable that has corrupted a frame, each with
the number of its bad frames. -/
theorem cable_faults_are_localised (n : Nat) (hn : n ≤ maxSlaves) (expectedState : UInt16)
    (fs : List Frame) (max : Nat)
    (hkept : ∀ f ∈ fs, f.Kept n)
    (hlt : Along (Bus.step n) (Bus.start n expectedState) fs (Unsaturated n))
    (hread : ∀ i < n, readSinceBad n i fs)
    (hmax : (findings (run (Bus.step n) (Bus.start n expectedState) fs).diag).length ≤ max) :
    let out := ecmDiagAnalyze (run (Bus.step n) (Bus.start n expectedState) fs).diag max
    ((out.filter fun f => f.type = .cableFwd).map fun f => (f.a, f.count)).Perm
        (((List.range n).filter fun k => badInto n k fs ≠ 0).map
          fun k => (k + 1, badInto n k fs)) ∧
      ∀ f ∈ out, f.type ≠ .cableRet ∧ f.type ≠ .fwdNoOrigin ∧ f.type ≠ .puOnly := by
  have hexact := exact_of_run hn expectedState hkept hlt hread
  generalize (run (Bus.step n) (Bus.start n expectedState) fs).diag = d at hmax hexact
  intro out
  have hperm : out.Perm (findings d) := ecmDiagAnalyze_perm hmax
  have hcable := (hperm.filter fun f => f.type ∈ cableTypes)
  rw [findings_exact hexact] at hcable
  have hfwd : ∀ f ∈ out, f.type ∈ cableTypes → f.type = .cableFwd := by
    intro f hf ht
    have horigin : f ∈ origins d := hcable.subset (List.mem_filter.2 ⟨hf, by simpa using ht⟩)
    obtain ⟨i, hi, hf⟩ := List.mem_flatMap.1 horigin
    obtain ⟨p, -, hf⟩ := List.mem_flatMap.1 hf
    exact originFinding_exact hexact (by simpa [hexact.1] using hi) p f hf
  constructor
  · have hsame : out.filter (fun f => f.type = .cableFwd) =
        out.filter (fun f => f.type ∈ cableTypes) := by
      refine List.filter_congr fun f hf => ?_
      rw [decide_eq_decide]
      exact ⟨fun ht => by rw [ht]; decide, hfwd f hf⟩
    rw [hsame, ← origins_exact hexact]
    exact hcable.map _
  · intro f hf
    refine ⟨fun ht => ?_, fun ht => ?_, fun ht => ?_⟩
    all_goals
      have hbad := hfwd f hf (by rw [ht]; decide)
      rw [ht] at hbad
      cases hbad

/-- A read of the slaves `0 ..< count`, all of which answer. -/
def readAll (count : Nat) : Read :=
  { raw :=
      { seq := 1, tNs := 1000, frameOk := true, clearOnRead := true, first := 0, count := count
        brdCount := count, brdAlOr := 8, framesLost := 0, handoffDrops := 0, ngroups := 1
        wkc := fun _ => { count := fun _ => 0, lastMissing := 0, runBad := 0, maxRunBad := 0 }
        s := fun i =>
          { stationAddr := 0x1001 + i.toUInt16, wkcErr := 3, wkcDl := 1, wkcAl := 1
            err := fun _ => 0, dlStatus := 0x5A33, alStatus := 8, alCode := 0 } }
    answers := fun _ => true }

/-- Process data that the cable into node `k` corrupts. -/
def badFrame (k : Nat) : Frame :=
  { badCable := some k, muted := false, read := none, collected := true }

/-- A diagnosis read of `count` slaves that comes back. -/
def goodRead (count : Nat) : Frame :=
  { badCable := none, muted := false, read := some (readAll count), collected := true }

/-- Two bad cables in a chain of three, with a read of part of the chain between. -/
def twoFaults : List Frame :=
  [badFrame 0, badFrame 2, goodRead 2, badFrame 2, goodRead 3]

theorem cable_faults_are_localised_twoFaults :
    ((ecmDiagAnalyze (run (Bus.step 3) (Bus.start 3 8) twoFaults).diag 46).filter
        fun f => f.type = .cableFwd).map (fun f => (f.a, f.count)) = [(3, 2), (1, 1)] ∧
      (((ecmDiagAnalyze (run (Bus.step 3) (Bus.start 3 8) twoFaults).diag 46).filter
        fun f => f.type = .cableFwd).map fun f => (f.a, f.count)).Perm [(1, 1), (3, 2)] :=
  ⟨by decide +kernel, (cable_faults_are_localised 3 (by decide) 8 twoFaults 46 (by decide +kernel)
    (by decide +kernel) (by decide +kernel) (by decide +kernel)).1⟩

/-- A frame corrupted into node 0, then a diagnosis read that is corrupted into
node 1 after node 0 has answered it, then a read that comes back. -/
def corruptedRead : List Frame :=
  [badFrame 0, { goodRead 2 with badCable := some 1 }, goodRead 2]

/-- The corrupted read takes the counters of node 0 with it: every slave is read
after the last bad frame and no counter is near 255, but the bad cable into node 0
is not reported. -/
theorem corrupted_read_loses_counts :
    Along (Bus.step 2) (Bus.start 2 8) corruptedRead (Unsaturated 2) ∧
      (∀ i < 2, readSinceBad 2 i corruptedRead) ∧
      badInto 2 0 corruptedRead = 1 ∧ badInto 2 1 corruptedRead = 1 ∧
      (findings (run (Bus.step 2) (Bus.start 2 8) corruptedRead).diag).length ≤ 32 ∧
      ((ecmDiagAnalyze (run (Bus.step 2) (Bus.start 2 8) corruptedRead).diag 32).filter
        fun f => f.type = .cableFwd).map (fun f => (f.a, f.count)) = [(2, 1)] := by
  refine ⟨?_, ?_, ?_, ?_, ?_, ?_⟩ <;> decide +kernel

end EcMaster.Diag
