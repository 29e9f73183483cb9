import EcMaster.Lib.Seqlock
import EcMaster.Xchg.Primitives

/-!
# State snapshots under interleaving

`ecm_xst_write` and `ecm_xst_read` (`xchg/ecm_xchg.c`) as the sequence lock of
`Lib/Seqlock`: a 32-bit number, and the fields `tick`, `w[0]`, …, `w[n - 1]` in
the order in which both calls go through them.  Both loops stop at
`ECM_XST_WORDS`, and the words from `n` on are not touched.

A read that succeeds returns the tick and the words of one write.  Between two
writes the record is that of the whole writes of `Xchg/Primitives` (`toXst_eq`).
-/

namespace EcMaster.Xchg

open EcMaster.Run EcMaster.Seqlock

/-- `ecm_xst_write` and `ecm_xst_read` with `n` words. -/
def ecmXst (n : Nat) : Lock where
  size := 2 ^ 32
  fields := min n xstWords + 1

variable {n : Nat} {α : Type}

/-- `tick` of a record. -/
def tickOf (v : (ecmXst n).Record α) : α := v ⟨0, Nat.succ_pos _⟩

/-- `w[i]` of a record. -/
def wordOf (v : (ecmXst n).Record α) (i : Fin (min n xstWords)) : α := v i.succ

/-- A record that is delivered is that of one write, or the initial zeros; and
that write is the last one complete when the successful attempt began. -/
def OneWrite (zero : α) (q : Rec (State (ecmXst n) α) (Ev (ecmXst n) α)) : Prop :=
  ∀ begun v, q.post.reads = q.pre.reads ++ [some (begun, v)] →
    (begun = 0 ∧ tickOf v = zero ∧ ∀ i, wordOf v i = zero) ∨
      ∃ w, 0 < begun ∧ q.post.writes[begun - 1]? = some w ∧
        tickOf v = tickOf w ∧ ∀ i, wordOf v i = wordOf w i

/-- In every interleaving in which fewer than `2 ^ 31` writes complete during one
attempt, a successful read delivers one write, no older than the last one
completed before the attempt. -/
theorem snapshot_is_one_write (n : Nat) (zero : α) (es : List (Ev (ecmXst n) α))
    (htime : Along step (start (ecmXst n) zero) es fun _ q => InTime q) :
    Along step (start (ecmXst n) zero) es fun _ q => OneWrite zero q := by
  have hsize : 2 ∣ (ecmXst n).size := by
    show 2 ∣ 2 ^ 32
    decide
  intro hist q rest htrace begun v hreads
  have hversion := whole hsize zero htime hist q rest htrace begun v hreads
  unfold version at hversion
  cases begun with
  | zero =>
    have hzero : (fun _ => zero) = v := by simpa using hversion
    subst hzero
    exact .inl ⟨rfl, rfl, fun _ => rfl⟩
  | succ c => exact .inr ⟨v, by omega, by simpa using hversion, rfl, fun _ => rfl⟩

/-- A read whose first attempt meets a write: it is torn, and the second attempt
delivers that write. -/
def tornOnce : List (Ev (ecmXst 2) Nat) :=
  let v : (ecmXst 2).Record Nat := fun j => 10 + j.1
  [.read 64, .write v, .write v, .write v, .read 64, .read 64, .read 64, .read 64,
    .write v, .write v, .write v, .read 64, .read 64, .read 64, .read 64, .read 64]

instance (q : Rec (State (ecmXst n) α) (Ev (ecmXst n) α)) : Decidable (InTime q) :=
  inferInstanceAs (Decidable (∀ begun ∈ q.pre.reader.begun, _ < _))

theorem snapshot_is_one_write_tornOnce :
    Along step (start (ecmXst 2) 0) tornOnce (fun _ q => InTime q) ∧
      (run step (start (ecmXst 2) 0) tornOnce).reads.map (·.map fun p => (p.1, tickOf p.2)) =
        [some (1, 10)] ∧
      Along step (start (ecmXst 2) 0) tornOnce fun _ q => OneWrite 0 q := by
  have htime : Along step (start (ecmXst 2) 0) tornOnce fun _ q => InTime q := by
    decide +kernel
  exact ⟨htime, by decide +kernel, snapshot_is_one_write 2 0 tornOnce htime⟩

/-! ## The record as one value -/

/-- The record as `ecm_xst_t`, with the words that the calls do not touch. -/
def toXst (s : State (ecmXst n) Nat) (rest : List Nat) : Xst where
  seq := s.seq
  tick := tickOf s.mem
  w := List.ofFn (wordOf s.mem) ++ rest

/-- Between two writes the record is what whole writes make of it. -/
theorem toXst_eq {s : State (ecmXst n) Nat} (hs : Seqlock.Inv 0 s) (hidle : s.writer = .idle)
    (rest : List Nat) :
    toXst s rest = s.writes.foldl (fun x v => ecmXstWrite x (tickOf v) (List.ofFn (wordOf v)))
      (toXst (start (ecmXst n) 0) rest) := by
  obtain ⟨hseq, hmem, -, -⟩ := hs
  have hmem := hmem (by rw [hidle]; rfl)
  rw [progress, hidle] at hseq
  unfold toXst
  unfold version at hmem
  rw [hseq]
  generalize s.writes = vs at hmem ⊢
  generalize s.mem = m at hmem ⊢
  induction vs using List.reverseRecOn generalizing m with
  | nil =>
    obtain rfl : (fun _ => 0) = m := by simpa using hmem
    rfl
  | append_singleton vs v ih =>
    obtain rfl : v = m := by simpa using hmem
    rw [List.foldl_append, ← ih _ (List.getElem?_eq_getElem (by simp))]
    have hseq : (2 * (vs ++ [v]).length + 0) % 2 ^ 32 = (2 * vs.length % 2 ^ 32 + 2) % 2 ^ 32 := by
      simp [Nat.mul_add]
    have htake : (List.ofFn (wordOf v)).take xstWords = List.ofFn (wordOf v) :=
      List.take_of_length_le (by simp)
    simp only [List.foldl_cons, List.foldl_nil, ecmXstWrite, htake, Xst.mk.injEq]
    exact ⟨hseq, trivial, by rw [List.drop_left' (by simp)]⟩

end EcMaster.Xchg
