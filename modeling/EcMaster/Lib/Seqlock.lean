import EcMaster.Lib.Run

/-!
# Sequence locks, one memory access at a time

One writer publishes a record of several fields, one reader copies it.  The
writer counts a sequence number of `size` values up before and after its stores,
so the number is odd while a record is half written.  The reader loads the
number, the fields and the number again, and keeps its copy if both numbers are
the same and even; otherwise it tries again, a bounded number of times.

Every load and every store is a step, and a run is any list of steps of the two
sides.  The state keeps, for the statements only, the records that were written
completely, and with every answer of the reader how many of them there were when
the attempt that gave it began.

The writer's progress is the number `2 * completed + busy`, and the sequence
number is its remainder.  While the progress is what it was at the begin of an
attempt, everything loaded in the attempt is of one record (`Inv.reader`).  So
the reader's test is right as long as equal remainders mean equal progress: as
long as fewer than `size / 2` writes complete during one attempt.
-/

namespace EcMaster.Seqlock

open EcMaster.Run

/-- The code of one lock. -/
structure Lock where
  /-- the number of values of the sequence number -/
  size : Nat
  /-- the fields that are copied, in the order of the copy -/
  fields : Nat

/-- A record: its fields. -/
abbrev Lock.Record (l : Lock) (α : Type) : Type := Fin l.fields → α

/-- Where the writer is. -/
inductive Writer (l : Lock) (α : Type) where
  | idle
  /-- the sequence number is loaded -/
  | loaded (v : l.Record α) (q : Nat)
  /-- the sequence number is odd, and `k` fields are stored -/
  | store (v : l.Record α) (q k : Nat)

/-- Where the reader is; `left` counts its tries, with the present one. -/
inductive Reader where
  | idle
  /-- about to begin an attempt -/
  | retry (left : Nat)
  /-- the sequence number was `s1` when `begun` writes were complete, and `k`
  fields are loaded -/
  | load (s1 begun left k : Nat)

/-- The lock, both program counters, and what was written and read. -/
structure State (l : Lock) (α : Type) where
  seq : Nat
  mem : l.Record α
  writer : Writer l α
  reader : Reader
  /-- the reader's destination -/
  out : l.Record α
  writes : List (l.Record α)
  reads : List (Option (Nat × l.Record α))

/-- One step of an interleaving.  A side that is idle begins the given call; a
side that is busy goes on with the call it is in. -/
inductive Ev (l : Lock) (α : Type) where
  | write (v : l.Record α)
  | read (tries : Nat)

variable {l : Lock} {α : Type}

/-- A lock that holds `zero` in every field. -/
def start (l : Lock) (zero : α) : State l α where
  seq := 0
  mem := fun _ => zero
  writer := .idle
  reader := .idle
  out := fun _ => zero
  writes := []
  reads := []

/-- A step of the writer. -/
def write (s : State l α) (v : l.Record α) : State l α :=
  match s.writer with
  | .idle => { s with writer := .loaded v s.seq }
  | .loaded v q => { s with seq := (q + 1) % l.size, writer := .store v q 0 }
  | .store v q k =>
      if hk : k < l.fields then
        { s with
          mem := Function.update s.mem ⟨k, hk⟩ (v ⟨k, hk⟩)
          writer := .store v q (k + 1) }
      else { s with seq := (q + 2) % l.size, writer := .idle, writes := s.writes ++ [v] }

/-- The load that begins an attempt. -/
def attempt (s : State l α) (left : Nat) : State l α :=
  if s.seq % 2 = 1 then
    if left ≤ 1 then { s with reader := .idle, reads := s.reads ++ [none] }
    else { s with reader := .retry (left - 1) }
  else { s with reader := .load s.seq s.writes.length left 0 }

/-- A step of the reader. -/
def read (s : State l α) (tries : Nat) : State l α :=
  match s.reader with
  | .idle => if tries = 0 then { s with reads := s.reads ++ [none] } else attempt s tries
  | .retry left => attempt s left
  | .load s1 begun left k =>
      if hk : k < l.fields then
        { s with
          out := Function.update s.out ⟨k, hk⟩ (s.mem ⟨k, hk⟩)
          reader := .load s1 begun left (k + 1) }
      else if s.seq = s1 then
        { s with reader := .idle, reads := s.reads ++ [some (begun, s.out)] }
      else if left ≤ 1 then { s with reader := .idle, reads := s.reads ++ [none] }
      else { s with reader := .retry (left - 1) }

/-- A step of the interleaving. -/
def step (s : State l α) : Ev l α → State l α
  | .write v => write s v
  | .read tries => read s tries

/-! ## The invariant -/

/-- The record after `c` complete writes. -/
def version (zero : α) (s : State l α) (c : Nat) : Option (l.Record α) :=
  ((fun _ => zero) :: s.writes)[c]?

/-- One while the sequence number is odd. -/
def Writer.busy : Writer l α → Nat
  | .store _ _ _ => 1
  | _ => 0

theorem Writer.busy_le (w : Writer l α) : w.busy ≤ 1 := by
  cases w <;> simp [busy]

/-- The writer's progress. -/
def progress (s : State l α) : Nat := 2 * s.writes.length + s.writer.busy

/-- The number the writer works with is that of its progress. -/
def Writer.Knows (mem : l.Record α) (n : Nat) : Writer l α → Prop
  | .idle => True
  | .loaded _ q => q = 2 * n % l.size
  | .store v q k => q = 2 * n % l.size ∧ ∀ j : Fin l.fields, j.1 < k → mem j = v j

/-- What the reader knows: as long as the writer has not moved on, the fields it
has loaded are those of the last complete write. -/
def Reader.Knows (zero : α) (s : State l α) : Reader → Prop
  | .load s1 begun _ k =>
      s1 = 2 * begun % l.size ∧ 2 * begun ≤ progress s ∧
        (2 * begun = progress s → ∀ v, version zero s begun = some v →
          ∀ j : Fin l.fields, j.1 < k → s.out j = v j)
  | _ => True

structure Inv (zero : α) (s : State l α) : Prop where
  seq_eq : s.seq = progress s % l.size
  mem_eq : s.writer.busy = 0 → version zero s s.writes.length = some s.mem
  writer : s.writer.Knows s.mem s.writes.length
  reader : s.reader.Knows zero s

theorem inv_start (zero : α) : Inv zero (start l zero) := by
  constructor <;> simp [start, progress, Writer.busy, version, Writer.Knows, Reader.Knows]

/-- With the progress unchanged between the writes, so is what the reader knows. -/
theorem Reader.Knows.mono {zero : α} {s s' : State l α} {p : Reader}
    (hp : p.Knows zero s) (hle : progress s ≤ progress s') (hout : s'.out = s.out)
    (hsame : progress s' = progress s → s'.writes = s.writes) : p.Knows zero s' := by
  cases p with
  | idle => trivial
  | retry left => trivial
  | load s1 begun left k =>
    obtain ⟨hs1, hbegun, hloaded⟩ := hp
    refine ⟨hs1, by omega, fun heq v hv j hj => ?_⟩
    have hprogress : progress s' = progress s := by omega
    rw [version, hsame hprogress] at hv
    rw [hout]
    exact hloaded (by omega) v hv j hj

/-- Every step of the writer keeps the invariant. -/
theorem inv_write {zero : α} {s : State l α} (hs : Inv zero s) (v : l.Record α) :
    Inv zero (write s v) := by
  have hwriter := hs.writer
  unfold write
  split
  next hpc =>
    have hbusy : s.writer.busy = 0 := by rw [hpc]; rfl
    have hprogress : progress s = 2 * s.writes.length := by rw [progress, hbusy, Nat.add_zero]
    have hseq : s.seq = 2 * s.writes.length % l.size := by rw [hs.seq_eq, hprogress]
    exact ⟨hseq, fun _ => hs.mem_eq hbusy, hseq,
      hs.reader.mono (Nat.le_of_eq hprogress) rfl fun _ => rfl⟩
  next v q hpc =>
    have hbusy : s.writer.busy = 0 := by rw [hpc]; rfl
    rw [hpc] at hwriter
    have hq : q = 2 * s.writes.length % l.size := hwriter
    have hprogress : progress s = 2 * s.writes.length := by rw [progress, hbusy, Nat.add_zero]
    refine ⟨?_, fun h => ?_, ⟨hq, fun j hj => by omega⟩, hs.reader.mono ?_ rfl fun _ => rfl⟩
    · show (q + 1) % l.size = (2 * s.writes.length + 1) % l.size
      rw [hq, Nat.mod_add_mod]
    · simp [Writer.busy] at h
    · show progress s ≤ 2 * s.writes.length + 1
      omega
  next v q k hpc =>
    have hbusy : s.writer.busy = 1 := by rw [hpc]; rfl
    rw [hpc] at hwriter
    obtain ⟨hq, hstored⟩ := hwriter
    have hprogress : progress s = 2 * s.writes.length + 1 := by rw [progress, hbusy]
    split
    next hk =>
      refine ⟨?_, fun h => ?_, ⟨hq, fun j hj => ?_⟩, hs.reader.mono ?_ rfl fun _ => rfl⟩
      · show s.seq = (2 * s.writes.length + 1) % l.size
        rw [hs.seq_eq, hprogress]
      · simp [Writer.busy] at h
      · by_cases hjk : j = ⟨k, hk⟩
        · subst hjk
          simp
        · have hne : j.1 ≠ k := fun heq => hjk (Fin.ext heq)
          simp only [Function.update_of_ne hjk]
          exact hstored j (by omega)
      · exact Nat.le_of_eq hprogress
    next hk =>
      have hmem : s.mem = v := funext fun j => hstored j (by omega)
      have hlen : (s.writes ++ [v]).length = s.writes.length + 1 := by simp
      refine ⟨?_, fun _ => ?_, trivial, hs.reader.mono ?_ rfl fun heq => ?_⟩
      · show (q + 2) % l.size = (2 * (s.writes ++ [v]).length + 0) % l.size
        rw [hq, Nat.mod_add_mod, hlen]
        congr 1
      · show ((fun _ => zero) :: (s.writes ++ [v]))[(s.writes ++ [v]).length]? = some s.mem
        simp [hmem]
      · show progress s ≤ 2 * (s.writes ++ [v]).length + 0
        omega
      · have heq : 2 * (s.writes ++ [v]).length + 0 = progress s := heq
        omega

/-- Giving up an attempt. -/
theorem Inv.idle {zero : α} {s : State l α} (hs : Inv zero s)
    (reads : List (Option (Nat × l.Record α))) :
    Inv zero { s with reader := .idle, reads := reads } :=
  ⟨hs.1, hs.2, hs.3, trivial⟩

theorem Inv.retry {zero : α} {s : State l α} (hs : Inv zero s) (left : Nat) :
    Inv zero { s with reader := .retry left } :=
  ⟨hs.1, hs.2, hs.3, trivial⟩

theorem inv_attempt {zero : α} (hsize : 2 ∣ l.size) {s : State l α} (hs : Inv zero s)
    (left : Nat) : Inv zero (attempt s left) := by
  unfold attempt
  split
  next =>
    split
    next => exact hs.idle _
    next => exact hs.retry _
  next heven =>
    -- an even number is one between two writes
    have hbusy : s.writer.busy = 0 := by
      have hle := s.writer.busy_le
      rw [hs.seq_eq, Nat.mod_mod_of_dvd _ hsize, progress] at heven
      omega
    have hprogress : progress s = 2 * s.writes.length := by rw [progress, hbusy, Nat.add_zero]
    refine ⟨hs.1, hs.2, hs.3, ?_, ?_, ?_⟩
    · rw [hs.seq_eq, hprogress]
    · exact Nat.le_of_eq hprogress.symm
    · intro _ v _ j hj
      omega

/-- Every step of the reader keeps the invariant. -/
theorem inv_read {zero : α} (hsize : 2 ∣ l.size) {s : State l α} (hs : Inv zero s)
    (tries : Nat) : Inv zero (read s tries) := by
  have hreader := hs.reader
  unfold read
  split
  next =>
    split
    next => exact ⟨hs.1, hs.2, hs.3, hs.4⟩
    next => exact inv_attempt hsize hs tries
  next left hpc => exact inv_attempt hsize hs left
  next s1 begun left k hpc =>
    rw [hpc] at hreader
    obtain ⟨hs1, hbegun, hloaded⟩ := hreader
    split
    next hk =>
      refine ⟨hs.1, hs.2, hs.3, hs1, hbegun, fun heq v hv j hj => ?_⟩
      have heq : 2 * begun = 2 * s.writes.length + s.writer.busy := heq
      -- the writer is between two writes, so the memory is the last one
      have hle := s.writer.busy_le
      have hbusy : s.writer.busy = 0 := by omega
      have hlast : begun = s.writes.length := by omega
      have hmem : s.mem = v := by
        have hv : version zero s begun = some v := hv
        rw [hlast, hs.mem_eq hbusy] at hv
        exact Option.some.inj hv
      by_cases hjk : j = ⟨k, hk⟩
      · subst hjk
        simp [hmem]
      · have hne : j.1 ≠ k := fun heq => hjk (Fin.ext heq)
        simp only [Function.update_of_ne hjk]
        exact hloaded heq v hv j (by omega)
    next =>
      split
      next => exact hs.idle _
      next =>
        split
        next => exact hs.idle _
        next => exact hs.retry _

/-! ## What the reader is told -/

/-- How many writes were complete when the attempt that is going on began. -/
def Reader.begun : Reader → Option Nat
  | .load _ begun _ _ => some begun
  | _ => none

/-- Fewer than half the sequence numbers are used up by the writes that complete
during one attempt. -/
def InTime (q : Rec (State l α) (Ev l α)) : Prop :=
  ∀ begun ∈ q.pre.reader.begun, q.pre.writes.length < begun + l.size / 2

/-- A record that the reader is given is the one of the last write that was
complete when the successful attempt began. -/
def Whole (zero : α) (q : Rec (State l α) (Ev l α)) : Prop :=
  ∀ begun v, q.post.reads = q.pre.reads ++ [some (begun, v)] →
    version zero q.post begun = some v

theorem inv_step {zero : α} (hsize : 2 ∣ l.size) {s : State l α} (hs : Inv zero s)
    (ev : Ev l α) : Inv zero (step s ev) := by
  cases ev with
  | write v => exact inv_write hs v
  | read tries => exact inv_read hsize hs tries

/-- The writer gives no answers to the reader. -/
theorem write_reads (s : State l α) (v : l.Record α) : (write s v).reads = s.reads := by
  unfold write
  repeat' split
  all_goals rfl

/-- The begin of an attempt gives the reader no record. -/
theorem attempt_reads (s : State l α) (left : Nat) :
    (attempt s left).reads = s.reads ∨ (attempt s left).reads = s.reads ++ [none] := by
  unfold attempt
  split
  next =>
    split
    next => exact .inr rfl
    next => exact .inl rfl
  next => exact .inl rfl

/-- What a step of the reader does to the answers: a record is only given when
the numbers agree. -/
theorem read_reads (s : State l α) (tries : Nat) :
    (read s tries).reads = s.reads ∨ (read s tries).reads = s.reads ++ [none] ∨
      ∃ s1 begun left k, s.reader = .load s1 begun left k ∧ ¬ k < l.fields ∧ s.seq = s1 ∧
        (read s tries).reads = s.reads ++ [some (begun, s.out)] ∧
        (read s tries).writes = s.writes := by
  unfold read
  split
  next =>
    split
    next => exact .inr (.inl rfl)
    next => exact (attempt_reads s tries).imp id .inl
  next left _ => exact (attempt_reads s left).imp id .inl
  next s1 begun left k hpc =>
    split
    next => exact .inl rfl
    next hk =>
      split
      next hseq => exact .inr (.inr ⟨s1, begun, left, k, hpc, hk, hseq, rfl, rfl⟩)
      next =>
        split
        next => exact .inr (.inl rfl)
        next => exact .inl rfl

/-- Equal sequence numbers mean that the writer has not moved on. -/
theorem progress_eq {s : State l α} {begun : Nat} (hbegun : 2 * begun ≤ progress s)
    (htime : s.writes.length < begun + l.size / 2)
    (hseq : progress s % l.size = 2 * begun % l.size) : 2 * begun = progress s := by
  have hbusy := s.writer.busy_le
  have hlt : progress s - 2 * begun < l.size := by
    unfold progress at *
    omega
  have hdvd : l.size ∣ progress s - 2 * begun := (Nat.modEq_iff_dvd' hbegun).1 hseq.symm
  have hzero := Nat.eq_zero_of_dvd_of_lt hdvd hlt
  omega

theorem whole_step {zero : α} {s : State l α} (hs : Inv zero s) (ev : Ev l α)
    (htime : InTime ⟨s, ev, step s ev⟩) : Whole zero ⟨s, ev, step s ev⟩ := by
  intro begun v hreads
  cases ev with
  | write v' =>
    have hreads : (write s v').reads = s.reads ++ [some (begun, v)] := hreads
    simp [write_reads] at hreads
  | read tries =>
    have hreads : (read s tries).reads = s.reads ++ [some (begun, v)] := hreads
    rcases read_reads s tries with h | h | ⟨s1, begun', left, k, hpc, hk, hseq, h, hwrites⟩
    · simp [h] at hreads
    · simp [h] at hreads
    · simp only [h, List.append_cancel_left_eq, List.cons.injEq, Option.some.injEq,
        Prod.mk.injEq, and_true] at hreads
      obtain ⟨rfl, rfl⟩ := hreads
      have hreader := hs.reader
      rw [hpc] at hreader
      obtain ⟨hs1, hbegun, hloaded⟩ := hreader
      have hsame : 2 * begun' = progress s := by
        refine progress_eq hbegun (htime begun' (by simp [hpc, Reader.begun])) ?_
        rw [← hs.seq_eq, hseq, hs1]
      obtain ⟨w, hw⟩ : ∃ w, version zero s begun' = some w := by
        refine ⟨_, List.getElem?_eq_getElem ?_⟩
        have hbusy := s.writer.busy_le
        unfold progress at hbegun
        simp
        omega
      have hout : s.out = w := funext fun j => hloaded hsame w hw j (by omega)
      show version zero (read s tries) begun' = some s.out
      rw [version, hwrites, hout]
      exact hw

/-- In every interleaving in which no attempt takes too long, every record that
the reader is given is whole. -/
theorem whole (hsize : 2 ∣ l.size) (zero : α) {es : List (Ev l α)}
    (htime : Along step (start l zero) es fun _ q => InTime q) :
    Along step (start l zero) es fun _ q => Whole zero q :=
  Along.of_invariant (I := fun _ s => Inv zero s) (inv_start zero)
    (fun _ _ ev hs _ => inv_step hsize hs ev) (fun _ _ ev hs ht => whole_step hs ev ht) htime

end EcMaster.Seqlock
