import EcMaster.Diag.Analyze
import EcMaster.Lib.Recent
import EcMaster.Lib.Run

/-!
# The emergency messages of a slave

`ecm_diag_add_emcy` writes a message into a ring of four per slave, and `ecm_diag_emcy`
reads the ring backwards from the cell to be written next.  The monitor calls the first
for every message that it takes from the RT thread, between reads of the bus
(`MonitorEv`).

`Logged` is the invariant of a slave: its ring keeps the end of the list of messages that
were added for it, and the count is the length of that list, in 64 bits.  So is the
result, `emcy_history`.  The count is the only thing that tells a message from an empty
cell, and it starts again at zero after `2 ^ 64` messages
(`wrapped_count_hides_messages`).
-/

namespace EcMaster.Diag

open EcMaster.Recent EcMaster.Run

/-- `ECM_DIAG_EMCY_KEEP`. -/
def emcyKeep : Nat := 4

/-- `ecm_diag_add_emcy`.  Counters have 64 bits. -/
def ecmDiagAddEmcy (d : DiagModel) (slave : Int) (e : Emcy) : DiagModel :=
  if slave < 1 ∨ d.n < slave then { d with emcyBadSlave := (d.emcyBadSlave + 1) % 2 ^ 64 }
  else
    let i := (slave - 1).toNat
    let s := d.s i
    { d with
      s := Function.update d.s i
        { s with
          emcy := Function.update s.emcy s.emcyNext e
          emcyNext := (s.emcyNext + 1) % emcyKeep
          emcyCount := (s.emcyCount + 1) % 2 ^ 64 }
      emcyTotal := (d.emcyTotal + 1) % 2 ^ 64 }

/-- `ecm_diag_emcy`. -/
def ecmDiagEmcyOf (d : DiagModel) (slave k : Int) : Option Emcy :=
  if slave < 1 ∨ d.n < slave ∨ k < 0 ∨ emcyKeep ≤ k then none
  else ecmDiagEmcy (d.s (slave - 1).toNat) k.toNat

/-! ## The monitor -/

/-- What the monitor does with the model. -/
inductive MonitorEv where
  /-- an emergency message of a slave -/
  | add (slave : Int) (e : Emcy)
  /-- a read of the bus -/
  | ingest (raw : Raw)

def DiagModel.monitor (d : DiagModel) : MonitorEv → DiagModel
  | .add slave e => ecmDiagAddEmcy d slave e
  | .ingest raw => ecmDiagIngest d raw

/-- The message that an event adds for a slave. -/
def MonitorEv.added (slave : Int) : MonitorEv → Option Emcy
  | .add i e => if i = slave then some e else none
  | .ingest _ => none

/-- The messages that were added for a slave, the oldest one first. -/
def added (slave : Int) (evs : List MonitorEv) : List Emcy := evs.filterMap (·.added slave)

/-- The ring of a slave. -/
def DiagSlave.ring (s : DiagSlave) : Recent.Ring Emcy := { cells := s.emcy, next := s.emcyNext }

/-- The books of a slave are right for the messages that were added for it. -/
structure DiagSlave.Logged (s : DiagSlave) (l : List Emcy) : Prop where
  ring : s.ring.Keeps emcyKeep l
  count : s.emcyCount = l.length % 2 ^ 64

theorem logged_unread : unread.Logged [] where
  ring := Recent.Ring.keeps_nil rfl
  count := rfl

/-- A read of the bus does not touch the messages. -/
theorem ingestSlave_ring (clearOnRead : Bool) (reads : Nat) (r : RawSlave) (s : DiagSlave) :
    (ingestSlave clearOnRead reads r s).ring = s.ring ∧
      (ingestSlave clearOnRead reads r s).emcyCount = s.emcyCount := by
  unfold ingestSlave ingestCounters
  dsimp only
  split_ifs <;> exact ⟨rfl, rfl⟩

theorem DiagSlave.Logged.ingest {d : DiagModel} {i : Nat} {l : List Emcy}
    (h : (d.s i).Logged l) (raw : Raw) : ((ecmDiagIngest d raw).s i).Logged l := by
  unfold ecmDiagIngest
  dsimp only
  split
  · exact h
  · dsimp only
    split
    · obtain ⟨hring, hcount⟩ :=
        ingestSlave_ring raw.clearOnRead (d.reads + 1) (raw.s i) (d.s i)
      exact ⟨hring ▸ h.ring, hcount.trans h.count⟩
    · exact h

@[simp] theorem ecmDiagAddEmcy_n (d : DiagModel) (slave : Int) (e : Emcy) :
    (ecmDiagAddEmcy d slave e).n = d.n := by
  unfold ecmDiagAddEmcy
  split <;> rfl

/-- A message for a slave of the bus goes into its books, any other message leaves them
alone. -/
theorem DiagSlave.Logged.add {d : DiagModel} {slave : Int} {l : List Emcy}
    (hlow : 1 ≤ slave) (hhigh : slave ≤ d.n) (h : (d.s (slave - 1).toNat).Logged l)
    (i : Int) (e : Emcy) :
    ((ecmDiagAddEmcy d i e).s (slave - 1).toNat).Logged
      (l ++ ((MonitorEv.add i e).added slave).toList) := by
  have hadded : (MonitorEv.add i e).added slave = if i = slave then some e else none := rfl
  rw [hadded]
  unfold ecmDiagAddEmcy
  by_cases hi : i = slave
  · subst hi
    rw [if_neg (by omega), if_pos rfl]
    dsimp only
    rw [Function.update_self]
    constructor
    · exact h.ring.put (by decide) e
    · show ((d.s (i - 1).toNat).emcyCount + 1) % 2 ^ 64 = _
      rw [h.count, Nat.mod_add_mod, Option.toList_some, List.length_append,
        List.length_singleton]
  · rw [if_neg hi, Option.toList_none, List.append_nil]
    split
    · exact h
    · rename_i hbus
      have hother : (slave - 1).toNat ≠ (i - 1).toNat := by omega
      dsimp only
      rwa [Function.update_of_ne hother]

@[simp] theorem run_monitor_n (d : DiagModel) (evs : List MonitorEv) :
    (run DiagModel.monitor d evs).n = d.n := by
  induction evs generalizing d with
  | nil => rfl
  | cons ev evs ih =>
      rw [run_cons, ih]
      cases ev with
      | add i e => exact ecmDiagAddEmcy_n d i e
      | ingest raw => exact ecmDiagIngest_n d raw

/-- The books of a slave after every run of the monitor. -/
theorem DiagSlave.Logged.run {d : DiagModel} {slave : Int} (hlow : 1 ≤ slave)
    (hhigh : slave ≤ d.n) (h : (d.s (slave - 1).toNat).Logged []) (evs : List MonitorEv) :
    ((run DiagModel.monitor d evs).s (slave - 1).toNat).Logged (added slave evs) := by
  induction evs using List.reverseRecOn with
  | nil => exact h
  | append_singleton evs ev ih =>
      unfold added at ih ⊢
      rw [filterMap_concat, run_append, run_cons, run_nil]
      cases ev with
      | add i e => exact ih.add hlow (by rwa [run_monitor_n]) i e
      | ingest raw =>
          rw [show MonitorEv.added slave (.ingest raw) = none from rfl, Option.toList_none,
            List.append_nil]
          exact ih.ingest raw

/-! ## What is read back -/

/-- The messages of a slave whose books are right. -/
theorem DiagSlave.Logged.emcy {s : DiagSlave} {l : List Emcy} (h : s.Logged l) {k : Nat}
    (hk : k < emcyKeep) :
    ecmDiagEmcy s k = if k < l.length % 2 ^ 64 then l.reverse[k]? else none := by
  unfold ecmDiagEmcy
  rw [h.count]
  split
  · rename_i hnone
    rw [if_neg]
    rcases hnone with hfar | hcount
    · exact absurd hk (Nat.not_lt.2 hfar)
    · exact Nat.not_lt.2 hcount
  · rename_i hsome
    have hcount : k < l.length % 2 ^ 64 := by omega
    rw [if_pos hcount, h.ring.back k hk (Nat.lt_of_lt_of_le hcount (Nat.mod_le _ _))]
    rfl

/-- `ecm_diag_emcy` returns the `k`-th newest message of a slave for `k` below the size of
the ring and below the 64-bit count of its messages, and nothing for larger `k`. -/
theorem emcy_history (n : Nat) (expectedState : UInt16) (evs : List MonitorEv) (slave : Int)
    (hlow : 1 ≤ slave) (hhigh : slave ≤ (ecmDiagInit n expectedState).n) (k : Nat) :
    ecmDiagEmcyOf (run DiagModel.monitor (ecmDiagInit n expectedState) evs) slave k =
      if k < min ((added slave evs).length % 2 ^ 64) emcyKeep then
        (added slave evs).reverse[k]?
      else none := by
  have hlogged := DiagSlave.Logged.run hlow hhigh logged_unread evs
  unfold ecmDiagEmcyOf
  rw [run_monitor_n]
  by_cases hk : k < emcyKeep
  · rw [if_neg (by omega), Int.toNat_natCast, hlogged.emcy hk]
    simp only [Nat.lt_min, hk, and_true]
  · rw [if_pos (by omega), if_neg fun h => hk (Nat.lt_min.1 h).2]

/-- The same message `m` times for the first slave. -/
def repeated (m : Nat) (e : Emcy) : List MonitorEv := List.replicate m (.add 1 e)

theorem added_repeated (m : Nat) (e : Emcy) : added 1 (repeated m e) = List.replicate m e := by
  unfold added repeated
  induction m with
  | zero => rfl
  | succ m ih => rw [List.replicate_succ, List.replicate_succ, ← ih]; rfl

/-- A message of the slave `1` with the code `0x5000`. -/
def hardwareError : Emcy :=
  { tNs := 1, tick := 1, code := 0x5000, reg := 1, data := fun _ => 0 }

/-- Six messages for slave `1`: the ring has gone round, and the fourth newest one is the
third one. -/
theorem emcy_history_six :
    (ecmDiagEmcyOf
      (run DiagModel.monitor (ecmDiagInit 1 0)
        ((List.range 6).map fun i => .add 1 { hardwareError with tick := i })) 1 3).map
          (·.tick) = some 2 := by
  rw [show (3 : Int) = (3 : Nat) from rfl, emcy_history 1 0 _ 1 (by decide) (by decide) 3]
  decide

/-- After `2 ^ 64` messages the count is zero again, and none of them is returned. -/
theorem wrapped_count_hides_messages :
    (added 1 (repeated (2 ^ 64) hardwareError)).length = 2 ^ 64 ∧
      (added 1 (repeated (2 ^ 64) hardwareError)).reverse[0]? = some hardwareError ∧
      ecmDiagEmcyOf
        (run DiagModel.monitor (ecmDiagInit 1 0) (repeated (2 ^ 64) hardwareError)) 1 0 =
          none := by
  have hlogged := @DiagSlave.Logged.run (ecmDiagInit 1 0) 1 (by decide) (by decide) logged_unread
    (repeated (2 ^ 64) hardwareError)
  rw [added_repeated] at hlogged ⊢
  refine ⟨List.length_replicate, ?_, ?_⟩
  · rw [List.reverse_replicate, List.getElem?_replicate, if_pos (by decide)]
  · have hemcy := hlogged.emcy (k := 0) (by decide)
    rw [List.length_replicate, if_neg (by decide)] at hemcy
    unfold ecmDiagEmcyOf
    rw [run_monitor_n, if_neg (by decide)]
    exact hemcy

end EcMaster.Diag
