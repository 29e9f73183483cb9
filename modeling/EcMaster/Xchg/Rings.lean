import EcMaster.Xchg.Primitives

/-!
# The rings between the threads

Four queues hand fixed-size elements from one thread to another:

* `ecm_xring_t` (`xchg/ecm_xchg.c`), from the application to the RT thread;
* `ecm_evring_t` (`policy/ecm_policy.c`), events of the RT thread;
* `ecm_cmdq_t` (same file), recovery commands to the RT thread;
* `ring_spsc_t` (`telemetry/ring_spsc.c`), samples of the RT thread.

They are four copies of one design with their own index types, full tests and
consumer operations.  Each copy is given here as its `Ring`, and the
interleavings are those of `Lib/Spsc`: every index load, every index store and
every word of an element copy is a step of its own.  `ecm_xring` copies its
elements word by word; the others assign a struct, and the number of pieces
that takes is left open.

Every queue is an exact bounded FIFO in every interleaving, and every call on it ends:
an element that was accepted is there for the consumer that asks for it.
`toList_toXRing` ties the steps to the ring of `Xchg/Primitives`.
-/

namespace EcMaster.Xchg

open EcMaster.Run EcMaster.Spsc

/-- `ecm_xring_push`, `ecm_xring_peek` and `ecm_xring_pop` on a ring that
`ecm_xring_init` made for `cap` elements. -/
def ecmXring (cap : Nat) : Ring :=
  let mask := (ecmXringInit () cap).mask
  { size := sizeMod
    mask := mask
    full := fun d => d > mask
    words := 4
    has := fun op => op = .peek ∨ op = .pop }

/-- The queues with a fixed length `len`: an array of `len` elements, indices of
`bits` bits, and `head - tail >= len` as the full test. -/
def fixedRing (bits len words : Nat) (has : Op → Bool) : Ring where
  size := 2 ^ bits
  mask := len - 1
  full := fun d => d ≥ len
  words := words
  has := has

/-- `ECM_EVRING_LEN`. -/
def evringLen : Nat := 256

/-- `ECM_CMDQ_LEN`. -/
def cmdqLen : Nat := 16

/-- `RING_CAPACITY`. -/
def ringCapacity : Nat := 4096

/-- `ecm_evring_push` and `ecm_evring_pop`; the indices are `atomic_uint`. -/
def ecmEvring (words : Nat) : Ring :=
  fixedRing 32 evringLen words fun op => op = .take

/-- `ecm_cmdq_push`, `ecm_cmdq_peek` and `ecm_cmdq_drop_head`; the indices are
`atomic_uint`. -/
def ecmCmdq (words : Nat) : Ring :=
  fixedRing 32 cmdqLen words fun op => op = .peek ∨ op = .dropHead

/-- `ring_push` and `ring_pop`; the indices are `_Atomic size_t`. -/
def ringSpsc (words : Nat) : Ring :=
  fixedRing 64 ringCapacity words fun op => op = .take

/-- The four queues. -/
inductive Queue where
  | xring (cap : Nat)
  | evring (words : Nat)
  | cmdq (words : Nat)
  | ringSpsc (words : Nat)

def Queue.ring : Queue → Ring
  | .xring cap => ecmXring cap
  | .evring words => ecmEvring words
  | .cmdq words => ecmCmdq words
  | .ringSpsc words => Xchg.ringSpsc words

/-! ## The code of each queue is sound -/

/-- Of the capacities up to `ECM_XRING_CAP`, the test of `ecm_xring_init` passes
the powers of two. -/
theorem pow_of_and_pred : ∀ cap ≤ xringCap, cap ≠ 0 → cap &&& (cap - 1) = 0 →
    ∃ e ≤ 9, cap = 2 ^ e := by
  decide +kernel

/-- Whatever capacity is asked for, the ring gets a power of two up to
`ECM_XRING_CAP`. -/
theorem ecmXringInit_mask (cap : Nat) :
    ∃ e ≤ 9, (ecmXringInit () cap).mask = 2 ^ e - 1 := by
  simp only [ecmXringInit]
  by_cases hbad : cap = 0 ∨ cap > xringCap ∨ cap &&& (cap - 1) ≠ 0
  · rw [if_pos hbad]
    exact ⟨9, Nat.le_refl 9, rfl⟩
  · rw [if_neg hbad]
    simp only [not_or, not_not, Nat.not_lt] at hbad
    obtain ⟨e, he, hcap⟩ := pow_of_and_pred cap hbad.2.1 hbad.1 hbad.2.2
    exact ⟨e, he, congrArg (· - 1) hcap⟩

theorem sound_ecmXring (cap : Nat) : (ecmXring cap).Sound := by
  obtain ⟨e, he, hmask⟩ := ecmXringInit_mask cap
  have hcap : (ecmXring cap).mask + 1 = 2 ^ e := by
    show (ecmXringInit () cap).mask + 1 = 2 ^ e
    rw [hmask, Nat.sub_add_cancel Nat.one_le_two_pow]
  refine ⟨⟨e, hmask⟩, ?_, ?_, fun d => by simp [ecmXring]⟩
  · rw [hcap]
    exact Nat.pow_dvd_pow 2 (by omega)
  · rw [hcap]
    exact Nat.pow_lt_pow_right (by omega) (by omega)

theorem sound_fixedRing {bits e : Nat} (hbits : e < bits) (words : Nat) (has : Op → Bool) :
    (fixedRing bits (2 ^ e) words has).Sound := by
  have hpos : 1 ≤ 2 ^ e := Nat.one_le_two_pow
  have hcap : 2 ^ e - 1 + 1 = 2 ^ e := Nat.sub_add_cancel hpos
  refine ⟨⟨e, rfl⟩, ?_, ?_, fun d => ?_⟩
  · show 2 ^ e - 1 + 1 ∣ 2 ^ bits
    rw [hcap]
    exact Nat.pow_dvd_pow 2 (by omega)
  · show 2 ^ e - 1 + 1 < 2 ^ bits
    rw [hcap]
    exact Nat.pow_lt_pow_right (by omega) hbits
  · simp only [fixedRing, decide_eq_true_eq]
    omega

theorem Queue.sound (q : Queue) : q.ring.Sound := by
  cases q with
  | xring cap => exact sound_ecmXring cap
  | evring words => exact sound_fixedRing (e := 8) (by decide) words _
  | cmdq words => exact sound_fixedRing (e := 4) (by decide) words _
  | ringSpsc words => exact sound_fixedRing (e := 12) (by decide) words _

/-- In every interleaving, every queue gives its consumer exactly the accepted
elements, whole and in push order; it refuses a push only while it holds as many
elements as it has room for, and counts each refusal once.  Every call ends within its
own `words + 3` steps: a push is accepted if there is room when it loads `tail`, and a
consumer gets the oldest unread element if there is one when it loads `head`. -/
theorem rings_are_bounded_fifos {β : Type} (q : Queue) (zero : β) (es : List (Ev q.ring β)) :
    Along step (start q.ring zero) es Answers ∧ Serves (run step (start q.ring zero) es) :=
  ⟨answers q.sound zero es, serves q.sound zero es⟩

/-- An event of two words is pushed while a pop has begun, and is popped whole. -/
def popDuringPush : List (Ev (ecmEvring 2) Nat) :=
  [.produce ![7, 8], .consume .take, .produce ![7, 8], .produce ![7, 8], .produce ![7, 8],
    .produce ![7, 8], .consume .take, .consume .take, .consume .take, .consume .take]

theorem rings_are_bounded_fifos_popDuringPush :
    (run step (start (ecmEvring 2) 0) popDuringPush).removed.map (Option.map List.ofFn) =
        [some [7, 8]] ∧
      (run step (start (ecmEvring 2) 0) popDuringPush).unread = 0 ∧
      Along step (start (ecmEvring 2) 0) popDuringPush Answers ∧
      Serves (run step (start (ecmEvring 2) 0) popDuringPush) :=
  ⟨by decide, by decide, rings_are_bounded_fifos (.evring 2) 0 popDuringPush⟩

/-! ## The ring as one value -/

/-- The ring of a state as `Xchg/Primitives` has it, its refusals counted without a wrap. -/
def toXRing {cap : Nat} {β : Type} (s : State (ecmXring cap) β) :
    XRing ((ecmXring cap).Elem β) where
  buf := s.buf
  mask := (ecmXring cap).mask
  head := s.head
  tail := s.tail
  fullDrops := (s.pushes.filter fun p => !p.2).length

/-- In every interleaving, what is unread there was accepted and is not removed. -/
theorem toList_toXRing {cap : Nat} {β : Type} (zero : β) (es : List (Ev (ecmXring cap) β)) :
    let s := run step (start (ecmXring cap) zero) es
    (toXRing s).WF ∧ (toXRing s).toList = s.accepted.drop s.removed.length := by
  intro s
  have hs : Spsc.Inv s := inv_run (sound_ecmXring cap) zero es
  have hpos : 0 < sizeMod := by decide
  have hhead : s.head < sizeMod := hs.head_eq ▸ Nat.mod_lt _ hpos
  have htail : s.tail < sizeMod := hs.tail_eq ▸ Nat.mod_lt _ hpos
  have hcount : (toXRing s).count = s.accepted.length - s.removed.length := by
    have hsub := (sound_ecmXring cap).sub_eq hs.le hs.le_cap
    rw [← hs.head_eq, ← hs.tail_eq] at hsub
    exact (XRing.count_eq hhead htail).trans hsub
  have hwf : (toXRing s).WF := by
    refine ⟨ecmXringInit_mask cap, hhead, htail, ?_⟩
    rw [hcount]
    exact Nat.sub_le_iff_le_add'.2 hs.le_cap
  refine ⟨hwf, List.ext_getElem (by simp [XRing.toList, hcount]) fun i _ hi => ?_⟩
  have hslot : (s.tail + i) &&& (ecmXring cap).mask =
      (s.removed.length + i) % ((ecmXring cap).mask + 1) := by
    refine (hwf.and_mask _).trans ?_
    rw [hs.tail_eq]
    exact ((Nat.mod_modEq _ _).of_dvd (sound_ecmXring cap).dvd).add_right i
  simp only [XRing.toList, List.getElem_map, List.getElem_range, List.getElem_drop]
  refine (congrArg s.buf hslot).trans (hs.buf _ _ (Nat.le_add_right _ _) ?_)
  exact List.getElem?_eq_getElem _

end EcMaster.Xchg
