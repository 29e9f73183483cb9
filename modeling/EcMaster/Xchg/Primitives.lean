import EcMaster.Lib.Spsc

/-!
# The exchange primitives between the application and the RT thread

`libecmaster/xchg/ecm_xchg.c` has two: a ring for what the application sends
to the RT thread, and a record for what the RT thread publishes.

## The ring

`ecm_xring_t` is an array of at most
`ECM_XRING_CAP` elements, a mask, and two `size_t` indices that only ever
count up and wrap at `2 ^ 64`.  The producer writes `head`, the consumer
writes `tail`, and the number of unread elements is `head - tail` in
`size_t` arithmetic.

The model keeps the array and both indices.  `toList` is the unread content,
oldest first, and the lemmas below say what each operation does to it:

* `toList_ecmXringPush`: a push appends its element, or changes nothing when
  the ring is full;
* `ecmXringPeek_eq_head?`: a peek shows the oldest element;
* `ecmXringPop_spec`: a pop removes it.

`XRing.WF` is what `ecm_xring_init` establishes and every operation keeps.
It is the only place where the power-of-two capacity is used: the array
index `i & mask` then agrees with `i % capacity`, also across the wrap of
the indices.

## The record

`ecm_xst_t` is a sequence number, a tick and eight words.  `ecmXstWrite` is
the effect of a whole write; the sequence number goes up by two, so between two
writes it is even and a read is whole.
-/

namespace EcMaster.Xchg

/-- The range of a `size_t` index. -/
def sizeMod : Nat := 2 ^ 64

/-- `ECM_XRING_CAP`. -/
def xringCap : Nat := 512

/-- `ECM_XCHG_CMD_CAP`. -/
def xchgCmdCap : Nat := 256

/-- `ecm_xring_t`, generic in its 32-byte element. -/
structure XRing (α : Type) where
  buf : Nat → α
  mask : Nat
  head : Nat
  tail : Nat
  fullDrops : Nat

namespace XRing

variable {α : Type}

/-- `head - tail` in `size_t` arithmetic: the number of unread elements. -/
def count (r : XRing α) : Nat :=
  if r.tail ≤ r.head then r.head - r.tail else r.head + sizeMod - r.tail

/-- The unread elements, oldest first. -/
def toList (r : XRing α) : List α :=
  (List.range r.count).map fun i => r.buf ((r.tail + i) &&& r.mask)

/-- What `ecm_xring_init` establishes and every operation keeps. -/
structure WF (r : XRing α) : Prop where
  cap_pow : ∃ e, e ≤ 9 ∧ r.mask = 2 ^ e - 1
  head_lt : r.head < sizeMod
  tail_lt : r.tail < sizeMod
  count_le : r.count ≤ r.mask + 1

end XRing

variable {α : Type}

/-- `ecm_xring_init`: a capacity that is not a power of two up to
`ECM_XRING_CAP` is replaced by `ECM_XRING_CAP`. -/
def ecmXringInit (zero : α) (cap : Nat) : XRing α :=
  let cap := if cap = 0 ∨ cap > xringCap ∨ cap &&& (cap - 1) ≠ 0 then xringCap else cap
  { buf := fun _ => zero, mask := cap - 1, head := 0, tail := 0, fullDrops := 0 }

/-- `ecm_xring_push`: the ring after the call, and whether the element was
accepted. -/
def ecmXringPush (r : XRing α) (e : α) : XRing α × Bool :=
  if r.count > r.mask then ({ r with fullDrops := r.fullDrops + 1 }, false)
  else
    ({ r with
        buf := Function.update r.buf (r.head &&& r.mask) e
        head := (r.head + 1) % sizeMod }, true)

/-- `ecm_xring_peek`. -/
def ecmXringPeek (r : XRing α) : Option α :=
  if r.tail = r.head then none else some (r.buf (r.tail &&& r.mask))

/-- `ecm_xring_pop`. -/
def ecmXringPop (r : XRing α) : XRing α :=
  { r with tail := (r.tail + 1) % sizeMod }

namespace XRing

/-! ## Index arithmetic -/

/-- The number of unread elements as a remainder. -/
theorem count_eq {r : XRing α} (hhead : r.head < sizeMod) (htail : r.tail < sizeMod) :
    r.count = (r.head + sizeMod - r.tail) % sizeMod := by
  unfold count sizeMod at *
  split <;> omega

/-- With a power-of-two capacity the array index is a remainder. -/
theorem WF.and_mask {r : XRing α} (h : r.WF) (i : Nat) :
    i &&& r.mask = i % (r.mask + 1) := by
  obtain ⟨e, _, hmask⟩ := h.cap_pow
  rw [hmask, Nat.and_two_pow_sub_one_eq_mod, Nat.sub_add_cancel (Nat.one_le_two_pow)]

theorem WF.mask_succ_dvd {r : XRing α} (h : r.WF) : (r.mask + 1) ∣ sizeMod := by
  obtain ⟨e, he, hmask⟩ := h.cap_pow
  rw [hmask, Nat.sub_add_cancel (Nat.one_le_two_pow)]
  exact Nat.pow_dvd_pow 2 (by omega)

theorem WF.mask_lt {r : XRing α} (h : r.WF) : r.mask + 1 ≤ 512 := by
  obtain ⟨e, he, hmask⟩ := h.cap_pow
  rw [hmask, Nat.sub_add_cancel (Nat.one_le_two_pow)]
  exact Nat.pow_le_pow_right (n := 2) (by omega) he

/-- The wrap of an index does not move its array slot. -/
theorem WF.mod_and_mask {r : XRing α} (h : r.WF) (i : Nat) :
    (i % sizeMod) &&& r.mask = i &&& r.mask := by
  rw [h.and_mask, h.and_mask, Nat.mod_mod_of_dvd _ h.mask_succ_dvd]

/-- `head` is `count` slots after `tail`. -/
theorem WF.head_eq {r : XRing α} (h : r.WF) :
    r.head = (r.tail + r.count) % sizeMod := by
  have hh := h.head_lt
  have ht := h.tail_lt
  rw [count_eq hh ht]
  unfold sizeMod at *
  omega

theorem count_eq_zero_iff {r : XRing α} (h : r.WF) :
    r.count = 0 ↔ r.tail = r.head := by
  have hh := h.head_lt
  have ht := h.tail_lt
  rw [count_eq hh ht]
  unfold sizeMod at *
  omega

/-! ## What the operations do to the unread content -/

/-- A fresh ring is well formed and empty. -/
theorem wf_ecmXringInit (zero : α) {cap : Nat} (hcap : cap = xringCap ∨ cap = xchgCmdCap) :
    (ecmXringInit zero cap).WF := by
  have hmask : ∃ e, e ≤ 9 ∧ (ecmXringInit zero cap).mask = 2 ^ e - 1 := by
    rcases hcap with rfl | rfl
    · exact ⟨9, by omega, rfl⟩
    · exact ⟨8, by omega, rfl⟩
  have hzero : 0 < sizeMod := by decide
  exact ⟨hmask, hzero, hzero, by simp [count, ecmXringInit]⟩

@[simp] theorem toList_ecmXringInit (zero : α) (cap : Nat) :
    (ecmXringInit zero cap).toList = [] := by
  simp [toList, count, ecmXringInit]

/-- A peek shows the oldest unread element. -/
theorem ecmXringPeek_eq_head? {r : XRing α} (h : r.WF) :
    ecmXringPeek r = r.toList.head? := by
  unfold ecmXringPeek
  by_cases heq : r.tail = r.head
  · have hzero := (count_eq_zero_iff h).2 heq
    simp [heq, toList, hzero]
  · have hpos : 0 < r.count := Nat.pos_of_ne_zero fun hz => heq ((count_eq_zero_iff h).1 hz)
    obtain ⟨n, hn⟩ : ∃ n, r.count = n + 1 := ⟨r.count - 1, by omega⟩
    rw [if_neg heq, toList, hn, List.range_succ_eq_map]
    simp

/-- The ring after a push, its content and its well-formedness. -/
theorem ecmXringPush_spec {r : XRing α} (h : r.WF) (e : α) :
    (ecmXringPush r e).1.WF ∧
      (ecmXringPush r e).1.toList =
        if (ecmXringPush r e).2 then r.toList ++ [e] else r.toList := by
  unfold ecmXringPush
  by_cases hfull : r.count > r.mask
  · simp only [hfull, if_true]
    exact ⟨⟨h.cap_pow, h.head_lt, h.tail_lt, h.count_le⟩, rfl⟩
  · simp only [hfull, if_false, if_true]
    have hmask := h.mask_lt
    have hhead := h.head_lt
    have htail := h.tail_lt
    set r' : XRing α :=
      { r with
        buf := Function.update r.buf (r.head &&& r.mask) e
        head := (r.head + 1) % sizeMod } with hr'
    have hcount : r'.count = r.count + 1 := by
      have hle : r.count ≤ r.mask := by omega
      have hhead' : r'.head < sizeMod := Nat.mod_lt _ (by decide)
      rw [count_eq hhead htail] at hle ⊢
      rw [count_eq hhead' htail]
      simp only [hr']
      unfold sizeMod at *
      omega
    refine ⟨⟨h.cap_pow, Nat.mod_lt _ (by decide), htail, by rw [hcount]; simp [hr']; omega⟩, ?_⟩
    rw [toList, hcount, List.range_succ, List.map_append]
    congr 1
    · -- the old slots are not the one that was written
      apply List.map_congr_left
      intro i hi
      have hi : i < r.count := List.mem_range.1 hi
      have hslot : (r.tail + i) &&& r.mask ≠ r.head &&& r.mask := by
        rw [h.head_eq, h.mod_and_mask, h.and_mask, h.and_mask]
        exact Spsc.slot_ne (by omega) (by omega)
      simp only [hr', Function.update_of_ne hslot]
    · have hslot : (r.tail + r.count) &&& r.mask = r.head &&& r.mask := by
        rw [h.head_eq, h.mod_and_mask]
      simp only [hr', List.map_cons, List.map_nil, hslot, Function.update_self]

theorem wf_ecmXringPush {r : XRing α} (h : r.WF) (e : α) : (ecmXringPush r e).1.WF :=
  (ecmXringPush_spec h e).1

/-- A push appends its element, or changes nothing when the ring is full. -/
theorem toList_ecmXringPush {r : XRing α} (h : r.WF) (e : α) :
    (ecmXringPush r e).1.toList =
      if (ecmXringPush r e).2 then r.toList ++ [e] else r.toList :=
  (ecmXringPush_spec h e).2

/-- A pop after a successful peek keeps the ring well formed and removes the
oldest unread element. -/
theorem ecmXringPop_spec {r : XRing α} (h : r.WF) {e : α}
    (hpeek : ecmXringPeek r = some e) :
    (ecmXringPop r).WF ∧ r.toList = e :: (ecmXringPop r).toList := by
  have hne : r.tail ≠ r.head := by
    intro heq
    simp [ecmXringPeek, heq] at hpeek
  have he : r.buf (r.tail &&& r.mask) = e := by
    simpa [ecmXringPeek, hne] using hpeek
  have hhead := h.head_lt
  have htail := h.tail_lt
  have hle := h.count_le
  have htail' : (ecmXringPop r).tail < sizeMod := Nat.mod_lt _ (by decide)
  have hcount : r.count = (ecmXringPop r).count + 1 := by
    rw [count_eq hhead htail, count_eq (r := ecmXringPop r) hhead htail']
    simp only [ecmXringPop]
    unfold sizeMod at *
    omega
  refine ⟨⟨h.cap_pow, hhead, Nat.mod_lt _ (by decide), ?_⟩, ?_⟩
  · have hmask : (ecmXringPop r).mask = r.mask := rfl
    rw [hmask]
    omega
  · rw [toList, hcount, List.range_succ_eq_map, List.map_cons, List.map_map]
    congr 1
    apply List.map_congr_left
    intro i _
    show r.buf ((r.tail + (i + 1)) &&& r.mask) =
      r.buf (((r.tail + 1) % sizeMod + i) &&& r.mask)
    congr 1
    rw [h.and_mask, h.and_mask, Nat.add_mod ((r.tail + 1) % sizeMod),
      Nat.mod_mod_of_dvd _ h.mask_succ_dvd, ← Nat.add_mod]
    congr 1
    omega

end XRing

/-! ## The published record -/

/-- `ECM_XST_WORDS`. -/
def xstWords : Nat := 8

/-- `ecm_xst_t`. -/
structure Xst where
  seq : Nat
  tick : Nat
  w : List Nat

/-- `ecm_xst_write`, as a whole. -/
def ecmXstWrite (s : Xst) (tick : Nat) (w : List Nat) : Xst :=
  { seq := (s.seq + 2) % 2 ^ 32, tick := tick, w := w.take xstWords ++ s.w.drop w.length }

/-- One try of `ecm_xst_read`, with no write going on: the tick and the first `n`
words, unless the writer has stopped half way. -/
def ecmXstRead (s : Xst) (n : Nat) : Option (Nat × List Nat) :=
  if s.seq % 2 = 1 then none else some (s.tick, s.w.take n)

theorem ecmXstWrite_even {s : Xst} (hs : s.seq % 2 = 0) (tick : Nat) (w : List Nat) :
    (ecmXstWrite s tick w).seq % 2 = 0 := by
  simp only [ecmXstWrite]
  omega

end EcMaster.Xchg
