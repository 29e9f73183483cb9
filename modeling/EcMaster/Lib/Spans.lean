import EcMaster.Lib.CText

/-!
# Reading a text from front to back

A scanner keeps a position in a text of `len` bytes and looks at the byte
there.  A grammar is about byte strings.  This module relates the two:
`remaining s len i` is what is left of the text at position `i`, and
`Spans s len i j v` says that a scanner that went from `i` to `j` has read
exactly `v`.

Spans compose (`Spans.trans`), a byte that is there spans itself
(`spans_byte`), and the loop `scan` spans the longest run of bytes with its
property (`spans_scan`).  In the other direction a text that is known to be
in front of the scanner is a span (`Spans.of_remaining`).

Two images that agree on the first `len` bytes leave the same text at every
position (`remaining_congr`).
-/

namespace EcMaster.CText

open EcMaster.ByteImage

variable {s : Image} {len i j k : Nat} {v w r : Text}

/-- What is left of the text at position `i`. -/
def remaining (s : Image) (len i : Nat) : Text := slice s i (len - i)

@[simp] theorem length_remaining (s : Image) (len i : Nat) :
    (remaining s len i).length = len - i := by
  simp [remaining]

theorem slice_succ (s : Image) (i n : Nat) : slice s i (n + 1) = s i :: slice s (i + 1) n := by
  unfold slice
  rw [List.range_succ_eq_map, List.map_cons, List.map_map]
  congr 1
  apply List.map_congr_left
  intro k _
  simp only [Function.comp_apply, Nat.succ_eq_add_one]
  congr 1
  omega

theorem remaining_of_lt (h : i < len) :
    remaining s len i = s i :: remaining s len (i + 1) := by
  unfold remaining
  rw [show len - i = (len - (i + 1)) + 1 by omega]
  exact slice_succ s i _

theorem remaining_of_le (h : len ≤ i) : remaining s len i = [] := by
  apply List.eq_nil_of_length_eq_zero
  rw [length_remaining]
  omega

/-- A byte in front of the scanner is inside the text, and it is the byte
that the scanner sees. -/
theorem of_remaining_cons {c : UInt8} (h : remaining s len i = c :: r) :
    i < len ∧ s i = c ∧ remaining s len (i + 1) = r := by
  have hi : i < len := by
    by_contra hge
    rw [remaining_of_le (Nat.le_of_not_lt hge)] at h
    simp at h
  rw [remaining_of_lt hi] at h
  injection h with hc hr
  exact ⟨hi, hc, hr⟩

theorem remaining_eq_nil : remaining s len i = [] ↔ len ≤ i := by
  constructor
  · intro h
    have hlen := congrArg List.length h
    rw [length_remaining, List.length_nil] at hlen
    omega
  · exact remaining_of_le

theorem remaining_add (s : Image) (len i k : Nat) :
    remaining s len (i + k) = (remaining s len i).drop k := by
  induction k generalizing i with
  | zero => rfl
  | succ k ih =>
      rw [show i + (k + 1) = (i + 1) + k by omega, ih (i + 1)]
      by_cases hi : i < len
      · rw [remaining_of_lt hi, List.drop_succ_cons]
      · rw [remaining_of_le (Nat.le_of_not_lt hi), remaining_of_le (by omega)]
        simp

/-- The bytes from `i` on, when they are inside the text. -/
theorem slice_eq_take (h : i + k ≤ len) : slice s i k = (remaining s len i).take k := by
  unfold remaining slice
  rw [← List.map_take, List.take_range, Nat.min_eq_left (by omega)]

/-- Images that agree on the text leave the same text everywhere. -/
theorem remaining_congr {s' : Image} (hs : ∀ i, i < len → s' i = s i) (i : Nat) :
    remaining s' len i = remaining s len i := by
  unfold remaining slice
  apply List.map_congr_left
  intro k hk
  have hlt := List.mem_range.mp hk
  exact hs _ (by omega)

/-! ## Spans -/

/-- A scanner that went from `i` to `j` has read `v`. -/
structure Spans (s : Image) (len i j : Nat) (v : Text) : Prop where
  stop : j = i + v.length
  text : remaining s len i = v ++ remaining s len j

theorem Spans.refl (s : Image) (len i : Nat) : Spans s len i i [] := ⟨rfl, rfl⟩

theorem Spans.trans (h : Spans s len i j v) (h' : Spans s len j k w) :
    Spans s len i k (v ++ w) := by
  constructor
  · rw [h'.stop, h.stop, List.length_append]
    omega
  · rw [h.text, h'.text, List.append_assoc]

/-- A scanner inside the text stays inside. -/
theorem Spans.le (h : Spans s len i j v) (hi : i ≤ len) : j ≤ len := by
  have hlen := congrArg List.length h.text
  rw [List.length_append, length_remaining, length_remaining] at hlen
  have := h.stop
  omega

/-- The length of a span is at most what was left. -/
theorem Spans.length_le (h : Spans s len i j v) : v.length ≤ len - i := by
  have hlen := congrArg List.length h.text
  rw [List.length_append, length_remaining] at hlen
  omega

theorem spans_byte (h : i < len) : Spans s len i (i + 1) [s i] :=
  ⟨rfl, remaining_of_lt h⟩

/-- A text in front of the scanner is a span, and what follows it remains. -/
theorem Spans.of_remaining (h : remaining s len i = v ++ r) :
    Spans s len i (i + v.length) v ∧ remaining s len (i + v.length) = r := by
  have hrest : remaining s len (i + v.length) = r := by
    rw [remaining_add, h, List.drop_left]
  exact ⟨⟨rfl, by rw [hrest, h]⟩, hrest⟩

/-- After a span, what was behind the text that it read remains. -/
theorem Spans.remaining_eq (h : Spans s len i j v) (ht : remaining s len i = v ++ r) :
    remaining s len j = r := by
  rw [h.text] at ht
  exact List.append_cancel_left ht

theorem spans_slice (h : i + k ≤ len) : Spans s len i (i + k) (slice s i k) := by
  refine ⟨by rw [length_slice], ?_⟩
  rw [slice_eq_take h, remaining_add, List.take_append_drop]

/-- The bytes of a span. -/
theorem Spans.slice_eq {i j : Nat} (h : Spans s len i j v) : slice s i (j - i) = v := by
  have hj : j - i = v.length := by
    rw [h.stop]
    omega
  rw [hj]
  cases v with
  | nil => rfl
  | cons c v =>
      obtain ⟨hi, -, -⟩ := of_remaining_cons h.text
      have hlen := h.length_le
      rw [slice_eq_take (show i + (c :: v).length ≤ len by omega), h.text, List.take_left]

/-! ## The loop `scan` -/

theorem scan_eq (p : UInt8 → Bool) {fuel : Nat} (h : len ≤ i + fuel) :
    scan p s len fuel i = i + ((remaining s len i).takeWhile p).length := by
  induction fuel generalizing i with
  | zero =>
      rw [remaining_of_le (by omega)]
      rfl
  | succ fuel ih =>
      unfold scan
      by_cases hi : i < len
      · rw [remaining_of_lt hi]
        cases hp : p (s i) with
        | true =>
            rw [if_pos (by simp [hi]), ih (by omega), List.takeWhile_cons_of_pos hp,
              List.length_cons]
            omega
        | false =>
            rw [if_neg (by simp), List.takeWhile_cons_of_neg (by simp [hp])]
            rfl
      · rw [if_neg (by simp [hi]), remaining_of_le (Nat.le_of_not_lt hi)]
        rfl

/-- The loop reads the longest run of bytes with its property. -/
theorem spans_scan (p : UInt8 → Bool) (s : Image) (len i : Nat) :
    Spans s len i (scan p s len len i) ((remaining s len i).takeWhile p) := by
  rw [scan_eq p (by omega)]
  exact (Spans.of_remaining List.takeWhile_append_dropWhile.symm).1

/-- A text that does not go on with a byte of the kind `p`. -/
def NotNext (p : UInt8 → Bool) (r : Text) : Prop := ∀ c t, r = c :: t → p c = false

theorem notNext_nil (p : UInt8 → Bool) : NotNext p [] := fun _ _ h => nomatch h

theorem notNext_cons {p : UInt8 → Bool} {c : UInt8} (r : Text) (h : p c = false) :
    NotNext p (c :: r) := by
  intro c' t hct
  injection hct with hc _
  rw [← hc]
  exact h

theorem NotNext.mono {p q : UInt8 → Bool} (h : NotNext p r)
    (hpq : ∀ c, p c = false → q c = false) : NotNext q r :=
  fun c t hct => hpq c (h c t hct)

/-- The look at the next byte, where the text does not go on with its
kind. -/
theorem NotNext.test {p : UInt8 → Bool} (h : NotNext p (remaining s len i)) :
    ¬ (decide (i < len) && p (s i)) = true := by
  intro htest
  rw [Bool.and_eq_true, decide_eq_true_eq] at htest
  have hfalse := h _ _ (remaining_of_lt htest.1)
  rw [hfalse] at htest
  exact absurd htest.2 (by decide)

theorem takeWhile_eq_of_notNext {p : UInt8 → Bool} (hv : ∀ c ∈ v, p c = true)
    (hr : NotNext p r) : (v ++ r).takeWhile p = v := by
  rw [List.takeWhile_append_of_pos hv]
  cases r with
  | nil => simp
  | cons c t => rw [List.takeWhile_cons_of_neg (by simp [hr c t rfl]), List.append_nil]

/-- The loop stops behind a run of bytes of its kind. -/
theorem scan_run {p : UInt8 → Bool} (h : remaining s len i = v ++ r)
    (hv : ∀ c ∈ v, p c = true) (hr : NotNext p r) : scan p s len len i = i + v.length := by
  rw [scan_eq p (by omega), h, takeWhile_eq_of_notNext hv hr]

/-- The loop does not stop in front of a byte of its kind. -/
theorem notNext_scan (p : UInt8 → Bool) (s : Image) (len i : Nat) :
    NotNext p (remaining s len (scan p s len len i)) := by
  intro c t hct
  have hdrop : remaining s len (scan p s len len i) = (remaining s len i).dropWhile p :=
    (spans_scan p s len i).remaining_eq List.takeWhile_append_dropWhile.symm
  rw [hdrop] at hct
  have hhead := List.head?_dropWhile_not p (remaining s len i)
  rw [hct] at hhead
  simpa using hhead

end EcMaster.CText
