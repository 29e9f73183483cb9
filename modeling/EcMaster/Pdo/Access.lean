import EcMaster.Lib.ByteImage

/-!
# Access to bound process data

`ecm_pdo_get` and `ecm_pdo_set` of `libecmaster/pdo/ecm_pdo.c` read and write
the bits of one bound entry of a group's IOmap.  An entry need not be byte
aligned, so both functions walk the image one byte at a time and take the
bits of that byte that belong to the entry.

The loops are written with their own counter as fuel: every turn takes at
least one bit, so `bits` turns are enough.  `bitAt_ecmPdoSet` and
`testBit_ecmPdoGet` are the two facts that every later proof uses; no later
module unfolds a loop.
-/

namespace EcMaster.Pdo

open EcMaster.ByteImage

/-- `ecm_pdo_handle_t`: where one bound entry lies in its group's IOmap.  A
handle with `bits = 0` is absent. -/
structure Handle where
  bit : Nat
  bits : Nat
deriving DecidableEq, Repr

/-- The handle of an entry that is not in the process data. -/
def Handle.absent : Handle := { bit := 0, bits := 0 }

/-- Whether the entry is bound at all (`h.bits` as a C condition). -/
def Handle.mapped (h : Handle) : Bool := h.bits != 0

/-- Image bit `i` belongs to the entry. -/
def Handle.Covers (h : Handle) (i : Nat) : Prop :=
  h.bit ≤ i ∧ i < h.bit + h.bits

instance (h : Handle) (i : Nat) : Decidable (h.Covers i) :=
  inferInstanceAs (Decidable (_ ∧ _))

/-- Two entries share no bit. -/
def Handle.Disjoint (h g : Handle) : Prop :=
  ∀ i, h.Covers i → ¬ g.Covers i

theorem Handle.disjoint_iff (h g : Handle) :
    h.Disjoint g ↔
      h.bits = 0 ∨ g.bits = 0 ∨ h.bit + h.bits ≤ g.bit ∨ g.bit + g.bits ≤ h.bit := by
  constructor
  · intro hd
    by_contra hno
    -- the first bit of the later entry would be shared
    have hshare := hd (max h.bit g.bit)
    unfold Handle.Covers at hshare
    omega
  · intro hcase i hi hg
    unfold Handle.Covers at hi hg
    omega

instance (h g : Handle) : Decidable (h.Disjoint g) :=
  decidable_of_iff _ (h.disjoint_iff g).symm

/-- The loop of `ecm_pdo_get`: `k` bits are already in `v`. -/
def getLoop (io : Image) (bits : Nat) : Nat → Nat → Nat → Nat → Nat
  | 0, _, _, v => v
  | fuel + 1, bit, k, v =>
      if k < bits then
        let sh := bit % 8
        let take := min (8 - sh) (bits - k)
        let part := ((io (bit / 8)).toNat >>> sh) &&& (2 ^ take - 1)
        getLoop io bits fuel (bit + take) (k + take) (v ||| part <<< k)
      else v

/-- `ecm_pdo_get`. -/
def ecmPdoGet (h : Handle) (io : Image) : Nat :=
  getLoop io h.bits h.bits h.bit 0 0

/-- The loop of `ecm_pdo_set`: the low `k` bits of `v` are already stored. -/
def setLoop (bits v : Nat) : Nat → Nat → Nat → Image → Image
  | 0, _, _, io => io
  | fuel + 1, bit, k, io =>
      if k < bits then
        let sh := bit % 8
        let take := min (8 - sh) (bits - k)
        setLoop bits v fuel (bit + take) (k + take)
          (putBits io (bit / 8) sh take (v >>> k))
      else io

/-- `ecm_pdo_set`. -/
def ecmPdoSet (h : Handle) (io : Image) (v : Nat) : Image :=
  setLoop h.bits v h.bits h.bit 0 io

/-! ## What the loops compute -/

private theorem testBit_getLoop (io : Image) (bits : Nat) :
    ∀ (fuel bit k v : Nat), bits ≤ k + fuel → v < 2 ^ k → ∀ j,
      (getLoop io bits fuel bit k v).testBit j =
        if k ≤ j ∧ j < bits then bitAt io (bit + (j - k)) else v.testBit j := by
  intro fuel
  induction fuel with
  | zero =>
    intro bit k v hfuel _ j
    rw [getLoop, if_neg (by omega)]
  | succ fuel ih =>
    intro bit k v hfuel hv j
    rw [getLoop]
    split
    · rename_i hk
      have hmod : bit % 8 < 8 := Nat.mod_lt _ (by omega)
      dsimp only
      -- one turn: `take` bits of one byte, at least one and never past the byte
      generalize htake : min (8 - bit % 8) (bits - k) = take
      have hpos : 0 < take := by omega
      have hfit : bit % 8 + take ≤ 8 := by omega
      have hpart : ((io (bit / 8)).toNat >>> (bit % 8) &&& (2 ^ take - 1)) <<< k
          < 2 ^ (k + take) := by
        rw [Nat.shiftLeft_eq, Nat.pow_add, Nat.mul_comm]
        apply Nat.mul_lt_mul_of_pos_left _ (Nat.two_pow_pos k)
        have hle := Nat.and_le_right (n := (io (bit / 8)).toNat >>> (bit % 8))
          (m := 2 ^ take - 1)
        have := Nat.two_pow_pos take
        omega
      have hv' : v < 2 ^ (k + take) :=
        lt_of_lt_of_le hv (Nat.pow_le_pow_right (by omega) (by omega))
      rw [ih _ _ _ (by omega) (Nat.or_lt_two_pow hv' hpart)]
      by_cases hj : k + take ≤ j ∧ j < bits
      · have hj' : k ≤ j ∧ j < bits := by omega
        rw [if_pos hj, if_pos hj']
        congr 1
        omega
      · rw [if_neg hj, Nat.testBit_or, Nat.testBit_shiftLeft, Nat.testBit_and,
          Nat.testBit_shiftRight, Nat.testBit_two_pow_sub_one]
        by_cases hin : k ≤ j ∧ j < bits
        · have hvj : v.testBit j = false :=
            Nat.testBit_lt_two_pow (lt_of_lt_of_le hv (Nat.pow_le_pow_right (by omega) hin.1))
          have hlt : j - k < take := by omega
          have hdiv : (bit + (j - k)) / 8 = bit / 8 := by omega
          have hrem : (bit + (j - k)) % 8 = bit % 8 + (j - k) := by omega
          simp [hin, hvj, hlt, bitAt, hdiv, hrem]
        · rw [if_neg hin]
          by_cases hkj : k ≤ j
          · have hge : ¬ j - k < take := by omega
            simp [hge]
          · simp [hkj]
    · rw [if_neg (by omega)]

/-- `ecm_pdo_get` reads the bits of the entry and nothing else. -/
theorem testBit_ecmPdoGet (h : Handle) (io : Image) (j : Nat) :
    (ecmPdoGet h io).testBit j =
      (decide (j < h.bits) && bitAt io (h.bit + j)) := by
  unfold ecmPdoGet
  rw [testBit_getLoop io h.bits h.bits h.bit 0 0 (by omega) (by simp) j]
  by_cases hj : j < h.bits <;> simp [hj]

private theorem bitAt_setLoop (bits v : Nat) :
    ∀ (fuel bit k : Nat) (io : Image), bits ≤ k + fuel → ∀ i,
      bitAt (setLoop bits v fuel bit k io) i =
        if bit ≤ i ∧ i < bit + (bits - k) then v.testBit (k + (i - bit))
        else bitAt io i := by
  intro fuel
  induction fuel with
  | zero =>
    intro bit k io hfuel i
    rw [setLoop, if_neg (by omega)]
  | succ fuel ih =>
    intro bit k io hfuel i
    rw [setLoop]
    split
    · rename_i hk
      have hmod : bit % 8 < 8 := Nat.mod_lt _ (by omega)
      dsimp only
      generalize htake : min (8 - bit % 8) (bits - k) = take
      have hpos : 0 < take := by omega
      have hfit : bit % 8 + take ≤ 8 := by omega
      have hbit : 8 * (bit / 8) + bit % 8 = bit := by omega
      rw [ih _ _ _ (by omega), bitAt_putBits io _ _ hfit, hbit]
      by_cases hhi : bit + take ≤ i ∧ i < bit + take + (bits - (k + take))
      · have hin : bit ≤ i ∧ i < bit + (bits - k) := by omega
        rw [if_pos hhi, if_pos hin]
        congr 1
        omega
      · rw [if_neg hhi]
        by_cases hlo : bit ≤ i ∧ i < bit + take
        · have hin : bit ≤ i ∧ i < bit + (bits - k) := by omega
          rw [if_pos hlo, if_pos hin, Nat.testBit_shiftRight]
        · have hin : ¬ (bit ≤ i ∧ i < bit + (bits - k)) := by omega
          rw [if_neg hlo, if_neg hin]
    · rw [if_neg (by omega)]

/-- `ecm_pdo_set` stores the value in the bits of the entry and leaves every
other bit of the image alone. -/
theorem bitAt_ecmPdoSet (h : Handle) (io : Image) (v i : Nat) :
    bitAt (ecmPdoSet h io v) i =
      if h.Covers i then v.testBit (i - h.bit) else bitAt io i := by
  unfold ecmPdoSet
  rw [bitAt_setLoop h.bits v h.bits h.bit 0 io (by omega) i,
    Nat.sub_zero, Nat.zero_add]
  by_cases hi : h.Covers i
  · rw [if_pos hi, if_pos (show _ ∧ _ from hi)]
  · rw [if_neg hi, if_neg (show ¬ (_ ∧ _) from hi)]

/-! ## The laws that the axis code relies on -/

/-- A read after a write of the same entry gives the value back, cut to the
width of the entry. -/
theorem ecmPdoGet_set_self (h : Handle) (io : Image) (v : Nat) :
    ecmPdoGet h (ecmPdoSet h io v) = v % 2 ^ h.bits := by
  apply Nat.eq_of_testBit_eq
  intro j
  rw [testBit_ecmPdoGet, bitAt_ecmPdoSet, Nat.testBit_mod_two_pow]
  by_cases hj : j < h.bits
  · have hcov : h.Covers (h.bit + j) := ⟨by omega, by omega⟩
    simp [hj, hcov]
  · simp [hj]

/-- A read is a function of the bits of its entry. -/
theorem ecmPdoGet_congr {h : Handle} {io io' : Image}
    (heq : ∀ i, h.Covers i → bitAt io i = bitAt io' i) :
    ecmPdoGet h io = ecmPdoGet h io' := by
  apply Nat.eq_of_testBit_eq
  intro j
  rw [testBit_ecmPdoGet, testBit_ecmPdoGet]
  by_cases hj : j < h.bits
  · rw [heq (h.bit + j) ⟨by omega, by omega⟩]
  · simp [hj]

/-- A write through a disjoint entry is not seen. -/
theorem ecmPdoGet_set_disjoint {h g : Handle} (hd : h.Disjoint g)
    (io : Image) (v : Nat) :
    ecmPdoGet h (ecmPdoSet g io v) = ecmPdoGet h io := by
  apply ecmPdoGet_congr
  intro i hi
  rw [bitAt_ecmPdoSet, if_neg (hd i hi)]

end EcMaster.Pdo
