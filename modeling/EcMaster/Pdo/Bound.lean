import EcMaster.Pdo.Access

/-!
# Bound entries with the offsets of the source

`ecm_pdo_handle_t` has a 32-bit offset into the IOmap of its group, and the loops
of `ecm_pdo_get` and `ecm_pdo_set` add to it in 32 bits.  `PdoHandle` is the handle
as `ecm_pdo_bind` fills it, with the loops as they are in the source.

A bit offset is a number modulo `2 ^ 32`.  `within start i` is how far bit `i` is
behind `start`, and a handle covers the bits that are less than `bits` behind its
own offset.  In an image that 32-bit offsets can address in full, this is the range
`bit ..< bit + bits` (`covers_iff`) and the loops are those of `Pdo.Access`
(`ecmPdoGet_eq`, `ecmPdoSet_eq`).
-/

namespace EcMaster.Pdo

open EcMaster.ByteImage

/-- `ecm_pdo_handle_t`. -/
structure PdoHandle where
  slave : UInt16
  group : UInt8
  dir : UInt8
  bit : UInt32
  bits : UInt16
deriving DecidableEq, Repr

/-- How far bit `i` is behind `start`, in 32 bits. -/
def within (start i : Nat) : Nat := (i + 2 ^ 32 - start) % 2 ^ 32

/-- Bit `i` is one of the `count` bits from `start` on. -/
def InBits (start count i : Nat) : Prop := i < 2 ^ 32 ∧ within start i < count

instance (start count i : Nat) : Decidable (InBits start count i) :=
  inferInstanceAs (Decidable (_ ∧ _))

/-- The loop of `ecm_pdo_get`. -/
def getLoop32 (io : Image) (bits : Nat) : Nat → Nat → Nat → Nat → Nat
  | 0, _, _, v => v
  | fuel + 1, bit, k, v =>
      if k < bits then
        let sh := bit % 8
        let take := min (8 - sh) (bits - k)
        let part := ((io (bit / 8)).toNat >>> sh) &&& (2 ^ take - 1)
        getLoop32 io bits fuel ((bit + take) % 2 ^ 32) (k + take) (v ||| part <<< k)
      else v

/-- The loop of `ecm_pdo_set`. -/
def setLoop32 (bits v : Nat) : Nat → Nat → Nat → Image → Image
  | 0, _, _, io => io
  | fuel + 1, bit, k, io =>
      if k < bits then
        let sh := bit % 8
        let take := min (8 - sh) (bits - k)
        setLoop32 bits v fuel ((bit + take) % 2 ^ 32) (k + take)
          (putBits io (bit / 8) sh take (v >>> k))
      else io

namespace PdoHandle

/-- `ecm_pdo_get`. -/
def ecmPdoGet (h : PdoHandle) (io : Image) : Nat :=
  getLoop32 io h.bits.toNat h.bits.toNat h.bit.toNat 0 0

/-- `ecm_pdo_set`. -/
def ecmPdoSet (h : PdoHandle) (io : Image) (v : UInt64) : Image :=
  setLoop32 h.bits.toNat v.toNat h.bits.toNat h.bit.toNat 0 io

/-- Image bit `i` belongs to the entry. -/
def Covers (h : PdoHandle) (i : Nat) : Prop := InBits h.bit.toNat h.bits.toNat i

instance (h : PdoHandle) (i : Nat) : Decidable (h.Covers i) :=
  inferInstanceAs (Decidable (InBits _ _ _))

/-- Two entries share no bit. -/
def Disjoint (h g : PdoHandle) : Prop := ∀ i, h.Covers i → ¬ g.Covers i

/-- The handle in numbers. -/
def toHandle (h : PdoHandle) : Handle := { bit := h.bit.toNat, bits := h.bits.toNat }

end PdoHandle

/-! ## What the loops compute -/

/-- The reading loop goes around as if the image did. -/
private theorem getLoop32_eq (io : Image) (bits : Nat) :
    ∀ fuel bit k v, getLoop32 io bits fuel (bit % 2 ^ 32) k v =
      getLoop (fun i => io (i % 2 ^ 29)) bits fuel bit k v := by
  intro fuel
  induction fuel with
  | zero => intro bit k v; rfl
  | succ fuel ih =>
    intro bit k v
    rw [getLoop32, getLoop]
    have hsh : bit % 2 ^ 32 % 8 = bit % 8 := by omega
    have hbyte : bit % 2 ^ 32 / 8 = bit / 8 % 2 ^ 29 := by omega
    simp only [hsh, hbyte]
    generalize min (8 - bit % 8) (bits - k) = take
    have hnext : (bit % 2 ^ 32 + take) % 2 ^ 32 = (bit + take) % 2 ^ 32 := by omega
    rw [hnext, ih]

private theorem bitAt_setLoop32 (bits v : Nat) (hbits : bits ≤ 2 ^ 32) :
    ∀ fuel bit k (io : Image), bits ≤ k + fuel → bit < 2 ^ 32 → ∀ i,
      bitAt (setLoop32 bits v fuel bit k io) i =
        if InBits bit (bits - k) i then v.testBit (k + within bit i) else bitAt io i := by
  intro fuel
  induction fuel with
  | zero =>
    intro bit k io hfuel _ i
    rw [setLoop32, if_neg]
    unfold InBits
    omega
  | succ fuel ih =>
    intro bit k io hfuel hbit i
    rw [setLoop32]
    split
    · rename_i hk
      have hmod : bit % 8 < 8 := Nat.mod_lt _ (by omega)
      dsimp only
      generalize htake : min (8 - bit % 8) (bits - k) = take
      have hpos : 0 < take := by omega
      have hfit : bit % 8 + take ≤ 8 := by omega
      have hbyte : 8 * (bit / 8) + bit % 8 = bit := by omega
      rw [ih _ _ _ (by omega) (Nat.mod_lt _ (by decide)), bitAt_putBits io _ _ hfit, hbyte]
      have hcase :
          (InBits ((bit + take) % 2 ^ 32) (bits - (k + take)) i ∧ InBits bit (bits - k) i ∧
            k + take + within ((bit + take) % 2 ^ 32) i = k + within bit i) ∨
          (¬ InBits ((bit + take) % 2 ^ 32) (bits - (k + take)) i ∧ InBits bit (bits - k) i ∧
            (bit ≤ i ∧ i < bit + take) ∧ i - bit = within bit i) ∨
          (¬ InBits ((bit + take) % 2 ^ 32) (bits - (k + take)) i ∧ ¬ InBits bit (bits - k) i ∧
            ¬ (bit ≤ i ∧ i < bit + take)) := by
        unfold InBits within
        omega
      -- a later turn writes the bit, or this one, or none
      rcases hcase with ⟨hlater, hin, hat⟩ | ⟨hlater, hin, hnow, hat⟩ | ⟨hlater, hin, hnow⟩
      · rw [if_pos hlater, if_pos hin, hat]
      · rw [if_neg hlater, if_pos hin, if_pos hnow, Nat.testBit_shiftRight, hat]
      · rw [if_neg hlater, if_neg hin, if_neg hnow]
    · rw [if_neg]
      unfold InBits
      omega

namespace PdoHandle

variable {h g : PdoHandle}

/-- `ecm_pdo_get` reads the bits of the entry and nothing else. -/
theorem testBit_ecmPdoGet (h : PdoHandle) (io : Image) (j : Nat) :
    (h.ecmPdoGet io).testBit j =
      (decide (j < h.bits.toNat) && bitAt io ((h.bit.toNat + j) % 2 ^ 32)) := by
  have hbit : h.bit.toNat = h.bit.toNat % 2 ^ 32 := (Nat.mod_eq_of_lt h.bit.toNat_lt).symm
  unfold ecmPdoGet
  rw [hbit, getLoop32_eq]
  have hread := Pdo.testBit_ecmPdoGet h.toHandle (fun i => io (i % 2 ^ 29)) j
  have hat : bitAt (fun i => io (i % 2 ^ 29)) (h.bit.toNat + j) =
      bitAt io ((h.bit.toNat + j) % 2 ^ 32) := by
    unfold bitAt
    have hbyte : (h.bit.toNat + j) % 2 ^ 32 / 8 = (h.bit.toNat + j) / 8 % 2 ^ 29 := by omega
    have hsh : (h.bit.toNat + j) % 2 ^ 32 % 8 = (h.bit.toNat + j) % 8 := by omega
    rw [hbyte, hsh]
  rw [Nat.mod_eq_of_lt h.bit.toNat_lt, ← hat]
  exact hread

/-- `ecm_pdo_set` stores the value in the bits of the entry and leaves every other
bit of the image alone. -/
theorem bitAt_ecmPdoSet (h : PdoHandle) (io : Image) (v : UInt64) (i : Nat) :
    bitAt (h.ecmPdoSet io v) i =
      if h.Covers i then v.toNat.testBit (within h.bit.toNat i) else bitAt io i := by
  have hbits := h.bits.toNat_lt
  unfold ecmPdoSet
  rw [bitAt_setLoop32 _ _ (by omega) _ _ _ _ (by omega) h.bit.toNat_lt, Nat.sub_zero,
    Nat.zero_add]
  rfl

/-- The bits of an entry that 32-bit offsets address without going around. -/
theorem covers_iff (hfit : h.bit.toNat + h.bits.toNat ≤ 2 ^ 32) (i : Nat) :
    h.Covers i ↔ h.bit.toNat ≤ i ∧ i < h.bit.toNat + h.bits.toNat := by
  have hbit := h.bit.toNat_lt
  unfold Covers InBits within
  omega

theorem ecmPdoGet_eq (hfit : h.bit.toNat + h.bits.toNat ≤ 2 ^ 32) (io : Image) :
    h.ecmPdoGet io = Pdo.ecmPdoGet h.toHandle io := by
  apply Nat.eq_of_testBit_eq
  intro j
  rw [testBit_ecmPdoGet, Pdo.testBit_ecmPdoGet]
  by_cases hj : j < h.bits.toNat
  · rw [Nat.mod_eq_of_lt (by omega)]
    rfl
  · have hj' : ¬ j < h.toHandle.bits := hj
    simp [hj, hj']

theorem ecmPdoSet_eq (hfit : h.bit.toNat + h.bits.toNat ≤ 2 ^ 32) (io : Image) (v : UInt64) :
    h.ecmPdoSet io v = Pdo.ecmPdoSet h.toHandle io v.toNat := by
  apply image_ext
  intro i
  rw [bitAt_ecmPdoSet, Pdo.bitAt_ecmPdoSet]
  by_cases hi : h.Covers i
  · have hi' : h.toHandle.Covers i := (covers_iff hfit i).1 hi
    rw [if_pos hi, if_pos hi']
    have hbit := h.bit.toNat_lt
    obtain ⟨hlow, hhigh⟩ := (covers_iff hfit i).1 hi
    have hat : within h.bit.toNat i = i - h.bit.toNat := by
      unfold within
      omega
    rw [hat]
    rfl
  · have hi' : ¬ h.toHandle.Covers i := fun hcov => hi ((covers_iff hfit i).2 hcov)
    rw [if_neg hi, if_neg hi']

/-! ## The laws of bit access -/

/-- The bits of an entry, and where they are. -/
theorem covers_nth {j : Nat} (hj : j < h.bits.toNat) :
    h.Covers ((h.bit.toNat + j) % 2 ^ 32) ∧
      within h.bit.toNat ((h.bit.toNat + j) % 2 ^ 32) = j := by
  have hbit := h.bit.toNat_lt
  have hwidth := h.bits.toNat_lt
  unfold Covers InBits within
  omega

theorem ecmPdoGet_set_self (h : PdoHandle) (io : Image) (v : UInt64) :
    h.ecmPdoGet (h.ecmPdoSet io v) = v.toNat % 2 ^ h.bits.toNat := by
  apply Nat.eq_of_testBit_eq
  intro j
  rw [testBit_ecmPdoGet, bitAt_ecmPdoSet, Nat.testBit_mod_two_pow]
  by_cases hj : j < h.bits.toNat
  · obtain ⟨hcov, hat⟩ := covers_nth hj
    rw [if_pos hcov, hat]
  · simp [hj]

theorem ecmPdoSet_comm (hd : h.Disjoint g) (io : Image) (v w : UInt64) :
    h.ecmPdoSet (g.ecmPdoSet io w) v = g.ecmPdoSet (h.ecmPdoSet io v) w := by
  apply image_ext
  intro i
  simp only [bitAt_ecmPdoSet]
  by_cases hi : h.Covers i
  · rw [if_pos hi, if_neg (hd i hi), if_pos hi]
  · simp only [if_neg hi]

theorem ecmPdoGet_set_disjoint (hd : h.Disjoint g) (io : Image) (w : UInt64) :
    h.ecmPdoGet (g.ecmPdoSet io w) = h.ecmPdoGet io := by
  apply Nat.eq_of_testBit_eq
  intro j
  rw [testBit_ecmPdoGet, testBit_ecmPdoGet]
  by_cases hj : j < h.bits.toNat
  · rw [bitAt_ecmPdoSet, if_neg (hd _ (covers_nth hj).1)]
  · simp [hj]

/-- Bit access through handles: a read gives back what was written, cut to the
width of the entry; no other bit changes; and entries that share no bit do not see
each other. -/
theorem bit_access_laws (h : PdoHandle) (io : Image) (v : UInt64) :
    h.ecmPdoGet (h.ecmPdoSet io v) = v.toNat % 2 ^ h.bits.toNat ∧
    (∀ i, ¬ h.Covers i → bitAt (h.ecmPdoSet io v) i = bitAt io i) ∧
    (h.bit.toNat + h.bits.toNat ≤ 2 ^ 32 →
      ∀ i, h.Covers i ↔ h.bit.toNat ≤ i ∧ i < h.bit.toNat + h.bits.toNat) ∧
    ∀ g : PdoHandle, h.Disjoint g → ∀ w,
      h.ecmPdoSet (g.ecmPdoSet io w) v = g.ecmPdoSet (h.ecmPdoSet io v) w ∧
      h.ecmPdoGet (g.ecmPdoSet io w) = h.ecmPdoGet io := by
  refine ⟨ecmPdoGet_set_self h io v, ?_, covers_iff, ?_⟩
  · intro i hi
    rw [bitAt_ecmPdoSet, if_neg hi]
  · intro g hd w
    exact ⟨ecmPdoSet_comm hd io v w, ecmPdoGet_set_disjoint hd io w⟩

/-- Twelve bits across a byte boundary, and the nibble behind them. -/
theorem bit_access_laws_nibble :
    let h : PdoHandle := { slave := 1, group := 0, dir := 0, bit := 4, bits := 12 }
    let g : PdoHandle := { slave := 1, group := 0, dir := 0, bit := 16, bits := 4 }
    h.ecmPdoGet (h.ecmPdoSet (fun _ => 255) 0xABC) = 0xABC ∧
      h.ecmPdoGet (g.ecmPdoSet (fun _ => 255) 5) = h.ecmPdoGet fun _ => 255 := by
  intro h g
  have hdisjoint : h.Disjoint g := by
    intro i hi hg
    have hlow := (covers_iff (by decide) i).1 hi
    have hhigh := (covers_iff (by decide) i).1 hg
    have hend : h.bit.toNat + h.bits.toNat = 16 := by decide
    have hstart : g.bit.toNat = 16 := by decide
    omega
  have hlaws := bit_access_laws h (fun _ => 255) 0xABC
  exact ⟨hlaws.1, (hlaws.2.2.2 g hdisjoint 5).2⟩

end PdoHandle

end EcMaster.Pdo
