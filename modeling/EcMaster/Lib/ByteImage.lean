import Mathlib

/-!
# Byte images seen bit by bit

A process image is a byte array that several bit fields share, so most facts
about it are about single bits.  `bitAt` numbers the bits of an image the
way EtherCAT does: bit `i` is bit `i % 8` of byte `i / 8`.

`putBits` stores the low `take` bits of a value at one shift of one byte,
which is the step every unaligned field write is made of.  `bitAt_putBits`
says what it does to every bit of the image.

Nothing here mentions EtherCAT objects.
-/

namespace EcMaster.ByteImage

/-- A byte memory. -/
abbrev Image := Nat → UInt8

/-- Bit `i` of the image, least significant bit of byte `0` first. -/
def bitAt (m : Image) (i : Nat) : Bool :=
  (m (i / 8)).toNat.testBit (i % 8)

/-- Replace bits `sh ..< sh + take` of byte `byte` by the low bits of `v`. -/
def putBits (m : Image) (byte sh take v : Nat) : Image :=
  let mask := (2 ^ take - 1) <<< sh
  let part := (v &&& (2 ^ take - 1)) <<< sh
  Function.update m byte
    (UInt8.ofNat (((m byte).toNat &&& (255 ^^^ mask)) ||| part))

private theorem testBit_255 (j : Nat) : Nat.testBit 255 j = decide (j < 8) :=
  Nat.testBit_two_pow_sub_one 8 j

/-- The byte that `putBits` writes, bit by bit. -/
theorem testBit_putBits_byte (old : UInt8) {sh take j : Nat} (v : Nat)
    (hj : j < 8) :
    (UInt8.ofNat ((old.toNat &&& (255 ^^^ (2 ^ take - 1) <<< sh)) |||
        (v &&& (2 ^ take - 1)) <<< sh)).toNat.testBit j =
      if sh ≤ j ∧ j < sh + take then v.testBit (j - sh)
      else old.toNat.testBit j := by
  rw [UInt8.toNat_ofNat', Nat.testBit_mod_two_pow]
  simp only [hj, decide_true, Bool.true_and, Nat.testBit_or, Nat.testBit_and,
    Nat.testBit_xor, Nat.testBit_shiftLeft, Nat.testBit_two_pow_sub_one,
    testBit_255]
  by_cases hlo : sh ≤ j
  · by_cases hhi : j < sh + take
    · have hsub : j - sh < take := by omega
      simp [hlo, hhi, hsub]
    · have hsub : ¬ j - sh < take := by omega
      simp [hlo, hhi, hsub]
  · simp [hlo]

/-- `putBits` changes exactly the bits of its range. -/
theorem bitAt_putBits (m : Image) {byte sh take : Nat} (v i : Nat)
    (hfit : sh + take ≤ 8) :
    bitAt (putBits m byte sh take v) i =
      if 8 * byte + sh ≤ i ∧ i < 8 * byte + sh + take then
        v.testBit (i - (8 * byte + sh))
      else bitAt m i := by
  unfold bitAt putBits
  by_cases hbyte : i / 8 = byte
  · subst hbyte
    rw [Function.update_self, testBit_putBits_byte (m (i / 8)) v (Nat.mod_lt i (by omega))]
    by_cases hin : sh ≤ i % 8 ∧ i % 8 < sh + take
    · have hin' : 8 * (i / 8) + sh ≤ i ∧ i < 8 * (i / 8) + sh + take := by omega
      have hsub : i - (8 * (i / 8) + sh) = i % 8 - sh := by omega
      rw [if_pos hin, if_pos hin', hsub]
    · have hin' : ¬ (8 * (i / 8) + sh ≤ i ∧ i < 8 * (i / 8) + sh + take) := by
        omega
      rw [if_neg hin, if_neg hin']
  · have hout : ¬ (8 * byte + sh ≤ i ∧ i < 8 * byte + sh + take) := by omega
    rw [Function.update_of_ne hbyte, if_neg hout]

/-- An image is its bits. -/
theorem image_ext {m m' : Image} (h : ∀ i, bitAt m i = bitAt m' i) : m = m' := by
  funext byte
  apply UInt8.toNat_inj.1
  apply Nat.eq_of_testBit_eq
  intro j
  by_cases hj : j < 8
  · have hat := h (8 * byte + j)
    unfold bitAt at hat
    have hbyte : (8 * byte + j) / 8 = byte := by omega
    have hbit : (8 * byte + j) % 8 = j := by omega
    rw [hbyte, hbit] at hat
    exact hat
  · have hbelow : ∀ b : UInt8, b.toNat.testBit j = false := fun b =>
      Nat.testBit_lt_two_pow (Nat.lt_of_lt_of_le b.toNat_lt
        (Nat.pow_le_pow_right (by decide) (Nat.le_of_not_lt hj)))
    rw [hbelow, hbelow]

end EcMaster.ByteImage
