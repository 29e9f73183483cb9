import Mathlib

/-!
# Bit fields packed into a number

`pack` puts fields of given widths side by side, the first one in the low bits, and
`unpack` cuts a number into fields of given widths.  `unpack_pack` is the round trip:
fields that fit their widths come back, none disturbed by another.
-/

namespace EcMaster.BitFields

/-- Fields, each with its width, from the low bits up. -/
def pack : List (Nat × Nat) → Nat
  | [] => 0
  | f :: fs => f.2 ||| pack fs <<< f.1

def unpack : List Nat → Nat → List Nat
  | [], _ => []
  | n :: ns, w => w % 2 ^ n :: unpack ns (w >>> n)

/-- The low field. -/
theorem or_shiftLeft_mod {v n : Nat} (hv : v < 2 ^ n) (w : Nat) :
    (v ||| w <<< n) % 2 ^ n = v := by
  apply Nat.eq_of_testBit_eq
  intro j
  rw [Nat.testBit_mod_two_pow, Nat.testBit_or, Nat.testBit_shiftLeft]
  by_cases hj : j < n
  · simp [hj]
  · have hbit : v.testBit j = false :=
      Nat.testBit_lt_two_pow (hv.trans_le (Nat.pow_le_pow_right (by decide) (by omega)))
    simp [hj, hbit]

/-- What lies above it. -/
theorem or_shiftLeft_shiftRight {v n : Nat} (hv : v < 2 ^ n) (w : Nat) :
    (v ||| w <<< n) >>> n = w := by
  rw [Nat.shiftRight_or_distrib, Nat.shiftLeft_shiftRight, Nat.shiftRight_eq_div_pow,
    Nat.div_eq_of_lt hv, Nat.zero_or]

theorem unpack_pack {fs : List (Nat × Nat)} (hfit : ∀ f ∈ fs, f.2 < 2 ^ f.1) :
    unpack (fs.map Prod.fst) (pack fs) = fs.map Prod.snd := by
  induction fs with
  | nil => rfl
  | cons f fs ih =>
    have hf := hfit f (List.mem_cons_self ..)
    have hfs := ih fun g hg => hfit g (List.mem_cons_of_mem f hg)
    rw [List.map_cons, List.map_cons, pack, unpack, or_shiftLeft_mod hf,
      or_shiftLeft_shiftRight hf, hfs]

end EcMaster.BitFields
