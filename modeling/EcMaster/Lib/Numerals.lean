import EcMaster.Lib.JsonWriter

/-!
# Printed numbers in a JSON text

What `%u`, `%d` and `%0nX` print, as pieces of a JSON text: a decimal numeral
is a value, and hexadecimal digits are characters of a string.  The lengths
are bounded by the number of digits.
-/

namespace EcMaster.Rfc8259

open EcMaster.CText

theorem mem_toDigits {b n : Nat} (hb : 1 < b) {c : Char} (hc : c ∈ Nat.toDigits b n) :
    ∃ k, k < b ∧ c = Nat.digitChar k := by
  induction n using Nat.strongRecOn with
  | ind n ih =>
      by_cases hn : n < b
      · rw [Nat.toDigits_of_lt_base hn, List.mem_singleton] at hc
        exact ⟨n, hn, hc⟩
      · rw [Nat.toDigits_of_base_le hb (Nat.le_of_not_lt hn), List.mem_append,
          List.mem_singleton] at hc
        obtain hc | hc := hc
        · exact ih (n / b) (Nat.div_lt_self (by omega) hb) hc
        · exact ⟨n % b, Nat.mod_lt n (by omega), hc⟩

/-! ## Decimal -/

theorem isDigit_digitChar {k : Nat} (hk : k < 10) :
    isDigit (ch (Nat.digitChar k)) = true := by
  have hall : ∀ k : Fin 10, isDigit (ch (Nat.digitChar k)) = true := by decide
  exact hall ⟨k, hk⟩

theorem digitChar_ne_zero {k : Nat} (hk : k < 10) (hpos : 0 < k) :
    ch (Nat.digitChar k) ≠ ch '0' := by
  have hall : ∀ k : Fin 10, 0 < k.val → ch (Nat.digitChar k) ≠ ch '0' := by decide
  exact hall ⟨k, hk⟩ hpos

theorem isDigit_of_mem_dec {n : Nat} {c : UInt8} (hc : c ∈ dec n) : isDigit c = true := by
  obtain ⟨x, hx, rfl⟩ := List.mem_map.mp hc
  obtain ⟨k, hk, rfl⟩ := mem_toDigits (by decide) hx
  exact isDigit_digitChar hk

/-- A numeral has no leading zero. -/
theorem dec_head {n : Nat} (hn : 0 < n) : ∃ c t, dec n = c :: t ∧ c ≠ ch '0' := by
  induction n using Nat.strongRecOn with
  | ind n ih =>
      unfold dec
      by_cases hlt : n < 10
      · rw [Nat.toDigits_of_lt_base hlt]
        exact ⟨_, [], rfl, digitChar_ne_zero hlt hn⟩
      · obtain ⟨c, t, hdec, hc⟩ := ih (n / 10) (Nat.div_lt_self hn (by decide)) (by omega)
        unfold dec at hdec
        rw [Nat.toDigits_of_base_le (by decide) (Nat.le_of_not_lt hlt), List.map_append, hdec]
        exact ⟨c, _, rfl, hc⟩

theorem intPart_dec (n : Nat) : IntPart (dec n) := by
  obtain rfl | hn := Nat.eq_zero_or_pos n
  · exact .zero
  · obtain ⟨c, t, hdec, hc⟩ := dec_head hn
    have hall : ∀ x ∈ c :: t, isDigit x = true := fun x hx => isDigit_of_mem_dec (hdec ▸ hx)
    rw [List.forall_mem_cons] at hall
    rw [hdec]
    exact .digits c hall.1 hc hall.2

theorem number_dec (n : Nat) : Number (dec n) :=
  ⟨[], dec n, [], [], .inl rfl, intPart_dec n, .none, .none, by simp⟩

theorem number_decInt (x : Int) : Number (decInt x) := by
  unfold decInt
  split
  · exact ⟨[ch '-'], dec x.natAbs, [], [], .inr rfl, intPart_dec _, .none, .none, by simp⟩
  · exact number_dec _

theorem length_dec_le {n k : Nat} (hk : 0 < k) (hn : n < 10 ^ k) : (dec n).length ≤ k := by
  unfold dec
  rw [List.length_map]
  exact (Nat.length_toDigits_le_iff (by decide) hk).mpr hn

/-! ## Hexadecimal -/

theorem isUnescaped_of_isHexdig {c : UInt8} (h : isHexdig c = true) : isUnescaped c = true := by
  have hall : ∀ c, isHexdig c = true → isUnescaped c = true := forall_byte (by decide +kernel)
  exact hall c h

theorem chars_of_unescaped {t : Text} (h : ∀ c ∈ t, isUnescaped c = true) :
    Chars escapes t := by
  induction t with
  | nil => exact .nil
  | cons c t ih =>
      rw [List.forall_mem_cons] at h
      exact .unescaped c h.1 (ih h.2)

theorem isHexdig_of_mem_hexLower {width n : Nat} {c : UInt8} (hc : c ∈ hexLower width n) :
    isHexdig c = true := by
  have hall : ∀ k : Fin 16, isHexdig (ch (Nat.digitChar k)) = true := by decide
  simp only [hexLower, List.mem_append] at hc
  obtain hc | hc := hc
  · rw [List.eq_of_mem_replicate hc]
    decide
  · obtain ⟨x, hx, rfl⟩ := List.mem_map.mp hc
    obtain ⟨k, hk, rfl⟩ := mem_toDigits (by decide) hx
    exact hall ⟨k, hk⟩

theorem isHexdig_of_mem_hexUpper {width n : Nat} {c : UInt8} (hc : c ∈ hexUpper width n) :
    isHexdig c = true := by
  have hall : ∀ c, isHexdig c = true → isHexdig (if ch 'a' ≤ c then c - 32 else c) = true :=
    forall_byte (by decide +kernel)
  obtain ⟨x, hx, rfl⟩ := List.mem_map.mp hc
  exact hall x (isHexdig_of_mem_hexLower hx)

theorem chars_hexUpper (width n : Nat) : Chars escapes (hexUpper width n) :=
  chars_of_unescaped fun _ hc => isUnescaped_of_isHexdig (isHexdig_of_mem_hexUpper hc)

end EcMaster.Rfc8259
