import EcMaster.Lib.Records
import EcMaster.Lib.Rfc8259

/-!
# Integer texts and `strtoll`

`integerText` is a grammar of integers: decimal without leading zeros and with an
optional minus sign, or hexadecimal behind `0x`.  `strtoll` and `strtoull` read
more than that.  They skip blanks, take a plus sign, and with base `0` read a
leading zero as the mark of an octal number, also behind a sign.

`whole` is what a program sees of a conversion that has to read all of a text.
`magnitude` is the part of it behind the blanks and the sign, and
`magnitude_zero` compares it with the grammar: the two differ on a zero that a
digit follows, and there only.  `unsigned32_eq_some` says what a field of a record is,
in terms of `whole`.
-/

namespace EcMaster.CText

open EcMaster.Rfc8259

/-! ## The grammar -/

/-- The number that a list of digits stands for. -/
def numeral (base : Nat) (t : Text) : Nat := t.foldl (fun acc c => acc * base + digitVal c) 0

/-- A decimal number without leading zeros. -/
def decimal (t : Text) : Option Nat :=
  if t ≠ [] ∧ (∀ c ∈ t, isDigit c = true) ∧ (t.head? = some (ch '0') → t.length = 1) then
    some (numeral 10 t)
  else none

/-- Digits of base sixteen. -/
def hexadecimal (t : Text) : Option Nat :=
  if t ≠ [] ∧ ∀ c ∈ t, isHexdig c = true then some (numeral 16 t) else none

/-- The text begins with the mark of a hexadecimal number, `0x` or `0X`. -/
def hexMark : Text → Bool
  | z :: x :: _ => z == ch '0' && (x == ch 'x' || x == ch 'X')
  | _ => false

/-- A number without a sign. -/
def unsignedText (t : Text) : Option Nat :=
  if hexMark t then hexadecimal (t.drop 2) else decimal t

/-- The integer that a text stands for. -/
def integerText (t : Text) : Option Int :=
  if t.head? = some (ch '-') then (decimal t.tail).map fun n : Nat => -(n : Int)
  else (unsignedText t).map fun n : Nat => (n : Int)

theorem integerText_minus (t : Text) :
    integerText (ch '-' :: t) = (decimal t).map fun n : Nat => -(n : Int) :=
  if_pos (rfl : (ch '-' :: t).head? = some (ch '-'))

/-! ## Conversions of a whole text -/

/-- The digits behind the sign, in the base that they ask for. -/
def magnitude (base : Nat) (t : Text) : Option Nat :=
  let based := baseOf base t
  if based.2 ≠ [] ∧ ∀ c ∈ based.2, digitVal c < based.1 then some (numeral based.1 based.2)
  else none

/-- Sign and magnitude of a text that a conversion reads to its end. -/
def whole (base : Nat) (t : Text) : Option (Bool × Nat) :=
  let signed := signOf (t.dropWhile isSpace)
  (magnitude base signed.2).map fun n => (signed.1, n)

/-- The integer with a sign and a magnitude. -/
def signedInt (neg : Bool) (mag : Nat) : Int := if neg then -(mag : Int) else mag

theorem digits_eq (base : Nat) (t : Text) (acc : Nat) :
    (digits base t acc).2 = [] ↔ ∀ c ∈ t, digitVal c < base := by
  induction t generalizing acc with
  | nil => simp [digits]
  | cons c t ih =>
      unfold digits
      split
      · rename_i hc
        rw [ih, List.forall_mem_cons]
        exact (and_iff_right hc).symm
      · rename_i hc
        simp [hc]

theorem digits_fst {base : Nat} {t : Text} (h : ∀ c ∈ t, digitVal c < base) (acc : Nat) :
    (digits base t acc).1 = t.foldl (fun acc c => acc * base + digitVal c) acc := by
  induction t generalizing acc with
  | nil => rfl
  | cons c t ih =>
      rw [List.forall_mem_cons] at h
      unfold digits
      rw [if_pos h.1, ih h.2]
      rfl

/-- A conversion reads the whole text. -/
theorem strtoInt_whole (base : Nat) (t : Text) (neg : Bool) (mag : Nat) :
    strtoInt base t = some (neg, mag, []) ↔ whole base t = some (neg, mag) := by
  unfold strtoInt whole magnitude
  simp only
  generalize signOf (t.dropWhile isSpace) = signed
  generalize baseOf base signed.2 = based
  obtain ⟨b, v⟩ := based
  cases v with
  | nil => simp
  | cons c v =>
      simp only [ne_eq, reduceCtorEq, not_false_eq_true, true_and, Option.map_eq_some_iff,
        Option.ite_none_right_eq_some, Option.some.injEq]
      by_cases hall : ∀ x ∈ c :: v, digitVal x < b
      · have hc : digitVal c < b := hall c (by simp)
        have hrest : (digits b (c :: v) 0).2 = [] := (digits_eq b (c :: v) 0).2 hall
        have hvalue : (digits b (c :: v) 0).1 = numeral b (c :: v) := digits_fst hall 0
        rw [hvalue, hrest]
        constructor
        · rintro ⟨-, h⟩
          injection h with h₁ h₂
          injection h₂ with h₂ _
          exact ⟨_, ⟨hall, rfl⟩, Prod.ext h₁ h₂⟩
        · rintro ⟨n, ⟨-, rfl⟩, h⟩
          injection h with h₁ h₂
          subst h₁ h₂
          exact ⟨hc, rfl⟩
      · have hrest : (digits b (c :: v) 0).2 ≠ [] := fun h => hall ((digits_eq b (c :: v) 0).1 h)
        simp only [hall, false_and, exists_false, iff_false]
        rintro ⟨-, h⟩
        exact hrest (congrArg (·.2.2) h)

theorem whole_eq_none {base : Nat} {t : Text}
    (h : ∀ neg mag, strtoInt base t ≠ some (neg, mag, [])) : whole base t = none :=
  Option.eq_none_iff_forall_ne_some.2 fun r hr => h r.1 r.2 ((strtoInt_whole base t r.1 r.2).2 hr)

theorem magnitude_eq {base b : Nat} {t v : Text} (h : baseOf base t = (b, v)) :
    magnitude base t =
      if v ≠ [] ∧ ∀ c ∈ v, digitVal c < b then some (numeral b v) else none := by
  unfold magnitude
  rw [h]

/-! ## Numbers of a field -/

section Fields

open EcMaster.Records

/-- A magnitude modulo `2 ^ 64`, negated behind a minus sign. -/
def wrapped (neg : Bool) (mag : Nat) : Nat := if neg then (2 ^ 64 - mag) % 2 ^ 64 else mag

theorem toNat_strtoull_value {neg : Bool} {mag : Nat} (h : mag < 2 ^ 64) :
    (if neg then -UInt64.ofNat mag else UInt64.ofNat mag).toNat = wrapped neg mag := by
  have hmag : (UInt64.ofNat mag).toNat = mag := Nat.mod_eq_of_lt h
  unfold wrapped
  split
  · rw [UInt64.toNat_neg, hmag]
    rfl
  · exact hmag

theorem unsigned32_eq_some {t : Text} {v : Nat} :
    unsigned32 t = some v ↔
      ∃ neg mag, whole 0 t = some (neg, mag) ∧ mag < 2 ^ 64 ∧ wrapped neg mag = v ∧
        v ≤ 0xFFFFFFFF := by
  have hwhole := strtoInt_whole 0 t
  unfold unsigned32 strtoull
  cases hst : strtoInt 0 t with
  | none =>
      rw [whole_eq_none fun neg mag h => by rw [hst] at h; cases h]
      simp
  | some r =>
      obtain ⟨neg, mag, rest⟩ := r
      cases rest with
      | cons c rest =>
          rw [whole_eq_none fun neg mag h => by rw [hst] at h; cases h]
          simp only [reduceCtorEq, false_and, exists_false, iff_false]
          split_ifs <;> simp_all
      | nil =>
          rw [(hwhole neg mag).1 hst]
          by_cases hmag : 2 ^ 64 ≤ mag
          · simp only [if_pos hmag]
            constructor
            · intro h
              exact absurd h (by simp)
            · rintro ⟨_, _, heq, hlt, -⟩
              cases heq
              exact absurd hlt (Nat.not_lt.2 hmag)
          · have hval := @toNat_strtoull_value neg _ (Nat.lt_of_not_le hmag)
            simp only [if_neg hmag, hval, Bool.false_or, List.isEmpty_nil, Bool.not_true,
              decide_eq_true_eq]
            constructor
            · intro h
              split at h
              · cases h
              · rename_i hle
                exact ⟨neg, mag, rfl, Nat.lt_of_not_le hmag, Option.some.inj h,
                  by rw [← Option.some.inj h]; omega⟩
            · rintro ⟨_, _, heq, -, hv, hle⟩
              cases heq
              rw [hv, if_neg (by omega)]

end Fields

/-! ## Bytes -/

/-- What the value of a byte as a digit says about it, and what a decimal digit is not. -/
theorem digit_spec : ∀ c : UInt8,
    (digitVal c < 10 ↔ isDigit c = true) ∧ (digitVal c < 16 ↔ isHexdig c = true) ∧
      (digitVal c = 0 → c = ch '0') ∧
      (isDigit c = true → (c == ch 'x' || c == ch 'X') = false ∧ isSpace c = false ∧
        c ≠ ch '-' ∧ c ≠ ch '+') :=
  forall_byte (by decide +kernel)

theorem digitVal_lt_ten (c : UInt8) : digitVal c < 10 ↔ isDigit c = true := (digit_spec c).1

theorem digitVal_lt_sixteen (c : UInt8) : digitVal c < 16 ↔ isHexdig c = true :=
  (digit_spec c).2.1

theorem digitVal_lt_eight {c : UInt8} (h : digitVal c < 8) : isDigit c = true :=
  (digitVal_lt_ten c).1 (Nat.lt_of_lt_of_le h (by decide))

/-! ## Comparison -/

/-- A leading zero in front of a digit. -/
def octalMark : Text → Bool
  | z :: d :: _ => z == ch '0' && isDigit d
  | _ => false

theorem unsignedText_of_octalMark {t : Text} (h : octalMark t = true) : unsignedText t = none := by
  match t, h with
  | z :: d :: rest, h =>
    simp only [octalMark, Bool.and_eq_true, beq_iff_eq] at h
    obtain ⟨rfl, hd⟩ := h
    have hx : hexMark (ch '0' :: d :: rest) = false := by
      simp [hexMark, ((digit_spec d).2.2.2 hd).1]
    unfold unsignedText decimal
    rw [hx, if_neg (by decide), if_neg]
    rintro ⟨-, -, hzero⟩
    have := hzero rfl
    simp at this

theorem decimal_eq_magnitude {t : Text} (h : t.head? = some (ch '0') → t.length = 1) :
    decimal t = if t ≠ [] ∧ ∀ c ∈ t, digitVal c < 10 then some (numeral 10 t) else none := by
  unfold decimal
  simp only [digitVal_lt_ten]
  by_cases hall : t ≠ [] ∧ ∀ c ∈ t, isDigit c = true
  · rw [if_pos ⟨hall.1, hall.2, h⟩, if_pos hall]
  · rw [if_neg hall, if_neg fun h' => hall ⟨h'.1, h'.2.1⟩]

/-- The digit zero, in every base. -/
theorem zero_digits (b : Nat) (hb : 0 < b) : [ch '0'] ≠ [] ∧ ∀ c ∈ [ch '0'], digitVal c < b := by
  have hzero : digitVal (ch '0') = 0 := rfl
  exact ⟨List.cons_ne_nil _ _, List.forall_mem_singleton.2 (hzero ▸ hb)⟩

theorem decimal_zero : decimal [ch '0'] = some 0 := by
  rw [decimal_eq_magnitude fun _ => rfl, if_pos (zero_digits 10 (by decide))]
  rfl

theorem unsignedText_of_not_hex {t : Text} (h : hexMark t = false) : unsignedText t = decimal t :=
  if_neg (by simp [h])

theorem baseOf_zero_of_ne {z : UInt8} (hz : z ≠ ch '0') (t : Text) :
    baseOf 0 (z :: t) = (10, z :: t) := by
  match t with
  | [] | [_] | _ :: _ :: _ => simp [baseOf, hz]

theorem baseOf_zero_hex {x d : UInt8} (hx : x = ch 'x' ∨ x = ch 'X') (hd : digitVal d < 16)
    (t : Text) : baseOf 0 (ch '0' :: x :: d :: t) = (16, d :: t) := by
  simp [baseOf, hx, hd]

theorem baseOf_zero_octal {x : UInt8} {t : Text}
    (h : ∀ d u, t = d :: u → ¬ ((x = ch 'x' ∨ x = ch 'X') ∧ digitVal d < 16)) :
    baseOf 0 (ch '0' :: x :: t) = (8, ch '0' :: x :: t) := by
  match t with
  | [] => simp [baseOf]
  | d :: u =>
    have hno := h d u rfl
    simp only [baseOf, true_and, true_or, and_true, if_neg hno, if_true]

/-- A text of base eight has octal digits only. -/
theorem magnitude_eight {x : UInt8} {t : Text} (hx : isDigit x = false)
    (hbase : baseOf 0 (ch '0' :: x :: t) = (8, ch '0' :: x :: t)) :
    magnitude 0 (ch '0' :: x :: t) = none := by
  rw [magnitude_eq hbase, if_neg]
  rintro ⟨-, hall⟩
  rw [digitVal_lt_eight (hall x (by simp))] at hx
  cases hx

/-- Unless a zero is followed by a digit the conversion with base `0` is that of the
grammar. -/
theorem magnitude_zero {t : Text} (h : octalMark t = false) : magnitude 0 t = unsignedText t := by
  match t, h with
  | [], _ => rfl
  | [z], _ =>
    rw [unsignedText_of_not_hex rfl, decimal_eq_magnitude fun _ => rfl]
    by_cases hz : z = ch '0'
    · subst hz
      have hbase : baseOf 0 [ch '0'] = (8, [ch '0']) := rfl
      rw [magnitude_eq hbase, if_pos (zero_digits 8 (by decide)),
        if_pos (zero_digits 10 (by decide))]
      rfl
    · exact magnitude_eq (baseOf_zero_of_ne hz [])
  | z :: x :: rest, h =>
    by_cases hz : z = ch '0'
    swap
    · -- no zero in front: base ten
      have hx : hexMark (z :: x :: rest) = false := by simp [hexMark, hz]
      rw [unsignedText_of_not_hex hx, decimal_eq_magnitude]
      · exact magnitude_eq (baseOf_zero_of_ne hz _)
      · intro hhead
        exact absurd (Option.some.inj hhead) hz
    subst hz
    have hd : isDigit x = false := by simpa [octalMark] using h
    by_cases hx : x = ch 'x' ∨ x = ch 'X'
    · have hmark : hexMark (ch '0' :: x :: rest) = true := by simpa [hexMark] using hx
      have hdrop : unsignedText (ch '0' :: x :: rest) = hexadecimal rest := if_pos hmark
      rw [hdrop]
      match rest with
      | [] => exact magnitude_eight hd (baseOf_zero_octal nofun)
      | d :: rest =>
        by_cases hd16 : digitVal d < 16
        · rw [magnitude_eq (baseOf_zero_hex hx hd16 rest)]
          unfold hexadecimal
          simp only [digitVal_lt_sixteen]
        · have hnone : hexadecimal (d :: rest) = none := by
            refine if_neg ?_
            rintro ⟨-, hall⟩
            exact hd16 ((digitVal_lt_sixteen d).2 (hall d (by simp)))
          rw [hnone]
          refine magnitude_eight hd (baseOf_zero_octal fun d' u hdu h' => hd16 ?_)
          injection hdu with hd' _
          exact hd' ▸ h'.2
    · -- a zero and something that is no digit: neither reads it
      have hmark : hexMark (ch '0' :: x :: rest) = false := by simpa [hexMark] using hx
      rw [unsignedText_of_not_hex hmark,
        magnitude_eight hd (baseOf_zero_octal fun d u _ h' => hx h'.1)]
      refine (if_neg ?_).symm
      rintro ⟨-, hall, -⟩
      rw [hall x (by simp)] at hd
      cases hd

theorem decimal_none_of_head {c : UInt8} (hc : isDigit c = false) (t : Text) :
    decimal (c :: t) = none := by
  refine if_neg ?_
  rintro ⟨-, hall, -⟩
  rw [hall c (by simp)] at hc
  cases hc

theorem decimal_none_of_zero (x : UInt8) (t : Text) : decimal (ch '0' :: x :: t) = none := by
  refine if_neg ?_
  rintro ⟨-, -, hzero⟩
  have := hzero rfl
  simp at this

/-- Only the digit zero is zero. -/
theorem decimal_eq_zero {t : Text} (h : decimal t = some 0) : t = [ch '0'] := by
  unfold decimal at h
  split at h
  swap
  · cases h
  rename_i hok
  obtain ⟨hne, hall, hzero⟩ := hok
  have hle : ∀ (u : Text) (acc : Nat), acc ≤ u.foldl (fun acc c => acc * 10 + digitVal c) acc := by
    intro u
    induction u with
    | nil => exact fun acc => Nat.le_refl acc
    | cons c u ih =>
        intro acc
        exact Nat.le_trans (by omega) (ih (acc * 10 + digitVal c))
  match t, hne with
  | c :: u, _ =>
    have hvalue : numeral 10 (c :: u) = 0 := Option.some.inj h
    have hfirst : digitVal c = 0 := by
      have := hle u (0 * 10 + digitVal c)
      unfold numeral at hvalue
      rw [List.foldl_cons] at hvalue
      omega
    have hc : c = ch '0' := (digit_spec c).2.2.1 hfirst
    subst hc
    have hlen := hzero rfl
    rw [List.length_cons] at hlen
    rw [List.eq_nil_of_length_eq_zero (by omega : u.length = 0)]

/-! ## The characters of an integer -/

/-- The characters of the texts that a conversion reads to the end. -/
def isNumeralChar (c : UInt8) : Bool :=
  isSpace c || c == ch '-' || c == ch '+' || c == ch 'x' || c == ch 'X' || isHexdig c

theorem numeralChar_of_hexdig {c : UInt8} (h : isHexdig c = true) : isNumeralChar c = true := by
  simp [isNumeralChar, h]

theorem baseOf_zero_split (t : Text) :
    ∃ pre, t = pre ++ (baseOf 0 t).2 ∧ (∀ c ∈ pre, isNumeralChar c = true) ∧
      (baseOf 0 t).1 ≤ 16 := by
  have hwhole : ∀ b ≤ 16, baseOf 0 t = (b, t) → ∃ pre, t = pre ++ (baseOf 0 t).2 ∧
      (∀ c ∈ pre, isNumeralChar c = true) ∧ (baseOf 0 t).1 ≤ 16 :=
    fun b hb hbase => ⟨[], by rw [hbase]; rfl, nofun, by rw [hbase]; exact hb⟩
  match t with
  | [] => exact hwhole 10 (by decide) rfl
  | z :: rest =>
    by_cases hz : z = ch '0'
    swap
    · exact hwhole 10 (by decide) (baseOf_zero_of_ne hz rest)
    subst hz
    match rest with
    | [] => exact hwhole 8 (by decide) rfl
    | x :: rest =>
      by_cases hhex : ∃ d u, rest = d :: u ∧ (x = ch 'x' ∨ x = ch 'X') ∧ digitVal d < 16
      · obtain ⟨d, u, rfl, hx, hd⟩ := hhex
        rw [baseOf_zero_hex hx hd]
        refine ⟨[ch '0', x], rfl, ?_, Nat.le_refl _⟩
        intro c hc
        simp only [List.mem_cons, List.not_mem_nil, or_false] at hc
        obtain rfl | rfl := hc
        · decide
        · obtain rfl | rfl := hx <;> decide
      · exact hwhole 8 (by decide) (baseOf_zero_octal fun d u hdu h => hhex ⟨d, u, hdu, h⟩)

theorem signOf_split (t : Text) :
    ∃ pre, t = pre ++ (signOf t).2 ∧ ∀ c ∈ pre, isNumeralChar c = true := by
  match t with
  | [] => exact ⟨[], rfl, nofun⟩
  | d :: u =>
    by_cases hminus : d = ch '-'
    · subst hminus
      exact ⟨[ch '-'], rfl, List.forall_mem_singleton.2 rfl⟩
    · by_cases hplus : d = ch '+'
      · subst hplus
        exact ⟨[ch '+'], rfl, List.forall_mem_singleton.2 rfl⟩
      · refine ⟨[], ?_, nofun⟩
        simp [signOf, hminus, hplus]

theorem mem_magnitude {t : Text} {n : Nat} (h : magnitude 0 t = some n) :
    ∀ c ∈ t, isNumeralChar c = true := by
  intro c hc
  unfold magnitude at h
  simp only at h
  split at h
  swap
  · cases h
  rename_i hdigits
  obtain ⟨pre, ht, hpre, hle⟩ := baseOf_zero_split t
  rw [ht] at hc
  rcases List.mem_append.1 hc with hc | hc
  · exact hpre c hc
  · exact numeralChar_of_hexdig
      ((digitVal_lt_sixteen c).1 (Nat.lt_of_lt_of_le (hdigits.2 c hc) hle))

theorem mem_whole {t : Text} {r : Bool × Nat} (h : whole 0 t = some r) :
    ∀ c ∈ t, isNumeralChar c = true := by
  intro c hc
  rw [← List.takeWhile_append_dropWhile (p := isSpace) (l := t)] at hc
  rcases List.mem_append.1 hc with hc | hc
  · have hspace : isSpace c = true := List.mem_takeWhile_imp hc
    simp [isNumeralChar, hspace]
  · unfold whole at h
    simp only at h
    obtain ⟨n, hmag, -⟩ := Option.map_eq_some_iff.1 h
    have hdigits := mem_magnitude hmag
    obtain ⟨pre, hsplit, hpre⟩ := signOf_split (t.dropWhile isSpace)
    rw [hsplit] at hc
    rcases List.mem_append.1 hc with hc | hc
    · exact hpre c hc
    · exact hdigits c hc

/-! ## Numbers of JSON -/

theorem whole_minus (base : Nat) (t : Text) :
    whole base (ch '-' :: t) = (magnitude base t).map fun n => (true, n) := rfl

theorem whole_of_digit (base : Nat) {c : UInt8} (hc : isDigit c = true) (t : Text) :
    whole base (c :: t) = (magnitude base (c :: t)).map fun n => (false, n) := by
  obtain ⟨-, hspace, hminus, hplus⟩ := (digit_spec c).2.2.2 hc
  have hdrop : (c :: t).dropWhile isSpace = c :: t := by simp [hspace]
  have hsign : signOf (c :: t) = (false, c :: t) := by simp [signOf, hminus, hplus]
  unfold whole
  rw [hdrop, hsign]

theorem baseOf_ten (t : Text) : baseOf 10 t = (10, t) := by
  match t with
  | [] | [_] | [_, _] | _ :: _ :: _ :: _ => simp [baseOf]

/-- The part of a number behind its integer part begins with none of these. -/
def endsInt (t : Text) : Prop :=
  t = [] ∨ ∃ c r, t = c :: r ∧ (c = ch '.' ∨ c = ch 'e' ∨ c = ch 'E')

theorem number_split {t : Text} (h : Number t) :
    ∃ minus int tail, (minus = [] ∨ minus = [ch '-']) ∧ IntPart int ∧ endsInt tail ∧
      t = minus ++ (int ++ tail) := by
  obtain ⟨minus, int, frac, exp, hminus, hint, hfrac, hexp, rfl⟩ := h.parts
  refine ⟨minus, int, frac ++ exp, hminus, hint, ?_, rfl⟩
  cases hfrac with
  | some => exact .inr ⟨_, _, rfl, .inl rfl⟩
  | none =>
      cases hexp with
      | none => exact .inl rfl
      | some he => exact .inr ⟨_, _, rfl, .inr he⟩

/-- No mark of another base in front of a number. -/
theorem marks_of_int {int tail : Text} (hint : IntPart int) (htail : endsInt tail) :
    octalMark (int ++ tail) = false ∧ hexMark (int ++ tail) = false := by
  cases hint with
  | zero =>
      obtain rfl | ⟨c, r, rfl, hc⟩ := htail
      · exact ⟨rfl, rfl⟩
      · obtain rfl | rfl | rfl := hc <;> exact ⟨rfl, rfl⟩
  | @digits t c _ hzero _ =>
      rw [List.cons_append]
      cases t ++ tail <;> simp [octalMark, hexMark, hzero]

theorem head_of_int {int : Text} (hint : IntPart int) :
    ∃ c u, int = c :: u ∧ isDigit c = true ∧ ∀ x ∈ u, isDigit x = true := by
  cases hint with
  | zero => exact ⟨_, _, rfl, by decide, nofun⟩
  | digits c hc _ ht => exact ⟨c, _, rfl, hc, ht⟩

theorem octalMark_number {t : Text} (h : Number t) : octalMark t = false := by
  obtain ⟨minus, int, tail, hminus, hint, htail, rfl⟩ := number_split h
  obtain rfl | rfl := hminus
  · exact (marks_of_int hint htail).1
  · cases int ++ tail <;> rfl

/-- A sign in front of digits. -/
theorem whole_int (base : Nat) {minus int : Text} (hminus : minus = [] ∨ minus = [ch '-'])
    (hint : IntPart int) (tail : Text) :
    whole base (minus ++ (int ++ tail)) =
      (magnitude base (int ++ tail)).map fun n => (decide (minus ≠ []), n) := by
  obtain ⟨c, u, rfl, hc, -⟩ := head_of_int hint
  obtain rfl | rfl := hminus
  · exact whole_of_digit base hc (u ++ tail)
  · exact whole_minus base (c :: u ++ tail)

/-- A number with a fraction or an exponent is not read to the end. -/
theorem whole_fraction {minus int : Text} (hminus : minus = [] ∨ minus = [ch '-'])
    (hint : IntPart int) {tail : Text} (htail : endsInt tail) (hne : tail ≠ []) :
    whole 0 (minus ++ (int ++ tail)) = none := by
  obtain ⟨hoct, hhex⟩ := marks_of_int hint htail
  have hnone : decimal (int ++ tail) = none := by
    refine if_neg ?_
    rintro ⟨-, hall, -⟩
    obtain rfl | ⟨c, r, rfl, hc⟩ := htail
    · exact hne rfl
    · have hdigit := hall c (by simp)
      obtain rfl | rfl | rfl := hc <;> exact absurd hdigit (by decide)
  rw [whole_int 0 hminus hint, magnitude_zero hoct, unsignedText_of_not_hex hhex, hnone]
  rfl

/-- An integer has the same value in base ten. -/
theorem whole_ten {minus int : Text} (hminus : minus = [] ∨ minus = [ch '-'])
    (hint : IntPart int) : whole 10 (minus ++ (int ++ [])) = whole 0 (minus ++ (int ++ [])) := by
  obtain ⟨hoct, hhex⟩ := marks_of_int hint (.inl rfl)
  have hzero : (int ++ []).head? = some (ch '0') → (int ++ []).length = 1 := by
    intro hhead
    cases hint with
    | zero => rfl
    | digits c _ hc _ => exact absurd (Option.some.inj hhead) hc
  rw [whole_int 10 hminus hint, whole_int 0 hminus hint, magnitude_zero hoct,
    unsignedText_of_not_hex hhex, decimal_eq_magnitude hzero, magnitude_eq (baseOf_ten _)]

end EcMaster.CText
