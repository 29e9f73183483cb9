import EcMaster.Lib.Integers

/-!
# Integer literals of C

`Literal t n` is the grammar: decimal digits without a leading zero, a zero and octal
digits, or `0x` and hexadecimal digits, with the number `n` that they stand for.  Nothing
stands in front, neither a blank nor a sign.

`Literal.magnitude` and `literal_of_magnitude` say that the digits which `strtoll` and
`strtoull` read with base `0` are the literals.  `whole_eq_some` says what they let stand in front of one.
-/

namespace EcMaster.CText

open EcMaster.Rfc8259

/-- An unsigned integer literal without a suffix, and its value. -/
inductive Literal : Text → Nat → Prop where
  | decimal {c : UInt8} {t : Text} (hc : c ≠ ch '0') (ht : ∀ d ∈ c :: t, isDigit d = true) :
      Literal (c :: t) (numeral 10 (c :: t))
  | octal {t : Text} (ht : ∀ d ∈ t, digitVal d < 8) :
      Literal (ch '0' :: t) (numeral 8 (ch '0' :: t))
  | hexadecimal {x : UInt8} {t : Text} (hx : x = ch 'x' ∨ x = ch 'X') (hne : t ≠ [])
      (ht : ∀ d ∈ t, isHexdig d = true) : Literal (ch '0' :: x :: t) (numeral 16 t)

/-- A literal begins with a digit. -/
theorem Literal.head {t : Text} {n : Nat} (h : Literal t n) :
    ∃ c u, t = c :: u ∧ isDigit c = true := by
  cases h with
  | @decimal c t _ ht => exact ⟨c, t, rfl, ht c (by simp)⟩
  | octal => exact ⟨_, _, rfl, by decide⟩
  | hexadecimal => exact ⟨_, _, rfl, by decide⟩

/-! ## The digits that are read -/

theorem mark_not_octal {x : UInt8} (hx : x = ch 'x' ∨ x = ch 'X') : ¬ digitVal x < 8 := by
  obtain rfl | rfl := hx <;> decide

/-- Behind a zero the digits are octal unless `x` and a hexadecimal digit follow. -/
theorem baseOf_zero_head {t : Text}
    (h : ∀ x d u, t = x :: d :: u → ¬ ((x = ch 'x' ∨ x = ch 'X') ∧ digitVal d < 16)) :
    baseOf 0 (ch '0' :: t) = (8, ch '0' :: t) := by
  match t with
  | [] => rfl
  | x :: u => exact baseOf_zero_octal fun d v hu => h x d v (by rw [hu])

theorem Literal.magnitude {t : Text} {n : Nat} (h : Literal t n) : magnitude 0 t = some n := by
  cases h with
  | @decimal c t hc ht =>
      rw [magnitude_eq (baseOf_zero_of_ne hc t), if_pos]
      exact ⟨List.cons_ne_nil _ _, fun d hd => (digitVal_lt_ten d).2 (ht d hd)⟩
  | @octal t ht =>
      have hbase : baseOf 0 (ch '0' :: t) = (8, ch '0' :: t) := by
        refine baseOf_zero_head fun x d u hu hx => mark_not_octal hx.1 (ht x ?_)
        rw [hu]
        exact List.mem_cons_self
      rw [magnitude_eq hbase, if_pos]
      exact ⟨List.cons_ne_nil _ _, List.forall_mem_cons.2 ⟨by decide, ht⟩⟩
  | @hexadecimal x t hx hne ht =>
      obtain ⟨d, u, rfl⟩ := List.exists_cons_of_ne_nil hne
      have hdigits : ∀ c ∈ d :: u, digitVal c < 16 :=
        fun c hc => (digitVal_lt_sixteen c).2 (ht c hc)
      rw [magnitude_eq (baseOf_zero_hex hx (hdigits d (by simp)) u), if_pos ⟨hne, hdigits⟩]

theorem literal_of_magnitude {t : Text} {n : Nat} (h : magnitude 0 t = some n) :
    Literal t n := by
  -- what the digits are, once the base is known
  have hread : ∀ {b : Nat} {v : Text}, baseOf 0 t = (b, v) →
      v ≠ [] ∧ (∀ c ∈ v, digitVal c < b) ∧ numeral b v = n := by
    intro b v hbase
    rw [magnitude_eq hbase] at h
    obtain ⟨hdigits, hn⟩ := Option.ite_none_right_eq_some.1 h
    exact ⟨hdigits.1, hdigits.2, Option.some.inj hn⟩
  match t with
  | [] => exact absurd rfl (hread rfl).1
  | c :: t =>
    by_cases hc : c = ch '0'
    swap
    · obtain ⟨-, hdigits, rfl⟩ := hread (baseOf_zero_of_ne hc t)
      exact .decimal hc fun d hd => (digitVal_lt_ten d).1 (hdigits d hd)
    subst hc
    by_cases hhex : ∃ x d u, t = x :: d :: u ∧ (x = ch 'x' ∨ x = ch 'X') ∧ digitVal d < 16
    · obtain ⟨x, d, u, rfl, hx, hd⟩ := hhex
      obtain ⟨hne, hdigits, rfl⟩ := hread (baseOf_zero_hex hx hd u)
      exact .hexadecimal hx hne fun c hc => (digitVal_lt_sixteen c).1 (hdigits c hc)
    · have hbase : baseOf 0 (ch '0' :: t) = (8, ch '0' :: t) :=
        baseOf_zero_head fun x d u hu hx => hhex ⟨x, d, u, hu, hx⟩
      obtain ⟨-, hdigits, rfl⟩ := hread hbase
      exact .octal fun d hd => hdigits d (List.mem_cons_of_mem _ hd)

/-! ## In front of the digits -/

/-- A sign that may stand in front of the digits, `true` for minus. -/
inductive Sign : Text → Bool → Prop where
  | none : Sign [] false
  | plus : Sign [ch '+'] false
  | minus : Sign [ch '-'] true

/-- A byte that is no blank and no sign. -/
def isPlain (c : UInt8) : Bool := !isSpace c && c != ch '-' && c != ch '+'

theorem isPlain_of_digit {c : UInt8} (hc : isDigit c = true) : isPlain c = true := by
  have hall : ∀ c, isDigit c = true → isPlain c = true := forall_byte (by decide +kernel)
  exact hall c hc

theorem signOf_append {sign : Text} {neg : Bool} (hsign : Sign sign neg) {c : UInt8}
    (hc : isPlain c = true) (u : Text) : signOf (sign ++ c :: u) = (neg, c :: u) := by
  simp only [isPlain, Bool.and_eq_true, bne_iff_ne] at hc
  cases hsign with
  | none => simp [signOf, hc.1.2, hc.2]
  | plus => rfl
  | minus => rfl

theorem sign_signOf (t : Text) : ∃ sign, Sign sign (signOf t).1 ∧ t = sign ++ (signOf t).2 := by
  match t with
  | [] => exact ⟨[], .none, rfl⟩
  | c :: u =>
    by_cases hminus : c = ch '-'
    · subst hminus
      exact ⟨[ch '-'], .minus, rfl⟩
    · by_cases hplus : c = ch '+'
      · subst hplus
        exact ⟨[ch '+'], .plus, rfl⟩
      · have hsign : signOf (c :: u) = (false, c :: u) := by simp [signOf, hminus, hplus]
        rw [hsign]
        exact ⟨[], .none, rfl⟩

/-- The text that follows a sign, or nothing, has no blank in front. -/
theorem dropWhile_sign {sign : Text} {neg : Bool} (hsign : Sign sign neg) {c : UInt8}
    (hc : isPlain c = true) (u : Text) :
    (sign ++ c :: u).dropWhile isSpace = sign ++ c :: u := by
  simp only [isPlain, Bool.and_eq_true, Bool.not_eq_true'] at hc
  cases hsign with
  | none => simp [hc.1.1]
  | plus => rfl
  | minus => rfl

/-- What a conversion with base `0` reads to the end: blanks, a sign and a literal. -/
theorem whole_eq_some {t : Text} {neg : Bool} {n : Nat} :
    whole 0 t = some (neg, n) ↔
      ∃ blanks sign lit, t = blanks ++ (sign ++ lit) ∧ (∀ c ∈ blanks, isSpace c = true) ∧
        Sign sign neg ∧ Literal lit n := by
  constructor
  · intro h
    obtain ⟨m, hmag, hpair⟩ := Option.map_eq_some_iff.1 h
    obtain ⟨sign, hsign, hsplit⟩ := sign_signOf (t.dropWhile isSpace)
    obtain ⟨rfl, rfl⟩ := Prod.mk.inj hpair
    refine ⟨t.takeWhile isSpace, sign, _, ?_, fun c hc => List.mem_takeWhile_imp hc, hsign,
      literal_of_magnitude hmag⟩
    rw [← hsplit, List.takeWhile_append_dropWhile]
  · rintro ⟨blanks, sign, lit, rfl, hblanks, hsign, hlit⟩
    obtain ⟨c, u, rfl, hc⟩ := hlit.head
    have hplain := isPlain_of_digit hc
    unfold whole
    rw [List.dropWhile_append_of_pos hblanks, dropWhile_sign hsign hplain,
      signOf_append hsign hplain]
    dsimp only
    rw [hlit.magnitude]
    rfl

/-- Of a literal itself. -/
theorem Literal.whole {t : Text} {n : Nat} (h : Literal t n) : whole 0 t = some (false, n) :=
  whole_eq_some.2 ⟨[], [], t, rfl, nofun, .none, h⟩

end EcMaster.CText
