import EcMaster.Lib.ByteImage

/-!
# Byte texts of C programs

Text in a C program is bytes.  `Text` is such a byte string, `txt` the bytes
of a literal, `cstr` the part of a buffer that a function of `string.h` sees:
everything before the first NUL byte.

The rest is the part of `stdio.h` and `stdlib.h` that request handling is
made of:

* the conversions of `printf` (`dec` for `%u`, `decInt` for `%d`, `hexUpper`
  for `%0nX`, `hexLower` for `%0nx`) and `clip`, which is what a buffer of
  `snprintf` holds afterwards;
* `strtoll` and `strtoull` as C17 defines them: blanks, a sign, the base from
  the leading characters when the base argument is `0`, then digits, and
  saturation with `ERANGE`.

A pointer into memory that the program may read is an `Image`.  `slice` takes
bytes out of it and `scan` is the loop `while (i < len && p(s[i])) i++`.
-/

namespace EcMaster.CText

open EcMaster.ByteImage

/-- A byte string. -/
abbrev Text := List UInt8

/-- One ASCII character. -/
def ch (c : Char) : UInt8 := UInt8.ofNat c.toNat

/-- The bytes of an ASCII literal. -/
def txt (s : String) : Text := s.toList.map ch

/-- A buffer as the functions of `string.h` see it. -/
def cstr (b : Text) : Text := b.takeWhile (· != 0)

/-- What `snprintf` leaves in a buffer of `cap` bytes. -/
def clip (cap : Nat) (b : Text) : Text := b.take (cap - 1)

/-- What holds of the 256 bytes one by one holds of every byte. -/
theorem forall_byte {p : UInt8 → Prop} (h : ∀ k : Fin 256, p (UInt8.ofNat k)) (c : UInt8) :
    p c := by
  have hc := h ⟨c.toNat, c.toNat_lt⟩
  rwa [UInt8.ofNat_toNat] at hc

theorem length_clip_lt {cap : Nat} (b : Text) (hcap : 0 < cap) :
    (clip cap b).length < cap := by
  unfold clip
  rw [List.length_take]
  omega

theorem zero_not_mem_cstr (b : Text) : (0 : UInt8) ∉ cstr b := by
  intro hmem
  have hne := List.mem_takeWhile_imp hmem
  simp at hne

/-! ## Conversions of `printf` -/

/-- `%u`. -/
def dec (n : Nat) : Text := (Nat.toDigits 10 n).map ch

/-- `%d`. -/
def decInt (x : Int) : Text :=
  if x < 0 then ch '-' :: dec x.natAbs else dec x.natAbs

/-- Digits in base sixteen, padded on the left to `width`. -/
def hexLower (width n : Nat) : Text :=
  let ds := (Nat.toDigits 16 n).map ch
  List.replicate (width - ds.length) (ch '0') ++ ds

/-- `hexLower` with capital letters. -/
def hexUpper (width n : Nat) : Text :=
  (hexLower width n).map fun c => if ch 'a' ≤ c then c - 32 else c

/-! ## Reading memory -/

/-- The `n` bytes from address `i` on. -/
def slice (s : Image) (i n : Nat) : Text := (List.range n).map fun k => s (i + k)

/-- A text as readable memory. -/
def ofText (b : Text) : Image := fun i => b.getD i 0

/-- The bytes `t` copied to address `i`. -/
def store (s : Image) (i : Nat) (t : Text) : Image := fun k =>
  if i ≤ k ∧ k < i + t.length then t.getD (k - i) 0 else s k

/-- `while (i < len && p(s[i])) i++`, for at most `fuel` turns. -/
def scan (p : UInt8 → Bool) (s : Image) (len : Nat) : Nat → Nat → Nat
  | 0, i => i
  | fuel + 1, i => if i < len && p (s i) then scan p s len fuel (i + 1) else i

@[simp] theorem length_slice (s : Image) (i n : Nat) : (slice s i n).length = n := by
  simp [slice]

/-- A copy leaves the bytes behind it alone. -/
theorem store_of_le (s : Image) {i k : Nat} {t : Text} (h : i + t.length ≤ k) :
    store s i t k = s k :=
  if_neg (by omega)

/-- The bytes of a copy. -/
theorem store_add (s : Image) (i : Nat) {k : Nat} {t : Text} (h : k < t.length) :
    store s i t (i + k) = t.getD k 0 := by
  unfold store
  rw [if_pos (by omega), Nat.add_sub_cancel_left]

/-- The bytes up to the end of the first bytes of a copy. -/
theorem slice_store (s : Image) (i : Nat) (t u : Text) :
    slice (store s i (t ++ u)) 0 (i + t.length) = slice s 0 i ++ t := by
  apply List.ext_getElem
  · simp
  · intro k hk hk'
    simp only [slice, List.getElem_map, List.getElem_range, Nat.zero_add, List.getElem_append,
      List.length_map, List.length_range]
    by_cases hki : k < i
    · rw [dif_pos hki, store, if_neg (by omega)]
    · have hkt : k - i < t.length := by
        simp only [length_slice] at hk
        omega
      rw [dif_neg hki, store, if_pos (by simp; omega), List.getD_append _ _ _ _ hkt,
        List.getD_eq_getElem _ _ hkt]

/-! ## `strtoll` and `strtoull` -/

/-- `isspace` of the C locale. -/
def isSpace (c : UInt8) : Bool := c == 32 || (9 ≤ c && c ≤ 13)

/-- The value of a digit or letter as a digit. -/
def digitVal (c : UInt8) : Nat :=
  if ch '0' ≤ c ∧ c ≤ ch '9' then (c - ch '0').toNat
  else if ch 'a' ≤ c ∧ c ≤ ch 'z' then (c - ch 'a').toNat + 10
  else if ch 'A' ≤ c ∧ c ≤ ch 'Z' then (c - ch 'A').toNat + 10
  else 36

/-- The digits at the front of a text, `acc` being the value read so far. -/
def digits (base : Nat) : Text → Nat → Nat × Text
  | [], acc => (acc, [])
  | c :: cs, acc =>
      if digitVal c < base then digits base cs (acc * base + digitVal c)
      else (acc, c :: cs)

/-- The base that the text itself asks for, and the text behind its prefix. -/
def baseOf (base : Nat) (b : Text) : Nat × Text :=
  match b with
  | z :: x :: d :: rest =>
      if z = ch '0' ∧ (x = ch 'x' ∨ x = ch 'X') ∧ digitVal d < 16 ∧ (base = 0 ∨ base = 16) then
        (16, d :: rest)
      else if base = 0 then (if z = ch '0' then 8 else 10, b)
      else (base, b)
  | z :: _ => if base = 0 then (if z = ch '0' then 8 else 10, b) else (base, b)
  | [] => (if base = 0 then 10 else base, b)

/-- The sign at the front of a text, `true` for minus. -/
def signOf : Text → Bool × Text
  | [] => (false, [])
  | c :: cs =>
      if c = ch '-' then (true, cs)
      else if c = ch '+' then (false, cs)
      else (false, c :: cs)

/-- What a conversion leaves behind: the value, `errno = ERANGE`, the text at
the end pointer, and whether no conversion was made (`e == b`). -/
structure Converted (α : Type) where
  value : α
  erange : Bool
  rest : Text
  nothing : Bool
deriving Repr

/-- Sign, magnitude and remaining text of an integer, `none` without a digit. -/
def strtoInt (base : Nat) (b : Text) : Option (Bool × Nat × Text) :=
  let signed := signOf (b.dropWhile isSpace)
  let based := baseOf base signed.2
  match based.2 with
  | [] => none
  | c :: _ =>
      if digitVal c < based.1 then
        let read := digits based.1 based.2 0
        some (signed.1, read.1, read.2)
      else none

/-- `strtoll`. -/
def strtoll (base : Nat) (b : Text) : Converted Int64 :=
  match strtoInt base b with
  | none => { value := 0, erange := false, rest := b, nothing := true }
  | some (neg, mag, rest) =>
      let x : Int := if neg then -mag else mag
      if x < -2 ^ 63 then
        { value := Int64.minValue, erange := true, rest := rest, nothing := false }
      else if 2 ^ 63 ≤ x then
        { value := Int64.maxValue, erange := true, rest := rest, nothing := false }
      else { value := Int64.ofInt x, erange := false, rest := rest, nothing := false }

/-- `strtoull`: a minus sign negates modulo `2 ^ 64`. -/
def strtoull (base : Nat) (b : Text) : Converted UInt64 :=
  match strtoInt base b with
  | none => { value := 0, erange := false, rest := b, nothing := true }
  | some (neg, mag, rest) =>
      if 2 ^ 64 ≤ mag then
        { value := UInt64.ofNat (2 ^ 64 - 1), erange := true, rest := rest, nothing := false }
      else
        { value := if neg then -UInt64.ofNat mag else UInt64.ofNat mag
          erange := false, rest := rest, nothing := false }

end EcMaster.CText
