import EcMaster.Api.Json
import EcMaster.Lib.Numerals

/-!
# Typed SDO values

The first part of `libecmaster/api/ecm_ctl.c`: the object types that a
request may name, the value of a request, whether it fits a type, its bytes
and its order.

A value arrives as a signed or an unsigned 64-bit integer or as a double, and
the three meet in `ecm_ctl_val_fits`, `ecm_ctl_encode` and
`ecm_ctl_val_cmp`.  Integers are the fixed-width types of the source.  The
operations on doubles are the parameter `Fp`: `D` is the type of finite
doubles, and each is compared as the number `Fp.val` that it is, so that the
two zeros are equal; infinities and NaN never get past `ecm_json_f64`.

Two specifications close the file.  `twosComplement` is the little-endian
two's-complement encoding of an integer, and `encode_eq` says that
`ecm_ctl_encode` computes it.  `Val.Le` is the order of values as numbers,
and `valCmp_le` says that `ecm_ctl_val_cmp` decides it for values of the kind
that the type asks for.  `integer_round_trip` is about the integer types, and a
value in either of the two members that hold integers.
-/

namespace EcMaster.Api

open EcMaster.ByteImage EcMaster.CText

/-- `ecm_ctype_t`. -/
inductive CType where
  | u8 | i8 | u16 | i16 | u32 | i32 | u64 | i64 | f32 | raw
deriving DecidableEq, Repr

/-- The types in the order of `TYPES`. -/
def CType.all : List CType := [.u8, .i8, .u16, .i16, .u32, .i32, .u64, .i64, .f32, .raw]

/-- `ecm_ctl_type_name`. -/
def ecmCtlTypeName : CType → Text
  | .u8 => txt "u8"
  | .i8 => txt "i8"
  | .u16 => txt "u16"
  | .i16 => txt "i16"
  | .u32 => txt "u32"
  | .i32 => txt "i32"
  | .u64 => txt "u64"
  | .i64 => txt "i64"
  | .f32 => txt "f32"
  | .raw => txt "raw"

/-- `ecm_ctl_type_size`. -/
def ecmCtlTypeSize : CType → Nat
  | .u8 | .i8 => 1
  | .u16 | .i16 => 2
  | .u32 | .i32 | .f32 => 4
  | .u64 | .i64 => 8
  | .raw => 0

/-- `ecm_ctl_type_parse`. -/
def ecmCtlTypeParse (name : Text) : Option CType :=
  CType.all.find? fun t => ecmCtlTypeName t = name

/-- `is_signed`. -/
def isSigned : CType → Bool
  | .i8 | .i16 | .i32 | .i64 => true
  | _ => false

/-- `is_unsigned`. -/
def isUnsigned : CType → Bool
  | .u8 | .u16 | .u32 | .u64 => true
  | _ => false

/-- `ecm_ctl_val_t`: the member that `kind` selects. -/
inductive Val (D : Type) where
  | i (x : Int64)
  | u (x : UInt64)
  | d (x : D)
deriving DecidableEq, Repr

/-- The floating-point operations of the C library and the compiler, on
finite doubles. -/
structure Fp (D : Type) where
  /-- The number that a double is. -/
  val : D → ℚ
  /-- `strtod`, where it takes the whole text, finite and without `ERANGE`. -/
  strtod : Text → Option D
  /-- `(double)x`. -/
  ofInt : Int → D
  /-- The bits of `(float)d`. -/
  toF32 : D → UInt32
  /-- `%.9g`. -/
  g9 : D → Text
  /-- `%.9g` of the float with these bits, `null` when it is not finite. -/
  f32Json : UInt32 → Text
  /-- `%.1f` of a time in nanoseconds as milliseconds. -/
  ms : UInt64 → Text

section Ops

variable {D : Type} (fp : Fp D)

/-- The greatest float, `3.4028234663852886e38` as a double. -/
def fltMax : ℚ := (2 ^ 128 - 2 ^ 104 : Int)

/-- `fabs(d) <= 3.4028234663852886e38`. -/
def fitsF32 (d : D) : Bool := decide (-fltMax ≤ fp.val d ∧ fp.val d ≤ fltMax)

/-- `ecm_json_f64`. -/
def ecmJsonF64 (s : Image) (tk : Tok) : Option D :=
  if tk.type = .str then (ecmJsonI64 s tk).map fun i => fp.ofInt i.toInt
  else if tk.type ≠ .num then none
  else if tk.stop ≤ tk.start ∨ 64 ≤ tk.stop - tk.start then none
  else fp.strtod (cstr (slice s tk.start (tk.stop - tk.start)))

/-- `tok_val`. -/
def tokVal (s : Image) (tk : Tok) (type : CType) : Option (Val D) :=
  if type = .f32 then (ecmJsonF64 fp s tk).map .d
  else if isSigned type then (ecmJsonI64 s tk).map .i
  else (ecmJsonU64 s tk).map .u

/-- `as_i`. -/
def asI : Val D → Int64
  | .i x => x
  | .u x => x.toInt64
  | .d _ => 0

/-- `as_u`. -/
def asU : Val D → UInt64
  | .i x => x.toUInt64
  | .u x => x
  | .d _ => 0

/-- `as_d`. -/
def asD : Val D → D
  | .i x => fp.ofInt x.toInt
  | .u x => fp.ofInt x.toNat
  | .d x => x

/-- `ecm_ctl_val_fits`, `true` where it returns `0`. -/
def ecmCtlValFits (t : CType) (v : Val D) : Bool :=
  let bits := 8 * ecmCtlTypeSize t
  if isSigned t then
    let within (x : Int) := decide (bits = 64 ∨ (-2 ^ (bits - 1) ≤ x ∧ x ≤ 2 ^ (bits - 1) - 1))
    match v with
    | .i x => within x.toInt
    | .u x => decide (x.toNat ≤ 2 ^ 63 - 1) && within x.toNat
    | .d _ => false
  else if isUnsigned t then
    let within (x : Nat) := decide (bits = 64 ∨ x ≤ 2 ^ bits - 1)
    match v with
    | .i x => decide (0 ≤ x.toInt) && within x.toInt.toNat
    | .u x => within x.toNat
    | .d _ => false
  else if t = .f32 then fitsF32 fp (asD fp v)
  else false

/-- The word whose low bytes are sent. -/
def rawOf (t : CType) (v : Val D) : UInt64 :=
  if t = .f32 then (fp.toF32 (asD fp v)).toUInt64
  else if isSigned t then (asI v).toUInt64
  else asU v

/-- `ecm_ctl_encode`. -/
def ecmCtlEncode (t : CType) (v : Val D) : Option Text :=
  if ecmCtlValFits fp t v then
    some ((List.range (ecmCtlTypeSize t)).map fun i =>
      (rawOf fp t v >>> UInt64.ofNat (8 * i)).toUInt8)
  else none

/-- `a < b ? -1 : a > b`. -/
def order {α : Type} [LT α] [DecidableLT α] (a b : α) : Ordering :=
  if a < b then .lt else if b < a then .gt else .eq

/-- `ecm_ctl_val_cmp`. -/
def ecmCtlValCmp (t : CType) (v lim : Val D) : Ordering :=
  if isSigned t then order (asI v) (asI lim)
  else if isUnsigned t then order (asU v) (asU lim)
  else order (fp.val (asD fp v)) (fp.val (asD fp lim))

/-- The word that `n` little-endian bytes make. -/
def wordOf (b : Text) : UInt64 :=
  b.foldr (fun c acc => c.toUInt64 ||| acc <<< 8) 0

/-- `ecm_ctl_decode_json`: its result, and what it leaves in `out` (`none`
when it does not write there). -/
def ecmCtlDecodeJson (t : CType) (b : Text) (cap : Nat) : Nat × Option Text :=
  if t = .raw ∨ b.length ≠ ecmCtlTypeSize t then (0, none)
  else
    let raw := wordOf b
    let r :=
      match t with
      | .i8 => decInt raw.toUInt8.toInt8.toInt
      | .i16 => decInt raw.toUInt16.toInt16.toInt
      | .i32 => decInt raw.toUInt32.toInt32.toInt
      | .i64 => decInt raw.toInt64.toInt
      | .f32 => fp.f32Json raw.toUInt32
      | _ => dec raw.toNat
    (if r.length < cap then r.length else 0, some (clip cap r))

end Ops

/-! ## Values as numbers -/

section Numbers

variable {D : Type}

/-- The integer that a value is, whichever member holds it. -/
def Val.toInt : Val D → Int
  | .i x => x.toInt
  | .u x => x.toNat
  | .d _ => 0

/-- The order of values as numbers.  An integer and a double are not
compared. -/
def Val.Le (fp : Fp D) : Val D → Val D → Prop
  | .d a, .d b => fp.val a ≤ fp.val b
  | .d _, _ => False
  | _, .d _ => False
  | a, b => a.toInt ≤ b.toInt

/-- The value is held by the member that `tok_val` fills for type `t`. -/
def Val.Of (t : CType) : Val D → Prop
  | .i _ => isSigned t = true
  | .u _ => isUnsigned t = true
  | .d _ => t = .f32

/-- The type is one of the eight integer types. -/
def CType.IsInt (t : CType) : Prop := isSigned t = true ∨ isUnsigned t = true

/-- The little-endian two's-complement encoding of `x` in `n` bytes. -/
def twosComplement (n : Nat) (x : Int) : Text :=
  (List.range n).map fun i => UInt8.ofNat ((x % 2 ^ (8 * n)).toNat / 2 ^ (8 * i))

/-- The smallest integer of an integer type. -/
def CType.least (t : CType) : Int :=
  if isSigned t then -2 ^ (8 * ecmCtlTypeSize t - 1) else 0

/-- The largest integer of an integer type. -/
def CType.greatest (t : CType) : Int :=
  if isSigned t then 2 ^ (8 * ecmCtlTypeSize t - 1) - 1 else 2 ^ (8 * ecmCtlTypeSize t) - 1

/-- `tok_val` fills the member of its type. -/
theorem tokVal_of {fp : Fp D} {s : Image} {tk : Tok} {t : CType} {v : Val D}
    (hraw : t ≠ .raw) (h : tokVal fp s tk t = some v) : v.Of t := by
  unfold tokVal at h
  split at h
  · obtain ⟨x, -, rfl⟩ := Option.map_eq_some_iff.1 h
    assumption
  · split at h
    · obtain ⟨x, -, rfl⟩ := Option.map_eq_some_iff.1 h
      assumption
    · obtain ⟨x, -, rfl⟩ := Option.map_eq_some_iff.1 h
      show isUnsigned t = true
      cases t <;> simp_all [isSigned, isUnsigned]

theorem not_signed_unsigned {t : CType} (hs : isSigned t = true) (hu : isUnsigned t = true) :
    False := by
  cases t <;> simp_all [isSigned, isUnsigned]

private theorem size_le (t : CType) : ecmCtlTypeSize t ≤ 8 := by
  cases t <;> decide

/-! ### Order -/

theorem fitsF32_iff (fp : Fp D) (d : D) :
    fitsF32 fp d = true ↔ |fp.val d| ≤ 2 ^ 128 - 2 ^ 104 := by
  have hmax : fltMax = 2 ^ 128 - 2 ^ 104 := by norm_num [fltMax]
  rw [fitsF32, decide_eq_true_iff, abs_le, hmax]

theorem order_ne_gt {α : Type} [LinearOrder α] (a b : α) : order a b ≠ .gt ↔ a ≤ b := by
  unfold order
  split
  · rename_i h
    simp [le_of_lt h]
  · split
    · rename_i h
      simp [h]
    · rename_i h _
      simp_all

theorem order_ne_lt {α : Type} [LinearOrder α] (a b : α) : order a b ≠ .lt ↔ b ≤ a := by
  unfold order
  split
  · rename_i h
    simp [h]
  · split <;> simp_all

private theorem order_map {α β : Type} [LT α] [DecidableLT α] [LT β] [DecidableLT β]
    (f : α → β) (hf : ∀ x y, x < y ↔ f x < f y) (a b : α) :
    order a b = order (f a) (f b) := by
  simp only [order, hf]

/-- The order that `ecm_ctl_val_cmp` computes is that of the numbers, for
values of the kind of the type. -/
theorem valCmp_le {fp : Fp D} {t : CType} {v lim : Val D}
    (hv : v.Of t) (hlim : lim.Of t) :
    (ecmCtlValCmp fp t v lim ≠ .gt ↔ v.Le fp lim) ∧
      (ecmCtlValCmp fp t v lim ≠ .lt ↔ lim.Le fp v) := by
  unfold ecmCtlValCmp
  cases v with
  | i x =>
    have hs : isSigned t = true := hv
    cases lim with
    | i y =>
      rw [if_pos hs]
      show (order x y ≠ _ ↔ x.toInt ≤ y.toInt) ∧ (order x y ≠ _ ↔ y.toInt ≤ x.toInt)
      rw [order_map Int64.toInt (fun _ _ => Int64.lt_iff_toInt_lt)]
      exact ⟨order_ne_gt _ _, order_ne_lt _ _⟩
    | u y => exact (not_signed_unsigned hs hlim).elim
    | d y =>
      subst (hlim : t = .f32)
      cases hs
  | u x =>
    have hu : isUnsigned t = true := hv
    cases lim with
    | i y => exact (not_signed_unsigned hlim hu).elim
    | u y =>
      have hs : ¬ isSigned t = true := fun hs => not_signed_unsigned hs hu
      rw [if_neg hs, if_pos hu]
      show (order x y ≠ _ ↔ (x.toNat : Int) ≤ y.toNat) ∧ (order x y ≠ _ ↔ (y.toNat : Int) ≤ x.toNat)
      rw [order_map UInt64.toNat (fun _ _ => UInt64.lt_iff_toNat_lt), Int.ofNat_le, Int.ofNat_le]
      exact ⟨order_ne_gt _ _, order_ne_lt _ _⟩
    | d y => subst (hlim : t = .f32); cases hu
  | d x =>
    subst (hv : t = .f32)
    cases lim with
    | i y => cases hlim
    | u y => cases hlim
    | d y => exact ⟨order_ne_gt (fp.val x) (fp.val y), order_ne_lt (fp.val x) (fp.val y)⟩

/-! ### Bytes -/

theorem toNat_toUInt64 (x : Int64) : (x.toUInt64.toNat : Int) = x.toInt % 2 ^ 64 := by
  have hbv : x.toInt = x.toBitVec.toInt := rfl
  have hnat : x.toUInt64.toNat = x.toBitVec.toNat := rfl
  have hlt := x.toBitVec.isLt
  have hmod : (x.toBitVec.toNat : Int).bmod (2 ^ 64) % (2 ^ 64 : Nat) =
      x.toBitVec.toNat % (2 ^ 64 : Nat) := Int.bmod_emod
  rw [hbv, hnat, BitVec.toInt_eq_toNat_bmod]
  omega

private theorem byte_eq (m n i : Nat) (hi : i < n) :
    m / 2 ^ (8 * i) % 2 ^ 8 = m % 2 ^ (8 * n) / 2 ^ (8 * i) % 2 ^ 8 := by
  apply Nat.eq_of_testBit_eq
  intro j
  simp only [Nat.testBit_mod_two_pow, Nat.testBit_div_two_pow]
  by_cases hj : j < 8
  · have hbound : j + 8 * i < 8 * n := by omega
    simp [hj, hbound]
  · simp [hj]

/-- The low bytes of a word that is `x` modulo `2 ^ 64`. -/
private theorem bytes_eq {raw : UInt64} {x : Int} (hraw : (raw.toNat : Int) = x % 2 ^ 64)
    {n : Nat} (hn : n ≤ 8) :
    (List.range n).map (fun i => (raw >>> UInt64.ofNat (8 * i)).toUInt8) = twosComplement n x := by
  unfold twosComplement
  apply List.map_congr_left
  intro i hi
  have hin : i < n := List.mem_range.1 hi
  -- both words agree modulo `2 ^ (8 * n)`
  have hmod : (x % 2 ^ (8 * n)).toNat = raw.toNat % 2 ^ (8 * n) := by
    have hdvd : (2 ^ (8 * n) : Int) ∣ 2 ^ 64 := pow_dvd_pow 2 (by omega)
    have hx : x % 2 ^ (8 * n) = ((raw.toNat % 2 ^ (8 * n) : Nat) : Int) := by
      push_cast
      rw [hraw, Int.emod_emod_of_dvd x hdvd]
    rw [hx, Int.toNat_natCast]
  apply UInt8.toNat_inj.1
  rw [UInt64.toNat_toUInt8, UInt64.toNat_shiftRight, UInt8.toNat_ofNat', hmod,
    UInt64.toNat_ofNat', Nat.shiftRight_eq_div_pow]
  have hsmall : 8 * i % 2 ^ 64 % 64 = 8 * i := by omega
  rw [hsmall]
  exact byte_eq raw.toNat n i hin

/-- The word that is sent is the integer modulo `2 ^ 64`, whichever member
holds it. -/
private theorem toNat_rawOf {fp : Fp D} {t : CType} {v : Val D} (hint : t.IsInt)
    (hd : ∀ x, v ≠ .d x) : ((rawOf fp t v).toNat : Int) = v.toInt % 2 ^ 64 := by
  have hf : t ≠ .f32 := by
    rintro rfl
    simp [CType.IsInt, isSigned, isUnsigned] at hint
  unfold rawOf
  rw [if_neg hf]
  cases v with
  | i x =>
    have hword : (if isSigned t = true then (asI (.i x : Val D)).toUInt64 else asU (.i x : Val D)) =
        x.toUInt64 := by
      split <;> rfl
    rw [hword]
    exact toNat_toUInt64 x
  | u x =>
    have hword : (if isSigned t = true then (asI (.u x : Val D)).toUInt64 else asU (.u x : Val D)) =
        x := by
      split <;> rfl
    rw [hword]
    show (x.toNat : Int) = (x.toNat : Int) % 2 ^ 64
    have hlt := x.toNat_lt
    omega
  | d x => exact absurd rfl (hd x)

/-- An integer type takes the integers between its bounds, whichever member
holds them, and no double. -/
theorem fits_iff {fp : Fp D} {t : CType} {v : Val D} (hint : t.IsInt) :
    ecmCtlValFits fp t v = true ↔
      (∀ x, v ≠ .d x) ∧ t.least ≤ v.toInt ∧ v.toInt ≤ t.greatest := by
  cases v with
  | d x => cases t <;> simp_all [CType.IsInt, ecmCtlValFits, isSigned, isUnsigned]
  | i x =>
    have hlo := x.le_toInt
    have hhi := x.toInt_lt
    cases t <;> simp [CType.IsInt, isSigned, isUnsigned] at hint <;>
      simp [ecmCtlValFits, isSigned, isUnsigned, ecmCtlTypeSize, CType.least, CType.greatest,
        Val.toInt, -Int64.toNat_toInt] <;>
      omega
  | u x =>
    have hhi := x.toNat_lt
    cases t <;> simp [CType.IsInt, isSigned, isUnsigned] at hint <;>
      simp [ecmCtlValFits, isSigned, isUnsigned, ecmCtlTypeSize, CType.least, CType.greatest,
        Val.toInt] <;>
      omega

/-- `ecm_ctl_encode` sends the two's-complement bytes of an integer. -/
theorem encode_eq {fp : Fp D} {t : CType} {v : Val D} {b : Text} (hint : t.IsInt)
    (h : ecmCtlEncode fp t v = some b) :
    b = twosComplement (ecmCtlTypeSize t) v.toInt := by
  unfold ecmCtlEncode at h
  split at h
  · rename_i hfits
    rw [← Option.some.inj h]
    exact bytes_eq (toNat_rawOf hint ((fits_iff hint).1 hfits).1) (size_le t)
  · cases h

/-! ### Decoding -/

theorem toNat_wordOf {b : Text} (hb : b.length ≤ 8) :
    (wordOf b).toNat = b.foldr (fun c acc => c.toNat + 256 * acc) 0 ∧
      (wordOf b).toNat < 256 ^ b.length := by
  induction b with
  | nil => exact ⟨rfl, by decide⟩
  | cons c b ih =>
    obtain ⟨hval, hlt⟩ := ih (by simp at hb; omega)
    have hc : c.toNat < 2 ^ 8 := c.toNat_lt
    have hroom : (wordOf b).toNat < 256 ^ 7 :=
      Nat.lt_of_lt_of_le hlt (Nat.pow_le_pow_right (by decide) (by simp at hb; omega))
    have hstep : (wordOf (c :: b)).toNat = c.toNat + 256 * (wordOf b).toNat := by
      show (c.toUInt64 ||| wordOf b <<< 8).toNat = _
      rw [UInt64.toNat_or, UInt64.toNat_shiftLeft, UInt8.toNat_toUInt64, Nat.shiftLeft_eq]
      have hwrap : (wordOf b).toNat * 2 ^ ((8 : UInt64).toNat % 64) % 2 ^ 64 =
          2 ^ 8 * (wordOf b).toNat := by
        rw [show (8 : UInt64).toNat % 64 = 8 from rfl]
        omega
      rw [hwrap, Nat.or_comm, ← Nat.two_pow_add_eq_or_of_lt hc]
      omega
    refine ⟨by rw [hstep, hval]; rfl, ?_⟩
    rw [hstep, List.length_cons, Nat.pow_succ]
    omega

theorem foldr_bytes (m n : Nat) :
    ((List.range n).map fun i => UInt8.ofNat (m / 2 ^ (8 * i))).foldr
      (fun c acc => c.toNat + 256 * acc) 0 = m % 2 ^ (8 * n) := by
  induction n generalizing m with
  | zero => simp [Nat.mod_one]
  | succ n ih =>
    rw [List.range_succ_eq_map, List.map_cons, List.foldr_cons, List.map_map]
    have hrest : ((fun i => UInt8.ofNat (m / 2 ^ (8 * i))) ∘ Nat.succ) =
        fun i => UInt8.ofNat (m / 256 / 2 ^ (8 * i)) := by
      funext i
      simp only [Function.comp_apply, Nat.succ_eq_add_one, Nat.div_div_eq_div_mul]
      rw [show 8 * (i + 1) = 8 + 8 * i by omega, Nat.pow_add]
    rw [hrest, ih, UInt8.toNat_ofNat', Nat.mul_zero, Nat.pow_zero, Nat.div_one,
      show 8 * (n + 1) = 8 + 8 * n by omega, Nat.pow_add, Nat.mod_mul]

/-- The bytes of an integer make the integer modulo their number. -/
theorem toNat_wordOf_twosComplement {n : Nat} (hn : n ≤ 8) (x : Int) :
    ((wordOf (twosComplement n x)).toNat : Int) = x % 2 ^ (8 * n) := by
  have hlen : (twosComplement n x).length ≤ 8 := by simpa [twosComplement] using hn
  have hpos : (0 : Int) < 2 ^ (8 * n) := Int.pow_pos (by decide)
  have hlt := Int.emod_lt_of_pos x hpos
  have hge := Int.emod_nonneg x (Int.ne_of_gt hpos)
  rw [(toNat_wordOf hlen).1, twosComplement, foldr_bytes, Nat.mod_eq_of_lt]
  · exact Int.toNat_of_nonneg hge
  · refine Int.ofNat_lt.1 ?_
    rw [Int.toNat_of_nonneg hge]
    exact_mod_cast hlt

theorem decInt_natCast (n : Nat) : decInt n = dec n := by
  rw [decInt, if_neg (by omega), Int.natAbs_natCast]

/-- A word with its sign in bit `w - 1`, as the number that it is modulo `2 ^ w`. -/
theorem toInt_eq_of_emod {w : Nat} {b : BitVec w} {x : Int} (hb : (b.toNat : Int) = x % 2 ^ w)
    (hlo : -2 ^ w ≤ 2 * x) (hhi : 2 * x < 2 ^ w) : b.toInt = x := by
  rw [BitVec.toInt_eq_toNat_bmod, hb]
  have hcast : ((2 ^ w : Nat) : Int) = 2 ^ w := by norm_cast
  rw [← hcast, Int.emod_bmod]
  exact Int.bmod_eq_of_le_mul_two (by omega) (by omega)

/-- What the branch of `ecm_ctl_decode_json` for an integer type prints. -/
theorem decoded_eq {raw : UInt64} {t : CType} {x : Int} (hint : t.IsInt)
    (hraw : (raw.toNat : Int) = x % 2 ^ (8 * ecmCtlTypeSize t)) (hlo : t.least ≤ x)
    (hhi : x ≤ t.greatest) (other : Text) :
    (match (motive := CType → Text) t with
      | .i8 => decInt raw.toUInt8.toInt8.toInt
      | .i16 => decInt raw.toUInt16.toInt16.toInt
      | .i32 => decInt raw.toUInt32.toInt32.toInt
      | .i64 => decInt raw.toInt64.toInt
      | .f32 => other
      | _ => dec raw.toNat) = decInt x := by
  cases t <;> simp only [CType.least, CType.greatest, isSigned, ecmCtlTypeSize] at hlo hhi hraw ⊢
  case f32 | raw => simp [CType.IsInt, isSigned, isUnsigned] at hint
  case u8 | u16 | u32 | u64 =>
    have hx : x = raw.toNat := by simp at hlo hhi; omega
    rw [hx, decInt_natCast]
  case i8 =>
    refine congrArg decInt (toInt_eq_of_emod (b := raw.toUInt8.toBitVec) ?_ ?_ ?_)
    · have : raw.toUInt8.toBitVec.toNat = raw.toNat % 256 := UInt64.toNat_toUInt8 raw
      omega
    · simp at hlo; omega
    · simp at hhi; omega
  case i16 =>
    refine congrArg decInt (toInt_eq_of_emod (b := raw.toUInt16.toBitVec) ?_ ?_ ?_)
    · have : raw.toUInt16.toBitVec.toNat = raw.toNat % 65536 := UInt64.toNat_toUInt16 raw
      omega
    · simp at hlo; omega
    · simp at hhi; omega
  case i32 =>
    refine congrArg decInt (toInt_eq_of_emod (b := raw.toUInt32.toBitVec) ?_ ?_ ?_)
    · have : raw.toUInt32.toBitVec.toNat = raw.toNat % 4294967296 := UInt64.toNat_toUInt32 raw
      omega
    · simp at hlo; omega
    · simp at hhi; omega
  case i64 =>
    refine congrArg decInt (toInt_eq_of_emod (b := raw.toBitVec) ?_ ?_ ?_)
    · exact hraw
    · simp at hlo; omega
    · simp at hhi; omega

/-- `ecm_ctl_decode_json` of the bytes of an integer of the type. -/
theorem decodeJson_twosComplement {fp : Fp D} {t : CType} (hint : t.IsInt) {x : Int}
    (hlo : t.least ≤ x) (hhi : x ≤ t.greatest) (cap : Nat) :
    ecmCtlDecodeJson fp t (twosComplement (ecmCtlTypeSize t) x) cap =
      (if (decInt x).length < cap then (decInt x).length else 0, some (clip cap (decInt x))) := by
  have hlen : (twosComplement (ecmCtlTypeSize t) x).length = ecmCtlTypeSize t := by
    simp [twosComplement]
  have hraw : t ≠ .raw := by
    rintro rfl
    simp [CType.IsInt, isSigned, isUnsigned] at hint
  have hword := toNat_wordOf_twosComplement (size_le t) x
  unfold ecmCtlDecodeJson
  rw [if_neg (by simp [hraw, hlen])]
  have hprint := decoded_eq hint hword hlo hhi
    (fp.f32Json (wordOf (twosComplement (ecmCtlTypeSize t) x)).toUInt32)
  dsimp only
  rw [hprint]

/-- A 64-bit integer has at most 20 characters. -/
theorem length_decInt_le_twenty {x : Int} (hlo : -2 ^ 63 ≤ x) (hhi : x < 2 ^ 64) :
    (decInt x).length ≤ 20 := by
  unfold decInt
  split
  · have : (dec x.natAbs).length ≤ 19 := Rfc8259.length_dec_le (by decide) (by omega)
    rw [List.length_cons]
    omega
  · exact Rfc8259.length_dec_le (by decide) (by omega)

/-! ### Comparing -/

/-- The member that is compared holds the integer, for a value that fits. -/
theorem toInt_asI {t : CType} {fp : Fp D} {v : Val D} (hs : isSigned t = true)
    (h : ecmCtlValFits fp t v = true) : (asI v).toInt = v.toInt := by
  obtain ⟨hd, -, hhi⟩ := (fits_iff (.inl hs)).1 h
  cases v with
  | i x => rfl
  | d x => exact absurd rfl (hd x)
  | u x =>
    have hmost : t.greatest ≤ 2 ^ 63 - 1 := by
      cases t <;> simp_all [CType.greatest, isSigned, ecmCtlTypeSize]
    have hx : (x.toNat : Int) ≤ t.greatest := hhi
    refine toInt_eq_of_emod (b := x.toBitVec) ?_ ?_ ?_
    · show (x.toNat : Int) = (x.toNat : Int) % 2 ^ 64
      omega
    · show -2 ^ 64 ≤ 2 * (x.toNat : Int)
      omega
    · show 2 * (x.toNat : Int) < 2 ^ 64
      omega

theorem toNat_asU {t : CType} {fp : Fp D} {v : Val D} (hu : isUnsigned t = true)
    (h : ecmCtlValFits fp t v = true) : ((asU v).toNat : Int) = v.toInt := by
  obtain ⟨hd, hlo, -⟩ := (fits_iff (.inr hu)).1 h
  cases v with
  | i x =>
    have hzero : t.least = 0 := if_neg fun hs => not_signed_unsigned hs hu
    have hx : t.least ≤ x.toInt := hlo
    have hlt := x.toInt_lt
    show (x.toUInt64.toNat : Int) = x.toInt
    rw [toNat_toUInt64]
    omega
  | u x => rfl
  | d x => exact absurd rfl (hd x)

theorem order_eq_compare (a b : Int) : order a b = compare a b := by
  show order a b = compareOfLessAndEq a b
  unfold order compareOfLessAndEq
  by_cases hlt : a < b
  · rw [if_pos hlt, if_pos hlt]
  · rw [if_neg hlt, if_neg hlt]
    by_cases heq : a = b
    · rw [if_pos heq, if_neg (by omega)]
    · rw [if_neg heq, if_pos (by omega)]

/-- Values that fit an integer type are compared as integers, whichever members hold
them. -/
theorem valCmp_eq_compare {fp : Fp D} {t : CType} (hint : t.IsInt)
    {v w : Val D} (hv : ecmCtlValFits fp t v = true) (hw : ecmCtlValFits fp t w = true) :
    ecmCtlValCmp fp t v w = compare v.toInt w.toInt := by
  rw [← order_eq_compare]
  unfold ecmCtlValCmp
  by_cases hs : isSigned t = true
  · rw [if_pos hs, order_map Int64.toInt (fun _ _ => Int64.lt_iff_toInt_lt), toInt_asI hs hv,
      toInt_asI hs hw]
  · have hu : isUnsigned t = true := hint.resolve_left hs
    have hmap : ∀ a b : UInt64, a < b ↔ (a.toNat : Int) < b.toNat := by
      intro a b
      rw [Int.ofNat_lt]
      exact UInt64.lt_iff_toNat_lt
    rw [if_neg hs, if_pos hu, order_map (fun x : UInt64 => (x.toNat : Int)) hmap,
      toNat_asU hu hv, toNat_asU hu hw]

/-! ### The round trip -/

/-- `ecm_ctl_encode` takes exactly the integers of the type, whichever member holds them;
`ecm_ctl_decode_json` prints the bytes back as the same integer, into a buffer of 21
bytes or more; and `ecm_ctl_val_cmp` compares those that fit as integers. -/
theorem integer_round_trip (fp : Fp D) {t : CType} (hint : t.IsInt)
    {v : Val D} (hv : ∀ x, v ≠ .d x) :
    ((ecmCtlEncode fp t v).isSome ↔ t.least ≤ v.toInt ∧ v.toInt ≤ t.greatest) ∧
    (∀ b, ecmCtlEncode fp t v = some b → b.length = ecmCtlTypeSize t ∧
      ∀ cap, 21 ≤ cap →
        ecmCtlDecodeJson fp t b cap = ((decInt v.toInt).length, some (decInt v.toInt))) ∧
    (∀ w, ecmCtlValFits fp t v = true → ecmCtlValFits fp t w = true →
      ecmCtlValCmp fp t v w = compare v.toInt w.toInt) := by
  have hfits : ecmCtlValFits fp t v = true ↔
      (∀ x, v ≠ .d x) ∧ t.least ≤ v.toInt ∧ v.toInt ≤ t.greatest := fits_iff hint
  refine ⟨?_, ?_, fun w hv hw => valCmp_eq_compare hint hv hw⟩
  · unfold ecmCtlEncode
    constructor
    · intro h
      split at h
      · rename_i hok
        exact (hfits.1 hok).2
      · exact absurd h (by simp)
    · intro h
      rw [if_pos (hfits.2 ⟨hv, h⟩)]
      rfl
  · intro b hb
    have hok : ecmCtlValFits fp t v = true := by
      by_contra hno
      rw [ecmCtlEncode, if_neg hno] at hb
      exact absurd hb (by simp)
    obtain ⟨-, hlo, hhi⟩ := hfits.1 hok
    have hword : (decInt v.toInt).length ≤ 20 := by
      refine length_decInt_le_twenty (Int.le_trans ?_ hlo) (Int.lt_of_le_of_lt hhi ?_)
      · cases t <;> decide
      · cases t <;> decide
    rw [encode_eq hint hb]
    refine ⟨by simp [twosComplement], ?_⟩
    intro cap hcap
    rw [decodeJson_twosComplement hint hlo hhi, if_pos (by omega), clip,
      List.take_of_length_le (by omega)]

/-- A machine without floating point. -/
def noFp : Fp Nat :=
  { val := Nat.cast, strtod := fun _ => none, ofInt := Int.toNat, toF32 := fun _ => 0
    g9 := fun _ => [], f32Json := fun _ => [], ms := fun _ => [] }

/-- An `I16` that is given as an unsigned number, and one that is given as a signed
one. -/
theorem integer_round_trip_i16 :
    ecmCtlDecodeJson noFp .i16 [0x2C, 0x01] 32 = (3, some (txt "300")) ∧
      ecmCtlValCmp noFp .i16 (.u 300) (.i (-5)) = .gt := by
  have h := integer_round_trip noFp (t := .i16) (.inl rfl) (v := .u 300) (by simp)
  refine ⟨?_, h.2.2 (.i (-5)) (by decide) (by decide)⟩
  exact (h.2.1 [0x2C, 0x01] (by decide)).2 32 (by decide)

end Numbers

end EcMaster.Api
