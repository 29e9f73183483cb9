import EcMaster.Config.Eni
import EcMaster.Lib.Literals

/-!
# The numbers of the configuration

`parse_u32` of `ecm_eni.c`, through which every number of an `.enicfg` file but one
passes.  It calls `strtoull` with base `0` and asks for the end of the token and for 32
bits.

`strtoull` skips blanks, takes a sign, and negates modulo `2 ^ 64` behind a minus sign.  So
there are tokens that `parse_u32` takes although they are no literals: `Dressed` describes
them, and `parseU32_exact_iff` says that there are no others.  A token with blanks comes
out of quotation marks.
-/

namespace EcMaster.Config

open EcMaster.CText
open EcMaster.Records

/-- `parse_u32`: what is stored in `*out`, and nothing when it returns `-1`. -/
def parseU32 (s : Text) : Option UInt32 :=
  let c := strtoull 0 s
  if c.erange || !c.rest.isEmpty || c.nothing || 0xFFFFFFFF < c.value.toNat then none
  else some c.value.toUInt32

/-- The numbers of the loader are those of `parse_u32`. -/
theorem parseU32_toNat (s : Text) : (parseU32 s).map UInt32.toNat = unsigned32 s := by
  unfold parseU32 unsigned32
  dsimp only
  split
  · rfl
  · rename_i hc
    simp only [Bool.or_eq_true, decide_eq_true_eq, not_or] at hc
    rw [Option.map_some, UInt64.toNat_toUInt32, Nat.mod_eq_of_lt (by omega)]

theorem parseU32_eq_some {s : Text} {v : UInt32} :
    parseU32 s = some v ↔ unsigned32 s = some v.toNat := by
  rw [← parseU32_toNat, Option.map_eq_some_iff]
  constructor
  · intro h
    exact ⟨v, h, rfl⟩
  · rintro ⟨w, hw, hsame⟩
    rwa [UInt32.toNat_inj.1 hsame] at hw

/-- `parse_u32` takes a token if and only if it is a literal of at most 32 bits, and then
stores its value. -/
def ExactU32 (s : Text) : Prop := ∀ v : UInt32, parseU32 s = some v ↔ Literal s v.toNat

/-- A literal with blanks or a sign in front of it.  Its value is one of 32 bits, behind a
minus sign modulo `2 ^ 64`. -/
def Dressed (s : Text) : Prop :=
  ∃ blanks sign lit neg n, s = blanks ++ (sign ++ lit) ∧ (∀ c ∈ blanks, isSpace c = true) ∧
    Sign sign neg ∧ blanks ++ sign ≠ [] ∧ Literal lit n ∧ n < 2 ^ 64 ∧ wrapped neg n < 2 ^ 32

/-- A token with something in front of the literal is not a literal. -/
theorem not_literal_of_front {blanks sign lit : Text} {neg : Bool}
    (hblanks : ∀ c ∈ blanks, isSpace c = true) (hsign : Sign sign neg)
    (hfront : blanks ++ sign ≠ []) (n : Nat) : ¬ Literal (blanks ++ (sign ++ lit)) n := by
  intro h
  obtain ⟨c, u, hhead, hc⟩ := h.head
  have hplain := isPlain_of_digit hc
  cases blanks with
  | cons b blanks =>
      obtain ⟨rfl, -⟩ := List.cons.inj hhead
      simp [isPlain, hblanks b (by simp)] at hplain
  | nil =>
      cases hsign with
      | none => exact hfront rfl
      | plus | minus =>
          obtain ⟨rfl, -⟩ := List.cons.inj hhead
          exact absurd hplain (by decide)

/-- What is accepted is a literal, or a dressed one. -/
theorem literal_or_dressed {s : Text} {v : UInt32} (h : parseU32 s = some v) :
    Literal s v.toNat ∨ Dressed s := by
  obtain ⟨neg, mag, hwhole, hmag, hv, hle⟩ := unsigned32_eq_some.1 (parseU32_eq_some.1 h)
  obtain ⟨blanks, sign, lit, rfl, hblanks, hsign, hlit⟩ := whole_eq_some.1 hwhole
  by_cases hfront : blanks ++ sign = []
  · obtain ⟨rfl, rfl⟩ := List.append_eq_nil_iff.1 hfront
    cases hsign
    left
    rw [← hv]
    exact hlit
  · exact .inr ⟨blanks, sign, lit, neg, mag, rfl, hblanks, hsign, hfront, hlit, hmag, by omega⟩

/-- A literal of 32 bits is accepted with its value. -/
theorem parseU32_of_literal {s : Text} {v : UInt32} (h : Literal s v.toNat) :
    parseU32 s = some v := by
  have hv : v.toNat < 2 ^ 32 := v.toNat_lt
  exact parseU32_eq_some.2
    (unsigned32_eq_some.2 ⟨false, v.toNat, h.whole, by omega, rfl, by omega⟩)

/-- So is a dressed literal. -/
theorem Dressed.accepted {s : Text} (h : Dressed s) :
    (∃ v, parseU32 s = some v) ∧ ∀ n, ¬ Literal s n := by
  obtain ⟨blanks, sign, lit, neg, n, rfl, hblanks, hsign, hfront, hlit, hn, hlt⟩ := h
  refine ⟨⟨UInt32.ofNat (wrapped neg n), ?_⟩, not_literal_of_front hblanks hsign hfront⟩
  have hwhole := whole_eq_some.2 ⟨blanks, sign, lit, rfl, hblanks, hsign, hlit⟩
  rw [parseU32_eq_some, UInt32.toNat_ofNat_of_lt' hlt]
  exact unsigned32_eq_some.2 ⟨neg, n, hwhole, hn, rfl, by omega⟩

/-- `parse_u32` is exact on every token but the dressed literals. -/
theorem parseU32_exact_iff (s : Text) : ExactU32 s ↔ ¬ Dressed s := by
  constructor
  · intro hexact hdressed
    obtain ⟨⟨v, hv⟩, hno⟩ := hdressed.accepted
    exact hno v.toNat ((hexact v).1 hv)
  · intro hplain v
    constructor
    · intro h
      exact (literal_or_dressed h).resolve_right hplain
    · exact parseU32_of_literal

/-- A number with a minus sign is accepted as another, positive one. -/
theorem minus_accepted_as_positive :
    tokenize maxTok (txt "slaves -18446744073709551615") =
        [txt "slaves", txt "-18446744073709551615"] ∧
      parseU32 (txt "-18446744073709551615") = some 1 ∧
      ¬ ExactU32 (txt "-18446744073709551615") := by
  have haccepted : parseU32 (txt "-18446744073709551615") = some 1 := by decide +kernel
  refine ⟨by decide +kernel, haccepted, fun h => ?_⟩
  obtain ⟨c, u, hhead, hc⟩ := ((h 1).1 haccepted).head
  have hminus : c = ch '-' := (List.cons.inj hhead).1.symm
  rw [hminus] at hc
  exact absurd hc (by decide)

end EcMaster.Config
