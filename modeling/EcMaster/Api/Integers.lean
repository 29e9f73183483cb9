import EcMaster.Api.Document
import EcMaster.Lib.Integers

/-!
# Integers of a request

`ecm_json_i64` and `ecm_json_u64` read a number token, or a string token such as
`"0x6061"`, with `strtoll` and `strtoull`.  The documentation allows decimal and
hexadecimal integers and no octal ones, and the code looks for a leading zero
(`octal`).  It looks at the first two bytes of the text only.  With base `0` the
conversions skip blanks and take a sign before they look for the leading zero, so
`"-010"` is read as `-8`, `"+5"` and `" 5"` as `5`, and `strtoull` reads `" -5"` as
`2 ^ 64 - 5` (`octal_behind_sign`).

`exactI64` and `exactU64` are what the two functions are for, by the grammar
`integerText`.  `integers_exact_iff` says for which tokens of an accepted text they
do that.
-/

namespace EcMaster.Api

open EcMaster.ByteImage EcMaster.CText EcMaster.Rfc8259

/-- The text of a token as the integer functions copy it. -/
def rawText (s : Image) (tk : Tok) : Text := slice s tk.start (tk.stop - tk.start)

/-- An integer as an `int64_t`. -/
def fitI64 (x : Int) : Option Int64 :=
  if -2 ^ 63 ≤ x ∧ x < 2 ^ 63 then some (Int64.ofInt x) else none

/-- An integer as a `uint64_t`. -/
def fitU64 (x : Int) : Option UInt64 :=
  if 0 ≤ x ∧ x < 2 ^ 64 then some (UInt64.ofNat x.toNat) else none

/-- The integer of a text, if it is one and in range. -/
def exactI64 (t : Text) : Option Int64 := (integerText t).bind fitI64

def exactU64 (t : Text) : Option UInt64 := (integerText t).bind fitU64

/-- Blanks or a plus sign in front. -/
def loose (t : Text) : Bool := t.head?.any fun c => isSpace c || c == ch '+'

/-- A minus sign, a zero, and more. -/
def minusZero : Text → Bool
  | m :: z :: _ :: _ => m == ch '-' && z == ch '0'
  | _ => false

/-- A text that `ecm_json_i64` reads as documented. -/
structure PlainI64 (t : Text) : Prop where
  front : t.length < 40 → ∀ neg mag, whole 0 t = some (neg, mag) →
    (fitI64 (signedInt neg mag)).isSome = true → loose t = false ∧ minusZero t = false
  short : ∀ x, integerText t = some x → (fitI64 x).isSome = true → t.length < 40

/-- A text that `ecm_json_u64` reads as documented. -/
structure PlainU64 (t : Text) : Prop where
  front : t.length < 40 → ∀ neg mag, whole 0 t = some (neg, mag) → mag < 2 ^ 64 → loose t = false
  minus : t ≠ [ch '-', ch '0']
  short : ∀ x, integerText t = some x → (fitU64 x).isSome = true → t.length < 40

/-! ## The conversions -/

/-- What the checks behind `strtoull` let through. -/
def wrapU64 (r : Bool × Nat) : Option UInt64 :=
  if r.2 < 2 ^ 64 then some (if r.1 then -UInt64.ofNat r.2 else UInt64.ofNat r.2) else none

theorem strtoll_whole (base : Nat) (t : Text) :
    (if refused (strtoll base t) then none else some (strtoll base t).value) =
      (whole base t).bind fun r => fitI64 (signedInt r.1 r.2) := by
  have hwhole := strtoInt_whole base t
  unfold strtoll
  cases hst : strtoInt base t with
  | none =>
      rw [whole_eq_none fun neg mag h => by rw [hst] at h; cases h]
      simp [refused]
  | some r =>
      obtain ⟨neg, mag, rest⟩ := r
      simp only
      cases rest with
      | nil =>
          rw [(hwhole neg mag).1 hst, Option.bind_some]
          change _ = fitI64 (if neg then -(mag : Int) else mag)
          generalize (if neg then -(mag : Int) else mag) = x
          unfold fitI64
          by_cases hlo : x < -2 ^ 63
          · rw [if_pos hlo, if_neg (fun h : -2 ^ 63 ≤ x ∧ x < 2 ^ 63 => absurd hlo (by omega))]
            rfl
          · by_cases hhi : 2 ^ 63 ≤ x
            · rw [if_neg hlo, if_pos hhi,
                if_neg (fun h : -2 ^ 63 ≤ x ∧ x < 2 ^ 63 => absurd hhi (by omega))]
              rfl
            · have hfit : -2 ^ 63 ≤ x ∧ x < 2 ^ 63 := by omega
              rw [if_neg hlo, if_neg hhi, if_pos hfit]
              rfl
      | cons c rest =>
          rw [whole_eq_none fun neg mag h => by rw [hst] at h; cases h]
          split_ifs <;> simp_all [refused]

theorem strtoull_whole (base : Nat) (t : Text) :
    (if refused (strtoull base t) then none else some (strtoull base t).value) =
      (whole base t).bind wrapU64 := by
  have hwhole := strtoInt_whole base t
  unfold strtoull
  cases hst : strtoInt base t with
  | none =>
      rw [whole_eq_none fun neg mag h => by rw [hst] at h; cases h]
      simp [refused]
  | some r =>
      obtain ⟨neg, mag, rest⟩ := r
      simp only
      cases rest with
      | nil =>
          rw [(hwhole neg mag).1 hst, Option.bind_some]
          unfold wrapU64
          by_cases hhi : 2 ^ 64 ≤ mag
          · rw [if_pos hhi, if_neg (Nat.not_lt.2 hhi)]
            rfl
          · rw [if_neg hhi, if_pos (Nat.lt_of_not_le hhi)]
            rfl
      | cons c rest =>
          rw [whole_eq_none fun neg mag h => by rw [hst] at h; cases h]
          split_ifs <;> simp_all [refused]

/-! ## Texts -/

/-- How a text begins, and what that means to the grammar and to the conversions. -/
inductive Front (t : Text) : Prop
  /-- blanks or a plus sign, or a zero with more behind a minus sign: no integer -/
  | odd (h : loose t = true ∨ minusZero t = true) (hint : integerText t = none)
      (hoct : octalMark t = false)
  /-- a minus sign -/
  | minus (u : Text) (ht : t = ch '-' :: u) (hloose : loose t = false) (hzero : minusZero t = false)
      (hwhole : whole 0 t = (decimal u).map fun n => (true, n))
  /-- a zero and a digit: no integer -/
  | octal (hloose : loose t = false) (hzero : minusZero t = false) (hint : integerText t = none)
      (hoct : octalMark t = true) (hminus : t.head? ≠ some (ch '-'))
  /-- anything else -/
  | plain (hloose : loose t = false) (hzero : minusZero t = false) (hoct : octalMark t = false)
      (hminus : t.head? ≠ some (ch '-'))
      (hwhole : whole 0 t = (unsignedText t).map fun n => (false, n))

/-- A blank or a plus sign is no part of an integer. -/
theorem not_digit_of_loose (c : UInt8) (h : (isSpace c || c == ch '+') = true) :
    Rfc8259.isDigit c = false ∧ c ≠ ch '-' ∧ c ≠ ch '0' := by
  have hall : ∀ c, (isSpace c || c == ch '+') = true →
      Rfc8259.isDigit c = false ∧ c ≠ ch '-' ∧ c ≠ ch '0' := forall_byte (by decide +kernel)
  exact hall c h

theorem front (t : Text) : Front t := by
  cases t with
  | nil => exact .plain rfl rfl rfl (by decide) rfl
  | cons c u =>
    by_cases hloose : (isSpace c || c == ch '+') = true
    · obtain ⟨hdigit, hminus, hzero⟩ := not_digit_of_loose c hloose
      have hmark : hexMark (c :: u) = false := by
        cases u <;> simp [hexMark, hzero]
      refine .odd (.inl hloose) ?_ ?_
      · have hhead : (c :: u).head? ≠ some (ch '-') := fun h => hminus (Option.some.inj h)
        rw [integerText, if_neg hhead, unsignedText_of_not_hex hmark, decimal_none_of_head hdigit]
        rfl
      · cases u <;> simp [octalMark, hzero]
    have hspace : isSpace c = false := by
      cases hc : isSpace c
      · rfl
      · simp [hc] at hloose
    have hplus : c ≠ ch '+' := by
      rintro rfl
      exact hloose (by decide)
    have hloose : loose (c :: u) = false := Bool.eq_false_iff.2 hloose
    have hdrop : (c :: u).dropWhile isSpace = c :: u := by simp [hspace]
    by_cases hminus : c = ch '-'
    · subst hminus
      have hwhole : whole 0 (ch '-' :: u) = (magnitude 0 u).map fun n => (true, n) := by
        unfold whole
        rw [hdrop]
        rfl
      rcases u with _ | ⟨z, _ | ⟨x, rest⟩⟩
      · exact .minus [] rfl hloose rfl hwhole
      · refine .minus [z] rfl hloose rfl ?_
        rw [hwhole, magnitude_zero rfl, unsignedText_of_not_hex rfl]
      · by_cases hz : z = ch '0'
        · subst hz
          refine .odd (.inr rfl) ?_ rfl
          rw [integerText_minus, decimal_none_of_zero]
          rfl
        · have hoct : octalMark (z :: x :: rest) = false := by simp [octalMark, hz]
          have hmark : hexMark (z :: x :: rest) = false := by simp [hexMark, hz]
          refine .minus _ rfl hloose (by simp [minusZero, hz]) ?_
          rw [hwhole, magnitude_zero hoct, unsignedText_of_not_hex hmark]
    · have hzero : minusZero (c :: u) = false := by
        rcases u with _ | ⟨_, _ | ⟨_, _⟩⟩
        · rfl
        · rfl
        · simp [minusZero, hminus]
      have hhead : (c :: u).head? ≠ some (ch '-') := fun h => hminus (Option.some.inj h)
      have hwhole : whole 0 (c :: u) = (magnitude 0 (c :: u)).map fun n => (false, n) := by
        have hsign : signOf (c :: u) = (false, c :: u) := by simp [signOf, hminus, hplus]
        unfold whole
        rw [hdrop, hsign]
      cases hoct : octalMark (c :: u) with
      | true =>
          refine .octal hloose hzero ?_ hoct hhead
          rw [integerText, if_neg hhead, unsignedText_of_octalMark hoct]
          rfl
      | false =>
          refine .plain hloose hzero hoct hhead ?_
          rw [hwhole, magnitude_zero hoct]

theorem exactI64_none {t : Text} (h : integerText t = none) : exactI64 t = none := by
  rw [exactI64, h]
  rfl

theorem exactU64_none {t : Text} (h : integerText t = none) : exactU64 t = none := by
  rw [exactU64, h]
  rfl

/-- What `ecm_json_i64` does with the text of a string. -/
def readI64 (t : Text) : Option Int64 :=
  if octalMark t then none else (whole 0 t).bind fun r => fitI64 (signedInt r.1 r.2)

/-- What `ecm_json_u64` does with the text of a string. -/
def readU64 (t : Text) : Option UInt64 :=
  if t.head? = some (ch '-') then none
  else if octalMark t then none
  else (whole 0 t).bind wrapU64

theorem readI64_iff (t : Text) :
    readI64 t = exactI64 t ↔ ∀ neg mag, whole 0 t = some (neg, mag) →
      (fitI64 (signedInt neg mag)).isSome = true → loose t = false ∧ minusZero t = false := by
  cases front t with
  | odd h hint hoct =>
      rw [exactI64_none hint, readI64, hoct, if_neg (by decide)]
      constructor
      · intro hnone neg mag hwhole hfit
        rw [hwhole, Option.bind_some] at hnone
        rw [hnone] at hfit
        cases hfit
      · intro hfront
        cases hwhole : whole 0 t with
        | none => rfl
        | some r =>
            rw [Option.bind_some]
            by_contra hsome
            have hfit := hfront r.1 r.2 hwhole (Option.isSome_iff_ne_none.2 hsome)
            rcases h with h | h
            · rw [hfit.1] at h
              cases h
            · rw [hfit.2] at h
              cases h
  | minus u ht hloose hzero hwhole =>
      have hoct : octalMark t = false := by
        subst ht
        cases u <;> rfl
      refine iff_of_true ?_ fun _ _ _ _ => ⟨hloose, hzero⟩
      rw [readI64, hoct, if_neg (by decide), hwhole, exactI64, ht, integerText_minus]
      cases decimal u <;> rfl
  | octal hloose hzero hint hoct hminus =>
      refine iff_of_true ?_ fun _ _ _ _ => ⟨hloose, hzero⟩
      rw [readI64, hoct, exactI64_none hint, if_pos rfl]
  | plain hloose hzero hoct hminus hwhole =>
      refine iff_of_true ?_ fun _ _ _ _ => ⟨hloose, hzero⟩
      rw [readI64, hoct, if_neg (by decide), hwhole, exactI64, integerText, if_neg hminus]
      cases unsignedText t <;> rfl

theorem wrapU64_false (n : Nat) : wrapU64 (false, n) = fitU64 n := by
  unfold wrapU64 fitU64
  by_cases hn : n < 2 ^ 64
  · have hfit : 0 ≤ (n : Int) ∧ (n : Int) < 2 ^ 64 := by omega
    simp only [if_pos hn, if_pos hfit, Bool.false_eq_true, if_false, Int.toNat_natCast]
  · have hfit : ¬ (0 ≤ (n : Int) ∧ (n : Int) < 2 ^ 64) := by omega
    rw [if_neg hn, if_neg hfit]

theorem fitU64_neg (n : Nat) : (fitU64 (-(n : Int))).isSome = true ↔ n = 0 := by
  unfold fitU64
  split <;> simp <;> omega

theorem readU64_iff (t : Text) :
    readU64 t = exactU64 t ↔
      (∀ neg mag, whole 0 t = some (neg, mag) → mag < 2 ^ 64 → loose t = false) ∧
        t ≠ [ch '-', ch '0'] := by
  cases front t with
  | odd h hint hoct =>
      rw [exactU64_none hint, readU64, hoct]
      by_cases hminus : t.head? = some (ch '-')
      · have hloose : loose t = false := by
          unfold loose
          rw [hminus]
          decide
        rw [if_pos hminus]
        refine iff_of_true rfl ⟨fun _ _ _ _ => hloose, ?_⟩
        rintro rfl
        rcases h with h | h <;> exact absurd h (by decide)
      · rw [if_neg hminus, if_neg (by decide)]
        have hne : t ≠ [ch '-', ch '0'] := by
          rintro rfl
          exact hminus rfl
        have hloose : loose t = true := by
          rcases h with h | h
          · exact h
          · match t, h with
            | m :: z :: x :: rest, h =>
              simp only [minusZero, Bool.and_eq_true, beq_iff_eq] at h
              exact absurd (congrArg some h.1) hminus
        constructor
        · intro hnone
          refine ⟨fun neg mag hwhole hmag => ?_, hne⟩
          rw [hwhole, Option.bind_some, wrapU64, if_pos hmag] at hnone
          cases hnone
        · rintro ⟨hfront, -⟩
          cases hwhole : whole 0 t with
          | none => rfl
          | some r =>
              rw [Option.bind_some, wrapU64, if_neg]
              intro hmag
              rw [hfront r.1 r.2 hwhole hmag] at hloose
              cases hloose
  | minus u ht hloose hzero hwhole =>
      subst ht
      have hread : readU64 (ch '-' :: u) = none :=
        if_pos (rfl : (ch '-' :: u).head? = some (ch '-'))
      rw [hread, exactU64, integerText_minus]
      cases hdec : decimal u with
      | none =>
          refine iff_of_true rfl ⟨fun _ _ _ _ => hloose, ?_⟩
          rintro h
          injection h with _ hu
          subst hu
          rw [decimal_zero] at hdec
          cases hdec
      | some n =>
          rw [Option.map_some, Option.bind_some]
          by_cases hn : n = 0
          · subst hn
            have hu := decimal_eq_zero hdec
            subst hu
            exact iff_of_false (fun h => by cases h) fun h => h.2 rfl
          · have hnone : fitU64 (-(n : Int)) = none :=
              Option.not_isSome_iff_eq_none.1 fun h => hn ((fitU64_neg n).1 h)
            rw [hnone]
            refine iff_of_true rfl ⟨fun _ _ _ _ => hloose, ?_⟩
            rintro h
            injection h with _ hu
            subst hu
            rw [decimal_zero] at hdec
            exact hn (Option.some.inj hdec).symm
  | octal hloose hzero hint hoct hminus =>
      refine iff_of_true ?_ ⟨fun _ _ _ _ => hloose, ?_⟩
      · rw [readU64, if_neg hminus, hoct, if_pos rfl, exactU64_none hint]
      · rintro rfl
        exact hminus rfl
  | plain hloose hzero hoct hminus hwhole =>
      refine iff_of_true ?_ ⟨fun _ _ _ _ => hloose, ?_⟩
      · rw [readU64, if_neg hminus, hoct, if_neg (by decide), hwhole, exactU64, integerText,
          if_neg hminus]
        cases unsignedText t with
        | none => rfl
        | some n =>
            rw [Option.map_some, Option.map_some, Option.bind_some, Option.bind_some]
            exact wrapU64_false n
      · rintro rfl
        exact hminus rfl

/-! ## Tokens -/

/-- A NUL byte in the text of a string stands behind a backslash. -/
theorem cstr_of_chars {t : Text} (h : Chars isEscape t) : cstr t = t ∨ backslash ∈ cstr t := by
  cases h with
  | nil => exact .inl rfl
  | escaped | unicode => exact .inr (by simp [cstr, reverseSolidus, backslash])
  | @unescaped t c hc ht =>
      have hne : c ≠ 0 := by
        rintro rfl
        exact absurd hc (by decide)
      have hcons : cstr (c :: t) = c :: cstr t := by simp [cstr, hne]
      rw [hcons]
      obtain heq | hmem := cstr_of_chars ht
      · exact .inl (by rw [heq])
      · exact .inr (List.mem_cons_of_mem c hmem)

theorem octal_str {tk : Tok} (htype : tk.type = .str) (t : Text) : octal tk t = octalMark t := by
  unfold octal
  rw [htype]
  match t with
  | [] => rfl
  | [z] => exact Bool.and_false _
  | z :: d :: rest => rfl

theorem octal_num {tk : Tok} (htype : tk.type = .num) (t : Text) : octal tk t = false := by
  unfold octal
  rw [htype]
  rfl

theorem head_minus_iff (t : Text) : t.getD 0 0 = ch '-' ↔ t.head? = some (ch '-') := by
  cases t with
  | nil => exact iff_of_false (by decide) nofun
  | cons c t => exact ⟨fun h => congrArg some h, fun h => Option.some.inj h⟩

/-- What the two functions make of a copied text. -/
theorem ecmJsonI64_eq {s : Image} {tk : Tok} {b : Text} (h : intText s tk = some b) :
    ecmJsonI64 s tk = if octal tk b then none
      else (whole (intBase tk) (cstr b)).bind fun r => fitI64 (signedInt r.1 r.2) := by
  unfold ecmJsonI64
  rw [h, Option.bind_some, ← strtoll_whole]
  dsimp only
  cases octal tk b <;> cases refused (strtoll (intBase tk) (cstr b)) <;> rfl

theorem ecmJsonU64_eq {s : Image} {tk : Tok} {b : Text} (h : intText s tk = some b) :
    ecmJsonU64 s tk = if b.head? = some (ch '-') then none else if octal tk b then none
      else (whole (intBase tk) (cstr b)).bind wrapU64 := by
  unfold ecmJsonU64
  rw [h, Option.bind_some, ← strtoull_whole]
  simp only [head_minus_iff]

/-- Both functions read a token of an accepted text as a string of the same text,
unless it is too long. -/
def ReadsText (s : Image) (tk : Tok) : Prop :=
  ecmJsonI64 s tk = (if 40 ≤ (rawText s tk).length then none else readI64 (rawText s tk)) ∧
    ecmJsonU64 s tk = if 40 ≤ (rawText s tk).length then none else readU64 (rawText s tk)

theorem readsText_of_none {s : Image} {tk : Tok} (h : intText s tk = none)
    (hwhole : (rawText s tk).length < 40 → whole 0 (rawText s tk) = none) : ReadsText s tk := by
  have hi : ecmJsonI64 s tk = none := by
    rw [ecmJsonI64, h]
    rfl
  have hu : ecmJsonU64 s tk = none := by
    rw [ecmJsonU64, h]
    rfl
  unfold ReadsText
  rw [hi, hu]
  by_cases hlong : 40 ≤ (rawText s tk).length
  · rw [if_pos hlong, if_pos hlong]
    exact ⟨rfl, rfl⟩
  · have hnone := hwhole (Nat.lt_of_not_le hlong)
    rw [if_neg hlong, if_neg hlong, readI64, readU64, hnone]
    refine ⟨?_, ?_⟩
    · split <;> rfl
    · split
      · rfl
      · split <;> rfl

theorem intText_eq {s : Image} {tk : Tok} (htype : tk.type = .num ∨ tk.type = .str) :
    intText s tk = if rawText s tk = [] ∨ 40 ≤ (rawText s tk).length then none
      else if tk.type = .num ∧ (cstr (rawText s tk)).any
        (fun c => c = ch '.' || c = ch 'e' || c = ch 'E') then none
      else some (rawText s tk) := by
  have hempty : rawText s tk = [] ↔ tk.stop ≤ tk.start := by
    rw [← List.length_eq_zero_iff, rawText, length_slice]
    omega
  have hkind : ¬ (tk.type ≠ .num ∧ tk.type ≠ .str) := by tauto
  unfold intText
  simp only [hempty, if_neg hkind]
  rfl

theorem readsText_str {s : Image} {tk : Tok} (htype : tk.type = .str)
    (hchars : Chars isEscape (rawText s tk)) : ReadsText s tk := by
  have htext : intText s tk = _ := intText_eq (.inr htype)
  have hnum : ¬ tk.type = .num := by simp [htype]
  simp only [hnum, false_and, if_false] at htext
  have hbase : intBase tk = 0 := by simp [intBase, htype]
  by_cases hbad : rawText s tk = [] ∨ 40 ≤ (rawText s tk).length
  · rw [if_pos hbad] at htext
    refine readsText_of_none htext fun hshort => ?_
    rw [hbad.resolve_right (Nat.not_le.2 hshort)]
    rfl
  · rw [if_neg hbad] at htext
    rw [not_or] at hbad
    have hcstr : whole 0 (cstr (rawText s tk)) = whole 0 (rawText s tk) := by
      obtain heq | hmem := cstr_of_chars hchars
      · rw [heq]
      · -- neither conversion gets over a backslash
        have hslash : isNumeralChar backslash = false := by decide
        have hnone : ∀ t : Text, backslash ∈ t → whole 0 t = none := by
          intro t ht
          refine Option.eq_none_iff_forall_ne_some.2 fun r hr => ?_
          rw [mem_whole hr _ ht] at hslash
          cases hslash
        rw [hnone _ hmem, hnone _ (List.takeWhile_subset _ hmem)]
    unfold ReadsText
    rw [if_neg hbad.2, if_neg hbad.2, ecmJsonI64_eq htext, ecmJsonU64_eq htext, hbase, hcstr,
      octal_str htype]
    exact ⟨rfl, rfl⟩

theorem readsText_num {s : Image} {tk : Tok} (htype : tk.type = .num)
    (hnumber : Number (rawText s tk)) : ReadsText s tk := by
  have htext : intText s tk = _ := intText_eq (.inl htype)
  have hbase : intBase tk = 10 := by simp [intBase, htype]
  have hcstr : cstr (rawText s tk) = rawText s tk := by
    refine List.takeWhile_eq_self_iff.2 fun c hc => ?_
    simp only [bne_iff_ne]
    rintro rfl
    exact hnumber.zero_not_mem hc
  have hoct := octalMark_number hnumber
  obtain ⟨minus, int, tail, hminus, hint, htail, hraw⟩ := number_split hnumber
  by_cases hlong : 40 ≤ (rawText s tk).length
  · rw [if_pos (.inr hlong)] at htext
    exact readsText_of_none htext fun hshort => absurd hlong (Nat.not_le.2 hshort)
  have hne : ¬ (rawText s tk = [] ∨ 40 ≤ (rawText s tk).length) := by
    obtain ⟨c, u, rfl, -⟩ := head_of_int hint
    rintro (hnil | hlen)
    · rw [hraw] at hnil
      simp at hnil
    · exact hlong hlen
  rw [if_neg hne, hcstr] at htext
  by_cases hfrac : tail = []
  · subst hfrac
    -- digits and a sign: no point, no exponent
    have hplain : ¬ ((rawText s tk).any
        fun c => c = ch '.' || c = ch 'e' || c = ch 'E') = true := by
      obtain ⟨c, u, rfl, hc, hu⟩ := head_of_int hint
      have hdigit : ∀ x : UInt8, Rfc8259.isDigit x = true →
          (decide (x = ch '.') || decide (x = ch 'e') || decide (x = ch 'E')) = false := by
        rintro x hx
        by_contra hno
        simp only [Bool.not_eq_false, Bool.or_eq_true, decide_eq_true_eq] at hno
        obtain (rfl | rfl) | rfl := hno <;> exact absurd hx (by decide)
      rw [hraw, List.any_eq_true]
      rintro ⟨x, hx, htrue⟩
      have hfalse : (decide (x = ch '.') || decide (x = ch 'e') || decide (x = ch 'E')) = false := by
        simp only [List.append_nil, List.mem_append, List.mem_cons] at hx
        obtain hx | rfl | hx := hx
        · obtain rfl | rfl := hminus
          · cases hx
          · rw [List.mem_singleton.1 hx]
            decide
        · exact hdigit x hc
        · exact hdigit x (hu x hx)
      rw [hfalse] at htrue
      cases htrue
    rw [if_neg fun h => hplain h.2] at htext
    have hten : whole 10 (rawText s tk) = whole 0 (rawText s tk) := by
      rw [hraw]
      exact whole_ten hminus hint
    unfold ReadsText
    rw [if_neg hlong, if_neg hlong, ecmJsonI64_eq htext, ecmJsonU64_eq htext, hbase, hcstr, hten,
      octal_num htype, readI64, readU64, hoct]
    exact ⟨rfl, rfl⟩
  · have hany : ((rawText s tk).any fun c => c = ch '.' || c = ch 'e' || c = ch 'E') = true := by
      obtain rfl | ⟨c, r, rfl, hc⟩ := id htail
      · exact absurd rfl hfrac
      · rw [List.any_eq_true]
        refine ⟨c, by simp [hraw], ?_⟩
        simp only [Bool.or_eq_true, decide_eq_true_eq]
        tauto
    rw [if_pos ⟨htype, hany⟩] at htext
    refine readsText_of_none htext fun _ => ?_
    rw [hraw]
    exact whole_fraction hminus hint htail hfrac

theorem readsText_of_parse {s : Image} {len max : Nat} {toks : List Tok}
    (h : ecmJsonParse s len max = .ok toks) {tk : Tok} (htk : tk ∈ toks)
    (htype : tk.type = .num ∨ tk.type = .str) : ReadsText s tk := by
  have hstands := leaf_of_parse h htk (by rintro hobj; simp [hobj] at htype)
    (by rintro harr; simp [harr] at htype)
  obtain ⟨type, start, stop, size, parent⟩ := tk
  obtain ⟨a, b, hshows⟩ := hstands
  rcases htype with rfl | rfl
  · cases hshows with
    | word h => simp [wordTypes] at h
    | number h => exact readsText_num rfl h
  · cases hshows with
    | word h => simp [wordTypes] at h
    | string h => exact readsText_str rfl h.chars

/-! ## Every token -/

theorem exactI64_eq_none (t : Text) :
    exactI64 t = none ↔ ∀ x, integerText t = some x → ¬ (fitI64 x).isSome = true := by
  unfold exactI64
  rw [Option.bind_eq_none_iff]
  simp only [Option.not_isSome_iff_eq_none]

theorem exactU64_eq_none (t : Text) :
    exactU64 t = none ↔ ∀ x, integerText t = some x → ¬ (fitU64 x).isSome = true := by
  unfold exactU64
  rw [Option.bind_eq_none_iff]
  simp only [Option.not_isSome_iff_eq_none]

theorem plainI64_iff (t : Text) :
    (if 40 ≤ t.length then none else readI64 t) = exactI64 t ↔ PlainI64 t := by
  by_cases hlong : 40 ≤ t.length
  · rw [if_pos hlong, eq_comm, exactI64_eq_none]
    constructor
    · intro hnone
      exact ⟨fun hshort => absurd hlong (Nat.not_le.2 hshort),
        fun x hx hfit => absurd hfit (hnone x hx)⟩
    · intro hplain x hx hfit
      exact absurd hlong (Nat.not_le.2 (hplain.short x hx hfit))
  · have hshort : t.length < 40 := Nat.lt_of_not_le hlong
    rw [if_neg hlong, readI64_iff]
    exact ⟨fun hfront => ⟨fun _ => hfront, fun _ _ _ => hshort⟩, fun hplain => hplain.front hshort⟩

theorem plainU64_iff (t : Text) :
    (if 40 ≤ t.length then none else readU64 t) = exactU64 t ↔ PlainU64 t := by
  by_cases hlong : 40 ≤ t.length
  · rw [if_pos hlong, eq_comm, exactU64_eq_none]
    constructor
    · intro hnone
      refine ⟨fun hshort => absurd hlong (Nat.not_le.2 hshort), ?_,
        fun x hx hfit => absurd hfit (hnone x hx)⟩
      rintro rfl
      exact absurd hlong (by decide)
    · intro hplain x hx hfit
      exact absurd hlong (Nat.not_le.2 (hplain.short x hx hfit))
  · have hshort : t.length < 40 := Nat.lt_of_not_le hlong
    rw [if_neg hlong, readU64_iff]
    exact ⟨fun ⟨hfront, hminus⟩ => ⟨fun _ => hfront, hminus, fun _ _ _ => hshort⟩,
      fun hplain => ⟨hplain.front hshort, hplain.minus⟩⟩

/-- For every number and string token of every accepted text. -/
theorem integers_exact_iff (s : Image) (len max : Nat) (toks : List Tok)
    (h : ecmJsonParse s len max = .ok toks) (tk : Tok) (htk : tk ∈ toks)
    (htype : tk.type = .num ∨ tk.type = .str) :
    (ecmJsonI64 s tk = exactI64 (rawText s tk) ↔ PlainI64 (rawText s tk)) ∧
      (ecmJsonU64 s tk = exactU64 (rawText s tk) ↔ PlainU64 (rawText s tk)) := by
  obtain ⟨hi, hu⟩ := readsText_of_parse h htk htype
  rw [hi, hu]
  exact ⟨plainI64_iff _, plainU64_iff _⟩

/-- The text of one string. -/
def stringText (t : Text) : Image := ofText (quote :: (t ++ [quote]))

/-- Its token. -/
def stringTok (n : Nat) : Tok :=
  { type := .str, start := 1, stop := n + 1, size := 0, parent := none }

/-- A hexadecimal string is plain, and both functions read its value. -/
theorem integers_exact_iff_hex :
    PlainI64 (rawText (stringText (txt "0x61")) (stringTok 4)) ∧
    PlainU64 (rawText (stringText (txt "0x61")) (stringTok 4)) ∧
    ecmJsonI64 (stringText (txt "0x61")) (stringTok 4) = some 97 ∧
    ecmJsonU64 (stringText (txt "0x61")) (stringTok 4) = some 97 := by
  obtain ⟨hi, hu⟩ := integers_exact_iff (stringText (txt "0x61")) 6 1 [stringTok 4] (by rfl)
    (stringTok 4) (by decide) (by decide)
  exact ⟨hi.1 (by decide +kernel), hu.1 (by decide +kernel), by decide +kernel, by decide +kernel⟩

/-- A leading zero behind a sign is octal, and `strtoull` takes a minus sign behind a
blank. -/
theorem octal_behind_sign :
    ecmJsonParse (stringText (txt "-010")) 6 1 = .ok [stringTok 4] ∧
    ecmJsonI64 (stringText (txt "-010")) (stringTok 4) = some (-8) ∧
    exactI64 (rawText (stringText (txt "-010")) (stringTok 4)) = none ∧
    ecmJsonParse (stringText (txt " -5")) 5 1 = .ok [stringTok 3] ∧
    ecmJsonU64 (stringText (txt " -5")) (stringTok 3) = some 18446744073709551611 ∧
    exactU64 (rawText (stringText (txt " -5")) (stringTok 3)) = none := by
  refine ⟨by rfl, by decide +kernel, by decide +kernel, by rfl, by decide +kernel,
    by decide +kernel⟩

end EcMaster.Api
