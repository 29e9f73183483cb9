import EcMaster.Lib.CText

/-!
# The grammar of RFC 8259

JSON texts as byte strings.  The productions follow section 2 to section 7 of
the RFC, with one difference: a string is a sequence of bytes, and whether
the bytes are UTF-8 is not looked at.

`Derives` has two counters beside the text: how deep the containers of the
text are nested, and how many values and member names it has.  `Within` is a
JSON text that keeps to a bound on both.

The set of the bytes that make an escape of two characters is a parameter
`esc` of the grammar.  The RFC's own set is `escapes`; a parser that lets
other escapes pass is described by another set.  A derivation depends on the
set only at the bytes of its text (`Derives.imp`).

The productions for the two kinds of containers are the same but for the
brackets and for the names of the members, so one symbol `items obj` stands
for the elements of an array and the members of an object.
-/

namespace EcMaster.Rfc8259

open EcMaster.CText

/-- `ws`: space, tab, line feed, carriage return. -/
def isWs (c : UInt8) : Bool := c == 32 || c == 9 || c == 10 || c == 13

/-- `DIGIT`. -/
def isDigit (c : UInt8) : Bool := ch '0' ≤ c && c ≤ ch '9'

/-- `HEXDIG`. -/
def isHexdig (c : UInt8) : Bool :=
  isDigit c || (ch 'a' ≤ c && c ≤ ch 'f') || (ch 'A' ≤ c && c ≤ ch 'F')

def quotationMark : UInt8 := 34
def reverseSolidus : UInt8 := 92

/-- `unescaped`: no control character, no quotation mark, no reverse
solidus. -/
def isUnescaped (c : UInt8) : Bool := 0x20 ≤ c && c != quotationMark && c != reverseSolidus

/-- The bytes that follow a reverse solidus in an escape of two
characters. -/
def escapes (c : UInt8) : Bool := c ∈ quotationMark :: reverseSolidus :: txt "/bfnrt"

/-- A run of blanks. -/
def Ws (t : Text) : Prop := ∀ c ∈ t, isWs c = true

/-- `1*DIGIT`. -/
def Digits (t : Text) : Prop := t ≠ [] ∧ ∀ c ∈ t, isDigit c = true

/-- `int`. -/
inductive IntPart : Text → Prop
  | zero : IntPart [ch '0']
  | digits {t : Text} (c : UInt8) (hc : isDigit c = true) (hzero : c ≠ ch '0')
      (ht : ∀ x ∈ t, isDigit x = true) : IntPart (c :: t)

/-- `[ frac ]`. -/
inductive FracPart : Text → Prop
  | none : FracPart []
  | some {t : Text} (ht : Digits t) : FracPart (ch '.' :: t)

/-- `[ exp ]`. -/
inductive ExpPart : Text → Prop
  | none : ExpPart []
  | some {e : UInt8} {sign t : Text} (he : e = ch 'e' ∨ e = ch 'E')
      (hsign : sign = [] ∨ sign = [ch '+'] ∨ sign = [ch '-']) (ht : Digits t) :
      ExpPart (e :: (sign ++ t))

/-- `number`. -/
structure Number (t : Text) : Prop where
  parts : ∃ minus int frac exp, (minus = [] ∨ minus = [ch '-']) ∧ IntPart int ∧ FracPart frac ∧
    ExpPart exp ∧ t = minus ++ (int ++ (frac ++ exp))

/-- `*char`: what stands between the quotation marks of a string. -/
inductive Chars (esc : UInt8 → Bool) : Text → Prop
  | nil : Chars esc []
  | unescaped {t : Text} (c : UInt8) (hc : isUnescaped c = true) (ht : Chars esc t) :
      Chars esc (c :: t)
  | escaped {t : Text} (e : UInt8) (he : esc e = true) (ht : Chars esc t) :
      Chars esc (reverseSolidus :: e :: t)
  | unicode {t : Text} (h : Text) (hlen : h.length = 4) (hhex : ∀ c ∈ h, isHexdig c = true)
      (ht : Chars esc t) : Chars esc (reverseSolidus :: ch 'u' :: (h ++ t))

/-- A string with its quotation marks. -/
def quotes (t : Text) : Text := quotationMark :: (t ++ [quotationMark])

def opening (obj : Bool) : UInt8 := if obj then ch '\x7b' else ch '['
def closing (obj : Bool) : UInt8 := if obj then ch '\x7d' else ch ']'

/-- What stands before a value in a container, and the number of names in it:
the name of a member, nothing before an element. -/
inductive Label (esc : UInt8 → Bool) : Bool → Nat → Text → Prop
  | element : Label esc false 0 []
  | member {w t w' : Text} (hw : Ws w) (ht : Chars esc t) (hw' : Ws w') :
      Label esc true 1 (w ++ (quotes t ++ (w' ++ [ch ':'])))

/-- The symbols of the grammar. -/
inductive Sym where
  | value
  | items (obj : Bool)

/-- The words `false`, `null` and `true`. -/
def words : List Text := [txt "false", txt "null", txt "true"]

/-- `Derives esc x d n t`: the text `t` is an `x`, nested `d` deep, with `n`
values and names. -/
inductive Derives (esc : UInt8 → Bool) : Sym → Nat → Nat → Text → Prop
  | word {t : Text} (ht : t ∈ words) : Derives esc .value 0 1 t
  | number {t : Text} (ht : Number t) : Derives esc .value 0 1 t
  | string {t : Text} (ht : Chars esc t) : Derives esc .value 0 1 (quotes t)
  | empty {w : Text} (obj : Bool) (hw : Ws w) :
      Derives esc .value 1 1 (opening obj :: (w ++ [closing obj]))
  | container {d n : Nat} {t : Text} (obj : Bool) (ht : Derives esc (.items obj) d n t) :
      Derives esc .value (d + 1) (n + 1) (opening obj :: (t ++ [closing obj]))
  | last {obj : Bool} {d k n : Nat} {l w v w' : Text} (hl : Label esc obj k l) (hw : Ws w)
      (hv : Derives esc .value d n v) (hw' : Ws w') :
      Derives esc (.items obj) d (k + n) (l ++ (w ++ (v ++ w')))
  | more {obj : Bool} {d k n d' n' : Nat} {l w v w' t : Text} (hl : Label esc obj k l)
      (hw : Ws w) (hv : Derives esc .value d n v) (hw' : Ws w')
      (ht : Derives esc (.items obj) d' n' t) :
      Derives esc (.items obj) (max d d') (k + n + n')
        (l ++ (w ++ (v ++ (w' ++ ch ',' :: t))))

/-- `JSON-text`: a value between blanks. -/
structure JsonText (esc : UInt8 → Bool) (d n : Nat) (t : Text) : Prop where
  parts : ∃ w v w', Ws w ∧ Derives esc .value d n v ∧ Ws w' ∧ t = w ++ (v ++ w')

/-- A JSON text nested at most `depth` deep with at most `count` values and
names. -/
def Within (esc : UInt8 → Bool) (depth count : Nat) (t : Text) : Prop :=
  ∃ d n, d ≤ depth ∧ n ≤ count ∧ JsonText esc d n t

/-! ## First bytes -/

theorem ws_nil : Ws [] := fun _ h => nomatch h

theorem Ws.append {w w' : Text} (h : Ws w) (h' : Ws w') : Ws (w ++ w') := by
  intro c hc
  obtain hc | hc := List.mem_append.mp hc
  · exact h c hc
  · exact h' c hc

theorem Number.head {t : Text} (h : Number t) :
    ∃ c r, t = c :: r ∧ (c = ch '-' ∨ isDigit c = true) := by
  obtain ⟨minus, int, frac, exp, hminus, hint, -, -, rfl⟩ := h.parts
  obtain rfl | rfl := hminus
  · cases hint with
    | zero => exact ⟨_, _, rfl, .inr (by decide)⟩
    | digits c hc _ _ => exact ⟨c, _, rfl, .inr hc⟩
  · exact ⟨_, _, rfl, .inl rfl⟩

/-- The first byte of a value. -/
def starts (c : UInt8) : Prop :=
  c = ch 'f' ∨ c = ch 'n' ∨ c = ch 't' ∨ c = ch '-' ∨ isDigit c = true ∨ c = quotationMark ∨
    c = opening false ∨ c = opening true

theorem Derives.head {esc : UInt8 → Bool} {d n : Nat} {v : Text}
    (h : Derives esc .value d n v) : ∃ c r, v = c :: r ∧ starts c := by
  cases h with
  | word ht =>
      simp only [words, List.mem_cons, List.not_mem_nil, or_false] at ht
      rcases ht with rfl | rfl | rfl
      · exact ⟨_, _, rfl, .inl rfl⟩
      · exact ⟨_, _, rfl, .inr (.inl rfl)⟩
      · exact ⟨_, _, rfl, .inr (.inr (.inl rfl))⟩
  | number ht =>
      obtain ⟨c, r, rfl, hc⟩ := ht.head
      refine ⟨c, r, rfl, ?_⟩
      unfold starts
      tauto
  | string ht =>
      refine ⟨_, _, rfl, ?_⟩
      unfold starts
      tauto
  | empty obj _ =>
      refine ⟨_, _, rfl, ?_⟩
      unfold starts
      cases obj <;> tauto
  | container obj _ =>
      refine ⟨_, _, rfl, ?_⟩
      unfold starts
      cases obj <;> tauto

/-- A value starts with no blank and no closing bracket. -/
theorem starts.not_ws {c : UInt8} (h : starts c) : isWs c = false := by
  unfold starts at h
  rcases h with rfl | rfl | rfl | rfl | h | rfl | rfl | rfl
  case inr.inr.inr.inr.inl =>
    simp only [isDigit, isWs, ch, Bool.and_eq_true, decide_eq_true_eq, Bool.or_eq_false_iff,
      beq_eq_false_iff_ne, ne_eq, UInt8.le_iff_toNat_le] at h ⊢
    refine ⟨⟨⟨?_, ?_⟩, ?_⟩, ?_⟩ <;> rintro rfl <;> revert h <;> decide
  all_goals decide

theorem starts.ne_closing {c : UInt8} (h : starts c) (obj : Bool) : c ≠ closing obj := by
  unfold starts at h
  rintro rfl
  revert h
  cases obj <;> decide

/-- After its blanks, what stands in a container starts with no blank and no
closing bracket. -/
theorem Derives.items_head {esc : UInt8 → Bool} {obj : Bool} {d n : Nat} {t : Text}
    (h : Derives esc (.items obj) d n t) :
    ∃ w c r, Ws w ∧ t = w ++ c :: r ∧ isWs c = false ∧ c ≠ closing obj := by
  have hitem : ∀ {k d n : Nat} {l w v : Text} (rest : Text), Label esc obj k l → Ws w →
      Derives esc .value d n v →
      ∃ w' c r, Ws w' ∧ l ++ (w ++ (v ++ rest)) = w' ++ c :: r ∧ isWs c = false ∧
        c ≠ closing obj := by
    intro k d n l w v rest hl hw hv
    cases hl with
    | element =>
        obtain ⟨c, r, rfl, hc⟩ := hv.head
        exact ⟨w, c, r ++ rest, hw, by simp, hc.not_ws, hc.ne_closing false⟩
    | member hw' _ _ =>
        simp only [quotes, List.append_assoc, List.cons_append]
        exact ⟨_, quotationMark, _, hw', rfl, by decide, by decide⟩
  cases h with
  | last hl hw hv hw' => exact hitem _ hl hw hv
  | more hl hw hv hw' ht => exact hitem _ hl hw hv

/-! ## The set of escapes -/

variable {esc esc' : UInt8 → Bool}

theorem Chars.imp {t : Text} (h : Chars esc t)
    (himp : ∀ c ∈ t, esc c = true → esc' c = true) : Chars esc' t := by
  induction h with
  | nil => exact .nil
  | unescaped c hc _ ih =>
      exact .unescaped c hc (ih fun x hx => himp x (List.mem_cons_of_mem _ hx))
  | escaped e he _ ih =>
      refine .escaped e (himp e (by simp) he) (ih fun x hx => himp x ?_)
      exact List.mem_cons_of_mem _ (List.mem_cons_of_mem _ hx)
  | unicode h hlen hhex _ ih =>
      refine .unicode h hlen hhex (ih fun x hx => himp x ?_)
      simp [hx]

theorem Label.imp {obj : Bool} {k : Nat} {l : Text} (h : Label esc obj k l)
    (himp : ∀ c ∈ l, esc c = true → esc' c = true) : Label esc' obj k l := by
  cases h with
  | element => exact .element
  | member hw ht hw' =>
      exact .member hw (ht.imp fun c hc => himp c (by simp [quotes, hc])) hw'

/-- A derivation uses the set of escapes only at the bytes of its text. -/
theorem Derives.imp {x : Sym} {d n : Nat} {t : Text} (h : Derives esc x d n t)
    (himp : ∀ c ∈ t, esc c = true → esc' c = true) : Derives esc' x d n t := by
  induction h with
  | word ht => exact .word ht
  | number ht => exact .number ht
  | string ht => exact .string (ht.imp fun c hc => himp c (by simp [quotes, hc]))
  | empty obj hw => exact .empty obj hw
  | container obj _ ih => exact .container obj (ih fun c hc => himp c (by simp [hc]))
  | last hl hw _ hw' ih =>
      exact .last (hl.imp fun c hc => himp c (by simp [hc])) hw
        (ih fun c hc => himp c (by simp [hc])) hw'
  | more hl hw _ hw' _ ihv iht =>
      exact .more (hl.imp fun c hc => himp c (by simp [hc])) hw
        (ihv fun c hc => himp c (by simp [hc])) hw' (iht fun c hc => himp c (by simp [hc]))

theorem Within.imp {depth count : Nat} {t : Text} (h : Within esc depth count t)
    (himp : ∀ c ∈ t, esc c = true → esc' c = true) : Within esc' depth count t := by
  obtain ⟨d, n, hd, hn, ⟨w, v, w', hw, hv, hw', rfl⟩⟩ := h
  exact ⟨d, n, hd, hn, w, v, w', hw, hv.imp fun c hc => himp c (by simp [hc]), hw', rfl⟩

/-! ## Control characters

The values without parts have no control characters in them, and the NUL
byte stands in no text of the RFC at all: it is not a blank. -/

theorem Ws.zero_not_mem {t : Text} (h : Ws t) : (0 : UInt8) ∉ t := by
  intro hmem
  exact absurd (h 0 hmem) (by decide)

theorem isDigit_ge {c : UInt8} (h : isDigit c = true) : ¬ c < 0x20 := by
  simp only [isDigit, Bool.and_eq_true, decide_eq_true_eq] at h
  rw [UInt8.not_lt]
  exact UInt8.le_trans (by decide) h.1

/-- The bytes of a number are printable. -/
theorem Number.not_ctl {t : Text} (h : Number t) : ∀ c ∈ t, ¬ c < 0x20 := by
  obtain ⟨minus, int, frac, exp, hminus, hint, hfrac, hexp, rfl⟩ := h.parts
  have hm : ∀ c ∈ minus, ¬ c < 0x20 := by rcases hminus with rfl | rfl <;> decide +kernel
  have hi : ∀ c ∈ int, ¬ c < 0x20 := by
    cases hint with
    | zero => decide +kernel
    | digits c hc _ ht =>
        rw [List.forall_mem_cons]
        exact ⟨isDigit_ge hc, fun x hx => isDigit_ge (ht x hx)⟩
  have hf : ∀ c ∈ frac, ¬ c < 0x20 := by
    cases hfrac with
    | none => decide +kernel
    | some ht =>
        rw [List.forall_mem_cons]
        exact ⟨by decide +kernel, fun x hx => isDigit_ge (ht.2 x hx)⟩
  have he : ∀ c ∈ exp, ¬ c < 0x20 := by
    cases hexp with
    | none => decide +kernel
    | @some e sign t he hsign ht =>
        rw [List.forall_mem_cons]
        refine ⟨by rcases he with rfl | rfl <;> decide, ?_⟩
        intro c hc
        obtain hc | hc := List.mem_append.mp hc
        · have hall : ∀ x ∈ sign, ¬ x < 0x20 := by
            rcases hsign with rfl | rfl | rfl <;> decide +kernel
          exact hall c hc
        · exact isDigit_ge (ht.2 c hc)
  intro c hc
  simp only [List.mem_append] at hc
  rcases hc with hc | hc | hc | hc
  · exact hm c hc
  · exact hi c hc
  · exact hf c hc
  · exact he c hc

/-- Only an escape brings a control character into a string. -/
theorem Chars.not_ctl {t : Text} (h : Chars esc t) :
    ∀ c ∈ t, c < 0x20 → esc c = true := by
  induction h with
  | nil => simp
  | unescaped c hc _ ih =>
      rw [List.forall_mem_cons]
      refine ⟨fun hctl => ?_, ih⟩
      simp only [isUnescaped, Bool.and_eq_true, decide_eq_true_eq] at hc
      exact absurd hc.1.1 (UInt8.not_le.mpr hctl)
  | escaped e he _ ih =>
      rw [List.forall_mem_cons, List.forall_mem_cons]
      exact ⟨fun hctl => absurd hctl (by decide), fun _ => he, ih⟩
  | unicode x hx hhex _ ih =>
      rw [List.forall_mem_cons, List.forall_mem_cons]
      refine ⟨fun hctl => absurd hctl (by decide), fun hctl => absurd hctl (by decide), ?_⟩
      intro c hc hctl
      obtain hc | hc := List.mem_append.mp hc
      · have hhexdig := hhex c hc
        have hge : ¬ c < 0x20 := by
          simp only [isHexdig, isDigit, Bool.or_eq_true, Bool.and_eq_true,
            decide_eq_true_eq] at hhexdig
          rw [UInt8.not_lt]
          rcases hhexdig with (h | h) | h <;> exact UInt8.le_trans (by decide) h.1
        exact absurd hctl hge
      · exact ih c hc hctl

theorem Number.zero_not_mem {t : Text} (h : Number t) : (0 : UInt8) ∉ t :=
  fun hmem => h.not_ctl 0 hmem (by decide)

theorem Chars.zero_not_mem {t : Text} (h : Chars esc t) (hesc : esc 0 = false) :
    (0 : UInt8) ∉ t := by
  intro hmem
  have htrue := h.not_ctl 0 hmem (by decide)
  rw [hesc] at htrue
  cases htrue

theorem Label.zero_not_mem {obj : Bool} {k : Nat} {l : Text} (h : Label esc obj k l)
    (hesc : esc 0 = false) : (0 : UInt8) ∉ l := by
  cases h with
  | element => simp
  | member hw ht hw' =>
      simp [quotes, quotationMark, ch, hw.zero_not_mem, hw'.zero_not_mem, ht.zero_not_mem hesc]

theorem Derives.zero_not_mem {x : Sym} {d n : Nat} {t : Text} (h : Derives esc x d n t)
    (hesc : esc 0 = false) : (0 : UInt8) ∉ t := by
  induction h with
  | word ht =>
      simp only [words, List.mem_cons, List.not_mem_nil, or_false] at ht
      rcases ht with rfl | rfl | rfl <;> decide
  | number ht => exact ht.zero_not_mem
  | string ht => simp [quotes, quotationMark, ht.zero_not_mem hesc]
  | empty obj hw => cases obj <;> simp [opening, closing, ch, hw.zero_not_mem]
  | container obj _ ih => cases obj <;> simp [opening, closing, ch, ih]
  | last hl hw _ hw' ih =>
      simp [hl.zero_not_mem hesc, hw.zero_not_mem, hw'.zero_not_mem, ih]
  | more hl hw _ hw' _ ihv iht =>
      simp [hl.zero_not_mem hesc, hw.zero_not_mem, hw'.zero_not_mem, ihv, iht, ch]

theorem Within.zero_not_mem {depth count : Nat} {t : Text} (h : Within esc depth count t)
    (hesc : esc 0 = false) : (0 : UInt8) ∉ t := by
  obtain ⟨d, n, -, -, ⟨w, v, w', hw, hv, hw', rfl⟩⟩ := h
  simp [hw.zero_not_mem, hw'.zero_not_mem, hv.zero_not_mem hesc]

end EcMaster.Rfc8259
