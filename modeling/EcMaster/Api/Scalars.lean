import EcMaster.Api.Json
import EcMaster.Lib.Rfc8259
import EcMaster.Lib.Spans

/-!
# The tokenizer on strings, numbers and words

`Lib.Rfc8259` has the grammar of JSON, `Api.Json` the model of
`ecm_json.c`.  This module compares the two on the values without parts.

Every parsing function moves the position over the text that it accepts and
appends one token for each value and each member name.  `Reads p p' v n` says
that: from `p` to `p'` the text `v` was read and `n` tokens were appended.
For each function there are two lemmas.  The one named `_sound` gives a
derivation of the text between the two positions.  The one named `_complete`
starts from a derivation of the text in front of the position.

The bytes that may follow a backslash are looked up with `strchr`, which also
finds the NUL byte at the end of its list.  The strings of the tokenizer are
therefore those of the grammar with the escapes `isEscape`: the RFC's set and
the NUL byte.
-/

namespace EcMaster.Api

open EcMaster.ByteImage EcMaster.CText EcMaster.Rfc8259

/-- From `p` to `p'` the text `v` was read and `n` tokens were appended. -/
structure Reads (s : Image) (len max : Nat) (p p' : Jp) (v : Text) (n : Nat) : Prop where
  span : Spans s len p.pos p'.pos v
  count : p'.t.length = p.t.length + n
  room : p.t.length ≤ max → p'.t.length ≤ max

section Parse

variable {s : Image} {len max : Nat} {p p' p'' : Jp} {v v' r t : Text} {n n' k : Nat}
  {parent : Option Nat}

theorem Reads.trans (h : Reads s len max p p' v n) (h' : Reads s len max p' p'' v' n') :
    Reads s len max p p'' (v ++ v') (n + n') := by
  refine ⟨h.span.trans h'.span, ?_, fun hp => h'.room (h.room hp)⟩
  rw [h'.count, h.count]
  omega

/-- Reading the text that is in front of the position. -/
theorem Reads.remaining_eq (h : Reads s len max p p' v n)
    (ht : remaining s len p.pos = v ++ r) : remaining s len p'.pos = r :=
  h.span.remaining_eq ht

theorem reads_bump {c : UInt8} (h : p.pos < len) (hc : s p.pos = c) :
    Reads s len max p p.bump [c] 0 := by
  subst hc
  exact ⟨spans_byte h, rfl, id⟩

theorem reads_close (p : Jp) (k i : Nat) : Reads s len max p (p.close k i) [] 0 := by
  refine ⟨Spans.refl s len p.pos, ?_, ?_⟩ <;> simp [Jp.close]

theorem reads_grow (p : Jp) (k : Nat) : Reads s len max p (p.grow k) [] 0 := by
  refine ⟨Spans.refl s len p.pos, ?_, ?_⟩ <;> simp [Jp.grow]

/-! ## Blanks -/

theorem isBlank_eq : isBlank = isWs := rfl

theorem reads_ws (s : Image) (len max : Nat) (p : Jp) :
    ∃ w, Ws w ∧ Reads s len max p (ws s len p) w 0 := by
  refine ⟨_, ?_, ⟨spans_scan isBlank s len p.pos, rfl, id⟩⟩
  intro c hc
  exact List.mem_takeWhile_imp hc

theorem notNext_ws (p : Jp) : NotNext isWs (remaining s len (ws s len p).pos) :=
  notNext_scan isBlank s len p.pos

/-- The blanks in front of the position are read, all of them. -/
theorem ws_complete (max : Nat) {w : Text} (hw : Ws w) (ht : remaining s len p.pos = w ++ r)
    (hr : NotNext isWs r) :
    Reads s len max p (ws s len p) w 0 ∧ remaining s len (ws s len p).pos = r := by
  have hpos : (ws s len p).pos = p.pos + w.length := scan_run ht hw hr
  obtain ⟨hspan, hrest⟩ := Spans.of_remaining ht
  rw [← hpos] at hspan hrest
  exact ⟨⟨hspan, rfl, id⟩, hrest⟩

theorem ws_of_notNext (h : NotNext isWs (remaining s len p.pos)) : ws s len p = p := by
  have hpos := scan_run (v := []) rfl (fun _ h => nomatch h) h
  unfold ws
  rw [isBlank_eq, hpos]
  rfl

theorem ws_ws (p : Jp) : ws s len (ws s len p) = ws s len p :=
  ws_of_notNext (notNext_ws p)

/-! ## Tokens -/

/-- `tok` appends one token, unless the array is full. -/
theorem tok_cases (max : Nat) (p : Jp) (type : JType) (start : Nat) (parent : Option Nat) :
    (max ≤ p.t.length ∧ (tok max p type start parent).1 = none) ∨
    p.t.length < max ∧ ∃ x, tok max p type start parent =
      (some p.t.length, { p with t := p.t ++ [x] }) := by
  unfold tok
  by_cases hfull : max ≤ p.t.length
  · rw [if_pos hfull]
    exact .inl ⟨hfull, rfl⟩
  · rw [if_neg hfull]
    exact .inr ⟨Nat.lt_of_not_le hfull, _, rfl⟩

theorem reads_push {x : Tok} (h : p.t.length < max) :
    Reads s len max p { p with t := p.t ++ [x] } [] 1 := by
  refine ⟨Spans.refl s len p.pos, ?_, ?_⟩
  · simp
  · intro _
    simp only [List.length_append, List.length_singleton]
    omega

theorem tok_sound (s : Image) (len : Nat) {type : JType} {start : Nat}
    (h : tok max p type start parent = (some k, p')) :
    p'.pos = p.pos ∧ Reads s len max p p' [] 1 := by
  obtain ⟨-, hnone⟩ | ⟨hroom, x, hx⟩ := tok_cases max p type start parent
  · rw [h] at hnone
    cases hnone
  · rw [hx] at h
    injection h with _ hp
    subst hp
    exact ⟨rfl, reads_push hroom⟩

theorem tok_complete (s : Image) (len : Nat) (type : JType) (start : Nat)
    (parent : Option Nat) (h : p.t.length < max) :
    ∃ k p', tok max p type start parent = (some k, p') ∧ p'.pos = p.pos ∧
      Reads s len max p p' [] 1 := by
  obtain ⟨hfull, -⟩ | ⟨hroom, x, hx⟩ := tok_cases max p type start parent
  · omega
  · exact ⟨_, _, hx, rfl, reads_push hroom⟩

/-! ## Strings -/

theorem isUnescaped_iff (c : UInt8) :
    isUnescaped c = true ↔ c ≠ quote ∧ ¬ c < 0x20 ∧ c ≠ backslash := by
  unfold isUnescaped quotationMark reverseSolidus quote backslash
  simp only [Bool.and_eq_true, decide_eq_true_eq, bne_iff_ne, ne_eq, UInt8.not_lt]
  tauto

/-- A turn of the loop that succeeds reads the closing quote or one character,
plain or escaped. -/
theorem stringLoop_turn (max : Nat) {fuel k' : Nat}
    (h : stringLoop s len k (fuel + 1) p = (some k', p')) :
    (p' = (p.close k p.pos).bump ∧ Reads s len max p p' [quotationMark] 0) ∨
    ∃ c p₁, (∀ t, Chars isEscape t → Chars isEscape (c ++ t)) ∧
      Reads s len max p p₁ c 0 ∧ stringLoop s len k fuel p₁ = (some k', p') ∧
      p₁.t = p.t := by
  unfold stringLoop at h
  by_cases hlen : p.pos < len
  swap
  · rw [if_neg hlen] at h
    cases h
  rw [if_pos hlen] at h
  by_cases hquote : s p.pos = quote
  · rw [if_pos hquote] at h
    injection h with _ hp
    subst hp
    exact .inl ⟨rfl, (reads_bump hlen hquote).trans (reads_close p.bump k p.pos)⟩
  rw [if_neg hquote] at h
  by_cases hctl : s p.pos < 0x20
  · rw [if_pos hctl] at h
    cases h
  rw [if_neg hctl] at h
  right
  by_cases hback : s p.pos = backslash
  swap
  · rw [if_neg hback] at h
    have hc := (isUnescaped_iff (s p.pos)).mpr ⟨hquote, hctl, hback⟩
    exact ⟨_, _, fun t ht => .unescaped _ hc ht, reads_bump hlen rfl, h, rfl⟩
  rw [if_pos hback] at h
  have hbyte : Reads s len max p p.bump [reverseSolidus] 0 := reads_bump hlen hback
  by_cases hnext : len ≤ p.bump.pos
  · rw [if_pos hnext] at h
    cases h
  rw [if_neg hnext] at h
  have hlen' : p.bump.pos < len := Nat.lt_of_not_le hnext
  by_cases hu : s p.bump.pos = ch 'u'
  · rw [if_pos hu] at h
    by_cases hroom : len ≤ p.bump.pos + 4
    · rw [if_pos hroom] at h
      cases h
    rw [if_neg hroom] at h
    by_cases hhex : (slice s (p.bump.pos + 1) 4).all isHex = true
    swap
    · rw [if_neg hhex] at h
      cases h
    rw [if_pos hhex] at h
    have hspan : Spans s len (p.bump.pos + 1) (p.bump.pos + 1 + 4)
        (slice s (p.bump.pos + 1) 4) := spans_slice (by omega)
    have hfour : Reads s len max p.bump.bump { p.bump with pos := p.bump.pos + 5 }
        (slice s (p.bump.pos + 1) 4) 0 := ⟨hspan, rfl, id⟩
    exact ⟨_, _,
      fun t ht => .unicode _ (length_slice s (p.bump.pos + 1) 4) (List.all_eq_true.mp hhex) ht,
      hbyte.trans ((reads_bump hlen' hu).trans hfour), h, rfl⟩
  · rw [if_neg hu] at h
    by_cases hesc : isEscape (s p.bump.pos) = true
    swap
    · rw [if_neg hesc] at h
      cases h
    rw [if_pos hesc] at h
    exact ⟨_, _, fun t ht => .escaped _ hesc ht, hbyte.trans (reads_bump hlen' rfl), h, rfl⟩

theorem stringLoop_sound (max : Nat) {fuel k' : Nat}
    (h : stringLoop s len k fuel p = (some k', p')) :
    ∃ t, Chars isEscape t ∧ Reads s len max p p' (t ++ [quotationMark]) 0 := by
  induction fuel generalizing p with
  | zero => cases h
  | succ fuel ih =>
      obtain ⟨-, hquote⟩ | ⟨c, p₁, hc, hread, hloop, -⟩ := stringLoop_turn max h
      · exact ⟨[], .nil, hquote⟩
      · obtain ⟨t, ht, hread'⟩ := ih hloop
        refine ⟨c ++ t, hc t ht, ?_⟩
        rw [List.append_assoc]
        exact hread.trans hread'

theorem string_sound (hlen : p.pos < len) (hquote : s p.pos = quote)
    (h : string s len max p parent = (some k, p')) :
    ∃ t, Chars isEscape t ∧ Reads s len max p p' (quotes t) 1 := by
  unfold string at h
  cases htok : tok max p .str (p.pos + 1) parent with
  | mk found p₁ =>
      rw [htok] at h
      cases found with
      | none => cases h
      | some k' =>
          obtain ⟨hpos, hread⟩ := tok_sound s len htok
          obtain ⟨t, ht, hread'⟩ := stringLoop_sound max h
          rw [← hpos] at hlen hquote
          exact ⟨t, ht, hread.trans ((reads_bump hlen hquote).trans hread')⟩

theorem stringLoop_quote {fuel : Nat} (hlen : p.pos < len) (hc : s p.pos = quotationMark) :
    stringLoop s len k (fuel + 1) p = (some k, (p.close k p.pos).bump) := by
  unfold stringLoop
  have hquote : s p.pos = quote := hc
  rw [if_pos hlen, if_pos hquote]

theorem stringLoop_unescaped {fuel : Nat} (hlen : p.pos < len)
    (hc : isUnescaped (s p.pos) = true) :
    stringLoop s len k (fuel + 1) p = stringLoop s len k fuel p.bump := by
  obtain ⟨hquote, hctl, hback⟩ := (isUnescaped_iff _).mp hc
  conv => lhs; unfold stringLoop
  rw [if_pos hlen, if_neg hquote, if_neg hctl, if_neg hback]

theorem stringLoop_escaped {fuel : Nat} (hlen : p.pos + 1 < len)
    (hc : s p.pos = reverseSolidus) (he : isEscape (s (p.pos + 1)) = true) :
    stringLoop s len k (fuel + 1) p = stringLoop s len k fuel p.bump.bump := by
  have hu : s p.bump.pos ≠ ch 'u' := by
    intro hu
    change isEscape (s p.bump.pos) = true at he
    rw [hu] at he
    exact absurd he (by decide)
  have hesc : isEscape (s p.bump.pos) = true := he
  have hback : s p.pos = backslash := hc
  have hnext : ¬ len ≤ p.bump.pos := Nat.not_le_of_lt hlen
  conv => lhs; unfold stringLoop
  rw [hback, if_pos (by omega), if_neg (by decide), if_neg (by decide), if_pos rfl,
    if_neg hnext, if_neg hu, if_pos hesc]

theorem stringLoop_unicode {fuel : Nat} (hlen : p.pos + 5 < len)
    (hc : s p.pos = reverseSolidus) (hu : s (p.pos + 1) = ch 'u')
    (hhex : ∀ c ∈ slice s (p.pos + 2) 4, isHexdig c = true) :
    stringLoop s len k (fuel + 1) p = stringLoop s len k fuel { p with pos := p.pos + 6 } := by
  have hu' : s p.bump.pos = ch 'u' := hu
  have hback : s p.pos = backslash := hc
  have hroom : ¬ len ≤ p.bump.pos + 4 := Nat.not_le_of_lt hlen
  have hall : (slice s (p.bump.pos + 1) 4).all isHex = true := List.all_eq_true.mpr hhex
  have hnext : ¬ len ≤ p.bump.pos := by
    change ¬ len ≤ p.pos + 1
    omega
  conv => lhs; unfold stringLoop
  rw [hback, if_pos (by omega), if_neg (by decide), if_neg (by decide), if_pos rfl,
    if_neg hnext, if_pos hu', if_neg hroom, if_pos hall]
  rfl

/-- The loop reads the characters of a string up to its closing quote. -/
theorem stringLoop_complete (max k : Nat) {fuel : Nat} (ht : Chars isEscape t)
    (h : remaining s len p.pos = t ++ quotationMark :: r) (hfuel : t.length < fuel) :
    ∃ p', stringLoop s len k fuel p = (some k, p') ∧
      Reads s len max p p' (t ++ [quotationMark]) 0 := by
  induction ht generalizing fuel p with
  | nil =>
      obtain ⟨fuel, rfl⟩ := Nat.exists_eq_succ_of_ne_zero (Nat.ne_of_gt hfuel)
      obtain ⟨hlen, hc, -⟩ := of_remaining_cons h
      exact ⟨_, stringLoop_quote hlen hc,
        (reads_bump hlen hc).trans (reads_close p.bump k p.pos)⟩
  | unescaped c hc _ ih =>
      obtain ⟨fuel, rfl⟩ := Nat.exists_eq_succ_of_ne_zero (Nat.ne_zero_of_lt hfuel)
      obtain ⟨hlen, rfl, hrest⟩ := of_remaining_cons h
      obtain ⟨p', hloop, hread⟩ := ih (p := p.bump) hrest (Nat.lt_of_succ_lt_succ hfuel)
      exact ⟨p', (stringLoop_unescaped hlen hc).trans hloop, (reads_bump hlen rfl).trans hread⟩
  | @escaped t e he _ ih =>
      obtain ⟨fuel, rfl⟩ := Nat.exists_eq_succ_of_ne_zero (Nat.ne_zero_of_lt hfuel)
      simp only [List.cons_append] at h
      obtain ⟨hlen, hc, hrest⟩ := of_remaining_cons h
      obtain ⟨hlen', rfl, hrest'⟩ := of_remaining_cons hrest
      simp only [List.length_cons] at hfuel
      have hless : t.length < fuel := by omega
      obtain ⟨p', hloop, hread⟩ := ih (p := p.bump.bump) hrest' hless
      have hbyte : Reads s len max p.bump p.bump.bump [s p.bump.pos] 0 := reads_bump hlen' rfl
      exact ⟨p', (stringLoop_escaped hlen' hc he).trans hloop,
        (reads_bump hlen hc).trans (hbyte.trans hread)⟩
  | @unicode t x hx hhex _ ih =>
      obtain ⟨fuel, rfl⟩ := Nat.exists_eq_succ_of_ne_zero (Nat.ne_zero_of_lt hfuel)
      simp only [List.cons_append, List.append_assoc] at h
      obtain ⟨hlen, hc, hrest⟩ := of_remaining_cons h
      obtain ⟨hlen', hu, hrest'⟩ := of_remaining_cons hrest
      obtain ⟨hspan, hrest''⟩ := Spans.of_remaining hrest'
      rw [hx] at hspan hrest''
      simp only [List.length_cons, List.length_append, hx] at hfuel
      have hroom := hspan.length_le
      have hslice : slice s (p.pos + 1 + 1) 4 = x := by
        have htake := slice_eq_take (s := s) (show p.pos + 1 + 1 + 4 ≤ len by omega)
        rw [htake, hrest', ← hx, List.take_left]
      have hless : t.length < fuel := by omega
      obtain ⟨p', hloop, hread⟩ := ih (p := { p with pos := p.pos + 6 }) hrest'' hless
      refine ⟨p', (stringLoop_unicode (by omega) hc hu ?_).trans hloop, ?_⟩
      · rw [show p.pos + 2 = p.pos + 1 + 1 from rfl, hslice]
        exact hhex
      · have hbyte : Reads s len max p.bump p.bump.bump [ch 'u'] 0 := reads_bump hlen' hu
        have hfour : Reads s len max p.bump.bump { p with pos := p.pos + 6 } x 0 :=
          ⟨hspan, rfl, id⟩
        have hall := (reads_bump hlen hc).trans (hbyte.trans (hfour.trans hread))
        simpa using hall

theorem string_complete (parent : Option Nat) (ht : Chars isEscape t)
    (h : remaining s len p.pos = quotes t ++ r) (hmax : p.t.length < max) :
    ∃ k p', string s len max p parent = (some k, p') ∧ Reads s len max p p' (quotes t) 1 := by
  obtain ⟨k, p₁, htok, hpos, hread⟩ := tok_complete s len .str (p.pos + 1) parent hmax
  have hcons : remaining s len p.pos = quotationMark :: (t ++ quotationMark :: r) := by
    rw [h]
    simp [quotes]
  obtain ⟨hlen, hc, hrest⟩ := of_remaining_cons hcons
  rw [← hpos] at hlen hc hrest
  have hfuel : t.length < len := by
    have hlength := congrArg List.length hrest
    simp only [length_remaining, List.length_append, List.length_cons] at hlength
    omega
  obtain ⟨p', hloop, hread'⟩ := stringLoop_complete max k (p := p₁.bump) ht hrest hfuel
  refine ⟨k, p', ?_, hread.trans ((reads_bump hlen hc).trans hread')⟩
  unfold string
  rw [htok]
  exact hloop

/-! ## Numbers -/

/-- The bytes that a number may go on with. -/
def isNumeric (c : UInt8) : Bool :=
  Rfc8259.isDigit c || c == ch '.' || c == ch 'e' || c == ch 'E'

theorem isDigit_eq : Api.isDigit = Rfc8259.isDigit := rfl

theorem isNumeric_false {c : UInt8} :
    isNumeric c = false ↔
      Rfc8259.isDigit c = false ∧ c ≠ ch '.' ∧ c ≠ ch 'e' ∧ c ≠ ch 'E' := by
  simp [isNumeric, and_assoc]

theorem fraction_sound {i j : Nat} (h : fraction s len i = some j) :
    ∃ v, Digits v ∧ Spans s len i j v := by
  unfold fraction at h
  split at h
  swap
  · cases h
  rename_i hfirst
  simp only [Bool.and_eq_true, decide_eq_true_eq] at hfirst
  injection h with hj
  subst hj
  have hspan := spans_scan Api.isDigit s len i
  rw [remaining_of_lt hfirst.1, List.takeWhile_cons_of_pos hfirst.2] at hspan
  refine ⟨_, ⟨List.cons_ne_nil _ _, ?_⟩, hspan⟩
  rw [List.forall_mem_cons]
  exact ⟨hfirst.2, fun c hc => List.mem_takeWhile_imp hc⟩

theorem fraction_complete {i : Nat} (hv : Digits v) (h : remaining s len i = v ++ r)
    (hr : NotNext Rfc8259.isDigit r) : fraction s len i = some (i + v.length) := by
  obtain ⟨c, t, rfl⟩ := List.exists_cons_of_ne_nil hv.1
  obtain ⟨hlen, hc, -⟩ := of_remaining_cons h
  have hdigit : Api.isDigit (s i) = true := by
    rw [hc]
    exact hv.2 c (by simp)
  unfold fraction
  rw [if_pos (by simp [hlen, hdigit]), isDigit_eq, scan_run h hv.2 hr]

/-- The parts of `numberEnd`. -/
def signEnd (s : Image) (len i : Nat) : Nat :=
  if i < len && s i == ch '-' then i + 1 else i

def wholeEnd (s : Image) (len i : Nat) : Option Nat :=
  if s i = ch '0' then some (i + 1)
  else if ch '1' ≤ s i ∧ s i ≤ ch '9' then some (scan Api.isDigit s len len i)
  else none

def fracEnd (s : Image) (len i : Nat) : Option Nat :=
  if i < len && s i == ch '.' then fraction s len (i + 1) else some i

def expEnd (s : Image) (len i : Nat) : Option Nat :=
  if i < len && (s i == ch 'e' || s i == ch 'E') then
    let i := i + 1
    let i := if i < len && (s i == ch '+' || s i == ch '-') then i + 1 else i
    fraction s len i
  else some i

theorem numberEnd_eq (i : Nat) :
    numberEnd s len i =
      if len ≤ signEnd s len i then none
      else (wholeEnd s len (signEnd s len i)).bind fun i =>
        (fracEnd s len i).bind fun i => expEnd s len i := rfl

theorem signEnd_sound (s : Image) (len i : Nat) :
    ∃ v, (v = [] ∨ v = [ch '-']) ∧ Spans s len i (signEnd s len i) v := by
  unfold signEnd
  split
  · rename_i hminus
    simp only [Bool.and_eq_true, decide_eq_true_eq, beq_iff_eq] at hminus
    have hspan : Spans s len i (i + 1) [s i] := spans_byte hminus.1
    rw [hminus.2] at hspan
    exact ⟨_, .inr rfl, hspan⟩
  · exact ⟨[], .inl rfl, Spans.refl s len i⟩

theorem isDigit_of_oneToNine {c : UInt8} (h : ch '1' ≤ c ∧ c ≤ ch '9') :
    Rfc8259.isDigit c = true ∧ c ≠ ch '0' := by
  obtain ⟨hlow, hhigh⟩ := h
  refine ⟨?_, ?_⟩
  · unfold Rfc8259.isDigit
    rw [Bool.and_eq_true, decide_eq_true_eq, decide_eq_true_eq]
    exact ⟨UInt8.le_trans (by decide) hlow, hhigh⟩
  · rintro rfl
    exact absurd hlow (by decide)

theorem wholeEnd_sound {i j : Nat} (hlen : i < len) (h : wholeEnd s len i = some j) :
    ∃ v, IntPart v ∧ Spans s len i j v := by
  unfold wholeEnd at h
  by_cases hzero : s i = ch '0'
  · rw [if_pos hzero] at h
    injection h with hj
    subst hj
    have hspan : Spans s len i (i + 1) [s i] := spans_byte hlen
    rw [hzero] at hspan
    exact ⟨_, .zero, hspan⟩
  rw [if_neg hzero] at h
  by_cases hdigit : ch '1' ≤ s i ∧ s i ≤ ch '9'
  swap
  · rw [if_neg hdigit] at h
    cases h
  rw [if_pos hdigit] at h
  injection h with hj
  subst hj
  have hspan := spans_scan Rfc8259.isDigit s len i
  have hc := (isDigit_of_oneToNine hdigit).1
  rw [remaining_of_lt hlen, List.takeWhile_cons_of_pos hc] at hspan
  exact ⟨_, .digits _ hc hzero fun c hx => List.mem_takeWhile_imp hx, hspan⟩

theorem fracEnd_sound {i j : Nat} (h : fracEnd s len i = some j) :
    ∃ v, FracPart v ∧ Spans s len i j v := by
  unfold fracEnd at h
  split at h
  · rename_i hdot
    simp only [Bool.and_eq_true, decide_eq_true_eq, beq_iff_eq] at hdot
    obtain ⟨v, hv, hspan⟩ := fraction_sound h
    have hbyte : Spans s len i (i + 1) [s i] := spans_byte hdot.1
    rw [hdot.2] at hbyte
    exact ⟨_, .some hv, hbyte.trans hspan⟩
  · injection h with hj
    subst hj
    exact ⟨[], .none, Spans.refl s len i⟩

theorem expEnd_sound {i j : Nat} (h : expEnd s len i = some j) :
    ∃ v, ExpPart v ∧ Spans s len i j v := by
  unfold expEnd at h
  split at h
  swap
  · injection h with hj
    subst hj
    exact ⟨[], .none, Spans.refl s len i⟩
  rename_i hletter
  simp only [Bool.and_eq_true, decide_eq_true_eq, Bool.or_eq_true, beq_iff_eq] at hletter
  have hbyte : Spans s len i (i + 1) [s i] := spans_byte hletter.1
  obtain ⟨v, hv, hspan⟩ := fraction_sound h
  split at hspan
  · rename_i hsign
    simp only [Bool.and_eq_true, decide_eq_true_eq, Bool.or_eq_true, beq_iff_eq] at hsign
    have hbyte' : Spans s len (i + 1) (i + 1 + 1) [s (i + 1)] := spans_byte hsign.1
    have hsign' : [s (i + 1)] = [] ∨ [s (i + 1)] = [ch '+'] ∨ [s (i + 1)] = [ch '-'] := by
      simpa using hsign.2
    exact ⟨_, .some hletter.2 hsign' hv, hbyte.trans (hbyte'.trans hspan)⟩
  · exact ⟨_, .some hletter.2 (.inl rfl) hv, hbyte.trans hspan⟩

theorem numberEnd_sound {i j : Nat} (h : numberEnd s len i = some j) :
    ∃ v, Number v ∧ Spans s len i j v := by
  rw [numberEnd_eq] at h
  by_cases hlen : len ≤ signEnd s len i
  · rw [if_pos hlen] at h
    cases h
  rw [if_neg hlen] at h
  obtain ⟨i₁, hwhole, h⟩ := Option.bind_eq_some_iff.mp h
  obtain ⟨i₂, hfrac, hexp⟩ := Option.bind_eq_some_iff.mp h
  obtain ⟨minus, hminus, hspan⟩ := signEnd_sound s len i
  obtain ⟨int, hint, hspan₁⟩ := wholeEnd_sound (Nat.lt_of_not_le hlen) hwhole
  obtain ⟨frac, hfrac, hspan₂⟩ := fracEnd_sound hfrac
  obtain ⟨exp, hexp, hspan₃⟩ := expEnd_sound hexp
  exact ⟨_, ⟨minus, int, frac, exp, hminus, hint, hfrac, hexp, rfl⟩,
    hspan.trans (hspan₁.trans (hspan₂.trans hspan₃))⟩

theorem signEnd_complete {i : Nat} (hv : v = [] ∨ v = [ch '-'])
    (h : remaining s len i = v ++ r) (hr : NotNext (· == ch '-') r) :
    signEnd s len i = i + v.length := by
  unfold signEnd
  obtain rfl | rfl := hv
  · rw [List.nil_append] at h
    rw [← h] at hr
    rw [if_neg hr.test]
    rfl
  · obtain ⟨hlen, hc, -⟩ := of_remaining_cons h
    rw [if_pos (by simp [hlen, hc])]
    rfl

theorem oneToNine_of_isDigit {c : UInt8} (h : Rfc8259.isDigit c = true) (hzero : c ≠ ch '0') :
    ch '1' ≤ c ∧ c ≤ ch '9' := by
  unfold Rfc8259.isDigit at h
  rw [Bool.and_eq_true, decide_eq_true_eq, decide_eq_true_eq] at h
  refine ⟨?_, h.2⟩
  have hne : c.toNat ≠ 48 := fun heq => hzero (UInt8.toNat_inj.mp heq)
  have hlow := UInt8.le_iff_toNat_le.mp h.1
  apply UInt8.le_iff_toNat_le.mpr
  change 49 ≤ c.toNat
  change 48 ≤ c.toNat at hlow
  omega

theorem wholeEnd_complete {i : Nat} (hv : IntPart v) (h : remaining s len i = v ++ r)
    (hr : NotNext Rfc8259.isDigit r) : wholeEnd s len i = some (i + v.length) := by
  unfold wholeEnd
  cases hv with
  | zero =>
      obtain ⟨-, hc, -⟩ := of_remaining_cons h
      rw [if_pos hc]
      rfl
  | @digits t c hc hzero ht =>
      obtain ⟨-, hs, -⟩ := of_remaining_cons h
      have hall : ∀ x ∈ c :: t, Rfc8259.isDigit x = true := by
        rw [List.forall_mem_cons]
        exact ⟨hc, ht⟩
      rw [hs, if_neg hzero, if_pos (oneToNine_of_isDigit hc hzero), isDigit_eq,
        scan_run h hall hr]

theorem fracEnd_complete {i : Nat} (hv : FracPart v) (h : remaining s len i = v ++ r)
    (hdigit : NotNext Rfc8259.isDigit r) (hdot : NotNext (· == ch '.') r) :
    fracEnd s len i = some (i + v.length) := by
  unfold fracEnd
  cases hv with
  | none =>
      rw [List.nil_append] at h
      rw [← h] at hdot
      rw [if_neg hdot.test]
      rfl
  | some ht =>
      obtain ⟨hlen, hc, hrest⟩ := of_remaining_cons h
      rw [if_pos (by simp [hlen, hc]), fraction_complete ht hrest hdigit, List.length_cons]
      congr 1
      omega

theorem not_sign_of_isDigit {c : UInt8} (h : Rfc8259.isDigit c = true) :
    (c == ch '+' || c == ch '-') = false := by
  rw [Bool.or_eq_false_iff, beq_eq_false_iff_ne, beq_eq_false_iff_ne]
  constructor <;> rintro rfl <;> exact absurd h (by decide)

theorem expEnd_complete {i : Nat} (hv : ExpPart v) (h : remaining s len i = v ++ r)
    (hdigit : NotNext Rfc8259.isDigit r)
    (hletter : NotNext (fun c => c == ch 'e' || c == ch 'E') r) :
    expEnd s len i = some (i + v.length) := by
  unfold expEnd
  cases hv with
  | none =>
      rw [List.nil_append] at h
      rw [← h] at hletter
      rw [if_neg hletter.test]
      rfl
  | @some e sign t he hsign ht =>
      obtain ⟨hlen, hc, hrest⟩ := of_remaining_cons h
      have hfirst : (decide (i < len) && (s i == ch 'e' || s i == ch 'E')) = true := by
        simpa [hlen, hc] using he
      rw [if_pos hfirst]
      obtain ⟨d, t, rfl⟩ := List.exists_cons_of_ne_nil ht.1
      have hd : Rfc8259.isDigit d = true := ht.2 d (by simp)
      change fraction s len (if _ then i + 1 + 1 else i + 1) = _
      have hsignEnd : (if i + 1 < len && (s (i + 1) == ch '+' || s (i + 1) == ch '-') then
          i + 1 + 1 else i + 1) = i + 1 + sign.length := by
        obtain rfl | hsome := hsign
        · have hnext : NotNext (fun c => c == ch '+' || c == ch '-')
              (remaining s len (i + 1)) := by
            rw [hrest]
            exact notNext_cons _ (not_sign_of_isDigit hd)
          rw [if_neg hnext.test]
          rfl
        · obtain rfl | rfl := hsome <;>
          · obtain ⟨hlt, hs, -⟩ := of_remaining_cons hrest
            rw [if_pos (by simp [hlt, hs])]
            rfl
      rw [List.append_eq, List.append_assoc] at hrest
      obtain ⟨-, hrest'⟩ := Spans.of_remaining hrest
      rw [hsignEnd, fraction_complete ht hrest' hdigit]
      simp only [List.length_cons, List.length_append, Option.some.injEq]
      omega

theorem ExpPart.notNext {x : Text} (hx : ExpPart x) {q : UInt8 → Bool}
    (he : q (ch 'e') = false) (hE : q (ch 'E') = false) (hr : NotNext q r) :
    NotNext q (x ++ r) := by
  cases hx with
  | none => exact hr
  | some hletter _ _ =>
      apply notNext_cons
      obtain rfl | rfl := hletter
      · exact he
      · exact hE

theorem FracPart.notNext {x : Text} (hx : FracPart x) {q : UInt8 → Bool}
    (hdot : q (ch '.') = false) (hr : NotNext q r) : NotNext q (x ++ r) := by
  cases hx with
  | none => exact hr
  | some _ => exact notNext_cons _ hdot

theorem IntPart.notNext {x : Text} (hx : IntPart x) (r : Text) :
    NotNext (· == ch '-') (x ++ r) := by
  cases hx with
  | zero => exact notNext_cons _ (by decide)
  | digits c hc _ _ =>
      have hsign := not_sign_of_isDigit hc
      rw [Bool.or_eq_false_iff] at hsign
      exact notNext_cons _ hsign.2

/-- A number is read to its end when the text behind it cannot be a part of
it. -/
theorem numberEnd_complete {i : Nat} (hv : Number v) (h : remaining s len i = v ++ r)
    (hr : NotNext isNumeric r) : numberEnd s len i = some (i + v.length) := by
  obtain ⟨minus, int, frac, exp, hminus, hint, hfrac, hexp, rfl⟩ := hv.parts
  have hdigit : NotNext Rfc8259.isDigit r := hr.mono fun c hc => (isNumeric_false.mp hc).1
  have hdot : NotNext (· == ch '.') r :=
    hr.mono fun c hc => by simpa using (isNumeric_false.mp hc).2.1
  have hletter : NotNext (fun c => c == ch 'e' || c == ch 'E') r :=
    hr.mono fun c hc => by simpa using (isNumeric_false.mp hc).2.2
  have hdigit' := ExpPart.notNext hexp (by decide) (by decide) hdigit
  have hdot' := ExpPart.notNext hexp (by decide) (by decide) hdot
  simp only [List.append_assoc] at h
  -- the texts behind the sign, the whole part and the fraction
  obtain ⟨-, h₁⟩ := Spans.of_remaining h
  obtain ⟨-, h₂⟩ := Spans.of_remaining h₁
  obtain ⟨-, h₃⟩ := Spans.of_remaining h₂
  have hlen : ¬ len ≤ i + minus.length := by
    intro hle
    rw [remaining_of_le hle] at h₁
    cases hint <;> simp at h₁
  rw [numberEnd_eq, signEnd_complete hminus h (IntPart.notNext hint _), if_neg hlen,
    wholeEnd_complete hint h₁ (FracPart.notNext hfrac (by decide) hdigit'), Option.bind_some,
    fracEnd_complete hfrac h₂ hdigit' hdot', Option.bind_some,
    expEnd_complete hexp h₃ hdigit hletter]
  simp only [List.length_append, Option.some.injEq]
  omega

/-- Closing a token behind a text and going there. -/
theorem reads_close_at {i : Nat} (k : Nat) (h : Spans s len p.pos i v) :
    Reads s len max p { p.close k i with pos := i } v 0 := by
  refine ⟨h, ?_, ?_⟩ <;> simp [Jp.close]

theorem number_sound (h : number s len max p parent = (some k, p')) :
    ∃ v, Number v ∧ Reads s len max p p' v 1 := by
  unfold number at h
  cases htok : tok max p .num p.pos parent with
  | mk found p₁ =>
      rw [htok] at h
      cases found with
      | none => cases h
      | some k' =>
          obtain ⟨hpos, hread⟩ := tok_sound s len htok
          simp only at h
          cases hend : numberEnd s len p₁.pos with
          | none =>
              rw [hend] at h
              cases h
          | some i =>
              rw [hend] at h
              injection h with _ hp
              subst hp
              obtain ⟨v, hv, hspan⟩ := numberEnd_sound hend
              exact ⟨v, hv, hread.trans (reads_close_at k' hspan)⟩

theorem number_complete (parent : Option Nat) (hv : Number v)
    (h : remaining s len p.pos = v ++ r) (hr : NotNext isNumeric r) (hmax : p.t.length < max) :
    ∃ k p', number s len max p parent = (some k, p') ∧ Reads s len max p p' v 1 := by
  obtain ⟨k, p₁, htok, hpos, hread⟩ := tok_complete s len .num p.pos parent hmax
  rw [← hpos] at h
  have hend := numberEnd_complete hv h hr
  obtain ⟨hspan, -⟩ := Spans.of_remaining h
  refine ⟨k, _, ?_, hread.trans (reads_close_at k hspan)⟩
  unfold number
  rw [htok]
  simp only [hend]

/-! ## Words -/

theorem literal_sound {w : Text} {type : JType}
    (h : literal s len max p parent w type = (some k, p')) : Reads s len max p p' w 1 := by
  unfold literal at h
  split at h
  · cases h
  rename_i hword
  rw [not_or, Nat.not_lt, not_ne_iff] at hword
  have hspan : Spans s len p.pos (p.pos + w.length) (slice s p.pos w.length) :=
    spans_slice hword.1
  rw [hword.2] at hspan
  cases htok : tok max p type p.pos parent with
  | mk found p₁ =>
      rw [htok] at h
      cases found with
      | none => cases h
      | some k' =>
          obtain ⟨hpos, hread⟩ := tok_sound s len htok
          rw [← hpos] at hspan
          injection h with _ hp
          subst hp
          exact hread.trans (reads_close_at k' hspan)

theorem literal_complete (parent : Option Nat) {w : Text} (type : JType)
    (hlen : p.pos < len) (h : remaining s len p.pos = w ++ r) (hmax : p.t.length < max) :
    ∃ k p', literal s len max p parent w type = (some k, p') ∧ Reads s len max p p' w 1 := by
  obtain ⟨hspan, -⟩ := Spans.of_remaining h
  have hroom : w.length ≤ len - p.pos := hspan.length_le
  have hslice : ¬ (len < p.pos + w.length ∨ slice s p.pos w.length ≠ w) := by
    rw [not_or, Nat.not_lt, not_ne_iff]
    have hle : p.pos + w.length ≤ len := by omega
    rw [slice_eq_take hle, h, List.take_left]
    exact ⟨hle, rfl⟩
  obtain ⟨k, p₁, htok, hpos, hread⟩ := tok_complete s len type p.pos parent hmax
  rw [← hpos] at hspan
  refine ⟨k, _, ?_, hread.trans (reads_close_at k hspan)⟩
  unfold literal
  rw [if_neg hslice, htok]
  rfl

end Parse

end EcMaster.Api
