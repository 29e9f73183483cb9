import EcMaster.Api.Scalars

/-!
# The tokenizer and RFC 8259

`ecm_json.h` promises a strict tokenizer: it accepts the JSON texts of
RFC 8259 that are nested at most `ECM_JSON_MAX_DEPTH` deep and fit the token
array, and nothing else.

The containers come first, then `value`, which is recursive in the levels
that are left: what holds of the parser of the elements (`ValueSound`) holds
of the parser of the container one level up.  Completeness is an induction
over the derivation (`Complete`).

What the tokenizer accepts is the grammar with one escape too many, the NUL
byte.  No text of the RFC has a NUL byte in it, so the two differ exactly on
the texts with such an escape.
-/

namespace EcMaster.Api

open EcMaster.ByteImage EcMaster.CText EcMaster.Rfc8259

section Parse

variable {s : Image} {len max : Nat} {p p' p'' : Jp} {v v' r t : Text} {n n' k : Nat}
  {parent : Option Nat}

/-! ## Members and elements -/

theorem memberName_sound (h : memberName s len max k p = (true, p')) :
    ∃ t w w', Chars isEscape t ∧ Ws w ∧ Ws w' ∧
      Reads s len max p p' (quotes t ++ (w ++ ch ':' :: w')) 1 := by
  unfold memberName at h
  split at h
  · cases h
  rename_i hfirst
  rw [not_or, Nat.not_le, not_ne_iff] at hfirst
  cases hstring : string s len max p (some k) with
  | mk found p₁ =>
      rw [hstring] at h
      cases found with
      | none => cases h
      | some k' =>
          simp only at h
          split at h
          · cases h
          rename_i hcolon
          rw [not_or, Nat.not_le, not_ne_iff] at hcolon
          injection h with _ hp
          subst hp
          obtain ⟨t, ht, hread⟩ := string_sound hfirst.1 hfirst.2 hstring
          obtain ⟨w, hw, hread₁⟩ := reads_ws s len max (p₁.grow k)
          obtain ⟨w', hw', hread₂⟩ := reads_ws s len max (ws s len (p₁.grow k)).bump
          have hcolon' : Reads s len max (p₁.grow k) _ (w ++ ([ch ':'] ++ w')) _ :=
            hread₁.trans ((reads_bump hcolon.1 hcolon.2).trans hread₂)
          exact ⟨t, w, w', ht, hw, hw', hread.trans ((reads_grow p₁ k).trans hcolon')⟩

/-- What stands before a value of a container: blanks, and the name of a
member. -/
def named (s : Image) (len max k : Nat) (obj : Bool) (p : Jp) : Bool × Jp :=
  if obj then memberName s len max k (ws s len p) else (true, ws s len p)

theorem named_sound {obj : Bool} (h : (named s len max k obj p).1 = true) :
    ∃ m l w, Label isEscape obj m l ∧ Ws w ∧
      Reads s len max p (named s len max k obj p).2 (l ++ w) m := by
  obtain ⟨w, hw, hread⟩ := reads_ws s len max p
  cases obj with
  | false => exact ⟨0, [], w, .element, hw, hread⟩
  | true =>
      have hmember : memberName s len max k (ws s len p) =
          (true, (named s len max k true p).2) := Prod.ext h rfl
      obtain ⟨t, w₁, w₂, ht, hw₁, hw₂, hread'⟩ := memberName_sound hmember
      refine ⟨1, _, w₂, .member hw ht hw₁, hw₂, ?_⟩
      have hall := hread.trans hread'
      simpa using hall

/-- What the parser of a value is for: it reads blanks and a value with at
most `left` levels of containers. -/
def ValueSound (s : Image) (len max left : Nat) (value : Jp → Option Nat → Parsed) : Prop :=
  ∀ p parent k p', value p parent = (some k, p') →
    ∃ w v d n, Ws w ∧ Derives isEscape .value d n v ∧ d ≤ left ∧
      Reads s len max p p' (w ++ v) n

/-- A turn of the loop that succeeds reads a name and a value, and then a
comma or the closing bracket. -/
theorem containerLoop_turn {value : Jp → Option Nat → Parsed} {obj : Bool} {fuel k' : Nat}
    (h : containerLoop s len max value k obj (fuel + 1) p = (some k', p')) :
    (named s len max k obj p).1 = true ∧
    ∃ k₁ p₁, value (named s len max k obj p).2 (some k) = (some k₁, p₁) ∧
      (ws s len (p₁.grow k)).pos < len ∧
      ((s (ws s len (p₁.grow k)).pos = ch ',' ∧
          containerLoop s len max value k obj fuel (ws s len (p₁.grow k)).bump =
            (some k', p')) ∨
        (s (ws s len (p₁.grow k)).pos = Api.closing obj ∧
          p' = (ws s len (p₁.grow k)).bump.close k ((ws s len (p₁.grow k)).pos + 1))) := by
  unfold containerLoop at h
  change (if (named s len max k obj p).1 = false then (none, (named s len max k obj p).2)
    else _) = _ at h
  by_cases hnamed : (named s len max k obj p).1 = false
  · rw [if_pos hnamed] at h
    cases h
  rw [if_neg hnamed] at h
  refine ⟨Bool.not_eq_false _ ▸ hnamed, ?_⟩
  cases hvalue : value (named s len max k obj p).2 (some k) with
  | mk found p₁ =>
      unfold named at hvalue
      simp only [hvalue] at h
      cases found with
      | none => cases h
      | some k₁ =>
          refine ⟨k₁, p₁, rfl, ?_⟩
          simp only at h
          by_cases hend : len ≤ (ws s len (p₁.grow k)).pos
          · rw [if_pos hend] at h
            cases h
          rw [if_neg hend] at h
          refine ⟨Nat.lt_of_not_le hend, ?_⟩
          by_cases hcomma : s (ws s len (p₁.grow k)).pos = ch ','
          · rw [if_pos hcomma] at h
            exact .inl ⟨hcomma, h⟩
          rw [if_neg hcomma] at h
          by_cases hclose : s (ws s len (p₁.grow k)).pos = Api.closing obj
          · rw [if_pos hclose] at h
            injection h with _ hp
            exact .inr ⟨hclose, hp.symm⟩
          · rw [if_neg hclose] at h
            cases h

theorem containerLoop_sound {value : Jp → Option Nat → Parsed} {left : Nat}
    (hvalue : ValueSound s len max left value) {obj : Bool} {fuel k' : Nat}
    (h : containerLoop s len max value k obj fuel p = (some k', p')) :
    ∃ t d n, Derives isEscape (.items obj) d n t ∧ d ≤ left ∧
      Reads s len max p p' (t ++ [Rfc8259.closing obj]) n := by
  induction fuel generalizing p with
  | zero => cases h
  | succ fuel ih =>
      obtain ⟨hnamed, k₁, p₁, hone, hlen, hnext⟩ := containerLoop_turn h
      obtain ⟨m, l, w, hl, hw, hread⟩ := named_sound hnamed
      obtain ⟨w₁, v, d, n, hw₁, hv, hd, hread₁⟩ := hvalue _ _ _ _ hone
      obtain ⟨w₂, hw₂, hread₂⟩ := reads_ws s len max (p₁.grow k)
      have hitem : Reads s len max p (ws s len (p₁.grow k))
          (l ++ ((w ++ w₁) ++ (v ++ w₂))) (m + n) := by
        have hall := (hread.trans hread₁).trans ((reads_grow p₁ k).trans hread₂)
        simpa using hall
      obtain ⟨hcomma, hloop⟩ | ⟨hclose, rfl⟩ := hnext
      · obtain ⟨t, d', n', ht, hd', hread'⟩ := ih hloop
        refine ⟨_, _, _, .more hl (hw.append hw₁) hv hw₂ ht, Nat.max_le.mpr ⟨hd, hd'⟩, ?_⟩
        have hall := hitem.trans ((reads_bump hlen hcomma).trans hread')
        simpa [Nat.add_assoc] using hall
      · refine ⟨_, _, _, .last hl (hw.append hw₁) hv hw₂, hd, ?_⟩
        exact hitem.trans ((reads_bump hlen hclose).trans (reads_close _ k _))

/-! ## Values -/

/-- What the parser of a container is for, at the opening bracket. -/
def NestedSound (s : Image) (len max left : Nat)
    (nested : Jp → Option Nat → Bool → Parsed) : Prop :=
  ∀ p parent obj k p', p.pos < len → s p.pos = opening obj →
    nested p parent obj = (some k, p') →
    ∃ v d n, Derives isEscape .value d n v ∧ d ≤ left ∧ Reads s len max p p' v n

/-- The blanks behind the opening bracket may be left to the loop. -/
theorem containerLoop_ws (value : Jp → Option Nat → Parsed) (k : Nat) (obj : Bool)
    (fuel : Nat) (p : Jp) :
    containerLoop s len max value k obj (fuel + 1) (ws s len p) =
      containerLoop s len max value k obj (fuel + 1) p := by
  unfold containerLoop
  rw [ws_ws]

theorem container_sound {value : Jp → Option Nat → Parsed} {left : Nat}
    (hvalue : ValueSound s len max left value) :
    NestedSound s len max (left + 1) (container s len max value) := by
  intro p parent obj k p' hlen hopen h
  unfold container at h
  cases htok : tok max p (if obj then JType.obj else JType.arr) p.pos parent with
  | mk found p₁ =>
      rw [htok] at h
      cases found with
      | none => cases h
      | some k' =>
          obtain ⟨hpos, hread⟩ := tok_sound s len htok
          rw [← hpos] at hlen hopen
          have hbyte : Reads s len max p p₁.bump [opening obj] 1 :=
            hread.trans (reads_bump hlen hopen)
          simp only at h
          split at h
          · rename_i hclose
            obtain ⟨w, hw, hread₁⟩ := reads_ws s len max p₁.bump
            injection h with _ hp
            subst hp
            refine ⟨_, 1, 1, .empty obj hw, by omega, ?_⟩
            exact hbyte.trans
              (hread₁.trans ((reads_bump hclose.1 hclose.2).trans (reads_close _ k' _)))
          · rw [containerLoop_ws] at h
            obtain ⟨t, d, n, ht, hd, hread₁⟩ := containerLoop_sound hvalue h
            refine ⟨_, d + 1, n + 1, .container obj ht, by omega, ?_⟩
            have hall := hbyte.trans hread₁
            rwa [Nat.add_comm 1 n] at hall

theorem valueOf_sound {nested : Jp → Option Nat → Bool → Parsed} {left : Nat}
    (hnested : NestedSound s len max left nested) :
    ValueSound s len max left (valueOf s len max nested) := by
  intro p parent k p' h
  obtain ⟨w, hw, hread⟩ := reads_ws s len max p
  unfold valueOf at h
  simp only at h
  generalize ws s len p = p₁ at h hread
  by_cases hend : len ≤ p₁.pos
  · rw [if_pos hend] at h
    cases h
  rw [if_neg hend] at h
  have hlen : p₁.pos < len := Nat.lt_of_not_le hend
  -- a scalar is one value, not nested
  have hscalar : ∀ v, Derives isEscape .value 0 1 v → Reads s len max p₁ p' v 1 →
      ∃ w v d n, Ws w ∧ Derives isEscape .value d n v ∧ d ≤ left ∧
        Reads s len max p p' (w ++ v) n :=
    fun v hv hread' => ⟨w, v, 0, 1, hw, hv, Nat.zero_le _, by simpa using hread.trans hread'⟩
  have hcontainer : ∀ obj, s p₁.pos = opening obj → nested p₁ parent obj = (some k, p') →
      ∃ w v d n, Ws w ∧ Derives isEscape .value d n v ∧ d ≤ left ∧
        Reads s len max p p' (w ++ v) n := by
    intro obj hopen hobj
    obtain ⟨v, d, n, hv, hd, hread'⟩ := hnested p₁ parent obj k p' hlen hopen hobj
    exact ⟨w, v, d, n, hw, hv, hd, by simpa using hread.trans hread'⟩
  split at h
  · exact hcontainer true ‹_› h
  split at h
  · exact hcontainer false ‹_› h
  split at h
  · obtain ⟨t, ht, hread'⟩ := string_sound hlen ‹_› h
    exact hscalar _ (.string ht) hread'
  split at h
  · obtain ⟨t, ht, hread'⟩ := number_sound h
    exact hscalar _ (.number ht) hread'
  split at h
  · exact hscalar _ (.word (by decide)) (literal_sound h)
  split at h
  · exact hscalar _ (.word (by decide)) (literal_sound h)
  split at h
  · exact hscalar _ (.word (by decide)) (literal_sound h)
  · cases h

theorem value_sound (s : Image) (len max left : Nat) :
    ValueSound s len max left (value s len max left) := by
  induction left with
  | zero =>
      apply valueOf_sound
      intro p parent obj k p' _ _ h
      cases h
  | succ left ih => exact valueOf_sound (container_sound ih)

/-- What the tokenizer accepts is in the grammar with its own escapes. -/
theorem ecmJsonParse_sound {toks : List Tok} (h : ecmJsonParse s len max = .ok toks) :
    Within isEscape jsonMaxDepth max (slice s 0 len) := by
  unfold ecmJsonParse at h
  cases hvalue : value s len max jsonMaxDepth { pos := 0, t := [], err := none } none with
  | mk found p =>
      rw [hvalue] at h
      cases found with
      | none => cases h
      | some k =>
          simp only at h
          split at h
          · cases h
          rename_i hpos
          rw [not_ne_iff] at hpos
          obtain ⟨w, v, d, n, hw, hv, hd, hread⟩ := value_sound s len max _ _ _ _ _ hvalue
          obtain ⟨w', hw', hread'⟩ := reads_ws s len max p
          have hcount : p.t.length = 0 + n := hread.count
          have hroom : p.t.length ≤ max := hread.room (Nat.zero_le _)
          refine ⟨d, n, hd, by omega, ⟨w, v, w', hw, hv, hw', ?_⟩⟩
          have htext := (hread.trans hread').span.text
          rw [hpos, remaining_of_le (Nat.le_refl len), List.append_nil, List.append_assoc]
            at htext
          exact htext

/-! ## Completeness -/

theorem notNext_isWs_value {d : Nat} (hv : Derives isEscape .value d n v) (r : Text) :
    NotNext isWs (v ++ r) := by
  obtain ⟨c, t, rfl, hc⟩ := hv.head
  exact notNext_cons _ hc.not_ws

theorem notNext_isNumeric_ws {w : Text} (hw : Ws w) (hr : NotNext isNumeric r) :
    NotNext isNumeric (w ++ r) := by
  cases w with
  | nil => exact hr
  | cons c w =>
      apply notNext_cons
      have hc := hw c (by simp)
      simp only [isWs, Bool.or_eq_true, beq_iff_eq] at hc
      rcases hc with ((rfl | rfl) | rfl) | rfl <;> decide

theorem closing_not_ws (obj : Bool) : isWs (Rfc8259.closing obj) = false := by
  cases obj <;> decide

theorem closing_not_numeric (obj : Bool) : isNumeric (Rfc8259.closing obj) = false := by
  cases obj <;> decide

theorem memberName_complete {w w' : Text} (ht : Chars isEscape t) (hw : Ws w) (hw' : Ws w')
    (h : remaining s len p.pos = quotes t ++ (w ++ ch ':' :: (w' ++ r)))
    (hr : NotNext isWs r) (hmax : p.t.length < max) :
    ∃ p', memberName s len max k p = (true, p') ∧
      Reads s len max p p' (quotes t ++ (w ++ ch ':' :: w')) 1 := by
  obtain ⟨k₁, p₁, hstring, hread⟩ := string_complete (some k) ht h hmax
  have h₁ : remaining s len (p₁.grow k).pos = w ++ ch ':' :: (w' ++ r) := hread.remaining_eq h
  obtain ⟨hread₁, h₂⟩ := ws_complete max hw h₁ (notNext_cons _ (by decide))
  obtain ⟨hlen, hcolon, h₃⟩ := of_remaining_cons h₂
  obtain ⟨hread₂, -⟩ := ws_complete max (p := (ws s len (p₁.grow k)).bump) hw' h₃ hr
  have hfirst : ¬ (len ≤ p.pos ∨ s p.pos ≠ quote) := by
    obtain ⟨hlt, hc, -⟩ := of_remaining_cons h
    rw [not_or, Nat.not_le, not_ne_iff]
    exact ⟨hlt, hc⟩
  have hnext : ¬ (len ≤ (ws s len (p₁.grow k)).pos ∨
      s (ws s len (p₁.grow k)).pos ≠ ch ':') := by
    rw [not_or, Nat.not_le, not_ne_iff]
    exact ⟨hlen, hcolon⟩
  refine ⟨ws s len (ws s len (p₁.grow k)).bump, ?_, ?_⟩
  · unfold memberName
    rw [if_neg hfirst, hstring]
    simp only
    rw [if_neg hnext]
  · have hcolon' : Reads s len max (p₁.grow k) _ (w ++ ([ch ':'] ++ w')) _ :=
      hread₁.trans ((reads_bump hlen hcolon).trans hread₂)
    exact hread.trans ((reads_grow p₁ k).trans hcolon')

theorem named_complete {obj : Bool} {m : Nat} {l w : Text} (hl : Label isEscape obj m l)
    (hw : Ws w) (h : remaining s len p.pos = l ++ (w ++ r)) (hr : NotNext isWs r)
    (hmax : p.t.length + m ≤ max) :
    ∃ p', named s len max k obj p = (true, p') ∧ Reads s len max p p' (l ++ w) m := by
  cases hl with
  | element =>
      obtain ⟨hread, -⟩ := ws_complete max hw h hr
      exact ⟨_, rfl, hread⟩
  | @member w₀ t w₁ hw₀ ht hw₁ =>
      simp only [List.append_assoc, List.singleton_append] at h
      obtain ⟨hread, h₁⟩ := ws_complete max hw₀ h (notNext_cons _ (by decide))
      obtain ⟨p', hname, hread'⟩ := memberName_complete (k := k) ht hw₁ hw h₁ hr
        (show (ws s len p).t.length < max from hmax)
      refine ⟨p', hname, ?_⟩
      have hall := hread.trans hread'
      simpa using hall

/-- Below the limit and at it, `value` is the same but for the containers. -/
theorem value_eq (s : Image) (len max left : Nat) :
    ∃ nested, value s len max left = valueOf s len max nested := by
  cases left with
  | zero => exact ⟨_, rfl⟩
  | succ left => exact ⟨_, rfl⟩

theorem valueOf_container (nested : Jp → Option Nat → Bool → Parsed) (obj : Bool)
    (hlen : (ws s len p).pos < len) (hc : s (ws s len p).pos = opening obj) :
    valueOf s len max nested p parent = nested (ws s len p) parent obj := by
  unfold valueOf
  simp only
  rw [if_neg (Nat.not_le_of_lt hlen), hc]
  cases obj with
  | false => rw [if_neg (by decide), if_pos (by decide)]
  | true => rw [if_pos (by decide)]

theorem valueOf_string (nested : Jp → Option Nat → Bool → Parsed)
    (hlen : (ws s len p).pos < len) (hc : s (ws s len p).pos = quotationMark) :
    valueOf s len max nested p parent = string s len max (ws s len p) parent := by
  unfold valueOf
  simp only
  rw [if_neg (Nat.not_le_of_lt hlen), hc, if_neg (by decide), if_neg (by decide),
    if_pos (by decide)]

theorem valueOf_number (nested : Jp → Option Nat → Bool → Parsed)
    (hlen : (ws s len p).pos < len)
    (hc : s (ws s len p).pos = ch '-' ∨ Rfc8259.isDigit (s (ws s len p).pos) = true) :
    valueOf s len max nested p parent = number s len max (ws s len p) parent := by
  have hnot : ∀ c : UInt8, c ≠ ch '-' → Rfc8259.isDigit c = false → s (ws s len p).pos ≠ c := by
    rintro c hminus hdigit rfl
    obtain hc | hc := hc
    · exact hminus hc
    · rw [hdigit] at hc
      cases hc
  have hnumber : s (ws s len p).pos = ch '-' ∨
      (ch '0' ≤ s (ws s len p).pos ∧ s (ws s len p).pos ≤ ch '9') := by
    simpa [Rfc8259.isDigit] using hc
  unfold valueOf
  simp only
  rw [if_neg (Nat.not_le_of_lt hlen), if_neg (hnot _ (by decide) (by decide)),
    if_neg (hnot _ (by decide) (by decide)), if_neg (hnot _ (by decide) (by decide)),
    if_pos hnumber]

theorem value_word {left : Nat} {w : Text} (ht : t ∈ words) (hw : Ws w)
    (h : remaining s len p.pos = w ++ (t ++ r)) (hmax : p.t.length < max) :
    ∃ k p', value s len max left p parent = (some k, p') ∧
      Reads s len max p p' (w ++ t) 1 := by
  have hnext : NotNext isWs (t ++ r) :=
    notNext_isWs_value (n := 1) (.word ht) r
  obtain ⟨hread, h₁⟩ := ws_complete max hw h hnext
  have hlen : (ws s len p).pos < len := by
    by_contra hge
    rw [remaining_of_le (Nat.le_of_not_lt hge)] at h₁
    simp only [words, List.mem_cons, List.not_mem_nil, or_false] at ht
    rcases ht with rfl | rfl | rfl <;> cases h₁
  have hliteral : ∃ type, value s len max left p parent =
      literal s len max (ws s len p) parent t type := by
    obtain ⟨nested, hvalue⟩ := value_eq s len max left
    rw [hvalue]
    unfold valueOf
    simp only [if_neg (Nat.not_le_of_lt hlen)]
    simp only [words, List.mem_cons, List.not_mem_nil, or_false] at ht
    rcases ht with rfl | rfl | rfl <;>
    · obtain ⟨-, hc, -⟩ := of_remaining_cons h₁
      rw [hc]
      exact ⟨_, rfl⟩
  obtain ⟨type, hliteral⟩ := hliteral
  obtain ⟨k, p', hone, hread'⟩ := literal_complete parent type hlen h₁
    (show (ws s len p).t.length < max from hmax)
  exact ⟨k, p', hliteral.trans hone, hread.trans hread'⟩

/-- The parser accepts a text of the grammar that is in front of it, when
there are levels and tokens enough.  Behind a value there must be nothing
that could be a part of a number. -/
def Complete (s : Image) (len max : Nat) : Sym → Nat → Nat → Text → Prop
  | .value, d, n, v => ∀ left p parent w r, d ≤ left → Ws w →
      remaining s len p.pos = w ++ (v ++ r) → NotNext isNumeric r → p.t.length + n ≤ max →
      ∃ k p', value s len max left p parent = (some k, p') ∧ Reads s len max p p' (w ++ v) n
  | .items obj, d, n, t => ∀ left k fuel p r, d ≤ left →
      remaining s len p.pos = t ++ Rfc8259.closing obj :: r → t.length < fuel →
      p.t.length + n ≤ max →
      ∃ p', containerLoop s len max (value s len max left) k obj fuel p = (some k, p') ∧
        Reads s len max p p' (t ++ [Rfc8259.closing obj]) n

theorem complete_number (ht : Number t) : Complete s len max .value 0 1 t := by
  intro left p parent w r _ hw h hr hmax
  obtain ⟨nested, hvalue⟩ := value_eq s len max left
  obtain ⟨hread, h₁⟩ := ws_complete max hw h
    (notNext_isWs_value (n := 1) (.number ht) r)
  obtain ⟨c, t', rfl, hc⟩ := ht.head
  obtain ⟨hlen, hs, -⟩ := of_remaining_cons h₁
  rw [← hs] at hc
  obtain ⟨k, p', hone, hread'⟩ := number_complete parent ht h₁ hr
    (show (ws s len p).t.length < max from hmax)
  refine ⟨k, p', ?_, hread.trans hread'⟩
  rw [hvalue, valueOf_number nested hlen hc]
  exact hone

theorem complete_string (ht : Chars isEscape t) :
    Complete s len max .value 0 1 (quotes t) := by
  intro left p parent w r _ hw h _ hmax
  obtain ⟨nested, hvalue⟩ := value_eq s len max left
  obtain ⟨hread, h₁⟩ := ws_complete max hw h (notNext_cons _ (by decide))
  obtain ⟨hlen, hs, -⟩ := of_remaining_cons h₁
  obtain ⟨k, p', hone, hread'⟩ := string_complete parent ht h₁
    (show (ws s len p).t.length < max from hmax)
  refine ⟨k, p', ?_, hread.trans hread'⟩
  rw [hvalue, valueOf_string nested hlen hs]
  exact hone

/-- A container is accepted when what stands between its brackets is. -/
theorem complete_container {d m : Nat} (obj : Bool)
    (hbody : ∀ left k p r, d ≤ left →
      remaining s len p.pos = t ++ Rfc8259.closing obj :: r → p.t.length + m ≤ max →
      ∃ p', (if (ws s len p).pos < len ∧ s (ws s len p).pos = Api.closing obj then
          (some k, (ws s len p).bump.close k ((ws s len p).pos + 1))
        else containerLoop s len max (value s len max left) k obj (len + 1) (ws s len p)) =
          (some k, p') ∧ Reads s len max p p' (t ++ [Rfc8259.closing obj]) m) :
    Complete s len max .value (d + 1) (m + 1) (opening obj :: (t ++ [Rfc8259.closing obj])) := by
  intro left p parent w r hd hw h _ hmax
  obtain ⟨left, rfl⟩ := Nat.exists_eq_succ_of_ne_zero (Nat.ne_zero_of_lt hd)
  have hopen : isWs (opening obj) = false := by cases obj <;> decide
  obtain ⟨hread, h₁⟩ := ws_complete max hw h (notNext_cons _ hopen)
  obtain ⟨hlen, hs, h₂⟩ := of_remaining_cons h₁
  obtain ⟨k, p₁, htok, hpos, hread₁⟩ := tok_complete s len
    (if obj then JType.obj else JType.arr) (ws s len p).pos parent
    (show (ws s len p).t.length < max by change p.t.length < max; omega)
  have h₃ : remaining s len p₁.bump.pos = t ++ Rfc8259.closing obj :: r := by
    change remaining s len (p₁.pos + 1) = _
    rw [hpos, h₂]
    simp
  have hlen₁ : p₁.pos < len := hpos ▸ hlen
  have hs₁ : s p₁.pos = opening obj := hpos ▸ hs
  have hcount : p₁.t.length = p.t.length + 1 := hread₁.count
  obtain ⟨p', hrest, hread₂⟩ := hbody left k p₁.bump r (by omega) h₃
    (show p₁.t.length + m ≤ max by omega)
  refine ⟨k, p', ?_, ?_⟩
  · change valueOf s len max (container s len max (value s len max left)) p parent = _
    rw [valueOf_container _ obj hlen hs]
    unfold container
    rw [htok]
    exact hrest
  · have hall := (hread.trans hread₁).trans ((reads_bump hlen₁ hs₁).trans hread₂)
    simpa [Nat.add_comm] using hall

theorem complete_empty {w : Text} (obj : Bool) (hw : Ws w) :
    Complete s len max .value 1 1 (opening obj :: (w ++ [Rfc8259.closing obj])) := by
  apply complete_container (d := 0) (m := 0) obj
  intro left k p r _ h _
  obtain ⟨hread, h₁⟩ := ws_complete max hw h (notNext_cons _ (closing_not_ws obj))
  obtain ⟨hlen, hs, -⟩ := of_remaining_cons h₁
  rw [if_pos ⟨hlen, hs⟩]
  exact ⟨_, rfl, hread.trans ((reads_bump hlen hs).trans (reads_close _ k _))⟩

theorem complete_nonempty {d : Nat} (obj : Bool) (ht : Derives isEscape (.items obj) d n t)
    (hitems : Complete s len max (.items obj) d n t) :
    Complete s len max .value (d + 1) (n + 1)
      (opening obj :: (t ++ [Rfc8259.closing obj])) := by
  apply complete_container obj
  intro left k p r hd h hmax
  have hnot : ¬ ((ws s len p).pos < len ∧ s (ws s len p).pos = Api.closing obj) := by
    rintro ⟨-, hclose⟩
    obtain ⟨w, c, x, hw, rfl, hc, hne⟩ := ht.items_head
    rw [List.append_assoc, List.cons_append] at h
    obtain ⟨-, h₁⟩ := ws_complete max hw h (notNext_cons _ hc)
    obtain ⟨-, hs, -⟩ := of_remaining_cons h₁
    exact hne (hs.symm.trans hclose)
  have hfuel : t.length < len + 1 := by
    have hlength := congrArg List.length h
    simp only [length_remaining, List.length_append, List.length_cons] at hlength
    omega
  rw [if_neg hnot, containerLoop_ws]
  exact hitems left k (len + 1) p r hd h hfuel hmax

/-- A name and a value, up to the comma or the bracket behind them. -/
theorem complete_item {obj : Bool} {d m : Nat} {l w w' : Text} {c : UInt8}
    (hl : Label isEscape obj m l) (hw : Ws w) (hv : Derives isEscape .value d n v)
    (hvalue : Complete s len max .value d n v) (hw' : Ws w') (hws : isWs c = false)
    (hnumeric : isNumeric c = false) {left k : Nat} (hd : d ≤ left)
    (h : remaining s len p.pos = l ++ (w ++ (v ++ (w' ++ c :: r))))
    (hmax : p.t.length + (m + n) ≤ max) :
    (named s len max k obj p).1 = true ∧
    ∃ k₁ p₁, value s len max left (named s len max k obj p).2 (some k) = (some k₁, p₁) ∧
      Reads s len max p (ws s len (p₁.grow k)) (l ++ (w ++ (v ++ w'))) (m + n) ∧
      remaining s len (ws s len (p₁.grow k)).pos = c :: r := by
  have hroom : p.t.length + m ≤ max := by omega
  obtain ⟨p₀, hnamed, hread⟩ := named_complete (k := k) hl hw h (notNext_isWs_value hv _) hroom
  rw [hnamed]
  have h₁ : remaining s len p₀.pos = v ++ (w' ++ c :: r) :=
    hread.remaining_eq (by rw [h, List.append_assoc])
  have hcount := hread.count
  obtain ⟨k₁, p₁, hone, hread₁⟩ := hvalue left p₀ (some k) [] (w' ++ c :: r) hd ws_nil h₁
    (notNext_isNumeric_ws hw' (notNext_cons _ hnumeric)) (by omega)
  have h₂ : remaining s len (p₁.grow k).pos = w' ++ c :: r := hread₁.remaining_eq h₁
  obtain ⟨hread₂, h₃⟩ := ws_complete max hw' h₂ (notNext_cons _ hws)
  refine ⟨rfl, k₁, p₁, hone, ?_, h₃⟩
  have hall := hread.trans (hread₁.trans ((reads_grow p₁ k).trans hread₂))
  simpa using hall

theorem containerLoop_of_item {value : Jp → Option Nat → Parsed} {obj : Bool}
    {fuel k₁ : Nat} {p₁ : Jp} (hnamed : (named s len max k obj p).1 = true)
    (hone : value (named s len max k obj p).2 (some k) = (some k₁, p₁))
    (hlen : (ws s len (p₁.grow k)).pos < len) :
    containerLoop s len max value k obj (fuel + 1) p =
      if s (ws s len (p₁.grow k)).pos = ch ',' then
        containerLoop s len max value k obj fuel (ws s len (p₁.grow k)).bump
      else if s (ws s len (p₁.grow k)).pos = Api.closing obj then
        (some k, (ws s len (p₁.grow k)).bump.close k ((ws s len (p₁.grow k)).pos + 1))
      else (none, ws s len (p₁.grow k)) := by
  conv => lhs; unfold containerLoop
  change (if (named s len max k obj p).1 = false then _ else _) = _
  rw [if_neg (by rw [hnamed]; decide)]
  unfold named at hone
  simp only [hone]
  rw [if_neg (Nat.not_le_of_lt hlen)]

theorem complete_last {obj : Bool} {d m : Nat} {l w w' : Text} (hl : Label isEscape obj m l)
    (hw : Ws w) (hv : Derives isEscape .value d n v)
    (hvalue : Complete s len max .value d n v) (hw' : Ws w') :
    Complete s len max (.items obj) d (m + n) (l ++ (w ++ (v ++ w'))) := by
  intro left k fuel p r hd h hfuel hmax
  obtain ⟨fuel, rfl⟩ := Nat.exists_eq_succ_of_ne_zero (Nat.ne_zero_of_lt hfuel)
  simp only [List.append_assoc] at h
  obtain ⟨hnamed, k₁, p₁, hone, hread, h₁⟩ := complete_item (k := k) hl hw hv hvalue hw'
    (closing_not_ws obj) (closing_not_numeric obj) hd h hmax
  obtain ⟨hlen, hs, -⟩ := of_remaining_cons h₁
  have hcomma : Rfc8259.closing obj ≠ ch ',' := by cases obj <;> decide
  have hclose : Rfc8259.closing obj = Api.closing obj := rfl
  rw [Nat.succ_eq_add_one, containerLoop_of_item hnamed hone hlen, hs, if_neg hcomma,
    if_pos hclose]
  exact ⟨_, rfl, hread.trans ((reads_bump hlen hs).trans (reads_close _ k _))⟩

theorem complete_more {obj : Bool} {d m d' : Nat} {l w w' : Text} (hl : Label isEscape obj m l)
    (hw : Ws w) (hv : Derives isEscape .value d n v)
    (hvalue : Complete s len max .value d n v) (hw' : Ws w')
    (hitems : Complete s len max (.items obj) d' n' t) :
    Complete s len max (.items obj) (Nat.max d d') (m + n + n')
      (l ++ (w ++ (v ++ (w' ++ ch ',' :: t)))) := by
  intro left k fuel p r hd h hfuel hmax
  obtain ⟨fuel, rfl⟩ := Nat.exists_eq_succ_of_ne_zero (Nat.ne_zero_of_lt hfuel)
  obtain ⟨hdv, hdt⟩ := Nat.max_le.mp hd
  simp only [List.append_assoc, List.cons_append] at h
  simp only [List.length_append, List.length_cons] at hfuel
  have hroom : p.t.length + (m + n) ≤ max := by omega
  obtain ⟨hnamed, k₁, p₁, hone, hread, h₁⟩ := complete_item (k := k) hl hw hv hvalue hw'
    (by decide) (by decide) hdv h hroom
  obtain ⟨hlen, hs, h₂⟩ := of_remaining_cons h₁
  have hcount := hread.count
  obtain ⟨p', hloop, hread'⟩ := hitems left k fuel (ws s len (p₁.grow k)).bump r hdt h₂
    (by omega) (show (ws s len (p₁.grow k)).t.length + n' ≤ max by omega)
  refine ⟨p', ?_, ?_⟩
  · rw [Nat.succ_eq_add_one, containerLoop_of_item hnamed hone hlen, if_pos hs]
    exact hloop
  · have hall := hread.trans ((reads_bump hlen hs).trans hread')
    simpa using hall

theorem complete_of_derives {x : Sym} {d : Nat} (h : Derives isEscape x d n t) :
    Complete s len max x d n t := by
  induction h with
  | word ht =>
      intro left p parent w r _ hw htext _ hmax
      exact value_word ht hw htext hmax
  | number ht => exact complete_number ht
  | string ht => exact complete_string ht
  | empty obj hw => exact complete_empty obj hw
  | container obj ht ih => exact complete_nonempty obj ht ih
  | last hl hw hv hw' ih => exact complete_last hl hw hv ih hw'
  | more hl hw hv hw' _ ihv iht => exact complete_more hl hw hv ihv hw' iht

/-- The tokenizer accepts the texts of the grammar with its own escapes that
keep to its limits. -/
theorem ecmJsonParse_complete (h : Within isEscape jsonMaxDepth max (slice s 0 len)) :
    ∃ toks, ecmJsonParse s len max = .ok toks := by
  obtain ⟨d, n, hd, hn, ⟨w, v, w', hw, hv, hw', htext⟩⟩ := h
  have hnumeric : NotNext isNumeric w' := by
    simpa using notNext_isNumeric_ws hw' (notNext_nil isNumeric)
  obtain ⟨k, p, hvalue, hread⟩ := complete_of_derives hv jsonMaxDepth
    { pos := 0, t := [], err := none } none w w' hd hw htext hnumeric (by simpa using hn)
  have hrest : remaining s len p.pos = w' ++ [] := by
    rw [List.append_nil]
    exact hread.remaining_eq (by rw [List.append_assoc]; exact htext)
  obtain ⟨hread', hend⟩ := ws_complete max hw' hrest (notNext_nil isWs)
  have hle : (ws s len p).pos ≤ len := (hread.trans hread').span.le (Nat.zero_le len)
  have hpos : (ws s len p).pos = len := Nat.le_antisymm hle (remaining_eq_nil.mp hend)
  refine ⟨(ws s len p).t, ?_⟩
  unfold ecmJsonParse
  rw [hvalue]
  simp only
  rw [if_neg (not_not_intro hpos)]

end Parse

/-! ## The text is all that is read -/

section Outside

variable {s s' : Image} {len : Nat} (max : Nat) (hs : ∀ i, i < len → s' i = s i)

include hs

theorem scan_congr (q : UInt8 → Bool) (i : Nat) :
    scan q s' len len i = scan q s len len i := by
  rw [scan_eq q (by omega), scan_eq q (by omega), remaining_congr hs]

theorem ws_congr (p : Jp) : ws s' len p = ws s len p := by
  unfold ws
  rw [scan_congr hs]

theorem slice_congr {i k : Nat} (h : i + k ≤ len) : slice s' i k = slice s i k := by
  rw [slice_eq_take h, slice_eq_take h, remaining_congr hs]

theorem stringLoop_congr (k fuel : Nat) (p : Jp) :
    stringLoop s' len k fuel p = stringLoop s len k fuel p := by
  induction fuel generalizing p with
  | zero => rfl
  | succ fuel ih =>
      unfold stringLoop
      by_cases hlen : p.pos < len
      swap
      · rw [if_neg hlen, if_neg hlen]
      rw [if_pos hlen, if_pos hlen, hs _ hlen]
      simp only [ih]
      by_cases hnext : len ≤ p.bump.pos
      · simp only [if_pos hnext]
      simp only [if_neg hnext, hs _ (Nat.lt_of_not_le hnext)]
      by_cases hroom : len ≤ p.bump.pos + 4
      · simp only [if_pos hroom]
      simp only [if_neg hroom]
      rw [slice_congr hs (show p.bump.pos + 1 + 4 ≤ len by omega)]

theorem string_congr (p : Jp) (parent : Option Nat) :
    string s' len max p parent = string s len max p parent := by
  unfold string
  split <;> simp only [stringLoop_congr hs]

/-- A look at the byte at `i` behind the test of the bound. -/
theorem look_congr (q : UInt8 → Bool) (i : Nat) :
    (decide (i < len) && q (s' i)) = (decide (i < len) && q (s i)) := by
  by_cases hlen : i < len
  · rw [hs i hlen]
  · simp [hlen]

theorem fraction_congr (i : Nat) : fraction s' len i = fraction s len i := by
  unfold fraction
  rw [look_congr hs, scan_congr hs]

theorem numberEnd_congr (i : Nat) : numberEnd s' len i = numberEnd s len i := by
  have hsign : signEnd s' len i = signEnd s len i := by
    unfold signEnd
    rw [look_congr hs (· == ch '-')]
  have hfrac : ∀ i, fracEnd s' len i = fracEnd s len i := by
    intro i
    unfold fracEnd
    rw [look_congr hs (· == ch '.'), fraction_congr hs]
  have hexp : ∀ i, expEnd s' len i = expEnd s len i := by
    intro i
    unfold expEnd
    dsimp only
    rw [look_congr hs (fun c => c == ch 'e' || c == ch 'E'),
      look_congr hs (fun c => c == ch '+' || c == ch '-')]
    simp only [fraction_congr hs]
  rw [numberEnd_eq, numberEnd_eq, hsign]
  by_cases hlen : len ≤ signEnd s len i
  · rw [if_pos hlen, if_pos hlen]
  · have hwhole : wholeEnd s' len (signEnd s len i) = wholeEnd s len (signEnd s len i) := by
      unfold wholeEnd
      rw [hs _ (Nat.lt_of_not_le hlen), scan_congr hs]
    rw [if_neg hlen, if_neg hlen, hwhole]
    simp only [hfrac, hexp]

theorem number_congr (p : Jp) (parent : Option Nat) :
    number s' len max p parent = number s len max p parent := by
  unfold number
  simp only [numberEnd_congr hs]

theorem literal_congr (p : Jp) (parent : Option Nat) (w : Text) (type : JType) :
    literal s' len max p parent w type = literal s len max p parent w type := by
  unfold literal
  by_cases hlen : len < p.pos + w.length
  · simp only [hlen, true_or, if_true]
  · rw [slice_congr hs (Nat.le_of_not_lt hlen)]

theorem memberName_congr (k : Nat) (p : Jp) :
    memberName s' len max k p = memberName s len max k p := by
  have hlook : ∀ (i : Nat) (c : UInt8), (len ≤ i ∨ s' i ≠ c) = (len ≤ i ∨ s i ≠ c) := by
    intro i c
    by_cases hlen : i < len
    · rw [hs i hlen]
    · simp [Nat.le_of_not_lt hlen]
  unfold memberName
  simp only [hlook, string_congr max hs, ws_congr hs]

theorem containerLoop_congr {value value' : Jp → Option Nat → Parsed}
    (hvalue : ∀ p parent, value' p parent = value p parent) (k : Nat) (obj : Bool)
    (fuel : Nat) (p : Jp) :
    containerLoop s' len max value' k obj fuel p =
      containerLoop s len max value k obj fuel p := by
  induction fuel generalizing p with
  | zero => rfl
  | succ fuel ih =>
      unfold containerLoop
      simp only [memberName_congr max hs, ws_congr hs, hvalue, ih]
      generalize (if obj = true then memberName s len max k (ws s len p)
        else (true, ws s len p)) = x
      split
      · rfl
      split
      · rfl
      rename_i p₁ _
      by_cases hlen : len ≤ (ws s len (p₁.grow k)).pos
      · rw [if_pos hlen, if_pos hlen]
      · rw [if_neg hlen, if_neg hlen, hs _ (Nat.lt_of_not_le hlen)]

theorem container_congr {value value' : Jp → Option Nat → Parsed}
    (hvalue : ∀ p parent, value' p parent = value p parent) (p : Jp) (parent : Option Nat)
    (obj : Bool) :
    container s' len max value' p parent obj = container s len max value p parent obj := by
  unfold container
  split
  · rfl
  rename_i k p₁ _
  simp only [containerLoop_congr max hs hvalue, ws_congr hs]
  by_cases hlen : (ws s len p₁.bump).pos < len
  · rw [hs _ hlen]
  · simp only [hlen, false_and, if_false]

theorem valueOf_congr {nested nested' : Jp → Option Nat → Bool → Parsed}
    (hnested : ∀ p parent obj, nested' p parent obj = nested p parent obj) (p : Jp)
    (parent : Option Nat) :
    valueOf s' len max nested' p parent = valueOf s len max nested p parent := by
  unfold valueOf
  simp only [ws_congr hs, hnested, string_congr max hs, number_congr max hs,
    literal_congr max hs]
  by_cases hlen : len ≤ (ws s len p).pos
  · rw [if_pos hlen, if_pos hlen]
  · rw [if_neg hlen, if_neg hlen, hs _ (Nat.lt_of_not_le hlen)]

theorem value_congr (left : Nat) (p : Jp) (parent : Option Nat) :
    value s' len max left p parent = value s len max left p parent := by
  induction left generalizing p parent with
  | zero => exact valueOf_congr max hs (fun _ _ _ => rfl) p parent
  | succ left ih => exact valueOf_congr max hs (container_congr max hs ih) p parent

/-- The result depends on the bytes of the text only. -/
theorem ecmJsonParse_congr : ecmJsonParse s' len max = ecmJsonParse s len max := by
  unfold ecmJsonParse
  simp only [value_congr max hs, ws_congr hs]

end Outside

/-! ## How strict the tokenizer is -/

/-- What `ecm_json.h` promises of a call: the text is accepted exactly if it
is a JSON text of RFC 8259 within the limits, and nothing outside it is
read. -/
def StrictCall (s : Image) (len max : Nat) : Prop :=
  ((∃ toks, ecmJsonParse s len max = .ok toks) ↔
      Within escapes jsonMaxDepth max (slice s 0 len)) ∧
    ∀ s', (∀ i, i < len → s' i = s i) → ecmJsonParse s' len max = ecmJsonParse s len max

theorem isEscape_of_escapes (c : UInt8) (h : escapes c = true) : isEscape c = true := by
  simp only [escapes, decide_eq_true_eq] at h
  simp only [isEscape, decide_eq_true_eq]
  exact List.mem_append_left _ h

theorem escapes_of_isEscape (c : UInt8) (hne : c ≠ 0) (h : isEscape c = true) :
    escapes c = true := by
  simp only [isEscape, decide_eq_true_eq] at h
  simp only [escapes, decide_eq_true_eq]
  obtain h | h := List.mem_append.mp h
  · exact h
  · exact absurd (List.mem_singleton.mp h) hne

/-- The RFC's texts are those of the tokenizer without a NUL byte. -/
theorem within_escapes_iff (depth count : Nat) (t : Text) :
    Within escapes depth count t ↔ (0 : UInt8) ∉ t ∧ Within isEscape depth count t := by
  constructor
  · intro h
    exact ⟨h.zero_not_mem (by decide), h.imp fun c _ => isEscape_of_escapes c⟩
  · rintro ⟨hzero, h⟩
    refine h.imp fun c hc => escapes_of_isEscape c ?_
    rintro rfl
    exact hzero hc

theorem ecmJsonParse_iff (s : Image) (len max : Nat) :
    (∃ toks, ecmJsonParse s len max = .ok toks) ↔
      Within isEscape jsonMaxDepth max (slice s 0 len) := by
  constructor
  · rintro ⟨toks, h⟩
    exact ecmJsonParse_sound h
  · exact ecmJsonParse_complete

/-- A call is strict unless the text is one of the RFC's but for a NUL byte
behind a backslash. -/
theorem strict_unless_nul_escape (s : Image) (len max : Nat) :
    StrictCall s len max ↔
      ((0 : UInt8) ∉ slice s 0 len ∨
        ¬ Within isEscape jsonMaxDepth max (slice s 0 len)) := by
  unfold StrictCall
  rw [ecmJsonParse_iff, within_escapes_iff]
  constructor
  · rintro ⟨hiff, -⟩
    by_cases hwithin : Within isEscape jsonMaxDepth max (slice s 0 len)
    · exact .inl (hiff.mp hwithin).1
    · exact .inr hwithin
  · intro hcond
    refine ⟨⟨fun hwithin => ⟨?_, hwithin⟩, And.right⟩, fun s' hs => ecmJsonParse_congr max hs⟩
    obtain hzero | hnot := hcond
    · exact hzero
    · exact absurd hwithin hnot

/-- The string of one escaped NUL byte is accepted. -/
theorem nul_escape_is_accepted :
    ¬ StrictCall (ofText [quote, backslash, 0, quote]) 4 1 := by
  rintro ⟨hiff, -⟩
  have haccepted : ∃ toks, ecmJsonParse (ofText [quote, backslash, 0, quote]) 4 1 = .ok toks :=
    ⟨[{ type := .str, start := 1, stop := 3, size := 0, parent := none }], by rfl⟩
  exact (hiff.mp haccepted).zero_not_mem (by decide) (by decide)

end EcMaster.Api
