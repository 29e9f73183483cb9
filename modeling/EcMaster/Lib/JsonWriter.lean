import EcMaster.Lib.Rfc8259

/-!
# Writing JSON piece by piece

A program that writes a JSON text does it in pieces: a bracket and a name, a
number, a comma and the next name.  `Spot` is a place between two pieces: what
is due there and the containers that are open.  `Rest p r` says that `r`
completes a text that was written up to `p`.

`Writes p t q` says that writing `t` leads from `p` to `q`: whatever completes
the text at `q` completes it at `p` with `t` in front.  Pieces compose by
`Writes.trans`.  A piece that is known byte by byte is followed by `feed`,
which computes the place behind it (`Writes.of_feed`).  For the others there
is one lemma per kind: a value, the characters of a string, a list of
members.
-/

namespace EcMaster.Rfc8259

open EcMaster.CText

/-- A value of the RFC. -/
def Value (v : Text) : Prop := ∃ d n, Derives escapes .value d n v

/-- The members of an object or the elements of an array, one at least. -/
def Items (obj : Bool) (t : Text) : Prop := ∃ d n, Derives escapes (.items obj) d n t

theorem items_single {v : Text} (hv : Value v) : Items false v := by
  obtain ⟨d, n, hv⟩ := hv
  refine ⟨d, 0 + n, ?_⟩
  have hitem := Derives.last Label.element ws_nil hv ws_nil
  simpa using hitem

theorem items_cons {v t : Text} (hv : Value v) (ht : Items false t) :
    Items false (v ++ ch ',' :: t) := by
  obtain ⟨d, n, hv⟩ := hv
  obtain ⟨d', n', ht⟩ := ht
  refine ⟨max d d', 0 + n + n', ?_⟩
  have hitem := Derives.more Label.element ws_nil hv ws_nil ht
  simpa using hitem

theorem members_single {k v : Text} (hk : Chars escapes k) (hv : Value v) :
    Items true (quotes k ++ ch ':' :: v) := by
  obtain ⟨d, n, hv⟩ := hv
  refine ⟨d, 1 + n, ?_⟩
  have hitem := Derives.last (Label.member ws_nil hk ws_nil) ws_nil hv ws_nil
  simpa using hitem

theorem members_cons {k v t : Text} (hk : Chars escapes k) (hv : Value v)
    (ht : Items true t) : Items true (quotes k ++ ch ':' :: (v ++ ch ',' :: t)) := by
  obtain ⟨d, n, hv⟩ := hv
  obtain ⟨d', n', ht⟩ := ht
  refine ⟨max d d', 1 + n + n', ?_⟩
  have hitem := Derives.more (Label.member ws_nil hk ws_nil) ws_nil hv ws_nil ht
  simpa using hitem

theorem value_empty (obj : Bool) : Value [opening obj, closing obj] :=
  ⟨1, 1, .empty obj ws_nil⟩

theorem value_container {obj : Bool} {t : Text} (ht : Items obj t) :
    Value (opening obj :: (t ++ [closing obj])) := by
  obtain ⟨d, n, ht⟩ := ht
  exact ⟨d + 1, n + 1, .container obj ht⟩

/-! ## Places in a text -/

/-- What is due at a place. -/
inductive Due where
  /-- A value. -/
  | value
  /-- What follows a value: a comma, a closing bracket or the end. -/
  | after
  /-- What follows an opening bracket. -/
  | opened (obj : Bool)
  /-- The name of a member. -/
  | key
  /-- The rest of a name. -/
  | inKey
  /-- The colon behind a name. -/
  | colon
  /-- The rest of a string. -/
  | inString
  /-- More digits of an integer, or what follows a value. -/
  | inInt
  /-- The letters that are left of a word. -/
  | inWord (w : Text)
deriving DecidableEq, Repr

/-- A place: what is due and the containers that are open, the innermost
first. -/
structure Spot where
  due : Due
  within : List Bool
deriving DecidableEq, Repr

/-- What may follow a value inside the given containers. -/
def Tail : List Bool → Text → Prop
  | [], r => r = []
  | obj :: within, r =>
      (∃ r', r = closing obj :: r' ∧ Tail within r') ∨
      ∃ t r', Items obj t ∧ r = ch ',' :: (t ++ closing obj :: r') ∧ Tail within r'

/-- The texts that complete what was written up to a place. -/
def Rest (p : Spot) (r : Text) : Prop :=
  match p.due with
  | .value => ∃ v r', Value v ∧ r = v ++ r' ∧ Tail p.within r'
  | .after => Tail p.within r
  | .opened obj =>
      (∃ r', r = closing obj :: r' ∧ Tail p.within r') ∨
      ∃ t r', Items obj t ∧ r = t ++ closing obj :: r' ∧ Tail p.within r'
  | .key => ∃ t r', Items true t ∧ r = t ++ closing true :: r' ∧ Tail p.within.tail r'
  | .inKey => ∃ k v r', Chars escapes k ∧ Value v ∧
      r = k ++ quotationMark :: ch ':' :: (v ++ r') ∧ Tail p.within r'
  | .colon => ∃ v r', Value v ∧ r = ch ':' :: (v ++ r') ∧ Tail p.within r'
  | .inString => ∃ t r', Chars escapes t ∧ r = t ++ quotationMark :: r' ∧ Tail p.within r'
  | .inInt => ∃ t r', (∀ c ∈ t, isDigit c = true) ∧ r = t ++ r' ∧ Tail p.within r'
  | .inWord w => ∃ r', r = w ++ r' ∧ Tail p.within r'

/-! ## One byte -/

/-- The place behind the first byte of a value. -/
def stepValue (within : List Bool) (c : UInt8) : Option Spot :=
  if c = opening true then some ⟨.opened true, within⟩
  else if c = opening false then some ⟨.opened false, within⟩
  else if c = quotationMark then some ⟨.inString, within⟩
  else if c = ch '0' then some ⟨.after, within⟩
  else if isDigit c then some ⟨.inInt, within⟩
  else if c = ch 't' then some ⟨.inWord (txt "rue"), within⟩
  else if c = ch 'f' then some ⟨.inWord (txt "alse"), within⟩
  else if c = ch 'n' then some ⟨.inWord (txt "ull"), within⟩
  else none

/-- The place behind a byte that follows a value. -/
def stepAfter (within : List Bool) (c : UInt8) : Option Spot :=
  match within with
  | [] => none
  | obj :: outer =>
      if c = closing obj then some ⟨.after, outer⟩
      else if c = ch ',' then some ⟨if obj then .key else .value, within⟩
      else none

/-- The place behind one byte, for texts without blanks. -/
def step (p : Spot) (c : UInt8) : Option Spot :=
  match p.due with
  | .value => stepValue p.within c
  | .after => stepAfter p.within c
  | .opened obj =>
      if c = closing obj then some ⟨.after, p.within⟩
      else if obj then
        if c = quotationMark then some ⟨.inKey, true :: p.within⟩ else none
      else stepValue (false :: p.within) c
  | .key =>
      if c = quotationMark ∧ p.within.head? = some true then some ⟨.inKey, p.within⟩ else none
  | .inKey =>
      if c = quotationMark then some ⟨.colon, p.within⟩
      else if isUnescaped c then some p else none
  | .colon => if c = ch ':' then some ⟨.value, p.within⟩ else none
  | .inString =>
      if c = quotationMark then some ⟨.after, p.within⟩
      else if isUnescaped c then some p else none
  | .inInt => if isDigit c then some p else stepAfter p.within c
  | .inWord [] => none
  | .inWord [x] => if c = x then some ⟨.after, p.within⟩ else none
  | .inWord (x :: w) => if c = x then some ⟨.inWord w, p.within⟩ else none

/-- The place behind a text. -/
def feed (p : Spot) : Text → Option Spot
  | [] => some p
  | c :: t => (step p c).bind fun q => feed q t

theorem value_digits {c : UInt8} {t : Text} (hc : isDigit c = true) (hzero : c ≠ ch '0')
    (ht : ∀ x ∈ t, isDigit x = true) : Value (c :: t) := by
  refine ⟨0, 1, .number ⟨[], c :: t, [], [], .inl rfl, .digits c hc hzero ht, .none, .none, ?_⟩⟩
  simp

theorem value_zero : Value [ch '0'] :=
  ⟨0, 1, .number ⟨[], [ch '0'], [], [], .inl rfl, .zero, .none, .none, rfl⟩⟩

theorem value_string {t : Text} (ht : Chars escapes t) : Value (quotes t) :=
  ⟨0, 1, .string ht⟩

theorem value_word {t : Text} (ht : t ∈ words) : Value t := ⟨0, 1, .word ht⟩

variable {within : List Bool} {c : UInt8} {p q p' : Spot} {r t t' v : Text}

theorem rest_stepValue (h : stepValue within c = some q) (hr : Rest q r) :
    ∃ v r', Value v ∧ c :: r = v ++ r' ∧ Tail within r' := by
  unfold stepValue at h
  have hopened : ∀ obj, Rest ⟨.opened obj, within⟩ r →
      ∃ v r', Value v ∧ opening obj :: r = v ++ r' ∧ Tail within r' := by
    rintro obj (⟨r', rfl, htail⟩ | ⟨t, r', ht, rfl, htail⟩)
    · exact ⟨_, r', value_empty obj, rfl, htail⟩
    · exact ⟨_, r', value_container ht, by simp, htail⟩
  split at h
  · cases h
    rename_i hc
    rw [hc]
    exact hopened true hr
  split at h
  · cases h
    rename_i hc
    rw [hc]
    exact hopened false hr
  split at h
  · cases h
    rename_i hc
    obtain ⟨t, r', ht, rfl, htail⟩ := hr
    rw [hc]
    exact ⟨_, r', value_string ht, by simp [quotes], htail⟩
  split at h
  · cases h
    rename_i hc
    rw [hc]
    exact ⟨_, r, value_zero, rfl, hr⟩
  split at h
  · cases h
    rename_i hzero hc
    obtain ⟨t, r', ht, rfl, htail⟩ := hr
    exact ⟨c :: t, r', value_digits hc hzero ht, rfl, htail⟩
  split at h
  · cases h
    rename_i hc
    obtain ⟨r', rfl, htail⟩ := hr
    rw [hc]
    exact ⟨_, r', value_word (t := txt "true") (by decide), rfl, htail⟩
  split at h
  · cases h
    rename_i hc
    obtain ⟨r', rfl, htail⟩ := hr
    rw [hc]
    exact ⟨_, r', value_word (t := txt "false") (by decide), rfl, htail⟩
  split at h
  · cases h
    rename_i hc
    obtain ⟨r', rfl, htail⟩ := hr
    rw [hc]
    exact ⟨_, r', value_word (t := txt "null") (by decide), rfl, htail⟩
  · cases h

/-- What an item of a container begins with. -/
def dueItem (obj : Bool) : Due := if obj then .key else .value

/-- The rest of a container from an item on. -/
theorem items_of_rest {obj : Bool} (hr : Rest ⟨dueItem obj, obj :: within⟩ r) :
    ∃ t r', Items obj t ∧ r = t ++ closing obj :: r' ∧ Tail within r' := by
  cases obj with
  | true => exact hr
  | false =>
      obtain ⟨v, r', hv, rfl, htail⟩ := hr
      obtain ⟨r'', rfl, hout⟩ | ⟨t, r'', ht, rfl, hout⟩ := htail
      · exact ⟨_, r'', items_single hv, by simp, hout⟩
      · exact ⟨_, r'', items_cons hv ht, by simp, hout⟩

theorem rest_stepAfter (h : stepAfter within c = some q) (hr : Rest q r) :
    Tail within (c :: r) := by
  unfold stepAfter at h
  split at h
  · cases h
  rename_i obj outer
  split at h
  · cases h
    rename_i hc
    rw [hc]
    exact .inl ⟨r, rfl, hr⟩
  split at h
  swap
  · cases h
  rename_i hc
  cases h
  rw [hc]
  obtain ⟨t, r', ht, rfl, htail⟩ := items_of_rest hr
  exact .inr ⟨t, r', ht, rfl, htail⟩

/-- An object goes on with a name. -/
theorem rest_key (hr : Rest ⟨.inKey, true :: within⟩ r) :
    Rest ⟨.key, true :: within⟩ (quotationMark :: r) := by
  obtain ⟨k, v, r', hk, hv, rfl, htail⟩ := hr
  obtain ⟨r'', rfl, hout⟩ | ⟨t, r'', ht, rfl, hout⟩ := htail
  · exact ⟨_, r'', members_single hk hv, by simp [quotes], hout⟩
  · exact ⟨_, r'', members_cons hk hv ht, by simp [quotes], hout⟩

/-- An array that was just opened goes on with a value. -/
theorem rest_opened_value (hr : ∃ v r', Value v ∧ r = v ++ r' ∧ Tail (false :: within) r') :
    Rest ⟨.opened false, within⟩ r := by
  obtain ⟨v, r', hv, rfl, htail⟩ := hr
  right
  obtain ⟨r'', rfl, hout⟩ | ⟨t, r'', ht, rfl, hout⟩ := htail
  · exact ⟨_, r'', items_single hv, by simp, hout⟩
  · exact ⟨_, r'', items_cons hv ht, by simp, hout⟩

/-- What completes the text behind a byte completes it in front of it. -/
theorem rest_step (h : step p c = some q) (hr : Rest q r) : Rest p (c :: r) := by
  obtain ⟨due, within⟩ := p
  cases due with
  | value => exact rest_stepValue h hr
  | after => exact rest_stepAfter h hr
  | opened obj =>
      simp only [step] at h
      split at h
      · cases h
        rename_i hc
        rw [hc]
        exact .inl ⟨r, rfl, hr⟩
      cases obj with
      | true =>
          simp only [if_true] at h
          split at h
          · cases h
            rename_i hc
            rw [hc]
            exact .inr (rest_key hr)
          · cases h
      | false => exact rest_opened_value (rest_stepValue h hr)
  | key =>
      simp only [step] at h
      split at h
      · cases h
        rename_i hc
        obtain ⟨outer, rfl⟩ := List.head?_eq_some_iff.mp hc.2
        rw [hc.1]
        exact rest_key hr
      · cases h
  | inKey =>
      simp only [step] at h
      split at h
      · cases h
        rename_i hc
        obtain ⟨v, r', hv, rfl, htail⟩ := hr
        rw [hc]
        exact ⟨[], v, r', .nil, hv, rfl, htail⟩
      split at h
      · cases h
        rename_i hc
        obtain ⟨k, v, r', hk, hv, rfl, htail⟩ := hr
        exact ⟨c :: k, v, r', .unescaped c hc hk, hv, rfl, htail⟩
      · cases h
  | colon =>
      simp only [step] at h
      split at h
      · cases h
        rename_i hc
        obtain ⟨v, r', hv, rfl, htail⟩ := hr
        rw [hc]
        exact ⟨v, r', hv, rfl, htail⟩
      · cases h
  | inString =>
      simp only [step] at h
      split at h
      · cases h
        rename_i hc
        rw [hc]
        exact ⟨[], r, .nil, rfl, hr⟩
      split at h
      · cases h
        rename_i hc
        obtain ⟨t, r', ht, rfl, htail⟩ := hr
        exact ⟨c :: t, r', .unescaped c hc ht, rfl, htail⟩
      · cases h
  | inInt =>
      simp only [step] at h
      split at h
      · cases h
        rename_i hc
        obtain ⟨t, r', ht, rfl, htail⟩ := hr
        refine ⟨c :: t, r', ?_, rfl, htail⟩
        rw [List.forall_mem_cons]
        exact ⟨hc, ht⟩
      · exact ⟨[], c :: r, by simp, rfl, rest_stepAfter h hr⟩
  | inWord w =>
      match w with
      | [] => cases h
      | [x] =>
          simp only [step] at h
          split at h
          · cases h
            rename_i hc
            rw [hc]
            exact ⟨r, rfl, hr⟩
          · cases h
      | x :: y :: w =>
          simp only [step] at h
          split at h
          · cases h
            rename_i hc
            obtain ⟨r', rfl, htail⟩ := hr
            rw [hc]
            exact ⟨r', rfl, htail⟩
          · cases h

/-! ## Pieces of text -/

/-- Writing `t` leads from `p` to `q`. -/
def Writes (p : Spot) (t : Text) (q : Spot) : Prop := ∀ r, Rest q r → Rest p (t ++ r)

theorem Writes.trans (h : Writes p t q) (h' : Writes q t' p') : Writes p (t ++ t') p' := by
  intro r hr
  rw [List.append_assoc]
  exact h _ (h' r hr)

/-- A piece that is known byte by byte. -/
theorem Writes.of_feed (h : feed p t = some q) : Writes p t q := by
  intro r hr
  induction t generalizing p with
  | nil =>
      cases h
      exact hr
  | cons c t ih =>
      obtain ⟨p₁, hstep, hfeed⟩ := Option.bind_eq_some_iff.mp h
      exact rest_step hstep (ih hfeed)

theorem writes_value (hv : Value v) (within : List Bool) :
    Writes ⟨.value, within⟩ v ⟨.after, within⟩ :=
  fun r hr => ⟨v, r, hv, rfl, hr⟩

theorem Chars.append (ht : Chars escapes t) (ht' : Chars escapes t') :
    Chars escapes (t ++ t') := by
  induction ht with
  | nil => exact ht'
  | unescaped c hc _ ih => exact .unescaped c hc ih
  | escaped e he _ ih => exact .escaped e he ih
  | unicode x hx hhex _ ih =>
      have hall := Chars.unicode x hx hhex ih
      simpa using hall

/-- Characters of a string. -/
theorem writes_chars (ht : Chars escapes t) (within : List Bool) :
    Writes ⟨.inString, within⟩ t ⟨.inString, within⟩ := by
  rintro r ⟨t', r', ht', rfl, htail⟩
  exact ⟨t ++ t', r', ht.append ht', by simp, htail⟩

/-- Characters of a name. -/
theorem writes_keyChars (ht : Chars escapes t) (within : List Bool) :
    Writes ⟨.inKey, within⟩ t ⟨.inKey, within⟩ := by
  rintro r ⟨k, v, r', hk, hv, rfl, htail⟩
  exact ⟨t ++ k, v, r', ht.append hk, hv, by simp, htail⟩

/-! ## Items behind a separator -/

/-- A blank in front of the items. -/
theorem Items.blank {obj : Bool} (hc : isWs c = true) (ht : Items obj t) :
    Items obj (c :: t) := by
  have hws : ∀ {w : Text}, Ws w → Ws (c :: w) := fun hw x hx => by
    rcases List.mem_cons.1 hx with rfl | hx
    · exact hc
    · exact hw x hx
  obtain ⟨d, n, ht⟩ := ht
  generalize hx : Sym.items obj = x at ht
  cases ht with
  | last hl hw hv hw' =>
      cases hx
      cases hl with
      | element => exact ⟨_, _, Derives.last .element (hws hw) hv hw'⟩
      | member hw₀ hk hw₁ => exact ⟨_, _, Derives.last (.member (hws hw₀) hk hw₁) hw hv hw'⟩
  | more hl hw hv hw' ht =>
      cases hx
      cases hl with
      | element => exact ⟨_, _, Derives.more .element (hws hw) hv hw' ht⟩
      | member hw₀ hk hw₁ => exact ⟨_, _, Derives.more (.member (hws hw₀) hk hw₁) hw hv hw' ht⟩
  | _ => cases hx

/-- An item may follow an opening bracket. -/
theorem writes_first (obj : Bool) (within : List Bool) :
    Writes ⟨.opened obj, within⟩ [] ⟨dueItem obj, obj :: within⟩ :=
  fun _ hr => .inr (items_of_rest hr)

/-- A comma leads to the next item. -/
theorem writes_comma (obj : Bool) (within : List Bool) :
    Writes ⟨.after, obj :: within⟩ [ch ','] ⟨dueItem obj, obj :: within⟩ := by
  intro r hr
  obtain ⟨t, r', ht, rfl, htail⟩ := items_of_rest hr
  exact .inr ⟨t, r', ht, rfl, htail⟩

/-- So does a comma with a blank behind it. -/
theorem writes_comma_blank (obj : Bool) (within : List Bool) (hc : isWs c = true) :
    Writes ⟨.after, obj :: within⟩ [ch ',', c] ⟨dueItem obj, obj :: within⟩ := by
  intro r hr
  obtain ⟨t, r', ht, rfl, htail⟩ := items_of_rest hr
  exact .inr ⟨c :: t, r', ht.blank hc, rfl, htail⟩

end EcMaster.Rfc8259
