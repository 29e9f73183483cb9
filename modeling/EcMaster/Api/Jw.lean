import EcMaster.Api.Reply
import EcMaster.Lib.Numerals

/-!
# The JSON writer of the statistics

`jw_t` of `api/ecm_api.c` writes a document into a buffer of fixed size.  It
keeps how deep it is and, for each depth, whether a value was written there, so
that `jsep` knows when a comma is due; once something does not fit it sets a
flag and writes nothing any more.

A statement of an emitter is a function `Jw → Jw`.  `seq` runs statements one
after the other, and `block` is the statements between a `jopen` and its
`jclose`.

`Jw.Ok` says what holds of a writer at a place of a JSON text: nothing outside
the buffer is touched and, unless it ran over, the text so far leads to that
place and ends with a NUL.  `Emits d obj f` is the contract of a statement at
depth `d` inside an object or array: it leads from a place between two items to
another one, whatever was written before.  Statements compose by `emits_seq`
and nest by the lemmas for `block`, so that the contract of a whole emitter is
put together from its parts.
-/

namespace EcMaster.Api

open EcMaster.ByteImage EcMaster.CText EcMaster.Rfc8259

/-- `jw_t`. -/
structure Jw where
  b : Image
  len : Nat
  cap : Nat
  ovf : Bool
  depth : Nat
  /-- `comma[24]`: a value was written at this depth -/
  comma : Nat → Bool

/-- `sizeof(j->comma)`. -/
def jwDepths : Nat := 24

/-- A writer on an empty buffer: `buf[0] = '\0'`. -/
def Jw.start (buf : Image) (cap depth : Nat) : Jw where
  b := store buf 0 [0]
  len := 0
  cap := cap
  ovf := false
  depth := depth
  comma := fun _ => false

/-! ## Pieces -/

def jraw (t : Text) (j : Jw) : Jw :=
  if j.ovf then j
  else if j.len + t.length + 1 > j.cap then { j with ovf := true }
  else { j with b := store j.b j.len (t ++ [0]), len := j.len + t.length }

def jputs (t : Text) (j : Jw) : Jw := jraw t j

/-- `jprintf`; `t` is the formatted text.  What does not fit is cut off by
`vsnprintf`. -/
def jprintf (t : Text) (j : Jw) : Jw :=
  if j.ovf then j
  else
    let b := store j.b j.len (clip (j.cap - j.len) t ++ [0])
    if t.length + 1 > j.cap - j.len then { j with b := b, ovf := true }
    else { j with b := b, len := j.len + t.length }

/-- One byte of a string. -/
def jchar (j : Jw) (c : UInt8) : Jw :=
  if c = quote ∨ c = backslash then jraw [backslash, c] j
  else if c < 0x20 then jprintf (txt "\\u" ++ hexLower 4 c.toNat) j
  else jraw [c] j

def jstr (s : Text) (j : Jw) : Jw := jraw [quote] ((cstr s).foldl jchar (jraw [quote] j))

def jsep (j : Jw) : Jw :=
  let j' :=
    if j.comma j.depth then jraw (if j.depth = 1 then [ch ',', 10] else [ch ',']) j else j
  { j' with comma := Function.update j'.comma j.depth true }

def jkey (k : Text) (j : Jw) : Jw := jraw [ch ':'] (jstr k (jsep j))

def jopen (c : UInt8) (j : Jw) : Jw :=
  let j := jputs [c] j
  let depth := if j.depth + 1 < jwDepths then j.depth + 1 else j.depth
  { j with depth := depth, comma := Function.update j.comma depth false }

def jclose (c : UInt8) (j : Jw) : Jw :=
  jputs [c] { j with depth := if j.depth > 0 then j.depth - 1 else j.depth }

/-! ## Statements -/

def kobj (k : String) (j : Jw) : Jw := jopen (opening true) (jkey (txt k) j)
def karr (k : String) (j : Jw) : Jw := jopen (opening false) (jkey (txt k) j)
def aobj (j : Jw) : Jw := jopen (opening true) (jsep j)
def ku64 (k : String) (v : Nat) (j : Jw) : Jw := jprintf (dec v) (jkey (txt k) j)
def ki64 (k : String) (v : Int) (j : Jw) : Jw := jprintf (decInt v) (jkey (txt k) j)
def kstr (k : String) (v : Text) (j : Jw) : Jw := jstr v (jkey (txt k) j)

def kbool (k : String) (v : Bool) (j : Jw) : Jw :=
  jputs (if v then txt "true" else txt "false") (jkey (txt k) j)

def knull (k : String) (j : Jw) : Jw := jputs (txt "null") (jkey (txt k) j)

def khex (k : String) (v digits : Nat) (j : Jw) : Jw :=
  jprintf (quote :: txt "0x" ++ hexUpper digits v ++ [quote]) (jkey (txt k) j)

def kopt (k : String) (v : Int) : Jw → Jw := if v < 0 then knull k else ki64 k v

/-- `jsep` and a number, as the loops over numbers do it. -/
def anum (v : Nat) (j : Jw) : Jw := jprintf (dec v) (jsep j)

/-- `jsep` and a string. -/
def astr (v : Text) (j : Jw) : Jw := jstr v (jsep j)

/-- Statements one after the other. -/
def seq (fs : List (Jw → Jw)) (j : Jw) : Jw := fs.foldl (fun j f => f j) j

/-- The statements between a `jopen` and its `jclose`. -/
def block (op : Jw → Jw) (c : UInt8) (fs : List (Jw → Jw)) (j : Jw) : Jw :=
  jclose c (seq fs (op j))

/-- `if (c) { ... }`. -/
def ifThen (c : Bool) (fs : List (Jw → Jw)) : Jw → Jw := if c then seq fs else seq []

/-- `if (p) { ... }` for a pointer that may be null. -/
def ifSome {α : Type} (p : Option α) (fs : α → List (Jw → Jw)) : Jw → Jw :=
  match p with
  | some a => seq (fs a)
  | none => seq []

/-! ## A writer at a place of a text -/

/-- The buffer `m` of `cap` bytes is all that is written to, and unless it ran
over it holds a text with `P` and a NUL behind it. -/
structure Jw.Holds (m : Image) (cap : Nat) (P : Text → Prop) (j : Jw) : Prop where
  cap_eq : j.cap = cap
  len_lt : j.len < cap
  outside : ∀ i, cap ≤ i → j.b i = m i
  text : j.ovf = false → j.b j.len = 0 ∧ P (slice j.b 0 j.len)

/-- `pre`, and a text that leads from `p₀` to `p`. -/
def Leads (pre : Text) (p₀ p : Spot) (u : Text) : Prop := ∃ t, u = pre ++ t ∧ Writes p₀ t p

/-- The writer is at the place `p` of a text. -/
abbrev Jw.Ok (m : Image) (cap : Nat) (pre : Text) (p₀ p : Spot) (j : Jw) : Prop :=
  j.Holds m cap (Leads pre p₀ p)

section Ok

variable {m : Image} {cap d : Nat} {pre : Text} {p₀ p q p' : Spot} {j : Jw} {t : Text}
  {within : List Bool} {obj : Bool}

/-- A text that fits is written. -/
theorem holds_store {P Q : Text → Prop} (hj : j.Holds m cap P) (hQ : ∀ u, P u → Q (u ++ t))
    (hovf : j.ovf = false) (hfit : j.len + t.length < cap) :
    Jw.Holds m cap Q { j with b := store j.b j.len (t ++ [0]), len := j.len + t.length } := by
  refine ⟨hj.cap_eq, hfit, fun i hi => ?_, fun _ => ⟨?_, ?_⟩⟩
  · show store j.b j.len (t ++ [0]) i = m i
    rw [store_of_le _ (by simp; omega)]
    exact hj.outside i hi
  · show store j.b j.len (t ++ [0]) (j.len + t.length) = 0
    rw [store_add _ _ (by simp)]
    simp
  · show Q (slice (store j.b j.len (t ++ [0])) 0 (j.len + t.length))
    rw [slice_store]
    exact hQ _ (hj.text hovf).2

theorem holds_jraw {P Q : Text → Prop} (hj : j.Holds m cap P) (hQ : ∀ u, P u → Q (u ++ t)) :
    (jraw t j).Holds m cap Q := by
  have hcap := hj.cap_eq
  unfold jraw
  split
  next hovf => exact ⟨hj.1, hj.2, hj.3, fun h => by simp [hovf] at h⟩
  next hovf =>
    split
    next => exact ⟨hj.1, hj.2, hj.3, fun h => by cases h⟩
    next hfit => exact holds_store hj hQ (by simpa using hovf) (by omega)

theorem holds_jprintf {P Q : Text → Prop} (hj : j.Holds m cap P)
    (hQ : ∀ u, P u → Q (u ++ t)) : (jprintf t j).Holds m cap Q := by
  have hcap := hj.cap_eq
  have hlen := hj.len_lt
  unfold jprintf
  split
  next hovf => exact ⟨hj.1, hj.2, hj.3, fun h => by simp [hovf] at h⟩
  next hovf =>
    dsimp only
    split
    next =>
      -- the part that is cut off would be outside
      have hclip : (clip (j.cap - j.len) t).length < j.cap - j.len :=
        length_clip_lt t (by omega)
      refine ⟨hcap, hlen, fun i hi => ?_, fun h => by cases h⟩
      show store j.b j.len (clip (j.cap - j.len) t ++ [0]) i = m i
      rw [store_of_le _ (by simp; omega)]
      exact hj.outside i hi
    next hfit =>
      have hwhole : clip (j.cap - j.len) t = t := List.take_of_length_le (by omega)
      rw [hwhole]
      exact holds_store hj hQ (by simpa using hovf) (by omega)

/-- A piece of text behind one that leads to where it begins. -/
theorem Leads.append {u : Text} (hu : Leads pre p₀ p u) (ht : Writes p t q) :
    Leads pre p₀ q (u ++ t) := by
  obtain ⟨v, rfl, hv⟩ := hu
  exact ⟨v ++ t, by rw [List.append_assoc], hv.trans ht⟩

/-! ## Statements between two fixed places -/

/-- Written at depth `d`, the statement leads from `p` to `q`. -/
def Fills (d : Nat) (p q : Spot) (f : Jw → Jw) : Prop :=
  ∀ ⦃m cap pre p₀ j⦄, Jw.Ok m cap pre p₀ p j → j.depth = d →
    (f j).Ok m cap pre p₀ q ∧ (f j).depth = d ∧ ∀ k ≤ d, (f j).comma k = j.comma k

theorem Fills.comp {f g : Jw → Jw} (hf : Fills d p q f) (hg : Fills d q p' g) :
    Fills d p p' fun j => g (f j) := by
  intro m cap pre p₀ j hj hd
  obtain ⟨hj', hd', hcomma⟩ := hf hj hd
  obtain ⟨hj'', hd'', hcomma'⟩ := hg hj' hd'
  exact ⟨hj'', hd'', fun k hk => (hcomma' k hk).trans (hcomma k hk)⟩

theorem fills_jraw (ht : Writes p t q) : Fills d p q (jraw t) := by
  intro m cap pre p₀ j hj hd
  refine ⟨holds_jraw hj fun _ hu => hu.append ht, ?_⟩
  unfold jraw
  repeat' split
  all_goals exact ⟨hd, fun _ _ => rfl⟩

theorem fills_jprintf (ht : Writes p t q) : Fills d p q (jprintf t) := by
  intro m cap pre p₀ j hj hd
  refine ⟨holds_jprintf hj fun _ hu => hu.append ht, ?_⟩
  unfold jprintf
  dsimp only
  repeat' split
  all_goals exact ⟨hd, fun _ _ => rfl⟩

theorem fills_foldl {α : Type} {f : Jw → α → Jw} {l : List α}
    (hf : ∀ a ∈ l, Fills d p p fun j => f j a) : Fills d p p fun j => l.foldl f j := by
  induction l with
  | nil => exact fun _ _ _ _ _ hj hd => ⟨hj, hd, fun _ _ => rfl⟩
  | cons a l ih =>
    exact (hf a (by simp)).comp (ih fun b hb => hf b (by simp [hb]))

/-- An escaped byte stands inside of a string. -/
theorem chars_escape {c : UInt8} (hc : c ≠ 0) (ht : Chars escapes t) :
    Chars escapes (escape c ++ t) := by
  unfold escape
  split
  · rename_i hq
    apply Chars.escaped
    · rcases hq with rfl | rfl <;> decide
    · exact ht
  split
  · rename_i hctl
    have hlen : (hexLower 4 c.toNat).length = 4 := by
      have hall : ∀ k : Fin 256, (hexLower 4 k).length = 4 := by decide +kernel
      exact hall ⟨c.toNat, c.toNat_lt⟩
    exact Chars.unicode _ hlen (fun x hx => isHexdig_of_mem_hexLower hx) ht
  · rename_i hq hctl
    rw [not_or] at hq
    refine .unescaped c ?_ ht
    simp only [isUnescaped, Bool.and_eq_true, decide_eq_true_eq, bne_iff_ne, ne_eq]
    exact ⟨⟨UInt8.not_lt.mp hctl, hq.1⟩, hq.2⟩

/-- The bytes of a string, at a place where the characters of a string are due. -/
theorem fills_chars (hp : ∀ t, Chars escapes t → Writes p t p) (s : Text) :
    Fills d p p fun j => (cstr s).foldl jchar j := by
  refine fills_foldl fun c hc => ?_
  have hne : c ≠ 0 := by
    rintro rfl
    exact zero_not_mem_cstr s hc
  have hescape : Writes p (escape c) p := by
    apply hp
    have hchars := chars_escape hne Chars.nil
    rwa [List.append_nil] at hchars
  unfold jchar
  unfold escape at hescape
  split at hescape
  next h =>
    simp only [h, if_true]
    exact fills_jraw hescape
  next h =>
    simp only [h, if_false]
    split at hescape
    next h' =>
      simp only [h', if_true]
      exact fills_jprintf hescape
    next h' =>
      simp only [h', if_false]
      exact fills_jraw hescape

theorem fills_jstr (s : Text) (within : List Bool) :
    Fills d ⟨.value, within⟩ ⟨.after, within⟩ (jstr s) :=
  ((fills_jraw (.of_feed (q := ⟨.inString, within⟩) rfl)).comp
    (fills_chars (fun _ ht => writes_chars ht within) s)).comp (fills_jraw (.of_feed rfl))

theorem fills_jkeyText (s : Text) (within : List Bool) :
    Fills d ⟨.key, true :: within⟩ ⟨.colon, true :: within⟩ (jstr s) :=
  ((fills_jraw (.of_feed (q := ⟨.inKey, true :: within⟩) rfl)).comp
    (fills_chars (fun _ ht => writes_keyChars ht _) s)).comp (fills_jraw (.of_feed rfl))

/-! ## Statements that write items -/

/-- Between two items of a container, or before the first: `first` is the place
behind the opening. -/
def place (first : Spot) (obj : Bool) (within : List Bool) (comma : Bool) : Spot :=
  if comma then ⟨.after, obj :: within⟩ else first

/-- A statement that writes items of an object (or array) at depth `d`. -/
def Emits (d : Nat) (obj : Bool) (f : Jw → Jw) : Prop :=
  ∀ ⦃m cap pre p₀ first within j⦄, Writes first [] ⟨dueItem obj, obj :: within⟩ →
    Jw.Ok m cap pre p₀ (place first obj within (j.comma d)) j → j.depth = d →
    (f j).Ok m cap pre p₀ (place first obj within ((f j).comma d)) ∧ (f j).depth = d ∧
      (∀ k < d, (f j).comma k = j.comma k) ∧ (j.comma d = true → (f j).comma d = true)

theorem emits_seq {fs : List (Jw → Jw)} (hfs : ∀ f ∈ fs, Emits d obj f) : Emits d obj (seq fs) := by
  induction fs with
  | nil => exact fun _ _ _ _ _ _ _ _ hj hd => ⟨hj, hd, fun _ _ => rfl, id⟩
  | cons f fs ih =>
    intro m cap pre p₀ first within j hfirst hj hd
    obtain ⟨hj', hd', hcomma, hkept⟩ := hfs f (by simp) hfirst hj hd
    obtain ⟨hj'', hd'', hcomma', hkept'⟩ :=
      ih (fun g hg => hfs g (by simp [hg])) hfirst hj' hd'
    exact ⟨hj'', hd'', fun k hk => (hcomma' k hk).trans (hcomma k hk), fun h => hkept' (hkept h)⟩

theorem emits_ite {c : Prop} [Decidable c] {f g : Jw → Jw} (hf : c → Emits d obj f)
    (hg : ¬ c → Emits d obj g) : Emits d obj (if c then f else g) := by
  split
  next h => exact hf h
  next h => exact hg h

theorem emits_ifThen {c : Bool} {fs : List (Jw → Jw)} (hfs : ∀ f ∈ fs, Emits d obj f) :
    Emits d obj (ifThen c fs) :=
  emits_ite (fun _ => emits_seq hfs) fun _ => emits_seq (by simp)

theorem emits_ifSome {α : Type} {o : Option α} {fs : α → List (Jw → Jw)}
    (hfs : ∀ a, ∀ f ∈ fs a, Emits d obj f) : Emits d obj (ifSome o fs) := by
  cases o with
  | none => exact emits_seq (by simp)
  | some a => exact emits_seq (hfs a)

/-- `jsep` leads to the next item. -/
theorem ok_jsep {first : Spot} (hfirst : Writes first [] ⟨dueItem obj, obj :: within⟩)
    (hj : j.Ok m cap pre p₀ (place first obj within (j.comma d))) (hd : j.depth = d) :
    (jsep j).Ok m cap pre p₀ ⟨dueItem obj, obj :: within⟩ ∧ (jsep j).depth = d ∧
      (∀ k < d, (jsep j).comma k = j.comma k) ∧ (jsep j).comma d = true := by
  have hsep : ∀ {j' : Jw}, j'.Ok m cap pre p₀ ⟨dueItem obj, obj :: within⟩ → j'.depth = d →
      (∀ k ≤ d, j'.comma k = j.comma k) →
      let j'' : Jw := { j' with comma := Function.update j'.comma j.depth true }
      j''.Ok m cap pre p₀ ⟨dueItem obj, obj :: within⟩ ∧ j''.depth = d ∧
        (∀ k < d, j''.comma k = j.comma k) ∧ j''.comma d = true := by
    intro j' hj' hd' hcomma
    refine ⟨⟨hj'.1, hj'.2, hj'.3, hj'.4⟩, hd', fun k hk => ?_, ?_⟩
    · show Function.update j'.comma j.depth true k = j.comma k
      rw [Function.update_of_ne (by omega)]
      exact hcomma k (by omega)
    · show Function.update j'.comma j.depth true d = true
      rw [hd, Function.update_self]
  unfold jsep
  by_cases hcomma : j.comma d = true
  · rw [hcomma] at hj
    have hwrites : Writes ⟨.after, obj :: within⟩
        (if j.depth = 1 then [ch ',', 10] else [ch ',']) ⟨dueItem obj, obj :: within⟩ := by
      split
      next => exact writes_comma_blank obj within rfl
      next => exact writes_comma obj within
    obtain ⟨hj', hd', hsame⟩ := fills_jraw hwrites hj hd
    rw [hd] at hj' hd' hsame ⊢
    rw [if_pos hcomma]
    rw [hd] at hsep
    exact hsep hj' hd' hsame
  · rw [Bool.not_eq_true] at hcomma
    rw [hcomma] at hj
    have hj' : j.Ok m cap pre p₀ ⟨dueItem obj, obj :: within⟩ := by
      refine ⟨hj.1, hj.2, hj.3, fun hovf => ?_⟩
      obtain ⟨hnul, hleads⟩ := hj.text hovf
      have hlead := hleads.append hfirst
      rw [List.append_nil] at hlead
      exact ⟨hnul, hlead⟩
    rw [hd, if_neg (by simp [hcomma])]
    rw [hd] at hsep
    exact hsep hj' hd fun _ _ => rfl

/-- An element of an array. -/
theorem emits_element {g : Jw → Jw}
    (hg : ∀ within, Fills d ⟨.value, false :: within⟩ ⟨.after, false :: within⟩ g) :
    Emits d false fun j => g (jsep j) := by
  intro m cap pre p₀ first within j hfirst hj hd
  obtain ⟨hj', hd', hcomma, htrue⟩ := ok_jsep hfirst hj hd
  obtain ⟨hj'', hd'', hcomma'⟩ := hg within hj' hd'
  have htrue' : (g (jsep j)).comma d = true := (hcomma' d (Nat.le_refl d)).trans htrue
  refine ⟨?_, hd'', fun k hk => (hcomma' k (by omega)).trans (hcomma k hk), fun _ => htrue'⟩
  rw [htrue']
  exact hj''

/-- A member of an object. -/
theorem emits_member {g : Jw → Jw} (k : Text)
    (hg : ∀ within, Fills d ⟨.value, true :: within⟩ ⟨.after, true :: within⟩ g) :
    Emits d true fun j => g (jkey k j) := by
  intro m cap pre p₀ first within j hfirst hj hd
  obtain ⟨hj', hd', hcomma, htrue⟩ := ok_jsep hfirst hj hd
  have hkey : Fills d ⟨.key, true :: within⟩ ⟨.after, true :: within⟩
      fun j => g (jraw [ch ':'] (jstr k j)) :=
    ((fills_jkeyText k within).comp (fills_jraw (.of_feed rfl))).comp (hg within)
  obtain ⟨hj'', hd'', hcomma'⟩ := hkey hj' hd'
  have htrue' : (g (jkey k j)).comma d = true := (hcomma' d (Nat.le_refl d)).trans htrue
  refine ⟨?_, hd'', fun k hk => (hcomma' k (by omega)).trans (hcomma k hk), fun _ => htrue'⟩
  rw [htrue']
  exact hj''

/-- The items of a container and its closing bracket. -/
theorem ok_items {fs : List (Jw → Jw)} (hfs : ∀ f ∈ fs, Emits (d + 1) obj f)
    (hj : j.Ok m cap pre p₀ ⟨.opened obj, within⟩) (hd : j.depth = d + 1)
    (hcomma : j.comma (d + 1) = false) :
    (jclose (closing obj) (seq fs j)).Ok m cap pre p₀ ⟨.after, within⟩ ∧
      (jclose (closing obj) (seq fs j)).depth = d ∧
      ∀ k ≤ d, (jclose (closing obj) (seq fs j)).comma k = j.comma k := by
  have hinner : j.Ok m cap pre p₀ (place ⟨.opened obj, within⟩ obj within (j.comma (d + 1))) := by
    rw [hcomma]
    exact hj
  obtain ⟨hj', hd', hcomma', -⟩ := emits_seq hfs (writes_first obj within) hinner hd
  have hclose : Writes (place ⟨.opened obj, within⟩ obj within ((seq fs j).comma (d + 1)))
      [closing obj] ⟨.after, within⟩ := by
    cases (seq fs j).comma (d + 1) <;> cases obj <;> exact .of_feed rfl
  have hup : ({ seq fs j with
      depth := if (seq fs j).depth > 0 then (seq fs j).depth - 1 else (seq fs j).depth } : Jw).Ok m
      cap pre p₀ (place ⟨.opened obj, within⟩ obj within ((seq fs j).comma (d + 1))) :=
    ⟨hj'.1, hj'.2, hj'.3, hj'.4⟩
  obtain ⟨hj'', hd'', hcomma''⟩ := fills_jraw hclose hup (d := d) (by simp [hd'])
  exact ⟨hj'', hd'', fun k hk => (hcomma'' k hk).trans (hcomma' k (by omega))⟩

/-- One level deeper nothing is written yet. -/
theorem jopen_down (c : UInt8) (hd : (jraw [c] j).depth = d) (hdepths : d + 1 < jwDepths) :
    (jopen c j).depth = d + 1 ∧
      (jopen c j).comma = Function.update (jraw [c] j).comma (d + 1) false := by
  simp only [jopen, jputs, hd, if_pos hdepths, and_self]

/-- A container between its brackets. -/
theorem fills_block (hdepths : d + 1 < jwDepths) {fs : List (Jw → Jw)}
    (hfs : ∀ f ∈ fs, Emits (d + 1) obj f) (within : List Bool) :
    Fills d ⟨.value, within⟩ ⟨.after, within⟩ fun j =>
      jclose (closing obj) (seq fs (jopen (opening obj) j)) := by
  intro m cap pre p₀ j hj hd
  have hopen : Writes ⟨.value, within⟩ [opening obj] ⟨.opened obj, within⟩ := by
    cases obj <;> exact .of_feed rfl
  obtain ⟨hj₁, hd₁, hcomma₁⟩ := fills_jraw hopen hj hd
  obtain ⟨hdown, hclear⟩ := jopen_down (opening obj) hd₁ hdepths
  have hinner : (jopen (opening obj) j).Ok m cap pre p₀ ⟨.opened obj, within⟩ :=
    ⟨hj₁.1, hj₁.2, hj₁.3, hj₁.4⟩
  have hfresh : (jopen (opening obj) j).comma (d + 1) = false := by
    rw [hclear, Function.update_self]
  obtain ⟨hj₂, hd₂, hcomma₂⟩ := ok_items hfs hinner hdown hfresh
  refine ⟨hj₂, hd₂, fun k hk => ?_⟩
  rw [hcomma₂ k hk, hclear, Function.update_of_ne (by omega)]
  exact hcomma₁ k hk

/-! ## The first member -/

@[simp] theorem jraw_comma (t : Text) (j : Jw) : (jraw t j).comma = j.comma := by
  unfold jraw
  repeat' split
  all_goals rfl

@[simp] theorem jprintf_comma (t : Text) (j : Jw) : (jprintf t j).comma = j.comma := by
  unfold jprintf
  dsimp only
  repeat' split
  all_goals rfl

@[simp] theorem jstr_comma (s : Text) (j : Jw) : (jstr s j).comma = j.comma := by
  have hchar : ∀ (l : Text) (j : Jw), (l.foldl jchar j).comma = j.comma := by
    intro l
    induction l with
    | nil => exact fun _ => rfl
    | cons c l ih =>
      intro j
      rw [List.foldl_cons, ih, jchar]
      repeat' split
      all_goals simp
  simp [jstr, hchar]

/-- Behind a name a value has been written. -/
theorem jkey_comma (k : Text) (j : Jw) : (jkey k j).comma j.depth = true := by
  simp [jkey, jsep]

theorem holds_start (m : Image) (hcap : 0 < cap) (depth : Nat) :
    (Jw.start m cap depth).Holds m cap (· = []) := by
  refine ⟨rfl, hcap, fun i hi => ?_, fun _ => ⟨?_, rfl⟩⟩
  · exact store_of_le m (by simp; omega)
  · exact store_add m 0 (k := 0) (t := [0]) (by simp)

end Ok

/-! ## The statements of the writer -/

section Statements

variable {d : Nat} {fs : List (Jw → Jw)} {within : List Bool}

theorem fills_value {v : Text} (hv : Value v) :
    Fills d ⟨.value, within⟩ ⟨.after, within⟩ (jprintf v) :=
  fills_jprintf (writes_value hv within)

theorem value_dec (n : Nat) : Value (dec n) := ⟨0, 1, .number (number_dec n)⟩

theorem value_decInt (x : Int) : Value (decInt x) := ⟨0, 1, .number (number_decInt x)⟩

@[simp] theorem emits_ku64 (k : String) (v : Nat) : Emits d true (ku64 k v) :=
  emits_member (txt k) fun _ => fills_value (value_dec v)

@[simp] theorem emits_ki64 (k : String) (v : Int) : Emits d true (ki64 k v) :=
  emits_member (txt k) fun _ => fills_value (value_decInt v)

@[simp] theorem emits_kstr (k : String) (v : Text) : Emits d true (kstr k v) :=
  emits_member (txt k) fun _ => fills_jstr v _

theorem fills_word {w : Text} (hw : w ∈ words) :
    Fills d ⟨.value, within⟩ ⟨.after, within⟩ (jputs w) :=
  fills_jraw (writes_value (value_word hw) within)

@[simp] theorem emits_kbool (k : String) (v : Bool) : Emits d true (kbool k v) := by
  refine emits_member (txt k) fun _ => fills_word ?_
  cases v <;> decide

@[simp] theorem emits_knull (k : String) : Emits d true (knull k) :=
  emits_member (txt k) fun _ => fills_word (by decide)

@[simp] theorem emits_khex (k : String) (v digits : Nat) : Emits d true (khex k v digits) := by
  refine emits_member (txt k) fun _ => fills_value ?_
  have hchars : Chars escapes (txt "0x" ++ hexUpper digits v) :=
    (chars_of_unescaped (by decide +kernel)).append (chars_hexUpper digits v)
  exact value_string hchars

@[simp] theorem emits_kopt (k : String) (v : Int) : Emits d true (kopt k v) := by
  unfold kopt
  exact emits_ite (fun _ => emits_knull k) fun _ => emits_ki64 k v

@[simp] theorem emits_anum (v : Nat) : Emits d false (anum v) :=
  emits_element fun _ => fills_value (value_dec v)

@[simp] theorem emits_astr (v : Text) : Emits d false (astr v) :=
  emits_element fun _ => fills_jstr v _

theorem emits_kobj (k : String) (hd : d + 1 < jwDepths) (hfs : ∀ f ∈ fs, Emits (d + 1) true f) :
    Emits d true (block (kobj k) (closing true) fs) :=
  emits_member (txt k) fun _ => fills_block hd hfs _

theorem emits_karr (k : String) (hd : d + 1 < jwDepths) (hfs : ∀ f ∈ fs, Emits (d + 1) false f) :
    Emits d true (block (karr k) (closing false) fs) :=
  emits_member (txt k) fun _ => fills_block hd hfs _

theorem emits_aobj (hd : d + 1 < jwDepths) (hfs : ∀ f ∈ fs, Emits (d + 1) true f) :
    Emits d false (block aobj (closing true) fs) :=
  emits_element fun _ => fills_block hd hfs _

end Statements

end EcMaster.Api
