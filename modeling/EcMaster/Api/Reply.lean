import EcMaster.Api.Values

/-!
# The reply writer

`rw_t` and the `r…` functions of `libecmaster/api/ecm_ctl.c`.  A reply is
written piece by piece into a buffer of fixed size; a piece that does not fit
is dropped, and so is everything after it, and then the reply is empty.

`Rw.Wrote w s w'` says all of that at once: `w'` is `w` with `s` behind it if
`s` fits, and has overflowed if not.  It composes along a sequence of writes
(`Rw.Wrote.trans`), so what a function writes is read off its calls.
-/

namespace EcMaster.Api

open EcMaster.CText

/-- `rw_t`. -/
structure Rw where
  out : Text
  cap : Nat
  ovf : Bool
deriving DecidableEq, Repr

/-- A writer for an empty buffer of `cap` bytes. -/
def Rw.start (cap : Nat) : Rw := { out := [], cap, ovf := false }

/-- `rput`; two bytes stay free for the newline and the NUL. -/
def rput (w : Rw) (s : Text) : Rw :=
  if w.ovf then w
  else if w.cap < w.out.length + s.length + 2 then { w with ovf := true }
  else { w with out := w.out ++ s }

/-- `rs`, for the bytes before the NUL. -/
def rs (w : Rw) (s : Text) : Rw := rput w s

/-- `rf`, for the formatted text: it passes through a buffer of 512 bytes. -/
def rf (w : Rw) (s : Text) : Rw := if 512 ≤ s.length then { w with ovf := true } else rput w s

/-- One byte of a JSON string. -/
def rchar (w : Rw) (c : UInt8) : Rw :=
  if c = quote ∨ c = backslash then rput w [backslash, c]
  else if c < 0x20 then rf w (txt "\\u" ++ hexLower 4 c.toNat)
  else rput w [c]

/-- `rstr`. -/
def rstr (w : Rw) (s : Text) : Rw := rput ((cstr s).foldl rchar (rput w [quote])) [quote]

/-- `rhex`. -/
def rhex (w : Rw) (b : Text) : Rw :=
  rput (b.foldl (fun w c => rf w (hexUpper 2 c.toNat)) (rput w [quote])) [quote]

/-- `rval`. -/
def rval {D : Type} (fp : Fp D) (w : Rw) (t : CType) (v : Val D) : Rw :=
  if t = .f32 then rf w (fp.g9 (asD fp v))
  else if isSigned t then rf w (decInt (asI v).toInt)
  else rf w (dec (asU v).toNat)

/-- `rend`: the reply, empty where it did not fit. -/
def rend (w : Rw) : Text := if w.ovf then [] else w.out ++ [10]

/-! ## What a writer holds -/

/-- `w'` holds what `w` holds and then `s`, or has overflowed because `s` did
not fit. -/
structure Rw.Wrote (w : Rw) (s : Text) (w' : Rw) : Prop where
  cap : w'.cap = w.cap
  fits : w.ovf = false → w.out.length + s.length + 2 ≤ w.cap →
    w'.ovf = false ∧ w'.out = w.out ++ s
  full : w.ovf = true ∨ w.cap < w.out.length + s.length + 2 → w'.ovf = true

theorem Rw.Wrote.trans {u v w : Rw} {s r : Text} (huv : u.Wrote s v) (hvw : v.Wrote r w) :
    u.Wrote (s ++ r) w where
  cap := hvw.cap.trans huv.cap
  fits hovf hroom := by
    rw [List.length_append] at hroom
    obtain ⟨hv, hout⟩ := huv.fits hovf (by omega)
    obtain ⟨hw, hout'⟩ := hvw.fits hv (by rw [hout, huv.cap, List.length_append]; omega)
    exact ⟨hw, by rw [hout', hout, List.append_assoc]⟩
  full hno := by
    rw [List.length_append] at hno
    by_cases hfirst : u.ovf = true ∨ u.cap < u.out.length + s.length + 2
    · exact hvw.full (.inl (huv.full hfirst))
    · -- the first part fits, so it is the second that does not
      have hu : u.ovf = false := by simpa using fun h => hfirst (.inl h)
      have hroom : ¬ u.cap < u.out.length + s.length + 2 := fun h => hfirst (.inr h)
      obtain ⟨-, hout⟩ := huv.fits hu (by omega)
      apply hvw.full
      right
      rw [hout, huv.cap, List.length_append]
      rcases hno with hovf | hno
      · exact absurd (.inl hovf) hfirst
      · omega

theorem rput_wrote (w : Rw) (s : Text) : w.Wrote s (rput w s) := by
  unfold rput
  cases hovf : w.ovf with
  | true => exact ⟨rfl, fun h => by simp [hovf] at h, fun _ => hovf⟩
  | false =>
    rw [if_neg (by simp)]
    split
    · rename_i hno
      exact ⟨rfl, fun _ hroom => by omega, fun _ => rfl⟩
    · rename_i hno
      refine ⟨rfl, fun _ _ => ⟨rfl, rfl⟩, ?_⟩
      rintro (h | h)
      · simp [hovf] at h
      · exact absurd h hno

theorem rs_wrote (w : Rw) (s : Text) : w.Wrote s (rs w s) := rput_wrote w s

theorem rf_wrote (w : Rw) {s : Text} (hs : s.length < 512) : w.Wrote s (rf w s) := by
  unfold rf
  rw [if_neg (by omega)]
  exact rput_wrote w s

/-- One byte as it stands in a JSON string. -/
def escape (c : UInt8) : Text :=
  if c = quote ∨ c = backslash then [backslash, c]
  else if c < 0x20 then txt "\\u" ++ hexLower 4 c.toNat
  else [c]

/-- A C string as a JSON string. -/
def quoted (s : Text) : Text := quote :: (cstr s).flatMap escape ++ [quote]

theorem length_escape_le (c : UInt8) : (escape c).length ≤ 6 :=
  forall_byte (p := fun c => (escape c).length ≤ 6) (by decide +kernel) c

theorem length_quoted_le (s : Text) : (quoted s).length ≤ 6 * s.length + 2 := by
  have hflat : ∀ b : Text, (b.flatMap escape).length ≤ 6 * b.length := by
    intro b
    induction b with
    | nil => simp
    | cons c b ih =>
      have hc := length_escape_le c
      rw [List.flatMap_cons, List.length_append, List.length_cons]
      omega
  have hcut : (cstr s).length ≤ s.length := ( List.takeWhile_prefix _).length_le
  have hbody := hflat (cstr s)
  simp only [quoted, List.length_append, List.length_cons, List.length_nil]
  omega

theorem rchar_wrote (w : Rw) (c : UInt8) : w.Wrote (escape c) (rchar w c) := by
  have hlen := length_escape_le c
  unfold rchar
  unfold escape at hlen ⊢
  split
  · exact rput_wrote w _
  · split
    · apply rf_wrote
      rename_i hq hc
      rw [if_neg hq, if_pos hc] at hlen
      omega
    · exact rput_wrote w _

/-- A loop of writes that each add their own text. -/
theorem foldl_wrote {α : Type} {put : Rw → α → Rw} {text : α → Text}
    (hput : ∀ (w : Rw) (a : α), w.Wrote (text a) (put w a)) {u : Rw} {s : Text} (l : List α) :
    ∀ w, u.Wrote s w → u.Wrote (s ++ l.flatMap text) (l.foldl put w) := by
  induction l generalizing s with
  | nil =>
    intro w hw
    simpa using hw
  | cons a l ih =>
    intro w hw
    rw [List.foldl_cons, List.flatMap_cons, ← List.append_assoc]
    exact ih _ (hw.trans (hput w a))

theorem rstr_wrote (w : Rw) (s : Text) : w.Wrote (quoted s) (rstr w s) := by
  have hbody := foldl_wrote rchar_wrote (cstr s) _ (rput_wrote w [quote])
  exact hbody.trans (rput_wrote _ [quote])

/-- The reply of a writer that started empty. -/
theorem rend_of_wrote {cap : Nat} {s : Text} {w : Rw} (h : (Rw.start cap).Wrote s w) :
    rend w = if s.length + 2 ≤ cap then s ++ [10] else [] := by
  by_cases hroom : s.length + 2 ≤ cap
  · obtain ⟨hovf, hout⟩ := h.fits rfl (by simpa [Rw.start] using hroom)
    simp [rend, hovf, hout, hroom, Rw.start]
  · have hovf := h.full (.inr (by simp only [Rw.start, List.length_nil]; omega))
    simp [rend, hovf, hroom]

end EcMaster.Api
