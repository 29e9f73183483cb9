import EcMaster.Lib.CText
import EcMaster.Lib.Checked

/-!
# Files of records

A configuration file is lines, and a line is a record: its first field names the kind
of the record, and the fields behind it are values, or keys and values.

* `splitLines` gives the lines of a text in memory, found with `strchr`.
* `tokenize` cuts a line into its fields at blanks.  A field that starts with a
  quotation mark goes up to the next one.  No more than a given number is cut.
* `valueOf` finds the value of a key.  It looks at every other field.
* `unsigned32`, `signed32` and `hexBytes` read a value.

A loader is a computation in `Except` that stops at the first error.  `Grants x Q` says
what holds of everything that `x` accepts.
-/

namespace EcMaster.Records

open EcMaster.CText

/-! ## Lines -/

/-- The lines of a text, without their ends.  An end of line at the end of the text
starts no further line. -/
def splitLines : Text → Text → List Text
  | acc, [] => if acc = [] then [] else [acc.reverse]
  | acc, c :: cs =>
      if c = ch '\n' then acc.reverse :: splitLines [] cs else splitLines (c :: acc) cs

/-! ## Fields -/

/-- The fields of a line, at most as many as the first argument says. -/
def tokenize : Nat → Text → List Text
  | 0, _ => []
  | max + 1, line =>
      match line.dropWhile isSpace with
      | [] => []
      | c :: cs =>
          if c = ch '"' then
            cs.takeWhile (· != ch '"') :: tokenize max ((cs.dropWhile (· != ch '"')).drop 1)
          else
            (c :: cs).takeWhile (!isSpace ·) ::
              tokenize max (((c :: cs).dropWhile (!isSpace ·)).drop 1)

/-- The value of the first pair with the key. -/
def valueOf (key : Text) : List Text → Option Text
  | k :: v :: rest => if k = key then some v else valueOf key rest
  | _ => none

/-- The pieces of a text between separators, without the empty ones, as `strtok`
gives them. -/
def strtok (sep : UInt8) (t : Text) : List Text := (t.splitOn sep).filter (· ≠ [])

/-! ## Values -/

/-- A number below `2 ^ 32`, read by `strtoull` to the end of the field. -/
def unsigned32 (s : Text) : Option Nat :=
  let c := strtoull 0 s
  if c.erange || !c.rest.isEmpty || c.nothing || 0xFFFFFFFF < c.value.toNat then none
  else some c.value.toNat

/-- A number that fits 32 bits with a sign, read by `strtoll` to the end of the
field. -/
def signed32 (s : Text) : Option Int :=
  let c := strtoll 0 s
  if c.erange || !c.rest.isEmpty || c.nothing || c.value.toInt < -2 ^ 31 ||
      2 ^ 31 - 1 < c.value.toInt then none
  else some c.value.toInt

/-- Pairs of hexadecimal digits. -/
def hexPairs : Text → Option (List UInt8)
  | [] => some []
  | [_] => none
  | a :: b :: rest =>
      if digitVal a < 16 ∧ digitVal b < 16 then
        (hexPairs rest).map (UInt8.ofNat (16 * digitVal a + digitVal b) :: ·)
      else none

/-- At most `max` bytes in hexadecimal. -/
def hexBytes (max : Nat) (s : Text) : Option (List UInt8) :=
  if max < s.length / 2 then none else hexPairs s

theorem length_hexPairs {s : Text} {b : List UInt8} (h : hexPairs s = some b) :
    s.length = 2 * b.length := by
  induction s using hexPairs.induct generalizing b with
  | case1 =>
      rw [← Option.some.inj h]
      rfl
  | case2 => exact absurd h (by simp [hexPairs])
  | case3 x y rest hxy ih =>
      rw [hexPairs, if_pos hxy, Option.map_eq_some_iff] at h
      obtain ⟨b', hb', rfl⟩ := h
      have := ih hb'
      simp only [List.length_cons]
      omega
  | case4 x y rest hxy =>
      rw [hexPairs, if_neg hxy] at h
      exact absurd h (by simp)

theorem length_hexBytes_le {max : Nat} {s : Text} {b : List UInt8}
    (h : hexBytes max s = some b) : b.length ≤ max := by
  unfold hexBytes at h
  split at h
  · exact absurd h (by simp)
  · have := length_hexPairs h
    omega

/-! ## What a loader accepts -/

section Grants

variable {ε α β : Type}

/-- Everything that the loader accepts has `Q`. -/
def Grants (x : Except ε α) (Q : α → Prop) : Prop := ∀ a, x = .ok a → Q a

variable {x : Except ε α} {P Q : α → Prop} {R : β → Prop}

theorem grants_ok {a : α} : Grants (.ok a : Except ε α) Q ↔ Q a := by
  constructor
  · intro h
    exact h a rfl
  · intro h b hb
    rw [← Except.ok.inj hb]
    exact h

theorem grants_pure {a : α} : Grants (pure a : Except ε α) Q ↔ Q a := grants_ok

theorem grants_error {e : ε} : Grants (.error e : Except ε α) Q := by
  intro a ha
  exact absurd ha (by simp)

theorem Grants.mono (hx : Grants x P) (h : ∀ a, P a → Q a) : Grants x Q :=
  fun a ha => h a (hx a ha)

theorem Grants.bind {f : α → Except ε β} (hx : Grants x P) (hf : ∀ a, P a → Grants (f a) R) :
    Grants (x >>= f) R := by
  intro b hb
  cases x with
  | error e => exact absurd hb (by simp [Bind.bind, Except.bind])
  | ok a => exact hf a (hx a rfl) b hb

/-- A loader whose value is not looked at. -/
theorem Grants.bind_any {f : α → Except ε β} (hf : ∀ a, Grants (f a) R) :
    Grants (x >>= f) R :=
  Grants.bind (P := fun _ => True) (fun _ _ => trivial) fun a _ => hf a

theorem Grants.ite {c : Prop} [Decidable c] {y : Except ε α} (hx : c → Grants x Q)
    (hy : ¬c → Grants y Q) : Grants (if c then x else y) Q := by
  split
  · rename_i hc
    exact hx hc
  · rename_i hc
    exact hy hc

/-- A sequence is accepted when each of its parts is. -/
theorem bind_eq_ok {f : α → Except ε β} {b : β} :
    (x >>= f) = .ok b ↔ ∃ a, x = .ok a ∧ f a = .ok b := by
  cases x with
  | error e => simp [Bind.bind, Except.bind]
  | ok a => simp [Bind.bind, Except.bind]

theorem toOption_eq_some {a : α} : x.toOption = some a ↔ x = .ok a := by
  cases x <;> simp [Except.toOption]

theorem pure_eq_ok {a b : α} : (pure a : Except ε α) = .ok b ↔ a = b := by
  simp [pure, Except.pure]

/-- A fold over the lines, with an invariant that knows the lines read so far. -/
theorem Grants.foldlM_seen {σ : Type} {f : σ → α → Except ε σ} {I : List α → σ → Prop}
    (h : ∀ seen s x, I seen s → Grants (f s x) (I (seen ++ [x]))) (xs : List α) :
    ∀ {seen : List α} {s : σ}, I seen s → Grants (xs.foldlM f s) (I (seen ++ xs)) := by
  induction xs with
  | nil =>
      intro seen s hI
      rw [List.append_nil]
      exact grants_pure.2 hI
  | cons x xs ih =>
      intro seen s hI
      rw [List.foldlM_cons]
      refine Grants.bind (h seen s x hI) ?_
      intro s' hI'
      have := ih hI'
      rwa [List.append_assoc] at this

theorem exists_of_forall₂ {R : α → β → Prop} {xs : List α} {ys : List β}
    (h : List.Forall₂ R xs ys) {y : β} (hy : y ∈ ys) : ∃ x ∈ xs, R x y := by
  induction h with
  | nil => exact absurd hy List.not_mem_nil
  | cons hrel _ ih =>
      rcases List.mem_cons.1 hy with rfl | hy
      · exact ⟨_, List.mem_cons_self, hrel⟩
      · obtain ⟨x, hx, hR⟩ := ih hy
        exact ⟨x, List.mem_cons_of_mem _ hx, hR⟩

end Grants

end EcMaster.Records
