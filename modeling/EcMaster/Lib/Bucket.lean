import Mathlib

/-!
# Token buckets

A bucket holds at most `cap` tokens, fills at a rate of at most `rate` tokens a unit of
time, and a request that passes takes one.  `Log cap rate` is what the log of such a bucket
looks like: each entry has the time of a request, whether it passed, and the level that it
left.  How the bucket is filled in detail does not matter, only that it is never filled by
more.

`Log.window` is the reason for having one: in no window of length `W` do more than
`cap + rate * W` requests pass.  The level is the potential.  From a level `x` on, at most
`x + rate * t` requests pass in the time `t` (`Log.upTo`), and at the first request of the
window the level is at most `cap`.
-/

namespace EcMaster.Bucket

variable {K : Type} [Field K] [LinearOrder K] [IsStrictOrderedRing K]

/-- One request. -/
structure Entry (K : Type) where
  time : K
  passed : Bool
  level : K

/-- The tokens that a request takes. -/
def Entry.cost (e : Entry K) : K := if e.passed then 1 else 0

/-- The log of a bucket with a level at the time of the last request. -/
def Log (cap rate : K) : K → K → List (Entry K) → Prop
  | _, _, [] => True
  | level, last, e :: es =>
      last ≤ e.time ∧ 0 ≤ e.level ∧ e.level + e.cost ≤ cap ∧
        e.level + e.cost ≤ level + rate * (e.time - last) ∧ Log cap rate e.level e.time es

/-- The requests of the window from `lo` to `hi` that pass. -/
def passedIn (lo hi : K) (es : List (Entry K)) : Nat :=
  (es.filter fun e => e.passed ∧ lo ≤ e.time ∧ e.time ≤ hi).length

section Window

variable {cap rate lo hi level last : K} {e : Entry K} {es : List (Entry K)}

omit [IsStrictOrderedRing K] in
theorem passedIn_cons_of_mem (hlo : lo ≤ e.time) (hhi : e.time ≤ hi) :
    (passedIn lo hi (e :: es) : K) = e.cost + passedIn lo hi es := by
  unfold passedIn Entry.cost
  cases hp : e.passed with
  | true =>
      rw [List.filter_cons_of_pos (by simp [hp, hlo, hhi]), List.length_cons, Nat.cast_add,
        Nat.cast_one, if_pos rfl, add_comm]
  | false => rw [List.filter_cons_of_neg (by simp [hp]), if_neg (by simp), zero_add]

omit [Field K] [IsStrictOrderedRing K] in
theorem passedIn_cons_of_not_mem (h : ¬(lo ≤ e.time ∧ e.time ≤ hi)) :
    passedIn lo hi (e :: es) = passedIn lo hi es := by
  unfold passedIn
  rw [List.filter_cons_of_neg]
  simpa using fun _ hlo => lt_of_not_ge fun hhi => h ⟨hlo, hhi⟩

omit [IsStrictOrderedRing K] in
/-- Behind the window nothing counts. -/
theorem Log.behind (h : Log cap rate level last es) (hlast : hi < last) :
    passedIn lo hi es = 0 := by
  induction es generalizing level last with
  | nil => rfl
  | cons e es ih =>
      obtain ⟨hle, -, -, -, hrest⟩ := h
      have hbehind : hi < e.time := lt_of_lt_of_le hlast hle
      rw [passedIn_cons_of_not_mem fun hmem => absurd hmem.2 (not_le_of_gt hbehind)]
      exact ih hrest hbehind

/-- The potential argument, up to the end of the window. -/
theorem Log.upTo (h : Log cap rate level last es) (hrate : 0 ≤ rate) (hlevel : 0 ≤ level)
    (hlast : last ≤ hi) : (passedIn lo hi es : K) ≤ level + rate * (hi - last) := by
  induction es generalizing level last with
  | nil =>
      have hfill : 0 ≤ rate * (hi - last) := mul_nonneg hrate (sub_nonneg.2 hlast)
      have hzero : (passedIn lo hi ([] : List (Entry K)) : K) = 0 := Nat.cast_zero
      linarith
  | cons e es ih =>
      obtain ⟨hle, hleft, -, hfill, hrest⟩ := h
      by_cases hhi : e.time ≤ hi
      · have hpassed := ih hrest hleft hhi
        have hcost : 0 ≤ e.cost := by
          unfold Entry.cost
          split
          · exact zero_le_one
          · exact le_rfl
        have hcount : (passedIn lo hi (e :: es) : K) ≤ e.cost + passedIn lo hi es := by
          by_cases hlo : lo ≤ e.time
          · exact (passedIn_cons_of_mem hlo hhi).le
          · rw [passedIn_cons_of_not_mem fun hmem => hlo hmem.1]
            linarith
        have hsplit : rate * (e.time - last) + rate * (hi - e.time) = rate * (hi - last) := by
          ring
        linarith
      · have hbehind := lt_of_not_ge hhi
        rw [passedIn_cons_of_not_mem fun hmem => hhi hmem.2, hrest.behind hbehind, Nat.cast_zero]
        have hgain : 0 ≤ rate * (hi - last) := mul_nonneg hrate (sub_nonneg.2 hlast)
        linarith

/-- No window of length `W` lets more than `cap + rate * W` requests pass. -/
theorem Log.window {W : K} (h : Log cap rate level last es) (hcap : 0 ≤ cap) (hrate : 0 ≤ rate)
    (hW : 0 ≤ W) : (passedIn lo (lo + W) es : K) ≤ cap + rate * W := by
  have hgain : 0 ≤ rate * W := mul_nonneg hrate hW
  induction es generalizing level last with
  | nil =>
      have hzero : (passedIn lo (lo + W) ([] : List (Entry K)) : K) = 0 := Nat.cast_zero
      linarith
  | cons e es ih =>
      obtain ⟨-, hleft, hfull, -, hrest⟩ := h
      by_cases hlo : lo ≤ e.time
      · by_cases hhi : e.time ≤ lo + W
        · -- the first request of the window: the level is at most `cap`
          have hpassed : (passedIn lo (lo + W) es : K) ≤ _ := hrest.upTo hrate hleft hhi
          have hlater : rate * (lo + W - e.time) ≤ rate * W :=
            mul_le_mul_of_nonneg_left (by linarith) hrate
          rw [passedIn_cons_of_mem hlo hhi]
          linarith
        · rw [passedIn_cons_of_not_mem fun hmem => hhi hmem.2, hrest.behind (lt_of_not_ge hhi),
            Nat.cast_zero]
          linarith
      · rw [passedIn_cons_of_not_mem fun hmem => hlo hmem.1]
        exact ih hrest

end Window

end EcMaster.Bucket
