import Mathlib

/-!
# Counting time slots from what arrives in them

Time after some instant is cut into slots `0, 1, 2, …`; what is before it has a negative
slot.  Things arrive in the order of their slots, any number in a slot, and some of them
are marked.  A `Tally` follows them with four variables only: the last slot known to have
begun, whether something marked arrived in it, how many slots have begun, and how many
complete ones had nothing marked.  It learns that time has passed only when something
arrives, possibly many slots late.

`Counts` says that the tally is right for a list of arrivals, and `Counts.arrive` that one
more arrival keeps it right.
-/

namespace EcMaster.Slots

/-- An arrival: its slot, and whether it is marked. -/
abbrev Arrival := Int × Bool

/-- The variables of the count. -/
structure Tally where
  last : Int
  seen : Bool
  begun : Nat
  missed : Nat
deriving DecidableEq, Repr

/-- Before anything arrives. -/
def Tally.start : Tally := { last := -1, seen := true, begun := 0, missed := 0 }

/-- A new slot is known to have begun: all from the last one to the one before it are
complete. -/
def Tally.begin (t : Tally) (k : Int) : Tally :=
  { last := k
    seen := false
    begun := t.begun + (k - t.last).toNat
    missed := t.missed + ((if t.seen then 0 else 1) + (k - t.last - 1)).toNat }

/-- One arrival. -/
def Tally.arrive (t : Tally) (k : Int) (marked : Bool) : Tally :=
  let t := if t.last < k then t.begin k else t
  if marked then { t with seen := true } else t

/-- Something marked arrived in slot `j`. -/
def MarkedIn (l : List Arrival) (j : Int) : Prop := ∃ a ∈ l, a.2 = true ∧ a.1 = j

instance (l : List Arrival) (j : Int) : Decidable (MarkedIn l j) :=
  inferInstanceAs (Decidable (∃ a ∈ l, _))

/-- How many of the slots `0, …, n - 1` had nothing marked. -/
def missing (l : List Arrival) (n : Nat) : Nat :=
  (List.range n).countP fun j : Nat => ¬ MarkedIn l (j : Int)

/-- The tally is right for the arrivals. -/
structure Counts (l : List Arrival) (t : Tally) : Prop where
  last : t.last = -1 ∨ 0 ≤ t.last ∧ ∃ a ∈ l, a.1 = t.last
  bound : ∀ a ∈ l, a.1 ≤ t.last
  seen : t.seen = true ↔ t.last = -1 ∨ MarkedIn l t.last
  begun : (t.begun : Int) = t.last + 1
  missed : t.missed = missing l t.last.toNat

theorem counts_start : Counts [] Tally.start where
  last := .inl rfl
  bound := by simp
  seen := ⟨fun _ => .inl rfl, fun _ => rfl⟩
  begun := rfl
  missed := rfl

theorem missing_succ (l : List Arrival) (n : Nat) :
    missing l (n + 1) = missing l n + if MarkedIn l n then 0 else 1 := by
  rw [missing, List.range_succ, List.countP_append, missing, List.countP_singleton]
  by_cases h : MarkedIn l n
  · simp [h]
  · simp [h]

/-- Slots behind every arrival. -/
theorem missing_add {l : List Arrival} {n : Nat} (h : ∀ a ∈ l, a.1 < n) (d : Nat) :
    missing l (n + d) = missing l n + d := by
  induction d with
  | zero => rfl
  | succ d ih =>
    have hnone : ¬ MarkedIn l ((n + d : Nat) : Int) := by
      rintro ⟨a, ha, -, heq⟩
      have := h a ha
      omega
    rw [← Nat.add_assoc, missing_succ, if_neg hnone, ih, Nat.add_assoc]

/-- An arrival behind the slots that are counted. -/
theorem missing_concat (l : List Arrival) (k : Int) (marked : Bool) {n : Nat} (h : (n : Int) ≤ k) :
    missing (l ++ [(k, marked)]) n = missing l n := by
  unfold missing
  apply List.countP_congr
  intro j hj
  have hlt := List.mem_range.1 hj
  have hiff : MarkedIn (l ++ [(k, marked)]) j ↔ MarkedIn l j := by
    constructor
    · rintro ⟨a, ha, hmark, heq⟩
      rcases List.mem_append.1 ha with hold | hnew
      · exact ⟨a, hold, hmark, heq⟩
      · rw [List.mem_singleton.1 hnew] at heq
        dsimp only at heq
        omega
    · rintro ⟨a, ha, hrest⟩
      exact ⟨a, List.mem_append_left _ ha, hrest⟩
  simp [hiff]

/-- The slots that are complete when slot `k` begins. -/
theorem Counts.missing_begin {l : List Arrival} {t : Tally} (h : Counts l t) {k : Int}
    (hk : t.last < k) : (t.begin k).missed = missing l k.toNat := by
  have hbound := h.bound
  simp only [Tally.begin]
  rcases h.last with hlast | ⟨hlast, -⟩
  · -- nothing is counted yet, and slot -1 is not one that could be missed
    have hseen : t.seen = true := h.seen.2 (.inl hlast)
    have hall : missing l (0 + k.toNat) = missing l 0 + k.toNat :=
      missing_add (fun a ha => by have := hbound a ha; omega) k.toNat
    rw [Nat.zero_add] at hall
    rw [h.missed, hlast, hseen, hall, if_pos rfl, show (-1 : Int).toNat = 0 from rfl]
    omega
  · obtain ⟨n, hn⟩ : ∃ n : Nat, t.last = n := ⟨t.last.toNat, by omega⟩
    obtain ⟨d, hd⟩ : ∃ d : Nat, k.toNat = n + 1 + d := ⟨k.toNat - (n + 1), by omega⟩
    have hall : missing l (n + 1 + d) = missing l (n + 1) + d :=
      missing_add (fun a ha => by have := hbound a ha; omega) d
    have hseen : t.seen = true ↔ MarkedIn l n := by
      rw [h.seen, hn]
      constructor
      · rintro (hneg | hmark)
        · omega
        · exact hmark
      · exact .inr
    rw [h.missed, hn, hd, hall, missing_succ, Int.toNat_natCast]
    by_cases hmark : MarkedIn l n
    · rw [if_pos hmark, if_pos (hseen.2 hmark)]
      omega
    · rw [if_neg hmark, if_neg (fun hs => hmark (hseen.1 hs))]
      omega

/-- The last slot after one more arrival, not before the others. -/
theorem Counts.last_arrive {l : List Arrival} {t : Tally} (h : Counts l t) {k : Int}
    (hk : ∀ a ∈ l, a.1 ≤ k) (marked : Bool) :
    (t.arrive k marked).last = max k (-1) := by
  have hle : t.last ≤ max k (-1) := by
    rcases h.last with hlast | ⟨-, a, ha, hlast⟩
    · omega
    · have := hk a ha
      omega
  have hge : -1 ≤ t.last := by
    rcases h.last with hlast | ⟨hlast, -⟩ <;> omega
  have hcases : (t.arrive k marked).last = if t.last < k then k else t.last := by
    unfold Tally.arrive
    cases marked <;> split <;> rfl
  rw [hcases]
  split <;> omega

theorem markedIn_concat (l : List Arrival) (k : Int) (marked : Bool) (j : Int) :
    MarkedIn (l ++ [(k, marked)]) j ↔ MarkedIn l j ∨ (marked = true ∧ k = j) := by
  simp only [MarkedIn, List.mem_append, List.mem_singleton, or_and_right, exists_or,
    exists_eq_left]

/-- An arrival without a mark, in a slot that is new. -/
theorem Counts.begin {l : List Arrival} {t : Tally} (h : Counts l t) {k : Int} (hk : t.last < k) :
    Counts (l ++ [(k, false)]) (t.begin k) := by
  have hge : -1 ≤ t.last := by
    rcases h.last with hlast | ⟨hlast, -⟩ <;> omega
  have hbound := h.bound
  have hbegun := h.begun
  refine ⟨.inr ⟨?_, (k, false), by simp, rfl⟩, ?_, ?_, ?_, ?_⟩
  · change 0 ≤ k
    omega
  · intro a ha
    change a.1 ≤ k
    rcases List.mem_append.1 ha with hmem | hnew
    · have := hbound a hmem
      omega
    · obtain rfl := List.mem_singleton.1 hnew
      exact Int.le_refl k
  · rw [markedIn_concat]
    refine ⟨nofun, ?_⟩
    rintro (hneg | ⟨a, ha, -, heq⟩ | ⟨hmark, -⟩)
    · have hneg : k = -1 := hneg
      omega
    · have heq : a.1 = k := heq
      have := hbound a ha
      omega
    · cases hmark
  · simp only [Tally.begin]
    omega
  · rw [h.missing_begin hk]
    exact (missing_concat l k false (by omega)).symm

/-- An arrival without a mark, in the slot that is known. -/
theorem Counts.stay {l : List Arrival} {t : Tally} (h : Counts l t) {k : Int}
    (hk : t.last = max k (-1)) : Counts (l ++ [(k, false)]) t := by
  have hbound := h.bound
  refine ⟨?_, ?_, ?_, h.begun, ?_⟩
  · rcases h.last with hlast | ⟨hlast, a, ha, heq⟩
    · exact .inl hlast
    · exact .inr ⟨hlast, a, List.mem_append_left _ ha, heq⟩
  · intro a ha
    rcases List.mem_append.1 ha with hmem | hnew
    · exact hbound a hmem
    · rw [List.mem_singleton.1 hnew]
      dsimp only
      omega
  · rw [h.seen, markedIn_concat]
    simp
  · by_cases hneg : k < 0
    · have hzero : t.last.toNat = 0 := by omega
      rw [h.missed, hzero]
      rfl
    · rw [missing_concat l k false (by omega)]
      exact h.missed

/-- The last arrival is marked. -/
theorem Counts.mark {l : List Arrival} {t : Tally} {k : Int} (h : Counts (l ++ [(k, false)]) t)
    (hk : t.last = max k (-1)) : Counts (l ++ [(k, true)]) { t with seen := true } := by
  have hmem (j : Int) : (∃ a ∈ l ++ [(k, true)], a.1 = j) ↔ ∃ a ∈ l ++ [(k, false)], a.1 = j := by
    simp [or_and_right, exists_or]
  refine ⟨?_, ?_, ?_, h.begun, ?_⟩
  · rw [hmem]
    exact h.last
  · intro a ha
    rcases List.mem_append.1 ha with hold | hnew
    · exact h.bound a (List.mem_append_left _ hold)
    · rw [List.mem_singleton.1 hnew]
      exact h.bound (k, false) (by simp)
  · refine ⟨fun _ => ?_, fun _ => rfl⟩
    change t.last = -1 ∨ MarkedIn (l ++ [(k, true)]) t.last
    rw [markedIn_concat]
    by_cases hneg : k < 0
    · exact .inl (by omega)
    · exact .inr (.inr ⟨rfl, by omega⟩)
  · have hmissed : t.missed = missing (l ++ [(k, false)]) t.last.toNat := h.missed
    change t.missed = missing (l ++ [(k, true)]) t.last.toNat
    rw [hmissed]
    by_cases hneg : k < 0
    · have hzero : t.last.toNat = 0 := by omega
      rw [hzero]
      rfl
    · rw [missing_concat l k false (by omega), missing_concat l k true (by omega)]

/-- One more arrival, not before the others. -/
theorem Counts.arrive {l : List Arrival} {t : Tally} (h : Counts l t) {k : Int}
    (hk : ∀ a ∈ l, a.1 ≤ k) (marked : Bool) :
    Counts (l ++ [(k, marked)]) (t.arrive k marked) := by
  have hlast := h.last_arrive hk false
  have hunmarked : Counts (l ++ [(k, false)]) (t.arrive k false) := by
    unfold Tally.arrive at hlast ⊢
    by_cases hnew : t.last < k
    · rw [if_pos hnew]
      exact h.begin hnew
    · rw [if_neg hnew] at hlast ⊢
      exact h.stay hlast
  cases marked with
  | false => exact hunmarked
  | true => exact hunmarked.mark hlast

end EcMaster.Slots
