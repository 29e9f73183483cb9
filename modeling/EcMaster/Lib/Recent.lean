import Mathlib

/-!
# The most recent things, in a ring

A ring of `cap` cells keeps the last `cap` things that were put into it.  Only the index
of the cell to be written next is stored beside the cells.  `back k` reads the cell that
was written `k` puts before the last one, by counting backwards from that index.

`Keeps l r` says that the ring holds the end of the list `l`, whose last thing is the
newest one.  `Keeps.put` adds a thing to both.
-/

namespace EcMaster.Recent

variable {α : Type}

/-- The cells, and the index of the one to be written next. -/
structure Ring (α : Type) where
  cells : Nat → α
  next : Nat

/-- Write the next cell, and go on. -/
def Ring.put (cap : Nat) (r : Ring α) (a : α) : Ring α :=
  { cells := Function.update r.cells r.next a
    next := (r.next + 1) % cap }

/-- The cell that was written `k` puts before the last one. -/
def Ring.back (cap : Nat) (r : Ring α) (k : Nat) : α :=
  r.cells ((r.next + (2 * cap - 1) - k) % cap)

/-- The ring holds the last things of a list. -/
structure Ring.Keeps (cap : Nat) (l : List α) (r : Ring α) : Prop where
  next : r.next = l.length % cap
  back : ∀ k < cap, k < l.length → l.reverse[k]? = some (r.back cap k)

theorem Ring.keeps_nil {cap : Nat} {r : Ring α} (h : r.next = 0) : r.Keeps cap [] where
  next := by simp [h]
  back := fun k _ hk => absurd hk (Nat.not_lt_zero k)

/-! ## Counting backwards -/

/-- `k + 1` cells behind the index after `i`, as `k` cells behind `i`. -/
theorem behind_succ {cap i k : Nat} (hi : i < cap) (hk : k + 1 < cap) :
    ((i + 1) % cap + (2 * cap - 1) - (k + 1)) % cap = (i + (2 * cap - 1) - k) % cap := by
  by_cases hwrap : i + 1 = cap
  · -- the index starts again at zero
    have hfar : i + (2 * cap - 1) - k = (0 + (2 * cap - 1) - (k + 1)) + cap := by omega
    rw [hwrap, Nat.mod_self, hfar, Nat.add_mod_right]
  · rw [Nat.mod_eq_of_lt (show i + 1 < cap by omega)]
    congr 1
    omega

/-- The cell just behind the index after `i`. -/
theorem behind_zero {cap i : Nat} (hi : i < cap) :
    ((i + 1) % cap + (2 * cap - 1) - 0) % cap = i := by
  by_cases hwrap : i + 1 = cap
  · have hlast : 0 + (2 * cap - 1) - 0 = i + cap := by omega
    rw [hwrap, Nat.mod_self, hlast, Nat.add_mod_right, Nat.mod_eq_of_lt hi]
  · have hlast : i + 1 + (2 * cap - 1) - 0 = i + cap + cap := by omega
    rw [Nat.mod_eq_of_lt (show i + 1 < cap by omega), hlast, Nat.add_mod_right,
      Nat.add_mod_right, Nat.mod_eq_of_lt hi]

/-- Fewer than `cap - 1` cells behind the last one is not the cell to be written next. -/
theorem behind_ne {cap i k : Nat} (hi : i < cap) (hk : k + 1 < cap) :
    (i + (2 * cap - 1) - k) % cap ≠ i := by
  by_cases hfar : k + 1 ≤ i
  · have hsum : i + (2 * cap - 1) - k = i - (k + 1) + cap + cap := by omega
    rw [hsum, Nat.add_mod_right, Nat.add_mod_right, Nat.mod_eq_of_lt (by omega)]
    omega
  · have hsum : i + (2 * cap - 1) - k = i + cap - (k + 1) + cap := by omega
    rw [hsum, Nat.add_mod_right, Nat.mod_eq_of_lt (by omega)]
    omega

/-! ## Puts -/

theorem Ring.back_put_zero {cap : Nat} {r : Ring α} (h : r.next < cap) (a : α) :
    (r.put cap a).back cap 0 = a := by
  unfold Ring.back Ring.put
  dsimp only
  rw [behind_zero h, Function.update_self]

theorem Ring.back_put_succ {cap k : Nat} {r : Ring α} (h : r.next < cap) (hk : k + 1 < cap)
    (a : α) : (r.put cap a).back cap (k + 1) = r.back cap k := by
  unfold Ring.back Ring.put
  dsimp only
  rw [behind_succ h hk, Function.update_of_ne (behind_ne h hk)]

/-- One more thing in the list and in the ring. -/
theorem Ring.Keeps.put {cap : Nat} {l : List α} {r : Ring α} (h : r.Keeps cap l)
    (hcap : 0 < cap) (a : α) : (r.put cap a).Keeps cap (l ++ [a]) := by
  have hnext : r.next < cap := h.next ▸ Nat.mod_lt _ hcap
  constructor
  · show (r.next + 1) % cap = (l ++ [a]).length % cap
    rw [h.next, Nat.mod_add_mod, List.length_append, List.length_singleton]
  · intro k hk hlen
    rw [List.reverse_append, List.reverse_singleton, List.singleton_append]
    cases k with
    | zero => rw [Ring.back_put_zero hnext, List.getElem?_cons_zero]
    | succ k =>
        rw [List.length_append, List.length_singleton] at hlen
        rw [Ring.back_put_succ hnext hk, List.getElem?_cons_succ]
        exact h.back k (by omega) (by omega)

end EcMaster.Recent
