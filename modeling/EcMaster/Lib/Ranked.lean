import Mathlib

/-!
# Bounded lists sorted by rank

Two loops that report code is made of.  `push` appends to an array of fixed
capacity and drops what does not fit.  `sortBack` is insertion sort as it is
written for arrays: each element moves left past the elements of strictly lower
rank, so equal ranks keep their order and the highest rank comes first.

`foldl_push` and `sortBack_perm` are what a caller needs of them when the
capacity is large enough.  `classes` says what sorting means, rank by rank, and
`sortBack_eq_classes` that the loop does it.  `sortBack_take_iff` is the rule for
a list that is cut before it is sorted: that loses nothing of higher rank exactly
if no element behind the cut outranks one before it.
-/

namespace EcMaster.Ranked

variable {α : Type}

/-- Append if there is room. -/
def push (max : Nat) (out : List α) (x : α) : List α :=
  if out.length < max then out ++ [x] else out

/-- Insert into a list that is kept last element first. -/
def insertBack (rank : α → Nat) (x : α) : List α → List α
  | [] => [x]
  | y :: ys => if rank y < rank x then y :: insertBack rank x ys else x :: y :: ys

/-- Insertion sort, highest rank first. -/
def sortBack (rank : α → Nat) (xs : List α) : List α :=
  (xs.foldl (fun done x => insertBack rank x done) []).reverse

theorem foldl_push (max : Nat) (xs : List α) :
    xs.foldl (push max) [] = xs.take max := by
  suffices h : ∀ out : List α, out.length ≤ max →
      xs.foldl (push max) out = (out ++ xs).take max by
    exact h [] (Nat.zero_le max)
  induction xs with
  | nil =>
    intro out hout
    simp [List.take_of_length_le hout]
  | cons x xs ih =>
    intro out hout
    rw [List.foldl_cons]
    by_cases hroom : out.length < max
    · have hpush : push max out x = out ++ [x] := if_pos hroom
      have hlen : (out ++ [x]).length ≤ max := by
        rw [List.length_append, List.length_singleton]
        omega
      rw [hpush, ih (out ++ [x]) hlen]
      simp
    · have hpush : push max out x = out := if_neg hroom
      have hfull : max = out.length := by omega
      rw [hpush, ih out hout, hfull, List.take_left', List.take_left'] <;> rfl

theorem insertBack_perm (rank : α → Nat) (x : α) (ys : List α) :
    (insertBack rank x ys).Perm (x :: ys) := by
  induction ys with
  | nil => exact .refl _
  | cons y ys ih =>
    unfold insertBack
    split
    · exact (ih.cons y).trans (.swap x y ys)
    · exact .refl _

theorem sortBack_perm (rank : α → Nat) (xs : List α) : (sortBack rank xs).Perm xs := by
  suffices h : ∀ done : List α,
      (xs.foldl (fun done x => insertBack rank x done) done).Perm (done ++ xs) by
    exact (List.reverse_perm _).trans (h [])
  induction xs with
  | nil =>
    intro done
    simp
  | cons x xs ih =>
    intro done
    rw [List.foldl_cons]
    have hins : (insertBack rank x done ++ xs).Perm (done ++ x :: xs) :=
      ((insertBack_perm rank x done).append_right xs).trans List.perm_middle.symm
    exact (ih _).trans hins

/-! ## What sorting means -/

/-- The elements of rank below `k`, highest rank first and equal ranks in order. -/
def classes (rank : α → Nat) : Nat → List α → List α
  | 0, _ => []
  | k + 1, xs => xs.filter (rank · = k) ++ classes rank k xs

variable {rank : α → Nat}

theorem mem_classes {k : Nat} {xs : List α} {x : α} :
    x ∈ classes rank k xs ↔ x ∈ xs ∧ rank x < k := by
  induction k with
  | zero => simp [classes]
  | succ k ih =>
    simp only [classes, List.mem_append, List.mem_filter, decide_eq_true_eq, ih, ← and_or_left]
    exact and_congr_right fun _ => by omega

/-- An element of too high a rank does not show. -/
theorem classes_concat_of_le {k : Nat} {x : α} (hx : k ≤ rank x) (xs : List α) :
    classes rank k (xs ++ [x]) = classes rank k xs := by
  induction k with
  | zero => rfl
  | succ k ih =>
    have hne : rank x ≠ k := by omega
    simp [classes, ih (by omega), hne]

theorem pairwise_classes (k : Nat) (xs : List α) :
    (classes rank k xs).Pairwise fun x y => rank y ≤ rank x := by
  induction k with
  | zero => exact .nil
  | succ k ih =>
    refine List.pairwise_append.2 ⟨?_, ih, ?_⟩
    · refine List.pairwise_of_forall_mem_list ?_
      intro x hx y hy
      simp only [List.mem_filter, decide_eq_true_eq] at hx hy
      omega
    · intro x hx y hy
      simp only [List.mem_filter, decide_eq_true_eq] at hx
      have hy := (mem_classes.1 hy).2
      omega

/-- What does not rank lower stays where it is. -/
theorem insertBack_append {x : α} (as : List α) {bs : List α} (hbs : ∀ y ∈ bs, rank x ≤ rank y) :
    insertBack rank x (as ++ bs) = insertBack rank x as ++ bs := by
  induction as with
  | nil =>
    cases bs with
    | nil => rfl
    | cons y bs =>
      have hy : ¬ rank y < rank x := Nat.not_lt.2 (hbs y (by simp))
      simp [insertBack, hy]
  | cons a as ih =>
    simp only [List.cons_append, insertBack, ih]
    split <;> rfl

/-- What ranks lower is passed. -/
theorem insertBack_of_lt {x : α} {as : List α} (has : ∀ y ∈ as, rank y < rank x) :
    insertBack rank x as = as ++ [x] := by
  induction as with
  | nil => rfl
  | cons a as ih =>
    have ha : rank a < rank x := has a (by simp)
    have hrest : ∀ y ∈ as, rank y < rank x := fun y hy => has y (by simp [hy])
    simp [insertBack, ha, ih hrest]

theorem insertBack_classes {k : Nat} {x : α} (hx : rank x < k) (xs : List α) :
    insertBack rank x (classes rank k xs).reverse = (classes rank k (xs ++ [x])).reverse := by
  induction k with
  | zero => omega
  | succ k ih =>
    have hclass : ∀ y ∈ (xs.filter (rank · = k)).reverse, rank x ≤ rank y := by
      intro y hy
      simp only [List.mem_reverse, List.mem_filter, decide_eq_true_eq] at hy
      omega
    simp only [classes, List.reverse_append, insertBack_append _ hclass]
    by_cases htop : rank x = k
    · have hlow : ∀ y ∈ (classes rank k xs).reverse, rank y < rank x := by
        intro y hy
        rw [htop]
        exact (mem_classes.1 (List.mem_reverse.1 hy)).2
      rw [insertBack_of_lt hlow, classes_concat_of_le (Nat.le_of_eq htop.symm)]
      simp [htop]
    · rw [ih (by omega)]
      simp [htop]

/-- The loop sorts. -/
theorem sortBack_eq_classes {k : Nat} {xs : List α} (hk : ∀ x ∈ xs, rank x < k) :
    sortBack rank xs = classes rank k xs := by
  have hfold : xs.foldl (fun done x => insertBack rank x done) [] =
      (classes rank k xs).reverse := by
    induction xs using List.reverseRecOn with
    | nil =>
      have hnil : classes rank k ([] : List α) = [] :=
        List.eq_nil_iff_forall_not_mem.2 fun x hx => by simpa using (mem_classes.1 hx).1
      simp [hnil]
    | append_singleton xs x ih =>
      rw [List.foldl_concat, ih fun y hy => hk y (by simp [hy]),
        insertBack_classes (hk x (by simp))]
  rw [sortBack, hfold, List.reverse_reverse]

theorem classes_perm {k : Nat} {xs : List α} (hk : ∀ x ∈ xs, rank x < k) :
    (classes rank k xs).Perm xs :=
  sortBack_eq_classes hk ▸ sortBack_perm rank xs

/-- A list none of whose elements is outranked by one of the second list. -/
theorem classes_append {as bs : List α} (hab : ∀ x ∈ as, ∀ y ∈ bs, rank y ≤ rank x) (k : Nat) :
    classes rank k (as ++ bs) = classes rank k as ++ classes rank k bs := by
  induction k with
  | zero => rfl
  | succ k ih =>
    -- an element of the second list that has rank `k` leaves nothing below `k` in the first
    have hswap : bs.filter (rank · = k) ++ classes rank k as =
        classes rank k as ++ bs.filter (rank · = k) := by
      by_cases hnone : bs.filter (rank · = k) = []
      · simp [hnone]
      · obtain ⟨y, hy⟩ := List.exists_mem_of_ne_nil _ hnone
        simp only [List.mem_filter, decide_eq_true_eq] at hy
        have hempty : classes rank k as = [] := by
          refine List.eq_nil_iff_forall_not_mem.2 fun x hx => ?_
          have hx := mem_classes.1 hx
          have := hab x hx.1 y hy.1
          omega
        simp [hempty]
    simp only [classes, List.filter_append, ih, List.append_assoc]
    rw [← List.append_assoc (bs.filter _), hswap, List.append_assoc]

/-- Cutting a list before it is sorted or after. -/
theorem sortBack_take_iff {k m : Nat} {xs : List α} (hk : ∀ x ∈ xs, rank x < k) :
    sortBack rank (xs.take m) = (classes rank k xs).take m ↔
      ∀ x ∈ xs.take m, ∀ y ∈ xs.drop m, rank y ≤ rank x := by
  have htake : ∀ x ∈ xs.take m, rank x < k := fun x hx => hk x (List.mem_of_mem_take hx)
  rw [sortBack_eq_classes htake]
  constructor
  · intro heq x hx y hy
    -- what the sorted list has behind the cut is what the list has behind it
    have hrest : ((classes rank k xs).drop m).Perm (xs.drop m) := by
      have hall : ((classes rank k xs).take m ++ (classes rank k xs).drop m).Perm
          (xs.take m ++ xs.drop m) := by
        rw [List.take_append_drop, List.take_append_drop]
        exact classes_perm hk
      rw [← heq] at hall
      exact (List.perm_append_left_iff _).1
        (((classes_perm htake).symm.append_right _).trans hall)
    have hx : x ∈ (classes rank k xs).take m := heq ▸ (classes_perm htake).mem_iff.2 hx
    have hy : y ∈ (classes rank k xs).drop m := hrest.mem_iff.2 hy
    have hsorted : (classes rank k xs).Pairwise fun x y => rank y ≤ rank x := pairwise_classes k xs
    rw [← List.take_append_drop m (classes rank k xs)] at hsorted
    exact (List.pairwise_append.1 hsorted).2.2 x hx y hy
  · intro hcut
    rcases Nat.le_total m xs.length with hm | hm
    · have happ := classes_append hcut k
      have hlen : (classes rank k (xs.take m)).length = m := by
        rw [(classes_perm htake).length_eq, List.length_take_of_le hm]
      rw [List.take_append_drop] at happ
      rw [happ, List.take_left' hlen]
    · have hall : (classes rank k xs).length ≤ m := (classes_perm hk).length_eq ▸ hm
      rw [List.take_of_length_le hm, List.take_of_length_le hall]

end EcMaster.Ranked
