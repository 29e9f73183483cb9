import Mathlib

/-!
# Lines of a stream

A stream of delimited lines that a reader takes through a buffer of `limit`
elements, delimiter included.  `framed` says what the reader has to make of the
whole stream: every line that fits, in order, and one `tooLong` in the place of
every other.  The end of the stream may be without a delimiter.  It is no line,
but it is too long as soon as it fills the buffer.

The rules are the moves of such a reader: a line at the front (`framed_line`), a
buffer full without a delimiter (`framed_tooLong`), after which the reader skips
to the next line (`afterLine`), and a buffer that holds no line yet
(`framed_short`).
-/

namespace EcMaster.Lines

variable {α : Type} [DecidableEq α]

/-- What a line is for a reader. -/
inductive Framed (α : Type) where
  | line (l : List α)
  | tooLong
deriving DecidableEq, Repr

/-- The index of the first delimiter. -/
def memchr (nl : α) (t : List α) : Option Nat := t.findIdx? (· == nl)

/-- The lines of a stream and what follows the last of them. -/
def linesOf (nl : α) : List α → List (List α) × List α
  | [] => ([], [])
  | b :: bs =>
      let r := linesOf nl bs
      if b = nl then ([] :: r.1, r.2)
      else
        match r.1 with
        | [] => ([], b :: r.2)
        | l :: ls => ((b :: l) :: ls, r.2)

/-- What a reader with a buffer of `limit` elements has to make of a stream. -/
def framed (nl : α) (limit : Nat) (s : List α) : List (Framed α) :=
  (linesOf nl s).1.map (fun l => if l.length < limit then .line l else .tooLong) ++
    if limit ≤ (linesOf nl s).2.length then [.tooLong] else []

/-- The stream behind its first delimiter. -/
def afterLine (nl : α) (s : List α) : List α :=
  match memchr nl s with
  | none => []
  | some k => s.drop (k + 1)

section Rules

variable {nl : α} {limit : Nat}

theorem memchr_eq_none {t : List α} : memchr nl t = none ↔ nl ∉ t := by
  rw [memchr, List.findIdx?_eq_none_iff]
  constructor
  · intro h hmem
    simpa using h nl hmem
  · intro h x hx
    simpa using fun heq : x = nl => h (heq ▸ hx)

theorem memchr_eq_some {t : List α} {k : Nat} (h : memchr nl t = some k) :
    k < t.length ∧ t = t.take k ++ nl :: t.drop (k + 1) ∧ nl ∉ t.take k := by
  obtain ⟨hk, hat, hbefore⟩ := List.findIdx?_eq_some_iff_getElem.1 h
  have hat : t[k] = nl := by simpa using hat
  refine ⟨hk, ?_, ?_⟩
  · rw [← hat, List.getElem_cons_drop, List.take_append_drop]
  · intro hmem
    obtain ⟨j, hj, heq⟩ := List.mem_iff_getElem.1 hmem
    rw [List.length_take] at hj
    rw [List.getElem_take] at heq
    exact hbefore j (by omega) (by simpa using heq)

theorem memchr_append_cons {l : List α} (h : nl ∉ l) (u : List α) :
    memchr nl (l ++ nl :: u) = some l.length := by
  have hnone : List.findIdx? (· == nl) l = none := memchr_eq_none.2 h
  simp [memchr, List.findIdx?_append, hnone, List.findIdx?_cons]

theorem linesOf_of_not_mem {l : List α} (h : nl ∉ l) : linesOf nl l = ([], l) := by
  induction l with
  | nil => rfl
  | cons b l ih =>
    have hb : b ≠ nl := fun heq => h (by simp [heq])
    rw [linesOf, ih fun hmem => h (List.mem_cons_of_mem b hmem), if_neg hb]

theorem linesOf_append_cons {l : List α} (h : nl ∉ l) (u : List α) :
    linesOf nl (l ++ nl :: u) = (l :: (linesOf nl u).1, (linesOf nl u).2) := by
  induction l with
  | nil => rw [List.nil_append, linesOf, if_pos rfl]
  | cons b l ih =>
    have hb : b ≠ nl := fun heq => h (by simp [heq])
    rw [List.cons_append, linesOf, ih fun hmem => h (List.mem_cons_of_mem b hmem), if_neg hb]

theorem afterLine_of_not_mem {s : List α} (h : nl ∉ s) : afterLine nl s = [] := by
  rw [afterLine, memchr_eq_none.2 h]

theorem afterLine_append_cons {l : List α} (h : nl ∉ l) (u : List α) :
    afterLine nl (l ++ nl :: u) = u := by
  rw [afterLine, memchr_append_cons h u]
  simp

/-- Elements before the delimiter are skipped. -/
theorem afterLine_append {l : List α} (h : nl ∉ l) (u : List α) :
    afterLine nl (l ++ u) = afterLine nl u := by
  by_cases hu : nl ∈ u
  · obtain ⟨a, b, rfl, ha⟩ := List.eq_append_cons_of_mem hu
    rw [← List.append_assoc, afterLine_append_cons (by simp [h, ha]), afterLine_append_cons ha]
  · rw [afterLine_of_not_mem hu, afterLine_of_not_mem (by simp [h, hu])]

theorem framed_line {l : List α} (h : nl ∉ l) (hlen : l.length < limit) (u : List α) :
    framed nl limit (l ++ nl :: u) = .line l :: framed nl limit u := by
  unfold framed
  rw [linesOf_append_cons h u]
  simp [hlen]

theorem framed_short {l : List α} (h : nl ∉ l) (hlen : l.length < limit) :
    framed nl limit l = [] := by
  unfold framed
  rw [linesOf_of_not_mem h]
  simp [Nat.not_le.2 hlen]

/-- A buffer that is full before its line ends. -/
theorem framed_tooLong {l : List α} (h : nl ∉ l) (hlen : l.length = limit) (hpos : 0 < limit)
    (u : List α) : framed nl limit (l ++ u) = .tooLong :: framed nl limit (afterLine nl u) := by
  by_cases hu : nl ∈ u
  · obtain ⟨a, b, rfl, ha⟩ := List.eq_append_cons_of_mem hu
    have hlong : ¬ (l ++ a).length < limit := by
      rw [List.length_append]
      omega
    rw [← List.append_assoc, afterLine_append_cons ha]
    unfold framed
    rw [linesOf_append_cons (by simp [h, ha])]
    simp only [List.map_cons, if_neg hlong, List.cons_append]
  · have hlong : limit ≤ (l ++ u).length := by
      rw [List.length_append]
      omega
    rw [afterLine_of_not_mem hu, framed_short List.not_mem_nil hpos]
    unfold framed
    rw [linesOf_of_not_mem (by simp [h, hu])]
    simp only [List.map_nil, List.nil_append, if_pos hlong]

end Rules

end EcMaster.Lines
