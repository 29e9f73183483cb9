import EcMaster.Lib.Run

/-!
# Single-producer single-consumer rings, one memory access at a time

A ring is an array of `mask + 1` slots and two indices that count up in an
index type of `size` values.  The producer writes `head` and the slots, the
consumer writes `tail`.  Either side works in steps of one shared access: it
loads an index, copies one word of an element, or stores an index.  A run is
any list of such steps, so it is any sequentially consistent interleaving.

An element is copied word by word, so a torn element is something this machine
can express.  `words = 1` is a copy in one step.

The state carries a record of what was said to the callers:

* `pushes`: the finished pushes and their answers; `accepted` are those that
  were not refused;
* `removed`: for each removal, the element the consumer had been given for it;
* `shown`: the element the consumer has looked at and not yet removed;
* `empties`: how often the consumer was told that there is nothing.

`Inv` ties the indices, the slots and both program counters to these records.
It needs of the ring only `Ring.Sound`: a power-of-two capacity below `size`,
and a full test that is exactly "`mask + 1` unread".  The results are `answers`,
a property of every step of every run, and `serves`: whatever the other side does in
between, a call ends within its own `words + 3` steps, and with which answer is settled
by the state in which it loads the index of the other side.
-/

namespace EcMaster.Spsc

open EcMaster.Run

/-- What a consumer calls. -/
inductive Op where
  /-- copy the oldest element out and remove it -/
  | take
  /-- copy the oldest element out -/
  | peek
  /-- remove the element that was looked at, without a test -/
  | pop
  /-- remove the oldest element, if there is one -/
  | dropHead
deriving DecidableEq, Repr

/-- The code of one ring. -/
structure Ring where
  /-- the number of values of the index type -/
  size : Nat
  /-- capacity minus one -/
  mask : Nat
  /-- the producer's test, on `head - tail` -/
  full : Nat → Bool
  /-- the words of one element -/
  words : Nat
  /-- the operations its consumer has -/
  has : Op → Bool

/-- What the code of a ring has to be. -/
structure Ring.Sound (r : Ring) : Prop where
  pow : ∃ e, r.mask = 2 ^ e - 1
  dvd : r.mask + 1 ∣ r.size
  lt : r.mask + 1 < r.size
  full_iff : ∀ d, r.full d = true ↔ r.mask < d

namespace Ring

variable (r : Ring)

/-- An element: its words. -/
abbrev Elem (β : Type) : Type := Fin r.words → β

/-- `a - b` in the index type. -/
def sub (a b : Nat) : Nat := (a + r.size - b) % r.size

end Ring

/-- Where the producer is. -/
inductive Producer (r : Ring) (β : Type) where
  | idle
  /-- `head` is loaded -/
  | loaded (e : r.Elem β) (h : Nat)
  /-- there is room, and `k` words are copied -/
  | copy (e : r.Elem β) (h k : Nat)

/-- Where the consumer is. -/
inductive Consumer where
  | idle
  /-- `tail` is loaded -/
  | loaded (op : Op) (t : Nat)
  /-- there is an element, and `k` of its words are copied -/
  | copy (op : Op) (t k : Nat)
  /-- there is an element to drop -/
  | store (t : Nat)

/-- The ring, both program counters, and what the callers were told. -/
structure State (r : Ring) (β : Type) where
  buf : Nat → r.Elem β
  head : Nat
  tail : Nat
  drops : Nat
  prod : Producer r β
  cons : Consumer
  /-- the consumer's destination -/
  out : r.Elem β
  pushes : List (r.Elem β × Bool)
  removed : List (Option (r.Elem β))
  shown : Option (r.Elem β)
  empties : Nat

/-- One step of an interleaving.  A side that is idle begins the given call; a
side that is busy goes on with the call it is in. -/
inductive Ev (r : Ring) (β : Type) where
  | produce (e : r.Elem β)
  | consume (op : Op)

variable {r : Ring} {β : Type}

namespace State

/-- The elements that were accepted, in push order. -/
def accepted (s : State r β) : List (r.Elem β) := (s.pushes.filter (·.2)).map (·.1)

/-- The number of elements accepted and not yet removed. -/
def unread (s : State r β) : Nat := s.accepted.length - s.removed.length

end State

/-- An empty ring with both sides idle. -/
def start (r : Ring) (zero : β) : State r β where
  buf := fun _ _ => zero
  head := 0
  tail := 0
  drops := 0
  prod := .idle
  cons := .idle
  out := fun _ => zero
  pushes := []
  removed := []
  shown := none
  empties := 0

/-- A step of the producer. -/
def produce (s : State r β) (e : r.Elem β) : State r β :=
  match s.prod with
  | .idle => { s with prod := .loaded e s.head }
  | .loaded e h =>
      if r.full (r.sub h s.tail) then
        { s with
          prod := .idle, drops := (s.drops + 1) % 2 ^ 64, pushes := s.pushes ++ [(e, false)] }
      else { s with prod := .copy e h 0 }
  | .copy e h k =>
      if hk : k < r.words then
        let slot := h &&& r.mask
        { s with
          buf := Function.update s.buf slot
            (Function.update (s.buf slot) ⟨k, hk⟩ (e ⟨k, hk⟩))
          prod := .copy e h (k + 1) }
      else
        { s with
          prod := .idle, head := (h + 1) % r.size, pushes := s.pushes ++ [(e, true)] }

/-- The store of `tail` that ends a removal; `given` is what the consumer has of
the element. -/
def remove (s : State r β) (t : Nat) (given : Option (r.Elem β)) : State r β :=
  { s with
    cons := .idle, tail := (t + 1) % r.size, removed := s.removed ++ [given], shown := none }

/-- A step of the consumer.  `pop` is only called after a successful `peek`. -/
def consume (s : State r β) (op : Op) : State r β :=
  match s.cons with
  | .idle =>
      if r.has op ∧ (op = .pop → s.shown.isSome) then { s with cons := .loaded op s.tail } else s
  | .loaded .pop t => remove s t s.shown
  | .loaded op t =>
      if t = s.head then { s with cons := .idle, empties := s.empties + 1 }
      else if op = .dropHead then { s with cons := .store t }
      else { s with cons := .copy op t 0 }
  | .copy op t k =>
      if hk : k < r.words then
        { s with
          out := Function.update s.out ⟨k, hk⟩ (s.buf (t &&& r.mask) ⟨k, hk⟩)
          cons := .copy op t (k + 1) }
      else if op = .take then remove s t (some s.out)
      else { s with cons := .idle, shown := some s.out }
  | .store t => remove s t s.shown

/-- A step of the interleaving. -/
def step (s : State r β) : Ev r β → State r β
  | .produce e => produce s e
  | .consume op => consume s op

/-! ## Indices -/

namespace Ring.Sound

/-- The array slot of an index of the index type is a remainder. -/
theorem slot (hr : r.Sound) (i : Nat) : (i % r.size) &&& r.mask = i % (r.mask + 1) := by
  obtain ⟨e, hmask⟩ := hr.pow
  have hcap : r.mask + 1 = 2 ^ e := by rw [hmask, Nat.sub_add_cancel Nat.one_le_two_pow]
  have hand : (i % r.size) &&& r.mask = i % r.size % (r.mask + 1) := by
    rw [hcap, hmask, Nat.and_two_pow_sub_one_eq_mod]
  rw [hand, Nat.mod_mod_of_dvd _ hr.dvd]

/-- The difference of two indices that are at most a capacity apart. -/
theorem sub_eq (hr : r.Sound) {i j : Nat} (hij : i ≤ j) (hj : j ≤ i + (r.mask + 1)) :
    r.sub (j % r.size) (i % r.size) = j - i := by
  have hlt := hr.lt
  obtain ⟨d, rfl⟩ := Nat.exists_eq_add_of_le hij
  have hi : i % r.size < r.size := Nat.mod_lt _ (by omega)
  have hsum : (i + d) % r.size = (i % r.size + d) % r.size := by simp
  unfold Ring.sub
  rw [hsum]
  by_cases hwrap : i % r.size + d < r.size
  · rw [Nat.mod_eq_of_lt hwrap, show i % r.size + d + r.size - i % r.size = d + r.size by omega,
      Nat.add_mod_right, Nat.mod_eq_of_lt (by omega)]
    omega
  · have hback : (i % r.size + d) % r.size = i % r.size + d - r.size := by
      rw [Nat.mod_eq_sub_mod (by omega), Nat.mod_eq_of_lt (by omega)]
    rw [hback, show i % r.size + d - r.size + r.size - i % r.size = d by omega,
      Nat.mod_eq_of_lt (by omega)]
    omega

/-- Two indices that are at most a capacity apart are equal in the index type
only if they are the same. -/
theorem mod_eq_iff (hr : r.Sound) {i j : Nat} (hij : i ≤ j) (hj : j ≤ i + (r.mask + 1)) :
    i % r.size = j % r.size ↔ i = j := by
  constructor
  · intro heq
    have hsub := hr.sub_eq hij hj
    have hself := hr.sub_eq (Nat.le_refl i) (Nat.le_add_right i _)
    rw [← heq, hself] at hsub
    omega
  · rintro rfl
    rfl

end Ring.Sound

/-- Two indices less than a capacity apart are in different slots. -/
theorem slot_ne {i j c : Nat} (hij : i < j) (hj : j < i + c) : i % c ≠ j % c := by
  intro heq
  have hdvd : c ∣ j - i := (Nat.modEq_iff_dvd' (by omega)).1 heq
  have hle := Nat.le_of_dvd (by omega) hdvd
  omega

/-! ## The invariant -/

/-- What the producer knows, with `H` elements accepted and `T` removed. -/
def Producer.Knows (buf : Nat → r.Elem β) (H T : Nat) : Producer r β → Prop
  | .idle => True
  | .loaded _ h => h = H % r.size
  | .copy e h k =>
      h = H % r.size ∧ H < T + (r.mask + 1) ∧
        ∀ j : Fin r.words, j.1 < k → buf (H % (r.mask + 1)) j = e j

/-- What the consumer knows, with the accepted elements `acc` of which `T` are
removed. -/
def Consumer.Knows (out : r.Elem β) (acc : List (r.Elem β)) (T : Nat) : Consumer → Prop
  | .idle => True
  | .loaded op t => t = T % r.size ∧ (op = .pop → T < acc.length)
  | .copy _ t k =>
      t = T % r.size ∧ T < acc.length ∧
        ∀ e, acc[T]? = some e → ∀ j : Fin r.words, j.1 < k → out j = e j
  | .store t => t = T % r.size ∧ T < acc.length

structure Inv (s : State r β) : Prop where
  head_eq : s.head = s.accepted.length % r.size
  tail_eq : s.tail = s.removed.length % r.size
  le : s.removed.length ≤ s.accepted.length
  le_cap : s.accepted.length ≤ s.removed.length + (r.mask + 1)
  buf : ∀ i e, s.removed.length ≤ i → s.accepted[i]? = some e → s.buf (i % (r.mask + 1)) = e
  prod : s.prod.Knows s.buf s.accepted.length s.removed.length
  cons : s.cons.Knows s.out s.accepted s.removed.length
  shown : ∀ e, s.shown = some e → s.accepted[s.removed.length]? = some e
  removed : ∀ (i : Nat) e, s.removed[i]? = some (some e) → s.accepted[i]? = some e

theorem inv_start (zero : β) : Inv (start r zero) := by
  constructor <;> simp [start, State.accepted, Producer.Knows, Consumer.Knows]

/-- Accepting one more element leaves the consumer what it knows. -/
theorem Consumer.Knows.append {out : r.Elem β} {acc : List (r.Elem β)} {T : Nat}
    {c : Consumer} (hc : c.Knows out acc T) (e : r.Elem β) : c.Knows out (acc ++ [e]) T := by
  cases c with
  | idle => trivial
  | loaded op t => exact ⟨hc.1, fun hop => by simpa using Nat.lt_succ_of_lt (hc.2 hop)⟩
  | copy op t k =>
    obtain ⟨ht, hlt, hcopied⟩ := hc
    refine ⟨ht, by simp; omega, fun e' he' => hcopied e' ?_⟩
    rwa [List.getElem?_append_left hlt] at he'
  | store t => exact ⟨hc.1, by simpa using Nat.lt_succ_of_lt hc.2⟩

/-- An element that has a place in a list still has it after an append. -/
private theorem getElem?_append_some {α : Type} {l : List α} {i : Nat} {a : α}
    (h : l[i]? = some a) (l' : List α) : (l ++ l')[i]? = some a := by
  obtain ⟨hlt, -⟩ := List.getElem?_eq_some_iff.1 h
  rw [List.getElem?_append_left hlt, h]

/-! ## The producer keeps it -/

theorem accepted_refused (s : State r β) (e : r.Elem β) :
    ((s.pushes ++ [(e, false)]).filter (·.2)).map (·.1) = s.accepted := by
  simp [State.accepted]

theorem accepted_published (s : State r β) (e : r.Elem β) :
    ((s.pushes ++ [(e, true)]).filter (·.2)).map (·.1) = s.accepted ++ [e] := by
  simp [State.accepted]

/-- The full test is passed exactly when a slot is free. -/
theorem full_iff (hr : r.Sound) {s : State r β} (hs : Inv s) :
    r.full (r.sub (s.accepted.length % r.size) s.tail) = true ↔
      s.accepted.length = s.removed.length + (r.mask + 1) := by
  have hle := hs.le_cap
  rw [hr.full_iff, hs.tail_eq, hr.sub_eq hs.le hs.le_cap]
  omega

/-- A word is copied into the free slot. -/
theorem inv_copyWord (hr : r.Sound) {s : State r β} (hs : Inv s) {e : r.Elem β} {h k : Nat}
    (hprod : s.prod = .copy e h k) (hk : k < r.words) :
    Inv { s with
      buf := Function.update s.buf (h &&& r.mask)
        (Function.update (s.buf (h &&& r.mask)) ⟨k, hk⟩ (e ⟨k, hk⟩))
      prod := .copy e h (k + 1) } := by
  obtain ⟨hh, hroom, hcopied⟩ : h = s.accepted.length % r.size ∧ _ ∧ _ := by
    simpa [hprod, Producer.Knows] using hs.prod
  have hslot : h &&& r.mask = s.accepted.length % (r.mask + 1) := by rw [hh, hr.slot]
  refine ⟨hs.head_eq, hs.tail_eq, hs.le, hs.le_cap, ?_, ⟨hh, hroom, ?_⟩, hs.cons, hs.shown,
    hs.removed⟩
  · -- the unread elements are in other slots
    intro i e' hi he'
    obtain ⟨hlt, -⟩ := List.getElem?_eq_some_iff.1 he'
    have hne : i % (r.mask + 1) ≠ h &&& r.mask := by
      rw [hslot]
      have hroom : s.accepted.length < s.removed.length + (r.mask + 1) := hroom
      have hi : s.removed.length ≤ i := hi
      have hlt : i < s.accepted.length := hlt
      exact slot_ne hlt (by omega)
    simpa [Function.update_of_ne hne] using hs.buf i e' hi he'
  · intro j hj
    have hslot' : s.accepted.length % (r.mask + 1) = h &&& r.mask := hslot.symm
    show Function.update s.buf (h &&& r.mask) _ (s.accepted.length % (r.mask + 1)) j = e j
    rw [hslot', Function.update_self]
    by_cases hjk : j = ⟨k, hk⟩
    · subst hjk
      simp
    · rw [Function.update_of_ne hjk, hslot]
      refine hcopied j ?_
      have hjk : j.1 ≠ k := fun heq => hjk (Fin.ext heq)
      omega

/-- The element is whole in its slot, and `head` goes past it. -/
theorem inv_publish {s : State r β} (hs : Inv s) {e : r.Elem β} {h k : Nat}
    (hprod : s.prod = .copy e h k) (hk : ¬ k < r.words) :
    Inv { s with
      prod := .idle, head := (h + 1) % r.size, pushes := s.pushes ++ [(e, true)] } := by
  obtain ⟨hh, hroom, hcopied⟩ : h = s.accepted.length % r.size ∧ _ ∧ _ := by
    simpa [hprod, Producer.Knows] using hs.prod
  have hwhole : s.buf (s.accepted.length % (r.mask + 1)) = e := by
    funext j
    exact hcopied j (by omega)
  have hacc := accepted_published s e
  have hle := hs.le
  constructor
  · show (h + 1) % r.size = (List.map _ _).length % r.size
    rw [hacc, hh, Nat.mod_add_mod, List.length_append, List.length_singleton]
  · exact hs.tail_eq
  · show s.removed.length ≤ (List.map _ _).length
    rw [hacc]
    simp
    omega
  · show (List.map _ _).length ≤ s.removed.length + (r.mask + 1)
    rw [hacc, List.length_append, List.length_singleton]
    exact hroom
  · intro i e' hi (he' : (List.map _ _)[i]? = some e')
    rw [hacc] at he'
    rcases Nat.lt_trichotomy i s.accepted.length with hlt | rfl | hgt
    · rw [List.getElem?_append_left hlt] at he'
      exact hs.buf i e' hi he'
    · rw [List.getElem?_concat_length] at he'
      exact hwhole.trans (Option.some.inj he')
    · rw [List.getElem?_eq_none (by simp; omega)] at he'
      cases he'
  · trivial
  · show s.cons.Knows s.out (List.map _ _) s.removed.length
    rw [hacc]
    exact hs.cons.append e
  · intro e' he'
    show (List.map _ _)[_]? = _
    rw [hacc]
    exact getElem?_append_some (hs.shown e' he') _
  · intro i e' he'
    show (List.map _ _)[_]? = _
    rw [hacc]
    exact getElem?_append_some (hs.removed i e' he') _

/-- Every step of the producer keeps the invariant. -/
theorem inv_produce (hr : r.Sound) {s : State r β} (hs : Inv s) (e : r.Elem β) :
    Inv (produce s e) := by
  unfold produce
  split
  next => exact ⟨hs.1, hs.2, hs.3, hs.4, hs.5, hs.head_eq, hs.7, hs.8, hs.9⟩
  next e h hprod =>
    have hh : h = s.accepted.length % r.size := by simpa [hprod, Producer.Knows] using hs.prod
    have hfull := full_iff hr hs
    rw [← hh] at hfull
    split
    next =>
      have hacc := accepted_refused s e
      constructor <;> simp only [State.accepted, hacc]
      exacts [hs.1, hs.2, hs.3, hs.4, hs.5, trivial, hs.7, hs.8, hs.9]
    next htest =>
      have hroom : s.accepted.length < s.removed.length + (r.mask + 1) :=
        Nat.lt_of_le_of_ne hs.le_cap fun heq => htest (hfull.2 heq)
      refine ⟨hs.1, hs.2, hs.3, hs.4, hs.5, ⟨hh, hroom, ?_⟩, hs.7, hs.8, hs.9⟩
      intro j hj
      omega
  next e h k hprod =>
    split
    next hk => exact inv_copyWord hr hs hprod hk
    next hk => exact inv_publish hs hprod hk

/-! ## The consumer keeps it -/

/-- `tail` goes past the oldest unread element. -/
theorem inv_remove {s : State r β} (hs : Inv s)
    (hlt : s.removed.length < s.accepted.length) {given : Option (r.Elem β)}
    (hgiven : ∀ e, given = some e → s.accepted[s.removed.length]? = some e) {t : Nat}
    (ht : t = s.removed.length % r.size) : Inv (remove s t given) := by
  have hle := hs.le_cap
  have hlen : (s.removed ++ [given]).length = s.removed.length + 1 := by simp
  refine ⟨hs.head_eq, ?_, ?_, ?_, ?_, ?_, trivial, ?_, ?_⟩
  · show (t + 1) % r.size = (s.removed ++ [given]).length % r.size
    rw [ht, hlen, Nat.mod_add_mod]
  · show (s.removed ++ [given]).length ≤ s.accepted.length
    omega
  · show s.accepted.length ≤ (s.removed ++ [given]).length + (r.mask + 1)
    omega
  · intro i e hi he
    have hi : (s.removed ++ [given]).length ≤ i := hi
    exact hs.buf i e (by omega) he
  · show s.prod.Knows s.buf s.accepted.length (s.removed ++ [given]).length
    have hprod := hs.prod
    rw [hlen]
    cases hp : s.prod with
    | idle => trivial
    | loaded e h =>
      rw [hp] at hprod
      exact hprod
    | copy e h k =>
      rw [hp] at hprod
      exact ⟨hprod.1, by have := hprod.2.1; omega, hprod.2.2⟩
  · intro e he
    cases he
  · intro i e he
    have he : (s.removed ++ [given])[i]? = some (some e) := he
    rcases Nat.lt_trichotomy i s.removed.length with hi | rfl | hi
    · rw [List.getElem?_append_left hi] at he
      exact hs.removed i e he
    · rw [List.getElem?_concat_length] at he
      exact hgiven e (Option.some.inj he)
    · rw [List.getElem?_eq_none (by omega)] at he
      cases he

/-- The test for an empty ring. -/
theorem empty_iff (hr : r.Sound) {s : State r β} (hs : Inv s) :
    s.removed.length % r.size = s.head ↔ s.removed.length = s.accepted.length := by
  rw [hs.head_eq]
  exact hr.mod_eq_iff hs.le hs.le_cap

/-- A word is copied out of the oldest slot. -/
theorem inv_copyOut (hr : r.Sound) {s : State r β} (hs : Inv s) {op : Op} {t k : Nat}
    (hcons : s.cons = .copy op t k) (hk : k < r.words) :
    Inv { s with
      out := Function.update s.out ⟨k, hk⟩ (s.buf (t &&& r.mask) ⟨k, hk⟩)
      cons := .copy op t (k + 1) } := by
  obtain ⟨ht, hlt, hcopied⟩ : t = s.removed.length % r.size ∧ _ ∧ _ := by
    simpa [hcons, Consumer.Knows] using hs.cons
  refine ⟨hs.1, hs.2, hs.3, hs.4, hs.5, hs.6, ⟨ht, hlt, ?_⟩, hs.8, hs.9⟩
  intro e he j hj
  have hslot : s.buf (t &&& r.mask) = e := by
    rw [ht, hr.slot]
    exact hs.buf _ e (Nat.le_refl _) he
  by_cases hjk : j = ⟨k, hk⟩
  · subst hjk
    simp [hslot]
  · have hne : j.1 ≠ k := fun heq => hjk (Fin.ext heq)
    simp only [Function.update_of_ne hjk]
    exact hcopied e he j (by omega)

/-- All words are copied: the destination holds the oldest unread element. -/
theorem out_eq {s : State r β} (hs : Inv s) {op : Op} {t k : Nat}
    (hcons : s.cons = .copy op t k) (hk : ¬ k < r.words) :
    t = s.removed.length % r.size ∧ s.removed.length < s.accepted.length ∧
      s.accepted[s.removed.length]? = some s.out := by
  obtain ⟨ht, hlt, hcopied⟩ : t = s.removed.length % r.size ∧ _ ∧ _ := by
    simpa [hcons, Consumer.Knows] using hs.cons
  refine ⟨ht, hlt, ?_⟩
  obtain ⟨e, he⟩ : ∃ e, s.accepted[s.removed.length]? = some e :=
    ⟨_, List.getElem?_eq_getElem hlt⟩
  rw [he]
  congr 1
  funext j
  exact (hcopied e he j (by omega)).symm

/-- Every step of the consumer keeps the invariant. -/
theorem inv_consume (hr : r.Sound) {s : State r β} (hs : Inv s) (op : Op) :
    Inv (consume s op) := by
  unfold consume
  split
  next =>
    split
    next hcall =>
      refine ⟨hs.1, hs.2, hs.3, hs.4, hs.5, hs.6, ⟨hs.tail_eq, fun hpop => ?_⟩, hs.8, hs.9⟩
      -- what was looked at has not been removed
      obtain ⟨e, he⟩ := Option.isSome_iff_exists.1 (hcall.2 hpop)
      exact (List.getElem?_eq_some_iff.1 (hs.shown e he)).1
    next => exact hs
  next t hcons =>
    obtain ⟨ht, hlt⟩ : t = s.removed.length % r.size ∧ _ := by
      simpa [hcons, Consumer.Knows] using hs.cons
    exact inv_remove hs hlt hs.shown ht
  next op t hnpop hcons =>
    obtain ⟨ht, -⟩ : t = s.removed.length % r.size ∧ _ := by
      simpa [hcons, Consumer.Knows] using hs.cons
    have hempty := empty_iff hr hs
    rw [← ht] at hempty
    split
    next => exact ⟨hs.1, hs.2, hs.3, hs.4, hs.5, hs.6, trivial, hs.8, hs.9⟩
    next htest =>
      have hlt : s.removed.length < s.accepted.length :=
        Nat.lt_of_le_of_ne hs.le fun heq => htest (hempty.2 heq)
      split
      next => exact ⟨hs.1, hs.2, hs.3, hs.4, hs.5, hs.6, ⟨ht, hlt⟩, hs.8, hs.9⟩
      next =>
        refine ⟨hs.1, hs.2, hs.3, hs.4, hs.5, hs.6, ⟨ht, hlt, ?_⟩, hs.8, hs.9⟩
        intro e _ j hj
        omega
  next op t k hcons =>
    split
    next hk => exact inv_copyOut hr hs hcons hk
    next hk =>
      obtain ⟨ht, hlt, hout⟩ := out_eq hs hcons hk
      split
      next =>
        refine inv_remove hs hlt (fun e he => ?_) ht
        cases he
        exact hout
      next =>
        refine ⟨hs.1, hs.2, hs.3, hs.4, hs.5, hs.6, trivial, fun e he => ?_, hs.9⟩
        cases he
        exact hout
  next t hcons =>
    obtain ⟨ht, hlt⟩ : t = s.removed.length % r.size ∧ _ := by
      simpa [hcons, Consumer.Knows] using hs.cons
    exact inv_remove hs hlt hs.shown ht

theorem inv_step (hr : r.Sound) {s : State r β} (hs : Inv s) (ev : Ev r β) :
    Inv (step s ev) := by
  cases ev with
  | produce e => exact inv_produce hr hs e
  | consume op => exact inv_consume hr hs op

theorem inv_run (hr : r.Sound) (zero : β) (es : List (Ev r β)) :
    Inv (run step (start r zero) es) := by
  induction es using List.reverseRecOn with
  | nil => exact inv_start zero
  | append_singleton es ev ih =>
    rw [run_append]
    exact inv_step hr ih ev

/-! ## What the callers are told -/

/-- The record of a state is that of a bounded FIFO: the elements given to the
consumer are the accepted ones, whole, in push order, each for one removal. -/
structure Fifo (s : State r β) : Prop where
  given : ∀ (i : Nat) e, s.removed[i]? = some (some e) → s.accepted[i]? = some e
  shown : ∀ e, s.shown = some e → s.accepted[s.removed.length]? = some e
  removed_le : s.removed.length ≤ s.accepted.length
  bounded : s.unread ≤ r.mask + 1

/-- With every removed element in hand, they are the first accepted ones. -/
theorem Fifo.removed_eq {s : State r β} (hs : Fifo s) (hlooked : none ∉ s.removed) :
    s.removed = (s.accepted.take s.removed.length).map some := by
  apply List.ext_getElem?
  intro i
  rw [List.getElem?_map]
  by_cases hi : i < s.removed.length
  · rw [List.getElem?_take_of_lt hi]
    obtain ⟨x, hx⟩ : ∃ x, s.removed[i]? = some x := ⟨_, List.getElem?_eq_getElem hi⟩
    cases x with
    | none => exact absurd (List.mem_of_getElem? hx) hlooked
    | some e => rw [hx, hs.given i e hx, Option.map_some]
  · rw [List.getElem?_eq_none (by omega), List.getElem?_eq_none (by simp; omega),
      Option.map_none]

theorem Inv.fifo {s : State r β} (hs : Inv s) : Fifo s :=
  ⟨hs.removed, hs.shown, hs.le, by have := hs.le_cap; unfold State.unread; omega⟩

/-- The consumer begins to drop an element that it has not looked at. -/
def Blind (q : Rec (State r β) (Ev r β)) : Prop :=
  q.ev = .consume .dropHead ∧ q.pre.cons = .idle ∧ q.pre.shown = none ∧ r.has .dropHead = true

/-- A push is refused. -/
def Refuses (q : Rec (State r β) (Ev r β)) : Prop :=
  ∃ e, q.post.pushes = q.pre.pushes ++ [(e, false)]

/-- A push is refused only while the ring is full and every refusal is counted
once, the consumer is told "nothing" only while there is nothing, and unless it
dropped an element blindly it got exactly the accepted ones. -/
structure Answers (hist : List (Rec (State r β) (Ev r β))) (q : Rec (State r β) (Ev r β)) :
    Prop where
  fifo : Fifo q.post
  refused : Refuses q → q.pre.unread = r.mask + 1 ∧ q.post.drops = (q.pre.drops + 1) % 2 ^ 64
  kept : ¬ Refuses q → q.post.drops = q.pre.drops
  empty : q.post.empties ≠ q.pre.empties → q.pre.unread = 0
  delivered : (∀ p ∈ hist ++ [q], ¬ Blind p) →
    q.post.removed = (q.post.accepted.take q.post.removed.length).map some

/-- What a step of the producer does to the record. -/
theorem produce_cases (hr : r.Sound) {s : State r β} (hs : Inv s) (e : r.Elem β) :
    ((produce s e).pushes = s.pushes ∧ (produce s e).drops = s.drops) ∨
      (∃ e', (produce s e).pushes = s.pushes ++ [(e', true)] ∧ (produce s e).drops = s.drops) ∨
      (∃ e', (produce s e).pushes = s.pushes ++ [(e', false)] ∧
        (produce s e).drops = (s.drops + 1) % 2 ^ 64 ∧ s.unread = r.mask + 1) := by
  unfold produce
  split
  next => exact .inl ⟨rfl, rfl⟩
  next e h hprod =>
    have hh : h = s.accepted.length % r.size := by simpa [hprod, Producer.Knows] using hs.prod
    split
    next htest =>
      rw [hh, full_iff hr hs] at htest
      refine .inr (.inr ⟨e, rfl, rfl, ?_⟩)
      unfold State.unread
      omega
    next => exact .inl ⟨rfl, rfl⟩
  next e h k hprod =>
    split
    next => exact .inl ⟨rfl, rfl⟩
    next => exact .inr (.inl ⟨e, rfl, rfl⟩)

/-- The consumer's side of the record is not the producer's. -/
theorem produce_frame (s : State r β) (e : r.Elem β) :
    (produce s e).cons = s.cons ∧ (produce s e).removed = s.removed ∧
      (produce s e).shown = s.shown ∧ (produce s e).empties = s.empties := by
  unfold produce
  repeat' split
  all_goals exact ⟨rfl, rfl, rfl, rfl⟩

/-- The producer's side of the record is not the consumer's, and "nothing" is
said to an empty ring. -/
theorem consume_frame (hr : r.Sound) {s : State r β} (hs : Inv s) (op : Op) :
    (consume s op).pushes = s.pushes ∧ (consume s op).drops = s.drops ∧
      ((consume s op).empties ≠ s.empties → s.unread = 0) := by
  unfold consume
  split
  next => split <;> exact ⟨rfl, rfl, fun hne => absurd rfl hne⟩
  next => exact ⟨rfl, rfl, fun hne => absurd rfl hne⟩
  next op t hnpop hcons =>
    obtain ⟨ht, -⟩ : t = s.removed.length % r.size ∧ _ := by
      simpa [hcons, Consumer.Knows] using hs.cons
    split
    next htest =>
      rw [ht, empty_iff hr hs] at htest
      refine ⟨rfl, rfl, fun _ => ?_⟩
      unfold State.unread
      omega
    next => split <;> exact ⟨rfl, rfl, fun hne => absurd rfl hne⟩
  next =>
    repeat' split
    all_goals exact ⟨rfl, rfl, fun hne => absurd rfl hne⟩
  next => exact ⟨rfl, rfl, fun hne => absurd rfl hne⟩

/-! ## Removals without a look -/

/-- The consumer holds the element that it is about to remove, and those that it
removed. -/
structure Looked (s : State r β) : Prop where
  removed : none ∉ s.removed
  cons : match s.cons with
    | .loaded op _ => op = .pop ∨ op = .dropHead → s.shown.isSome
    | .store _ => s.shown.isSome
    | _ => True

theorem Looked.remove {s : State r β} (hs : Looked s) {given : Option (r.Elem β)}
    (hgiven : given.isSome) (t : Nat) : Looked (remove s t given) := by
  refine ⟨?_, trivial⟩
  show none ∉ s.removed ++ [given]
  rw [List.mem_append, List.mem_singleton]
  rintro (hmem | rfl)
  · exact hs.removed hmem
  · simp at hgiven

/-- A step of the consumer keeps it, unless it begins a blind drop. -/
theorem Looked.consume {s : State r β} (hs : Looked s) (op : Op)
    (hblind : ¬ Blind ⟨s, .consume op, consume s op⟩) : Looked (consume s op) := by
  have hcons := hs.cons
  unfold Spsc.consume
  split
  next hidle =>
    split
    next hcall =>
      refine ⟨hs.removed, ?_⟩
      rintro (hop | rfl)
      · exact hcall.2 hop
      · rw [Option.isSome_iff_ne_none]
        exact fun hnone => hblind ⟨rfl, hidle, hnone, hcall.1⟩
    next => exact hs
  next t hpc =>
    rw [hpc] at hcons
    exact hs.remove (hcons (.inl rfl)) t
  next op t hnpop hpc =>
    rw [hpc] at hcons
    split
    next => exact ⟨hs.removed, trivial⟩
    next =>
      split
      next hop => exact ⟨hs.removed, hcons (.inr hop)⟩
      next => exact ⟨hs.removed, trivial⟩
  next =>
    split
    next => exact ⟨hs.removed, trivial⟩
    next =>
      split
      next => exact hs.remove rfl _
      next => exact ⟨hs.removed, trivial⟩
  next t hpc =>
    rw [hpc] at hcons
    exact hs.remove hcons t

theorem Looked.produce {s : State r β} (hs : Looked s) (e : r.Elem β) :
    Looked (produce s e) := by
  obtain ⟨hcons, hremoved, hshown, -⟩ := produce_frame s e
  refine ⟨hremoved ▸ hs.removed, ?_⟩
  rw [hcons, hshown]
  exact hs.cons

/-- A step of either side, with the blind drops of the history. -/
theorem looked_step {hist : List (Rec (State r β) (Ev r β))} {s : State r β}
    (hs : Looked s ∨ ∃ p ∈ hist, Blind p) (ev : Ev r β) :
    Looked (step s ev) ∨ ∃ p ∈ hist ++ [⟨s, ev, step s ev⟩], Blind p := by
  by_cases hblind : Blind ⟨s, ev, step s ev⟩
  · exact .inr ⟨_, by simp, hblind⟩
  rcases hs with hlooked | ⟨p, hp, hblind'⟩
  · cases ev with
    | produce e => exact .inl (hlooked.produce e)
    | consume op => exact .inl (hlooked.consume op hblind)
  · exact .inr ⟨p, by simp [hp], hblind'⟩

/-- One step from a state with the invariant. -/
theorem answers_step (hr : r.Sound) {hist : List (Rec (State r β) (Ev r β))} {s : State r β}
    (hs : Inv s) (hlooked : Looked s ∨ ∃ p ∈ hist, Blind p) (ev : Ev r β) :
    Answers hist ⟨s, ev, step s ev⟩ := by
  have hfifo := (inv_step hr hs ev).fifo
  have hgot : (∀ p ∈ hist ++ [⟨s, ev, step s ev⟩], ¬ Blind p) → (step s ev).removed =
      ((step s ev).accepted.take (step s ev).removed.length).map some := by
    intro hno
    have hlooked' := (looked_step hlooked ev).resolve_right fun ⟨p, hp, h⟩ => hno p hp h
    exact hfifo.removed_eq hlooked'.removed
  cases ev with
  | produce e =>
    have hempties : (produce s e).empties = s.empties := (produce_frame s e).2.2.2
    refine ⟨hfifo, ?_, ?_, fun hne => absurd hempties hne, hgot⟩
    · rintro ⟨e', heq⟩
      have heq : (produce s e).pushes = s.pushes ++ [(e', false)] := heq
      rcases produce_cases hr hs e with ⟨h, -⟩ | ⟨e'', h, -⟩ | ⟨e'', -, hdrops, hunread⟩
      · simp [h] at heq
      · simp [h] at heq
      · exact ⟨hunread, hdrops⟩
    · intro hnot
      rcases produce_cases hr hs e with ⟨-, h⟩ | ⟨-, -, h⟩ | ⟨e', h, -⟩
      · exact h
      · exact h
      · exact absurd ⟨e', h⟩ hnot
  | consume op =>
    obtain ⟨hpushes, hdrops, hempty⟩ := consume_frame hr hs op
    refine ⟨hfifo, ?_, fun _ => hdrops, hempty, hgot⟩
    rintro ⟨e, heq⟩
    have heq : (consume s op).pushes = s.pushes ++ [(e, false)] := heq
    simp [hpushes] at heq

/-- Every step of every interleaving answers as a bounded FIFO does. -/
theorem answers (hr : r.Sound) (zero : β) (es : List (Ev r β)) :
    Along step (start r zero) es Answers := by
  -- the history is only needed to say where a blind drop began
  refine Along.of_invariant' (I := fun hist s => Inv s ∧ (Looked s ∨ ∃ p ∈ hist, Blind p))
    ⟨inv_start zero, .inl ⟨by simp [start], trivial⟩⟩ ?_ ?_ es
  · rintro hist s ev ⟨hs, hlooked⟩
    exact ⟨inv_step hr hs ev, looked_step hlooked ev⟩
  · rintro hist s ev ⟨hs, hlooked⟩
    exact answers_step hr hs hlooked ev

/-! ## Every call ends -/

/-- A step of the producer. -/
def Ev.produces : Ev r β → Bool
  | .produce _ => true
  | .consume _ => false

/-- A step of the consumer. -/
def Ev.consumes : Ev r β → Bool
  | .produce _ => false
  | .consume _ => true

/-- The push of `e` that begins in `s` ends within the steps `es`.  The load of `tail`
finds the ring as `es₁` leave it: the push is refused if it is full there, and accepted
otherwise. -/
def PushEnds (s : State r β) (e : r.Elem β) (es : List (Ev r β)) : Prop :=
  ∃ es₁ e' es₂ rest, es = es₁ ++ .produce e' :: es₂ ++ rest ∧
    let s₁ := run step s es₁
    let s₂ := run step s₁ (.produce e' :: es₂)
    s₁.prod = .loaded e s.head ∧ s₂.prod = .idle ∧
      s₂.pushes = s.pushes ++ [(e, decide (s₁.unread ≠ r.mask + 1))]

/-- The consumer has got the oldest of the elements that it had not removed in `s`. -/
def Op.Gives (op : Op) (s s' : State r β) : Prop :=
  s'.empties = s.empties ∧ ∃ e, s'.accepted[s.removed.length]? = some e ∧
    if op = .take then s'.removed = s.removed ++ [some e]
    else s'.removed = s.removed ∧ s'.shown = some e

/-- The answer to a call of the consumer that begins in `s`, loads `head` in `s₁` and
ends in `s₂`.  `pop` does not load it. -/
def Op.Answered (op : Op) (s s₁ s₂ : State r β) : Prop :=
  if op = .pop then s₂.empties = s.empties ∧ s₂.removed = s.removed ++ [s.shown]
  else if s₁.unread = 0 then
    s₂.empties = s.empties + 1 ∧ s₂.removed = s.removed ∧ s₂.shown = s.shown
  else if op = .dropHead then s₂.empties = s.empties ∧ s₂.removed = s.removed ++ [s.shown]
  else op.Gives s s₂

/-- The call of the consumer that begins in `s` ends within the steps `es`. -/
def CallEnds (s : State r β) (op : Op) (es : List (Ev r β)) : Prop :=
  ∃ es₁ op' es₂ rest, es = es₁ ++ .consume op' :: es₂ ++ rest ∧
    let s₁ := run step s es₁
    let s₂ := run step s₁ (.consume op' :: es₂)
    s₁.cons = .loaded op s.tail ∧ s₂.cons = .idle ∧ op.Answered s s₁ s₂

/-- Every call that begins in `s` ends within its own `words + 3` steps, in any
interleaving. -/
structure Serves (s : State r β) : Prop where
  push : s.prod = .idle → ∀ e es, r.words + 2 ≤ es.countP Ev.produces →
    PushEnds s e (.produce e :: es)
  call : s.cons = .idle → ∀ op, r.has op = true → (op = .pop → s.shown.isSome = true) →
    ∀ es, r.words + 2 ≤ es.countP Ev.consumes → CallEnds s op (.consume op :: es)

/-! ### Pushes -/

theorem consume_producer (s : State r β) (op : Op) :
    (consume s op).prod = s.prod ∧ (consume s op).pushes = s.pushes := by
  unfold consume remove
  repeat' split
  all_goals exact ⟨rfl, rfl⟩

/-- The words that the producer has still to copy. -/
def Producer.left : Producer r β → Nat
  | .copy _ _ k => r.words - k
  | _ => 0

/-- The push of `e` has loaded `head`. -/
structure PushLoaded (s : State r β) (e : r.Elem β) (t : State r β) : Prop where
  inv : Inv t
  prod : t.prod = .loaded e s.head
  pushes : t.pushes = s.pushes

/-- The push of `e` has found room. -/
structure PushCopies (s : State r β) (e : r.Elem β) (t : State r β) : Prop where
  prod : ∃ h k, t.prod = .copy e h k
  pushes : t.pushes = s.pushes

theorem PushLoaded.other (hr : r.Sound) {s t : State r β} {e : r.Elem β}
    (ht : PushLoaded s e t) {ev : Ev r β} (hev : ev.produces = false) :
    PushLoaded s e (step t ev) := by
  cases ev with
  | produce => cases hev
  | consume op =>
    obtain ⟨hprod, hpushes⟩ := consume_producer t op
    exact ⟨inv_step hr ht.inv _, hprod.trans ht.prod, hpushes.trans ht.pushes⟩

theorem PushCopies.other {s t : State r β} {e : r.Elem β} (ht : PushCopies s e t) {ev : Ev r β}
    (hev : ev.produces = false) :
    PushCopies s e (step t ev) ∧ (step t ev).prod.left ≤ t.prod.left := by
  cases ev with
  | produce => cases hev
  | consume op =>
    obtain ⟨hprod, hpushes⟩ := consume_producer t op
    obtain ⟨h, k, hcopy⟩ := ht.prod
    exact ⟨⟨⟨h, k, hprod.trans hcopy⟩, hpushes.trans ht.pushes⟩, Nat.le_of_eq (congrArg _ hprod)⟩

/-- A word is copied, or the element is published. -/
theorem PushCopies.own {s t : State r β} {e : r.Elem β} (ht : PushCopies s e t) {ev : Ev r β}
    (hev : ev.produces = true) :
    ((step t ev).prod = .idle ∧ (step t ev).pushes = s.pushes ++ [(e, true)]) ∨
      PushCopies s e (step t ev) ∧ (step t ev).prod.left < t.prod.left := by
  obtain ⟨⟨h, k, hcopy⟩, hpushes⟩ := ht
  cases ev with
  | consume => cases hev
  | produce e' =>
    by_cases hk : k < r.words
    · refine .inr ⟨⟨⟨h, k + 1, ?_⟩, ?_⟩, ?_⟩
      · simp [step, produce, hcopy, hk]
      · simp [step, produce, hcopy, hk, hpushes]
      · simp only [step, produce, hcopy, hk, dite_true, Producer.left]
        omega
    · exact .inl (by simp [step, produce, hcopy, hk, hpushes])

/-- A push that has found room publishes its element. -/
theorem PushCopies.ends {s t : State r β} {e : r.Elem β} (ht : PushCopies s e t)
    {es : List (Ev r β)} (hcount : t.prod.left < es.countP Ev.produces) :
    ∃ es₁ rest, es = es₁ ++ rest ∧ (run step t es₁).prod = .idle ∧
      (run step t es₁).pushes = s.pushes ++ [(e, true)] := by
  obtain ⟨es₁, ev, es₂, rfl, -, -, hend, -⟩ := exists_step_of_rank Ev.produces
    (fun t : State r β => t.prod.left) (fun _ _ ht hev => ht.other hev)
    (fun _ _ ht hev => ht.own hev) ht hcount
  refine ⟨es₁ ++ [ev], es₂, by simp, ?_⟩
  rw [run_append]
  exact hend

/-- A push ends within its own steps. -/
theorem push_ends (hr : r.Sound) {s : State r β} (hs : Inv s) (hidle : s.prod = .idle)
    (e : r.Elem β) {es : List (Ev r β)} (hcount : r.words + 2 ≤ es.countP Ev.produces) :
    PushEnds s e (.produce e :: es) := by
  have hfirst : step s (.produce e) = { s with prod := .loaded e s.head } := by
    simp [step, produce, hidle]
  have hloaded : PushLoaded s e (step s (.produce e)) :=
    ⟨inv_step hr hs _, by rw [hfirst], by rw [hfirst]⟩
  -- up to the load of `tail`
  obtain ⟨es₁, ev, es₂, rfl, hev, ⟨hinv, hload, hpushes⟩, -, hleft⟩ :=
    exists_step_of_rank Ev.produces (fun _ => 0) (Q := fun _ _ => True)
      (fun _ _ ht hev => ⟨ht.other hr hev, Nat.le_refl 0⟩) (fun _ _ _ _ => .inl trivial) hloaded
      (Nat.lt_of_lt_of_le (Nat.succ_pos _) hcount)
  obtain ⟨e', rfl⟩ : ∃ e', ev = .produce e' := by
    cases ev with
    | produce e' => exact ⟨e', rfl⟩
    | consume => cases hev
  generalize hs₁ : run step (step s (.produce e)) es₁ = s₁ at hinv hload hpushes
  have hhead : s.head = s₁.accepted.length % r.size := by
    simpa [hload, Producer.Knows] using hinv.prod
  have hfull : r.full (r.sub s.head s₁.tail) = true ↔ s₁.unread = r.mask + 1 := by
    have hle := hinv.le
    rw [hhead, full_iff hr hinv, State.unread]
    omega
  by_cases htest : s₁.unread = r.mask + 1
  · -- there is no room
    refine ⟨.produce e :: es₁, e', [], es₂, by simp, ?_⟩
    simp only [run_cons, run_nil, hs₁]
    refine ⟨hload, ?_, ?_⟩
    · simp [step, produce, hload, hfull.2 htest]
    · simp [step, produce, hload, hfull.2 htest, hpushes, htest]
  · have hroom : ¬ r.full (r.sub s.head s₁.tail) = true := fun h => htest (hfull.1 h)
    have hcopy : step s₁ (.produce e') = { s₁ with prod := .copy e s.head 0 } := by
      simp [step, produce, hload, hroom]
    have hcopies : PushCopies s e (step s₁ (.produce e')) :=
      ⟨⟨s.head, 0, by rw [hcopy]⟩, by rw [hcopy]; exact hpushes⟩
    have hwords : (step s₁ (.produce e')).prod.left < es₂.countP Ev.produces := by
      have hleft' : (step s₁ (.produce e')).prod.left = r.words := by rw [hcopy]; rfl
      omega
    obtain ⟨es₃, rest, rfl, hend, hlast⟩ := hcopies.ends hwords
    refine ⟨.produce e :: es₁, e', es₃, rest, by simp, ?_⟩
    simp only [run_cons, hs₁]
    refine ⟨hload, hend, ?_⟩
    rw [hlast]
    simp [htest]

/-! ### Calls of the consumer -/

/-- The words that the consumer has still to copy. -/
def Consumer.left (words : Nat) : Consumer → Nat
  | .copy _ _ k => words - k
  | _ => 0

/-- A call of the consumer goes on, at one of the places `At`. -/
structure Calling (At : Consumer → Prop) (s t : State r β) : Prop where
  inv : Inv t
  cons : At t.cons
  removed : t.removed = s.removed
  shown : t.shown = s.shown
  empties : t.empties = s.empties

theorem Calling.other (hr : r.Sound) {At : Consumer → Prop} {s t : State r β}
    (ht : Calling At s t) {ev : Ev r β} (hev : ev.consumes = false) :
    Calling At s (step t ev) ∧ (step t ev).cons.left r.words ≤ t.cons.left r.words := by
  cases ev with
  | consume => cases hev
  | produce e =>
    obtain ⟨hcons, hremoved, hshown, hempties⟩ := produce_frame t e
    refine ⟨⟨inv_step hr ht.inv _, ?_, hremoved.trans ht.removed, hshown.trans ht.shown,
      hempties.trans ht.empties⟩, Nat.le_of_eq (congrArg _ hcons)⟩
    exact hcons.symm ▸ ht.cons

/-- An own step of the consumer while it copies: one more word, or the end. -/
theorem Calling.own (hr : r.Sound) {s t : State r β} {op : Op} {tail : Nat}
    (ht : Calling (fun c => ∃ k, c = .copy op tail k) s t) {ev : Ev r β}
    (hev : ev.consumes = true) :
    ((step t ev).cons = .idle ∧ op.Gives s (step t ev)) ∨
      Calling (fun c => ∃ k, c = .copy op tail k) s (step t ev) ∧
        (step t ev).cons.left r.words < t.cons.left r.words := by
  have hinv := inv_step hr ht.inv ev
  obtain ⟨ht, ⟨k, hcopy⟩, hremoved, hshown, hempties⟩ := ht
  cases ev with
  | produce => cases hev
  | consume op' =>
    by_cases hk : k < r.words
    · have hword : step t (.consume op') =
          { t with
            out := Function.update t.out ⟨k, hk⟩ (t.buf (tail &&& r.mask) ⟨k, hk⟩)
            cons := .copy op tail (k + 1) } := by
        simp [step, consume, hcopy, hk]
      refine .inr ⟨⟨hinv, ⟨k + 1, by rw [hword]⟩, ?_, ?_, ?_⟩, ?_⟩
      · rw [hword, hremoved]
      · rw [hword, hshown]
      · rw [hword, hempties]
      · rw [hword, hcopy]
        simp only [Consumer.left]
        omega
    · obtain ⟨-, -, hout⟩ := out_eq ht hcopy hk
      rw [hremoved] at hout
      by_cases hop : op = .take
      · have hend : step t (.consume op') = remove t tail (some t.out) := by
          simp [step, consume, hcopy, hk, hop]
        rw [hend]
        refine .inl ⟨rfl, hempties, t.out, hout, ?_⟩
        rw [if_pos hop]
        exact congrArg (· ++ [some t.out]) hremoved
      · have hend : step t (.consume op') = { t with cons := .idle, shown := some t.out } := by
          simp [step, consume, hcopy, hk, hop]
        rw [hend]
        refine .inl ⟨rfl, hempties, t.out, hout, ?_⟩
        rw [if_neg hop]
        exact ⟨hremoved, rfl⟩

/-- A call that has found an element copies it out. -/
theorem Calling.gives (hr : r.Sound) {s t : State r β} {op : Op} {tail : Nat}
    (ht : Calling (fun c => ∃ k, c = .copy op tail k) s t) {es : List (Ev r β)}
    (hcount : t.cons.left r.words < es.countP Ev.consumes) :
    ∃ es₁ rest, es = es₁ ++ rest ∧ (run step t es₁).cons = .idle ∧
      op.Gives s (run step t es₁) := by
  obtain ⟨es₁, ev, es₂, rfl, -, -, hend, -⟩ := exists_step_of_rank Ev.consumes
    (fun t : State r β => t.cons.left r.words) (fun _ _ ht hev => ht.other hr hev)
    (fun _ _ ht hev => ht.own hr hev) ht hcount
  refine ⟨es₁ ++ [ev], es₂, by simp, ?_⟩
  rw [run_append]
  exact hend

/-- The next own step of a call. -/
theorem Calling.next (hr : r.Sound) {At : Consumer → Prop} {s t : State r β}
    (ht : Calling At s t) (hleft : t.cons.left r.words = 0) {es : List (Ev r β)}
    (hcount : 0 < es.countP Ev.consumes) :
    ∃ es₁ op es₂, es = es₁ ++ .consume op :: es₂ ∧ Calling At s (run step t es₁) ∧
      es.countP Ev.consumes ≤ 1 + es₂.countP Ev.consumes := by
  obtain ⟨es₁, ev, es₂, rfl, hev, ht', -, hle⟩ := exists_step_of_rank Ev.consumes
    (fun t : State r β => t.cons.left r.words) (Q := fun _ _ => True)
    (fun _ _ ht hev => ht.other hr hev) (fun _ _ _ _ => .inl trivial) ht (hleft ▸ hcount)
  cases ev with
  | produce => cases hev
  | consume op => exact ⟨es₁, op, es₂, rfl, ht', by omega⟩

/-- A call of the consumer ends within its own steps. -/
theorem call_ends (hr : r.Sound) {s : State r β} (hs : Inv s) (hidle : s.cons = .idle) {op : Op}
    (hhas : r.has op = true) (hpop : op = .pop → s.shown.isSome = true) {es : List (Ev r β)}
    (hcount : r.words + 2 ≤ es.countP Ev.consumes) : CallEnds s op (.consume op :: es) := by
  have hfirst : step s (.consume op) = { s with cons := .loaded op s.tail } := by
    simp only [step, consume, hidle]
    exact if_pos ⟨hhas, hpop⟩
  have hcalling : Calling (· = .loaded op s.tail) s (step s (.consume op)) :=
    ⟨inv_step hr hs _, by rw [hfirst], by rw [hfirst], by rw [hfirst], by rw [hfirst]⟩
  -- up to the load of `head`
  obtain ⟨es₁, op', es₂, rfl, hs₁, hleft⟩ := hcalling.next hr (by rw [hfirst]; rfl)
    (Nat.lt_of_lt_of_le (Nat.succ_pos _) hcount)
  generalize hrun : run step (step s (.consume op)) es₁ = s₁ at hs₁
  -- the call is answered by the steps `es₃` behind the load
  have hends : ∀ es₃ rest, es₂ = es₃ ++ rest →
      (run step s₁ (.consume op' :: es₃)).cons = .idle →
      op.Answered s s₁ (run step s₁ (.consume op' :: es₃)) →
      CallEnds s op (.consume op :: (es₁ ++ .consume op' :: es₂)) := by
    rintro es₃ rest rfl hend hanswer
    refine ⟨.consume op :: es₁, op', es₃, rest, by simp, ?_⟩
    simp only [run_cons s, hrun]
    exact ⟨hs₁.cons, hend, hanswer⟩
  have htail : s.tail = s₁.removed.length % r.size := by
    have hknows := hs₁.inv.cons
    rw [hs₁.cons] at hknows
    exact hknows.1
  have hempty : s.tail = s₁.head ↔ s₁.unread = 0 := by
    have hle := hs₁.inv.le
    rw [htail, empty_iff hr hs₁.inv, State.unread]
    omega
  by_cases hop : op = .pop
  · have hstep : step s₁ (.consume op') = remove s₁ s.tail s₁.shown := by
      simp [step, consume, hs₁.cons, hop]
    refine hends [] es₂ rfl ?_ ?_
    · rw [run_cons, run_nil, hstep]
      rfl
    · rw [run_cons, run_nil, hstep, Op.Answered, if_pos hop, hs₁.shown]
      exact ⟨hs₁.empties, congrArg (· ++ [s.shown]) hs₁.removed⟩
  by_cases htest : s₁.unread = 0
  · have hstep : step s₁ (.consume op') =
        { s₁ with cons := .idle, empties := s₁.empties + 1 } := by
      cases op <;> simp_all [step, consume, hs₁.cons]
    refine hends [] es₂ rfl ?_ ?_
    · rw [run_cons, run_nil, hstep]
    · rw [run_cons, run_nil, hstep, Op.Answered, if_neg hop, if_pos htest]
      exact ⟨congrArg (· + 1) hs₁.empties, hs₁.removed, hs₁.shown⟩
  have hsome : ¬ s.tail = s₁.head := fun h => htest (hempty.1 h)
  by_cases hdrop : op = .dropHead
  · have hstep : step s₁ (.consume op') = { s₁ with cons := .store s.tail } := by
      simp [step, consume, hs₁.cons, hdrop, hsome]
    have hstore : Calling (· = .store s.tail) s (step s₁ (.consume op')) :=
      ⟨inv_step hr hs₁.inv _, by rw [hstep], by rw [hstep]; exact hs₁.removed,
        by rw [hstep]; exact hs₁.shown, by rw [hstep]; exact hs₁.empties⟩
    have hmore : 0 < es₂.countP Ev.consumes := by omega
    obtain ⟨es₃, op'', es₄, rfl, hs₂, -⟩ := hstore.next hr (by rw [hstep]; rfl) hmore
    generalize hrun₂ : run step (step s₁ (.consume op')) es₃ = s₂ at hs₂
    have hlast : run step s₁ (.consume op' :: (es₃ ++ [.consume op''])) =
        remove s₂ s.tail s₂.shown := by
      rw [run_cons, run_append, hrun₂]
      simp [step, consume, hs₂.cons]
    refine hends (es₃ ++ [.consume op'']) es₄ (by simp) ?_ ?_
    · rw [hlast]
      rfl
    · rw [hlast, Op.Answered, if_neg hop, if_neg htest, if_pos hdrop, hs₂.shown]
      exact ⟨hs₂.empties, congrArg (· ++ [s.shown]) hs₂.removed⟩
  · have hstep : step s₁ (.consume op') = { s₁ with cons := .copy op s.tail 0 } := by
      cases op <;> simp_all [step, consume, hs₁.cons]
    have hcopies : Calling (fun c => ∃ k, c = .copy op s.tail k) s (step s₁ (.consume op')) :=
      ⟨inv_step hr hs₁.inv _, ⟨0, by rw [hstep]⟩, by rw [hstep]; exact hs₁.removed,
        by rw [hstep]; exact hs₁.shown, by rw [hstep]; exact hs₁.empties⟩
    have hwords : (step s₁ (.consume op')).cons.left r.words < es₂.countP Ev.consumes := by
      have hleft' : (step s₁ (.consume op')).cons.left r.words = r.words := by rw [hstep]; rfl
      omega
    obtain ⟨es₃, rest, rfl, hend, hgives⟩ := hcopies.gives hr hwords
    refine hends es₃ rest rfl hend ?_
    rw [Op.Answered, if_neg hop, if_neg htest, if_neg hdrop]
    exact hgives

theorem Inv.serves (hr : r.Sound) {s : State r β} (hs : Inv s) : Serves s where
  push hidle e _ hcount := push_ends hr hs hidle e hcount
  call hidle _ hhas hpop _ hcount := call_ends hr hs hidle hhas hpop hcount

/-- Every state that an interleaving reaches serves its callers. -/
theorem serves (hr : r.Sound) (zero : β) (es : List (Ev r β)) :
    Serves (run step (start r zero) es) :=
  (inv_run hr zero es).serves hr

end EcMaster.Spsc
