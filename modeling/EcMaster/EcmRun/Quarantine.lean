import EcMaster.Lib.Run

/-!
# The index quarantine

SOEM takes any frame that carries an index in state `EC_BUF_TX` as the reply to the frame
that has that index now.  After a timeout the index is therefore parked: its receive buffer
is put in state `EC_BUF_COMPLETE` for `QUAR_TICKS` ticks, in which SOEM neither hands the
index out nor stores a reply that carries it.  `quar_add` and `quar_expire` of `ecm_run.c`
are the two operations, on the table of deadlines `g_quar_until` and the counter `g_quar_n`.

Between the two SOEM itself works on the buffers.  An event `soem` is such a change.  It
leaves parked indices alone, which is what `EC_BUF_COMPLETE` is for.

* `parked` are the indices with a deadline, and `Counted` says that the counter counts them.
* `oldest_spec` is the search for the index that has to go when there is no room.
* `release` and `expire` change one index and the due indices (`release_spec`,
  `expire_quarUntil`).
* `Rule` is what every step of a run does, and `quarantine_rule` the run lemma.

A deadline is a sum of 64 bits, and 0 means "not parked".  At a tick of `2 ^ 64 - 50` the
two meet (`deadline_wraps`), so that the ticks of a run are below that.
-/

namespace EcMaster.Quarantine

open EcMaster.Run

/-! ## The operations -/

/-- `EC_MAXBUF`. -/
abbrev ecMaxbuf : Nat := 16

/-- `QUAR_TICKS`. -/
abbrev quarTicks : Nat := 50

/-- `QUAR_MAX`. -/
abbrev quarMax : Nat := 8

/-- A SOEM index. -/
abbrev Index := Fin ecMaxbuf

/-- `EC_BUF_*`. -/
inductive BufStat
  | empty
  | alloc
  | tx
  | rcvd
  | complete
deriving DecidableEq, Repr

/-- The receive buffers and the table. -/
structure Quar where
  rxbufstat : Index → BufStat
  quarUntil : Index → Nat
  n : Int
  total : Nat
  overflow : Nat

/-- An index that is taken out of the table. -/
def Quar.release (s : Quar) (i : Index) : Quar :=
  { s with
    rxbufstat :=
      if s.rxbufstat i = .complete then Function.update s.rxbufstat i .empty else s.rxbufstat
    quarUntil := Function.update s.quarUntil i 0
    n := s.n - 1 }

/-- The body of the search: the index that is older, `old` being the oldest so far. -/
def olderOf (quarUntil : Index → Nat) (old : Option Index) (i : Index) : Option Index :=
  if quarUntil i ≠ 0 ∧ old.all (fun o => quarUntil i < quarUntil o) then some i else old

/-- The search for the oldest index. -/
def oldest (quarUntil : Index → Nat) : Option Index :=
  (List.finRange ecMaxbuf).foldl (olderOf quarUntil) none

/-- The oldest index goes if the table is full. -/
def Quar.makeRoom (s : Quar) : Quar :=
  if quarMax ≤ s.n then
    match oldest s.quarUntil with
    | some old => { s.release old with overflow := s.overflow + 1 }
    | none => s
  else s

/-- An index that is put into the table. -/
def Quar.park (s : Quar) (i : Index) (tick : Nat) : Quar :=
  { s with
    rxbufstat := Function.update s.rxbufstat i .complete
    quarUntil := Function.update s.quarUntil i ((tick + quarTicks) % 2 ^ 64)
    n := s.n + 1
    total := s.total + 1 }

/-- `idx` as an index. -/
def indexOf (idx : Int) : Option Index :=
  if h : 0 ≤ idx ∧ idx < ecMaxbuf then some ⟨idx.toNat, by omega⟩ else none

/-- `quar_add`, with `g_quarantine` as its first argument. -/
def quarAdd (gQuarantine : Bool) (idx : Int) (tick : Nat) (s : Quar) : Quar :=
  match indexOf idx with
  | none => s
  | some i =>
      if gQuarantine ∧ s.rxbufstat i = .empty ∧ s.quarUntil i = 0 then s.makeRoom.park i tick
      else s

/-- The body of the loop of `quar_expire`. -/
def expireOne (tick : Nat) (s : Quar) (i : Index) : Quar :=
  if s.quarUntil i ≠ 0 ∧ s.quarUntil i ≤ tick then s.release i else s

/-- `quar_expire`. -/
def quarExpire (tick : Nat) (s : Quar) : Quar :=
  if s.n = 0 then s else (List.finRange ecMaxbuf).foldl (expireOne tick) s

/-! ## Parked indices -/

/-- The indices in the table. -/
def Quar.parked (s : Quar) : Finset Index := Finset.univ.filter fun i => s.quarUntil i ≠ 0

theorem mem_parked {s : Quar} {i : Index} : i ∈ s.parked ↔ s.quarUntil i ≠ 0 := by
  simp [Quar.parked]

/-- `o` is in the table, and no other index is older.  Of two indices with one deadline the
first counts as the older one. -/
def IsOldest (quarUntil : Index → Nat) (o : Index) : Prop :=
  quarUntil o ≠ 0 ∧
    ∀ j, quarUntil j ≠ 0 → quarUntil o < quarUntil j ∨ quarUntil o = quarUntil j ∧ o ≤ j

instance (quarUntil : Index → Nat) (o : Index) : Decidable (IsOldest quarUntil o) :=
  inferInstanceAs (Decidable (_ ∧ _))

theorem IsOldest.unique {u : Index → Nat} {o o' : Index} (h : IsOldest u o) (h' : IsOldest u o') :
    o = o' := by
  rcases h.2 o' h'.1 with hlt | ⟨heq, hle⟩
  · rcases h'.2 o h.1 with hlt' | ⟨heq', -⟩ <;> omega
  · rcases h'.2 o h.1 with hlt' | ⟨-, hge⟩
    · omega
    · exact le_antisymm hle hge

/-- The search over a part of the indices, with an oldest index that is before them. -/
theorem foldl_olderOf {u : Index → Nat} :
    ∀ {l : List Index} {old : Option Index}, l.Pairwise (· < ·) →
      (∀ o ∈ old, u o ≠ 0 ∧ ∀ i ∈ l, o < i) →
      (l.foldl (olderOf u) old = none → old = none ∧ ∀ i ∈ l, u i = 0) ∧
      ∀ o ∈ l.foldl (olderOf u) old, u o ≠ 0 ∧
        ∀ j, j ∈ old ∨ j ∈ l → u j ≠ 0 → u o < u j ∨ u o = u j ∧ o ≤ j
  | [], old, _, hold => by
      refine ⟨fun h => ⟨h, nofun⟩, ?_⟩
      intro o ho
      refine ⟨(hold o ho).1, ?_⟩
      rintro j (hj | hj) -
      · exact .inr ⟨congrArg u (Option.mem_unique ho hj), (Option.mem_unique ho hj).le⟩
      · cases hj
  | i :: l, old, hsorted, hold => by
      rw [List.pairwise_cons] at hsorted
      by_cases hnew : u i ≠ 0 ∧ old.all (fun o => u i < u o) = true
      · have hstep : olderOf u old i = some i := if_pos hnew
        obtain ⟨hnone, hsome⟩ := @foldl_olderOf u _ (some i) hsorted.2 (by
          intro o ho
          rw [Option.mem_some_iff] at ho
          exact ho ▸ ⟨hnew.1, hsorted.1⟩)
        rw [List.foldl_cons, hstep]
        refine ⟨fun h => absurd (hnone h).1 (Option.some_ne_none i), ?_⟩
        intro o ho
        obtain ⟨hne, hmin⟩ := hsome o ho
        refine ⟨hne, ?_⟩
        rintro j (hj | hj) hparked
        · -- the one that `i` has replaced is younger
          have hlt : u i < u j := by
            have hall := hnew.2
            rw [Option.mem_def.1 hj] at hall
            simpa using hall
          have := hmin i (.inl rfl) hnew.1
          omega
        · rcases List.mem_cons.1 hj with rfl | hj
          · exact hmin j (.inl rfl) hparked
          · exact hmin j (.inr hj) hparked
      · have hstep : olderOf u old i = old := if_neg hnew
        obtain ⟨hnone, hsome⟩ := @foldl_olderOf u _ old hsorted.2
          fun o ho => ⟨(hold o ho).1, fun j hj => (hold o ho).2 j (List.mem_cons_of_mem _ hj)⟩
        rw [List.foldl_cons, hstep]
        refine ⟨?_, ?_⟩
        · intro h
          obtain ⟨hold', hall⟩ := hnone h
          refine ⟨hold', List.forall_mem_cons.2 ⟨?_, hall⟩⟩
          by_contra hne
          rw [hold'] at hnew
          exact hnew ⟨hne, rfl⟩
        · intro o ho
          obtain ⟨hne, hmin⟩ := hsome o ho
          refine ⟨hne, ?_⟩
          rintro j (hj | hj) hparked
          · exact hmin j (.inl hj) hparked
          · rcases List.mem_cons.1 hj with rfl | hj
            · -- not older than the oldest so far, which comes before it
              obtain ⟨o', ho', hle⟩ : ∃ o' ∈ old, u o' ≤ u j := by
                by_contra hno
                refine hnew ⟨hparked, ?_⟩
                rw [Option.all_eq_true]
                intro o' ho'
                rw [decide_eq_true_eq]
                by_contra hlt
                exact hno ⟨o', ho', by omega⟩
              have hbefore := (hold o' ho').2 j List.mem_cons_self
              rcases hmin o' (.inl ho') (hold o' ho').1 with hlt | ⟨heq, ho⟩
              · exact .inl (by omega)
              · rcases Nat.lt_or_eq_of_le hle with hlt | heq'
                · exact .inl (by omega)
                · exact .inr ⟨heq.trans heq', (ho.trans_lt hbefore).le⟩
            · exact hmin j (.inr hj) hparked

theorem oldest_spec {u : Index → Nat} {i : Index} (hi : u i ≠ 0) :
    ∃ o, oldest u = some o ∧ IsOldest u o := by
  obtain ⟨hnone, hsome⟩ := @foldl_olderOf u _ none (List.pairwise_lt_finRange ecMaxbuf)
    nofun
  cases ho : oldest u with
  | none => exact absurd ((hnone ho).2 i (List.mem_finRange i)) hi
  | some o =>
      obtain ⟨hne, hmin⟩ := hsome o ho
      exact ⟨o, rfl, hne, fun j => hmin j (.inr (List.mem_finRange j))⟩

/-! ## One index -/

section Release

variable {s : Quar} {i j : Index}

theorem release_other (h : j ≠ i) :
    (s.release i).rxbufstat j = s.rxbufstat j ∧ (s.release i).quarUntil j = s.quarUntil j := by
  refine ⟨?_, Function.update_of_ne h _ _⟩
  unfold Quar.release
  dsimp only
  split
  · exact Function.update_of_ne h _ _
  · rfl

theorem parked_release : (s.release i).parked = s.parked.erase i := by
  ext j
  rw [Finset.mem_erase, mem_parked, mem_parked]
  by_cases h : j = i
  · subst h
    simp [Quar.release]
  · rw [(release_other h).2]
    simp [h]

theorem rxbufstat_release (h : s.rxbufstat i = .complete) :
    (s.release i).rxbufstat i = .empty := by
  unfold Quar.release
  dsimp only
  rw [if_pos h, Function.update_self]

/-- The table is counted, has room for eight, and parks its indices. -/
structure Counted (s : Quar) : Prop where
  count : s.n = s.parked.card
  room : s.n ≤ quarMax
  complete : ∀ i ∈ s.parked, s.rxbufstat i = .complete

theorem Counted.release (h : Counted s) (hi : i ∈ s.parked) : Counted (s.release i) := by
  have hcard : (s.release i).parked.card = s.parked.card - 1 := by
    rw [parked_release, Finset.card_erase_of_mem hi]
  have hpos : 0 < s.parked.card := Finset.card_pos.2 ⟨i, hi⟩
  have hn : (s.release i).n = s.n - 1 := rfl
  have hcount := h.count
  have hroom := h.room
  refine ⟨by omega, by omega, ?_⟩
  intro j hj
  rw [parked_release, Finset.mem_erase] at hj
  rw [(release_other hj.1).1]
  exact h.complete j hj.2

end Release

/-! ## The expiry -/

section Expire

variable {s : Quar} {tick : Nat}

theorem Counted.expireOne (h : Counted s) (i : Index) : Counted (expireOne tick s i) := by
  unfold Quarantine.expireOne
  split
  · rename_i hdue
    exact h.release (mem_parked.2 hdue.1)
  · exact h

theorem Counted.foldl_expireOne (h : Counted s) (l : List Index) :
    Counted (l.foldl (Quarantine.expireOne tick) s) := by
  induction l generalizing s with
  | nil => exact h
  | cons i l ih => exact ih (h.expireOne i)

theorem Counted.quarExpire (h : Counted s) : Counted (quarExpire tick s) := by
  unfold Quarantine.quarExpire
  split
  · exact h
  · exact h.foldl_expireOne _

/-- The index is in the table and its deadline is over. -/
def Due (s : Quar) (tick : Nat) (i : Index) : Prop :=
  s.quarUntil i ≠ 0 ∧ s.quarUntil i ≤ tick

instance (s : Quar) (i : Index) : Decidable (Due s tick i) := inferInstanceAs (Decidable (_ ∧ _))

/-- What the loop of the expiry does to one index. -/
theorem foldl_expireOne_at (l : List Index) (s : Quar) (i : Index) :
    let s' := l.foldl (Quarantine.expireOne tick) s
    if i ∈ l ∧ Due s tick i then
      s'.quarUntil i = 0 ∧ (s.rxbufstat i = .complete → s'.rxbufstat i = .empty)
    else s'.quarUntil i = s.quarUntil i ∧ s'.rxbufstat i = s.rxbufstat i := by
  induction l generalizing s with
  | nil => simp
  | cons j l ih =>
      have hrest := ih (Quarantine.expireOne tick s j)
      dsimp only at hrest ⊢
      rw [List.foldl_cons]
      by_cases hj : Due s tick j
      · have hturn : Quarantine.expireOne tick s j = s.release j := if_pos hj
        rw [hturn] at hrest ⊢
        by_cases hij : i = j
        · -- taken out in this turn, and in no later one
          subst hij
          have hzero : (s.release i).quarUntil i = 0 := Function.update_self ..
          rw [if_neg (fun h => h.2.1 hzero)] at hrest
          rw [if_pos ⟨List.mem_cons_self, hj⟩]
          refine ⟨hrest.1.trans hzero, ?_⟩
          intro hcomplete
          exact hrest.2.trans (rxbufstat_release hcomplete)
        · obtain ⟨hstat, huntil⟩ := release_other (s := s) hij
          have hdue : Due (s.release j) tick i ↔ Due s tick i := by
            unfold Due
            rw [huntil]
          rw [hstat, huntil] at hrest
          simpa only [List.mem_cons, hij, false_or, hdue] using hrest
      · have hturn : Quarantine.expireOne tick s j = s := if_neg hj
        rw [hturn] at hrest ⊢
        by_cases hij : i = j
        · subst hij
          rw [if_neg (fun h => hj h.2)] at hrest ⊢
          exact hrest
        · simpa only [List.mem_cons, hij, false_or] using hrest

/-- What the expiry does to one index of a counted table. -/
theorem quarExpire_at (h : Counted s) (i : Index) :
    if Due s tick i then
      (quarExpire tick s).quarUntil i = 0 ∧ (quarExpire tick s).rxbufstat i = .empty
    else
      (quarExpire tick s).quarUntil i = s.quarUntil i ∧
        (quarExpire tick s).rxbufstat i = s.rxbufstat i := by
  unfold Quarantine.quarExpire
  by_cases hn : s.n = 0
  · -- an empty table
    have hempty : s.parked = ∅ := by
      have := h.count
      exact Finset.card_eq_zero.1 (by omega)
    have hnot : ¬Due s tick i := by
      intro hdue
      have hmem := mem_parked.2 hdue.1
      rw [hempty] at hmem
      exact absurd hmem (Finset.notMem_empty i)
    rw [if_neg hnot, if_pos hn]
    exact ⟨rfl, rfl⟩
  · rw [if_neg hn]
    have hloop := @foldl_expireOne_at tick (List.finRange ecMaxbuf) s i
    simp only [List.mem_finRange, true_and] at hloop
    split
    · rename_i hdue
      rw [if_pos hdue] at hloop
      exact ⟨hloop.1, hloop.2 (h.complete i (mem_parked.2 hdue.1))⟩
    · rename_i hdue
      rw [if_neg hdue] at hloop
      exact hloop

end Expire

/-! ## Parking -/

section Park

variable {s : Quar} {i j : Index} {tick : Nat}

/-- A full table and a free one. -/
theorem makeRoom_cases (h : Counted s) :
    (s.parked.card = quarMax ∧ ∃ o, IsOldest s.quarUntil o ∧
        s.makeRoom = { s.release o with overflow := s.overflow + 1 }) ∨
      (s.parked.card < quarMax ∧ s.makeRoom = s) := by
  have hcount := h.count
  have hroom := h.room
  by_cases hfull : (quarMax : Int) ≤ s.n
  · left
    have hcard : s.parked.card = quarMax := by omega
    obtain ⟨i, hi⟩ : s.parked.Nonempty := Finset.card_pos.1 (by rw [hcard]; decide)
    obtain ⟨o, hsearch, ho⟩ := oldest_spec (mem_parked.1 hi)
    refine ⟨hcard, o, ho, ?_⟩
    unfold Quar.makeRoom
    rw [if_pos hfull, hsearch]
  · right
    refine ⟨by omega, ?_⟩
    unfold Quar.makeRoom
    rw [if_neg hfull]

theorem Counted.makeRoom (h : Counted s) : Counted s.makeRoom ∧ s.makeRoom.n < quarMax := by
  rcases makeRoom_cases h with ⟨hcard, o, ho, heq⟩ | ⟨hcard, heq⟩
  · have hrel := h.release (mem_parked.2 ho.1)
    have hn : s.makeRoom.n = s.n - 1 := by rw [heq]; rfl
    have hcount := h.count
    refine ⟨?_, by omega⟩
    rw [heq]
    exact ⟨hrel.count, hrel.room, hrel.complete⟩
  · have hcount := h.count
    rw [heq]
    exact ⟨h, by omega⟩

theorem park_other (h : j ≠ i) :
    (s.park i tick).rxbufstat j = s.rxbufstat j ∧ (s.park i tick).quarUntil j = s.quarUntil j :=
  ⟨Function.update_of_ne h _ _, Function.update_of_ne h _ _⟩

theorem park_self (htick : tick + quarTicks < 2 ^ 64) :
    (s.park i tick).rxbufstat i = .complete ∧ (s.park i tick).quarUntil i = tick + quarTicks := by
  refine ⟨Function.update_self .., ?_⟩
  unfold Quar.park
  dsimp only
  rw [Function.update_self, Nat.mod_eq_of_lt htick]

theorem parked_park (htick : tick + quarTicks < 2 ^ 64) :
    (s.park i tick).parked = insert i s.parked := by
  ext j
  rw [Finset.mem_insert, mem_parked, mem_parked]
  by_cases h : j = i
  · subst h
    simp [(park_self (s := s) (i := j) htick).2]
  · rw [(park_other h).2]
    simp [h]

theorem Counted.park (h : Counted s) (hroom : s.n < quarMax) (hi : i ∉ s.parked)
    (htick : tick + quarTicks < 2 ^ 64) : Counted (s.park i tick) := by
  have hcard : (s.park i tick).parked.card = s.parked.card + 1 := by
    rw [parked_park htick, Finset.card_insert_of_notMem hi]
  have hn : (s.park i tick).n = s.n + 1 := rfl
  have hcount := h.count
  refine ⟨by omega, by omega, ?_⟩
  intro j hj
  by_cases hji : j = i
  · subst hji
    exact (park_self htick).1
  · rw [parked_park htick, Finset.mem_insert] at hj
    rw [(park_other hji).1]
    exact h.complete j (hj.resolve_left hji)

end Park

/-! ## Runs -/

/-- What happens to the table. -/
inductive QuarEv
  | add (idx : Int) (tick : Nat)
  | expire (tick : Nat)
  | soem (i : Index) (stat : BufStat)

/-- One event.  SOEM leaves an index that is parked alone. -/
def quarStep (gQuarantine : Bool) (s : Quar) : QuarEv → Quar
  | .add idx tick => quarAdd gQuarantine idx tick s
  | .expire tick => quarExpire tick s
  | .soem i stat =>
      if s.quarUntil i = 0 then { s with rxbufstat := Function.update s.rxbufstat i stat } else s

/-- The start: an empty table, and the buffers as SOEM has them. -/
def Quar.start (rxbufstat : Index → BufStat) : Quar :=
  { rxbufstat, quarUntil := fun _ => 0, n := 0, total := 0, overflow := 0 }

/-- The deadline of a parking fits 64 bits. -/
def QuarEv.Fits : QuarEv → Prop
  | .add _ tick => tick + quarTicks < 2 ^ 64
  | _ => True

/-- The event parks the index. -/
def Parks (gQuarantine : Bool) (s : Quar) (ev : QuarEv) (i : Index) : Prop :=
  gQuarantine = true ∧ s.rxbufstat i = .empty ∧ i ∉ s.parked ∧ ∃ tick, ev = .add i tick

/-- The event is an expiry at or after the deadline of the index. -/
def Expires (s : Quar) (ev : QuarEv) (i : Index) : Prop :=
  ∃ tick, ev = .expire tick ∧ s.quarUntil i ≤ tick

/-- The event parks another index, the table is full, and this is the oldest index in it. -/
def Crowded (gQuarantine : Bool) (s : Quar) (ev : QuarEv) (i : Index) : Prop :=
  (∃ j, Parks gQuarantine s ev j) ∧ s.parked.card = quarMax ∧ IsOldest s.quarUntil i

/-- What a step does. -/
structure Moves (gQuarantine : Bool) (r : Rec Quar QuarEv) : Prop where
  /-- the counter counts the indices in the table, which are no more than eight -/
  count : r.post.n = r.post.parked.card ∧ r.post.n ≤ quarMax
  /-- when an index goes -/
  release : ∀ i ∈ r.pre.parked,
    (i ∉ r.post.parked ↔ Expires r.pre r.ev i ∨ Crowded gQuarantine r.pre r.ev i)
  /-- an index that goes has its buffer marked empty -/
  empties : ∀ i ∈ r.pre.parked, i ∉ r.post.parked →
    r.pre.rxbufstat i = .complete ∧ r.post.rxbufstat i = .empty
  /-- an index that stays keeps its deadline and its buffer -/
  keeps : ∀ i ∈ r.pre.parked, i ∈ r.post.parked →
    r.post.quarUntil i = r.pre.quarUntil i ∧ r.post.rxbufstat i = .complete
  /-- when an index comes, and its deadline -/
  parks : ∀ i ∉ r.pre.parked, (i ∈ r.post.parked ↔ Parks gQuarantine r.pre r.ev i) ∧
    ∀ tick, r.ev = .add i tick → i ∈ r.post.parked →
      r.post.quarUntil i = tick + quarTicks ∧ r.post.rxbufstat i = .complete
  /-- a second `quar_add` of an index does nothing -/
  again : ∀ i ∈ r.pre.parked, ∀ tick, r.ev = .add i tick → r.post = r.pre

/-- The index was put into the table with the deadline that it has now, and has been there
since. -/
def ParkedSince (gQuarantine : Bool) (hist : List (Rec Quar QuarEv)) (s : Quar) (i : Index) :
    Prop :=
  Since (fun q => Parks gQuarantine q.pre q.ev i ∧
      ∃ tick, q.ev = .add i tick ∧ s.quarUntil i = tick + quarTicks)
    (fun after => ∀ q ∈ after, i ∈ q.pre.parked ∧ i ∈ q.post.parked) hist

section Step

variable {gQuarantine : Bool} {s : Quar} {ev : QuarEv}

theorem indexOf_eq_some {idx : Int} {i : Index} : indexOf idx = some i ↔ idx = i := by
  unfold indexOf
  split
  · rename_i h
    rw [Option.some.injEq, Fin.ext_iff]
    dsimp only
    omega
  · rename_i h
    simp only [reduceCtorEq, false_iff]
    have := i.isLt
    omega

/-- The two ways of `quar_add`. -/
theorem quarAdd_cases (idx : Int) (tick : Nat) :
    (∃ i : Index, idx = i ∧ Parks gQuarantine s (.add idx tick) i ∧
        quarAdd gQuarantine idx tick s = s.makeRoom.park i tick) ∨
      (∀ i, ¬Parks gQuarantine s (.add idx tick) i) ∧ quarAdd gQuarantine idx tick s = s := by
  unfold quarAdd
  cases hidx : indexOf idx with
  | none =>
      refine .inr ⟨?_, rfl⟩
      rintro i ⟨-, -, -, tick', hev⟩
      injection hev with hev _
      rw [indexOf_eq_some.2 hev] at hidx
      cases hidx
  | some i =>
      have hi := indexOf_eq_some.1 hidx
      dsimp only
      split
      · rename_i hc
        refine .inl ⟨i, hi, ⟨hc.1, hc.2.1, ?_, tick, by rw [hi]⟩, rfl⟩
        exact fun hmem => mem_parked.1 hmem hc.2.2
      · rename_i hc
        refine .inr ⟨?_, rfl⟩
        rintro j ⟨hon, hempty, hfree, tick', hev⟩
        injection hev with hev _
        have hij : i = j := Fin.ext (by omega)
        subst hij
        refine hc ⟨hon, hempty, ?_⟩
        by_contra hne
        exact hfree (mem_parked.2 hne)

theorem moves_park (h : Counted s) {i : Index} {tick : Nat} (hfits : tick + quarTicks < 2 ^ 64)
    (hparks : Parks gQuarantine s (.add i tick) i) :
    Moves gQuarantine ⟨s, .add i tick, s.makeRoom.park i tick⟩ := by
  have hfree := hparks.2.2.1
  obtain ⟨hroom, hless⟩ := h.makeRoom
  -- the index is not put in the place of itself
  have hfree' : i ∉ s.makeRoom.parked := by
    rcases makeRoom_cases h with ⟨-, o, -, heq⟩ | ⟨-, heq⟩
    · have hparked : s.makeRoom.parked = s.parked.erase o := by
        rw [heq]
        exact parked_release
      rw [hparked]
      exact fun hmem => hfree (Finset.mem_of_mem_erase hmem)
    · rw [heq]
      exact hfree
  have hcounted := hroom.park hless hfree' hfits
  have hnoexpiry : ∀ j, ¬Expires s (.add i tick) j := by
    rintro j ⟨t, hev, -⟩
    cases hev
  -- what becomes of an index that is in the table
  have hstays : ∀ j ∈ s.parked,
      if s.parked.card = quarMax ∧ IsOldest s.quarUntil j then
        (s.makeRoom.park i tick).quarUntil j = 0 ∧ (s.makeRoom.park i tick).rxbufstat j = .empty
      else (s.makeRoom.park i tick).quarUntil j = s.quarUntil j ∧
        (s.makeRoom.park i tick).rxbufstat j = .complete := by
    intro j hj
    have hji : j ≠ i := fun heq => hfree (heq ▸ hj)
    obtain ⟨hstat, huntil⟩ := park_other (s := s.makeRoom) hji
    rw [hstat, huntil]
    rcases makeRoom_cases h with ⟨hcard, o, ho, heq⟩ | ⟨hcard, heq⟩
    · have hbuf : s.makeRoom.rxbufstat = (s.release o).rxbufstat := by rw [heq]
      have hdead : s.makeRoom.quarUntil = (s.release o).quarUntil := by rw [heq]
      rw [hbuf, hdead]
      split
      · rename_i hold
        rw [hold.2.unique ho]
        exact ⟨Function.update_self .., rxbufstat_release (h.complete o (mem_parked.2 ho.1))⟩
      · rename_i hyoung
        have hjo : j ≠ o := fun heq => hyoung ⟨hcard, heq ▸ ho⟩
        exact ⟨(release_other hjo).2, (release_other hjo).1.trans (h.complete j hj)⟩
    · rw [if_neg (fun hfull => by omega), heq]
      exact ⟨rfl, h.complete j hj⟩
  constructor
  case count => exact ⟨hcounted.count, hcounted.room⟩
  case release =>
    intro j hj
    have hone := hstays j hj
    rw [mem_parked, not_not]
    dsimp only
    split at hone
    · rename_i hold
      exact iff_of_true hone.1 (.inr ⟨⟨i, hparks⟩, hold⟩)
    · rename_i hyoung
      refine iff_of_false ?_ ?_
      · rw [hone.1]
        exact mem_parked.1 hj
      · rintro (hexp | hcrowd)
        · exact hnoexpiry j hexp
        · exact hyoung hcrowd.2
  case empties =>
    intro j hj hgone
    have hone := hstays j hj
    refine ⟨h.complete j hj, ?_⟩
    split at hone
    · exact hone.2
    · exact absurd (mem_parked.2 (hone.1 ▸ mem_parked.1 hj)) hgone
  case keeps =>
    intro j hj hthere
    have hone := hstays j hj
    split at hone
    · exact absurd hone.1 (mem_parked.1 hthere)
    · exact hone
  case parks =>
    intro j hj
    have hother : j ≠ i → j ∉ (s.makeRoom.park i tick).parked := by
      intro hji
      rw [parked_park hfits, Finset.mem_insert, not_or]
      refine ⟨hji, ?_⟩
      rcases makeRoom_cases h with ⟨-, o, -, heq⟩ | ⟨-, heq⟩
      · have hparked : s.makeRoom.parked = s.parked.erase o := by
          rw [heq]
          exact parked_release
        rw [hparked]
        exact fun hmem => hj (Finset.mem_of_mem_erase hmem)
      · rw [heq]
        exact hj
    by_cases hji : j = i
    · subst hji
      refine ⟨iff_of_true ?_ hparks, ?_⟩
      · dsimp only
        rw [parked_park hfits]
        exact Finset.mem_insert_self ..
      · rintro t hev -
        cases hev
        exact ⟨(park_self hfits).2, (park_self hfits).1⟩
    · refine ⟨iff_of_false (hother hji) ?_, fun t _ hthere => absurd hthere (hother hji)⟩
      rintro ⟨-, -, -, t, hev⟩
      injection hev with hev _
      exact hji (Fin.ext (by omega))
  case again =>
    intro j hj t hev
    injection hev with hev _
    have hij : i = j := Fin.ext (by omega)
    exact absurd (hij ▸ hj) hfree

/-- A step that leaves the table and the parked buffers alone, and that is no expiry and
parks nothing. -/
theorem moves_same {s' : Quar} (hcounted : Counted s')
    (huntil : s'.quarUntil = s.quarUntil)
    (hexp : ∀ i, ¬Expires s ev i) (hno : ∀ i, ¬Parks gQuarantine s ev i)
    (hagain : ∀ i ∈ s.parked, ∀ tick, ev = .add i tick → s' = s) :
    Moves gQuarantine ⟨s, ev, s'⟩ := by
  have hparked : s'.parked = s.parked := by
    unfold Quar.parked
    rw [huntil]
  constructor
  case count => exact ⟨hcounted.count, hcounted.room⟩
  case release =>
    intro i hi
    refine iff_of_false (not_not.2 ?_) ?_
    · dsimp only
      rw [hparked]
      exact hi
    · rintro (hexp' | ⟨⟨j, hj⟩, -⟩)
      · exact hexp i hexp'
      · exact hno j hj
  case empties =>
    intro i hi hgone
    dsimp only at hgone
    rw [hparked] at hgone
    exact absurd hi hgone
  case keeps =>
    intro i _ hthere
    exact ⟨congrFun huntil i, hcounted.complete i hthere⟩
  case parks =>
    intro i hi
    have hout : i ∉ s'.parked := hparked ▸ hi
    exact ⟨iff_of_false hout (hno i), fun _ _ hthere => absurd hthere hout⟩
  case again => exact hagain

theorem moves_expire (h : Counted s) (tick : Nat) :
    Moves gQuarantine ⟨s, .expire tick, quarExpire tick s⟩ := by
  have hcounted : Counted (quarExpire tick s) := h.quarExpire
  have hno : ∀ i, ¬Parks gQuarantine s (.expire tick) i := by
    rintro i ⟨-, -, -, t, hev⟩
    cases hev
  have hone := fun i => @quarExpire_at s tick h i
  constructor
  case count => exact ⟨hcounted.count, hcounted.room⟩
  case release =>
    intro i hi
    have hi' := hone i
    rw [mem_parked, not_not]
    split at hi'
    · rename_i hdue
      exact iff_of_true hi'.1 (.inl ⟨tick, rfl, hdue.2⟩)
    · rename_i hdue
      refine iff_of_false ?_ ?_
      · dsimp only
        rw [hi'.1]
        exact mem_parked.1 hi
      · rintro (⟨t, hev, hle⟩ | ⟨⟨j, hj⟩, -⟩)
        · cases hev
          exact hdue ⟨mem_parked.1 hi, hle⟩
        · exact hno j hj
  case empties =>
    intro i hi hgone
    have hi' := hone i
    refine ⟨h.complete i hi, ?_⟩
    split at hi'
    · exact hi'.2
    · exact absurd (mem_parked.2 (hi'.1 ▸ mem_parked.1 hi)) hgone
  case keeps =>
    intro i hi hthere
    have hi' := hone i
    split at hi'
    · exact absurd hi'.1 (mem_parked.1 hthere)
    · exact ⟨hi'.1, hi'.2.trans (h.complete i hi)⟩
  case parks =>
    intro i hi
    have hout : i ∉ (quarExpire tick s).parked := by
      have hi' := hone i
      rw [mem_parked, not_not] at hi ⊢
      split at hi'
      · exact hi'.1
      · exact hi'.1.trans hi
    exact ⟨iff_of_false hout (hno i), fun _ _ hthere => absurd hthere hout⟩
  case again =>
    intro i _ t hev
    cases hev

/-- The step lemma. -/
theorem moves_step (h : Counted s) (hfits : ev.Fits) :
    Moves gQuarantine ⟨s, ev, quarStep gQuarantine s ev⟩ := by
  cases ev with
  | add idx tick =>
      have hexp : ∀ i, ¬Expires s (.add idx tick) i := by
        rintro i ⟨t, hev, -⟩
        cases hev
      rcases quarAdd_cases (s := s) idx tick with
        ⟨i, rfl, hparks, heq⟩ | ⟨hno, heq⟩
      · have hstep : quarStep gQuarantine s (.add i tick) = s.makeRoom.park i tick := heq
        rw [hstep]
        exact moves_park h hfits hparks
      · have hstep : quarStep gQuarantine s (.add idx tick) = s := heq
        rw [hstep]
        exact moves_same h rfl hexp hno fun _ _ _ _ => rfl
  | expire tick => exact moves_expire h tick
  | soem i stat =>
      have hexp : ∀ j, ¬Expires s (.soem i stat) j := by
        rintro j ⟨t, hev, -⟩
        cases hev
      have hno : ∀ j, ¬Parks gQuarantine s (.soem i stat) j := by
        rintro j ⟨-, -, -, t, hev⟩
        cases hev
      have hstep : quarStep gQuarantine s (.soem i stat) =
          if s.quarUntil i = 0 then { s with rxbufstat := Function.update s.rxbufstat i stat }
          else s := rfl
      rw [hstep]
      split
      · rename_i hfree
        refine moves_same ⟨h.count, h.room, ?_⟩ rfl hexp hno fun _ _ _ hev => by cases hev
        intro j hj
        have hji : j ≠ i := fun heq => mem_parked.1 hj (heq ▸ hfree)
        dsimp only
        rw [Function.update_of_ne hji]
        exact h.complete j hj
      · exact moves_same h rfl hexp hno fun _ _ _ _ => rfl

theorem Moves.counted {s' : Quar} (h : Moves gQuarantine ⟨s, ev, s'⟩) : Counted s' := by
  refine ⟨h.count.1, h.count.2, ?_⟩
  intro i hi
  by_cases hbefore : i ∈ s.parked
  · exact (h.keeps i hbefore hi).2
  · obtain ⟨hiff, hnew⟩ := h.parks i hbefore
    obtain ⟨-, -, -, tick, hev⟩ := hiff.1 hi
    exact (hnew tick hev hi).2

/-- An index in the table after a step was put there by the step, or before it. -/
theorem ParkedSince.step {hist : List (Rec Quar QuarEv)} {s' : Quar}
    (h : ∀ i ∈ s.parked, ParkedSince gQuarantine hist s i)
    (hmoves : Moves gQuarantine ⟨s, ev, s'⟩) {i : Index} (hi : i ∈ s'.parked) :
    ParkedSince gQuarantine (hist ++ [⟨s, ev, s'⟩]) s' i := by
  by_cases hbefore : i ∈ s.parked
  · have hsame := (hmoves.keeps i hbefore hi).1
    dsimp only at hsame
    unfold ParkedSince
    rw [hsame]
    refine Since.concat (h i hbefore) ?_
    intro after hafter q hq
    rcases List.mem_append.1 hq with hq | hq
    · exact hafter q hq
    · rw [List.mem_singleton.1 hq]
      exact ⟨hbefore, hi⟩
  · obtain ⟨hiff, hnew⟩ := hmoves.parks i hbefore
    have hparks := hiff.1 hi
    obtain ⟨-, -, -, tick, hev⟩ := hparks
    exact Since.now hist ⟨hiff.1 hi, tick, hev, (hnew tick hev hi).1⟩ nofun

end Step

theorem counted_start (rxbufstat : Index → BufStat) : Counted (Quar.start rxbufstat) := by
  have hempty : (Quar.start rxbufstat).parked = ∅ := by
    ext i
    simp [mem_parked, Quar.start]
  refine ⟨?_, ?_, ?_⟩
  · rw [hempty]
    rfl
  · exact Int.zero_le_ofNat _
  · intro i hi
    rw [hempty] at hi
    exact absurd hi (Finset.notMem_empty i)

/-- Along every run whose deadlines fit 64 bits, each step moves indices as `Moves` says, and
each index in the table has been there since it was parked, with the deadline of that
parking. -/
theorem quarantine_rule (gQuarantine : Bool) (rxbufstat : Index → BufStat) (es : List QuarEv)
    (hfits : ∀ e ∈ es, e.Fits) :
    Along (quarStep gQuarantine) (Quar.start rxbufstat) es fun hist r =>
      Moves gQuarantine r ∧ ∀ i ∈ r.pre.parked, ParkedSince gQuarantine hist r.pre i := by
  refine Along.of_invariant (C := fun _ r => r.ev.Fits)
    (I := fun hist s => Counted s ∧ ∀ i ∈ s.parked, ParkedSince gQuarantine hist s i)
    ⟨counted_start rxbufstat, ?_⟩ ?_ ?_ (Along.of_forall hfits _)
  · intro i hi
    exact absurd rfl (mem_parked.1 hi)
  · rintro hist s ev ⟨hcounted, hsince⟩ hfit
    have hmoves := @moves_step gQuarantine _ _ hcounted hfit
    exact ⟨hmoves.counted, fun i hi => ParkedSince.step hsince hmoves hi⟩
  · rintro hist s ev ⟨hcounted, hsince⟩ hfit
    exact ⟨moves_step hcounted hfit, hsince⟩

/-- Two indices are parked, one twice, and the first expiry at a deadline takes one out. -/
def twoParked : List QuarEv :=
  [.add 3 10, .add 5 20, .add 3 30, .expire 59, .expire 60, .expire 70]

theorem quarantine_rule_twoParked :
    Along (quarStep true) (Quar.start fun _ => .empty) twoParked fun hist r =>
      Moves true r ∧ ∀ i ∈ r.pre.parked, ParkedSince true hist r.pre i := by
  refine quarantine_rule true (fun _ => .empty) twoParked ?_
  intro e he
  simp only [twoParked, List.mem_cons, List.not_mem_nil, or_false] at he
  rcases he with rfl | rfl | rfl | rfl | rfl | rfl
  · exact (by decide : 10 + quarTicks < 2 ^ 64)
  · exact (by decide : 20 + quarTicks < 2 ^ 64)
  · exact (by decide : 30 + quarTicks < 2 ^ 64)
  · trivial
  · trivial
  · trivial

/-- At a tick of `2 ^ 64 - 50` the deadline is 0: the index counts as parked and is not in the
table, and no expiry takes it out. -/
theorem deadline_wraps :
    let s := run (quarStep true) (Quar.start fun _ => .empty) [.add 3 (2 ^ 64 - 50)]
    let s' := run (quarStep true) s [.expire (2 ^ 64 - 1)]
    s.n = 1 ∧ s.parked = ∅ ∧ s.rxbufstat 3 = .complete ∧ s'.n = 1 ∧ s'.rxbufstat 3 = .complete := by
  decide +kernel

end EcMaster.Quarantine
