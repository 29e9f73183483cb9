import EcMaster.Lib.Run

/-!
# Two-slot hand-offs, one memory access at a time

A producer hands payloads to a consumer through two slots.  Each slot has a flag
that says whose it is: `0` the producer's, `1` the consumer's.  The producer takes
a slot that is free, fills it, numbers it and raises its flag; the consumer takes
the full slot with the lower number, copies it and lowers the flag.  Numbers are
64-bit.

The producer either hands over a payload in one call (`put`), or asks for a slot
(`begin`), fills it in place (`fill`) and hands it over later (`commit`).

Every load and store of a flag, every access to a number and every word of a
payload is a step, and a run is any list of steps of the two sides.  For the
statements the state records the payloads handed over (`committed`), for each
payload obtained the hand-over it is of (`got`), and for each call that found
nothing to do whether both slots really were in use (`refused`), or free
(`empties`), when it began.

`Inv` says what each flag promises; it holds in every run.  `Ordered`, that
payloads are obtained in the order of the hand-overs, needs numbers that have
not wrapped.
-/

namespace EcMaster.TwoSlot

open EcMaster.Run

/-- The code of one hand-off. -/
structure Handoff where
  /-- the words of a payload -/
  words : Nat
  /-- whether it has the calls `begin` and `commit` -/
  split : Bool

/-- A payload: its words. -/
abbrev Handoff.Payload (h : Handoff) (β : Type) : Type := Fin h.words → β

/-- Where the producer is.  Slot `0` is `false`. -/
inductive Producer (h : Handoff) (β : Type) where
  | idle
  /-- the slot it tried first is in use; `both`: so was the other one then -/
  | second (job : Option (h.Payload β)) (both : Bool)
  /-- `j` words are copied into slot `k` -/
  | copy (p : h.Payload β) (k : Bool) (j : Nat)
  /-- slot `k` is filled with `v` and numbered -/
  | publish (k : Bool) (v : h.Payload β)

/-- Where the consumer is. -/
inductive Consumer where
  | idle
  /-- the first flag is loaded; `both`: both slots were free then -/
  | second (f0 both : Bool)
  /-- of the flags, only that of `k` was up -/
  | reload (k : Bool)
  /-- both slots are full -/
  | number0
  | number1 (n0 : Nat)
  /-- `j` words are copied from slot `k` -/
  | copy (k : Bool) (j : Nat)

/-- The hand-off, both program counters, and what was handed over and obtained. -/
structure State (h : Handoff) (β : Type) where
  state : Bool → Nat
  putSeq : Bool → Nat
  slot : Bool → h.Payload β
  drops : Nat
  puts : Nat
  nextPut : Bool
  opened : Option Bool
  prod : Producer h β
  cons : Consumer
  /-- the consumer's destination -/
  out : h.Payload β
  committed : List (h.Payload β)
  /-- which hand-over a full slot is of -/
  idx : Bool → Nat
  got : List (Nat × h.Payload β)
  refused : List Bool
  empties : List Bool

/-- One step of an interleaving.  A side that is idle begins the given call; a
side that is busy goes on with the call it is in. -/
inductive Ev (h : Handoff) (β : Type) where
  | put (p : h.Payload β)
  | begin
  | fill (j : Fin h.words) (x : β)
  | commit
  | get

variable {h : Handoff} {β : Type}

/-- Two free slots. -/
def start (h : Handoff) (zero : β) : State h β where
  state := fun _ => 0
  putSeq := fun _ => 0
  slot := fun _ _ => zero
  drops := 0
  puts := 0
  nextPut := false
  opened := none
  prod := .idle
  cons := .idle
  out := fun _ => zero
  committed := []
  idx := fun _ => 0
  got := []
  refused := []
  empties := []

/-! ## The producer -/

/-- Slot `k` is free: it is filled by the call, or by the caller. -/
def choose (s : State h β) (k : Bool) (job : Option (h.Payload β)) : State h β :=
  match job with
  | some p => { s with opened := some k, prod := .copy p k 0 }
  | none => { s with opened := some k, prod := .idle }

/-- The first load of the search for a free slot. -/
def search (s : State h β) (job : Option (h.Payload β)) : State h β :=
  if s.state s.nextPut ≠ 0 then
    { s with prod := .second job (s.state (!s.nextPut) ≠ 0) }
  else choose s s.nextPut job

/-- `put_seq[k] = ++puts`. -/
def number (s : State h β) (k : Bool) (v : h.Payload β) : State h β :=
  let n := (s.puts + 1) % 2 ^ 64
  { s with puts := n, putSeq := Function.update s.putSeq k n, prod := .publish k v }

/-- A word of slot `k`. -/
def setWord (s : State h β) (k : Bool) (j : Fin h.words) (x : β) : State h β :=
  { s with slot := Function.update s.slot k (Function.update (s.slot k) j x) }

/-- A step of the producer: it goes on, or begins a call. -/
def produce (s : State h β) (call : Ev h β) : State h β :=
  match s.prod with
  | .idle =>
      match call with
      | .put p => search s (some p)
      | .begin => if h.split then search s none else s
      | .fill j x =>
          match s.opened with
          | some k => if h.split then setWord s k j x else s
          | none => s
      | .commit =>
          match s.opened with
          | some k => if h.split then number s k (s.slot k) else s
          | none => s
      | .get => s
  | .second job both =>
      if s.state (!s.nextPut) ≠ 0 then
        { s with
          drops := (s.drops + 1) % 2 ^ 64, opened := none, prod := .idle
          refused := s.refused ++ [both] }
      else choose s (!s.nextPut) job
  | .copy p k j =>
      if hj : j < h.words then
        { setWord s k ⟨j, hj⟩ (p ⟨j, hj⟩) with prod := .copy p k (j + 1) }
      else number s k p
  | .publish k v =>
      { s with
        state := Function.update s.state k 1
        nextPut := !k
        opened := none
        prod := .idle
        committed := s.committed ++ [v]
        idx := Function.update s.idx k s.committed.length }

/-! ## The consumer -/

/-- A step of the consumer. -/
def consume (s : State h β) : State h β :=
  match s.cons with
  | .idle =>
      { s with cons := .second (s.state false = 1) (s.state false = 0 ∧ s.state true = 0) }
  | .second f0 both =>
      if s.state true = 1 then
        { s with cons := if f0 then .number0 else .reload true }
      else if f0 then { s with cons := .reload false }
      else { s with cons := .idle, empties := s.empties ++ [both] }
  | .reload k =>
      { s with cons := if s.state (!k) = 1 then .number0 else .copy k 0 }
  | .number0 => { s with cons := .number1 (s.putSeq false) }
  | .number1 n0 =>
      { s with cons := .copy (if n0 < s.putSeq true then false else true) 0 }
  | .copy k j =>
      if hj : j < h.words then
        { s with
          out := Function.update s.out ⟨j, hj⟩ (s.slot k ⟨j, hj⟩)
          cons := .copy k (j + 1) }
      else
        { s with
          state := Function.update s.state k 0
          cons := .idle
          got := s.got ++ [(s.idx k, s.out)] }

/-- A step of the interleaving. -/
def step (s : State h β) : Ev h β → State h β
  | .get => consume s
  | call => produce s call

/-- A step is one of the consumer's or one of the producer's. -/
theorem step_cases (s : State h β) (ev : Ev h β) :
    step s ev = consume s ∨ step s ev = produce s ev := by
  cases ev with
  | get => exact .inl rfl
  | put p => exact .inr rfl
  | begin => exact .inr rfl
  | fill j x => exact .inr rfl
  | commit => exact .inr rfl

/-! ## The invariant -/

/-- Slot `k` is the producer's. -/
def Producer.Owns (state : Bool → Nat) : Producer h β → Prop
  | .copy _ k _ => state k = 0
  | .publish k _ => state k = 0
  | _ => True

/-- The work on a slot that the producer has finished. -/
def Producer.Done (s : State h β) : Producer h β → Prop
  | .copy p k j => ∀ i : Fin h.words, i.1 < j → s.slot k i = p i
  | .publish k v => s.slot k = v ∧ s.putSeq k = s.puts
  | _ => True

/-- The number of hand-overs that are numbered and not yet visible. -/
def Producer.pending : Producer h β → Nat
  | .publish _ _ => 1
  | _ => 0

/-- The second slot in use means that both were. -/
def Producer.Saw (s : State h β) : Producer h β → Prop
  | .second _ both => s.state (!s.nextPut) ≠ 0 → both = true
  | _ => True

/-- The slots that the consumer is about to read are its own. -/
def Consumer.Owns (state : Bool → Nat) : Consumer → Prop
  | .second f0 both => (f0 = true → state false = 1) ∧
      (f0 = false → state true = 0 → both = true)
  | .reload k => state k = 1
  | .number0 => ∀ k, state k = 1
  | .number1 _ => ∀ k, state k = 1
  | .copy k _ => state k = 1
  | .idle => True

/-- What the consumer has read. -/
def Consumer.Done (s : State h β) : Consumer → Prop
  | .number1 n0 => n0 = s.putSeq false
  | .copy k j => ∀ i : Fin h.words, i.1 < j → s.out i = s.slot k i
  | _ => True

structure Inv (s : State h β) : Prop where
  /-- a flag is up or down -/
  flag : ∀ k, s.state k = 0 ∨ s.state k = 1
  /-- a full slot holds the hand-over it was numbered for -/
  full : ∀ k, s.state k = 1 →
    s.committed[s.idx k]? = some (s.slot k) ∧ s.putSeq k = (s.idx k + 1) % 2 ^ 64 ∧
      s.idx k ∉ s.got.map (·.1)
  apart : s.state false = 1 → s.state true = 1 → s.idx false ≠ s.idx true
  got : ∀ p ∈ s.got, s.committed[p.1]? = some p.2
  nodup : (s.got.map (·.1)).Nodup
  count : s.committed.length = s.got.length + s.state false + s.state true
  puts : s.puts = (s.committed.length + s.prod.pending) % 2 ^ 64
  opened : ∀ k, s.opened = some k → s.state k = 0
  prodOwns : s.prod.Owns s.state
  prodDone : s.prod.Done s
  prodSaw : s.prod.Saw s
  consOwns : s.cons.Owns s.state
  consDone : s.cons.Done s
  refused : ∀ b ∈ s.refused, b = true
  empties : ∀ b ∈ s.empties, b = true

theorem inv_start (zero : β) : Inv (start h zero) := by
  constructor <;>
    simp [start, Producer.Owns, Producer.Done, Producer.pending, Producer.Saw, Consumer.Owns,
      Consumer.Done]

/-! ## The producer keeps it -/

theorem Producer.Done.congr {s s' : State h β} {p : Producer h β} (hp : p.Done s)
    (hslot : s'.slot = s.slot) (hseq : s'.putSeq = s.putSeq) (hputs : s'.puts = s.puts) :
    p.Done s' := by
  cases p with
  | copy p k j =>
    intro i hi
    rw [hslot]
    exact hp i hi
  | publish k v =>
    refine ⟨hslot ▸ hp.1, ?_⟩
    rw [hseq, hputs]
    exact hp.2
  | idle => trivial
  | second job both => trivial

theorem Producer.Saw.congr {s s' : State h β} {p : Producer h β} (hp : p.Saw s)
    (hnext : s'.nextPut = s.nextPut) (hstate : ∀ k, s.state k = 0 → s'.state k = 0) :
    p.Saw s' := by
  cases p with
  | second job both =>
    intro hused
    rw [hnext] at hused
    exact hp fun hfree => hused (hstate _ hfree)
  | idle => trivial
  | copy p k j => trivial
  | publish k v => trivial

/-- The consumer does not look at a slot that is the producer's. -/
theorem Consumer.Done.congr {s s' : State h β} {c : Consumer} (hc : c.Done s)
    (howns : c.Owns s.state) (hout : s'.out = s.out)
    (hslot : ∀ k, s.state k = 1 → s'.slot k = s.slot k)
    (hseq : ∀ k, s.state k = 1 → s'.putSeq k = s.putSeq k) : c.Done s' := by
  cases c with
  | number1 n0 => exact hc.trans (hseq false (howns false)).symm
  | copy k j =>
    intro i hi
    rw [hout, hslot k howns]
    exact hc i hi
  | idle => trivial
  | second f0 both => trivial
  | reload k => trivial
  | number0 => trivial

/-- A step of the producer that changes no slot and no flag. -/
theorem Inv.setProd {s : State h β} (hs : Inv s) {p : Producer h β} {o : Option Bool}
    (hpending : p.pending = s.prod.pending) (ho : ∀ k, o = some k → s.state k = 0)
    (howns : p.Owns s.state) (hdone : p.Done s) (hsaw : p.Saw s) :
    Inv { s with opened := o, prod := p } := by
  refine { hs with
    puts := ?_
    opened := ho
    prodOwns := howns
    prodDone := hdone.congr rfl rfl rfl
    prodSaw := hsaw.congr rfl fun _ => id
    consDone := hs.consDone.congr hs.consOwns rfl (fun _ _ => rfl) fun _ _ => rfl }
  show s.puts = (s.committed.length + p.pending) % 2 ^ 64
  rw [hpending]
  exact hs.puts

theorem inv_choose {s : State h β} (hs : Inv s) (hpending : s.prod.pending = 0) {k : Bool}
    (hk : s.state k = 0) (job : Option (h.Payload β)) : Inv (choose s k job) := by
  have ho : ∀ k', some k = some k' → s.state k' = 0 := by
    rintro k' ⟨⟩
    exact hk
  cases job with
  | none => exact hs.setProd hpending.symm ho trivial trivial trivial
  | some p =>
    refine hs.setProd hpending.symm ho hk ?_ trivial
    intro i hi
    omega

theorem inv_search {s : State h β} (hs : Inv s) (hidle : s.prod = .idle)
    (job : Option (h.Payload β)) : Inv (search s job) := by
  have hpending : s.prod.pending = 0 := by rw [hidle]; rfl
  unfold search
  split
  next =>
    refine hs.setProd hpending.symm hs.opened trivial trivial ?_
    intro hne
    simpa using hne
  next hfree => exact inv_choose hs hpending (by simpa using hfree) job

/-- A word is written into a slot that is the producer's. -/
theorem inv_setWord {s : State h β} (hs : Inv s) {k : Bool} (hk : s.state k = 0)
    (j : Fin h.words) (x : β) {p : Producer h β} (hpending : p.pending = s.prod.pending)
    (howns : p.Owns s.state) (hdone : p.Done (setWord s k j x)) (hsaw : p.Saw s) :
    Inv { setWord s k j x with prod := p } := by
  have hslot : ∀ k', s.state k' = 1 → (setWord s k j x).slot k' = s.slot k' := by
    intro k' hk'
    have hne : k' ≠ k := by
      rintro rfl
      omega
    exact Function.update_of_ne hne _ _
  refine { hs with
    full := fun k' hk' => ?_
    puts := ?_
    prodOwns := howns
    prodDone := hdone.congr rfl rfl rfl
    prodSaw := hsaw.congr rfl fun _ => id
    consDone := hs.consDone.congr hs.consOwns rfl hslot fun _ _ => rfl }
  · have hfull := hs.full k' hk'
    rw [← hslot k' hk'] at hfull
    exact hfull
  · show s.puts = (s.committed.length + p.pending) % 2 ^ 64
    rw [hpending]
    exact hs.puts

/-- A filled slot is numbered. -/
theorem inv_number {s : State h β} (hs : Inv s) (hpending : s.prod.pending = 0) {k : Bool}
    (hk : s.state k = 0) {v : h.Payload β} (hv : s.slot k = v) : Inv (number s k v) := by
  have hseq : ∀ k', s.state k' = 1 → (number s k v).putSeq k' = s.putSeq k' := by
    intro k' hk'
    have hne : k' ≠ k := by
      rintro rfl
      omega
    exact Function.update_of_ne hne _ _
  refine { hs with
    full := fun k' hk' => ?_
    puts := ?_
    prodOwns := hk
    prodDone := ⟨hv, ?_⟩
    prodSaw := trivial
    consDone := hs.consDone.congr hs.consOwns rfl (fun _ _ => rfl) hseq }
  · have hfull := hs.full k' hk'
    rw [← hseq k' hk'] at hfull
    exact hfull
  · show (s.puts + 1) % 2 ^ 64 = (s.committed.length + 1) % 2 ^ 64
    rw [hs.puts, hpending]
    omega
  · exact Function.update_self _ _ _

/-- Raising a flag takes nothing from the consumer. -/
theorem Consumer.Owns.raise {state : Bool → Nat} {c : Consumer} (hc : c.Owns state) (k : Bool) :
    c.Owns (Function.update state k 1) := by
  have hup : ∀ k', state k' = 1 → Function.update state k 1 k' = 1 := by
    intro k' hk'
    by_cases hkk : k' = k
    · rw [hkk, Function.update_self]
    · rw [Function.update_of_ne hkk, hk']
  cases c with
  | idle => trivial
  | second f0 both =>
    refine ⟨fun hf => hup false (hc.1 hf), fun hf hfree => hc.2 hf ?_⟩
    cases k with
    | true => simp at hfree
    | false => simpa using hfree
  | reload k' => exact hup k' hc
  | number0 => exact fun k' => hup k' (hc k')
  | number1 n0 => exact fun k' => hup k' (hc k')
  | copy k' j => exact hup k' hc

/-- The payload becomes the consumer's. -/
theorem inv_publish {s : State h β} (hs : Inv s) {k : Bool} {v : h.Payload β}
    (hpc : s.prod = .publish k v) (call : Ev h β) : Inv (produce s call) := by
  have hk : s.state k = 0 := by
    have := hs.prodOwns
    rwa [hpc] at this
  obtain ⟨hv, hnumber⟩ : s.slot k = v ∧ s.putSeq k = s.puts := by
    have := hs.prodDone
    rwa [hpc] at this
  have hputs : s.puts = (s.committed.length + 1) % 2 ^ 64 := by
    have := hs.puts
    rwa [hpc] at this
  have hold : ∀ {i p}, s.committed[i]? = some p → i < s.committed.length ∧
      (s.committed ++ [v])[i]? = some p := by
    intro i p hi
    obtain ⟨hlt, -⟩ := List.getElem?_eq_some_iff.1 hi
    exact ⟨hlt, by rw [List.getElem?_append_left hlt, hi]⟩
  have hother : ∀ k', k' ≠ k → Function.update s.state k 1 k' = 1 → s.state k' = 1 := by
    intro k' hne hfull
    rwa [Function.update_of_ne hne] at hfull
  have heq : produce s call = { s with
      state := Function.update s.state k 1
      nextPut := !k
      opened := none
      prod := .idle
      committed := s.committed ++ [v]
      idx := Function.update s.idx k s.committed.length } := by
    unfold produce
    rw [hpc]
  rw [heq]
  refine { hs with
    flag := fun k' => ?_
    full := fun k' hfull => ?_
    apart := ?_
    got := fun p hp => (hold (hs.got p hp)).2
    count := ?_
    puts := ?_
    opened := fun k' hk' => by cases hk'
    prodOwns := trivial
    prodDone := trivial
    prodSaw := trivial
    consOwns := hs.consOwns.raise k
    consDone := hs.consDone.congr hs.consOwns rfl (fun _ _ => rfl) fun _ _ => rfl }
  · by_cases hkk : k' = k
    · exact .inr (by rw [hkk]; exact Function.update_self _ _ _)
    · have := hs.flag k'
      simpa [Function.update_of_ne hkk] using this
  · by_cases hkk : k' = k
    · subst hkk
      refine ⟨?_, ?_, ?_⟩
      · simp [hv]
      · show s.putSeq k' = (Function.update s.idx k' s.committed.length k' + 1) % 2 ^ 64
        rw [Function.update_self, hnumber, hputs]
      · show Function.update s.idx k' s.committed.length k' ∉ s.got.map (·.1)
        rw [Function.update_self]
        intro hmem
        obtain ⟨p, hp, heq⟩ := List.mem_map.1 hmem
        have hlt := (hold (hs.got p hp)).1
        omega
    · have hfull' := hs.full k' (hother k' hkk hfull)
      have hidx : Function.update s.idx k s.committed.length k' = s.idx k' :=
        Function.update_of_ne hkk _ _
      simp only [hidx]
      exact ⟨(hold hfull'.1).2, hfull'.2⟩
  · intro h0 h1
    -- the slot that was full holds an older hand-over
    cases k with
    | false =>
      have hlt := (hold (hs.full true (hother true (by simp) h1)).1).1
      simp
      omega
    | true =>
      have hlt := (hold (hs.full false (hother false (by simp) h0)).1).1
      simp
      omega
  · have hcount := hs.count
    cases k with
    | false => simp [hcount, hk]; omega
    | true => simp [hcount, hk]
  · show s.puts = ((s.committed ++ [v]).length + 0) % 2 ^ 64
    rw [hputs, List.length_append, List.length_singleton, Nat.add_zero]

/-- Every step of the producer keeps the invariant. -/
theorem inv_produce {s : State h β} (hs : Inv s) (call : Ev h β) : Inv (produce s call) := by
  cases hpc : s.prod with
  | idle =>
    have hpending : s.prod.pending = 0 := by rw [hpc]; rfl
    unfold produce
    rw [hpc]
    cases call with
    | put p => exact inv_search hs hpc (some p)
    | begin =>
      dsimp only
      split
      next => exact inv_search hs hpc none
      next => exact hs
    | fill j x =>
      cases ho : s.opened with
      | none => exact hs
      | some k =>
        dsimp only
        split
        next =>
          have hword := inv_setWord hs (hs.opened k ho) j x (p := .idle) hpending.symm trivial
            trivial trivial
          rw [← hpc] at hword
          exact hword
        next => exact hs
    | commit =>
      cases ho : s.opened with
      | none => exact hs
      | some k =>
        dsimp only
        split
        next => exact inv_number hs hpending (hs.opened k ho) rfl
        next => exact hs
    | get => exact hs
  | second job both =>
    have hpending : s.prod.pending = 0 := by rw [hpc]; rfl
    have hsaw : s.state (!s.nextPut) ≠ 0 → both = true := by
      have := hs.prodSaw
      rwa [hpc] at this
    unfold produce
    rw [hpc]
    dsimp only
    split
    next hused =>
      have hprod := hs.setProd (p := .idle) (o := none) hpending.symm (by simp) trivial trivial
        trivial
      refine { hprod with refused := fun b hb => ?_ }
      rcases List.mem_append.1 hb with hb | hb
      · exact hs.refused b hb
      · rw [List.mem_singleton.1 hb]
        exact hsaw hused
    next hfree => exact inv_choose hs hpending (by simpa using hfree) job
  | copy p k j =>
    have hpending : s.prod.pending = 0 := by rw [hpc]; rfl
    have hk : s.state k = 0 := by
      have := hs.prodOwns
      rwa [hpc] at this
    have hdone : ∀ i : Fin h.words, i.1 < j → s.slot k i = p i := by
      have := hs.prodDone
      rwa [hpc] at this
    unfold produce
    rw [hpc]
    dsimp only
    split
    next hj =>
      refine inv_setWord hs hk ⟨j, hj⟩ (p ⟨j, hj⟩) (p := .copy p k (j + 1)) hpending.symm hk ?_
        trivial
      intro i hi
      show Function.update s.slot k (Function.update (s.slot k) ⟨j, hj⟩ (p ⟨j, hj⟩)) k i = p i
      rw [Function.update_self]
      by_cases hij : i = ⟨j, hj⟩
      · subst hij
        simp
      · have hne : i.1 ≠ j := fun heq => hij (Fin.ext heq)
        rw [Function.update_of_ne hij]
        exact hdone i (by omega)
    next hj => exact inv_number hs hpending hk (funext fun i => hdone i (by omega))
  | publish k v => exact inv_publish hs hpc call

/-! ## The consumer keeps it -/

/-- A step of the consumer that only loads. -/
theorem Inv.setCons {s : State h β} (hs : Inv s) {c : Consumer} (howns : c.Owns s.state)
    (hdone : c.Done s) : Inv { s with cons := c } := by
  refine { hs with
    prodDone := hs.prodDone.congr rfl rfl rfl
    prodSaw := hs.prodSaw.congr rfl fun _ => id
    consOwns := howns
    consDone := hdone.congr howns rfl (fun _ _ => rfl) fun _ _ => rfl }

/-- Two full slots are of different hand-overs. -/
theorem Inv.idx_ne {s : State h β} (hs : Inv s) {k k' : Bool} (hne : k' ≠ k)
    (hk' : s.state k' = 1) (hk : s.state k = 1) : s.idx k' ≠ s.idx k := by
  cases k with
  | false =>
    obtain rfl : k' = true := Bool.eq_not.2 hne
    exact (hs.apart hk hk').symm
  | true =>
    obtain rfl : k' = false := Bool.eq_not.2 hne
    exact hs.apart hk' hk

/-- The copy is whole, and the slot becomes the producer's. -/
theorem inv_release {s : State h β} (hs : Inv s) {k : Bool} {j : Nat}
    (hpc : s.cons = .copy k j) (hj : ¬ j < h.words) :
    Inv { s with
      state := Function.update s.state k 0
      cons := .idle
      got := s.got ++ [(s.idx k, s.out)] } := by
  have hk : s.state k = 1 := by
    have := hs.consOwns
    rwa [hpc] at this
  have hout : s.out = s.slot k := by
    have hdone := hs.consDone
    rw [hpc] at hdone
    exact funext fun i => hdone i (by omega)
  obtain ⟨hpayload, -, hfresh⟩ := hs.full k hk
  have hlower : ∀ k', s.state k' = 0 → Function.update s.state k 0 k' = 0 := by
    intro k' hk'
    by_cases hkk : k' = k
    · rw [hkk, Function.update_self]
    · rw [Function.update_of_ne hkk, hk']
  have hother : ∀ k', Function.update s.state k 0 k' = 1 → k' ≠ k ∧ s.state k' = 1 := by
    intro k' hfull
    have hne : k' ≠ k := by
      rintro rfl
      rw [Function.update_self] at hfull
      omega
    exact ⟨hne, by rwa [Function.update_of_ne hne] at hfull⟩
  refine { hs with
    flag := fun k' => ?_
    full := fun k' hfull => ?_
    apart := fun h0 h1 => ?_
    got := fun p hp => ?_
    nodup := ?_
    count := ?_
    opened := fun k' hk' => hlower k' (hs.opened k' hk')
    prodOwns := ?_
    prodDone := hs.prodDone.congr rfl rfl rfl
    prodSaw := hs.prodSaw.congr rfl hlower
    consOwns := trivial
    consDone := trivial }
  · by_cases hkk : k' = k
    · exact .inl (by rw [hkk]; exact Function.update_self _ _ _)
    · have := hs.flag k'
      simpa [Function.update_of_ne hkk] using this
  · obtain ⟨hne, hfull⟩ := hother k' hfull
    obtain ⟨hpayload', hnumber', hfresh'⟩ := hs.full k' hfull
    refine ⟨hpayload', hnumber', ?_⟩
    have hidx := hs.idx_ne hne hfull hk
    simp only [List.map_append, List.mem_append, List.map_cons, List.map_nil,
      List.mem_singleton, not_or]
    exact ⟨hfresh', hidx⟩
  · -- one of the two flags has just been lowered
    have h0 := (hother false h0).1
    have h1 := (hother true h1).1
    cases k <;> simp at h0 h1
  · rcases List.mem_append.1 hp with hp | hp
    · exact hs.got p hp
    · rw [List.mem_singleton.1 hp, hout]
      exact hpayload
  · rw [List.map_append]
    exact List.nodup_append.2 ⟨hs.nodup, by simp, by
      rintro a ha b hb rfl
      simp only [List.map_cons, List.map_nil, List.mem_singleton] at hb
      exact hfresh (hb ▸ ha)⟩
  · have hcount := hs.count
    cases k with
    | false => simp [hcount, hk]
    | true => simp [hcount, hk]; omega
  · have hprod := hs.prodOwns
    cases hp : s.prod with
    | copy p k' j' => rw [hp] at hprod; exact hlower k' hprod
    | publish k' v => rw [hp] at hprod; exact hlower k' hprod
    | idle => trivial
    | second job both => trivial

/-- Every step of the consumer keeps the invariant. -/
theorem inv_consume {s : State h β} (hs : Inv s) : Inv (consume s) := by
  have howns := hs.consOwns
  have hdone := hs.consDone
  unfold consume
  split
  next =>
    refine hs.setCons ⟨fun hf => by simpa using hf, fun hf hfree => ?_⟩ trivial
    have h0 : s.state false = 0 := (hs.flag false).resolve_right (by simpa using hf)
    simp [h0, hfree]
  next f0 both hpc =>
    rw [hpc] at howns
    split
    next hfull =>
      cases hf : f0 with
      | true =>
        refine hs.setCons (fun k => ?_) trivial
        cases k with
        | false => exact howns.1 hf
        | true => exact hfull
      | false => exact hs.setCons hfull trivial
    next hfree =>
      split
      next hf => exact hs.setCons (howns.1 hf) trivial
      next hf =>
        have hidle := hs.setCons (c := .idle) trivial trivial
        refine { hidle with empties := fun b hb => ?_ }
        rcases List.mem_append.1 hb with hb | hb
        · exact hs.empties b hb
        · rw [List.mem_singleton.1 hb]
          exact howns.2 (by simpa using hf) ((hs.flag true).resolve_right hfree)
  next k hpc =>
    rw [hpc] at howns
    have hk : s.state k = 1 := howns
    by_cases hfull : s.state (!k) = 1
    · rw [if_pos hfull]
      refine hs.setCons (fun k' => ?_) trivial
      by_cases hkk : k' = k
      · exact hkk ▸ hk
      · have heq : k' = !k := Bool.eq_not.2 hkk
        exact heq ▸ hfull
    · rw [if_neg hfull]
      refine hs.setCons hk fun i hi => ?_
      omega
  next hpc =>
    rw [hpc] at howns
    exact hs.setCons howns rfl
  next n0 hpc =>
    rw [hpc] at howns
    refine hs.setCons (howns _) fun i hi => ?_
    omega
  next k j hpc =>
    rw [hpc] at howns hdone
    split
    next hj =>
      have hcopy := hs.setCons (c := .copy k j) howns hdone
      refine { hcopy with
        prodDone := hs.prodDone.congr rfl rfl rfl
        prodSaw := hs.prodSaw.congr rfl fun _ => id
        consOwns := howns
        consDone := fun i hi => ?_ }
      by_cases hij : i = ⟨j, hj⟩
      · subst hij
        simp
      · have hne : i.1 ≠ j := fun heq => hij (Fin.ext heq)
        simp only [Function.update_of_ne hij]
        exact hdone i (by omega)
    next hj => exact inv_release hs hpc hj

theorem inv_step {s : State h β} (hs : Inv s) (ev : Ev h β) : Inv (step s ev) := by
  rcases step_cases s ev with heq | heq <;> rw [heq]
  · exact inv_consume hs
  · exact inv_produce hs ev

/-! ## The order -/

/-- The payloads obtained are those of the first hand-overs, in their order, and
the one that is being copied is next. -/
structure Ordered (s : State h β) : Prop where
  got : s.got.map (·.1) = List.range s.got.length
  full : ∀ k, s.state k = 1 → s.got.length ≤ s.idx k
  next : ∀ k j, s.cons = .copy k j → s.idx k = s.got.length

theorem Inv.idx_lt {s : State h β} (hs : Inv s) {k : Bool} (hk : s.state k = 1) :
    s.idx k < s.committed.length :=
  (List.getElem?_eq_some_iff.1 (hs.full k hk).1).1

/-- What the producer does to the record: it may hand one more payload over. -/
theorem produce_frame (s : State h β) (call : Ev h β) :
    (produce s call).got = s.got ∧ (produce s call).cons = s.cons ∧
      (((produce s call).state = s.state ∧ (produce s call).idx = s.idx ∧
          (produce s call).committed = s.committed) ∨
        ∃ k v, s.prod = .publish k v ∧ (produce s call).state = Function.update s.state k 1 ∧
          (produce s call).idx = Function.update s.idx k s.committed.length ∧
          (produce s call).committed = s.committed ++ [v]) := by
  have hchoose : ∀ k job, (choose s k job).got = s.got ∧ (choose s k job).cons = s.cons ∧
      (choose s k job).state = s.state ∧ (choose s k job).idx = s.idx ∧
      (choose s k job).committed = s.committed := by
    intro k job
    cases job <;> exact ⟨rfl, rfl, rfl, rfl, rfl⟩
  have hsearch : ∀ job, (search s job).got = s.got ∧ (search s job).cons = s.cons ∧
      (search s job).state = s.state ∧ (search s job).idx = s.idx ∧
      (search s job).committed = s.committed := by
    intro job
    unfold search
    split
    next => exact ⟨rfl, rfl, rfl, rfl, rfl⟩
    next => exact hchoose _ _
  unfold produce
  split
  next =>
    split
    next => exact (hsearch _).imp id (.imp id .inl)
    next =>
      split
      next => exact (hsearch _).imp id (.imp id .inl)
      next => exact ⟨rfl, rfl, .inl ⟨rfl, rfl, rfl⟩⟩
    next =>
      repeat' split
      all_goals exact ⟨rfl, rfl, .inl ⟨rfl, rfl, rfl⟩⟩
    next =>
      repeat' split
      all_goals exact ⟨rfl, rfl, .inl ⟨rfl, rfl, rfl⟩⟩
    next => exact ⟨rfl, rfl, .inl ⟨rfl, rfl, rfl⟩⟩
  next =>
    split
    next => exact ⟨rfl, rfl, .inl ⟨rfl, rfl, rfl⟩⟩
    next => exact (hchoose _ _).imp id (.imp id .inl)
  next =>
    split
    next => exact ⟨rfl, rfl, .inl ⟨rfl, rfl, rfl⟩⟩
    next => exact ⟨rfl, rfl, .inl ⟨rfl, rfl, rfl⟩⟩
  next k v hpc => exact ⟨rfl, rfl, .inr ⟨k, v, hpc, rfl, rfl, rfl⟩⟩

theorem Ordered.produce {s : State h β} (ho : Ordered s) (hs : Inv s) (call : Ev h β) :
    Ordered (produce s call) := by
  obtain ⟨hgot, hcons, ⟨hstate, hidx, -⟩ | ⟨k, v, hpc, hstate, hidx, -⟩⟩ := produce_frame s call
  · constructor
    · rw [hgot]
      exact ho.got
    · rw [hstate, hidx, hgot]
      exact ho.full
    · rw [hcons, hidx, hgot]
      exact ho.next
  · have hk : s.state k = 0 := by
      have := hs.prodOwns
      rwa [hpc] at this
    constructor
    · rw [hgot]
      exact ho.got
    · rw [hstate, hidx, hgot]
      intro k' hfull
      by_cases hkk : k' = k
      · rw [hkk, Function.update_self, hs.count]
        omega
      · rw [Function.update_of_ne hkk] at hfull ⊢
        exact ho.full k' hfull
    · rw [hcons, hidx, hgot]
      intro k' j hcopy
      have hne : k' ≠ k := by
        rintro rfl
        have howns := hs.consOwns
        rw [hcopy] at howns
        exact absurd (howns.symm.trans hk) (by decide)
      rw [Function.update_of_ne hne]
      exact ho.next k' j hcopy

/-- The only full slot is next. -/
theorem Ordered.only {s : State h β} (ho : Ordered s) (hs : Inv s) {k : Bool}
    (hk : s.state k = 1) (hother : s.state (!k) ≠ 1) : s.idx k = s.got.length := by
  have hlt := hs.idx_lt hk
  have hle := ho.full k hk
  have hcount := hs.count
  have hzero := (hs.flag (!k)).resolve_right hother
  cases k <;> simp_all <;> omega

/-- Of two full slots, the one with the lower number is next, as long as the
numbers have not wrapped. -/
theorem Ordered.lower {s : State h β} (ho : Ordered s) (hs : Inv s)
    (hfew : s.committed.length < 2 ^ 64) (hboth : ∀ k, s.state k = 1) :
    s.idx (if s.putSeq false < s.putSeq true then false else true) = s.got.length := by
  have hcount := hs.count
  have hapart := hs.apart (hboth false) (hboth true)
  have hlt0 := hs.idx_lt (hboth false)
  have hlt1 := hs.idx_lt (hboth true)
  have hle0 := ho.full false (hboth false)
  have hle1 := ho.full true (hboth true)
  rw [hboth false, hboth true] at hcount
  rw [(hs.full false (hboth false)).2.1, (hs.full true (hboth true)).2.1,
    Nat.mod_eq_of_lt (by omega), Nat.mod_eq_of_lt (by omega)]
  split <;> omega

theorem Ordered.setCons {s : State h β} (ho : Ordered s) {c : Consumer}
    (hc : ∀ k j, c = .copy k j → s.idx k = s.got.length) : Ordered { s with cons := c } :=
  ⟨ho.got, ho.full, hc⟩

theorem Ordered.consume {s : State h β} (ho : Ordered s) (hs : Inv s)
    (hfew : s.committed.length < 2 ^ 64) : Ordered (consume s) := by
  have howns := hs.consOwns
  have hdone := hs.consDone
  unfold TwoSlot.consume
  split
  next => exact ho.setCons fun k j hc => by cases hc
  next f0 both hpc =>
    split
    next => exact ho.setCons fun k j hc => by split at hc <;> cases hc
    next =>
      split
      next => exact ho.setCons fun k j hc => by cases hc
      next => exact ⟨ho.got, ho.full, fun k j hc => by cases hc⟩
  next k hpc =>
    rw [hpc] at howns
    refine ho.setCons fun k' j hc => ?_
    split at hc
    next => cases hc
    next hother =>
      cases hc
      exact ho.only hs howns hother
  next => exact ho.setCons fun k j hc => by cases hc
  next n0 hpc =>
    rw [hpc] at howns hdone
    have hn0 : n0 = s.putSeq false := hdone
    refine ho.setCons fun k j hc => ?_
    cases hc
    rw [hn0]
    exact ho.lower hs hfew howns
  next k j hpc =>
    have hnext := ho.next k j hpc
    rw [hpc] at howns
    split
    next =>
      refine ⟨ho.got, ho.full, fun k' j' hc => ?_⟩
      cases hc
      exact hnext
    next =>
      refine ⟨?_, fun k' hfull => ?_, fun k' j' hc => by cases hc⟩
      · rw [List.map_append, ho.got]
        simp [hnext, List.range_succ]
      · have hne : k' ≠ k := by
          rintro rfl
          simp at hfull
        have hfull' : s.state k' = 1 := by simpa [Function.update_of_ne hne] using hfull
        have hle := ho.full k' hfull'
        have hidx := hs.idx_ne hne hfull' howns
        simp
        omega

/-! ## Every run -/

/-- Hand-overs are not taken back. -/
theorem committed_le (s : State h β) (ev : Ev h β) :
    s.committed.length ≤ (step s ev).committed.length := by
  rcases step_cases s ev with heq | heq <;> rw [heq]
  · have hconsume : (consume s).committed = s.committed := by
      unfold consume
      repeat' split
      all_goals rfl
    rw [hconsume]
  · obtain ⟨-, -, ⟨-, -, hsame⟩ | ⟨k, v, -, -, -, hmore⟩⟩ := produce_frame s ev
    · rw [hsame]
    · simp [hmore]

theorem Ordered.step {s : State h β} (ho : Ordered s) (hs : Inv s)
    (hfew : s.committed.length < 2 ^ 64) (ev : Ev h β) : Ordered (step s ev) := by
  rcases step_cases s ev with heq | heq <;> rw [heq]
  · exact ho.consume hs hfew
  · exact ho.produce hs ev

theorem inv_run (zero : β) (es : List (Ev h β)) : Inv (run step (start h zero) es) := by
  induction es using List.reverseRecOn with
  | nil => exact inv_start zero
  | append_singleton es ev ih =>
    rw [run_append]
    exact inv_step ih ev

theorem ordered_run (zero : β) (es : List (Ev h β))
    (hfew : (run step (start h zero) es).committed.length < 2 ^ 64) :
    Ordered (run step (start h zero) es) := by
  induction es using List.reverseRecOn with
  | nil => exact ⟨rfl, fun k hk => by simp [start] at hk, fun k j hc => by cases hc⟩
  | append_singleton es ev ih =>
    rw [run_append] at hfew ⊢
    have hle := committed_le (run step (start h zero) es) ev
    have hfew' : (run step (start h zero) es).committed.length < 2 ^ 64 :=
      Nat.lt_of_le_of_lt hle hfew
    exact (ih hfew').step (inv_run zero es) hfew' ev

end EcMaster.TwoSlot
