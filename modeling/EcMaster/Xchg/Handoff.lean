import EcMaster.Lib.TwoSlot

/-!
# The two-slot hand-offs

`ecm_diag_handoff_put` and `ecm_diag_handoff_get` (`diag/ecm_diag.c`) hand the
epochs of the RT thread to the monitor.  `ecm_api_ho_begin`, `ecm_api_ho_commit`,
`ecm_api_ho_put` and `ecm_api_ho_get` (`api/ecm_api.c`) are the same code for
payloads of any size, with the fill of a slot left to the caller.  Both are the
hand-off of `Lib/TwoSlot`; how many pieces a payload copy takes is left open.

In every interleaving the consumer obtains whole payloads, none twice and none
lost.  It obtains them in the order of the puts until the number of a put wraps,
which is at the put number `2 ^ 64`: the two slots then hold the numbers
`2 ^ 64 - 1` and `0`, and the second is taken for the older one.
-/

namespace EcMaster.Xchg

open EcMaster.Run EcMaster.TwoSlot

/-- `ecm_diag_handoff_put` and `ecm_diag_handoff_get`. -/
def ecmDiagHandoff (words : Nat) : Handoff where
  words := words
  split := false

/-- `ecm_api_ho_begin`, `ecm_api_ho_commit`, `ecm_api_ho_put` and `ecm_api_ho_get`. -/
def ecmApiHo (words : Nat) : Handoff where
  words := words
  split := true

/-- The two hand-offs. -/
inductive Channel where
  | diag (words : Nat)
  | api (words : Nat)

def Channel.code : Channel → Handoff
  | .diag words => ecmDiagHandoff words
  | .api words => ecmApiHo words

/-- In every interleaving, what the consumer obtains are whole payloads of
different puts, every successful put is obtained or still in a slot, and a put
is refused only if both slots were in use.  With fewer than `2 ^ 64` puts the
payloads are obtained in put order. -/
theorem handoff_whole_and_in_order {β : Type} (c : Channel) (zero : β)
    (es : List (Ev c.code β)) :
    let s := run step (start c.code zero) es
    (∀ p ∈ s.got, s.committed[p.1]? = some p.2) ∧ (s.got.map (·.1)).Nodup ∧
      s.committed.length = s.got.length + s.state false + s.state true ∧
      (∀ b ∈ s.refused, b = true) ∧
      (s.committed.length < 2 ^ 64 → (s.got.map (·.1)).Pairwise (· < ·)) := by
  intro s
  have hinv : Inv s := inv_run zero es
  refine ⟨hinv.got, hinv.nodup, hinv.count, hinv.refused, fun hfew => ?_⟩
  rw [(ordered_run zero es hfew).got]
  exact List.pairwise_lt_range

/-! ## The wrap of the numbers -/

/-- A put of a one-word payload, alone. -/
def onePut : List (Ev (ecmDiagHandoff 1) Nat) := List.replicate 4 (.put fun _ => 0)

/-- A get with one full slot, alone. -/
def oneGet : List (Ev (ecmDiagHandoff 1) Nat) := List.replicate 5 .get

/-- Both sides are idle after `n` puts that were all obtained in order. -/
structure Quiet (n : Nat) (s : State (ecmDiagHandoff 1) Nat) : Prop where
  prod : s.prod = .idle
  cons : s.cons = .idle
  state : ∀ k, s.state k = 0
  puts : s.puts = n % 2 ^ 64
  committed : s.committed.length = n

theorem Quiet.round {n : Nat} {s : State (ecmDiagHandoff 1) Nat} (hs : Quiet n s) :
    Quiet (n + 1) (run step s (onePut ++ oneGet)) := by
  obtain ⟨hprod, hcons, hstate, hputs, hcommitted⟩ := hs
  have hwords : (ecmDiagHandoff 1).words = 1 := rfl
  cases hnext : s.nextPut <;>
  constructor <;>
  simp [run, onePut, oneGet, List.replicate, step, produce, consume, search, choose, number,
    setWord, hprod, hcons, hstate, hnext, hwords, hputs, hcommitted]

theorem exists_quiet (n : Nat) :
    ∃ es, Quiet n (run step (start (ecmDiagHandoff 1) 0) es) := by
  induction n with
  | zero => exact ⟨[], rfl, rfl, fun _ => rfl, rfl, rfl⟩
  | succ n ih =>
    obtain ⟨es, hquiet⟩ := ih
    refine ⟨es ++ (onePut ++ oneGet), ?_⟩
    rw [run_append]
    exact hquiet.round

/-- After `2 ^ 64 - 2` puts: two more puts and two gets, all alone. -/
theorem Quiet.wrap {s : State (ecmDiagHandoff 1) Nat} (hs : Quiet (2 ^ 64 - 2) s) :
    (run step s (onePut ++ onePut ++ (List.replicate 6 .get ++ oneGet))).got.map (·.1) =
      s.got.map (·.1) ++ [2 ^ 64 - 1, 2 ^ 64 - 2] := by
  obtain ⟨hprod, hcons, hstate, hputs, hcommitted⟩ := hs
  have hwords : (ecmDiagHandoff 1).words = 1 := rfl
  cases hnext : s.nextPut <;>
  simp [run, onePut, oneGet, List.replicate, step, produce, consume, search, choose, number,
    setWord, hprod, hcons, hstate, hnext, hwords, hputs, hcommitted]

/-- There is an interleaving in which a payload is obtained after that of a later
put. -/
theorem order_is_lost_at_the_wrap :
    ∃ es : List (Ev (ecmDiagHandoff 1) Nat),
      ¬ ((run step (start (ecmDiagHandoff 1) 0) es).got.map (·.1)).Pairwise (· < ·) := by
  obtain ⟨es, hquiet⟩ := exists_quiet (2 ^ 64 - 2)
  refine ⟨es ++ (onePut ++ onePut ++ (List.replicate 6 .get ++ oneGet)), fun hpair => ?_⟩
  rw [run_append, hquiet.wrap, List.pairwise_append] at hpair
  simp at hpair

end EcMaster.Xchg
