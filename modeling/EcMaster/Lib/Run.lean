import Mathlib

/-!
# Runs of a state machine and their histories

A machine here is a step function `S → E → S`.  `run` is the state after a list
of events, and `trace` the list of its steps, each with the state on both
sides.

A property of a run is stated with `Along`: it holds at every step, given the
history of steps before it.  Histories are what most safety properties need:
"the axis moves only if it was enabled earlier, and nothing has revoked that
since" is a statement about a step and the steps before it.

The rules:

* `Along.of_invariant`: an invariant of state and history that every step keeps
  gives a property of every step.  The steps may assume a condition that holds
  along the run, which is how a property that holds under a condition on the
  run is proved.
* `Since`: some earlier step had `P`, and the steps after it together have `R`.
  `Since.concat` and `Since.of_concat` add a step and take it away.
* `exists_step_of_rank`: a rank that the steps of others do not raise and every own
  step lowers bounds the own steps after which something has happened.
* `trace_split`: where a step lies in a run, the history before it is the trace
  of the events before it.
-/

namespace EcMaster.Run

variable {S E : Type}

/-- One step of a run. -/
structure Rec (S E : Type) where
  pre : S
  ev : E
  post : S

/-- The state after a list of events. -/
def run (step : S → E → S) (s : S) (es : List E) : S := es.foldl step s

/-- The steps of a run, oldest first. -/
def trace (step : S → E → S) : S → List E → List (Rec S E)
  | _, [] => []
  | s, e :: es => ⟨s, e, step s e⟩ :: trace step (step s e) es

/-- `P` holds at every step of the run, given the steps before it. -/
def Along (step : S → E → S) (s : S) (es : List E)
    (P : List (Rec S E) → Rec S E → Prop) : Prop :=
  ∀ hist r rest, trace step s es = hist ++ r :: rest → P hist r

/-- Some step of the history has `P`, and the steps after it together have `R`. -/
def Since (P : Rec S E → Prop) (R : List (Rec S E) → Prop) (hist : List (Rec S E)) : Prop :=
  ∃ before e after, hist = before ++ e :: after ∧ P e ∧ R after

theorem since_nil (P : Rec S E → Prop) (R : List (Rec S E) → Prop) : ¬ Since P R [] := by
  rintro ⟨before, e, after, heq, -⟩
  simp at heq

theorem since_cons (P : Rec S E → Prop) (R : List (Rec S E) → Prop) (r : Rec S E)
    (hist : List (Rec S E)) : Since P R (r :: hist) ↔ (P r ∧ R hist) ∨ Since P R hist := by
  constructor
  · rintro ⟨before, e, after, heq, hP, hR⟩
    cases before with
    | nil =>
      obtain ⟨rfl, rfl⟩ := List.cons.inj heq
      exact .inl ⟨hP, hR⟩
    | cons q before =>
      obtain ⟨rfl, rfl⟩ := List.cons.inj heq
      exact .inr ⟨before, e, after, rfl, hP, hR⟩
  · rintro (⟨hP, hR⟩ | ⟨before, e, after, rfl, hP, hR⟩)
    · exact ⟨[], r, hist, rfl, hP, hR⟩
    · exact ⟨r :: before, e, after, rfl, hP, hR⟩

instance decidableSince (P : Rec S E → Prop) (R : List (Rec S E) → Prop) [DecidablePred P]
    [DecidablePred R] : DecidablePred (Since P R)
  | [] => isFalse (since_nil P R)
  | r :: hist =>
      have := decidableSince P R hist
      decidable_of_iff _ (since_cons P R r hist).symm

/-- The step that has just been made. -/
theorem Since.now {P : Rec S E → Prop} {R : List (Rec S E) → Prop} (hist : List (Rec S E))
    {r : Rec S E} (hP : P r) (hR : R []) : Since P R (hist ++ [r]) :=
  ⟨hist, r, [], rfl, hP, hR⟩

/-- One more step. -/
theorem Since.concat {P : Rec S E → Prop} {R R' : List (Rec S E) → Prop}
    {hist : List (Rec S E)} {r : Rec S E} (hs : Since P R hist)
    (hR : ∀ after, R after → R' (after ++ [r])) : Since P R' (hist ++ [r]) := by
  obtain ⟨before, e, after, rfl, hP, hafter⟩ := hs
  exact ⟨before, e, after ++ [r], by simp, hP, hR after hafter⟩

/-- Of a history with one more step: that step has `P`, or the history had `P`
already and the step keeps it. -/
theorem Since.of_concat {P K : Rec S E → Prop} {hist : List (Rec S E)} {r : Rec S E}
    (hs : Since P (fun after => ∀ q ∈ after, K q) (hist ++ [r])) :
    P r ∨ (Since P (fun after => ∀ q ∈ after, K q) hist ∧ K r) := by
  obtain ⟨before, e, after, heq, hP, hafter⟩ := hs
  induction after using List.reverseRecOn with
  | nil =>
    obtain ⟨-, hr⟩ := List.append_inj' heq rfl
    have hr : r = e := by simpa using hr
    exact .inl (hr ▸ hP)
  | append_singleton after last _ =>
    rw [← List.cons_append, ← List.append_assoc] at heq
    obtain ⟨hhist, hr⟩ := List.append_inj' heq rfl
    have hr : r = last := by simpa using hr
    refine .inr ⟨⟨before, e, after, hhist, hP, fun q hq => hafter q (by simp [hq])⟩, ?_⟩
    exact hr ▸ hafter last (by simp)

/-- What is read off the steps of a history, with one more step. -/
theorem filterMap_concat {α β : Type} (f : α → Option β) (l : List α) (a : α) :
    (l ++ [a]).filterMap f = l.filterMap f ++ (f a).toList := by
  rw [List.filterMap_append]
  cases hf : f a <;> simp [hf]

variable {step : S → E → S}

@[simp] theorem run_nil (s : S) : run step s [] = s := rfl

@[simp] theorem run_cons (s : S) (e : E) (es : List E) :
    run step s (e :: es) = run step (step s e) es := rfl

theorem run_append (s : S) (es es' : List E) :
    run step s (es ++ es') = run step (run step s es) es' :=
  List.foldl_append

theorem trace_append (s : S) (es es' : List E) :
    trace step s (es ++ es') = trace step s es ++ trace step (run step s es) es' := by
  induction es generalizing s with
  | nil => rfl
  | cons e es ih => simp [trace, ih]

/-- The events of a trace are those of the run. -/
theorem map_ev_trace (s : S) (es : List E) : (trace step s es).map Rec.ev = es := by
  induction es generalizing s with
  | nil => rfl
  | cons e es ih => simp [trace, ih]

/-- A step of a run splits its events, and its state before is that of the
events before it. -/
theorem trace_split {s : S} {es : List E} {hist rest : List (Rec S E)} {r : Rec S E}
    (htrace : trace step s es = hist ++ r :: rest) :
    ∃ es₁ es₂, es = es₁ ++ r.ev :: es₂ ∧ hist = trace step s es₁ ∧
      r.pre = run step s es₁ ∧ r.post = step r.pre r.ev := by
  induction hist generalizing s es with
  | nil =>
    cases es with
    | nil => simp [trace] at htrace
    | cons e es =>
      simp only [trace, List.nil_append, List.cons.injEq] at htrace
      obtain ⟨rfl, -⟩ := htrace
      exact ⟨[], es, rfl, rfl, rfl, rfl⟩
  | cons q hist ih =>
    cases es with
    | nil => simp [trace] at htrace
    | cons e es =>
      simp only [trace, List.cons_append, List.cons.injEq] at htrace
      obtain ⟨rfl, htail⟩ := htrace
      obtain ⟨es₁, es₂, rfl, rfl, hpre, hpost⟩ := ih htail
      exact ⟨e :: es₁, es₂, rfl, rfl, hpre, hpost⟩

/-- A property of every step, at the step of one event. -/
theorem Along.at {P : List (Rec S E) → Rec S E → Prop} {s : S} {es es' : List E} {e : E}
    (hP : Along step s (es ++ e :: es') P) :
    P (trace step s es) ⟨run step s es, e, step (run step s es) e⟩ :=
  hP _ _ (trace step (step (run step s es) e) es') (trace_append s es (e :: es'))

theorem Along.and {P Q : List (Rec S E) → Rec S E → Prop} {s : S} {es : List E}
    (hP : Along step s es P) (hQ : Along step s es Q) :
    Along step s es fun hist r => P hist r ∧ Q hist r :=
  fun hist r rest htrace => ⟨hP hist r rest htrace, hQ hist r rest htrace⟩

/-- A property of every event. -/
theorem Along.of_forall {Q : E → Prop} {es : List E} (hQ : ∀ e ∈ es, Q e) (s : S) :
    Along step s es fun _ r => Q r.ev := by
  intro hist r rest htrace
  obtain ⟨es₁, es₂, rfl, -⟩ := trace_split htrace
  exact hQ r.ev (by simp)

/-- An order on the labels of the events is an order along the run. -/
theorem Along.of_pairwise {L : Type} {f : E → Option L} {R : L → L → Prop} {es : List E}
    (hpair : (es.filterMap f).Pairwise R) (s : S) :
    Along step s es fun hist r => ∀ q ∈ hist, ∀ t ∈ f q.ev, ∀ t' ∈ f r.ev, R t t' := by
  intro hist r rest htrace q hq t ht t' ht'
  have hev : (trace step s es).map Rec.ev = es := map_ev_trace s es
  rw [htrace, List.map_append, List.map_cons] at hev
  rw [← hev, List.filterMap_append, List.pairwise_append] at hpair
  refine hpair.2.2 t ?_ t' ?_
  · exact List.mem_filterMap.2 ⟨q.ev, List.mem_map_of_mem hq, ht⟩
  · exact List.mem_filterMap.2 ⟨r.ev, by simp, ht'⟩

/-- The invariant rule.  `C` is a condition that holds along the run. -/
theorem Along.invariant {C : List (Rec S E) → Rec S E → Prop}
    {I : List (Rec S E) → S → Prop} {s : S}
    (hinit : I [] s)
    (hstep : ∀ hist t e, I hist t → C hist ⟨t, e, step t e⟩ →
      I (hist ++ [⟨t, e, step t e⟩]) (step t e)) :
    ∀ {es : List E}, Along step s es C → I (trace step s es) (run step s es) := by
  intro es
  induction es using List.reverseRecOn with
  | nil => intro _; exact hinit
  | append_singleton es e ih =>
    intro hC
    rw [trace_append, run_append]
    apply hstep
    · apply ih
      intro hist r rest htrace
      apply hC hist r (rest ++ trace step (run step s es) [e])
      rw [trace_append, htrace, List.append_assoc, List.cons_append]
    · apply hC _ _ []
      rw [trace_append]
      rfl

/-- A property of every step, from an invariant of the states before it. -/
theorem Along.of_invariant {C P : List (Rec S E) → Rec S E → Prop}
    {I : List (Rec S E) → S → Prop} {s : S}
    (hinit : I [] s)
    (hstep : ∀ hist t e, I hist t → C hist ⟨t, e, step t e⟩ →
      I (hist ++ [⟨t, e, step t e⟩]) (step t e))
    (hprop : ∀ hist t e, I hist t → C hist ⟨t, e, step t e⟩ → P hist ⟨t, e, step t e⟩)
    {es : List E} (hC : Along step s es C) : Along step s es P := by
  intro hist r rest htrace
  obtain ⟨es₁, es₂, rfl, rfl, hpre, hpost⟩ := trace_split htrace
  obtain ⟨pre, ev, post⟩ := r
  simp only at hpre hpost htrace
  subst hpre hpost
  have hC₁ : Along step s es₁ C := by
    intro hist' r' rest' htrace'
    apply hC hist' r' (rest' ++ trace step (run step s es₁) (ev :: es₂))
    rw [trace_append, htrace', List.append_assoc, List.cons_append]
  exact hprop _ _ _ (Along.invariant hinit hstep hC₁) (hC _ _ rest htrace)

/-- Without a condition. -/
theorem Along.of_invariant' {P : List (Rec S E) → Rec S E → Prop}
    {I : List (Rec S E) → S → Prop} {s : S}
    (hinit : I [] s)
    (hstep : ∀ hist t e, I hist t → I (hist ++ [⟨t, e, step t e⟩]) (step t e))
    (hprop : ∀ hist t e, I hist t → P hist ⟨t, e, step t e⟩)
    (es : List E) : Along step s es P :=
  Along.of_invariant (C := fun _ _ => True) hinit (fun hist t e h _ => hstep hist t e h)
    (fun hist t e h _ => hprop hist t e h) (fun _ _ _ _ => trivial)

/-! ## Progress -/

/-- The progress rule.  The steps of others keep `I` and do not raise the rank.  An own
step has `Q`, or it keeps `I` and lowers the rank.  With more own steps than the rank,
one of them has `Q`, and only so many of them are needed for it. -/
theorem exists_step_of_rank (own : E → Bool) (rank : S → Nat) {I : S → Prop} {Q : S → E → Prop}
    (hother : ∀ s e, I s → own e = false → I (step s e) ∧ rank (step s e) ≤ rank s)
    (hown : ∀ s e, I s → own e = true → Q s e ∨ I (step s e) ∧ rank (step s e) < rank s) :
    ∀ {es : List E} {s : S}, I s → rank s < es.countP own →
      ∃ es₁ e es₂, es = es₁ ++ e :: es₂ ∧ own e = true ∧ I (run step s es₁) ∧
        Q (run step s es₁) e ∧ es.countP own ≤ rank s + 1 + es₂.countP own := by
  intro es
  induction es with
  | nil => intro s _ hcount; simp at hcount
  | cons e es ih =>
    intro s hI hcount
    rw [List.countP_cons] at hcount
    -- what is left to do after a first step that has not done it
    have hlater : ∀ n, I (step s e) → rank (step s e) + n ≤ rank s → rank s < es.countP own + n →
        ∃ es₁ e' es₂, e :: es = es₁ ++ e' :: es₂ ∧ own e' = true ∧ I (run step s es₁) ∧
          Q (run step s es₁) e' ∧ es.countP own + n ≤ rank s + 1 + es₂.countP own := by
      intro n hI' hrank hlt
      obtain ⟨es₁, e', es₂, rfl, he', hpre, hQ, hle⟩ := ih hI' (by omega)
      exact ⟨e :: es₁, e', es₂, rfl, he', hpre, hQ, by omega⟩
    rw [List.countP_cons]
    cases he : own e with
    | false =>
      obtain ⟨hI', hrank⟩ := hother s e hI he
      simp only [he, Bool.false_eq_true, if_false] at hcount ⊢
      exact hlater 0 hI' hrank hcount
    | true =>
      simp only [he, if_true] at hcount ⊢
      rcases hown s e hI he with hQ | ⟨hI', hrank⟩
      · exact ⟨[], e, es, rfl, he, hI, hQ, by omega⟩
      · exact hlater 1 hI' hrank hcount

/-! ## Deciding a property of a concrete run -/

theorem along_nil (s : S) (P : List (Rec S E) → Rec S E → Prop) : Along step s [] P := by
  intro hist r rest htrace
  simp [trace] at htrace

theorem along_cons (s : S) (e : E) (es : List E) (P : List (Rec S E) → Rec S E → Prop) :
    Along step s (e :: es) P ↔
      P [] ⟨s, e, step s e⟩ ∧
        Along step (step s e) es fun hist r => P (⟨s, e, step s e⟩ :: hist) r := by
  constructor
  · intro h
    refine ⟨h [] _ _ rfl, fun hist r rest htrace => ?_⟩
    apply h (⟨s, e, step s e⟩ :: hist) r rest
    rw [trace, htrace, List.cons_append]
  · rintro ⟨hfirst, hrest⟩ hist r rest htrace
    cases hist with
    | nil =>
      simp only [trace, List.nil_append, List.cons.injEq] at htrace
      exact htrace.1 ▸ hfirst
    | cons q hist =>
      simp only [trace, List.cons_append, List.cons.injEq] at htrace
      exact htrace.1 ▸ hrest hist r rest htrace.2

instance decidableAlong (s : S) : (es : List E) → (P : List (Rec S E) → Rec S E → Prop) →
    [∀ hist r, Decidable (P hist r)] → Decidable (Along step s es P)
  | [], P, _ => isTrue (along_nil s P)
  | e :: es, P, _ =>
      have := decidableAlong (step s e) es fun hist r => P (⟨s, e, step s e⟩ :: hist) r
      decidable_of_iff _ (along_cons s e es P).symm

end EcMaster.Run
