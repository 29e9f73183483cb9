import EcMaster.Cia402.Run

/-!
# Ticks and valid inputs

The handshakes of the profile modes are counted in ticks, and they work with the
statusword of the last valid inputs.  `TicksByOne` says that the tick numbers of a
run increase by 1, and `ticks_axisEvs` that an axis then sees its ticks in order.
`lastValid` is the hook of the last valid inputs, and `sw_concat` connects it with
the statusword that the axis remembers.
-/

namespace EcMaster.Cia402

open EcMaster.Pdo EcMaster.Xchg EcMaster.Run

/-! ## The statusword -/

/-- The statusword of a hook with valid inputs. -/
def statusword (b : Bind) (h : AxHook) : Nat := ecmPdoGet b.sw h.io % 2 ^ 16

theorem readInputs_sw (p : Params) (h : AxHook) (a : Axis) :
    (readInputs p h a).sw = if h.inValid then statusword a.b h else a.sw := by
  unfold readInputs statusword
  split_ifs <;> rfl

/-! ## Ticks -/

/-- The tick of a hook, also at the commands it applies. -/
def AxEv.tick? : AxEv → Option Nat
  | .cmd _ _ tick => some tick
  | .hook h => some h.tick
  | _ => none

def Event.tick? : Event → Option Nat
  | .hook env => some env.tick
  | _ => none

/-- The tick numbers increase by 1. -/
def TicksByOne (evs : List Event) : Prop :=
  (evs.filterMap Event.tick?).IsChain fun t t' => t' = t + 1

instance (evs : List Event) : Decidable (TicksByOne evs) :=
  inferInstanceAs (Decidable (List.IsChain _ _))

theorem TicksByOne.pairwise {evs : List Event} (hticks : TicksByOne evs) :
    (evs.filterMap Event.tick?).Pairwise (· < ·) := by
  apply List.IsChain.pairwise
  exact List.IsChain.imp (fun t t' (heq : t' = t + 1) => by omega) hticks

/-- An axis sees the ticks of the hooks only. -/
theorem tick_axisEvents {i : Nat} {s : Sys} {e : Event} {t : Nat}
    (ht : t ∈ (axisEvents i s e).filterMap AxEv.tick?) : e.tick? = some t := by
  rw [List.mem_filterMap] at ht
  obtain ⟨ev, hev, htick⟩ := ht
  cases e with
  | hook env =>
    simp only [axisEvents, List.mem_append, cmdEvents, List.mem_map, List.mem_singleton] at hev
    rcases hev with ⟨q, -, rfl⟩ | rfl
    · exact htick
    · exact htick
  | cmd axis op arg0 arg1 seq tick => simp [axisEvents] at hev
  | setpoint axis tick v =>
    simp only [axisEvents] at hev
    split_ifs at hev
    · rw [List.mem_singleton.1 hev] at htick
      simp [AxEv.tick?] at htick
    · simp at hev
  | shutdown =>
    rw [List.mem_singleton.1 hev] at htick
    simp [AxEv.tick?] at htick

/-- The ticks an axis sees are in order. -/
theorem ticks_axisEvs (i : Nat) :
    ∀ (evs : List Event) (s : Sys), (evs.filterMap Event.tick?).Pairwise (· < ·) →
      ((axisEvs i s evs).filterMap AxEv.tick?).Pairwise (· ≤ ·) ∧
        ∀ t ∈ (axisEvs i s evs).filterMap AxEv.tick?, t ∈ evs.filterMap Event.tick? := by
  intro evs
  induction evs with
  | nil => intro s _; simp [axisEvs]
  | cons e es ih =>
    intro s hpair
    rw [axisEvs, List.filterMap_append]
    have hcons : (e :: es).filterMap Event.tick? =
        e.tick?.toList ++ es.filterMap Event.tick? := by
      rw [List.filterMap_cons]
      cases e.tick? <;> rfl
    rw [hcons, List.pairwise_append] at hpair
    rw [hcons]
    obtain ⟨hrest, hmem⟩ := ih (s.step e) hpair.2.1
    constructor
    · rw [List.pairwise_append]
      refine ⟨?_, hrest, fun t ht t' ht' => ?_⟩
      · refine List.pairwise_iff_forall_sublist.2 fun {t t'} hsub => ?_
        have ht := tick_axisEvents (hsub.subset (by simp : t ∈ [t, t']))
        have ht' := tick_axisEvents (hsub.subset (by simp : t' ∈ [t, t']))
        rw [ht, Option.some.injEq] at ht'
        omega
      · have hlt := hpair.2.2 t (by simp [tick_axisEvents ht]) t' (hmem t' ht')
        omega
    · intro t ht
      rw [List.mem_append] at ht ⊢
      rcases ht with ht | ht
      · exact .inl (by simp [tick_axisEvents ht])
      · exact .inr (hmem t ht)

/-! ## Valid inputs -/

/-- The hook with valid inputs that the step is, if it is one. -/
def validHook (q : AxRec) : Option AxHook := q.ev.hook?.filter (·.inValid)

/-- The hook with the last valid inputs. -/
def lastValid (hist : List AxRec) : Option AxHook := hist.reverse.findSome? validHook

theorem lastValid_hook (hist : List AxRec) (s t : AxSt) (h : AxHook) :
    lastValid (hist ++ [⟨s, .hook h, t⟩]) = if h.inValid then some h else lastValid hist := by
  unfold lastValid validHook
  rw [List.reverse_append, List.reverse_singleton, List.singleton_append, List.findSome?_cons]
  cases hv : h.inValid <;> simp [AxEv.hook?, Option.filter, hv]

theorem lastValid_concat (hist : List AxRec) (r : AxRec) :
    lastValid (hist ++ [r]) = (validHook r).or (lastValid hist) := by
  unfold lastValid
  rw [List.reverse_append, List.reverse_singleton, List.singleton_append, List.findSome?_cons]
  cases validHook r <;> rfl

/-- The steps so far are not after this one. -/
def InOrder (hist : List AxRec) (r : AxRec) : Prop :=
  ∀ q ∈ hist, ∀ t ∈ q.ev.tick?, ∀ t' ∈ r.ev.tick?, t ≤ t'

theorem tick_of_validHook {q : AxRec} {m : AxHook} (hm : m ∈ validHook q) :
    q.ev.tick? = some m.tick := by
  obtain ⟨hhook, -⟩ := Option.mem_filter_iff.1 hm
  obtain ⟨h, heq⟩ := exists_hook (Option.isSome_of_mem hhook)
  rw [heq] at hhook ⊢
  cases (Option.some.inj hhook)
  rfl

theorem lastValid_mem {hist : List AxRec} {m : AxHook} (hm : m ∈ lastValid hist) :
    ∃ q ∈ hist, q.ev.tick? = some m.tick := by
  obtain ⟨q, hq, hv⟩ := List.exists_of_findSome?_eq_some hm
  exact ⟨q, List.mem_reverse.1 hq, tick_of_validHook hv⟩

/-- With the ticks in order, the last valid inputs are not older than any others. -/
theorem lastValid_le {hist : List AxRec}
    (hord : (hist.filterMap fun q => q.ev.tick?).Pairwise (· ≤ ·)) {q : AxRec} (hq : q ∈ hist)
    {m : AxHook} (hm : m ∈ validHook q) : ∃ m' ∈ lastValid hist, m.tick ≤ m'.tick := by
  induction hist using List.reverseRecOn with
  | nil => simp at hq
  | append_singleton hist r ih =>
    rw [List.filterMap_append, List.pairwise_append] at hord
    rw [lastValid_concat]
    cases hr : validHook r with
    | none =>
      rcases List.mem_append.1 hq with hq | hq
      · exact ih hord.1 hq
      · rw [List.mem_singleton.1 hq, hr] at hm
        simp at hm
    | some m' =>
      refine ⟨m', rfl, ?_⟩
      rcases List.mem_append.1 hq with hq | hq
      · exact hord.2.2 _ (List.mem_filterMap.2 ⟨q, hq, tick_of_validHook hm⟩) _
          (List.mem_filterMap.2 ⟨r, by simp, tick_of_validHook hr⟩)
      · rw [List.mem_singleton.1 hq, hr] at hm
        cases hm
        exact Nat.le_refl _

theorem ticks_concat {hist : List AxRec} {r : AxRec}
    (hord : (hist.filterMap fun q => q.ev.tick?).Pairwise (· ≤ ·)) (hC : InOrder hist r) :
    ((hist ++ [r]).filterMap fun q => q.ev.tick?).Pairwise (· ≤ ·) := by
  rw [List.filterMap_append, List.pairwise_append]
  refine ⟨hord, ?_, fun t ht t' ht' => ?_⟩
  · rw [List.filterMap_cons, List.filterMap_nil]
    cases r.ev.tick? <;> simp
  · obtain ⟨q, hq, hqt⟩ := List.mem_filterMap.1 ht
    obtain ⟨r', hr', hrt⟩ := List.mem_filterMap.1 ht'
    rw [List.mem_singleton.1 hr'] at hrt
    exact hC q hq t hqt t' hrt

/-- The statusword after a hook is that of the last valid inputs. -/
theorem sw_concat {x : AxisSetup} {hist : List AxRec} {s : AxSt} (hbase : AxBase x s)
    (hlast : ∀ m ∈ lastValid hist, s.a.sw = statusword x.b m) (p : Params) (h : AxHook) :
    ∀ m ∈ lastValid (hist ++ [⟨s, .hook h, axStep p s (.hook h)⟩]),
      (axStep p s (.hook h)).a.sw = statusword x.b m := by
  have hb : s.a.b = x.b := by rw [hbase.cfg]; rfl
  have hsw : (axStep p s (.hook h)).a.sw = if h.inValid then statusword x.b h else s.a.sw := by
    rw [← hb, ← readInputs_sw p h s.a]
    simp [axStep]
  intro m hm
  rw [lastValid_hook] at hm
  rw [hsw]
  split_ifs at hm ⊢
  · cases hm
    rfl
  · exact hlast m hm

/-- A hook with a bus, but without valid inputs. -/
def smallBlind (tick : Nat) : Event :=
  .hook
    { tick := tick, tSendNs := 0, inValid := false, busLost := false
      inputs := fun _ => 0, xeCmd := fun _ => .none, xeRt := fun _ => .none }

end EcMaster.Cia402
