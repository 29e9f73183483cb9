import Mathlib

/-!
# Input freshness

`ecm_fresh_init` and `ecm_fresh_update` of `ecm_policy.c`: a slave counts in its
inputs, and the monitor is fed the counter once per cycle.  It reports when the counter
has stood still for too long, when it moves again, and when it went backwards.

The specification is about the samples and knows nothing of the monitor.  A past is the
list of the samples so far, the newest one first.  `remembered` is the last value that
was not older than the one before it, `kind` compares a sample with it, and
`unchangedSince` counts the samples that repeated it.  The reports are those of the
code, and `startedSince` looks them up back to the last change.

`fresh_reports` is about every past of fewer than `2 ^ 32` samples, which is as far as
the counter of repetitions goes.
-/

namespace EcMaster.Policy

/-! ## The monitor -/

/-- `ecm_fresh_ev_t`. -/
inductive FreshEv where
  | ok | first | unchanged | staleStart | stale | resumed | regression
deriving DecidableEq, Repr

/-- `ecm_fresh_t`. -/
structure Fresh where
  staleAfter : UInt32
  bits : Nat
  seen : Bool
  last : UInt32
  run : UInt32
  stale : Bool
  samples : UInt64
  staleEpisodes : UInt64
  staleCycles : UInt64
  regressions : UInt64
  maxRun : UInt32
deriving DecidableEq, Repr

/-- `ecm_fresh_init`. -/
def ecmFreshInit (staleAfter : UInt32) (bits : Int) : Fresh :=
  { staleAfter := if staleAfter = 0 then 1 else staleAfter
    bits := if bits = 8 ∨ bits = 32 then bits.toNat else 16
    seen := false, last := 0, run := 0, stale := false, samples := 0, staleEpisodes := 0
    staleCycles := 0, regressions := 0, maxRun := 0 }

/-- The mask of the counter. -/
def Fresh.mask (f : Fresh) : UInt32 :=
  if f.bits = 32 then 0xFFFFFFFF else (1 <<< UInt32.ofNat f.bits) - 1

/-- `ecm_fresh_update`. -/
def ecmFreshUpdate (f : Fresh) (value : UInt32) : Fresh × FreshEv :=
  let mask := f.mask
  let value := value &&& mask
  let f := { f with samples := f.samples + 1 }
  if !f.seen then ({ f with seen := true, last := value }, .first)
  else
    let d := (value - f.last) &&& mask
    if d = 0 then
      let f := { f with run := f.run + 1 }
      let f := { f with maxRun := if f.maxRun < f.run then f.run else f.maxRun }
      if f.run < f.staleAfter then (f, .unchanged)
      else
        let f := { f with staleCycles := f.staleCycles + 1 }
        if !f.stale then
          ({ f with stale := true, staleEpisodes := f.staleEpisodes + 1 }, .staleStart)
        else (f, .stale)
    else if mask >>> 1 < d then ({ f with regressions := f.regressions + 1 }, .regression)
    else
      let f := { f with last := value, run := 0 }
      if f.stale then ({ f with stale := false }, .resumed) else (f, .ok)

/-! ## What the samples say -/

/-- How far `b` is ahead of `a`, for counters of `bits` bits. -/
def ahead (bits a b : Nat) : Nat := (b + 2 ^ bits - a % 2 ^ bits) % 2 ^ bits

/-- What a sample is, compared with the value that is remembered. -/
inductive Kind where
  | first | unchanged | forward | backward
deriving DecidableEq, Repr

/-- A sample is ahead by less than half of the range, or it is older. -/
def kindOf (bits : Nat) (remembered : Option Nat) (v : Nat) : Kind :=
  match remembered with
  | none => .first
  | some a =>
      if ahead bits a v = 0 then .unchanged
      else if ahead bits a v < 2 ^ (bits - 1) then .forward else .backward

/-- The value of the last sample that changed it, forward. -/
def remembered (bits : Nat) : List UInt32 → Option Nat
  | [] => none
  | v :: past =>
      match kindOf bits (remembered bits past) v.toNat with
      | .first | .forward => some (v.toNat % 2 ^ bits)
      | .unchanged | .backward => remembered bits past

/-- What the next sample is. -/
def kind (bits : Nat) (past : List UInt32) (v : UInt32) : Kind :=
  kindOf bits (remembered bits past) v.toNat

/-- How many samples since the last change repeated the value. -/
def unchangedSince (bits : Nat) : List UInt32 → Nat
  | [] => 0
  | v :: past =>
      match kind bits past v with
      | .first | .forward => 0
      | .unchanged => unchangedSince bits past + 1
      | .backward => unchangedSince bits past

/-! ## What the monitor reports -/

/-- The monitor after a past. -/
def freshAfter (f : Fresh) : List UInt32 → Fresh
  | [] => f
  | v :: past => (ecmFreshUpdate (freshAfter f past) v).1

/-- The report on the next sample. -/
def report (f : Fresh) (past : List UInt32) (v : UInt32) : FreshEv :=
  (ecmFreshUpdate (freshAfter f past) v).2

/-- The inputs were reported stale since the last change. -/
def startedSince (f : Fresh) : List UInt32 → Bool
  | [] => false
  | v :: past =>
      match kind f.bits past v with
      | .first | .forward => false
      | .unchanged | .backward => startedSince f past || report f past v == .staleStart

/-- How many times the inputs were reported stale. -/
def starts (f : Fresh) : List UInt32 → Nat
  | [] => 0
  | v :: past => starts f past + if report f past v = .staleStart then 1 else 0

/-! ## Counters of a width -/

section Width

variable {f : Fresh}

/-- The widths that `ecm_fresh_init` leaves. -/
def Fresh.Width (f : Fresh) : Prop := f.bits = 8 ∨ f.bits = 16 ∨ f.bits = 32

theorem toNat_mask (h : f.Width) : f.mask.toNat = 2 ^ f.bits - 1 := by
  unfold Fresh.mask
  obtain hb | hb | hb := h <;> rw [hb] <;> rfl

theorem toNat_and_mask (h : f.Width) (x : UInt32) :
    (x &&& f.mask).toNat = x.toNat % 2 ^ f.bits := by
  rw [UInt32.toNat_and, toNat_mask h, Nat.and_two_pow_sub_one_eq_mod]

theorem toNat_half (h : f.Width) : (f.mask >>> 1).toNat = 2 ^ (f.bits - 1) - 1 := by
  unfold Fresh.mask
  obtain hb | hb | hb := h <;> rw [hb] <;> rfl

/-- The difference that the code computes, of a value and the last one. -/
theorem toNat_difference (h : f.Width) (v : UInt32) :
    (((v &&& f.mask) - f.last) &&& f.mask).toNat = ahead f.bits f.last.toNat v.toNat := by
  have hlast := f.last.toNat_lt
  have hv := v.toNat_lt
  rw [toNat_and_mask h, UInt32.toNat_sub, toNat_and_mask h, ahead]
  obtain hb | hb | hb := h <;> rw [hb] <;> omega

theorem ahead_mod (bits a b : Nat) : ahead bits a (b % 2 ^ bits) = ahead bits a b := by
  have hlt := Nat.mod_lt a (Nat.two_pow_pos bits)
  unfold ahead
  rw [Nat.add_sub_assoc (Nat.le_of_lt hlt), Nat.add_sub_assoc (Nat.le_of_lt hlt), Nat.mod_add_mod]

end Width

/-! ## The monitor follows the samples -/

/-- What the monitor knows of a past. -/
structure Watches (f0 : Fresh) (past : List UInt32) (f : Fresh) : Prop where
  staleAfter : f.staleAfter = f0.staleAfter
  bits : f.bits = f0.bits
  remembers : remembered f0.bits past = if f.seen then some f.last.toNat else none
  run : f.run.toNat = unchangedSince f0.bits past
  stale : f.stale = startedSince f0 past
  late : f.stale = true ↔ f0.staleAfter.toNat ≤ unchangedSince f0.bits past
  episodes : f.staleEpisodes.toNat = starts f0 past

theorem unchangedSince_le (bits : Nat) (past : List UInt32) :
    unchangedSince bits past ≤ past.length := by
  induction past with
  | nil => exact Nat.le_refl 0
  | cons v past ih =>
      unfold unchangedSince
      rw [List.length_cons]
      split <;> omega

theorem starts_le (f : Fresh) (past : List UInt32) : starts f past ≤ past.length := by
  induction past with
  | nil => exact Nat.le_refl 0
  | cons v past ih =>
      unfold starts
      rw [List.length_cons]
      split <;> omega

section Follow

variable {f0 f : Fresh} {past : List UInt32} {v : UInt32}

theorem Watches.kind_eq (h : Watches f0 past f) :
    kind f0.bits past v = kindOf f.bits (if f.seen then some f.last.toNat else none) v.toNat := by
  rw [kind, h.remembers, h.bits]

/-- What one sample does to the monitor, by what the sample is. -/
inductive FreshMove (f : Fresh) (v : UInt32) : Kind → Fresh × FreshEv → Prop where
  | first (hseen : f.seen = false) : FreshMove f v .first
      ({ f with samples := f.samples + 1, seen := true, last := v &&& f.mask }, .first)
  | waits (maxRun : UInt32) (hseen : f.seen = true) (hrun : f.run + 1 < f.staleAfter) :
      FreshMove f v .unchanged
        ({ f with samples := f.samples + 1, run := f.run + 1, maxRun }, .unchanged)
  | starts (maxRun : UInt32) (hseen : f.seen = true) (hrun : ¬ f.run + 1 < f.staleAfter)
      (hstale : f.stale = false) :
      FreshMove f v .unchanged
        ({ f with
          samples := f.samples + 1, run := f.run + 1, maxRun, staleCycles := f.staleCycles + 1
          stale := true, staleEpisodes := f.staleEpisodes + 1 }, .staleStart)
  | stays (maxRun : UInt32) (hseen : f.seen = true) (hrun : ¬ f.run + 1 < f.staleAfter)
      (hstale : f.stale = true) :
      FreshMove f v .unchanged
        ({ f with
          samples := f.samples + 1, run := f.run + 1, maxRun
          staleCycles := f.staleCycles + 1 }, .stale)
  | backward (hseen : f.seen = true) : FreshMove f v .backward
      ({ f with samples := f.samples + 1, regressions := f.regressions + 1 }, .regression)
  | resumes (hseen : f.seen = true) (hstale : f.stale = true) : FreshMove f v .forward
      ({ f with samples := f.samples + 1, last := v &&& f.mask, run := 0, stale := false },
        .resumed)
  | moves (hseen : f.seen = true) (hstale : f.stale = false) : FreshMove f v .forward
      ({ f with samples := f.samples + 1, last := v &&& f.mask, run := 0 }, .ok)

theorem freshMove (hw : f.Width) (v : UInt32) :
    FreshMove f v (kindOf f.bits (if f.seen then some f.last.toNat else none) v.toNat)
      (ecmFreshUpdate f v) := by
  have hdiff := toNat_difference hw v
  have hhalf := toNat_half hw
  obtain ⟨staleAfter, bits, seen, last, run, stale, samples, episodes, cycles, regressions,
    maxRun⟩ := f
  unfold ecmFreshUpdate
  cases seen with
  | false => exact .first rfl
  | true =>
      simp only [if_true, kindOf, ← hdiff, Bool.not_true, Bool.false_eq_true, if_false]
      dsimp only at hhalf
      generalize hmask : Fresh.mask _ = mask at hhalf
      generalize ((v &&& mask) - last) &&& mask = d
      have hfar : mask >>> 1 < d ↔ ¬ d.toNat < 2 ^ (bits - 1) := by
        have hpos := Nat.two_pow_pos (bits - 1)
        rw [UInt32.lt_iff_toNat_lt, hhalf]
        omega
      by_cases hzero : d = 0
      · rw [if_pos hzero, if_pos (by rw [hzero]; rfl)]
        split
        · rename_i hrun
          exact .waits _ rfl hrun
        · rename_i hrun
          cases stale with
          | false => exact .starts _ rfl hrun rfl
          | true => exact .stays _ rfl hrun rfl
      · have hnat : d.toNat ≠ 0 := fun h0 => hzero (UInt32.toNat_inj.1 h0)
        rw [if_neg hzero, if_neg hnat]
        by_cases hback : mask >>> 1 < d
        · rw [if_pos hback, if_neg (hfar.1 hback)]
          exact .backward rfl
        · rw [if_neg hback, if_pos (by by_contra hno; exact hback (hfar.2 hno))]
          subst hmask
          cases stale with
          | false => exact .moves rfl rfl
          | true => exact .resumes rfl rfl

theorem remembered_cons (bits : Nat) (v : UInt32) (past : List UInt32) :
    remembered bits (v :: past) =
      match kind bits past v with
      | .first | .forward => some (v.toNat % 2 ^ bits)
      | .unchanged | .backward => remembered bits past := rfl

theorem Watches.width (h : Watches f0 past f) (hw : f0.Width) : f.Width := by
  unfold Fresh.Width
  rw [h.bits]
  exact hw

/-- The counter of repetitions does not wrap. -/
theorem Watches.toNat_run (h : Watches f0 past f) (hlen : past.length + 1 < 2 ^ 32) :
    (f.run + 1).toNat = unchangedSince f0.bits past + 1 := by
  have hle := unchangedSince_le f0.bits past
  rw [UInt32.toNat_add, h.run]
  exact Nat.mod_eq_of_lt (by change _ + 1 < 2 ^ 32; omega)

theorem Watches.toNat_episodes (h : Watches f0 past f) (hlen : past.length + 1 < 2 ^ 32) :
    (f.staleEpisodes + 1).toNat = starts f0 past + 1 := by
  have hle := starts_le f0 past
  rw [UInt64.toNat_add, h.episodes]
  exact Nat.mod_eq_of_lt (by change _ + 1 < 2 ^ 64; omega)

/-- The run is long enough when the code says so. -/
theorem Watches.run_lt_iff (h : Watches f0 past f) (hlen : past.length + 1 < 2 ^ 32) :
    f.run + 1 < f.staleAfter ↔ unchangedSince f0.bits past + 1 < f0.staleAfter.toNat := by
  rw [UInt32.lt_iff_toNat_lt, h.toNat_run hlen, h.staleAfter]

theorem remembered_ne_none (bits : Nat) (v : UInt32) (past : List UInt32) :
    remembered bits (v :: past) ≠ none := by
  induction past generalizing v with
  | nil => simp [remembered, kindOf]
  | cons w past ih =>
      rw [remembered_cons]
      split
      · simp
      · simp
      · exact ih w
      · exact ih w

theorem past_eq_nil {bits : Nat} (hk : kind bits past v = .first) : past = [] := by
  cases past with
  | nil => rfl
  | cons w past =>
      unfold kind kindOf at hk
      split at hk
      · rename_i hnone
        exact absurd hnone (remembered_ne_none bits w past)
      · split at hk
        · exact absurd hk (by simp)
        · split at hk <;> exact absurd hk (by simp)

/-- The monitor keeps up with one more sample. -/
theorem Watches.step (h : Watches f0 past (freshAfter f0 past)) (hw : f0.Width)
    (hafter : 0 < f0.staleAfter.toNat) (hlen : past.length + 1 < 2 ^ 32) (v : UInt32) :
    Watches f0 (v :: past) (freshAfter f0 (v :: past)) := by
  have hmove := freshMove (h.width hw) v
  have hrun := h.toNat_run hlen
  have hepisodes := h.toNat_episodes hlen
  have hlt := h.run_lt_iff hlen
  have hmask := toNat_and_mask (h.width hw) v
  rw [← h.kind_eq] at hmove
  rw [h.bits] at hmask
  obtain ⟨hsa, hbits, hrem, hcount, hstale, hlate, hep⟩ := h
  generalize hr : ecmFreshUpdate (freshAfter f0 past) v = r at hmove
  generalize hk : kind f0.bits past v = k at hmove
  have hnew : freshAfter f0 (v :: past) = r.1 := congrArg Prod.fst hr
  have hrep : report f0 past v = r.2 := congrArg Prod.snd hr
  rw [hnew]
  generalize freshAfter f0 past = f at *
  cases hmove with
  | first hseen =>
      obtain rfl := past_eq_nil hk
      have hnot : f.stale = false := by rw [hstale]; rfl
      refine ⟨hsa, hbits, ?_, hcount, ?_, ?_, ?_⟩
      · simp only [remembered_cons, hk, hmask, if_true]
      · simp only [startedSince, hk, hnot]
      · simp only [unchangedSince, hk]
        exact hlate
      · simp only [starts, hrep]
        exact hep
  | waits maxRun hseen hwait =>
      have hnot : startedSince f0 past = false := by
        rw [← hstale, Bool.eq_false_iff, ne_eq, hlate]
        have := hlt.1 hwait
        omega
      refine ⟨hsa, hbits, ?_, ?_, ?_, ?_, ?_⟩
      · simp only [remembered_cons, hk]
        exact hrem
      · simp only [unchangedSince, hk]
        exact hrun
      · simp only [startedSince, hk, hrep, hstale, hnot]
        rfl
      · simp only [unchangedSince, hk]
        have := hlt.1 hwait
        rw [hlate]
        omega
      · simp only [starts, hrep]
        exact hep
  | starts maxRun hseen hlong hnew =>
      have hno := mt hlt.2 hlong
      refine ⟨hsa, hbits, ?_, ?_, ?_, ?_, ?_⟩
      · simp only [remembered_cons, hk]
        exact hrem
      · simp only [unchangedSince, hk]
        exact hrun
      · simp only [startedSince, hk, hrep, beq_self_eq_true, Bool.or_true]
      · simp only [unchangedSince, hk, true_iff]
        omega
      · simp only [starts, hrep, if_true]
        exact hepisodes
  | stays maxRun hseen hlong hold =>
      have hno := mt hlt.2 hlong
      refine ⟨hsa, hbits, ?_, ?_, ?_, ?_, ?_⟩
      · simp only [remembered_cons, hk]
        exact hrem
      · simp only [unchangedSince, hk]
        exact hrun
      · simp only [startedSince, hk, hrep, ← hstale, hold, Bool.true_or]
      · simp only [unchangedSince, hk, hold, true_iff]
        omega
      · simp only [starts, hrep]
        exact hep
  | backward hseen =>
      refine ⟨hsa, hbits, ?_, ?_, ?_, ?_, ?_⟩
      · simp only [remembered_cons, hk]
        exact hrem
      · simp only [unchangedSince, hk]
        exact hcount
      · simp only [startedSince, hk, hrep, hstale]
        exact (Bool.or_false _).symm
      · simp only [unchangedSince, hk]
        exact hlate
      · simp only [starts, hrep]
        exact hep
  | resumes hseen hold =>
      refine ⟨hsa, hbits, ?_, ?_, ?_, ?_, ?_⟩
      · simp only [remembered_cons, hk, hmask, hseen, if_true]
      · simp only [unchangedSince, hk]
        rfl
      · simp only [startedSince, hk]
      · simp only [unchangedSince, hk]
        simp
        omega
      · simp only [starts, hrep]
        exact hep
  | moves hseen hold =>
      refine ⟨hsa, hbits, ?_, ?_, ?_, ?_, ?_⟩
      · simp only [remembered_cons, hk, hmask, hseen, if_true]
      · simp only [unchangedSince, hk]
        rfl
      · simp only [startedSince, hk, hold]
      · simp only [unchangedSince, hk, hold]
        simp
        omega
      · simp only [starts, hrep]
        exact hep

theorem watches (hw : f0.Width) (hafter : 0 < f0.staleAfter.toNat)
    (hfresh : f0.seen = false ∧ f0.run = 0 ∧ f0.stale = false ∧ f0.staleEpisodes = 0)
    (hlen : past.length < 2 ^ 32) : Watches f0 past (freshAfter f0 past) := by
  induction past with
  | nil =>
      obtain ⟨hseen, hrun, hstale, hep⟩ := hfresh
      refine ⟨rfl, rfl, ?_, ?_, hstale, ?_, ?_⟩
      · simp [freshAfter, remembered, hseen]
      · simp [freshAfter, unchangedSince, hrun]
      · simp [freshAfter, unchangedSince, hstale]
        omega
      · simp [freshAfter, starts, hep]
  | cons v past ih =>
      rw [List.length_cons] at hlen
      exact (ih (by omega)).step hw hafter hlen v

/-- When each of the three reports comes. -/
theorem Watches.reports (h : Watches f0 past (freshAfter f0 past)) (hw : f0.Width)
    (hlen : past.length + 1 < 2 ^ 32) (v : UInt32) :
    (report f0 past v = .staleStart ↔
      kind f0.bits past v = .unchanged ∧
        unchangedSince f0.bits past + 1 = f0.staleAfter.toNat) ∧
    (report f0 past v = .stale ↔
      kind f0.bits past v = .unchanged ∧ startedSince f0 past = true) ∧
    (report f0 past v = .resumed ↔
      kind f0.bits past v = .forward ∧ startedSince f0 past = true) := by
  have hmove := freshMove (h.width hw) v
  have hlt := h.run_lt_iff hlen
  have hlate := h.late
  rw [← h.kind_eq] at hmove
  rw [← h.stale]
  unfold report
  generalize ecmFreshUpdate (freshAfter f0 past) v = r at hmove ⊢
  generalize kind f0.bits past v = k at hmove ⊢
  generalize freshAfter f0 past = f at *
  cases hmove with
  | first => simp
  | backward => simp
  | waits maxRun hseen hwait =>
      have hshort := hlt.1 hwait
      have hnot : ¬ f.stale = true := by
        rw [hlate]
        omega
      refine ⟨?_, ?_, by simp⟩
      · simp only [reduceCtorEq, true_and, false_iff]
        omega
      · simp [hnot]
  | starts maxRun hseen hlong hnew =>
      have hno := mt hlt.2 hlong
      have hnot : ¬ f0.staleAfter.toNat ≤ unchangedSince f0.bits past := by
        rw [← hlate, hnew]
        simp
      refine ⟨?_, by simp [hnew], by simp⟩
      simp only [true_and, true_iff]
      omega
  | stays maxRun hseen hlong hold =>
      have hle := hlate.1 hold
      refine ⟨?_, by simp [hold], by simp⟩
      simp only [reduceCtorEq, true_and, false_iff]
      omega
  | resumes hseen hold => simp [hold]
  | moves hseen hnew => simp [hnew]

/-- The remembered value stays, or it moves forward. -/
theorem Watches.forward (h : Watches f0 past (freshAfter f0 past)) (hw : f0.Width)
    (hpast : past ≠ []) (v : UInt32) :
    (freshAfter f0 (v :: past)).last = (freshAfter f0 past).last ∨
      (1 ≤ ahead f0.bits (freshAfter f0 past).last.toNat (freshAfter f0 (v :: past)).last.toNat ∧
        ahead f0.bits (freshAfter f0 past).last.toNat (freshAfter f0 (v :: past)).last.toNat ≤
          2 ^ (f0.bits - 1) - 1) := by
  have hmove := freshMove (h.width hw) v
  have hkind := h.kind_eq (v := v)
  have hmask := toNat_and_mask (h.width hw) v
  rw [← hkind] at hmove
  rw [h.bits] at hkind hmask
  have hnew : freshAfter f0 (v :: past) = (ecmFreshUpdate (freshAfter f0 past) v).1 := rfl
  rw [hnew]
  generalize ecmFreshUpdate (freshAfter f0 past) v = r at hmove ⊢
  generalize hk : kind f0.bits past v = k at hmove
  rw [hk] at hkind
  have hfirst : k ≠ .first := fun hf => hpast (past_eq_nil (hk.trans hf))
  generalize freshAfter f0 past = f at *
  -- only a forward sample moves the value, by the distance that makes it one
  have hdist (hforward : k = .forward) (hseen : f.seen = true) :
      1 ≤ ahead f0.bits f.last.toNat (v &&& f.mask).toNat ∧
        ahead f0.bits f.last.toNat (v &&& f.mask).toNat ≤ 2 ^ (f0.bits - 1) - 1 := by
    have hsame : ahead f0.bits f.last.toNat (v &&& f.mask).toNat =
        ahead f0.bits f.last.toNat v.toNat := by
      rw [hmask]
      exact ahead_mod _ _ _
    rw [hforward, hseen, if_pos rfl, kindOf] at hkind
    rw [hsame]
    split at hkind
    · exact absurd hkind (by simp)
    · split at hkind
      · omega
      · exact absurd hkind (by simp)
  cases hmove with
  | first => exact absurd rfl hfirst
  | backward => exact .inl rfl
  | waits => exact .inl rfl
  | starts => exact .inl rfl
  | stays => exact .inl rfl
  | resumes hseen => exact .inr (hdist rfl hseen)
  | moves hseen => exact .inr (hdist rfl hseen)

end Follow

/-! ## The result -/

/-- Of every past and every next sample, as long as there are fewer than `2 ^ 32`. -/
theorem fresh_reports (staleAfter : UInt32) (bits : Int) (past : List UInt32) (v : UInt32)
    (hlen : (v :: past).length < 2 ^ 32) :
    let f0 := ecmFreshInit staleAfter bits
    let f := freshAfter f0 past
    let f' := freshAfter f0 (v :: past)
    (report f0 past v = .staleStart ↔
      kind f0.bits past v = .unchanged ∧
        unchangedSince f0.bits past + 1 = f0.staleAfter.toNat) ∧
    (report f0 past v = .stale ↔
      kind f0.bits past v = .unchanged ∧ startedSince f0 past = true) ∧
    (report f0 past v = .resumed ↔
      kind f0.bits past v = .forward ∧ startedSince f0 past = true) ∧
    f'.staleEpisodes.toNat = starts f0 (v :: past) ∧
    remembered f0.bits (v :: past) = some f'.last.toNat ∧
    (past ≠ [] → f'.last = f.last ∨
      (1 ≤ ahead f0.bits f.last.toNat f'.last.toNat ∧
        ahead f0.bits f.last.toNat f'.last.toNat ≤ 2 ^ (f0.bits - 1) - 1)) := by
  intro f0 f f'
  have hw : f0.Width := by
    have hbits : f0.bits = if bits = 8 ∨ bits = 32 then bits.toNat else 16 := rfl
    unfold Fresh.Width
    rw [hbits]
    split
    · rename_i hb
      rcases hb with rfl | rfl
      · exact .inl rfl
      · exact .inr (.inr rfl)
    · exact .inr (.inl rfl)
  have hafter : 0 < f0.staleAfter.toNat := by
    show 0 < (if staleAfter = 0 then (1 : UInt32) else staleAfter).toNat
    split
    · decide
    · rename_i hne
      exact Nat.pos_of_ne_zero fun h0 => hne (UInt32.toNat_inj.1 h0)
  have hfresh : f0.seen = false ∧ f0.run = 0 ∧ f0.stale = false ∧ f0.staleEpisodes = 0 :=
    ⟨rfl, rfl, rfl, rfl⟩
  rw [List.length_cons] at hlen
  have hpast : Watches f0 past f := watches hw hafter hfresh (by omega)
  have hnext : Watches f0 (v :: past) f' := watches hw hafter hfresh (by simpa using hlen)
  obtain ⟨hstart, hstale, hresumed⟩ := hpast.reports hw hlen v
  refine ⟨hstart, hstale, hresumed, hnext.episodes, ?_, fun hne => hpast.forward hw hne v⟩
  have hseen : f'.seen = true := by
    have hsome := remembered_ne_none f0.bits v past
    rw [hnext.remembers] at hsome
    by_contra hno
    exact hsome (if_neg hno)
  rw [hnext.remembers, if_pos hseen]

/-- An 8-bit counter that stands still for two samples, with a regression in between, and
then moves on. -/
theorem fresh_reports_eight :
    report (ecmFreshInit 2 8) [200, 7, 7] 7 = .staleStart ∧
      report (ecmFreshInit 2 8) [7, 200, 7, 7] 7 = .stale ∧
      report (ecmFreshInit 2 8) [7, 200, 7, 7] 9 = .resumed := by
  refine ⟨?_, ?_, ?_⟩
  · exact (fresh_reports 2 8 [200, 7, 7] 7 (by decide)).1.2 (by decide)
  · exact (fresh_reports 2 8 [7, 200, 7, 7] 7 (by decide)).2.1.2 (by decide)
  · exact (fresh_reports 2 8 [7, 200, 7, 7] 9 (by decide)).2.2.1.2 (by decide)

end EcMaster.Policy
