import EcMaster.Diag.Analyze

/-!
# Which findings are kept

`ecm_diag_analyze` fills an array of the caller's.  Its header promises the most
severe findings first.  The function pushes findings in the order in which it
derives them and `push` drops what does not fit.  Only then are they sorted.  So a
report that is longer than the array keeps the findings that are derived first,
not the most severe ones: `lost_links_hide_error` is a bus whose 128 old link
losses leave no room for a slave that has left its state.

`KeepsMostSevere` is the promise.  `analyze_keeps_most_severe_iff` says for which
images and capacities it is kept.
-/

namespace EcMaster.Diag

open EcMaster.Ranked

/-- The most severe findings first, in the order of derivation within a severity. -/
def bySeverity (all : List Finding) : List Finding :=
  all.filter (·.sev = .error) ++ all.filter (·.sev = .warn) ++ all.filter (·.sev = .info)

/-- A report of at most `max` findings out of all of them. -/
structure KeepsMostSevere (all : List Finding) (max : Nat) (out : List Finding) : Prop where
  ordered : out = (bySeverity all).take max
  dropped : ∃ rest, (out ++ rest).Perm all ∧
    ∀ x ∈ out, ∀ y ∈ rest, y.sev.rank ≤ x.sev.rank

/-- None of the findings that come after the first `max` ones is more severe than
one of those. -/
def SevereInTime (all : List Finding) (max : Nat) : Prop :=
  ∀ x ∈ all.take max, ∀ y ∈ all.drop max, y.sev.rank ≤ x.sev.rank

theorem Sev.rank_lt (s : Sev) : s.rank < 3 := by
  cases s <;> decide

theorem classes_severity (all : List Finding) :
    classes (fun f => f.sev.rank) 3 all = bySeverity all := by
  have hclass : ∀ s : Sev, all.filter (fun f => f.sev.rank = s.rank) = all.filter (·.sev = s) := by
    intro s
    refine List.filter_congr fun f _ => ?_
    cases f.sev <;> cases s <;> rfl
  unfold bySeverity
  rw [← hclass .error, ← hclass .warn, ← hclass .info, List.append_assoc]
  exact congrArg _ (congrArg _ (List.append_nil _))

/-- For every image and every capacity. -/
theorem analyze_keeps_most_severe_iff (d : DiagModel) (max : Nat) :
    KeepsMostSevere (findings d) max (ecmDiagAnalyze d max) ↔ SevereInTime (findings d) max := by
  have hout : ecmDiagAnalyze d max = sortBack (fun f => f.sev.rank) ((findings d).take max) := by
    unfold ecmDiagAnalyze
    rw [foldl_push]
  have hcut : ecmDiagAnalyze d max = (bySeverity (findings d)).take max ↔
      SevereInTime (findings d) max := by
    rw [hout, ← classes_severity]
    exact sortBack_take_iff fun f _ => f.sev.rank_lt
  constructor
  · intro hkeeps
    exact hcut.1 hkeeps.ordered
  · intro htime
    have hperm : (ecmDiagAnalyze d max).Perm ((findings d).take max) := hout ▸ sortBack_perm _ _
    refine ⟨hcut.2 htime, (findings d).drop max, ?_, fun x hx => htime x (hperm.mem_iff.1 hx)⟩
    have hall := hperm.append_right ((findings d).drop max)
    rwa [List.take_append_drop] at hall

/-- 64 slaves that have each lost the link on two ports once.  The last read found
the first slave in SAFE-OP with its error bit. -/
def lostLinks : DiagModel :=
  { ecmDiagInit 64 0 with
    reads := 1
    s := fun i =>
      { unread with
        tot := countsOf fun j => if j = 16 ∨ j = 17 then 1 else 0
        answered := true
        seenRead := 1
        alStatus := if i = 0 then 0x14 else 8 } }

/-- The only error of the bus is left out for 128 warnings. -/
theorem lost_links_hide_error :
    (∃ f ∈ findings lostLinks, f.sev = .error ∧ f ∉ ecmDiagAnalyze lostLinks 128) ∧
      (ecmDiagAnalyze lostLinks 128).length = 128 ∧
      (∀ f ∈ ecmDiagAnalyze lostLinks 128, f.sev = .warn) ∧
      ¬ KeepsMostSevere (findings lostLinks) 128 (ecmDiagAnalyze lostLinks 128) := by
  refine ⟨⟨⟨.state, .error, 1, 0x14, 0, 0, true⟩, by decide +kernel⟩, by decide +kernel,
    by decide +kernel, fun h => absurd h.ordered (by decide +kernel)⟩

end EcMaster.Diag
