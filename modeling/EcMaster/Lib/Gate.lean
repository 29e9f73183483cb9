import Mathlib

/-!
# A gate of a flag and a lock

Two sides share a resource.  The guard takes it for a long time and must not be
disturbed; the client uses it often and must not wait.  The guard raises a flag,
then takes a lock, works, releases the lock and lowers the flag.  The client takes
the lock for each use and goes on only if the flag is down.

`Gate.Inv` is what every step keeps.  It says that the client is never past its
check while the guard is inside (`Gate.Inv.exclusive`), that the flag is up all the
time, and that neither side waits for a lock it has itself.  A program is shown to be such a
gate by a map to `Gate` that takes each of its steps to a step or to nothing
(`Gate.Inv.of_reflGen`).
-/

namespace EcMaster

/-- The two sides. -/
inductive Gate.Side where
  | guard | client
deriving DecidableEq, Repr

/-- The guard: outside, waiting for the lock with the flag up, inside, or outside
again with the flag still up. -/
inductive Gate.GuardPc where
  | out | raised | inside | released
deriving DecidableEq, Repr

/-- The client: outside, with the lock before its check or after its use, or
between the two. -/
inductive Gate.ClientPc where
  | out | holding | passed
deriving DecidableEq, Repr

/-- The flag, the holder of the lock, and where the two sides are. -/
structure Gate where
  flag : Bool
  owner : Option Gate.Side
  guard : Gate.GuardPc
  client : Gate.ClientPc
deriving DecidableEq, Repr

namespace Gate

/-- What the two sides do. -/
inductive Step : Gate → Gate → Prop where
  | raise {g : Gate} : g.guard = .out → Step g { g with flag := true, guard := .raised }
  | enter {g : Gate} : g.guard = .raised → g.owner = none →
      Step g { g with owner := some .guard, guard := .inside }
  | leave {g : Gate} : g.guard = .inside → Step g { g with owner := none, guard := .released }
  | lower {g : Gate} : g.guard = .released → Step g { g with flag := false, guard := .out }
  | acquire {g : Gate} : g.client = .out → g.owner = none →
      Step g { g with owner := some .client, client := .holding }
  | pass {g : Gate} : g.client = .holding → g.flag = false →
      Step g { g with client := .passed }
  | done {g : Gate} : g.client = .passed → Step g { g with client := .holding }
  | release {g : Gate} : g.client ≠ .out → Step g { g with owner := none, client := .out }

/-- What holds of a gate at all times. -/
structure Inv (g : Gate) : Prop where
  guard_owns : g.owner = some .guard ↔ g.guard = .inside
  client_owns : g.owner = some .client ↔ g.client ≠ .out
  flag_up : g.flag = true ↔ g.guard ≠ .out
  passed_early : g.client = .passed → g.guard ≠ .released

theorem Inv.step {g g' : Gate} (hinv : Inv g) (hstep : Step g g') : Inv g' := by
  obtain ⟨hguard, hclient, hflag, hpassed⟩ := hinv
  cases hstep with
  | raise hout =>
    refine ⟨?_, hclient, by simp, by simp⟩
    simp [hguard, hout]
  | enter hraised hfree =>
    refine ⟨by simp, ?_, ?_, by simp⟩
    · simpa [hfree] using hclient
    · simp [hflag, hraised]
  | leave hinside =>
    have howner : g.owner = some .guard := hguard.2 hinside
    have hcl : g.client = .out := by simpa [howner] using hclient
    exact ⟨by simp, by simp [hcl], by simp [hflag, hinside], by simp [hcl]⟩
  | lower hreleased =>
    have howner : g.owner ≠ some .guard := by simp [hguard, hreleased]
    exact ⟨by simp [howner], hclient, by simp, by simp⟩
  | acquire hout hfree =>
    have hg : g.guard ≠ .inside := by simpa [hfree] using hguard
    exact ⟨by simp [hg], by simp, hflag, by simp⟩
  | pass hholding hdown =>
    have hg : g.guard = .out := by simpa [hdown] using hflag
    refine ⟨hguard, ?_, hflag, fun _ => by simp [hg]⟩
    simp [hclient, hholding]
  | done hpass =>
    refine ⟨hguard, ?_, hflag, by simp⟩
    simp [hclient, hpass]
  | release hin =>
    have howner : g.owner = some .client := hclient.2 hin
    have hg : g.guard ≠ .inside := by simpa [howner] using hguard
    exact ⟨by simp [hg], by simp, hflag, by simp⟩

/-- A step or nothing. -/
theorem Inv.of_reflGen {g g' : Gate} (hinv : Inv g) (hstep : Relation.ReflGen Step g g') :
    Inv g' := by
  cases hstep with
  | refl => exact hinv
  | single hstep => exact hinv.step hstep

/-- The client is not past its check from the time the guard is inside until the
flag is down. -/
theorem Inv.exclusive {g : Gate} (hinv : Inv g) (hpassed : g.client = .passed) :
    g.guard = .out ∨ g.guard = .raised := by
  have howner : g.owner = some .client := hinv.client_owns.2 (by simp [hpassed])
  cases hg : g.guard with
  | out => exact .inl rfl
  | raised => exact .inr rfl
  | inside => simp [hinv.guard_owns.2 hg] at howner
  | released => exact absurd hg (hinv.passed_early hpassed)

/-- The guard does not have the lock when it waits for it. -/
theorem Inv.not_self {g : Gate} (hinv : Inv g) (hraised : g.guard = .raised) :
    g.owner ≠ some .guard := by
  simp [hinv.guard_owns, hraised]

end Gate

end EcMaster
