import Mathlib

/-!
# C memory with its bounds checked

A C function that follows a pointer may leave the object the pointer is about.
Here it then ends with a `Fault`, and so does one that follows a null pointer or
that takes more turns of a loop than it was given (`Fault.endless`).  A function
that returns is a value of `Chk`.

A piece of memory whose size is only known at run time is a list, read by `cell`.
-/

namespace EcMaster.Checked

/-- How a function can fail to return. -/
inductive Fault where
  | outOfBounds | nullPointer | endless
deriving DecidableEq, Repr

/-- The result of a function that accesses memory. -/
abbrev Chk (α : Type) := Except Fault α

variable {α β σ ρ : Type} {n : Nat}

/-! ## Memory of a size known at run time -/

/-- `xs[i]`. -/
def cell (xs : List β) (i : Nat) : Chk β :=
  match xs[i]? with
  | some x => .ok x
  | none => .error .outOfBounds

end EcMaster.Checked
