import EcMaster.Lib.CText

/-!
# What the control interface asks the application

`libecmaster/api/ecm_ctl.c` knows neither SOEM nor CiA402: the application
hands it an `ecm_ctl_backend_t`, a table of functions over a context of its
own.  `Backend σ` is that table, with the context as explicit state, so that
a function may answer differently every time it is called.

`World σ` carries the context through one request, together with the calls
made so far and what they returned.  The list of calls is not data of the
source: it is what the properties of the interface are about.
-/

namespace EcMaster.Api

open EcMaster.CText

/-- What `sdo_read` and `sdo_write` return: the result code, the bytes read
and the abort code. -/
structure Sdo where
  rc : Int
  data : Text
  abort : UInt32
deriving DecidableEq, Repr

def sdoBusy : Int := -1
def sdoTimeout : Int := -2
def sdoTooLarge : Int := -3
def sdoFailed : Int := -4
def sdoNoMbx : Int := -5

/-- `ecm_ctl_backend_t`.  A function that may be `NULL` is an `Option`. -/
structure Backend (σ : Type) where
  /-- Vendor and product of a slave, `none` where there is no such slave. -/
  identity : σ → Nat → Option (UInt32 × UInt32) × σ
  /-- The hard list of the application: not `0` is a refusal with a reason. -/
  deny : Option (σ → Nat → UInt16 → UInt8 → (Int × Text) × σ)
  /-- `1` mapped in the slave's RxPDO, `0` not, `-1` the PDO table is not
  known. -/
  rxpdo : σ → Nat → UInt16 → UInt8 → Int × σ
  /-- `1` where the ENI writes the object with a CoE InitCmd. -/
  initcmd : Option (σ → Nat → UInt16 → UInt8 → Int × σ)
  /-- `0` where an SDO may be sent now, else a reason. -/
  ready : σ → Nat → (Int × Text) × σ
  sdoRead : σ → Nat → UInt16 → UInt8 → Sdo × σ
  sdoWrite : σ → Nat → UInt16 → UInt8 → Text → Sdo × σ
  abortText : Option (UInt32 → Text)
  /-- The members of the info object, for a buffer of the given size. -/
  info : Option (σ → Nat → Text × σ)
  /-- The members of the dump reply, or a negative result and its reason. -/
  dump : Option (σ → (Int × Text) × σ)

/-- One call into the backend, with the part of its answer that decides. -/
inductive Call where
  | identity (slave : Nat) (found : Option (UInt32 × UInt32))
  | deny (slave : Nat) (index : UInt16) (sub : UInt8) (r : Int)
  | rxpdo (slave : Nat) (index : UInt16) (sub : UInt8) (r : Int)
  | initcmd (slave : Nat) (index : UInt16) (sub : UInt8) (r : Int)
  | ready (slave : Nat) (r : Int)
  | sdoRead (slave : Nat) (index : UInt16) (sub : UInt8) (rc : Int)
  | sdoWrite (slave : Nat) (index : UInt16) (sub : UInt8) (bytes : Text) (rc : Int)
  | info
  | dump (rc : Int)
deriving DecidableEq, Repr

/-- The call sends a mailbox request to the slave. -/
def Call.reachesSlave : Call → Bool
  | .sdoRead .. | .sdoWrite .. => true
  | _ => false

/-- The call writes an object of the slave. -/
def Call.isWrite : Call → Bool
  | .sdoWrite .. => true
  | _ => false

/-- The context of the application and the calls made so far. -/
structure World (σ : Type) where
  ctx : σ
  calls : List Call

namespace World

variable {σ : Type} (be : Backend σ) (x : World σ)

/-- The world after one more call. -/
def after (ctx : σ) (c : Call) : World σ := { ctx, calls := x.calls ++ [c] }

def identity (slave : Nat) : Option (UInt32 × UInt32) × World σ :=
  let r := be.identity x.ctx slave
  (r.1, x.after r.2 (.identity slave r.1))

/-- `be->deny && be->deny(...)`, with its reason. -/
def deny (slave : Nat) (index : UInt16) (sub : UInt8) : (Int × Text) × World σ :=
  match be.deny with
  | none => ((0, []), x)
  | some f =>
      let r := f x.ctx slave index sub
      (r.1, x.after r.2 (.deny slave index sub r.1.1))

def rxpdo (slave : Nat) (index : UInt16) (sub : UInt8) : Int × World σ :=
  let r := be.rxpdo x.ctx slave index sub
  (r.1, x.after r.2 (.rxpdo slave index sub r.1))

/-- `be->initcmd && be->initcmd(...)`. -/
def initcmd (slave : Nat) (index : UInt16) (sub : UInt8) : Int × World σ :=
  match be.initcmd with
  | none => (0, x)
  | some f =>
      let r := f x.ctx slave index sub
      (r.1, x.after r.2 (.initcmd slave index sub r.1))

def ready (slave : Nat) : (Int × Text) × World σ :=
  let r := be.ready x.ctx slave
  (r.1, x.after r.2 (.ready slave r.1.1))

def sdoRead (slave : Nat) (index : UInt16) (sub : UInt8) : Sdo × World σ :=
  let r := be.sdoRead x.ctx slave index sub
  (r.1, x.after r.2 (.sdoRead slave index sub r.1.rc))

def sdoWrite (slave : Nat) (index : UInt16) (sub : UInt8) (bytes : Text) : Sdo × World σ :=
  let r := be.sdoWrite x.ctx slave index sub bytes
  (r.1, x.after r.2 (.sdoWrite slave index sub bytes r.1.rc))

variable {x}

/-- `y` comes after `x`, and nothing was sent to a slave in between. -/
def Asked (x y : World σ) : Prop :=
  ∃ added, y.calls = x.calls ++ added ∧ ∀ c ∈ added, c.reachesSlave = false

theorem Asked.refl (x : World σ) : x.Asked x := ⟨[], by simp⟩

theorem Asked.trans {x y z : World σ} (hxy : x.Asked y) (hyz : y.Asked z) : x.Asked z := by
  obtain ⟨a, ha, hqa⟩ := hxy
  obtain ⟨b, hb, hqb⟩ := hyz
  refine ⟨a ++ b, by rw [hb, ha, List.append_assoc], ?_⟩
  intro c hc
  rcases List.mem_append.1 hc with h | h
  · exact hqa c h
  · exact hqb c h

/-- Every call of the earlier world is one of the later world. -/
theorem Asked.mem {x y : World σ} (h : x.Asked y) {c : Call} (hc : c ∈ x.calls) : c ∈ y.calls := by
  obtain ⟨a, ha, -⟩ := h
  rw [ha]
  exact List.mem_append_left a hc

/-- From a world without calls, nothing has been sent. -/
theorem Asked.quiet {x y : World σ} (h : x.Asked y) (hx : x.calls = []) :
    ∀ c ∈ y.calls, c.reachesSlave = false := by
  obtain ⟨a, ha, hq⟩ := h
  rw [ha, hx]
  exact hq

theorem asked_after (x : World σ) (ctx : σ) {c : Call} (hc : c.reachesSlave = false) :
    x.Asked (x.after ctx c) :=
  ⟨[c], rfl, by simpa using hc⟩

theorem mem_after (x : World σ) (ctx : σ) (c : Call) : c ∈ (x.after ctx c).calls := by
  simp [after]

theorem asked_identity (slave : Nat) : x.Asked (x.identity be slave).2 :=
  asked_after x _ rfl

theorem mem_identity (slave : Nat) :
    Call.identity slave (x.identity be slave).1 ∈ (x.identity be slave).2.calls :=
  mem_after x _ _

theorem asked_deny (slave : Nat) (index : UInt16) (sub : UInt8) :
    x.Asked (x.deny be slave index sub).2 := by
  unfold deny
  split
  · exact Asked.refl x
  · exact asked_after x _ rfl

theorem mem_deny (hbe : be.deny ≠ none) (slave : Nat) (index : UInt16) (sub : UInt8) :
    Call.deny slave index sub (x.deny be slave index sub).1.1 ∈
      (x.deny be slave index sub).2.calls := by
  unfold deny
  split
  · rename_i hnone
    exact absurd hnone hbe
  · exact mem_after x _ _

theorem asked_rxpdo (slave : Nat) (index : UInt16) (sub : UInt8) :
    x.Asked (x.rxpdo be slave index sub).2 :=
  asked_after x _ rfl

theorem mem_rxpdo (slave : Nat) (index : UInt16) (sub : UInt8) :
    Call.rxpdo slave index sub (x.rxpdo be slave index sub).1 ∈
      (x.rxpdo be slave index sub).2.calls :=
  mem_after x _ _

theorem asked_initcmd (slave : Nat) (index : UInt16) (sub : UInt8) :
    x.Asked (x.initcmd be slave index sub).2 := by
  unfold initcmd
  split
  · exact Asked.refl x
  · exact asked_after x _ rfl

theorem mem_initcmd (hbe : be.initcmd ≠ none) (slave : Nat) (index : UInt16) (sub : UInt8) :
    Call.initcmd slave index sub (x.initcmd be slave index sub).1 ∈
      (x.initcmd be slave index sub).2.calls := by
  unfold initcmd
  split
  · rename_i hnone
    exact absurd hnone hbe
  · exact mem_after x _ _

theorem asked_ready (slave : Nat) : x.Asked (x.ready be slave).2 :=
  asked_after x _ rfl

theorem mem_ready (slave : Nat) :
    Call.ready slave (x.ready be slave).1.1 ∈ (x.ready be slave).2.calls :=
  mem_after x _ _

end World

/-- A backend with one slave, for the examples of the modules after this one. -/
def oneSlave : Backend Unit where
  identity _ slave := (if slave = 1 then some (0x00100000, 0x000C0108) else none, ())
  deny := some fun _ _ index _ => ((if index = 0x6040 then 1 else 0, txt "controlword"), ())
  rxpdo _ _ index _ := (if index = 0x607F then 1 else 0, ())
  initcmd := some fun _ _ index _ => (if index = 0x6072 then 1 else 0, ())
  ready _ _ := ((0, []), ())
  sdoRead _ _ _ _ := ({ rc := 0, data := [232, 3], abort := 0 }, ())
  sdoWrite _ _ _ _ _ := ({ rc := 0, data := [], abort := 0 }, ())
  abortText := none
  info := none
  dump := none

end EcMaster.Api
