import EcMaster.Api.Backend
import EcMaster.Api.Values

/-!
# The allowlist of writable objects

`ecm_ctl_allow_load` and `allow_find` of `libecmaster/api/ecm_ctl.c`.  The
file is one JSON object; every element of its array `allow` becomes one entry
and the first element that is not a proper entry ends the load with an error
that names it.

What opening and reading the file gives is an argument: the text of
`strerror`, or the bytes of the file.  `allowLoop_proper` is the invariant of
the load: every entry that it keeps has passed the checks of `Allow.Proper`.
-/

namespace EcMaster.Api

open EcMaster.ByteImage EcMaster.CText

/-- `ecm_ctl_allow_t`. -/
structure Allow (D : Type) where
  vendor : UInt32
  product : UInt32
  index : UInt16
  sub : UInt8
  type : CType
  min : Val D
  max : Val D
  note : Text
deriving DecidableEq, Repr

/-- `ecm_ctl_allowlist_t`. -/
structure AllowList (D : Type) where
  path : Text
  e : List (Allow D)
deriving DecidableEq, Repr

/-- `ECM_CTL_ALLOW_MAX`. -/
def ctlAllowMax : Nat := 64

/-- `comm_area`. -/
def commArea (index : UInt16) : Bool := 0x1000 ≤ index && index ≤ 0x1FFF

/-- `get_u32`. -/
def getU32 (s : Image) (t : List Tok) (obj : Nat) (k : Text) (max : Nat) : Option Nat :=
  ((ecmJsonGet s t obj k).bind fun v => ecmJsonU64 s (tokAt t v)).bind fun x =>
    if max < x.toNat then none else some x.toNat

/-- Both entries are for the same object of the same kind of slave. -/
def Allow.same {D : Type} (e : Allow D) (vendor product : UInt32) (index : UInt16) (sub : UInt8) :
    Bool :=
  e.vendor = vendor && e.product = product && e.index = index && e.sub = sub

section Load

variable {σ D : Type} (fp : Fp D)

/-- `allow[k]` in front of an error. -/
def elementText (path : Text) (k : Nat) : Text := path ++ txt ": allow[" ++ dec k ++ txt "]"

/-- `allow[k] 0xIIII:S: ` in front of an error. -/
def objectText (path : Text) (k idx sub : Nat) : Text :=
  elementText path k ++ txt " 0x" ++ hexUpper 4 idx ++ txt ":" ++ dec sub ++ txt ": "

/-- One element of the array, up to the checks that need the backend or the
other entries. -/
def entryOf (s : Image) (t : List Tok) (path : Text) (k i : Nat) : Except Text (Allow D) :=
  if (tokAt t i).type ≠ .obj then .error (elementText path k ++ txt " is not an object")
  else
    match getU32 s t i (txt "vendor") (2 ^ 32 - 1), getU32 s t i (txt "product") (2 ^ 32 - 1) with
    | some vendor, some product =>
      match getU32 s t i (txt "index") 0xFFFF, getU32 s t i (txt "sub") 0xFF with
      | some idx, some sub =>
        let named := (ecmJsonGet s t i (txt "type")).bind fun v => ecmJsonStr s (tokAt t v) 16
        match (named.bind fun tn => ecmCtlTypeParse (cstr tn)).filter (· ≠ .raw) with
        | some type =>
          let limit (k : Text) := (ecmJsonGet s t i k).bind fun v => tokVal fp s (tokAt t v) type
          let limits := (limit (txt "min")).bind fun mn => (limit (txt "max")).bind fun mx =>
            if ecmCtlValFits fp type mn && ecmCtlValFits fp type mx &&
              ecmCtlValCmp fp type mn mx != .gt then some (mn, mx) else none
          match limits with
          | some (min, max) =>
            let note := ((ecmJsonGet s t i (txt "note")).bind fun v =>
              ecmJsonStr s (tokAt t v) 80).getD []
            let e : Allow D :=
              { vendor := UInt32.ofNat vendor, product := UInt32.ofNat product
                index := UInt16.ofNat idx, sub := UInt8.ofNat sub
                type, min, max, note := cstr note }
            if commArea e.index then
              .error (objectText path k idx sub ++
                txt "the communication area 0x1000..0x1FFF is never written through the API")
            else .ok e
          | none => .error (objectText path k idx sub ++ txt "min <= max within " ++
              ecmCtlTypeName type ++ txt " required")
        | none => .error (elementText path k ++
            txt ": type u8|i8|u16|i16|u32|i32|u64|i64|f32 required")
      | _, _ => .error (elementText path k ++
          txt ": index (0..0xFFFF) and sub (0..255) required")
    | _, _ => .error (elementText path k ++
        txt ": vendor and product (\"0x...\") required")

/-- `be && be->deny && be->deny(be->ctx, 0, ...)`. -/
def hardListed (be : Option (Backend σ)) (index : UInt16) (sub : UInt8) (x : World σ) :
    (Int × Text) × World σ :=
  match be with
  | none => ((0, []), x)
  | some be => x.deny be 0 index sub

/-- One turn of the loop: the entry, if the backend does not deny it and it
is not listed yet. -/
def loadEntry (be : Option (Backend σ)) (s : Image) (t : List Tok) (path : Text) (k i : Nat)
    (e : List (Allow D)) (x : World σ) : Except Text (Allow D) × World σ :=
  match entryOf fp s t path k i with
  | .error msg => (.error msg, x)
  | .ok a =>
      let denied := hardListed be a.index a.sub x
      if denied.1.1 ≠ 0 then
        (.error (objectText path k a.index.toNat a.sub.toNat ++
          txt "never written through the API: " ++ cstr (clip 128 denied.1.2)), denied.2)
      else if e.any fun o => o.same a.vendor a.product a.index a.sub then
        (.error (objectText path k a.index.toNat a.sub.toNat ++ txt "listed twice"), denied.2)
      else (.ok a, denied.2)

/-- What the load leaves behind: the list, the error text if it failed, and
the world. -/
structure Loaded (σ D : Type) where
  al : AllowList D
  err : Option Text
  world : World σ

/-- The loop over the elements of the array; `m` of them are left. -/
def allowLoop (be : Option (Backend σ)) (s : Image) (t : List Tok) (path : Text) :
    Nat → Nat → Nat → List (Allow D) → World σ → List (Allow D) × Option Text × World σ
  | 0, _, _, e, x => (e, none, x)
  | m + 1, k, i, e, x =>
      if ctlAllowMax ≤ e.length then
        (e, some (path ++ txt ": more than " ++ dec ctlAllowMax ++ txt " entries"), x)
      else
        match loadEntry fp be s t path k i e x with
        | (.error msg, x) => (e, some msg, x)
        | (.ok a, x) => allowLoop be s t path m (k + 1) (ecmJsonSkip t i) (e ++ [a]) x

/-- The text of the file, after the checks on the whole of it. -/
def loadText (be : Option (Backend σ)) (path text : Text) (x : World σ) :
    List (Allow D) × Option Text × World σ :=
  let s := ofText text
  match ecmJsonParse s text.length 4096 with
  | .error (_, pos) => ([], some (path ++ txt ": JSON error at byte " ++ dec pos), x)
  | .ok t =>
      let schema := (ecmJsonGet s t 0 (txt "schema")).bind fun v => ecmJsonU64 s (tokAt t v)
      if schema ≠ some 1 then ([], some (path ++ txt ": \"schema\": 1 expected"), x)
      else
        match (ecmJsonGet s t 0 (txt "allow")).filter fun a => (tokAt t a).type = .arr with
        | none => ([], some (path ++ txt ": \"allow\": [...] expected"), x)
        | some a => allowLoop fp be s t path (tokAt t a).size 0 (a + 1) [] x

/-- `ecm_ctl_allow_load`.  `file` is what opening `path` and reading it
gives; a file that fills the buffer of 64 KiB is too large. -/
def ecmCtlAllowLoad (be : Option (Backend σ)) (path : Option Text) (file : Except Text Text)
    (errlen : Nat) (x : World σ) : Loaded σ D :=
  match path with
  | none => { al := { path := [], e := [] }, err := none, world := x }
  | some path =>
      let r : List (Allow D) × Option Text × World σ :=
        match file with
        | .error why => ([], some (path ++ txt ": " ++ why), x)
        | .ok text =>
            if 64 * 1024 - 1 ≤ text.length then
              ([], some (path ++ txt ": larger than " ++ dec (64 * 1024 - 1) ++ txt " bytes"), x)
            else loadText fp be path text x
      { al := { path := clip 256 path, e := r.1 }, err := r.2.1.map (clip errlen), world := r.2.2 }

end Load

/-- `allow_find`; `none` is a list that is not there. -/
def allowFind {D : Type} (al : Option (AllowList D)) (vendor product : UInt32) (index : UInt16)
    (sub : UInt8) : Option (Allow D) :=
  al.bind fun al => al.e.find? fun e => e.same vendor product index sub

/-! ## What the load keeps -/

section Entries

variable {σ D : Type} {fp : Fp D}

/-- The checks that every entry has passed. -/
structure Allow.Proper (fp : Fp D) (e : Allow D) : Prop where
  type : e.type ≠ .raw
  minOf : e.min.Of e.type
  maxOf : e.max.Of e.type
  minFits : ecmCtlValFits fp e.type e.min = true
  maxFits : ecmCtlValFits fp e.type e.max = true
  ordered : e.min.Le fp e.max
  area : commArea e.index = false

/-- Entry `a` is what the object at token `i` says: the first member of each name, with
the checks that the members pass. -/
structure Describes (fp : Fp D) (s : Image) (t : List Tok) (i : Nat) (a : Allow D) : Prop where
  object : (tokAt t i).type = .obj
  vendor : getU32 s t i (txt "vendor") (2 ^ 32 - 1) = some a.vendor.toNat
  product : getU32 s t i (txt "product") (2 ^ 32 - 1) = some a.product.toNat
  index : getU32 s t i (txt "index") 0xFFFF = some a.index.toNat
  sub : getU32 s t i (txt "sub") 0xFF = some a.sub.toNat
  type : ∃ v tn, ecmJsonGet s t i (txt "type") = some v ∧ ecmJsonStr s (tokAt t v) 16 = some tn ∧
    ecmCtlTypeParse (cstr tn) = some a.type
  min : ∃ v, ecmJsonGet s t i (txt "min") = some v ∧ tokVal fp s (tokAt t v) a.type = some a.min
  max : ∃ v, ecmJsonGet s t i (txt "max") = some v ∧ tokVal fp s (tokAt t v) a.type = some a.max

theorem getU32_le {s : Image} {t : List Tok} {i : Nat} {k : Text} {max n : Nat}
    (h : getU32 s t i k max = some n) : n ≤ max := by
  obtain ⟨x, -, hx⟩ := Option.bind_eq_some_iff.1 h
  split at hx
  · cases hx
  · rename_i hle
    cases hx
    exact Nat.not_lt.1 hle

/-- What an accepted element says, and the checks it has passed. -/
theorem entryOf_eq_ok {s : Image} {t : List Tok} {path : Text} {k i : Nat} {e : Allow D}
    (h : entryOf fp s t path k i = .ok e) :
    Describes fp s t i e ∧ e.type ≠ .raw ∧ ecmCtlValFits fp e.type e.min = true ∧
      ecmCtlValFits fp e.type e.max = true ∧ ecmCtlValCmp fp e.type e.min e.max ≠ .gt ∧
      commArea e.index = false := by
  unfold entryOf at h
  split at h
  · cases h
  rename_i hobj
  split at h
  rotate_left
  · cases h
  rename_i vendor product hvendor hproduct
  split at h
  rotate_left
  · cases h
  rename_i idx sub hidx hsub
  dsimp only at h
  split at h
  rotate_left
  · cases h
  rename_i type htype
  split at h
  rotate_left
  · cases h
  rename_i mn mx hlimits
  split at h
  · cases h
  rename_i harea
  cases h
  obtain ⟨hparse, hraw⟩ := Option.filter_eq_some_iff.1 htype
  obtain ⟨tn, hnamed, htn⟩ := Option.bind_eq_some_iff.1 hparse
  obtain ⟨mn', hmn, hrest⟩ := Option.bind_eq_some_iff.1 hlimits
  obtain ⟨mx', hmx, hif⟩ := Option.bind_eq_some_iff.1 hrest
  split at hif
  rotate_left
  · cases hif
  rename_i hchecks
  cases hif
  simp only [Bool.and_eq_true, bne_iff_ne] at hchecks
  refine ⟨?_, by simpa using hraw, hchecks.1.1, hchecks.1.2, hchecks.2, by simpa using harea⟩
  exact {
    object := not_ne_iff.1 hobj
    vendor := by rw [hvendor, UInt32.toNat_ofNat_of_lt' (Nat.lt_succ_of_le (getU32_le hvendor))]
    product := by rw [hproduct, UInt32.toNat_ofNat_of_lt' (Nat.lt_succ_of_le (getU32_le hproduct))]
    index := by rw [hidx, UInt16.toNat_ofNat_of_lt' (Nat.lt_succ_of_le (getU32_le hidx))]
    sub := by rw [hsub, UInt8.toNat_ofNat_of_lt' (Nat.lt_succ_of_le (getU32_le hsub))]
    type := by
      obtain ⟨v, hget, hstr⟩ := Option.bind_eq_some_iff.1 hnamed
      exact ⟨v, tn, hget, hstr, htn⟩
    min := Option.bind_eq_some_iff.1 hmn
    max := Option.bind_eq_some_iff.1 hmx }

theorem entryOf_proper {s : Image} {t : List Tok} {path : Text} {k i : Nat} {e : Allow D}
    (h : entryOf fp s t path k i = .ok e) : e.Proper fp := by
  obtain ⟨hsaid, hraw, hminFits, hmaxFits, hcmp, harea⟩ := entryOf_eq_ok h
  obtain ⟨v, -, hv⟩ := hsaid.min
  obtain ⟨w, -, hw⟩ := hsaid.max
  have hminOf := tokVal_of hraw hv
  have hmaxOf := tokVal_of hraw hw
  exact {
    type := hraw
    minOf := hminOf
    maxOf := hmaxOf
    minFits := hminFits
    maxFits := hmaxFits
    ordered := (valCmp_le hminOf hmaxOf).1.1 hcmp
    area := harea }

theorem loadEntry_proper {be : Option (Backend σ)} {s : Image} {t : List Tok} {path : Text}
    {k i : Nat} {e : List (Allow D)} {x y : World σ} {a : Allow D}
    (h : loadEntry fp be s t path k i e x = (.ok a, y)) : a.Proper fp := by
  unfold loadEntry at h
  split at h
  · cases h
  · rename_i b hb
    dsimp only at h
    split at h
    · cases h
    · split at h
      · cases h
      · cases h
        exact entryOf_proper hb

/-- Every entry of the list that the loop returns is proper. -/
theorem allowLoop_proper {be : Option (Backend σ)} {s : Image} {t : List Tok} {path : Text}
    (m : Nat) : ∀ (k i : Nat) (e : List (Allow D)) (x : World σ),
      (∀ a ∈ e, a.Proper fp) →
      ∀ a ∈ (allowLoop fp be s t path m k i e x).1, a.Proper fp := by
  induction m with
  | zero =>
    intro k i e x he
    exact he
  | succ m ih =>
    intro k i e x he
    rw [allowLoop]
    split
    · exact he
    · split
      · exact he
      · rename_i a y hentry
        apply ih
        intro b hb
        rcases List.mem_append.1 hb with hold | hnew
        · exact he b hold
        · rw [List.mem_singleton.1 hnew]
          exact loadEntry_proper hentry

/-- Every entry of a loaded list is proper. -/
theorem ecmCtlAllowLoad_proper (be : Option (Backend σ)) (path : Option Text)
    (file : Except Text Text) (errlen : Nat) (x : World σ) :
    ∀ a ∈ (ecmCtlAllowLoad fp be path file errlen x).al.e, a.Proper fp := by
  unfold ecmCtlAllowLoad
  split
  · simp
  · dsimp only
    split
    · simp
    · split
      · simp
      · unfold loadText
        dsimp only
        split
        · simp
        · split
          · simp
          · split
            · simp
            · apply allowLoop_proper
              simp

end Entries

end EcMaster.Api
