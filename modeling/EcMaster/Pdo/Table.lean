import EcMaster.Lib.CText
import EcMaster.Lib.Run
import EcMaster.Pdo.Bound

/-!
# The table of mapped entries

`ecm_pdo_add` appends one entry of a slave and a direction: its offset is what that
slave and direction have so far, and the total grows by its length.  So the entries
of one slave and direction stand one behind the other, and together they cover
everything up to the total (`Tiles`), however the additions for different slaves
were mixed.

`ecm_pdo_bind` looks an object up and adds the start of the slave's region in the
IOmap.  Where the regions share no bit, two handles for different entries share none
either: the entries of one region tile it, and the others are in another region.

The totals are sums of 16-bit lengths in 32 bits.  With at most
`ECM_PDO_MAX_ENTRIES` entries they do not wrap, which is part of the invariant.
-/

namespace EcMaster.Pdo

open EcMaster.CText EcMaster.Run

/-- `ECM_PDO_MAX_ENTRIES`. -/
def pdoMaxEntries : Nat := 1024

/-- `ECM_PDO_MAX_SLAVES`. -/
def pdoMaxSlaves : Nat := 64

/-- `ecm_pdo_dir_t`. -/
inductive Dir where
  | out | input
deriving DecidableEq, Repr

/-- The value of the enumeration in C. -/
def Dir.toNat : Dir → Nat
  | .out => 0
  | .input => 1

/-- The direction of a value, if it is one. -/
def Dir.ofNat? : Nat → Option Dir
  | 0 => some .out
  | 1 => some .input
  | _ => none

/-- `ecm_pdo_entry_t`. -/
structure PdoEntry where
  slave : Nat
  dir : Dir
  pdo : UInt16
  index : UInt16
  sub : UInt8
  bits : UInt16
  bitOff : Nat
deriving DecidableEq, Repr

/-- `ecm_pdo_table_t`. -/
structure PdoTable where
  e : List PdoEntry
  bits : Dir → Nat → Nat

/-- `ecm_pdo_table_init`. -/
def ecmPdoTableInit : PdoTable := { e := [], bits := fun _ _ => 0 }

/-- The arguments of `ecm_pdo_add`. -/
structure AddCall where
  slave : Int
  dir : Nat
  pdo : UInt16
  index : UInt16
  sub : UInt8
  bits : UInt16
deriving DecidableEq, Repr

/-- `ecm_pdo_add`, with its return value. -/
def ecmPdoAdd (t : PdoTable) (c : AddCall) : PdoTable × Int :=
  match Dir.ofNat? c.dir with
  | none => (t, -1)
  | some dir =>
      if pdoMaxEntries ≤ t.e.length ∨ c.slave < 1 ∨ pdoMaxSlaves < c.slave ∨ c.bits = 0 then
        (t, -1)
      else
        let slave := c.slave.toNat
        ({ e := t.e ++ [{ slave, dir, pdo := c.pdo, index := c.index, sub := c.sub
                          bits := c.bits, bitOff := t.bits dir slave }]
           bits := fun d s =>
             if d = dir ∧ s = slave then (t.bits d s + c.bits.toNat) % 2 ^ 32 else t.bits d s },
          0)

/-- One call. -/
def PdoTable.add (t : PdoTable) (c : AddCall) : PdoTable := (ecmPdoAdd t c).1

/-- The entry is the one that a call asks for, wherever it was put. -/
def PdoEntry.For (e : PdoEntry) (c : AddCall) : Prop :=
  (e.slave : Int) = c.slave ∧ e.dir.toNat = c.dir ∧ e.pdo = c.pdo ∧ e.index = c.index ∧
    e.sub = c.sub ∧ e.bits = c.bits

/-- The calls that are accepted. -/
def accepted (t : PdoTable) : List AddCall → List AddCall
  | [] => []
  | c :: cs => (if (ecmPdoAdd t c).2 = 0 then [c] else []) ++ accepted (t.add c) cs

/-- The entries of one slave and direction. -/
def PdoTable.entries (t : PdoTable) (s : Nat) (d : Dir) : List PdoEntry :=
  t.e.filter fun e => e.slave = s ∧ e.dir = d

/-- The first bit behind an entry. -/
def PdoEntry.stop (e : PdoEntry) : Nat := e.bitOff + e.bits.toNat

/-- The entries stand one behind the other from `start` to `stop`. -/
def Tiles : Nat → List PdoEntry → Nat → Prop
  | start, [], stop => start = stop
  | start, e :: es, stop => e.bitOff = start ∧ 0 < e.bits.toNat ∧ Tiles e.stop es stop

/-! ## Tilings -/

section Tilings

variable {start stop : Nat} {es : List PdoEntry} {e : PdoEntry}

theorem Tiles.le (h : Tiles start es stop) : start ≤ stop := by
  induction es generalizing start with
  | nil => exact Nat.le_of_eq h
  | cons e es ih =>
    obtain ⟨hoff, -, hrest⟩ := h
    have hle := ih hrest
    unfold PdoEntry.stop at hle
    omega

theorem Tiles.concat (h : Tiles start es stop) (hoff : e.bitOff = stop)
    (hbits : 0 < e.bits.toNat) : Tiles start (es ++ [e]) e.stop := by
  induction es generalizing start with
  | nil => exact ⟨hoff.trans (Eq.symm h), hbits, rfl⟩
  | cons e' es ih => exact ⟨h.1, h.2.1, ih h.2.2⟩

/-- An entry of a tiling lies inside it. -/
theorem Tiles.bounds (h : Tiles start es stop) (he : e ∈ es) :
    start ≤ e.bitOff ∧ e.stop ≤ stop := by
  induction es generalizing start with
  | nil => simp at he
  | cons e' es ih =>
    obtain ⟨hoff, hbits, hrest⟩ := h
    rcases List.mem_cons.1 he with rfl | hmem
    · exact ⟨Nat.le_of_eq hoff.symm, hrest.le⟩
    · obtain ⟨hlow, hhigh⟩ := ih hrest hmem
      unfold PdoEntry.stop at hlow
      exact ⟨by omega, hhigh⟩

/-- The entries come in order, each behind the ones before it. -/
theorem Tiles.pairwise (h : Tiles start es stop) :
    es.Pairwise fun e e' => e.stop ≤ e'.bitOff := by
  induction es generalizing start with
  | nil => exact .nil
  | cons e es ih =>
    obtain ⟨-, -, hrest⟩ := h
    exact .cons (fun e' he' => (hrest.bounds he').1) (ih hrest)

/-- The entries cover everything from `start` to `stop`. -/
theorem Tiles.covers (h : Tiles start es stop) (i : Nat) :
    (start ≤ i ∧ i < stop) ↔ ∃ e ∈ es, e.bitOff ≤ i ∧ i < e.stop := by
  induction es generalizing start with
  | nil =>
    have hnil : start = stop := h
    simp only [List.not_mem_nil, false_and, exists_false, iff_false]
    omega
  | cons e es ih =>
    obtain ⟨hoff, hbits, hrest⟩ := h
    have hle := hrest.le
    have hstop : e.stop = e.bitOff + e.bits.toNat := rfl
    simp only [List.mem_cons, exists_eq_or_imp, ← ih hrest]
    omega

end Tilings

/-! ## The table after any calls -/

/-- What holds of the table. -/
structure PdoTable.WellFormed (t : PdoTable) : Prop where
  full : t.e.length ≤ pdoMaxEntries
  slaves : ∀ e ∈ t.e, 1 ≤ e.slave ∧ e.slave ≤ pdoMaxSlaves
  tiles : ∀ s d, Tiles 0 (t.entries s d) (t.bits d s)
  small : ∀ s d, t.bits d s ≤ 65535 * t.e.length

theorem wellFormed_init : ecmPdoTableInit.WellFormed where
  full := Nat.zero_le _
  slaves := by simp [ecmPdoTableInit]
  tiles _ _ := rfl
  small _ _ := Nat.zero_le _

/-- What one call can do. -/
theorem ecmPdoAdd_cases (t : PdoTable) (c : AddCall) :
    ecmPdoAdd t c = (t, -1) ∨
      ∃ e : PdoEntry, e.For c ∧ e.bitOff = t.bits e.dir e.slave ∧ 0 < e.bits.toNat ∧
        (1 ≤ e.slave ∧ e.slave ≤ pdoMaxSlaves) ∧ t.e.length < pdoMaxEntries ∧
        ecmPdoAdd t c =
          ({ e := t.e ++ [e]
             bits := fun d s => if d = e.dir ∧ s = e.slave then
               (t.bits d s + e.bits.toNat) % 2 ^ 32 else t.bits d s }, 0) := by
  unfold ecmPdoAdd
  cases hdir : Dir.ofNat? c.dir with
  | none => exact .inl rfl
  | some dir =>
    dsimp only
    split
    · exact .inl rfl
    · rename_i hargs
      simp only [not_or, Nat.not_le, Int.not_lt] at hargs
      obtain ⟨hroom, hlow, hhigh, hbits⟩ := hargs
      refine .inr ⟨{ slave := c.slave.toNat, dir := dir, pdo := c.pdo, index := c.index
                     sub := c.sub, bits := c.bits, bitOff := t.bits dir c.slave.toNat },
        ⟨Int.toNat_of_nonneg (by omega), ?_, rfl, rfl, rfl, rfl⟩, rfl, ?_, ⟨?_, ?_⟩, hroom, rfl⟩
      · unfold Dir.ofNat? at hdir
        split at hdir
        · rename_i hzero
          cases hdir
          exact hzero.symm
        · rename_i hone
          cases hdir
          exact hone.symm
        · cases hdir
      · refine Nat.pos_of_ne_zero fun hzero => hbits ?_
        exact UInt16.toNat_inj.1 hzero
      · dsimp only
        omega
      · dsimp only
        omega

theorem PdoTable.WellFormed.add {t : PdoTable} (h : t.WellFormed) (c : AddCall) :
    (t.add c).WellFormed := by
  unfold PdoTable.add
  rcases ecmPdoAdd_cases t c with hrefused | ⟨e, -, hoff, hbits, hslave, hroom, htaken⟩
  · rw [hrefused]
    exact h
  rw [htaken]
  have hwidth := e.bits.toNat_lt
  -- the totals do not wrap
  have hsum : (t.bits e.dir e.slave + e.bits.toNat) % 2 ^ 32 =
      t.bits e.dir e.slave + e.bits.toNat := by
    apply Nat.mod_eq_of_lt
    have hsmall := h.small e.slave e.dir
    unfold pdoMaxEntries at hroom
    omega
  constructor
  · rw [List.length_append, List.length_singleton]
    exact hroom
  · intro e' he'
    rcases List.mem_append.1 he' with hmem | hlast
    · exact h.slaves e' hmem
    · rw [List.mem_singleton.1 hlast]
      exact hslave
  · intro s d
    unfold PdoTable.entries
    rw [List.filter_append]
    by_cases hsame : d = e.dir ∧ s = e.slave
    · obtain ⟨rfl, rfl⟩ := hsame
      simp only [decide_true, and_self, List.filter_cons_of_pos, List.filter_nil, if_true, hsum]
      rw [← hoff]
      exact (h.tiles e.slave e.dir).concat hoff hbits
    · have hother : ¬ (e.slave = s ∧ e.dir = d) := fun ⟨hs, hd⟩ => hsame ⟨hd.symm, hs.symm⟩
      have hnone : [e].filter (fun e => decide (e.slave = s ∧ e.dir = d)) = [] :=
        List.filter_cons_of_neg (by simpa using hother)
      dsimp only
      rw [hnone, List.append_nil, if_neg hsame]
      exact h.tiles s d
  · intro s d
    have hsmall := h.small s d
    rw [List.length_append, List.length_singleton]
    dsimp only
    split
    · rename_i hsame
      obtain ⟨rfl, rfl⟩ := hsame
      omega
    · omega

theorem wellFormed_run (calls : List AddCall) :
    (run PdoTable.add ecmPdoTableInit calls).WellFormed := by
  induction calls using List.reverseRecOn with
  | nil => exact wellFormed_init
  | append_singleton calls c ih =>
    rw [run_append]
    exact ih.add c

/-- The entries are those of the accepted calls, in call order. -/
theorem entries_of_accepted (t : PdoTable) (calls : List AddCall) :
    ∃ es, (run PdoTable.add t calls).e = t.e ++ es ∧
      List.Forall₂ PdoEntry.For es (accepted t calls) := by
  induction calls generalizing t with
  | nil => exact ⟨[], (List.append_nil _).symm, .nil⟩
  | cons c calls ih =>
    obtain ⟨es, hes, hfor⟩ := ih (t.add c)
    rw [run_cons, hes]
    unfold accepted
    rcases ecmPdoAdd_cases t c with hrefused | ⟨e, he, -, -, -, -, htaken⟩
    · have hsame : t.add c = t := by
        unfold PdoTable.add
        rw [hrefused]
      have hrc : ¬ (ecmPdoAdd t c).2 = 0 := by
        rw [hrefused]
        exact show ¬ (-1 : Int) = 0 by decide
      rw [if_neg hrc, hsame]
      rw [hsame] at hfor
      exact ⟨es, rfl, hfor⟩
    · have hmore : (t.add c).e = t.e ++ [e] := by
        unfold PdoTable.add
        rw [htaken]
      rw [hmore, htaken, if_pos rfl, List.append_assoc]
      exact ⟨[e] ++ es, rfl, .cons he hfor⟩

/-! ## Binding -/

/-- `ecm_pdo_loc_t`. -/
structure PdoLoc where
  group : UInt8
  outBit : UInt32
  inBit : UInt32
deriving DecidableEq, Repr

/-- Where the outputs or inputs of the slave start. -/
def PdoLoc.start (l : PdoLoc) : Dir → UInt32
  | .out => l.outBit
  | .input => l.inBit

/-- `0x%04X:%02X`. -/
def objectText (index : UInt16) (sub : UInt8) : Text :=
  txt "0x" ++ hexUpper 4 index.toNat ++ txt ":" ++ hexUpper 2 sub.toNat

/-- What a slave maps, for the message of `ecm_pdo_bind`. -/
def mapsText (t : PdoTable) (slave : Int) : Text :=
  let mapped := t.e.filter fun e => (e.slave : Int) = slave ∧ e.index ≠ 0
  if mapped = [] then txt " nothing"
  else mapped.flatMap fun e =>
    txt (if e.dir = .input then " in " else " out ") ++ objectText e.index e.sub

/-- `ecm_pdo_bind`, with the message that it writes if it fails. -/
def ecmPdoBind (t : PdoTable) (loc : Nat → PdoLoc) (slave : Int) (index : UInt16) (sub : UInt8) :
    Except Text PdoHandle :=
  if index = 0 then
    .error (txt "slave " ++ decInt slave ++ txt ": index 0 is padding, not an object")
  else
    match t.e.find? fun e => (e.slave : Int) = slave ∧ e.index = index ∧ e.sub = sub with
    | some e =>
        if 64 < e.bits.toNat then
          .error (txt "slave " ++ decInt slave ++ txt " " ++ objectText index sub ++ txt ": " ++
            dec e.bits.toNat ++ txt " bit, more than 64")
        else
          .ok { slave := UInt16.ofNat e.slave
                group := (loc e.slave).group
                dir := UInt8.ofNat e.dir.toNat
                bit := (loc e.slave).start e.dir + UInt32.ofNat e.bitOff
                bits := e.bits }
    | none =>
        .error (txt "slave " ++ decInt slave ++ txt " does not map " ++ objectText index sub ++
          txt "; it maps:" ++ mapsText t slave)

/-- Bit `i` belongs to the region of a slave and direction. -/
def InRegion (t : PdoTable) (loc : Nat → PdoLoc) (s : Nat) (d : Dir) (i : Nat) : Prop :=
  InBits ((loc s).start d).toNat (t.bits d s) i

/-- The regions of one group share no bit. -/
def RegionsDisjoint (t : PdoTable) (loc : Nat → PdoLoc) : Prop :=
  ∀ s d s' d', (s, d) ≠ (s', d') → (loc s).group = (loc s').group →
    ∀ i, InRegion t loc s d i → ¬ InRegion t loc s' d' i

/-- A handle stands for an entry of the table. -/
structure BoundTo (t : PdoTable) (loc : Nat → PdoLoc) (h : PdoHandle) (e : PdoEntry) : Prop where
  mem : e ∈ t.e
  group : h.group = (loc e.slave).group
  bit : h.bit = (loc e.slave).start e.dir + UInt32.ofNat e.bitOff
  bits : h.bits = e.bits

/-- One of the two entries is behind the other. -/
def Apart (e e' : PdoEntry) : Prop := e.stop ≤ e'.bitOff ∨ e'.stop ≤ e.bitOff

instance : Std.Symm Apart := ⟨fun _ _ h => h.symm⟩

section Binding

variable {t : PdoTable} {loc : Nat → PdoLoc} {h h' : PdoHandle} {e e' : PdoEntry}
  {slave : Int} {index : UInt16} {sub : UInt8}

theorem boundTo_of_bind (hbind : ecmPdoBind t loc slave index sub = .ok h) :
    ∃ e, BoundTo t loc h e ∧ (e.slave : Int) = slave ∧ e.index = index ∧ e.sub = sub := by
  unfold ecmPdoBind at hbind
  split at hbind
  · cases hbind
  split at hbind
  · rename_i e hfind
    split at hbind
    · cases hbind
    · cases hbind
      have hkey := List.find?_some hfind
      exact ⟨e, ⟨List.mem_of_find?_eq_some hfind, rfl, rfl, rfl⟩, by simpa using hkey⟩
  · cases hbind

/-- The bits of a handle, seen from the start of the region. -/
theorem covers_region (ht : t.WellFormed) (hb : BoundTo t loc h e) {i : Nat} (hi : h.Covers i) :
    InRegion t loc e.slave e.dir i ∧
      e.bitOff ≤ within ((loc e.slave).start e.dir).toNat i ∧
      within ((loc e.slave).start e.dir).toNat i < e.stop := by
  have hmem : e ∈ t.entries e.slave e.dir := by
    unfold PdoTable.entries
    rw [List.mem_filter]
    exact ⟨hb.mem, by simp⟩
  have hstop := ((ht.tiles e.slave e.dir).bounds hmem).2
  have hsmall := ht.small e.slave e.dir
  have hfull := ht.full
  have hstart := ((loc e.slave).start e.dir).toNat_lt
  unfold PdoHandle.Covers at hi
  rw [hb.bit, hb.bits, UInt32.toNat_add, UInt32.toNat_ofNat'] at hi
  unfold PdoEntry.stop at hstop ⊢
  unfold InRegion
  unfold InBits within at hi ⊢
  unfold pdoMaxEntries at hfull
  generalize ((loc e.slave).start e.dir).toNat = start at *
  generalize e.bitOff = off at *
  generalize e.bits.toNat = bits at *
  omega

/-- Handles for different entries share no bit. -/
theorem disjoint_of_ne (ht : t.WellFormed) (hloc : RegionsDisjoint t loc)
    (hb : BoundTo t loc h e) (hb' : BoundTo t loc h' e') (hne : e ≠ e')
    (hgroup : h.group = h'.group) : h.Disjoint h' := by
  intro i hi hi'
  obtain ⟨hregion, hlow, hhigh⟩ := covers_region ht hb hi
  obtain ⟨hregion', hlow', hhigh'⟩ := covers_region ht hb' hi'
  by_cases hsame : (e.slave, e.dir) = (e'.slave, e'.dir)
  · -- one region: the entries tile it
    obtain ⟨hslave, hdir⟩ := Prod.mk.inj hsame
    have hmem : e ∈ t.entries e.slave e.dir := List.mem_filter.2 ⟨hb.mem, by simp⟩
    have hmem' : e' ∈ t.entries e.slave e.dir :=
      List.mem_filter.2 ⟨hb'.mem, by simp [hslave, hdir]⟩
    have hpair : (t.entries e.slave e.dir).Pairwise Apart :=
      (ht.tiles e.slave e.dir).pairwise.imp fun hle => .inl hle
    have hapart : e.stop ≤ e'.bitOff ∨ e'.stop ≤ e.bitOff := hpair.forall hmem hmem' hne
    rw [← hslave, ← hdir] at hlow' hhigh'
    omega
  · rw [hb.group, hb'.group] at hgroup
    exact hloc _ _ _ _ hsame hgroup i hregion hregion'

end Binding

/-- After any calls of `ecm_pdo_add`, the accepted entries of each slave and direction
tile their region in call order, a refused call changes nothing, and where the
regions share no bit the handles of different entries share none. -/
theorem table_layout (calls : List AddCall) :
    let t := run PdoTable.add ecmPdoTableInit calls
    List.Forall₂ PdoEntry.For t.e (accepted ecmPdoTableInit calls) ∧
    (∀ s d, Tiles 0 (t.entries s d) (t.bits d s) ∧
      (t.entries s d).Pairwise (fun e e' => e.stop ≤ e'.bitOff) ∧
      ∀ i, i < t.bits d s ↔ ∃ e ∈ t.entries s d, e.bitOff ≤ i ∧ i < e.stop) ∧
    (∀ c, (ecmPdoAdd t c).2 ≠ 0 → (ecmPdoAdd t c).1 = t) ∧
    ∀ loc, RegionsDisjoint t loc → ∀ slave index sub slave' index' sub' h h',
      ecmPdoBind t loc slave index sub = .ok h →
      ecmPdoBind t loc slave' index' sub' = .ok h' →
      (slave, index, sub) ≠ (slave', index', sub') → h.group = h'.group → h.Disjoint h' := by
  intro t
  have ht : t.WellFormed := wellFormed_run calls
  refine ⟨?_, ?_, ?_, ?_⟩
  · obtain ⟨es, hes, hfor⟩ := entries_of_accepted ecmPdoTableInit calls
    have hall : t.e = es := hes
    rw [hall]
    exact hfor
  · intro s d
    have htiles := ht.tiles s d
    refine ⟨htiles, htiles.pairwise, fun i => ?_⟩
    rw [← htiles.covers i]
    simp
  · intro c hrc
    rcases ecmPdoAdd_cases t c with hrefused | ⟨e, -, -, -, -, -, htaken⟩
    · rw [hrefused]
    · rw [htaken] at hrc
      exact absurd rfl hrc
  · intro loc hloc slave index sub slave' index' sub' h h' hbind hbind' hkey hgroup
    obtain ⟨e, hb, hslave, hindex, hsub⟩ := boundTo_of_bind hbind
    obtain ⟨e', hb', hslave', hindex', hsub'⟩ := boundTo_of_bind hbind'
    refine disjoint_of_ne ht hloc hb hb' ?_ hgroup
    rintro rfl
    apply hkey
    rw [← hslave, ← hindex, ← hsub, hslave', hindex', hsub']

/-! Two slaves whose entries were added in turn. -/

def twoSlaves : List AddCall :=
  [⟨1, 0, 0x1600, 0x6040, 0, 16⟩, ⟨2, 0, 0x1600, 0x6040, 0, 16⟩, ⟨1, 0, 0x1600, 0x607A, 0, 32⟩,
    ⟨1, 2, 0x1600, 0x6060, 0, 8⟩, ⟨1, 1, 0x1A00, 0x6041, 0, 16⟩]

/-- Outputs of 48 and 16 bits, then the inputs. -/
def twoRegions (s : Nat) : PdoLoc :=
  { group := 0, outBit := if s = 1 then 0 else 48, inBit := 64 }

theorem table_layout_twoSlaves :
    ∃ h h' : PdoHandle,
      ecmPdoBind (run PdoTable.add ecmPdoTableInit twoSlaves) twoRegions 1 0x607A 0 = .ok h ∧
      ecmPdoBind (run PdoTable.add ecmPdoTableInit twoSlaves) twoRegions 2 0x6040 0 = .ok h' ∧
      h.bit = 16 ∧ h'.bit = 48 ∧ h.Disjoint h' := by
  have hregions : RegionsDisjoint (run PdoTable.add ecmPdoTableInit twoSlaves) twoRegions := by
    have htotal : ∀ s d, (run PdoTable.add ecmPdoTableInit twoSlaves).bits d s =
        if s = 1 then (if d = .out then 48 else 16) else if s = 2 ∧ d = .out then 16 else 0 := by
      intro s d
      cases d <;> by_cases hone : s = 1 <;> by_cases htwo : s = 2 <;>
        simp [run, twoSlaves, PdoTable.add, ecmPdoAdd, Dir.ofNat?, pdoMaxEntries, pdoMaxSlaves,
          ecmPdoTableInit, hone, htwo]
    have hrange : ∀ s d i,
        InRegion (run PdoTable.add ecmPdoTableInit twoSlaves) twoRegions s d i →
        (s = 1 ∧ d = .out ∧ i < 48) ∨ (s = 2 ∧ d = .out ∧ 48 ≤ i ∧ i < 64) ∨
          (s = 1 ∧ d = .input ∧ 64 ≤ i ∧ i < 80) := by
      intro s d i hi
      unfold InRegion InBits within at hi
      rw [htotal] at hi
      cases d <;> by_cases hone : s = 1 <;> by_cases htwo : s = 2 <;>
        simp [twoRegions, PdoLoc.start, hone, htwo] at hi ⊢ <;> omega
    intro s d s' d' hne _ i hi hi'
    rcases hrange s d i hi with ⟨rfl, rfl, h⟩ | ⟨rfl, rfl, h⟩ | ⟨rfl, rfl, h⟩ <;>
      rcases hrange s' d' i hi' with ⟨rfl, rfl, h'⟩ | ⟨rfl, rfl, h'⟩ | ⟨rfl, rfl, h'⟩ <;>
      first | exact hne rfl | omega
  refine ⟨⟨1, 0, 0, 16, 32⟩, ⟨2, 0, 0, 48, 16⟩, rfl, rfl, rfl, rfl, ?_⟩
  exact (table_layout twoSlaves).2.2.2 twoRegions hregions 1 0x607A 0 2 0x6040 0 _ _ rfl rfl
    (by decide) rfl

end EcMaster.Pdo
