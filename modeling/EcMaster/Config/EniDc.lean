import EcMaster.Config.EniAccept

/-!
# DC registers of a configuration

A configuration says twice how a slave's SYNC units are set: in the slave record, which is
what the master applies, and in the register InitCmds of the step from PREOP to SAFEOP.
`Agree` is that the two say the same, byte by byte, whatever the shape of the InitCmd.

`ecm_eni_check_supported` compares whole registers.  It looks at an InitCmd that starts at
`0x0980`, `0x09A0` or `0x09A4`, is long enough, and belongs to a slave with DC.  `compared`
are the bytes that it sees.  A write of one byte of `0x0980`, of `0x0981` alone, of a part of
`0x09A0`, of registers in front of them with a length that reaches them, or on a slave
without DC is not compared (`short_write_not_compared`).

So what the check secures is a matter of the shape of the InitCmds: their addresses and
lengths, and which slaves have DC.  `SameShape` are the configurations that differ in the
data only.  `check_secures_agreement_iff` says that passing the check means agreement for
all data exactly if every DC register byte that is written is compared.
-/

namespace EcMaster.Config

open EcMaster.CText
open EcMaster.Records

/-! ## What the InitCmds say -/

/-- Byte `i` of a number, the least significant one first. -/
def byteOf (v i : Nat) : Nat := v / 256 ^ i % 256

/-- The byte of the slave record that belongs to a register address. -/
def dcByte (s : EniSlave) (a : Nat) : Option Nat :=
  if 0x0980 ≤ a ∧ a ≤ 0x0981 then some (byteOf s.assign (a - 0x0980))
  else if 0x09A0 ≤ a ∧ a ≤ 0x09A3 then some (byteOf s.sync0Ns (a - 0x09A0))
  else if 0x09A4 ≤ a ∧ a ≤ 0x09A7 then some (byteOf s.sync1Ns (a - 0x09A4))
  else none

/-- The commands that write registers: APWR, APRW, FPWR, FPRW, BWR, BRW, ARMW, FRMW. -/
def writesRegisters (cmd : Nat) : Bool := [2, 3, 5, 6, 8, 9, 13, 14].contains cmd

/-- `r` is a register write of slave `s` at the step from PREOP to SAFEOP. -/
structure PsWrite (e : Eni) (s : EniSlave) (r : EniReg) : Prop where
  slave : s ∈ e.slave
  reg : r ∈ e.reg
  pos : s.pos = r.pos
  trans : r.trans.testBit transPs = true
  cmd : writesRegisters r.cmd = true

/-- The InitCmd covers the register address. -/
def EniReg.Covers (r : EniReg) (a : Nat) : Prop := r.ado ≤ a ∧ a < r.ado + r.len

/-- The InitCmd has the byte `w` for the register address. -/
def EniReg.Carries (r : EniReg) (a w : Nat) : Prop := r.data[a - r.ado]?.map (·.toNat) = some w

/-- The register writes say what the slave records say. -/
def Agree (e : Eni) : Prop :=
  ∀ s r, PsWrite e s r → ∀ a w, dcByte s a = some w → r.Covers a → r.Carries a w

/-- The addresses at which the check looks at the InitCmd. -/
def compared (s : EniSlave) (r : EniReg) (a : Nat) : Bool :=
  s.dc ∧
    (r.ado = 0x0980 ∧ 2 ≤ r.data.length ∧ 0x0980 ≤ a ∧ a ≤ 0x0981 ∨
      r.ado = 0x09A0 ∧ 4 ≤ r.data.length ∧ 0x09A0 ≤ a ∧ a ≤ 0x09A3 ∨
      r.ado = 0x09A0 ∧ 8 ≤ r.data.length ∧ 0x09A4 ≤ a ∧ a ≤ 0x09A7 ∨
      r.ado = 0x09A4 ∧ 4 ≤ r.data.length ∧ 0x09A4 ≤ a ∧ a ≤ 0x09A7)

/-- Every DC register byte that a register write covers is one that the check looks at. -/
def AllCompared (e : Eni) : Prop :=
  ∀ s r, PsWrite e s r → ∀ a, (dcByte s a).isSome = true → r.Covers a → compared s r a = true

/-- The InitCmds have other data of the same length. -/
def EniReg.SameShape (r r' : EniReg) : Prop :=
  ∃ data, data.length = r.data.length ∧ r' = { r with data := data }

/-- The configurations differ at most in the data of their register InitCmds. -/
def SameShape (e e' : Eni) : Prop :=
  ∃ reg, List.Forall₂ EniReg.SameShape e.reg reg ∧ e' = { e with reg := reg }

/-! ## Bytes of a number -/

theorem byteOf_littleEndian {bs : List UInt8} {i : Nat} {b : UInt8} (h : bs[i]? = some b) :
    byteOf (littleEndian bs) i = b.toNat := by
  induction bs generalizing i with
  | nil => cases h
  | cons c bs ih =>
      have hc : c.toNat < 256 := c.toNat_lt
      cases i with
      | zero =>
          rw [List.getElem?_cons_zero, Option.some.injEq] at h
          unfold byteOf littleEndian
          rw [← h, Nat.pow_zero, Nat.div_one]
          omega
      | succ i =>
          rw [List.getElem?_cons_succ] at h
          rw [← ih h]
          unfold byteOf
          rw [littleEndian, Nat.pow_succ', ← Nat.div_div_eq_div_mul,
            Nat.add_mul_div_left _ _ (by decide), Nat.div_eq_of_lt hc, Nat.zero_add]

/-- The bytes of an InitCmd are those of the number that it writes. -/
theorem carries_number {r : EniReg} {i n k : Nat} (hk : k < n) (hlen : i + n ≤ r.data.length) :
    r.data[i + k]?.map (·.toNat) = some (byteOf (r.number i n) k) := by
  obtain ⟨b, hb⟩ : ∃ b, r.data[i + k]? = some b :=
    ⟨_, List.getElem?_eq_getElem (by omega : i + k < r.data.length)⟩
  have hbyte : ((r.data.drop i).take n)[k]? = some b := by
    rw [List.getElem?_take_of_lt hk, List.getElem?_drop]
    exact hb
  unfold EniReg.number
  rw [hb, byteOf_littleEndian hbyte]
  rfl

/-! ## What the check compares -/

/-- The numbers that the check finds equal fix the bytes that it compares. -/
theorem carries_of_compared {s : EniSlave} {r : EniReg}
    (h : ∀ x ∈ (dcCompared s r).1, x.1 = x.2) {a w : Nat} (hw : dcByte s a = some w)
    (ha : compared s r a = true) : r.Carries a w := by
  unfold compared at ha
  rw [decide_eq_true_eq] at ha
  unfold EniReg.Carries
  rcases ha.2 with ⟨hado, hlen, hlo, hhi⟩ | ⟨hado, hlen, hlo, hhi⟩ | ⟨hado, hlen, hlo, hhi⟩ |
    ⟨hado, hlen, hlo, hhi⟩
  · -- AssignActivate
    have heq : s.assign = r.number 0 2 := by
      have hlist : (dcCompared s r).1 = [(s.assign, r.number 0 2)] := by
        rw [dcCompared, if_pos ⟨hado, hlen⟩]
      exact h (s.assign, r.number 0 2) (by rw [hlist]; exact List.mem_singleton_self _)
    rw [dcByte, if_pos ⟨hlo, hhi⟩, Option.some.injEq] at hw
    have hbyte := carries_number (r := r) (i := 0) (n := 2) (k := a - 0x0980) (by omega) hlen
    rw [← hw, heq, ← hbyte, hado, Nat.zero_add]
  · -- the cycle time of SYNC0
    have heq : s.sync0Ns = r.number 0 4 := by
      refine h (s.sync0Ns, r.number 0 4) ?_
      rw [dcCompared, if_neg (fun h' => by omega), if_pos ⟨hado, hlen⟩]
      exact List.mem_cons_self
    rw [dcByte, if_neg (by omega), if_pos ⟨hlo, hhi⟩, Option.some.injEq] at hw
    have hbyte := carries_number (r := r) (i := 0) (n := 4) (k := a - 0x09A0) (by omega) hlen
    rw [← hw, heq, ← hbyte, hado, Nat.zero_add]
  · -- the cycle time of SYNC1, behind that of SYNC0
    have heq : s.sync1Ns = r.number 4 4 := by
      refine h (s.sync1Ns, r.number 4 4) ?_
      rw [dcCompared, if_neg (fun h' => by omega), if_pos ⟨hado, by omega⟩, if_pos hlen]
      exact List.mem_cons_of_mem _ List.mem_cons_self
    rw [dcByte, if_neg (by omega), if_neg (by omega), if_pos ⟨hlo, hhi⟩, Option.some.injEq] at hw
    have hbyte := carries_number (r := r) (i := 4) (n := 4) (k := a - 0x09A4) (by omega) hlen
    have hindex : a - r.ado = 4 + (a - 0x09A4) := by omega
    rw [← hw, heq, ← hbyte, hindex]
  · -- the cycle time of SYNC1
    have heq : s.sync1Ns = r.number 0 4 := by
      refine h (s.sync1Ns, r.number 0 4) ?_
      rw [dcCompared, if_neg (fun h' => by omega), if_neg (fun h' => by omega),
        if_pos ⟨hado, hlen⟩]
      exact List.mem_cons_self
    rw [dcByte, if_neg (by omega), if_neg (by omega), if_pos ⟨hlo, hhi⟩, Option.some.injEq] at hw
    have hbyte := carries_number (r := r) (i := 0) (n := 4) (k := a - 0x09A4) (by omega) hlen
    rw [← hw, heq, ← hbyte, hado, Nat.zero_add]

/-- A register write that is known is one of the three plain ones. -/
theorem cmdKind_of_known {r : EniReg} (h : (ecmEniRegKnown r).1 = true)
    (hcmd : writesRegisters r.cmd = true) : cmdKind r.cmd = some .wr := by
  have hsome : cmdKind r.cmd ≠ none := by
    intro hnone
    unfold ecmEniRegKnown at h
    split at h
    · cases h
    · rw [hnone] at h
      cases h
  have hall : ∀ cmd ∈ [2, 3, 5, 6, 8, 9, 13, 14], cmdKind cmd ≠ none → cmdKind cmd = some .wr := by
    decide
  exact hall r.cmd (List.contains_iff_mem.1 hcmd) hsome

/-- The slave that the check reads is the one that the InitCmd belongs to. -/
theorem slaveAt_of_pos {e : Eni} (horder : ∀ i s, e.slave[i]? = some s → s.pos = i + 1)
    {s s' : EniSlave} (hs : s ∈ e.slave) (hread : slaveAt e (s.pos - 1) = some s') : s' = s := by
  obtain ⟨i, hi⟩ := List.mem_iff_getElem?.1 hs
  have hpos := horder i s hi
  unfold slaveAt at hread
  split at hread
  · rw [← Option.some.inj hread, hpos, Nat.add_sub_cancel, List.getD_eq_getElem?_getD, hi]
    rfl
  · cases hread

theorem carries_of_clean {e : Eni} (horder : ∀ i s, e.slave[i]? = some s → s.pos = i + 1)
    (hclean : Clean e) {s : EniSlave} {r : EniReg} (hwrite : PsWrite e s r) {a w : Nat}
    (hw : dcByte s a = some w) (ha : compared s r a = true) : r.Carries a w := by
  have hreads : readsSlave r = true := by
    obtain ⟨i, hi⟩ := List.mem_iff_getElem?.1 hwrite.slave
    have hpos : r.pos ≠ 0 := by
      rw [← hwrite.pos, horder i s hi]
      exact Nat.succ_ne_zero i
    unfold readsSlave
    rw [decide_eq_true_eq]
    exact ⟨hpos, hwrite.trans, cmdKind_of_known (hclean.known r hwrite.reg) hwrite.cmd⟩
  obtain ⟨s', hread, hequal⟩ := hclean.read r hwrite.reg hreads
  rw [← hwrite.pos] at hread
  rw [slaveAt_of_pos horder hwrite.slave hread] at hequal
  have hdc : s.dc = true := by
    unfold compared at ha
    rw [decide_eq_true_eq] at ha
    exact ha.1
  exact carries_of_compared (hequal hdc) hw ha

theorem order_of_parse {text : Text} {e : Eni} (h : ecmEniParseText text = .ok e) :
    ∀ i s, e.slave[i]? = some s → s.pos = i + 1 := by
  obtain ⟨st, htold, hend⟩ := told_of_parse h
  rw [(ended_of_loadEnd hend).same]
  exact htold.order

/-! ## Configurations of one shape -/

theorem EniReg.SameShape.refl (r : EniReg) : r.SameShape r := ⟨r.data, rfl, rfl⟩

theorem SameShape.refl (e : Eni) : SameShape e e :=
  ⟨e.reg, List.forall₂_same.2 fun r _ => .refl r, rfl⟩

/-- What the check looks at is a matter of the shape. -/
theorem AllCompared.of_sameShape {e e' : Eni} (h : AllCompared e) (hshape : SameShape e e') :
    AllCompared e' := by
  obtain ⟨reg, hreg, rfl⟩ := hshape
  intro s r' hwrite a ha hcovers
  obtain ⟨r, hr, data, hlen, rfl⟩ := exists_of_forall₂ hreg hwrite.reg
  have hold : PsWrite e s r := ⟨hwrite.slave, hr, hwrite.pos, hwrite.trans, hwrite.cmd⟩
  have hcompared := h s r hold a ha hcovers
  unfold compared at hcompared ⊢
  rw [hlen]
  exact hcompared

/-! ## Changing a byte that is not compared -/

/-- The InitCmd with another data byte. -/
def EniReg.setByte (r : EniReg) (i : Nat) (b : UInt8) : EniReg :=
  { r with data := r.data.set i b }

theorem number_setByte {r : EniReg} {i j n : Nat} (h : j + n ≤ i) (b : UInt8) :
    (r.setByte i b).number j n = r.number j n := by
  unfold EniReg.number EniReg.setByte
  rw [List.take_drop, List.take_drop, List.take_set_of_le (by omega)]

/-- The numbers that are compared do not have the byte in them. -/
theorem dcCompared_setByte {s : EniSlave} {r : EniReg} {a : Nat} (hdc : s.dc = true)
    (hcovers : r.Covers a) (ha : compared s r a = false) (b : UInt8) :
    (dcCompared s (r.setByte (a - r.ado) b)).1 = (dcCompared s r).1 := by
  have hlen : (r.setByte (a - r.ado) b).data.length = r.data.length := List.length_set
  have hado : (r.setByte (a - r.ado) b).ado = r.ado := rfl
  have hlo := hcovers.1
  rw [compared, decide_eq_false_iff_not] at ha
  simp only [hdc, true_and, not_or, not_and] at ha
  obtain ⟨hassign, hsync0, hboth, hsync1⟩ := ha
  unfold dcCompared
  rw [hlen, hado]
  split
  · rename_i h
    rw [number_setByte (by have := hassign h.1 h.2; omega)]
  split
  · rename_i h
    rw [number_setByte (by have := hsync0 h.1 h.2; omega)]
    split
    · rename_i hlong
      have := hsync0 h.1 h.2
      have := hboth h.1 hlong
      rw [number_setByte (by omega)]
    · rfl
  split
  · rename_i h
    rw [number_setByte (by have := hsync1 h.1 h.2; omega)]
  · rfl

/-- The only register whose data decides whether it is known is behind the DC registers. -/
theorem known_setByte {r : EniReg} (hado : r.ado ≠ 0x09A8) (i : Nat) (b : UInt8) :
    (ecmEniRegKnown (r.setByte i b)).1 = (ecmEniRegKnown r).1 := by
  have hzero : ∀ known ∈ knownRegs, known.zeroOnly = true → known.ado = 0x09A8 := by decide
  have hsetAdo : (r.setByte i b).ado = r.ado := rfl
  have hsetCmd : (r.setByte i b).cmd = r.cmd := rfl
  unfold ecmEniRegKnown
  rw [hsetAdo, hsetCmd]
  cases hfind : knownRegs.find? (·.ado == r.ado) with
  | none => rfl
  | some known =>
      have hsame : known.ado = r.ado := by simpa using List.find?_some hfind
      have hfree : known.zeroOnly = false := by
        rw [Bool.eq_false_iff]
        exact fun h => hado (hsame ▸ hzero known (List.mem_of_find?_eq_some hfind) h)
      simp [hfree]

/-- Changing a covered byte that is not compared leaves a configuration that passes. -/
theorem Clean.set {e : Eni} (horder : ∀ i s, e.slave[i]? = some s → s.pos = i + 1)
    (h : Clean e) {s : EniSlave} {r : EniReg} (hwrite : PsWrite e s r) {a : Nat}
    (hbyte : (dcByte s a).isSome = true) (hcovers : r.Covers a) (ha : compared s r a = false)
    (k : Nat) (b : UInt8) : Clean { e with reg := e.reg.set k (r.setByte (a - r.ado) b) } := by
  have hhigh : a ≤ 0x09A7 := by
    unfold dcByte at hbyte
    split_ifs at hbyte <;> first | omega | cases hbyte
  have hado : r.ado ≠ 0x09A8 := by
    have := hcovers.1
    omega
  refine ⟨h.lrw, ?_, ?_⟩
  · intro r' hr'
    rcases List.mem_or_eq_of_mem_set hr' with hr' | rfl
    · exact h.known r' hr'
    · rw [known_setByte hado]
      exact h.known r hwrite.reg
  · intro r' hr' hreads
    rcases List.mem_or_eq_of_mem_set hr' with hr' | rfl
    · exact h.read r' hr' hreads
    · obtain ⟨s', hs', hequal⟩ := h.read r hwrite.reg hreads
      refine ⟨s', hs', fun hdc => ?_⟩
      obtain rfl : s' = s := slaveAt_of_pos horder hwrite.slave (hwrite.pos ▸ hs')
      rw [dcCompared_setByte hdc hcovers ha]
      exact hequal hdc

/-- A byte that is covered and not compared can say anything. -/
theorem exists_disagreeing {e : Eni} (horder : ∀ i s, e.slave[i]? = some s → s.pos = i + 1)
    (hpasses : Passes e) {s : EniSlave} {r : EniReg} (hwrite : PsWrite e s r) {a w : Nat}
    (hw : dcByte s a = some w) (hcovers : r.Covers a) (ha : compared s r a = false) :
    ∃ e', SameShape e e' ∧ Passes e' ∧ ¬ Agree e' := by
  by_cases hcarries : r.Carries a w
  swap
  · exact ⟨e, .refl e, hpasses, fun hagree => hcarries (hagree s r hwrite a w hw hcovers)⟩
  -- the InitCmd says the right thing now; let it say the next number instead
  obtain ⟨b, hb, hbw⟩ := Option.map_eq_some_iff.1 hcarries
  obtain ⟨k, hk⟩ := List.mem_iff_getElem?.1 hwrite.reg
  obtain ⟨hlt, -⟩ := List.getElem?_eq_some_iff.1 hk
  obtain ⟨hi, -⟩ := List.getElem?_eq_some_iff.1 hb
  let r' := r.setByte (a - r.ado) (b + 1)
  refine ⟨{ e with reg := e.reg.set k r' }, ⟨_, ?_, rfl⟩,
    ((clean_of_passes hpasses).set horder hwrite (by rw [hw]; rfl) hcovers ha k (b + 1)).passes,
    fun hagree => ?_⟩
  · rw [List.forall₂_iff_get]
    refine ⟨List.length_set.symm, fun j hj hj' => ?_⟩
    by_cases hjk : k = j
    · subst hjk
      have hr : e.reg.get ⟨k, hj⟩ = r := by
        rw [List.get_eq_getElem]
        exact (List.getElem?_eq_some_iff.1 hk).2
      rw [hr, List.get_eq_getElem, List.getElem_set_self]
      exact ⟨_, List.length_set, rfl⟩
    · rw [List.get_eq_getElem, List.get_eq_getElem, List.getElem_set_ne hjk]
      exact .refl _
  · have hmem : r' ∈ e.reg.set k r' := List.mem_set hlt r'
    have hnew := hagree s r' ⟨hwrite.slave, hmem, hwrite.pos, hwrite.trans, hwrite.cmd⟩ a w hw
      hcovers
    have hnext : (b + 1).toNat = w := by
      have hset : (r.data.set (a - r.ado) (b + 1))[a - r.ado]? = some (b + 1) :=
        List.getElem?_set_self hi
      unfold EniReg.Carries at hnew
      change ((r.data.set (a - r.ado) (b + 1))[a - r.ado]?).map (·.toNat) = some w at hnew
      rw [hset] at hnew
      exact Option.some.inj hnew
    have hsame : b + 1 = b := UInt8.toNat_inj.1 (hnext.trans hbw.symm)
    simp at hsame

/-- Passing the check means agreement with the slave records, for all data that InitCmds of
this shape can have, exactly if every DC register byte that they write is compared. -/
theorem check_secures_agreement_iff (text : Text) (e : Eni) (h : ecmEniParseText text = .ok e)
    (hpasses : Passes e) :
    (∀ e', SameShape e e' → Passes e' → Agree e') ↔ AllCompared e := by
  have horder := order_of_parse h
  constructor
  · intro hsecured s r hwrite a ha hcovers
    obtain ⟨w, hw⟩ := Option.isSome_iff_exists.1 ha
    by_contra hnot
    rw [Bool.not_eq_true] at hnot
    obtain ⟨e', hshape, hpasses', hdisagrees⟩ :=
      exists_disagreeing horder hpasses hwrite hw hcovers hnot
    exact hdisagrees (hsecured e' hshape hpasses')
  · intro hall e' hshape hpasses' s r hwrite a w hw hcovers
    have hcompared := hall.of_sameShape hshape s r hwrite a (by rw [hw]; rfl) hcovers
    obtain ⟨reg, -, rfl⟩ := hshape
    exact carries_of_clean (e := { e with reg := reg }) horder (clean_of_passes hpasses') hwrite hw
      hcompared

/-- The slave of `oneSlave`. -/
def dcSlave : EniSlave :=
  { pos := 1, name := [], vendor := 2, product := 3, rev := 1, checkRev := false, addr := 7
    osizeBits := 8, isizeBits := 0, dc := true, refclock := true, sync0Ns := 9, sync1Ns := 0
    shiftNs := 0, assign := 0x0300, stateMs := [0, 0, 0] }

/-- A text that was parsed and checked. -/
theorem exists_passing (text : Text) (reg : List EniReg)
    (h : ((ecmEniParseText text).toOption.map fun e =>
      (e.reg, e.slave, ecmEniCheckSupported e false)) =
      some (reg, [dcSlave], some { bad := 0, warn := 0, err := [] })) :
    ∃ e, ecmEniParseText text = .ok e ∧ Passes e ∧ e.reg = reg ∧ e.slave = [dcSlave] := by
  obtain ⟨e, he, hvalues⟩ := Option.map_eq_some_iff.1 h
  simp only [Prod.mk.injEq] at hvalues
  obtain ⟨hreg, hslave, hcheck⟩ := hvalues
  exact ⟨e, toOption_eq_some.1 he, ⟨_, hcheck, rfl⟩, hreg, hslave⟩

/-- The one register write of `plainFile` is compared. -/
theorem check_secures_agreement_iff_plainFile :
    ∃ e, ecmEniParseText plainFile = .ok e ∧ Passes e ∧ e.reg.length = 1 ∧
      ∀ e', SameShape e e' → Passes e' → Agree e' := by
  let r : EniReg := { pos := 1, trans := 4, cmd := 5, ado := 0x0980, len := 2, data := [0, 3] }
  obtain ⟨e, hok, hpasses, hreg, hslave⟩ :=
    exists_passing plainFile [r] (by decide +kernel)
  refine ⟨e, hok, hpasses, by rw [hreg]; rfl,
    (check_secures_agreement_iff plainFile e hok hpasses).2 ?_⟩
  intro s r' hwrite a _ hcovers
  have hs := hwrite.slave
  have hr := hwrite.reg
  rw [hslave, List.mem_singleton] at hs
  rw [hreg, List.mem_singleton] at hr
  subst hs hr
  have haddr : a = 0x0980 ∨ a = 0x0981 := by
    have hlo : 0x0980 ≤ a := hcovers.1
    have hhi : a < 0x0980 + 2 := hcovers.2
    omega
  rcases haddr with rfl | rfl <;> decide

/-- A file that writes one byte of `AssignActivate`, another one than its slave record
says. -/
def shortWriteFile : Text :=
  oneSlave ++ txt "reg 1 trans PS " ++ txt "cmd 5 ado 0x0980 " ++ txt "len 1 data 07\n"

/-- The write of `0x0980` is known, and it is too short to be compared with `assign`. -/
theorem short_write_not_compared :
    ∃ e, ecmEniParseText shortWriteFile = .ok e ∧ Passes e ∧
      e.slave.map (·.assign) = [0x0300] ∧
      e.reg.map (fun r => (r.ado, r.data)) = [(0x0980, [7])] ∧ ¬Agree e := by
  let r : EniReg := { pos := 1, trans := 4, cmd := 5, ado := 0x0980, len := 1, data := [7] }
  obtain ⟨e, hok, hpasses, hreg, hslave⟩ :=
    exists_passing shortWriteFile [r] (by decide +kernel)
  refine ⟨e, hok, hpasses, by rw [hslave]; rfl, by rw [hreg]; rfl, ?_⟩
  intro hagree
  have hwrite : PsWrite e dcSlave r :=
    { slave := by rw [hslave]; exact List.mem_singleton_self _
      reg := by rw [hreg]; exact List.mem_singleton_self _
      pos := rfl
      trans := by decide
      cmd := rfl }
  have hcarries := hagree dcSlave r hwrite 0x0980 0 rfl ⟨Nat.le_refl _, by decide⟩
  exact absurd hcarries (by unfold EniReg.Carries; decide)

end EcMaster.Config
