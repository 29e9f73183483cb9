import EcMaster.Config.EniCheck
import EcMaster.Lib.Integers

/-!
# What an accepted configuration is

`Sound` is what the code behind the loader relies on: the declared number of slaves, in
order, positions that are those of the text and belong to slaves, PDO entries that add up
to the sizes, and what DC and the downloads need.

Most of it holds of every accepted text.  The positions are different.  `parse_reg`,
`parse_pdo` and `parse_coe` compare `(int)pos` with the number of slaves and store
`(uint16_t)pos`, so that `0x8000FFFF` passes as a negative number and is stored as
`65535` (`stray_position_accepted`).  `strtoull` reads a minus sign, so that
`-18446744073709551615` is `1`.  `accepted_sound_iff` says that nothing else is wrong: an
accepted text is sound if and only if the numbers that it writes at these places are
below `2 ^ 31` in magnitude.
-/

namespace EcMaster.Config

open EcMaster.CText
open EcMaster.Records

/-! ## Numbers of the text -/

/-- The number that a field writes. -/
def numberOf (t : Text) : Option Int := (whole 0 t).map fun r => signedInt r.1 r.2

/-- The number that a record writes behind its kind. -/
def written (tok : List Text) : Option Int := numberOf (tok.getD 1 [])

/-- The number is below `2 ^ 31` in magnitude. -/
def small (tok : List Text) : Bool := (written tok).all fun x => x.natAbs < 2 ^ 31

/-- The places where a text names a position or the number of slaves have small numbers. -/
structure SmallNumbers (text : Text) : Prop where
  slaves : ∀ tok ∈ (ofKind .slaves (records text)).getLast?, small tok = true
  coe : ∀ tok ∈ ofKind .coe (records text), small tok = true
  pdo : ∀ tok ∈ ofKind .pdo (records text), small tok = true
  reg : ∀ tok ∈ ofKind .reg (records text), small tok = true

/-- A number that the loader reads was written, and it is the same number if it is
small. -/
theorem numberOf_of_unsigned32 {t : Text} {v : Nat} (h : unsigned32 t = some v) :
    ∃ x, numberOf t = some x ∧ (x.natAbs < 2 ^ 31 → x = v) := by
  obtain ⟨neg, mag, hwhole, -, hv, hle⟩ := unsigned32_eq_some.1 h
  refine ⟨signedInt neg mag, ?_, ?_⟩
  · unfold numberOf
    rw [hwhole]
    rfl
  · intro hsmall
    unfold wrapped at hv
    cases neg with
    | false =>
        rw [← hv]
        rfl
    | true =>
        -- behind a minus sign only zero is left below `2 ^ 32`
        have hmag : mag < 2 ^ 31 := by simpa [signedInt] using hsmall
        simp only [if_true] at hv
        have hzero : mag = 0 := by omega
        subst hzero
        rw [← hv]
        rfl

theorem written_of_small {tok : List Text} {v : Nat}
    (h : unsigned32 (tok.getD 1 []) = some v) (hsmall : small tok = true) :
    written tok = some (v : Int) ∧ v < 2 ^ 31 := by
  obtain ⟨x, hx, hsame⟩ := numberOf_of_unsigned32 h
  have hwritten : written tok = some x := hx
  have habs : x.natAbs < 2 ^ 31 := by
    unfold small at hsmall
    rw [hwritten] at hsmall
    simpa using hsmall
  have hxv := hsame habs
  subst hxv
  exact ⟨hwritten, by simpa using habs⟩

theorem small_of_written {tok : List Text} {v : Nat} (h : written tok = some (v : Int))
    (hv : v < 2 ^ 31) : small tok = true := by
  unfold small
  rw [h]
  simpa using hv

theorem unsigned32_of_positionOf {tok : List Text} {pos : Nat} (h : positionOf tok = some pos) :
    unsigned32 (tok.getD 1 []) = some pos := by
  obtain ⟨t, ht, hpos⟩ := Option.bind_eq_some_iff.1 h
  rw [List.getD_eq_getElem?_getD, ht]
  exact hpos

/-- A small position that passes the check of the loader is the number of the text, and
no conversion changes it. -/
theorem position_of_small {tok : List Text} {pos n : Nat} (h : positionOf tok = some pos)
    (hle : asInt pos ≤ n) (hn : n ≤ ecmEniMaxSlaves) (hsmall : small tok = true) :
    written tok = some ((pos % 65536 : Nat) : Int) ∧ pos % 65536 = pos ∧ pos ≤ n := by
  obtain ⟨hwritten, hlt⟩ := written_of_small (unsigned32_of_positionOf h) hsmall
  have hint : asInt pos = pos := if_pos hlt
  have hmax : n ≤ 64 := hn
  have hpos : pos ≤ n := by omega
  have hmod : pos % 65536 = pos := Nat.mod_eq_of_lt (by omega)
  rw [hmod]
  exact ⟨hwritten, rfl, hpos⟩

/-! ## What the records with fields grant -/

section Fields

variable {lineno pos : Nat} {tok : List Text}

theorem regFields_pos {r : EniReg} (h : regFields lineno tok pos = .ok r) :
    r.pos = pos % 65536 := by
  unfold regFields at h
  simp only [bind_eq_ok, pure_eq_ok] at h
  obtain ⟨_, -, _, -, _, -, _, -, _, -, rfl⟩ := h
  rfl

theorem pdoFields_spec {p : EniPdo} (h : pdoFields lineno tok pos = .ok p) :
    p.pos = pos % 65536 ∧ p.bits ≤ 0xFFFF := by
  unfold pdoFields at h
  simp only [bind_eq_ok, pure_eq_ok, needU32_eq_ok] at h
  obtain ⟨_, -, _, -, _, -, _, -, bits, ⟨-, hbits⟩, _, -, rfl⟩ := h
  exact ⟨rfl, hbits⟩

theorem length_hexbytes_le {max : Nat} {s : Text} {b : List UInt8}
    (h : hexbytes max s = some b) : b.length ≤ max := by
  unfold hexbytes at h
  split at h
  · rw [← Option.some.inj h]
    exact Nat.zero_le _
  · exact length_hexBytes_le h

theorem coeFields_spec {c : EniCoe} (h : coeFields lineno tok pos = .ok c) :
    c.pos = pos % 65536 ∧
      (c.ccs = ccsDownload → 1 ≤ c.data.length ∧ c.data.length ≤ ecmEniMaxData) := by
  unfold coeFields at h
  simp only [bind_eq_ok, pure_eq_ok, present_eq_ok, refuse_eq_ok, Option.bind_eq_some_iff] at h
  obtain ⟨_, -, ccs, -, _, -, _, -, _, -, _, -, _, -, data, ⟨t, -, hdata⟩, _, hdown, rfl⟩ := h
  refine ⟨rfl, ?_⟩
  intro hccs
  have hne : data ≠ [] := fun hnil => hdown ⟨hccs, hnil⟩
  exact ⟨List.length_pos_iff.2 hne, length_hexbytes_le hdata⟩

/-- What the loader demands of a slave with DC and of the reference clock. -/
theorem slaveFields_dc {s : EniSlave} (h : slaveFields lineno tok pos = .ok s) :
    (s.dc = true → s.sync0Ns ≠ 0 ∧ s.assign ≠ 0) ∧ (s.refclock = true → s.dc = true) := by
  unfold slaveFields at h
  simp only [bind_eq_ok, pure_eq_ok, refuse_eq_ok, not_and, not_or] at h
  obtain ⟨_, -, _, -, _, -, _, -, _, -, _, -, _, -, dc, -, refclock, -, _, -, _, -, _, -, _, -, _,
    -, _, -, _, -, _, hdc, _, href, rfl⟩ := h
  refine ⟨?_, ?_⟩
  · intro h
    exact hdc (by simpa using h)
  · intro hr
    dsimp only at hr ⊢
    by_contra hzero
    exact href (by simpa using hzero) (by simpa using hr)

end Fields

/-! ## Sums of PDO entries -/

/-- The bits of the entries of one direction of a slave. -/
def entryBits (pdo : List EniPdo) (pos : Nat) (dir : EniDir) : Nat :=
  ((pdo.filter fun p => p.pos = pos ∧ p.dir = dir).map (·.bits)).sum

theorem foldl_add_mod {m : Nat} (xs : List Nat) {a : Nat} (ha : a < m) :
    xs.foldl (fun sum x => (sum + x) % m) a = (a + xs.sum) % m := by
  induction xs generalizing a with
  | nil => exact (Nat.mod_eq_of_lt ha).symm
  | cons x xs ih =>
      rw [List.foldl_cons, ih (Nat.mod_lt _ (Nat.zero_lt_of_lt ha)), List.sum_cons, Nat.mod_add_mod,
        Nat.add_assoc]

/-- The sum of the loader in 32 bits does not overflow. -/
theorem pdoBits_eq {pdo : List EniPdo} (hlen : pdo.length ≤ ecmEniMaxPdo)
    (hbits : ∀ p ∈ pdo, p.bits ≤ 0xFFFF) (pos : Nat) (dir : EniDir) :
    pdoBits pdo pos dir = entryBits pdo pos dir := by
  unfold pdoBits entryBits
  rw [foldl_add_mod _ (by decide), Nat.zero_add]
  refine Nat.mod_eq_of_lt ?_
  have hsum : ((pdo.filter fun p => p.pos = pos ∧ p.dir = dir).map (·.bits)).sum ≤
      ((pdo.filter fun p => p.pos = pos ∧ p.dir = dir).map (·.bits)).length • 0xFFFF := by
    refine List.sum_le_card_nsmul _ _ ?_
    intro b hb
    obtain ⟨p, hp, rfl⟩ := List.mem_map.1 hb
    exact hbits p (List.mem_filter.1 hp).1
  have hfew : ((pdo.filter fun p => p.pos = pos ∧ p.dir = dir).map (·.bits)).length ≤ 1024 := by
    rw [List.length_map]
    exact Nat.le_trans (List.length_filter_le _ _) hlen
  rw [smul_eq_mul] at hsum
  omega

/-! ## Sound configurations -/

/-- The position of an entry is the number of its record, and it is one of a slave, or at
least `low`. -/
def Placed {α : Type} (posOf : α → Nat) (low n : Nat) (tok : List Text) (x : α) : Prop :=
  written tok = some (posOf x : Int) ∧ low ≤ posOf x ∧ posOf x ≤ n

/-- What the code behind the loader relies on. -/
structure Sound (text : Text) (e : Eni) : Prop where
  /-- the last `slaves` record writes the number of slaves -/
  count : ∃ tok, (ofKind .slaves (records text)).getLast? = some tok ∧
    written tok = some (e.slave.length : Int) ∧ 1 ≤ e.slave.length ∧
    e.slave.length ≤ ecmEniMaxSlaves
  order : ∀ i s, e.slave[i]? = some s → s.pos = i + 1
  coe : Says (Placed EniCoe.pos 1 e.slave.length) .coe (records text) e.coe
  pdo : Says (Placed EniPdo.pos 1 e.slave.length) .pdo (records text) e.pdo
  reg : Says (Placed EniReg.pos 0 e.slave.length) .reg (records text) e.reg
  sizes : e.pdo ≠ [] → ∀ i s, e.slave[i]? = some s →
    entryBits e.pdo (i + 1) .out = s.osizeBits ∧ entryBits e.pdo (i + 1) .input = s.isizeBits
  dc : ∀ s ∈ e.slave, s.dc = true → s.sync0Ns ≠ 0 ∧ s.assign ≠ 0
  /-- one reference clock with DC, none without -/
  clock : (e.slave.filter (·.refclock)).length = if e.slave.any (·.dc) then 1 else 0
  download : ∀ c ∈ e.coe, c.ccs = ccsDownload →
    1 ≤ c.data.length ∧ c.data.length ≤ ecmEniMaxData
  /-- the slaves that `ecm_eni_check_supported` reads -/
  checked : ∀ r ∈ e.reg, readsSlave r = true → r.pos - 1 < e.slave.length
  /-- the slaves that the InitCmds are run on -/
  initCmds : ∀ c ∈ e.coe, 1 ≤ c.pos ∧ c.pos - 1 < e.slave.length

section LoadEnd

variable {st : Loading} {e : Eni}

/-- The checks behind the last line. -/
structure Ended (st : Loading) (e : Eni) : Prop where
  same : e = st.eni
  sizes : e.pdo ≠ [] → ∀ i s, e.slave[i]? = some s → ¬sizesDiffer e i s
  declared : st.declared = e.slave.length
  clocks : ¬(1 < (e.slave.filter (·.refclock)).length ∨
    ((e.slave.filter (·.dc)).length ≠ 0 ∧ (e.slave.filter (·.refclock)).length ≠ 1))

theorem ended_of_loadEnd (h : loadEnd st = .ok e) : Ended st e := by
  unfold loadEnd at h
  dsimp only at h
  split at h
  · cases h
  split at h
  · cases h
  split at h
  · cases h
  rename_i hfind
  split at h
  · cases h
  rename_i hdeclared
  split at h
  · cases h
  rename_i hclocks
  have hsame : st.eni = e := Except.ok.inj h
  rw [hsame] at hfind hdeclared hclocks
  refine ⟨hsame.symm, ?_, Decidable.not_not.1 hdeclared, hclocks⟩
  intro hpdo i s hs hdiffer
  have hmem : (s, i) ∈ e.slave.zipIdx := List.mem_zipIdx_iff_getElem?.2 hs
  have hnone := List.find?_eq_none.1 hfind (s, i) hmem
  exact hnone (decide_eq_true ⟨hpdo, hdiffer⟩)

/-- One reference clock with DC, none without. -/
theorem clock_of_ended (h : Ended st e)
    (href : ∀ s ∈ e.slave, s.refclock = true → s.dc = true) :
    (e.slave.filter (·.refclock)).length = if e.slave.any (·.dc) then 1 else 0 := by
  have hclocks := h.clocks
  by_cases hdc : e.slave.any (·.dc) = true
  · rw [if_pos hdc]
    obtain ⟨s, hs, hsdc⟩ := List.any_eq_true.1 hdc
    have hsome : (e.slave.filter (·.dc)).length ≠ 0 :=
      (List.length_pos_iff.2 (List.ne_nil_of_mem (List.mem_filter.2 ⟨hs, hsdc⟩))).ne'
    omega
  · rw [if_neg hdc, List.length_eq_zero_iff, List.filter_eq_nil_iff]
    intro s hs hsref
    exact hdc (List.any_eq_true.2 ⟨s, hs, href s hs hsref⟩)

end LoadEnd

section Accepted

variable {text : Text} {e : Eni}

theorem SlaveOf.dc {tok : List Text} {s : EniSlave} (h : SlaveOf tok s) :
    (s.dc = true → s.sync0Ns ≠ 0 ∧ s.assign ≠ 0) ∧ (s.refclock = true → s.dc = true) := by
  obtain ⟨_, _, -, -, hs⟩ := h
  exact slaveFields_dc hs

theorem CoeOf.placed {n : Nat} {tok : List Text} {c : EniCoe} (h : CoeOf n tok c)
    (hn : n ≤ ecmEniMaxSlaves) (hsmall : small tok = true) : Placed EniCoe.pos 1 n tok c := by
  obtain ⟨_, pos, hpos, ⟨hone, hle⟩, hc⟩ := h
  obtain ⟨hwritten, hmod, hle⟩ := position_of_small hpos hle hn hsmall
  have hstored := (coeFields_spec hc).1
  rw [← hstored] at hwritten hmod
  exact ⟨hwritten, hmod ▸ hone, hmod ▸ hle⟩

theorem PdoOf.placed {n : Nat} {tok : List Text} {p : EniPdo} (h : PdoOf n tok p)
    (hn : n ≤ ecmEniMaxSlaves) (hsmall : small tok = true) : Placed EniPdo.pos 1 n tok p := by
  obtain ⟨_, pos, hpos, ⟨hone, hle⟩, hp⟩ := h
  obtain ⟨hwritten, hmod, hle⟩ := position_of_small hpos hle hn hsmall
  have hstored := (pdoFields_spec hp).1
  rw [← hstored] at hwritten hmod
  exact ⟨hwritten, hmod ▸ hone, hmod ▸ hle⟩

theorem RegOf.placed {n : Nat} {tok : List Text} {r : EniReg} (h : RegOf n tok r)
    (hn : n ≤ ecmEniMaxSlaves) (hsmall : small tok = true) : Placed EniReg.pos 0 n tok r := by
  obtain ⟨_, pos, hpos, hle, hr⟩ := h
  obtain ⟨hwritten, hmod, hle⟩ := position_of_small hpos hle hn hsmall
  have hstored := regFields_pos hr
  rw [← hstored] at hwritten hmod
  exact ⟨hwritten, Nat.zero_le _, hmod ▸ hle⟩

/-- A relation between records and entries that holds of the records of the list. -/
theorem Says.strengthen {α : Type} {R R' : List Text → α → Prop} {k : Kind}
    {recs : List (List Text)} {xs : List α} (h : Says R k recs xs)
    (hR : ∀ tok ∈ ofKind k recs, ∀ x, R tok x → R' tok x) : Says R' k recs xs := by
  unfold Says at h ⊢
  generalize ofKind k recs = toks at h hR
  induction h with
  | nil => exact .nil
  | cons hrel _ ih =>
      refine .cons (hR _ List.mem_cons_self _ hrel) (ih ?_)
      intro tok htok
      exact hR tok (List.mem_cons_of_mem _ htok)

/-- What the entries have, as a fact about their records. -/
theorem Says.forall_tok {α : Type} {R : List Text → α → Prop} {k : Kind}
    {recs : List (List Text)} {xs : List α} (h : Says R k recs xs) {P : List Text → Prop}
    (hP : ∀ tok x, R tok x → P tok) : ∀ tok ∈ ofKind k recs, P tok := by
  unfold Says at h
  generalize ofKind k recs = toks at h
  induction h with
  | nil => exact nofun
  | cons hrel _ ih => exact List.forall_mem_cons.2 ⟨hP _ _ hrel, ih⟩

theorem small_of_placed {α : Type} {posOf : α → Nat} {low n : Nat} (hn : n ≤ ecmEniMaxSlaves)
    (tok : List Text) (x : α) (h : Placed posOf low n tok x) : small tok = true := by
  have hmax : n ≤ 64 := hn
  have hle := h.2.2
  exact small_of_written h.1 (by omega)

theorem smallNumbers_of_sound (h : Sound text e) : SmallNumbers text := by
  obtain ⟨tok, hlast, hwritten, hone, hmax⟩ := h.count
  refine ⟨?_, h.coe.forall_tok (small_of_placed hmax), h.pdo.forall_tok (small_of_placed hmax),
    h.reg.forall_tok (small_of_placed hmax)⟩
  intro tok' htok'
  rw [hlast, Option.mem_some_iff] at htok'
  rw [← htok']
  have hmax' : e.slave.length ≤ 64 := hmax
  exact small_of_written hwritten (by omega)

theorem sound_of_smallNumbers {st : Loading} (htold : Told (records text) st) (hend : Ended st e)
    (hsmall : SmallNumbers text) : Sound text e := by
  have hsame := hend.same
  subst hsame
  rcases htold.declared with hnone | ⟨tok, v, hlast, hv, ⟨hone, hmax⟩, hdeclared⟩
  · have := hend.declared
    omega
  have hcount : v = st.eni.slave.length := by
    have := hend.declared
    omega
  subst hcount
  have hcoe : Says (Placed EniCoe.pos 1 st.eni.slave.length) .coe (records text) st.eni.coe :=
    htold.coe.strengthen fun tok htok c hc => hc.placed hmax (hsmall.coe tok htok)
  have hpdo : Says (Placed EniPdo.pos 1 st.eni.slave.length) .pdo (records text) st.eni.pdo :=
    htold.pdo.strengthen fun tok htok p hp => hp.placed hmax (hsmall.pdo tok htok)
  have hreg : Says (Placed EniReg.pos 0 st.eni.slave.length) .reg (records text) st.eni.reg :=
    htold.reg.strengthen fun tok htok r hr => hr.placed hmax (hsmall.reg tok htok)
  have hbits : ∀ p ∈ st.eni.pdo, p.bits ≤ 0xFFFF := by
    intro p hp
    obtain ⟨_, -, _, _, -, -, hp⟩ := htold.pdo.of_mem hp
    exact (pdoFields_spec hp).2
  have hslave : ∀ s ∈ st.eni.slave, (s.dc = true → s.sync0Ns ≠ 0 ∧ s.assign ≠ 0) ∧
      (s.refclock = true → s.dc = true) := by
    intro s hs
    obtain ⟨_, -, hs⟩ := htold.slave.of_mem hs
    exact hs.dc
  constructor
  case count =>
    exact ⟨tok, hlast, (written_of_small hv (hsmall.slaves tok hlast)).1, hone, hmax⟩
  case order => exact htold.order
  case coe => exact hcoe
  case pdo => exact hpdo
  case reg => exact hreg
  case sizes =>
    intro hne i s hs
    have hequal := hend.sizes hne i s hs
    unfold sizesDiffer at hequal
    rw [not_or, Decidable.not_not, Decidable.not_not, pdoBits_eq htold.room hbits,
      pdoBits_eq htold.room hbits] at hequal
    exact hequal
  case dc => exact fun s hs => (hslave s hs).1
  case clock => exact clock_of_ended hend fun s hs => (hslave s hs).2
  case download =>
    intro c hc
    obtain ⟨_, -, _, _, -, -, hc⟩ := htold.coe.of_mem hc
    exact (coeFields_spec hc).2
  case checked =>
    intro r hr _
    obtain ⟨_, -, -, -, hle⟩ := hreg.of_mem hr
    omega
  case initCmds =>
    intro c hc
    obtain ⟨_, -, -, hlow, hle⟩ := hcoe.of_mem hc
    exact ⟨hlow, by omega⟩

end Accepted

/-- An accepted configuration is sound exactly if the numbers that the text writes at the
positions are below `2 ^ 31` in magnitude. -/
theorem accepted_sound_iff (text : Text) (e : Eni) (h : ecmEniParseText text = .ok e) :
    Sound text e ↔ SmallNumbers text := by
  obtain ⟨st, htold, hend⟩ := told_of_parse h
  exact ⟨smallNumbers_of_sound, sound_of_smallNumbers htold (ended_of_loadEnd hend)⟩

/-- The head of a file with one slave. -/
def oneSlave : Text :=
  txt "enicfg 2\n" ++ txt "pd_cmd lrw\n" ++ txt "slaves 1\n" ++
  txt "slave 1 vendor 2 " ++ txt "product 3 rev 1 " ++ txt "check_rev 0 addr 7 " ++
  txt "osize_bits 8 " ++ txt "isize_bits 0 dc 1 " ++ txt "refclock 1 " ++ txt "sync0_ns 9 " ++
  txt "sync1_ns 0 " ++ txt "shift_ns 0 " ++ txt "assign 0x0300\n"

/-- A file as the converter writes it. -/
def plainFile : Text :=
  oneSlave ++ txt "reg 1 trans PS " ++ txt "cmd 5 ado 0x0980 " ++ txt "len 2 data 0003\n" ++
  txt "pdo 1 dir out " ++ txt "pdo 0x1600 " ++ txt "index 0x7000 " ++ txt "sub 0x01 bits 8\n" ++
  txt "coe 1 trans PS " ++ txt "ccs 1 index 0x8000 " ++ txt "sub 0x01 ca 0 " ++
  txt "timeout_ms 0 " ++ txt "data 2a00\n"

theorem accepted_sound_iff_plainFile :
    ∃ e, ecmEniParseText plainFile = .ok e ∧ Sound plainFile e := by
  have hrun : (ecmEniParseText plainFile).toOption.isSome = true := by decide +kernel
  obtain ⟨e, he⟩ := Option.isSome_iff_exists.1 hrun
  have hok := toOption_eq_some.1 he
  have hsmall : (∀ tok ∈ (ofKind .slaves (records plainFile)).getLast?, small tok = true) ∧
      (∀ tok ∈ ofKind .coe (records plainFile), small tok = true) ∧
      (∀ tok ∈ ofKind .pdo (records plainFile), small tok = true) ∧
      ∀ tok ∈ ofKind .reg (records plainFile), small tok = true := by decide +kernel
  obtain ⟨hslaves, hcoe, hpdo, hreg⟩ := hsmall
  exact ⟨e, hok, (accepted_sound_iff plainFile e hok).2 ⟨hslaves, hcoe, hpdo, hreg⟩⟩

/-- A file with a register InitCmd at position `0x8000FFFF`. -/
def strayFile : Text :=
  oneSlave ++ txt "reg 0x8000FFFF " ++ txt "trans PS cmd 5 " ++ txt "ado 0x0980 len 2 " ++
  txt "data 0003\n"

/-- The file is accepted and the InitCmd stored with position 65535, which
`ecm_eni_check_supported` uses as an index behind the array of slaves. -/
theorem stray_position_accepted :
    ∃ e, ecmEniParseText strayFile = .ok e ∧ e.reg.map (·.pos) = [65535] ∧
      e.slave.length = 1 ∧ ecmEniCheckSupported e false = none ∧ ¬Sound strayFile e := by
  have hrun : ((ecmEniParseText strayFile).toOption.map fun e =>
      (e.reg.map (·.pos), e.slave.length, ecmEniCheckSupported e false)) =
      some ([65535], 1, none) := by decide +kernel
  have hlarge : ¬∀ tok ∈ ofKind .reg (records strayFile), small tok = true := by decide +kernel
  obtain ⟨e, he, hvalues⟩ := Option.map_eq_some_iff.1 hrun
  simp only [Prod.mk.injEq] at hvalues
  exact ⟨e, toOption_eq_some.1 he, hvalues.1, hvalues.2.1, hvalues.2.2,
    fun hsound => hlarge (smallNumbers_of_sound hsound).reg⟩

end EcMaster.Config
