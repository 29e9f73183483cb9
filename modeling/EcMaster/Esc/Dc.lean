import EcMaster.Core.Dc
import EcMaster.Lib.Checked

/-!
# The distributed clock of a node

The soft bus is a chain of virtual slaves, for tests.  This is `tools/soft_bus/esc_dc.c`,
the part that a frame runs through: `escDcBeforeRead` brings the clock registers up to date
before a read, `escDcAfterWrite` does what a write to one of them asks for (latch the
receive times, one step of the time control loop, reset its filters, start SYNC0).

A node has the registers of its slave controller, its place in the chain and its clock
unit (`Node`); the rest of `esc_t` is not used here.  A register of a fixed address is read
and written by `byte`, `set` and their wider forms, which take a proof that the address
is inside of the array; what is read from the data of a frame goes through `Lib/Checked`
instead.

Times are integers.  Where the source cuts a time to 32 or 64 bits, so does the model,
and a system time that leaves its `int64_t` is put back by `Core.toI64`.
-/

namespace EcMaster.Esc

open EcMaster.Checked
open EcMaster.Core (toI64)

/-! ## The register array -/

/-- `ESC_REG_SPACE_SIZE`. -/
abbrev escRegSpaceSize : Nat := 0x2000

/-- `uint8_t regs[ESC_REG_SPACE_SIZE]`. -/
abbrev Regs := Fin escRegSpaceSize → UInt8

namespace Regs

/-- The byte at a fixed address. -/
def byte (r : Regs) (a : Nat) (h : a < escRegSpaceSize := by first | decide | omega) : UInt8 :=
  r ⟨a, h⟩

/-- `rd_le16`. -/
def le16 (r : Regs) (a : Nat) (h : a + 1 < escRegSpaceSize := by first | decide | omega) : Nat :=
  (r.byte a (by omega)).toNat + 256 * (r.byte (a + 1) h).toNat

/-- `rd_le32`. -/
def le32 (r : Regs) (a : Nat) (h : a + 3 < escRegSpaceSize := by first | decide | omega) : Nat :=
  r.le16 a (by omega) + 65536 * r.le16 (a + 2) (by omega)

/-- `rd64`. -/
def le64 (r : Regs) (a : Nat) (h : a + 7 < escRegSpaceSize := by first | decide | omega) : Nat :=
  r.le32 a (by omega) + 2 ^ 32 * r.le32 (a + 4) (by omega)

/-- Store a byte at a fixed address. -/
def set (r : Regs) (a : Nat) (v : UInt8)
    (h : a < escRegSpaceSize := by first | decide | omega) : Regs :=
  Function.update r ⟨a, h⟩ v

/-- `wr_le16`. -/
def set16 (r : Regs) (a v : Nat)
    (h : a + 1 < escRegSpaceSize := by first | decide | omega) : Regs :=
  (r.set a (UInt8.ofNat v) (by omega)).set (a + 1) (UInt8.ofNat (v / 256)) h

/-- `wr32`. -/
def set32 (r : Regs) (a v : Nat)
    (h : a + 3 < escRegSpaceSize := by first | decide | omega) : Regs :=
  (r.set16 a v (by omega)).set16 (a + 2) (v / 65536) (by omega)

/-- `wr64`. -/
def set64 (r : Regs) (a v : Nat)
    (h : a + 7 < escRegSpaceSize := by first | decide | omega) : Regs :=
  (r.set32 a v (by omega)).set32 (a + 4) (v / 2 ^ 32) (by omega)

end Regs

/-! ## The clock unit -/

/-- `esc_dc_state_t`, as far as a frame reads or writes it. -/
structure DcState where
  frameLocalNs : Int
  lastDtNs : Int
  dtFiltX16 : Int
  dtWrites : Nat
  tclIX16 : Int
  trimPpb : Int
  sync0Active : Bool
  sync0Start : Int
  sync0Cycle : Int
  sync0KLast : Int
  pdSinceEvent : Bool
  startInPast : Nat
  readSystime : Bool
deriving DecidableEq, Repr

/-- `esc_t`, as far as the clock unit uses it. -/
structure Node where
  regs : Regs
  positionInChain : Nat
  dc : DcState

/-- Width of the distributed clocks, `g_cfg.width`. -/
inductive DcWidth where
  | off | w32 | w64
deriving DecidableEq, Repr

/-- `g_cfg` and `g_n` of `esc_dc.c`. -/
structure DcCfg where
  width : DcWidth
  hopNs : Int
  n : Nat
deriving DecidableEq, Repr

/-! Addresses of the clock unit. -/

abbrev dcRecvPort0 : Nat := 0x0900
abbrev dcRecvPort1 : Nat := 0x0904
abbrev dcRecvPort2 : Nat := 0x0908
abbrev dcRecvPort3 : Nat := 0x090C
abbrev dcSystime : Nat := 0x0910
abbrev dcRecvEpu : Nat := 0x0918
abbrev dcSysoffset : Nat := 0x0920
abbrev dcSysdelay : Nat := 0x0928
abbrev dcSysdiff : Nat := 0x092C
abbrev dcSpeedstart : Nat := 0x0930
abbrev dcActivation : Nat := 0x0981
abbrev dcStart0 : Nat := 0x0990
abbrev dcCycle0 : Nat := 0x09A0

/-- `(uint32_t)t`. -/
def asU32 (t : Int) : Nat := (t % 2 ^ 32).toNat

/-- `(uint64_t)t`. -/
def asU64 (t : Int) : Nat := (t % 2 ^ 64).toNat

/-- `(int32_t)u` of a 32-bit value. -/
def asI32 (u : Nat) : Int := if u < 2 ^ 31 then u else (u : Int) - 2 ^ 32

/-- `(int64_t)u` of a 64-bit value. -/
def asI64 (u : Nat) : Int := if u < 2 ^ 63 then u else (u : Int) - 2 ^ 64

/-- `overlaps`. -/
def overlaps (off len reg regLen : Nat) : Bool := off < reg + regLen && off + len > reg

/-- `offset_internal`. -/
def offsetInternal (cfg : DcCfg) (n : Node) : Int :=
  if cfg.width = .w64 then asI64 (n.regs.le64 dcSysoffset) else n.regs.le32 dcSysoffset

/-- `esc_dc_frame_sys`. -/
def escDcFrameSys (cfg : DcCfg) (n : Node) : Int :=
  toI64 (n.dc.frameLocalNs + offsetInternal cfg n)

theorem low_word_lt {a : Nat} (h : a + 7 < escRegSpaceSize) : a + 3 < escRegSpaceSize := by
  omega

theorem high_word_lt {a : Nat} (h : a + 7 < escRegSpaceSize) : a + 4 + 3 < escRegSpaceSize := by
  omega

/-- `wr_time_view`. -/
def wrTimeView (cfg : DcCfg) (r : Regs) (a : Nat) (t : Int)
    (h : a + 7 < escRegSpaceSize := by first | decide | omega) : Regs :=
  if cfg.width = .w64 then r.set64 a (asU64 t) h
  else (r.set32 a (asU32 t) (low_word_lt h)).set32 (a + 4) 0 (high_word_lt h)

/-! ## Reads -/

/-- 0x0910: the system time at which the frame passes. -/
def readSystime (cfg : DcCfg) (n : Node) (off len : Nat) : Node :=
  if overlaps off len dcSystime 8 then
    { n with
      regs := wrTimeView cfg n.regs dcSystime (escDcFrameSys cfg n)
      dc := { n.dc with readSystime := true } }
  else n

/-- 0x092C: the mean difference, sign and magnitude. -/
def readSysdiff (n : Node) (off len : Nat) : Node :=
  if overlaps off len dcSysdiff 4 then
    let f := n.dc.dtFiltX16.tdiv 16
    let mag := f.natAbs % 2 ^ 31
    { n with regs := n.regs.set32 dcSysdiff (if 0 ≤ f then mag + 2 ^ 31 else mag) }
  else n

/-- 0x0990 while SYNC0 runs: the next pulse. -/
def readStart0 (cfg : DcCfg) (n : Node) (off len : Nat) : Node :=
  if n.dc.sync0Active && decide (0 < n.dc.sync0Cycle) && overlaps off len dcStart0 8 then
    let sys := escDcFrameSys cfg n
    let next :=
      if n.dc.sync0Start ≤ sys then
        n.dc.sync0Start +
          (Core.floorDiv (toI64 (sys - n.dc.sync0Start)) n.dc.sync0Cycle + 1) * n.dc.sync0Cycle
      else n.dc.sync0Start
    { n with regs := wrTimeView cfg n.regs dcStart0 next }
  else n

/-- `esc_dc_before_read`. -/
def escDcBeforeRead (cfg : DcCfg) (n : Node) (off len : Nat) : Node :=
  if cfg.width = .off then n
  else readStart0 cfg (readSysdiff (readSystime cfg n off len) off len) off len

/-! ## Writes -/

/-- `latch_receive_times`. -/
def latchReceiveTimes (cfg : DcCfg) (n : Node) : Node :=
  let t0 := n.dc.frameLocalNs
  let pos : Int := n.positionInChain
  let t1 := t0 + 2 * cfg.hopNs * (cfg.n - 1 - pos)
  let r := n.regs.set32 dcRecvPort0 (asU32 t0)
  let r := r.set32 dcRecvPort1 (if pos < cfg.n - 1 then asU32 t1 else 0)
  let r := (r.set32 dcRecvPort2 0).set32 dcRecvPort3 0
  { n with regs := wrTimeView cfg r dcRecvEpu t0 }

/-- `TCL_TRIM_MAX_PPB`. -/
def tclTrimMaxPpb : Int := 500000

/-- `x` cut to `-m ..= m`. -/
def clampTo (m x : Int) : Int := if m < x then m else if x < -m then -m else x

/-- `time_control_loop`. -/
def timeControlLoop (cfg : DcCfg) (n : Node) (receivedLo : Nat) : Node :=
  let delay : Int := n.regs.le32 dcSysdelay
  let dt := asI32 (asU32 (escDcFrameSys cfg n - delay - receivedLo))
  let dtFilt := n.dc.dtFiltX16 + (dt - n.dc.dtFiltX16.tdiv 16)
  let e := dtFilt.tdiv 16
  let i := clampTo (tclTrimMaxPpb * 16) (n.dc.tclIX16 - dtFilt.tdiv 32)
  { n with
    dc :=
      { n.dc with
        lastDtNs := dt
        dtWrites := n.dc.dtWrites + 1
        dtFiltX16 := dtFilt
        tclIX16 := i
        trimPpb := clampTo tclTrimMaxPpb (i.tdiv 16 - e * 5) } }

/-- `sync0_activation`. -/
def sync0Activation (cfg : DcCfg) (n : Node) : Node :=
  if n.regs.byte dcActivation &&& 0x03 ≠ 0x03 then
    { n with dc := { n.dc with sync0Active := false } }
  else
    let now := escDcFrameSys cfg n
    let cycle : Int := n.regs.le32 dcCycle0
    let started (start : Int) (past : Nat) : Node :=
      { n with
        dc :=
          { n.dc with
            startInPast := n.dc.startInPast + past
            sync0Start := start
            sync0Cycle := cycle
            sync0KLast := -1
            pdSinceEvent := true
            sync0Active := true } }
    if cfg.width = .w64 then
      let start := asI64 (n.regs.le64 dcStart0)
      if start ≤ now then
        { n with dc := { n.dc with startInPast := n.dc.startInPast + 1, sync0Active := false } }
      else started start 0
    else
      let start := toI64 (now + asI32 (asU32 ((n.regs.le32 dcStart0 : Int) - now)))
      if start ≤ now then started (toI64 (start + 2 ^ 32)) 1 else started start 0

/-- Writing 0x0930 resets the filters. -/
def resetFilters (n : Node) : Node :=
  { n with dc := { n.dc with dtFiltX16 := 0, trimPpb := 0, tclIX16 := 0, lastDtNs := 0 } }

/-- A write that covers the low word of 0x0910 is compared with the local time. -/
def compareSystime (cfg : DcCfg) (n : Node) (off : Nat) (data : List UInt8) : Chk Node :=
  if overlaps off data.length dcSystime 1 && decide (off ≤ dcSystime) &&
      decide (dcSystime + 4 ≤ off + data.length) then do
    let b0 ← cell data (dcSystime - off)
    let b1 ← cell data (dcSystime - off + 1)
    let b2 ← cell data (dcSystime - off + 2)
    let b3 ← cell data (dcSystime - off + 3)
    pure (timeControlLoop cfg n
      (b0.toNat + 256 * b1.toNat + 65536 * b2.toNat + 2 ^ 24 * b3.toNat))
  else pure n

/-- `esc_dc_after_write`. -/
def escDcAfterWrite (cfg : DcCfg) (n : Node) (off : Nat) (data : List UInt8) : Chk Node := do
  if cfg.width = .off then pure n
  else
    let len := data.length
    let n := if overlaps off len dcRecvPort0 1 then latchReceiveTimes cfg n else n
    let n ← compareSystime cfg n off data
    let n :=
      if overlaps off len dcSystime 8 then
        { n with regs := wrTimeView cfg n.regs dcSystime (escDcFrameSys cfg n) }
      else n
    let n :=
      if cfg.width = .w32 && overlaps off len (dcSysoffset + 4) 4 then
        { n with regs := n.regs.set32 (dcSysoffset + 4) 0 }
      else n
    let n := if overlaps off len dcSpeedstart 2 then resetFilters n else n
    pure (if overlaps off len dcActivation 1 then sync0Activation cfg n else n)

end EcMaster.Esc
