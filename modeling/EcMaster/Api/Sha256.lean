import EcMaster.Lib.Fips180

/-!
# SHA-256 of a configuration file

`ecm_sha256.c` hashes the loaded ENI.  `ecm_sha256_update` takes the file in pieces of
any size, collects 64 bytes in a buffer and hands each full buffer to `block`.
`ecm_sha256_final` pads through the same function.

There are three groups of results.

* `block_eq_compress`: the compression of the code is that of the standard.  The table
  of round constants is compared with the roots of the primes (`kTable_eq`).
* `Absorbed` is what the buffer and the hash value say about the bytes seen so far.
  `Absorbed.update` keeps it for every piece.
* `sha256_is_fips180`: the digest of every message, however it is cut.
-/

namespace EcMaster.Sha256

open EcMaster.Fips180

/-! ## The code -/

/-- `K`. -/
def kTable : List UInt32 :=
  [0x428a2f98, 0x71374491, 0xb5c0fbcf, 0xe9b5dba5, 0x3956c25b, 0x59f111f1, 0x923f82a4, 0xab1c5ed5,
    0xd807aa98, 0x12835b01, 0x243185be, 0x550c7dc3, 0x72be5d74, 0x80deb1fe, 0x9bdc06a7, 0xc19bf174,
    0xe49b69c1, 0xefbe4786, 0x0fc19dc6, 0x240ca1cc, 0x2de92c6f, 0x4a7484aa, 0x5cb0a9dc, 0x76f988da,
    0x983e5152, 0xa831c66d, 0xb00327c8, 0xbf597fc7, 0xc6e00bf3, 0xd5a79147, 0x06ca6351, 0x14292967,
    0x27b70a85, 0x2e1b2138, 0x4d2c6dfc, 0x53380d13, 0x650a7354, 0x766a0abb, 0x81c2c92e, 0x92722c85,
    0xa2bfe8a1, 0xa81a664b, 0xc24b8b70, 0xc76c51a3, 0xd192e819, 0xd6990624, 0xf40e3585, 0x106aa070,
    0x19a4c116, 0x1e376c08, 0x2748774c, 0x34b0bcb5, 0x391c0cb3, 0x4ed8aa4a, 0x5b9cca4f, 0x682e6ff3,
    0x748f82ee, 0x78a5636f, 0x84c87814, 0x8cc70208, 0x90befffa, 0xa4506ceb, 0xbef9a3f7, 0xc67178f2]

/-- `H0`. -/
def h0 : Regs UInt32 :=
  ⟨0x6a09e667, 0xbb67ae85, 0x3c6ef372, 0xa54ff53a, 0x510e527f, 0x9b05688c, 0x1f83d9ab, 0x5be0cd19⟩

def ror (x n : UInt32) : UInt32 := x >>> n ||| x <<< (32 - n)

/-- The words of a block, big endian. -/
def blockWord (p : List UInt8) (i : Nat) : UInt32 :=
  (p.getD (4 * i) 0).toUInt32 <<< 24 ||| (p.getD (4 * i + 1) 0).toUInt32 <<< 16 |||
    (p.getD (4 * i + 2) 0).toUInt32 <<< 8 ||| (p.getD (4 * i + 3) 0).toUInt32

/-- One more word of `w`. -/
def expand (w : List UInt32) (i : Nat) : List UInt32 :=
  let x := w.getD (i - 15) 0
  let y := w.getD (i - 2) 0
  let s0 := ror x 7 ^^^ ror x 18 ^^^ x >>> 3
  let s1 := ror y 17 ^^^ ror y 19 ^^^ y >>> 10
  w ++ [w.getD (i - 16) 0 + s0 + w.getD (i - 7) 0 + s1]

def blockSchedule (p : List UInt8) : List UInt32 :=
  (List.range' 16 48).foldl expand ((List.range 16).map (blockWord p))

/-- One turn of the loop over the rounds. -/
def blockRound (w : List UInt32) (v : Regs UInt32) (i : Nat) : Regs UInt32 :=
  let t1 := v.h + (ror v.e 6 ^^^ ror v.e 11 ^^^ ror v.e 25) + ((v.e &&& v.f) ^^^ (~~~v.e &&& v.g)) +
    kTable.getD i 0 + w.getD i 0
  let t2 := (ror v.a 2 ^^^ ror v.a 13 ^^^ ror v.a 22) +
    ((v.a &&& v.b) ^^^ (v.a &&& v.c) ^^^ (v.b &&& v.c))
  ⟨t1 + t2, v.a, v.b, v.c, v.d + t1, v.e, v.f, v.g⟩

def block (h : Regs UInt32) (p : List UInt8) : Regs UInt32 :=
  h.add ((List.range 64).foldl (blockRound (blockSchedule p)) h)

/-- `ecm_sha256_t`.  Between two calls the buffer is never full. -/
structure Ctx where
  h : Regs UInt32
  bytes : UInt64
  buf : List UInt8
  nbuf : Nat
  size : buf.length = 64
  room : nbuf < 64

/-- `ecm_sha256_init`.  The buffer has whatever is in the memory. -/
def ecmSha256Init (buf : List UInt8) (size : buf.length = 64) : Ctx :=
  { h := h0, bytes := 0, buf := buf, nbuf := 0, size := size, room := by decide }

/-- The number of bytes that go into the buffer next. -/
def Ctx.part (c : Ctx) (p : List UInt8) : Nat := min (64 - c.nbuf) p.length

/-- The buffer with these bytes copied behind the others. -/
def Ctx.copied (c : Ctx) (p : List UInt8) : List UInt8 :=
  c.buf.take c.nbuf ++ p.take (c.part p) ++ c.buf.drop (c.nbuf + c.part p)

theorem Ctx.length_copied (c : Ctx) (p : List UInt8) : (c.copied p).length = 64 := by
  have hsize := c.size
  have hroom := c.room
  simp only [copied, part, List.length_append, List.length_take, List.length_drop]
  omega

/-- One turn of the loop of `ecm_sha256_update`. -/
def Ctx.fill (c : Ctx) (p : List UInt8) : Ctx :=
  if hfull : c.nbuf + c.part p = 64 then
    { h := block c.h (c.copied p), bytes := c.bytes, buf := c.copied p, nbuf := 0
      size := c.length_copied p, room := by decide }
  else
    { h := c.h, bytes := c.bytes, buf := c.copied p, nbuf := c.nbuf + c.part p
      size := c.length_copied p
      room := by
        have hroom := c.room
        unfold part at hfull ⊢
        omega }

def updateLoop (c : Ctx) (p : List UInt8) : Ctx :=
  if p.length = 0 then c else updateLoop (c.fill p) (p.drop (c.part p))
termination_by p.length
decreasing_by
  have hroom := c.room
  rw [List.length_drop, Ctx.part]
  omega

def ecmSha256Update (c : Ctx) (p : List UInt8) : Ctx :=
  updateLoop { c with bytes := c.bytes + UInt64.ofNat p.length } p

theorem nbuf_updateLoop (c : Ctx) (p : List UInt8) :
    (updateLoop c p).nbuf = (c.nbuf + p.length) % 64 := by
  have hroom := c.room
  induction hl : p.length using Nat.strong_induction_on generalizing c p with
  | _ n ih =>
    rw [updateLoop]
    split_ifs with hzero
    · rw [← hl, hzero, Nat.add_zero, Nat.mod_eq_of_lt hroom]
    · have hpart : c.part p ≤ p.length ∧ 0 < c.part p ∧ c.nbuf + c.part p ≤ 64 := by
        unfold Ctx.part
        omega
      rw [ih _ (by rw [List.length_drop]; omega) _ _ (c.fill p).room rfl, List.length_drop]
      unfold Ctx.fill
      split_ifs with hfull
      · dsimp only
        omega
      · dsimp only
        omega

/-- The loop that pads with zeros. -/
def padLoop (c : Ctx) : Ctx :=
  if c.nbuf = 56 then c else padLoop (ecmSha256Update c [0])
termination_by (120 - c.nbuf) % 64
decreasing_by
  have hroom := c.room
  rw [ecmSha256Update, nbuf_updateLoop]
  simp only [List.length_cons, List.length_nil]
  omega

/-- The bytes of a word, big endian. -/
def wordBytes (w : UInt32) : List UInt8 :=
  [(w >>> 24).toUInt8, (w >>> 16).toUInt8, (w >>> 8).toUInt8, w.toUInt8]

/-- The length in bits, big endian. -/
def lengthBytes (bits : UInt64) : List UInt8 :=
  (List.range 8).map fun i => (bits >>> UInt64.ofNat (56 - 8 * i)).toUInt8

def ecmSha256Final (c : Ctx) : List UInt8 :=
  let bits := c.bytes * 8
  let c := padLoop (ecmSha256Update c [0x80])
  let c := ecmSha256Update c (lengthBytes bits)
  [c.h.a, c.h.b, c.h.c, c.h.d, c.h.e, c.h.f, c.h.g, c.h.h].flatMap wordBytes

/-! ## The compression -/

/-- The words as the standard has them. -/
def words (v : Regs UInt32) : Regs Word :=
  ⟨v.a.toBitVec, v.b.toBitVec, v.c.toBitVec, v.d.toBitVec, v.e.toBitVec, v.f.toBitVec,
    v.g.toBitVec, v.h.toBitVec⟩

theorem ofNat_toNat_eq (w : UInt32) : BitVec.ofNat 32 w.toNat = w.toBitVec := by
  apply BitVec.eq_of_toNat_eq
  rw [BitVec.toNat_ofNat, Nat.mod_eq_of_lt w.toNat_lt]
  rfl

theorem kTable_eq {t : Nat} (ht : t < 64) : (kTable.getD t 0).toBitVec = roundConst t := by
  have hall : ∀ t < 64, RootBits 3 (firstPrimes.getD t 0) (kTable.getD t 0).toNat := by
    decide +kernel
  rw [roundConst, primeRoot_eq (by decide) ht (hall t ht), ofNat_toNat_eq]

theorem h0_eq : words h0 = initial := by
  have hroot : ∀ {t : Nat} (w : UInt32), t < 64 → RootBits 2 (firstPrimes.getD t 0) w.toNat →
      w.toBitVec = primeRoot 2 t := by
    intro t w ht hw
    rw [primeRoot_eq (by decide) ht hw, ofNat_toNat_eq]
  rw [words, initial, hroot h0.a (t := 0) (by decide) (by decide +kernel),
    hroot h0.b (t := 1) (by decide) (by decide +kernel),
    hroot h0.c (t := 2) (by decide) (by decide +kernel),
    hroot h0.d (t := 3) (by decide) (by decide +kernel),
    hroot h0.e (t := 4) (by decide) (by decide +kernel),
    hroot h0.f (t := 5) (by decide) (by decide +kernel),
    hroot h0.g (t := 6) (by decide) (by decide +kernel),
    hroot h0.h (t := 7) (by decide) (by decide +kernel)]

/-- Four bytes in a row, from the most significant one. -/
theorem natOfBits_four (b₀ b₁ b₂ b₃ : UInt8) :
    natOfBits (bitsOfBytes [b₀, b₁, b₂, b₃]) =
      b₀.toNat * 2 ^ 24 + (b₁.toNat * 2 ^ 16 + (b₂.toNat * 2 ^ 8 + b₃.toNat)) := by
  have hbyte : ∀ b : UInt8, natOfBits (bitsOf 8 b.toNat) = b.toNat := fun b => by
    rw [natOfBits_bitsOf, Nat.mod_eq_of_lt b.toNat_lt]
  have hnil : bitsOfBytes [] = [] := rfl
  have hzero : natOfBits [] = 0 := rfl
  simp only [bitsOfBytes_cons, natOfBits_append, hbyte, hnil, hzero, List.length_append,
    length_bitsOf, List.length_nil, Nat.reduceAdd, Nat.pow_zero, Nat.mul_one, Nat.add_zero]

/-- The shifts and ors of the code make the same word. -/
theorem or_shift_four (b₀ b₁ b₂ b₃ : UInt8) :
    (b₀.toUInt32 <<< 24 ||| b₁.toUInt32 <<< 16 ||| b₂.toUInt32 <<< 8 ||| b₃.toUInt32).toBitVec =
      wordOfBits (bitsOfBytes [b₀, b₁, b₂, b₃]) := by
  have h₀ := b₀.toNat_lt
  have h₁ := b₁.toNat_lt
  have h₂ := b₂.toNat_lt
  have h₃ := b₃.toNat_lt
  have hshift : ∀ (b : UInt8) (n : UInt32), n.toNat ≤ 24 →
      (b.toUInt32 <<< n).toNat = b.toNat <<< n.toNat := by
    intro b n hn
    have hb := b.toNat_lt
    rw [UInt32.toNat_shiftLeft, UInt8.toNat_toUInt32, Nat.mod_eq_of_lt (show n.toNat < 32 by omega)]
    apply Nat.mod_eq_of_lt
    rw [Nat.shiftLeft_eq]
    calc b.toNat * 2 ^ n.toNat < 2 ^ 8 * 2 ^ n.toNat := by gcongr
      _ ≤ 2 ^ 8 * 2 ^ 24 := by gcongr; decide
      _ = 2 ^ 32 := by decide
  apply BitVec.eq_of_toNat_eq
  rw [wordOfBits, natOfBits_four, BitVec.toNat_ofNat, Nat.mod_eq_of_lt (by omega)]
  show (b₀.toUInt32 <<< 24 ||| b₁.toUInt32 <<< 16 ||| b₂.toUInt32 <<< 8 ||| b₃.toUInt32).toNat = _
  rw [UInt32.toNat_or, UInt32.toNat_or, UInt32.toNat_or, hshift b₀ 24 (by decide),
    hshift b₁ 16 (by decide), hshift b₂ 8 (by decide), UInt8.toNat_toUInt32, Nat.or_assoc,
    Nat.or_assoc]
  have hlow : b₂.toNat <<< 8 ||| b₃.toNat = b₂.toNat * 2 ^ 8 + b₃.toNat := by
    rw [← Nat.shiftLeft_add_eq_or_of_lt h₃, Nat.shiftLeft_eq]
  have hmid : b₁.toNat <<< 16 ||| (b₂.toNat * 2 ^ 8 + b₃.toNat) =
      b₁.toNat * 2 ^ 16 + (b₂.toNat * 2 ^ 8 + b₃.toNat) := by
    rw [← Nat.shiftLeft_add_eq_or_of_lt (by omega), Nat.shiftLeft_eq]
  have hhigh : b₀.toNat <<< 24 ||| (b₁.toNat * 2 ^ 16 + (b₂.toNat * 2 ^ 8 + b₃.toNat)) =
      b₀.toNat * 2 ^ 24 + (b₁.toNat * 2 ^ 16 + (b₂.toNat * 2 ^ 8 + b₃.toNat)) := by
    rw [← Nat.shiftLeft_add_eq_or_of_lt (by omega), Nat.shiftLeft_eq]
  exact (congrArg (b₀.toNat <<< 24 ||| ·)
    ((congrArg (b₁.toNat <<< 16 ||| ·) hlow).trans hmid)).trans hhigh

theorem take_four {p : List UInt8} {n : Nat} (hn : n + 4 ≤ p.length) :
    (p.drop n).take 4 = [p.getD n 0, p.getD (n + 1) 0, p.getD (n + 2) 0, p.getD (n + 3) 0] := by
  have hget : ∀ k (hk : k < p.length), p[k] = p.getD k 0 := fun k hk =>
    (List.getD_eq_getElem p 0 hk).symm
  rw [List.drop_eq_getElem_cons (by omega), List.drop_eq_getElem_cons (by omega),
    List.drop_eq_getElem_cons (by omega), List.drop_eq_getElem_cons (by omega)]
  simp only [List.take_succ_cons, List.take_zero, hget]

theorem blockWord_eq {p : List UInt8} (hp : p.length = 64) {i : Nat} (hi : i < 16) :
    (blockWord p i).toBitVec = wordOfBits (((bitsOfBytes p).drop (32 * i)).take 32) := by
  have hbits : ((bitsOfBytes p).drop (32 * i)).take 32 =
      bitsOfBytes ((p.drop (4 * i)).take 4) := by
    rw [show 32 * i = 8 * (4 * i) by omega, (take_drop_bitsOfBytes _ _).2]
    exact (take_drop_bitsOfBytes _ 4).1
  rw [hbits, take_four (by omega)]
  exact or_shift_four _ _ _ _

theorem smallSigma0_eq (x : UInt32) :
    (ror x 7 ^^^ ror x 18 ^^^ x >>> 3).toBitVec = smallSigma0 x.toBitVec := rfl

theorem smallSigma1_eq (x : UInt32) :
    (ror x 17 ^^^ ror x 19 ^^^ x >>> 10).toBitVec = smallSigma1 x.toBitVec := rfl

/-- `w` has the first `n` words of the schedule `f`. -/
def Scheduled (w : List UInt32) (n : Nat) (f : Nat → Word) : Prop :=
  w.length = n ∧ ∀ t < n, (w.getD t 0).toBitVec = f t

theorem Scheduled.concat {w : List UInt32} {n : Nat} {f : Nat → Word} (h : Scheduled w n f)
    {x : UInt32} (hx : x.toBitVec = f n) : Scheduled (w ++ [x]) (n + 1) f := by
  refine ⟨by rw [List.length_append, h.1, List.length_singleton], fun t ht => ?_⟩
  by_cases htn : t < n
  · rw [List.getD_append _ _ _ _ (by rw [h.1]; exact htn)]
    exact h.2 t htn
  · obtain rfl : t = n := by omega
    rw [List.getD_append_right _ _ _ _ (by rw [h.1]), h.1, Nat.sub_self]
    exact hx

theorem blockSchedule_scheduled {p : List UInt8} (hp : p.length = 64) :
    Scheduled (blockSchedule p) 64 (schedule (bitsOfBytes p)) := by
  have hfirst : Scheduled ((List.range 16).map (blockWord p)) 16 (schedule (bitsOfBytes p)) := by
    refine ⟨by rw [List.length_map, List.length_range], fun t ht => ?_⟩
    rw [schedule, if_pos ht, ← blockWord_eq hp ht, List.getD_eq_getElem?_getD, List.getElem?_map,
      List.getElem?_range ht]
    rfl
  have hloop : ∀ n, Scheduled ((List.range' 16 n).foldl expand ((List.range 16).map (blockWord p)))
      (16 + n) (schedule (bitsOfBytes p)) := by
    intro n
    induction n with
    | zero => exact hfirst
    | succ n ih =>
      rw [List.range'_1_concat, List.foldl_append]
      generalize (List.range' 16 n).foldl expand ((List.range 16).map (blockWord p)) = w at ih ⊢
      refine ih.concat ?_
      rw [schedule, if_neg (by omega), UInt32.toBitVec_add, UInt32.toBitVec_add,
        UInt32.toBitVec_add, smallSigma0_eq, smallSigma1_eq, ih.2 _ (by omega), ih.2 _ (by omega),
        ih.2 _ (by omega), ih.2 _ (by omega)]
      ac_rfl
  exact hloop 48

theorem blockRound_eq {w : List UInt32} {f : Nat → Word} (hw : Scheduled w 64 f)
    (v : Regs UInt32) {t : Nat} (ht : t < 64) :
    words (blockRound w v t) = roundStep f (words v) t := by
  unfold roundStep
  rw [← kTable_eq ht, ← hw.2 t ht]
  rfl

/-- `block` is the compression of the standard. -/
theorem block_eq_compress (h : Regs UInt32) {p : List UInt8} (hp : p.length = 64) :
    words (block h p) = compress (words h) (bitsOfBytes p) := by
  have hsched := blockSchedule_scheduled hp
  have hrounds : ∀ n ≤ 64, words ((List.range n).foldl (blockRound (blockSchedule p)) h) =
      (List.range n).foldl (roundStep (schedule (bitsOfBytes p))) (words h) := by
    intro n hn
    induction n with
    | zero => rfl
    | succ n ih =>
      rw [List.range_succ, List.foldl_append, List.foldl_append, ← ih (by omega)]
      exact blockRound_eq hsched _ (by omega)
  have hadd : ∀ u v : Regs UInt32, words (u.add v) = (words v).add (words u) := fun u v => by
    simp only [words, Regs.add, UInt32.toBitVec_add, BitVec.add_comm]
  rw [block, hadd, hrounds 64 (Nat.le_refl 64)]
  rfl

/-! ## The buffer -/

/-- The hash value of whole blocks of bytes. -/
noncomputable def hashBytes (m : List UInt8) : Regs Word :=
  foldBlocks 64 (fun h p => compress h (bitsOfBytes p)) initial m

/-- The bytes `m` have been seen: the whole blocks of them are hashed, the rest is in the
buffer. -/
def Absorbed (c : Ctx) (m : List UInt8) : Prop :=
  ∃ done, m = done ++ c.buf.take c.nbuf ∧ 64 ∣ done.length ∧ words c.h = hashBytes done

theorem Absorbed.init (buf : List UInt8) (size : buf.length = 64) :
    Absorbed (ecmSha256Init buf size) [] := by
  refine ⟨[], rfl, Nat.dvd_zero 64, ?_⟩
  rw [hashBytes, foldBlocks_of_lt (by decide)]
  exact h0_eq

theorem Ctx.take_copied (c : Ctx) (p : List UInt8) :
    (c.copied p).take (c.nbuf + c.part p) = c.buf.take c.nbuf ++ p.take (c.part p) := by
  have hsize := c.size
  have hroom := c.room
  have hlen : (c.buf.take c.nbuf ++ p.take (c.part p)).length = c.nbuf + c.part p := by
    simp only [part, List.length_append, List.length_take]
    omega
  rw [copied, ← hlen, List.take_left]

/-- One turn of the loop. -/
theorem Absorbed.fill {c : Ctx} {m : List UInt8} (h : Absorbed c m) (p : List UInt8) :
    Absorbed (c.fill p) (m ++ p.take (c.part p)) := by
  obtain ⟨done, rfl, hdvd, hhash⟩ := h
  have hcopy := c.take_copied p
  have hlen := c.length_copied p
  rw [List.append_assoc, ← hcopy]
  unfold Ctx.fill
  split_ifs with hfull
  · -- a full buffer is one more block
    rw [hfull, List.take_of_length_le (Nat.le_of_eq hlen)]
    refine ⟨done ++ c.copied p, (List.append_nil _).symm, ?_, ?_⟩
    · rw [List.length_append, hlen]
      exact Nat.dvd_add hdvd (Nat.dvd_refl 64)
    · have hone := foldBlocks_block (f := fun h p => compress h (bitsOfBytes p)) (by decide) hlen
        (hashBytes done) []
      rw [List.append_nil, foldBlocks_of_lt (l := []) (by decide)] at hone
      rw [hashBytes, foldBlocks_append (by decide) hdvd, ← hashBytes, hone, ← hhash]
      exact block_eq_compress c.h hlen
  · exact ⟨done, rfl, hdvd, hhash⟩

/-- The loop. -/
theorem Absorbed.updateLoop {c : Ctx} {m : List UInt8} (h : Absorbed c m) (p : List UInt8) :
    Absorbed (updateLoop c p) (m ++ p) := by
  induction hl : p.length using Nat.strong_induction_on generalizing c m p with
  | _ n ih =>
    rw [EcMaster.Sha256.updateLoop]
    split_ifs with hzero
    · rw [List.eq_nil_of_length_eq_zero hzero, List.append_nil]
      exact h
    · have hpart : 0 < c.part p := by
        have hroom := c.room
        unfold Ctx.part
        omega
      have hrest := ih _ (by rw [List.length_drop]; omega) (h.fill p) (p.drop (c.part p)) rfl
      rwa [List.append_assoc, List.take_append_drop] at hrest

/-- One call with a piece of any length. -/
theorem Absorbed.update {c : Ctx} {m : List UInt8} (h : Absorbed c m) (p : List UInt8) :
    Absorbed (ecmSha256Update c p) (m ++ p) := by
  obtain ⟨done, hm, hdvd, hhash⟩ := h
  refine Absorbed.updateLoop ⟨done, ?_, hdvd, ?_⟩ p
  · exact hm
  · exact hhash

theorem nbuf_update (c : Ctx) (p : List UInt8) :
    (ecmSha256Update c p).nbuf = (c.nbuf + p.length) % 64 :=
  nbuf_updateLoop _ p

theorem bytes_updateLoop (c : Ctx) (p : List UInt8) : (updateLoop c p).bytes = c.bytes := by
  induction hl : p.length using Nat.strong_induction_on generalizing c p with
  | _ n ih =>
    rw [updateLoop]
    split_ifs with hzero
    · rfl
    · have hpart : 0 < c.part p := by
        have hroom := c.room
        unfold Ctx.part
        omega
      rw [ih _ (by rw [List.length_drop]; omega) _ _ rfl]
      unfold Ctx.fill
      split_ifs <;> rfl

/-- How full the buffer is. -/
theorem Absorbed.nbuf {c : Ctx} {m : List UInt8} (h : Absorbed c m) : c.nbuf = m.length % 64 := by
  obtain ⟨done, rfl, ⟨q, hq⟩, -⟩ := h
  have hsize := c.size
  have hroom := c.room
  rw [List.length_append, List.length_take, hq]
  omega

/-- The zeros of the padding. -/
theorem Absorbed.padLoop {c : Ctx} {m : List UInt8} (h : Absorbed c m) :
    Absorbed (padLoop c) (m ++ List.replicate ((120 - c.nbuf) % 64) 0) := by
  have hroom := c.room
  induction hz : (120 - c.nbuf) % 64 generalizing c m with
  | zero =>
    rw [EcMaster.Sha256.padLoop, if_pos (by omega), List.replicate_zero, List.append_nil]
    exact h
  | succ z ih =>
    have hnext := nbuf_update c [0]
    rw [List.length_singleton] at hnext
    have hrest := ih (h.update [0]) (ecmSha256Update c [0]).room (by omega)
    rw [EcMaster.Sha256.padLoop, if_neg (by omega), List.replicate_succ]
    rwa [List.append_assoc, List.singleton_append] at hrest

/-! ## The padding -/

/-- The bits of a byte that a shift cuts out of a number. -/
theorem bitsOf_byte {n : Nat} {b : UInt8} (hb : b.toNat = n % 2 ^ 8) :
    bitsOf 8 b.toNat = bitsOf 8 n := by
  rw [hb, bitsOf_mod]

theorem bitsOfBytes_lengthBytes (n : UInt64) :
    bitsOfBytes (lengthBytes n) = bitsOf 64 n.toNat := by
  have hbyte : ∀ s : Nat, s < 64 → bitsOf 8 (n >>> UInt64.ofNat s).toUInt8.toNat =
      bitsOf 8 (n.toNat / 2 ^ s) := by
    intro s hs
    apply bitsOf_byte
    rw [UInt64.toNat_toUInt8, UInt64.toNat_shiftRight, UInt64.toNat_ofNat',
      Nat.shiftRight_eq_div_pow, show s % 2 ^ 64 % 64 = s by omega]
  have hlist : lengthBytes n = [56, 48, 40, 32, 24, 16, 8, 0].map fun s =>
      (n >>> UInt64.ofNat s).toUInt8 := rfl
  simp only [hlist, List.map_cons, List.map_nil, bitsOfBytes_cons, hbyte, Nat.reduceLT]
  rw [bitsOf_add 8 56, bitsOf_add 8 48, bitsOf_add 8 40, bitsOf_add 8 32, bitsOf_add 8 24,
    bitsOf_add 8 16, bitsOf_add 8 8, Nat.pow_zero, Nat.div_one]
  rfl

theorem bitsOfBytes_wordBytes (w : UInt32) : bitsOfBytes (wordBytes w) = bitsOf 32 w.toNat := by
  have hlast : bitsOf 8 w.toUInt8.toNat = bitsOf 8 w.toNat :=
    bitsOf_byte (UInt32.toNat_toUInt8 w)
  have hbyte : ∀ s : UInt32, s.toNat < 32 → bitsOf 8 (w >>> s).toUInt8.toNat =
      bitsOf 8 (w.toNat / 2 ^ s.toNat) := by
    intro s hs
    apply bitsOf_byte
    rw [UInt32.toNat_toUInt8, UInt32.toNat_shiftRight, Nat.mod_eq_of_lt hs,
      Nat.shiftRight_eq_div_pow]
  rw [wordBytes, bitsOfBytes_cons, bitsOfBytes_cons, bitsOfBytes_cons, bitsOfBytes_cons, hlast,
    hbyte 24 (by decide), hbyte 16 (by decide), hbyte 8 (by decide), bitsOf_add 8 24,
    bitsOf_add 8 16, bitsOf_add 8 8]
  rfl

theorem bitsOfBytes_zeros (z : Nat) :
    bitsOfBytes (List.replicate z 0) = List.replicate (8 * z) false := by
  have hbyte : bitsOf 8 (0 : UInt8).toNat = List.replicate 8 false := by decide
  induction z with
  | zero => rfl
  | succ z ih =>
    rw [List.replicate_succ, bitsOfBytes_cons, ih, hbyte, List.replicate_append_replicate,
      Nat.mul_succ, Nat.add_comm]

/-- The padding in bytes is that of the standard. -/
theorem pad_bitsOfBytes (m : List UInt8) {z : Nat} (hz : z = (120 - (m.length + 1) % 64) % 64)
    {n : UInt64} (hn : n.toNat = 8 * m.length) :
    pad (bitsOfBytes m) =
      bitsOfBytes (m ++ [0x80] ++ List.replicate z 0 ++ lengthBytes n) := by
  have hmark : bitsOfBytes [0x80] = true :: List.replicate 7 false := by decide
  have hzeros : zeroBits (8 * m.length) = 7 + 8 * z := by
    unfold zeroBits
    omega
  rw [pad, length_bitsOfBytes, hzeros, ← hn, ← bitsOfBytes_lengthBytes, bitsOfBytes_append,
    bitsOfBytes_append, bitsOfBytes_append, hmark, bitsOfBytes_zeros, List.append_assoc,
    List.append_assoc, List.append_assoc, List.cons_append, List.cons_append,
    ← List.append_assoc (List.replicate 7 false), List.replicate_append_replicate]

/-! ## The digest -/

/-- The message in pieces, with the number of its bytes. -/
theorem Absorbed.pieces {c : Ctx} {m : List UInt8} (h : Absorbed c m)
    (hbytes : c.bytes = UInt64.ofNat m.length) (ps : List (List UInt8)) :
    Absorbed (ps.foldl ecmSha256Update c) (m ++ ps.flatten) ∧
      (ps.foldl ecmSha256Update c).bytes = UInt64.ofNat (m ++ ps.flatten).length := by
  induction ps generalizing c m with
  | nil =>
    rw [List.flatten_nil, List.append_nil]
    exact ⟨h, hbytes⟩
  | cons p ps ih =>
    rw [List.foldl_cons, List.flatten_cons, ← List.append_assoc]
    refine ih (h.update p) ?_
    rw [ecmSha256Update, bytes_updateLoop, hbytes, List.length_append, UInt64.ofNat_add]

/-- The output bytes are the words of the hash value. -/
theorem bits_words (v : Regs UInt32) :
    bitsOfBytes ([v.a, v.b, v.c, v.d, v.e, v.f, v.g, v.h].flatMap wordBytes) = (words v).bits := by
  simp only [List.flatMap_cons, List.flatMap_nil, bitsOfBytes_append, bitsOfBytes_wordBytes,
    Regs.bits, words]
  rfl

/-- Hashing the blocks of bits is hashing the blocks of bytes. -/
theorem foldBlocks_bitsOfBytes (m : List UInt8) :
    foldBlocks 512 compress initial (bitsOfBytes m) = hashBytes m := by
  have hfold := foldBlocks_flatMap (f := compress) (n := 64)
    (g := fun b : UInt8 => bitsOf 8 b.toNat) (by decide : 0 < 8) (by decide)
    (fun b => length_bitsOf 8 b.toNat) initial m
  rw [show 8 * 64 = 512 from rfl] at hfold
  rw [bitsOfBytes, hfold, hashBytes]
  rfl

/-- Padding and length, after which the buffer is empty. -/
theorem Absorbed.final {c : Ctx} {m : List UInt8} (h : Absorbed c m)
    (hbytes : c.bytes = UInt64.ofNat m.length) (hlen : m.length < 2 ^ 61) :
    bitsOfBytes (ecmSha256Final c) = sha256 (bitsOfBytes m) := by
  have hbits : (c.bytes * 8).toNat = 8 * m.length := by
    rw [hbytes, UInt64.toNat_mul, UInt64.toNat_ofNat',
      Nat.mod_eq_of_lt (by omega : m.length < 2 ^ 64)]
    show m.length * 8 % 2 ^ 64 = _
    omega
  have hmark : (ecmSha256Update c [0x80]).nbuf = (m.length + 1) % 64 := by
    rw [nbuf_update, h.nbuf, List.length_singleton]
    omega
  have hpad := (h.update [0x80]).padLoop
  rw [hmark] at hpad
  have hall := hpad.update (lengthBytes (c.bytes * 8))
  have hempty := hall.nbuf
  have hlen8 : (lengthBytes (c.bytes * 8)).length = 8 := rfl
  simp only [List.length_append, List.length_singleton, List.length_replicate, hlen8] at hempty
  rw [sha256, pad_bitsOfBytes m rfl hbits, foldBlocks_bitsOfBytes]
  unfold ecmSha256Final
  dsimp only
  generalize ecmSha256Update (EcMaster.Sha256.padLoop (ecmSha256Update c [0x80]))
    (lengthBytes (c.bytes * 8)) = d at hall hempty ⊢
  obtain ⟨done, hdone, -, hhash⟩ := hall
  have hzero : d.nbuf = 0 := by omega
  rw [hzero, List.take_zero, List.append_nil] at hdone
  rw [bits_words, hhash, hdone]

/-- However a message is cut into pieces, the digest is that of the standard. -/
theorem sha256_is_fips180 (buf : List UInt8) (size : buf.length = 64) (ps : List (List UInt8))
    (hlen : ps.flatten.length < 2 ^ 61) :
    bitsOfBytes (ecmSha256Final (ps.foldl ecmSha256Update (ecmSha256Init buf size))) =
      sha256 (bitsOfBytes ps.flatten) := by
  obtain ⟨habs, hbytes⟩ := (Absorbed.init buf size).pieces rfl ps
  exact habs.final hbytes hlen

/-- The first example of the standard, cut into four pieces. -/
theorem sha256_is_fips180_abc :
    ecmSha256Final ([[0x61], [], [0x62, 0x63], []].foldl ecmSha256Update
        (ecmSha256Init (List.replicate 64 0xAA) rfl)) =
      [0xba, 0x78, 0x16, 0xbf, 0x8f, 0x01, 0xcf, 0xea, 0x41, 0x41, 0x40, 0xde, 0x5d, 0xae, 0x22,
        0x23, 0xb0, 0x03, 0x61, 0xa3, 0x96, 0x17, 0x7a, 0x9c, 0xb4, 0x10, 0xff, 0x61, 0xf2, 0x00,
        0x15, 0xad] ∧
    sha256 (bitsOfBytes [0x61, 0x62, 0x63]) =
      bitsOfBytes (ecmSha256Final ([[0x61], [], [0x62, 0x63], []].foldl ecmSha256Update
        (ecmSha256Init (List.replicate 64 0xAA) rfl))) :=
  ⟨by decide +kernel,
    (sha256_is_fips180 (List.replicate 64 0xAA) rfl [[0x61], [], [0x62, 0x63], []]
      (by decide)).symm⟩

end EcMaster.Sha256
