import EcMaster.Api.Gate
import EcMaster.Lib.Bucket
import EcMaster.Lib.Run

/-!
# The rate of requests

Every line that reaches `ecm_ctl_handle` costs a token, whether it is a request or not.
`Limited` is the answer `rate_limited`.  `rate_bounded` says how many lines of a window get
another answer: for every sequence of calls in the order of time, in every window of `W`
seconds, at most `20 + 20 * W`.

The commands behind the bucket leave it alone (`SameBucket`), so that a sequence of calls
is the log of a token bucket (`log_trace`), and the bound is that of the library.
The first call finds `last_ns` zero and is given no new tokens, and the same holds for every
call as long as the clock shows zero.
-/

namespace EcMaster.Api

open EcMaster.ByteImage EcMaster.CText EcMaster.Run EcMaster.Bucket

/-! ## The commands leave the bucket alone -/

/-- The bucket and the count of limited requests are those of `st`. -/
structure SameBucket {σ : Type} (st : CtlState) (d : Done σ) : Prop where
  tokens : d.st.tokens = st.tokens
  lastNs : d.st.lastNs = st.lastNs
  rateLimited : d.st.rateLimited = st.rateLimited

section Commands

variable {σ D : Type} {st st' : CtlState} {w : Rw} {r : Req}

theorem SameBucket.of_eq {d : Done σ} (h : SameBucket st' d) (htokens : st'.tokens = st.tokens)
    (hlast : st'.lastNs = st.lastNs) (hlimited : st'.rateLimited = st.rateLimited) :
    SameBucket st d :=
  ⟨h.tokens.trans htokens, h.lastNs.trans hlast, h.rateLimited.trans hlimited⟩

theorem sameBucket_fail (st : CtlState) (w : Rw) (r : Req) (code msg : Text) (x : World σ) :
    SameBucket st (fail st w r code msg x) :=
  ⟨rfl, rfl, rfl⟩

theorem sameBucket_sdoFail {be : Backend σ} (st : CtlState) (w : Rw) (r : Req) (a : SdoArgs)
    (rc : Int) (abort : UInt32) (x : World σ) : SameBucket st (sdoFail be st w r a rc abort x) := by
  unfold sdoFail
  split
  · exact sameBucket_fail st w r _ _ x
  split
  · exact sameBucket_fail st w r _ _ x
  split
  · exact sameBucket_fail st w r _ _ x
  split
  · exact sameBucket_fail st w r _ _ x
  · exact ⟨rfl, rfl, rfl⟩

theorem timed_bucket (st : CtlState) (dt : UInt64) :
    (st.timed dt).tokens = st.tokens ∧ (st.timed dt).lastNs = st.lastNs ∧
      (st.timed dt).rateLimited = st.rateLimited := by
  unfold CtlState.timed
  split <;> exact ⟨rfl, rfl, rfl⟩

theorem sameBucket_cmdSdoRead {fp : Fp D} {be : Backend σ} (st : CtlState) (w : Rw) (r : Req)
    (dt : UInt64) (x : World σ) : SameBucket st (cmdSdoRead fp be st w r dt x) := by
  obtain ⟨htokens, hlast, hlimited⟩ := timed_bucket st dt
  unfold cmdSdoRead
  split
  · exact sameBucket_fail st w r _ _ x
  dsimp only
  split
  · exact sameBucket_fail st w r _ _ _
  split
  · exact sameBucket_fail st w r _ _ _
  split
  · exact (sameBucket_sdoFail _ w r _ _ _ _).of_eq htokens hlast hlimited
  split
  · exact ⟨htokens, hlast, hlimited⟩
  · exact ⟨htokens, hlast, hlimited⟩

theorem sameBucket_cmdSdoWrite {fp : Fp D} {be : Backend σ}
    (al : Option (AllowList D)) (st : CtlState) (w : Rw) (r : Req) (dt : UInt64)
    (x : World σ) : SameBucket st (cmdSdoWrite fp be al st w r dt x) := by
  unfold cmdSdoWrite
  split
  · exact sameBucket_fail st w r _ _ x
  split
  · exact sameBucket_fail st w r _ _ x
  split
  · exact sameBucket_fail st w r _ _ x
  dsimp only
  split
  · exact sameBucket_fail st w r _ _ _
  split
  · exact (sameBucket_fail _ w r _ _ _).of_eq rfl rfl rfl
  split
  · exact sameBucket_fail st w r _ _ _
  · obtain ⟨htokens, hlast, hlimited⟩ :=
      timed_bucket { st with sdoWrites := st.sdoWrites + 1 } dt
    unfold writeThrough
    dsimp only
    split
    · exact (sameBucket_sdoFail _ w r _ _ _ _).of_eq htokens hlast hlimited
    · exact ⟨htokens, hlast, hlimited⟩

theorem sameBucket_cmdInfo {fp : Fp D} {be : Backend σ} (al : Option (AllowList D))
    (st : CtlState) (w : Rw) (r : Req) (x : World σ) :
    SameBucket st (cmdInfo fp be al st w r x) := by
  unfold cmdInfo
  extract_lets info x' w₁ w₂ w₃ w₄ w₅
  split
  · exact sameBucket_fail st _ r _ _ _
  · exact ⟨rfl, rfl, rfl⟩

theorem sameBucket_cmdDump {be : Backend σ} (st : CtlState) (w : Rw) (r : Req) (x : World σ) :
    SameBucket st (cmdDump be st w r x) := by
  unfold cmdDump
  split
  · exact sameBucket_fail st w r _ _ x
  dsimp only
  split
  · exact sameBucket_fail st w r _ _ _
  · exact ⟨rfl, rfl, rfl⟩

theorem sameBucket_dispatch {fp : Fp D} {be : Backend σ}
    (al : Option (AllowList D)) (st : CtlState) (w : Rw) (r : Req) (dt : UInt64)
    (x : World σ) : SameBucket st (dispatch fp be al st w r dt x) := by
  unfold dispatch
  split
  · exact sameBucket_fail st w r _ _ x
  split
  · exact sameBucket_cmdInfo al st w r x
  split
  · exact sameBucket_cmdSdoRead st w r dt x
  split
  · exact sameBucket_cmdSdoWrite al st w r dt x
  split
  · exact sameBucket_cmdDump st w r x
  · exact sameBucket_fail st w r _ _ x

end Commands

/-! ## One call -/

/-- The arguments of a call, and the world that it finds. -/
structure RateCall (σ : Type) where
  line : Image
  len : Nat
  nowNs : UInt64
  cap : Nat
  dt : UInt64
  world : World σ

/-- The answer `rate_limited` to a line.  It stays empty where there is no room for it. -/
def limitedReply (id : Text) (cap : Nat) : Text :=
  let line := errorText id (txt "rate_limited") (txt "more than 20 commands per second")
  if line.length + 2 ≤ cap then line ++ [10] else []

section Calls

variable {σ D : Type} (fp : Fp D) (be : Backend σ) (al : Option (AllowList D))

/-- One call. -/
def RateCall.handle (c : RateCall σ) (st : CtlState) : Done σ :=
  ecmCtlHandle fp be al c.line c.len c.nowNs c.cap c.dt st c.world

/-- The state after a call. -/
def rateStep (st : CtlState) (c : RateCall σ) : CtlState := (c.handle fp be al st).st

/-- The call is answered with `rate_limited`, and counted as such. -/
def Limited (st : CtlState) (c : RateCall σ) : Bool :=
  (c.handle fp be al st).reply = limitedReply (requestOf c.line c.len).id c.cap ∧
    (c.handle fp be al st).st.rateLimited = st.rateLimited + 1

/-- The tokens at a call, before it takes one. -/
def filled (st : CtlState) (c : RateCall σ) : ℚ := (refill st c.nowNs).tokens

/-- What a call does to the bucket. -/
theorem handle_bucket (st : CtlState) (c : RateCall σ) :
    (rateStep fp be al st c).lastNs = c.nowNs ∧
      if filled st c < 1 then
        Limited fp be al st c = true ∧ (rateStep fp be al st c).tokens = filled st c
      else
        Limited fp be al st c = false ∧ (rateStep fp be al st c).tokens = filled st c - 1 := by
  have hfilled : filled st c = (refill { st with cmds := st.cmds + 1 } c.nowNs).tokens := rfl
  by_cases hlow : filled st c < 1
  · have heq : c.handle fp be al st = fail
        { refill { st with cmds := st.cmds + 1 } c.nowNs with
          rateLimited := st.rateLimited + 1 }
        (Rw.start c.cap) (requestOf c.line c.len) (txt "rate_limited")
        (txt "more than " ++ dec ctlRate ++ txt " commands per second") c.world := by
      unfold RateCall.handle ecmCtlHandle
      exact if_pos (hfilled ▸ hlow)
    have hmsg : clip 256 (txt "more than " ++ dec ctlRate ++ txt " commands per second") =
        txt "more than 20 commands per second" := by decide +kernel
    have hreply : (c.handle fp be al st).reply =
        limitedReply (requestOf c.line c.len).id c.cap := by
      rw [heq, fail_eq, hmsg]
      rfl
    have hst : rateStep fp be al st c = _ := congrArg Done.st heq
    refine ⟨by rw [hst]; rfl, ?_⟩
    rw [if_pos hlow]
    refine ⟨?_, by rw [hst]; rfl⟩
    unfold Limited
    rw [decide_eq_true_eq]
    exact ⟨hreply, by rw [heq]; rfl⟩
  · -- a token is taken, and what follows leaves the bucket alone
    have hsame : SameBucket { refill { st with cmds := st.cmds + 1 } c.nowNs with
        tokens := filled st c - 1 } (c.handle fp be al st) := by
      unfold RateCall.handle ecmCtlHandle
      dsimp only
      rw [if_neg (hfilled ▸ hlow)]
      split
      · exact sameBucket_fail _ _ _ _ _ _
      split
      · exact sameBucket_fail _ _ _ _ _ _
      split
      · exact sameBucket_fail _ _ _ _ _ _
      · exact sameBucket_dispatch al _ _ _ _ _
    refine ⟨hsame.lastNs, ?_⟩
    rw [if_neg hlow]
    refine ⟨?_, hsame.tokens⟩
    unfold Limited
    rw [decide_eq_false_iff_not]
    rintro ⟨-, hcounted⟩
    have hkept : (c.handle fp be al st).st.rateLimited = st.rateLimited := hsame.rateLimited
    rw [hkept] at hcounted
    simp at hcounted

end Calls

/-! ## The log of the bucket -/

/-- A time in seconds. -/
def seconds (ns : UInt64) : ℚ := (ns.toNat : ℚ) / 10 ^ 9

theorem seconds_le {a b : UInt64} (h : a ≤ b) : seconds a ≤ seconds b := by
  unfold seconds
  have hle : (a.toNat : ℚ) ≤ b.toNat := Nat.cast_le.2 (UInt64.le_iff_toNat_le.1 h)
  exact div_le_div_of_nonneg_right hle (by norm_num)

theorem filled_le_rate {σ : Type} {st : CtlState} (h : st.tokens ≤ ctlRate) (c : RateCall σ) :
    filled st c ≤ ctlRate := by
  unfold filled refill
  dsimp only
  split
  · exact h
  · split
    · exact le_rfl
    · rename_i hle
      exact le_of_not_gt hle

theorem filled_le {σ : Type} {st : CtlState} {c : RateCall σ} (h : st.lastNs ≤ c.nowNs) :
    filled st c ≤ st.tokens + ctlRate * (seconds c.nowNs - seconds st.lastNs) := by
  have hgap : seconds c.nowNs - seconds st.lastNs =
      ((c.nowNs - st.lastNs).toNat : ℚ) / 10 ^ 9 := by
    unfold seconds
    rw [UInt64.toNat_sub_of_le _ _ h, Nat.cast_sub (UInt64.le_iff_toNat_le.1 h), sub_div]
  have hpos : 0 ≤ ctlRate * (seconds c.nowNs - seconds st.lastNs) :=
    mul_nonneg (Nat.cast_nonneg _) (sub_nonneg.2 (seconds_le h))
  have hcomm : ((c.nowNs - st.lastNs).toNat : ℚ) / 10 ^ 9 * ctlRate =
      ctlRate * (seconds c.nowNs - seconds st.lastNs) := by
    rw [hgap, mul_comm]
  unfold filled refill
  dsimp only
  split
  · linarith
  · rw [hcomm]
    split
    · rename_i hlt
      exact hlt.le
    · exact le_rfl

theorem filled_nonneg {σ : Type} {st : CtlState} (h : 0 ≤ st.tokens) (c : RateCall σ) :
    0 ≤ filled st c := by
  have hgain : 0 ≤ ((c.nowNs - st.lastNs).toNat : ℚ) / 10 ^ 9 * ctlRate :=
    mul_nonneg (div_nonneg (Nat.cast_nonneg _) (by norm_num)) (Nat.cast_nonneg _)
  unfold filled refill
  dsimp only
  split
  · exact h
  · split
    · exact Nat.cast_nonneg _
    · linarith

section Log

variable {σ D : Type} (fp : Fp D) (be : Backend σ) (al : Option (AllowList D))

/-- A call as an entry of the log. -/
def logEntry (r : Rec CtlState (RateCall σ)) : Entry ℚ :=
  { time := seconds r.ev.nowNs, passed := !Limited fp be al r.pre r.ev, level := r.post.tokens }

/-- The calls are the log of a bucket. -/
theorem log_trace {cs : List (RateCall σ)} :
    ∀ {st : CtlState}, cs.Pairwise (fun c c' => c.nowNs ≤ c'.nowNs) →
      (∀ c ∈ cs, st.lastNs ≤ c.nowNs) → 0 ≤ st.tokens → st.tokens ≤ ctlRate →
      Log (ctlRate : ℚ) ctlRate st.tokens (seconds st.lastNs)
        ((trace (rateStep fp be al) st cs).map (logEntry fp be al)) := by
  induction cs with
  | nil =>
      intro st _ _ _ _
      trivial
  | cons c cs ih =>
      intro st hmono hlast hlow hhigh
      rw [List.pairwise_cons] at hmono
      rw [List.forall_mem_cons] at hlast
      obtain ⟨hnow, hbucket⟩ := handle_bucket fp be al st c
      have hfull := filled_le_rate hhigh c
      have hfill := filled_le hlast.1
      have hpos := filled_nonneg hlow c
      -- the tokens that are left, and the one that was taken
      obtain ⟨hleft, hsum⟩ : 0 ≤ (rateStep fp be al st c).tokens ∧
          (rateStep fp be al st c).tokens +
            (logEntry fp be al ⟨st, c, rateStep fp be al st c⟩).cost = filled st c := by
        unfold Entry.cost logEntry
        split at hbucket
        · rw [hbucket.1, hbucket.2]
          exact ⟨hpos, add_zero _⟩
        · rename_i henough
          rw [hbucket.1, hbucket.2]
          exact ⟨sub_nonneg.2 (le_of_not_gt henough), sub_add_cancel _ _⟩
      refine ⟨seconds_le hlast.1, hleft, ?_, ?_, ?_⟩
      · exact hsum.le.trans hfull
      · exact hsum.le.trans hfill
      · have hcost : 0 ≤ (logEntry fp be al ⟨st, c, rateStep fp be al st c⟩).cost := by
          unfold Entry.cost
          split
          · exact zero_le_one
          · exact le_rfl
        have hrest := ih hmono.2
          (by rw [hnow]; exact hmono.1) hleft (by linarith)
        rw [hnow] at hrest
        exact hrest

/-- The calls of the window of `W` seconds from `t` on that are not answered with
`rate_limited`. -/
def servedIn (t W : ℚ) (cs : List (RateCall σ)) : Nat :=
  ((trace (rateStep fp be al) ecmCtlStateInit cs).filter fun r =>
    !Limited fp be al r.pre r.ev ∧ t ≤ seconds r.ev.nowNs ∧ seconds r.ev.nowNs ≤ t + W).length

/-- In every window of `W` seconds at most `20 + 20 * W` lines are answered otherwise than with
`rate_limited`. -/
theorem rate_bounded (cs : List (RateCall σ))
    (hmono : cs.Pairwise fun c c' => c.nowNs ≤ c'.nowNs) (t W : ℚ) (hW : 0 ≤ W) :
    (servedIn fp be al t W cs : ℚ) ≤ 20 + 20 * W := by
  have htokens : 0 ≤ ecmCtlStateInit.tokens := by decide
  have hlog := log_trace fp be al hmono
    (fun c _ => UInt64.le_iff_toNat_le.2 (Nat.zero_le _)) htokens le_rfl
  have hwindow : (passedIn t (t + W) _ : ℚ) ≤ _ := hlog.window (Nat.cast_nonneg _) (Nat.cast_nonneg _) hW
  have hserved : servedIn fp be al t W cs =
      passedIn t (t + W)
        ((trace (rateStep fp be al) ecmCtlStateInit cs).map (logEntry fp be al)) := by
    unfold servedIn passedIn
    rw [List.filter_map, List.length_map]
    rfl
  rw [hserved]
  exact hwindow

end Log

/-- A line that is no request, one second after the clock started. -/
def badLine : RateCall Unit :=
  { line := ofText (txt "x"), len := 1, nowNs := 1000000000, cap := 131072, dt := 0
    world := { ctx := (), calls := [] } }

/-- Of twenty-five such lines at one time at most twenty are looked at. -/
theorem rate_bounded_badLine :
    (servedIn noFloats oneSlave none 1 0 (List.replicate 25 badLine) : ℚ) ≤ 20 + 20 * 0 := by
  refine rate_bounded noFloats oneSlave none (List.replicate 25 badLine) ?_ 1 0 le_rfl
  exact List.pairwise_replicate.2 (.inr (UInt64.le_refl _))

end EcMaster.Api
