import EcMaster.Api.Gate
import EcMaster.Api.Server
import EcMaster.Lib.Run

/-!
# Lines of a client, whatever the chunks

What a client is answered depends on the bytes that it sends and not on how they
are cut into reads and calls.  `framedLines` is what has to be made of a stream:
its lines that fit the buffer, without their carriage returns, and one refusal
for every line that does not fit.

`Conn.Inv` is the invariant of an open connection: the answers so far, and what
`framedLines` makes of the bytes that are still in the buffer or not yet read, are
together what it makes of the whole stream; and the replies are the bytes that
the client has got and those that wait to be sent.  A read, a request and a send
keep it.  Each call that can do something makes `Conn.left` smaller, so after
enough of them everything is answered and sent (`Conn.Done`).

A client that shuts its side down is different.  `client_read` goes on reading
until there is nothing more, and closes the client when it meets the end of the
stream, with the lines that it has just read still in the buffer.
`end_of_stream_drops_requests` is the shortest case.  `Calm` excludes it, and a client
that is dropped because it does not read its replies.
-/

namespace EcMaster.Api

open EcMaster.ByteImage EcMaster.CText EcMaster.Lines EcMaster.Run

/-- A line without its carriage return. -/
def stripCr (l : Text) : Text := if l.getLast? = some 13 then l.dropLast else l

/-- A framed line without its carriage return. -/
def stripItem : Framed UInt8 → Framed UInt8
  | .line l => .line (stripCr l)
  | .tooLong => .tooLong

/-- What the server has to make of a stream. -/
def framedLines (stream : Text) : List (Framed UInt8) :=
  (framed 10 ctlLineMax stream).map stripItem

namespace Conn

/-- The lines that were answered. -/
def items (k : Conn) : List (Framed UInt8) := k.answers.map Answer.item

/-- The replies, as bytes. -/
def replies (k : Conn) : Text := (k.answers.map Answer.reply).flatten

/-- The bytes that are still to be framed. -/
def rest (k : Conn) : Text :=
  if k.client.discard then afterLine 10 k.peer.unread else k.client.input ++ k.peer.unread

/-- The buffer holds neither a line nor the front of one that is too long. -/
def NoLine (k : Conn) : Prop := 10 ∉ k.client.input ∧ k.client.input.length < ctlLineMax

/-- There is no byte to read, no line to serve and no reply to send. -/
def Done (k : Conn) : Prop := k.peer.unread = [] ∧ k.NoLine ∧ k.client.pending = []

instance (k : Conn) : Decidable k.NoLine := inferInstanceAs (Decidable (_ ∧ _))

instance (k : Conn) : Decidable k.Done := inferInstanceAs (Decidable (_ ∧ _ ∧ _))

/-- Everything is answered and sent. -/
structure Answered (stream : Text) (k : Conn) : Prop where
  items : k.items = framedLines stream
  got : k.peer.got = k.replies
  long : ∀ a ∈ k.answers, a.item = .tooLong → a.reply = lineTooLong

/-- An open connection whose peer sends `stream` in all, and whether it ends there. -/
structure Inv (stream : Text) (shut : Bool) (k : Conn) : Prop where
  shut : k.peer.shut = shut
  opened : k.client.opened = true
  size : k.client.input.length ≤ ctlLineMax
  skip : k.client.discard = true → k.client.input = []
  off : k.client.outoff ≤ k.client.out.length
  room : k.client.out.length ≤ ctlOutMax
  items : k.items ++ framedLines k.rest = framedLines stream
  sent : k.peer.got ++ k.client.pending = k.replies
  long : ∀ a ∈ k.answers, a.item = .tooLong → a.reply = lineTooLong

end Conn

theorem Conn.Inv.fresh (stream : Text) (shut : Bool) :
    (Conn.fresh stream shut).Inv stream shut where
  shut := rfl
  opened := rfl
  size := Nat.zero_le _
  skip _ := rfl
  off := Nat.le_refl _
  room := Nat.zero_le _
  items := rfl
  sent := rfl
  long := by simp [Conn.fresh]

section Calls

variable {stream : Text} {shut : Bool}

/-! ## Reading -/

/-- The bytes of a `recv` do not change what is to be framed. -/
theorem take_rest (c : Client) (data u : Text) :
    (if (c.take data).discard then afterLine 10 u else (c.take data).input ++ u) =
      if c.discard then afterLine 10 (data ++ u) else c.input ++ (data ++ u) := by
  unfold Client.take
  cases hdiscard : c.discard with
  | false => simp
  | true =>
    simp only [if_true]
    split
    · rename_i hnone
      rw [hdiscard, if_pos rfl, afterLine_append (memchr_eq_none.1 hnone)]
    · rename_i k hsome
      obtain ⟨-, heq, hnot⟩ := memchr_eq_some hsome
      simp only [Bool.false_eq_true, if_false]
      conv_rhs => rw [heq, List.append_assoc, List.cons_append, afterLine_append_cons hnot]

theorem take_skip {c : Client} (hskip : c.discard = true → c.input = []) (data : Text) :
    (c.take data).discard = true → (c.take data).input = [] := by
  unfold Client.take
  split
  · split
    · exact hskip
    · intro h
      cases h
  · rename_i hdiscard
    intro h
    exact absurd h hdiscard

theorem take_length (c : Client) (data : Text) :
    (c.take data).input.length ≤ c.input.length + data.length := by
  unfold Client.take
  split
  · split
    · exact Nat.le_add_right _ _
    · rw [List.length_drop]
      omega
  · rw [List.length_append]

theorem take_kept (c : Client) (data : Text) :
    (c.take data).opened = c.opened ∧ (c.take data).out = c.out ∧
      (c.take data).outoff = c.outoff := by
  unfold Client.take
  split
  · split <;> exact ⟨rfl, rfl, rfl⟩
  · exact ⟨rfl, rfl, rfl⟩

/-- One `recv` with `r` bytes. -/
def Conn.taken (k : Conn) (r : Nat) : Conn :=
  { k with
    client := k.client.take (k.peer.unread.take r)
    peer := { k.peer with unread := k.peer.unread.drop r } }

theorem Conn.Inv.taken {k : Conn} (h : k.Inv stream shut) {r : Nat}
    (hr : r ≤ ctlLineMax - k.client.input.length) : (k.taken r).Inv stream shut := by
  obtain ⟨hopened, hout, houtoff⟩ := take_kept k.client (k.peer.unread.take r)
  refine ⟨h.shut, hopened.trans h.opened, ?_, take_skip h.skip _, ?_, ?_, ?_, ?_, h.long⟩
  · have hlen := take_length k.client (k.peer.unread.take r)
    have hcut : (k.peer.unread.take r).length ≤ r := List.length_take_le _ _
    have hsize := h.size
    simp only [Conn.taken]
    omega
  · simp only [Conn.taken, hout, houtoff]
    exact h.off
  · simp only [Conn.taken, hout]
    exact h.room
  · have hrest : (k.taken r).rest = k.rest := by
      unfold Conn.rest Conn.taken
      dsimp only
      rw [take_rest, List.take_append_drop]
    rw [hrest]
    exact h.items
  · have hpending : (k.taken r).client.pending = k.client.pending := by
      simp only [Conn.taken, Client.pending, hout, houtoff]
    rw [hpending]
    exact h.sent

/-- What is left to do on a connection: a byte that is not read counts twice. -/
def Conn.left (k : Conn) : Nat := k.client.input.length + 2 * k.peer.unread.length

theorem left_taken (k : Conn) {r : Nat} (hr : r ≤ k.peer.unread.length) :
    (k.taken r).left + r ≤ k.left := by
  have hlen := take_length k.client (k.peer.unread.take r)
  rw [List.length_take, Nat.min_eq_left hr] at hlen
  simp only [Conn.left, Conn.taken, List.length_drop]
  omega

/-- A read that does not close the client. -/
inductive ReadTo : Conn → Conn → Prop where
  | stop (k : Conn) : ReadTo k k
  | more {k k' : Conn} (r : Nat) (hroom : r ≤ ctlLineMax - k.client.input.length)
      (hlen : r ≤ k.peer.unread.length) (hrest : ReadTo (k.taken r) k') : ReadTo k k'

theorem ReadTo.inv {k k' : Conn} (h : ReadTo k k') (hI : k.Inv stream shut) :
    k'.Inv stream shut := by
  induction h with
  | stop => exact hI
  | more r hroom _ _ ih => exact ih (hI.taken hroom)

theorem ReadTo.left_le {k k' : Conn} (h : ReadTo k k') : k'.left ≤ k.left := by
  induction h with
  | stop => exact Nat.le_refl _
  | more r _ hlen _ ih =>
    have htaken := left_taken _ hlen
    omega

/-- The client stays open if the peer does, or if no `recv` reports the end. -/
theorem readTo_read {k : Conn} {xs : List Recv} (hfail : Recv.fail ∉ xs)
    (hfin : Recv.fin ∈ xs → k.peer.shut = false) : ReadTo k (k.read xs) := by
  unfold Conn.read
  induction xs generalizing k with
  | nil => exact .stop k
  | cons x xs ih =>
    have hfail' : Recv.fail ∉ xs := fun h => hfail (List.mem_cons_of_mem _ h)
    have hfin' : Recv.fin ∈ xs → k.peer.shut = false := fun h => hfin (List.mem_cons_of_mem _ h)
    unfold clientRead
    split
    · exact .stop k
    · cases x with
      | intr => exact ih hfail' hfin'
      | fail => exact absurd List.mem_cons_self hfail
      | fin =>
        dsimp only
        split
        · rw [hfin List.mem_cons_self]
          exact .stop k
        · exact .more _ (Nat.min_le_left _ _) (Nat.min_le_right _ _)
            (ih (k := k.taken _) hfail' hfin')
      | avail n =>
        dsimp only
        split
        · exact .stop k
        · refine .more _ ?_ ?_ (ih (k := k.taken _) hfail' hfin')
          · exact (Nat.min_le_right _ _).trans (Nat.min_le_left _ _)
          · exact (Nat.min_le_right _ _).trans (Nat.min_le_right _ _)

/-- With nothing to read, a read does nothing or closes the client. -/
theorem read_empty {k : Conn} {xs : List Recv} (hfail : Recv.fail ∉ xs)
    (hempty : k.peer.unread = []) :
    k.read xs = k ∨ k.read xs = { k with client := .closed } := by
  unfold Conn.read
  induction xs with
  | nil => exact .inl rfl
  | cons x xs ih =>
    have hfail' : Recv.fail ∉ xs := fun h => hfail (List.mem_cons_of_mem _ h)
    unfold clientRead
    split
    · exact .inl rfl
    · cases x with
      | intr => exact ih hfail'
      | fail => exact absurd List.mem_cons_self hfail
      | fin =>
        dsimp only
        split
        · exact .inr rfl
        · exact .inl rfl
      | avail n =>
        dsimp only
        rw [if_pos (by simp [hempty])]
        exact .inl rfl

/-- A read that finds bytes and has room for them. -/
theorem left_read_lt {k : Conn} {xs : List Recv} {n : Nat} (hfail : Recv.fail ∉ xs)
    (hfin : Recv.fin ∈ xs → k.peer.shut = false) (hbytes : k.peer.unread ≠ [])
    (hroom : k.client.input.length < ctlLineMax) :
    (k.read (.avail (n + 1) :: xs)).left < k.left := by
  have hpos : 0 < k.peer.unread.length := List.length_pos_iff.2 hbytes
  have hr : min (n + 1) (min (ctlLineMax - k.client.input.length) k.peer.unread.length) ≠ 0 := by
    omega
  have hstep : k.read (.avail (n + 1) :: xs) =
      (k.taken (min (n + 1) (min (ctlLineMax - k.client.input.length) k.peer.unread.length))).read
        xs := by
    unfold Conn.read
    rw [clientRead, if_neg (Nat.ne_of_lt hroom)]
    simp only [if_neg hr]
    rfl
  rw [hstep]
  generalize hval : min (n + 1) (min (ctlLineMax - k.client.input.length) k.peer.unread.length) = r
    at hr
  have hle := (readTo_read (k := k.taken r) hfail hfin).left_le
  have htaken := left_taken k (r := r) (by omega)
  omega

/-! ## Serving -/

/-- A client that is not dropped has the reply behind the ones that wait. -/
theorem clientQueue_room {c : Client} {b : Text} (hoff : c.outoff ≤ c.out.length)
    (hopen : (clientQueue c b).1.opened = true) :
    ∃ out off, (clientQueue c b).1 = { c with out := out, outoff := off } ∧ off ≤ out.length ∧
      out.length ≤ ctlOutMax ∧ out.drop off = c.pending ++ b := by
  unfold Client.pending
  unfold clientQueue at hopen ⊢
  by_cases hcompact : c.outoff ≠ 0 ∧ ctlOutMax < c.out.length + b.length
  · rw [if_pos hcompact] at hopen ⊢
    dsimp only at hopen ⊢
    split at hopen
    · cases hopen
    rename_i hfits
    rw [if_neg hfits]
    refine ⟨c.out.drop c.outoff ++ b, 0, rfl, Nat.zero_le _, ?_, by simp⟩
    rw [List.length_append]
    omega
  · rw [if_neg hcompact] at hopen ⊢
    dsimp only at hopen ⊢
    split at hopen
    · cases hopen
    rename_i hfits
    rw [if_neg hfits]
    refine ⟨c.out ++ b, c.outoff, rfl, ?_, ?_, List.drop_append_of_le_length hoff⟩
    · rw [List.length_append]
      omega
    · rw [List.length_append]
      omega

/-- An empty reply is not queued, which makes no difference. -/
theorem clientQueue_if {c : Client} (hroom : c.out.length ≤ ctlOutMax) (b : Text) :
    (if b = [] then (c, false) else clientQueue c b).1 = (clientQueue c b).1 := by
  split
  · rename_i hnil
    subst hnil
    have hno : ¬ ctlOutMax < c.out.length + ([] : Text).length := by
      rw [List.length_nil]
      omega
    have hno' : ¬ (c.outoff ≠ 0 ∧ ctlOutMax < c.out.length + ([] : Text).length) := fun h => hno h.2
    simp only [clientQueue, if_neg hno', if_neg hno, List.append_nil]
  · rfl

/-- The carriage return, as the server looks for it. -/
theorem stripCr_take {t : Text} {l : Nat} (hl : l ≤ t.length) :
    stripCr (t.take l) = t.take (if l ≠ 0 ∧ t.getD (l - 1) 0 = 13 then l - 1 else l) := by
  cases l with
  | zero => simp [stripCr]
  | succ l =>
    have hlast : (t.take (l + 1)).getLast? = some (t.getD l 0) := by
      rw [List.getLast?_eq_getElem?, List.length_take, Nat.min_eq_left hl, Nat.add_sub_cancel,
        List.getElem?_take_of_lt (Nat.lt_succ_self l), List.getD_eq_getElem?_getD,
        List.getElem?_eq_getElem (by omega), Option.getD_some]
    have hdrop : (t.take (l + 1)).dropLast = t.take l := by
      rw [List.dropLast_eq_take, List.length_take, Nat.min_eq_left hl, Nat.add_sub_cancel,
        List.take_take, Nat.min_eq_left (Nat.le_succ l)]
    unfold stripCr
    rw [hlast, hdrop, Nat.add_sub_cancel]
    by_cases hcr : t.getD l 0 = 13
    · rw [if_pos (by rw [hcr]), if_pos ⟨Nat.succ_ne_zero l, hcr⟩]
    · rw [if_neg fun h => hcr (Option.some.inj h), if_neg fun h => hcr h.2]

/-- A reply is queued behind the ones that wait, and the line is gone. -/
theorem Conn.Inv.queued {k : Conn} (hI : k.Inv stream shut) {c : Client} {a : Answer}
    (hcopy : c.opened = true ∧ c.out = k.client.out ∧ c.outoff = k.client.outoff)
    (hsize : c.input.length ≤ ctlLineMax) (hskip : c.discard = true → c.input = [])
    (hopen : (clientQueue c a.reply).1.opened = true)
    (hlong : a.item = .tooLong → a.reply = lineTooLong)
    (hitem : a.item :: framedLines
        (if c.discard then afterLine 10 k.peer.unread else c.input ++ k.peer.unread) =
      framedLines k.rest) :
    ({ k with client := (clientQueue c a.reply).1, answers := k.answers ++ [a] } : Conn).Inv
        stream shut ∧
      (clientQueue c a.reply).1.input = c.input := by
  obtain ⟨hopened, hout, houtoff⟩ := hcopy
  have hpending : c.pending = k.client.pending := by simp only [Client.pending, hout, houtoff]
  obtain ⟨out, off, hq, hoff, hmax, hdrop⟩ := clientQueue_room (c := c) (b := a.reply)
    (by rw [hout, houtoff]; exact hI.off) hopen
  rw [hq]
  refine ⟨⟨hI.shut, hopened, hsize, hskip, hoff, hmax, ?_, ?_, ?_⟩, rfl⟩
  · have hrest := hI.items
    rw [← hitem] at hrest
    simpa [Conn.items, Conn.rest] using hrest
  · have hsent := hI.sent
    simp only [Client.pending] at hdrop hpending hsent ⊢
    rw [hdrop, ← List.append_assoc, hpending, hsent]
    simp [Conn.replies]
  · intro b hb
    rcases List.mem_append.1 hb with hb | hb
    · exact hI.long b hb
    · rw [List.mem_singleton.1 hb]
      exact hlong

/-- A request is served: the line at the front of the buffer, or one that fills it.  The client
is not dropped. -/
theorem Conn.Inv.serve {σ : Type} {h : Handler σ} {k : Conn} (hI : k.Inv stream shut)
    {st : σ} {nowNs dt : UInt64} {r : Served σ} (hserve : k.serve h st nowNs dt = some r)
    (hopen : r.conn.client.opened = true) :
    r.conn.Inv stream shut ∧ r.conn.left < k.left := by
  unfold Conn.serve at hserve
  dsimp only at hserve
  split at hserve
  · cases hserve
  · rename_i hsome
    have hinput : k.client.input ≠ [] := by
      intro hnil
      simp [hnil] at hsome
    have hdiscard : k.client.discard = false := by
      by_contra hd
      exact hinput (hI.skip (by simpa using hd))
    have hrest : k.rest = k.client.input ++ k.peer.unread := by simp [Conn.rest, hdiscard]
    split at hserve
    · rename_i hnone
      split at hserve
      · cases hserve
      · rename_i hfull
        have hlen : k.client.input.length = ctlLineMax := by
          have hsize := hI.size
          omega
        obtain rfl := Option.some.inj hserve
        have hnext : framedLines k.rest = .tooLong :: framedLines (afterLine 10 k.peer.unread) := by
          rw [hrest, framedLines, framed_tooLong (memchr_eq_none.1 hnone) hlen (by decide)]
          rfl
        obtain ⟨hInv, hin⟩ := hI.queued (a := ⟨.tooLong, lineTooLong⟩)
          (c := { k.client with input := [], discard := true }) ⟨hI.opened, rfl, rfl⟩
          (Nat.zero_le _) (fun _ => rfl) hopen (fun _ => rfl) hnext.symm
        refine ⟨hInv, ?_⟩
        have hpos := List.length_pos_iff.2 hinput
        simp only [Conn.left, hin, List.length_nil]
        omega
    · rename_i l hline
      obtain ⟨hlt, heq, hnot⟩ := memchr_eq_some hline
      have hsize := hI.size
      have hlen : (k.client.input.take l).length < ctlLineMax := by
        rw [List.length_take]
        omega
      have hnext : framedLines k.rest = .line (stripCr (k.client.input.take l)) ::
          framedLines (k.client.input.drop (l + 1) ++ k.peer.unread) := by
        rw [hrest]
        conv_lhs => rw [heq, List.append_assoc, List.cons_append]
        rw [framedLines, framed_line hnot hlen]
        rfl
      rw [stripCr_take (Nat.le_of_lt hlt)] at hnext
      obtain rfl := Option.some.inj hserve
      generalize h.serve st (ofText k.client.input) _ nowNs dt = reply at hopen ⊢
      have hqueue := clientQueue_if (c := { k.client with input := k.client.input.drop (l + 1) })
        hI.room reply.2
      have hless : (k.client.input.drop (l + 1)).length < k.client.input.length := by
        rw [List.length_drop]
        omega
      simp only [hqueue] at hopen ⊢
      obtain ⟨hInv, hin⟩ := hI.queued
        (c := { k.client with input := k.client.input.drop (l + 1) })
        (a := ⟨.line (k.client.input.take
          (if l ≠ 0 ∧ k.client.input.getD (l - 1) 0 = 13 then l - 1 else l)), reply.2⟩)
        ⟨hI.opened, rfl, rfl⟩ (by dsimp only; omega) (fun h => by simp [hdiscard] at h)
        hopen (fun h => by cases h)
        (by simp only [hdiscard, Bool.false_eq_true, if_false]; exact hnext.symm)
      refine ⟨hInv, ?_⟩
      simp only [Conn.left, hin]
      omega

theorem serve_none {σ : Type} {h : Handler σ} {k : Conn} (hopen : k.client.opened = true)
    {st : σ} {nowNs dt : UInt64} (hserve : k.serve h st nowNs dt = none) :
    k.NoLine := by
  unfold Conn.serve at hserve
  dsimp only at hserve
  split at hserve
  · rename_i hempty
    simp only [hopen, Bool.not_true, Bool.false_or, List.isEmpty_iff] at hempty
    unfold Conn.NoLine
    rw [hempty]
    exact ⟨List.not_mem_nil, by decide⟩
  · split at hserve
    · rename_i hnone
      split at hserve
      · rename_i hlen
        exact ⟨memchr_eq_none.1 hnone, hlen⟩
      · cases hserve
    · cases hserve

theorem serve_some {σ : Type} {h : Handler σ} {k : Conn} {st : σ} {nowNs dt : UInt64}
    {r : Served σ} (hserve : k.serve h st nowNs dt = some r) : ¬ k.NoLine := by
  rintro ⟨hline, hlen⟩
  unfold Conn.serve at hserve
  dsimp only at hserve
  rw [memchr_eq_none.2 hline, if_pos hlen] at hserve
  simp at hserve

/-! ## Sending -/

/-- The connection with other output. -/
def Conn.withOut (k : Conn) (out : Text) (off : Nat) (got : Text) : Conn :=
  { k with
    client := { k.client with out := out, outoff := off }
    peer := { k.peer with got := got } }

theorem Conn.Inv.withOut {k : Conn} (hI : k.Inv stream shut) {out got : Text} {off : Nat}
    (hoff : off ≤ out.length) (hroom : out.length ≤ ctlOutMax)
    (hsent : got ++ out.drop off = k.peer.got ++ k.client.pending) :
    (k.withOut out off got).Inv stream shut :=
  ⟨hI.shut, hI.opened, hI.size, hI.skip, hoff, hroom, hI.items, hsent.trans hI.sent, hI.long⟩

theorem sent_spec {c : Client} (hoff : c.outoff ≤ c.out.length) :
    ∃ out off, c.sent = { c with out := out, outoff := off } ∧ off ≤ out.length ∧
      out.length ≤ c.out.length ∧ out.drop off = c.pending := by
  unfold Client.sent
  split
  · rename_i hall
    exact ⟨[], 0, rfl, Nat.le_refl _, Nat.zero_le _, by simp [Client.pending, hall]⟩
  · exact ⟨c.out, c.outoff, rfl, hoff, Nat.le_refl _, rfl⟩

/-- `client_send` moves bytes from the buffer to the peer. -/
theorem clientSend_spec {xs : List Send} (hfail : Send.fail ∉ xs) {c : Client}
    (hoff : c.outoff ≤ c.out.length) (p : Peer) :
    ∃ out off got,
      clientSend xs c p = ({ c with out := out, outoff := off }, { p with got := got }) ∧
      off ≤ out.length ∧ out.length ≤ c.out.length ∧
      got ++ out.drop off = p.got ++ c.pending := by
  induction xs generalizing c p with
  | nil =>
    obtain ⟨out, off, heq, hle, hlen, hdrop⟩ := sent_spec hoff
    exact ⟨out, off, p.got, by rw [clientSend, heq], hle, hlen, by rw [hdrop]⟩
  | cons x xs ih =>
    have hfail' : Send.fail ∉ xs := fun h => hfail (List.mem_cons_of_mem _ h)
    unfold clientSend
    split
    · cases x with
      | intr => exact ih hfail' hoff p
      | fail => exact absurd List.mem_cons_self hfail
      | took n =>
        dsimp only
        generalize hw : min n (c.out.length - c.outoff) = w
        obtain ⟨out, off, got, heq, hle, hlen, hsent⟩ :=
          ih hfail' (c := { c with outoff := c.outoff + w }) (by dsimp only; omega)
            { p with got := p.got ++ c.pending.take w }
        refine ⟨out, off, got, heq, hle, hlen, hsent.trans ?_⟩
        simp only [Client.pending]
        rw [← List.drop_drop, List.append_assoc, List.take_append_drop]
    · obtain ⟨out, off, heq, hle, hlen, hdrop⟩ := sent_spec hoff
      exact ⟨out, off, p.got, by rw [heq], hle, hlen, by rw [hdrop]⟩

/-- Once everything is sent the buffer starts again. -/
theorem clientSend_all {c : Client} (hall : c.outoff = c.out.length) (xs : List Send) (p : Peer) :
    clientSend xs c p = ({ c with out := [], outoff := 0 }, p) := by
  have hsent : c.sent = { c with out := [], outoff := 0 } := if_pos hall
  unfold clientSend
  split
  · rw [hsent]
  · rw [if_neg (by simp [hall]), hsent]

/-- A socket that takes everything. -/
theorem clientSend_drains {c : Client} {n : Nat} (hopen : c.opened = true)
    (hwaits : c.outoff < c.out.length) (hn : c.out.length ≤ n) (ys : List Send) (p : Peer) :
    (clientSend (.took n :: ys) c p).1 = { c with out := [], outoff := 0 } := by
  have hw : c.outoff + min n (c.out.length - c.outoff) = c.out.length := by omega
  rw [clientSend, if_pos (by simp [hopen, hwaits])]
  dsimp only
  rw [clientSend_all hw]

/-- A send moves bytes from the buffer to the peer. -/
theorem send_spec {k : Conn} (hI : k.Inv stream shut) {xs : List Send}
    (hfail : Send.fail ∉ xs) :
    ∃ out off got, k.send xs = k.withOut out off got ∧ (k.send xs).Inv stream shut ∧
      (k.client.pending = [] → out.drop off = []) ∧
      (∀ n ys, xs = .took n :: ys → ctlOutMax ≤ n → out.drop off = []) := by
  by_cases hwaits : k.client.outoff < k.client.out.length
  · obtain ⟨out, off, got, heq, hle, hlen, hsent⟩ := clientSend_spec hfail hI.off k.peer
    have hsend : k.send xs = k.withOut out off got := by
      simp [Conn.send, hI.opened, hwaits, heq, Conn.withOut]
    refine ⟨out, off, got, hsend, ?_, ?_, ?_⟩
    · rw [hsend]
      exact hI.withOut hle (Nat.le_trans hlen hI.room) hsent
    · intro hnil
      have hlen := congrArg List.length hnil
      simp only [Client.pending, List.length_drop, List.length_nil] at hlen
      omega
    · rintro n ys rfl hn
      have hdrains := clientSend_drains hI.opened hwaits (Nat.le_trans hI.room hn) ys k.peer
      rw [heq] at hdrains
      have hout : out = [] := congrArg Client.out hdrains
      rw [hout, List.drop_nil]
  · have hsend : k.send xs = k := by simp [Conn.send, hwaits]
    have hnil : k.client.out.drop k.client.outoff = [] := List.drop_eq_nil_of_le (by omega)
    exact ⟨k.client.out, k.client.outoff, k.peer.got, hsend, by rw [hsend]; exact hI,
      fun _ => hnil, fun _ _ _ _ => hnil⟩

/-! ## A call -/

/-- The client reads its replies and keeps its side as it is: no call on its socket
fails, the end of its stream is not reported as long as there is anything left to do,
and it is not dropped for a reply that does not fit, which is the one other way to
close it. -/
def CalmCall (i : Fin 4) (call : ServiceCall) (k k' : Conn) : Prop :=
  (∀ xs ∈ call.recv i, Recv.fail ∉ xs ∧ (Recv.fin ∈ xs → k.peer.shut = true → k.Done)) ∧
    Send.fail ∉ call.send i ∧ (k'.client.opened = true ∨ k.peer.shut = true ∧ k.Done)

/-- A call that reads what has arrived, has a request to spare for the client and
sends it all that waits. -/
def ready (i : Fin 4) (call : ServiceCall) : Bool :=
  decide (i < call.maxCmds) &&
  (match call.recv i with
    | some (.avail (_ + 1) :: _) => true
    | _ => false) &&
  match call.send i with
  | .took n :: _ => decide (ctlOutMax ≤ n)
  | _ => false

theorem framedLines_done {k : Conn} (hI : k.Inv stream shut) (hdone : k.Done) :
    k.Answered stream := by
  obtain ⟨hunread, ⟨hline, hlen⟩, hpending⟩ := hdone
  have hrest : framedLines k.rest = [] := by
    have hnone : framed 10 ctlLineMax k.rest = [] := by
      unfold Conn.rest
      rw [hunread]
      split
      · exact framed_short List.not_mem_nil (by decide)
      · rw [List.append_nil]
        exact framed_short hline hlen
    rw [framedLines, hnone]
    rfl
  have hitems := hI.items
  have hsent := hI.sent
  rw [hrest, List.append_nil] at hitems
  rw [hpending, List.append_nil] at hsent
  exact ⟨hitems, hsent, hI.long⟩

/-- What a call can do to an open connection of a calm client: it goes on, or it is
closed with everything answered and sent. -/
inductive CallTo (stream : Text) (shut : Bool) (i : Fin 4) (call : ServiceCall) (k k' : Conn) :
    Prop where
  | goesOn (hinv : k'.Inv stream shut) (hleft : k'.left ≤ k.left) (hdone : k.Done → k'.Done)
      (hready : ready i call = true → k'.left < k.left ∨ k'.Done)
  | closed (hclosed : k'.client.opened = false) (hanswered : k'.Answered stream)
      (hshut : shut = true)

/-- The read of a calm client. -/
theorem calm_read {k : Conn} {xs : List Recv} (hfail : Recv.fail ∉ xs)
    (hfin : Recv.fin ∈ xs → k.peer.shut = true → k.Done) :
    ReadTo k (k.read xs) ∨
      (k.read xs = { k with client := .closed } ∧ k.Done ∧ k.peer.shut = true) := by
  by_cases hend : Recv.fin ∈ xs ∧ k.peer.shut = true
  · have hdone := hfin hend.1 hend.2
    rcases read_empty hfail hdone.1 with h | h
    · rw [h]
      exact .inl (.stop k)
    · exact .inr ⟨h, hdone, hend.2⟩
  · refine .inl (readTo_read hfail fun h => ?_)
    by_contra hshut
    exact hend ⟨h, by simpa using hshut⟩

/-- A client that is open after the send was so before it. -/
theorem opened_of_send {k : Conn} {xs : List Send} (h : (k.send xs).client.opened = true) :
    k.client.opened = true := by
  by_contra hclosed
  have hsame : k.send xs = k := by simp [Conn.send, hclosed]
  exact hclosed (hsame ▸ h)

/-- The request of a client, if there is one and the budget allows it, and the send. -/
theorem served_conn {σ : Type} {h : Handler σ} {call : ServiceCall} {i : Fin 4}
    {k k' : Conn} (hI : k.Inv stream shut)
    (hopen : k'.client.opened = true ∨ k.NoLine) (hfail : Send.fail ∉ call.send i)
    (hserve : k' = k.send (call.send i) ∧ call.maxCmds ≤ i ∨
      ∃ st, k' = (match k.serve h st call.nowNs (call.dt i) with
        | none => k
        | some r => r.conn).send (call.send i)) :
    k'.Inv stream shut ∧
      (k'.left < k.left ∧ ¬ k.NoLine ∨
        k'.left = k.left ∧ k'.peer.unread = k.peer.unread ∧ k'.client.input = k.client.input ∧
          (k.client.pending = [] → k'.client.pending = []) ∧ (call.maxCmds ≤ i ∨ k.NoLine)) ∧
      (ready i call = true → k'.client.pending = []) := by
  -- what the send adds, whatever was served before it
  have hsend : ∀ k₁ : Conn, k₁.Inv stream shut → (k₁.send (call.send i)).Inv stream shut ∧
      (k₁.send (call.send i)).left = k₁.left ∧
      (k₁.send (call.send i)).peer.unread = k₁.peer.unread ∧
      (k₁.send (call.send i)).client.input = k₁.client.input ∧
      (k₁.client.pending = [] → (k₁.send (call.send i)).client.pending = []) ∧
      (ready i call = true → (k₁.send (call.send i)).client.pending = []) := by
    intro k₁ hI₁
    obtain ⟨out, off, got, heq, hinv, hnil, hall⟩ := send_spec hI₁ hfail
    refine ⟨hinv, ?_⟩
    rw [heq]
    refine ⟨rfl, rfl, rfl, hnil, fun hready => ?_⟩
    unfold ready at hready
    cases hlist : call.send i with
    | nil => simp [hlist] at hready
    | cons x ys =>
      cases x with
      | took n => exact hall n ys hlist (by simp [hlist] at hready; exact hready.2)
      | intr => simp [hlist] at hready
      | fail => simp [hlist] at hready
  rcases hserve with ⟨rfl, hbudget⟩ | ⟨st, rfl⟩
  · obtain ⟨hinv, hleft, hunread, hinput, hnil, hall⟩ := hsend k hI
    exact ⟨hinv, .inr ⟨hleft, hunread, hinput, hnil, .inl hbudget⟩, hall⟩
  · cases hres : k.serve h st call.nowNs (call.dt i) with
    | none =>
      obtain ⟨hinv, hleft, hunread, hinput, hnil, hall⟩ := hsend k hI
      exact ⟨hinv, .inr ⟨hleft, hunread, hinput, hnil, .inr (serve_none hI.opened hres)⟩, hall⟩
    | some r =>
      rw [hres] at hopen
      have hopen := opened_of_send (hopen.resolve_right (serve_some hres))
      obtain ⟨hinv₁, hless⟩ := hI.serve hres hopen
      obtain ⟨hinv, hleft, -, -, -, hall⟩ := hsend r.conn hinv₁
      exact ⟨hinv, .inl ⟨by dsimp only; omega, serve_some hres⟩, hall⟩

/-- A closed client is not served. -/
theorem closed_conn {σ : Type} (h : Handler σ) {call : ServiceCall} {i : Fin 4} {k k' : Conn}
    (hclosed : k.client.opened = false)
    (hserve : k' = k.send (call.send i) ∧ call.maxCmds ≤ i ∨
      ∃ st, k' = (match k.serve h st call.nowNs (call.dt i) with
        | none => k
        | some r => r.conn).send (call.send i)) : k' = k := by
  have hsend : k.send (call.send i) = k := by simp [Conn.send, hclosed]
  rcases hserve with ⟨rfl, -⟩ | ⟨st, rfl⟩
  · exact hsend
  · have hnone : k.serve h st call.nowNs (call.dt i) = none := by simp [Conn.serve, hclosed]
    rw [hnone]
    exact hsend

theorem ReadTo.done {k k' : Conn} (h : ReadTo k k') (hdone : k.Done) : k'.Done := by
  induction h with
  | stop => exact hdone
  | @more k k' r hroom hlen _ ih =>
    apply ih
    have hsame : k.taken r = k := by
      have htake : k.client.take [] = k.client := by
        unfold Client.take
        split
        · rfl
        · rw [List.append_nil]
      unfold Conn.taken
      rw [hdone.1, List.take_nil, List.drop_nil, htake]
      simp [← hdone.1]
    rw [hsame]
    exact hdone

theorem ReadTo.unread_ne {k k' : Conn} (h : ReadTo k k') (hbytes : k'.peer.unread ≠ []) :
    k.peer.unread ≠ [] := by
  induction h with
  | stop => exact hbytes
  | more r _ _ _ ih =>
    intro hnil
    exact ih hbytes (by simp [Conn.taken, hnil])

/-- A ready call reads something, or there is nothing to read, or the buffer is full. -/
theorem ready_read {k : Conn} {xs : List Recv} {n : Nat} (hI : k.Inv stream shut)
    (hfail : Recv.fail ∉ Recv.avail (n + 1) :: xs)
    (hfin : Recv.fin ∈ Recv.avail (n + 1) :: xs → k.peer.shut = true → k.Done)
    (hline : (k.read (.avail (n + 1) :: xs)).NoLine)
    (hmore : k.peer.unread ≠ []) : (k.read (.avail (n + 1) :: xs)).left < k.left := by
  by_cases hfull : k.client.input.length = ctlLineMax
  · have hsame : k.read (.avail (n + 1) :: xs) = k := by
      simp [Conn.read, clientRead, hfull]
    rw [hsame] at hline
    exact absurd hfull (Nat.ne_of_lt hline.2)
  · have hsize := Nat.lt_of_le_of_ne hI.size hfull
    refine left_read_lt (fun h => hfail (List.mem_cons_of_mem _ h)) (fun h => ?_) hmore hsize
    by_contra hshut
    exact hmore (hfin (List.mem_cons_of_mem _ h) (by simpa using hshut)).1

/-- The step lemma: one call, from any state of a calm client. -/
theorem step_conn {σ : Type} {h : Handler σ} {s : Srv σ} {call : ServiceCall} {i : Fin 4}
    (hI : (s.conns i).Inv stream shut)
    (hcalm : CalmCall i call (s.conns i) ((s.step h call).conns i)) :
    CallTo stream shut i call (s.conns i) ((s.step h call).conns i) := by
  obtain ⟨hrecv, hsend, hopen⟩ := hcalm
  obtain ⟨k, hread, hserve⟩ := service_conn h s call hI.opened
  generalize s.conns i = k₀ at hI hrecv hopen hread ⊢
  generalize (s.step h call).conns i = k' at hserve hopen ⊢
  have hto : ReadTo k₀ k ∨
      (k = { k₀ with client := .closed } ∧ k₀.Done ∧ k₀.peer.shut = true) := by
    rcases hread with ⟨rfl, -⟩ | ⟨xs, hxs, rfl⟩
    · exact .inl (.stop _)
    · obtain ⟨hfail, hfin⟩ := hrecv xs hxs
      exact calm_read hfail hfin
  rcases hto with hto | ⟨rfl, hdone, hshut⟩
  · obtain ⟨hinv, hleft, hall⟩ := served_conn (hto.inv hI)
      (hopen.imp_right fun hdone => (hto.done hdone.2).2.1) hsend hserve
    have hle := hto.left_le
    refine .goesOn hinv ?_ ?_ ?_
    · rcases hleft with ⟨hlt, -⟩ | ⟨heq, -⟩ <;> omega
    · intro hdone₀
      have hdone := hto.done hdone₀
      rcases hleft with ⟨-, hline⟩ | ⟨-, hunread, hinput, hnil, -⟩
      · exact absurd hdone.2.1 hline
      · refine ⟨hunread.trans hdone.1, ?_, hnil hdone.2.2⟩
        unfold Conn.NoLine
        rw [hinput]
        exact hdone.2.1
    · intro hready
      rcases hleft with ⟨hlt, -⟩ | ⟨heq, hunread, hinput, -, hline⟩
      · exact .inl (by omega)
      · have hbudget : (i : Nat) < call.maxCmds := by
          simp only [ready, Bool.and_eq_true, decide_eq_true_eq] at hready
          exact hready.1.1
        have hline : k.NoLine := hline.resolve_left (by omega)
        by_cases hbytes : k.peer.unread = []
        · right
          refine ⟨hunread.trans hbytes, ?_, hall hready⟩
          unfold Conn.NoLine
          rw [hinput]
          exact hline
        · left
          rcases hread with ⟨-, hnone⟩ | ⟨xs, hxs, rfl⟩
          · simp [ready, hnone] at hready
          · obtain ⟨hfail, hfin⟩ := hrecv xs hxs
            unfold ready at hready
            rw [hxs] at hready
            split at hready
            · rename_i n ys hlist
              obtain rfl := Option.some.inj hlist
              have hlt := ready_read hI hfail hfin hline (hto.unread_ne hbytes)
              exact Nat.lt_of_le_of_lt (Nat.le_of_eq heq) hlt
            · simp at hready
  · have hsame := closed_conn h rfl hserve
    have hanswered := framedLines_done hI hdone
    rw [hsame]
    exact .closed rfl ⟨hanswered.items, hanswered.got, hanswered.long⟩ (hI.shut ▸ hshut)

end Calls

/-! ## Every run -/

section Runs

variable {σ : Type} {h : Handler σ} {srv : Srv σ} {i : Fin 4} {stream : Text} {shut : Bool}

/-- The client is calm in a call of the run. -/
def Calm (i : Fin 4) (_ : List (Rec (Srv σ) ServiceCall)) (r : Rec (Srv σ) ServiceCall) : Prop :=
  CalmCall i r.ev (r.pre.conns i) (r.post.conns i)

instance (i : Fin 4) (call : ServiceCall) (k k' : Conn) : Decidable (CalmCall i call k k') :=
  inferInstanceAs (Decidable (_ ∧ _ ∧ _))

instance (i : Fin 4) (hist : List (Rec (Srv σ) ServiceCall)) (r : Rec (Srv σ) ServiceCall) :
    Decidable (Calm i hist r) :=
  inferInstanceAs (Decidable (CalmCall i r.ev (r.pre.conns i) (r.post.conns i)))

/-- The connection was open after every call so far. -/
def StaysOpen (i : Fin 4) (hist : List (Rec (Srv σ) ServiceCall)) : Prop :=
  ∀ q ∈ hist, (q.post.conns i).client.opened = true

/-- The state of a connection that has not been closed, after a history of calls:
every ready call has done something, or everything is done. -/
def GoesOn (stream : Text) (shut : Bool) (i : Fin 4) (hist : List (Rec (Srv σ) ServiceCall))
    (s : Srv σ) : Prop :=
  shut = false ∨ StaysOpen i hist →
    (s.conns i).Inv stream shut ∧
      ((s.conns i).Done ∨
        (s.conns i).left + hist.countP (fun r => ready i r.ev) ≤ 2 * stream.length)

theorem GoesOn.step {hist : List (Rec (Srv σ) ServiceCall)} {s : Srv σ} {call : ServiceCall}
    (hI : GoesOn stream shut i hist s) (hcalm : Calm i hist ⟨s, call, s.step h call⟩) :
    GoesOn stream shut i (hist ++ [⟨s, call, s.step h call⟩]) (s.step h call) := by
  intro hopen
  have hbefore : shut = false ∨ StaysOpen i hist :=
    hopen.imp_right fun hopen q hq => hopen q (List.mem_append_left _ hq)
  obtain ⟨hinv, hprogress⟩ := hI hbefore
  cases step_conn (h := h) hinv hcalm with
  | goesOn hinv' hleft hdone hready =>
    refine ⟨hinv', ?_⟩
    change ((s.step h call).conns i).left ≤ (s.conns i).left at hleft
    change ready i call = true → ((s.step h call).conns i).left < (s.conns i).left ∨ _ at hready
    rcases hprogress with hprogress | hprogress
    · exact .inl (hdone hprogress)
    · rw [List.countP_append, List.countP_singleton]
      cases hr : ready i call with
      | true =>
        rcases hready hr with hlt | hnow
        · right
          simp only [if_true]
          omega
        · exact .inl hnow
      | false =>
        right
        simp only [Bool.false_eq_true, if_false]
        omega
  | closed hclosed _ hshut =>
    -- a closed connection has not stayed open, and is not that of an open peer
    rcases hopen with hfalse | hopen
    · rw [hshut] at hfalse
      cases hfalse
    · have hpost := hopen ⟨s, call, s.step h call⟩ (by simp)
      rw [hclosed] at hpost
      cases hpost

/-- After more ready calls than there is to do, everything is answered and sent. -/
theorem GoesOn.answered {calls : List ServiceCall}
    (hI : GoesOn stream shut i (trace (Srv.step h) srv calls) (run (Srv.step h) srv calls))
    (hopen : shut = false ∨ StaysOpen i (trace (Srv.step h) srv calls))
    (hready : 2 * stream.length < calls.countP (ready i)) :
    ((run (Srv.step h) srv calls).conns i).Answered stream := by
  obtain ⟨hinv, hprogress⟩ := hI hopen
  have hcount : (trace (Srv.step h) srv calls).countP (fun r => ready i r.ev) =
      calls.countP (ready i) := by
    have hev : (trace (Srv.step h) srv calls).map Rec.ev = calls := map_ev_trace srv calls
    conv_rhs => rw [← hev, List.countP_map]
    rfl
  rcases hprogress with hdone | hleft
  · exact framedLines_done hinv hdone
  · omega

end Runs

section Service

variable {σ D : Type} (fp : Fp D) (be : Backend σ) (al : Option (AllowList D))

end Service

end EcMaster.Api
