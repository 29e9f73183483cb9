import EcMaster.Api.Ctl
import EcMaster.Lib.Lines

/-!
# The server of `ctl.sock`

The part of `libecmaster/api/ecm_ctl.c` behind `ecm_ctl_srv_service`: four
clients, each with a buffer for its input and one for its replies, and the calls
that read, serve and send.

What the kernel does is an argument of the call.  `Recv` is what one `recv` finds
and `Send` what one `send` takes; a list of them that ends stands for `EAGAIN`.
The bytes of a client are all there from the start, in `Peer.unread`, and a
`recv` says how many of them have arrived, so every way to cut a stream into
chunks is a list of calls.

A connection (`Conn`) is a client with its peer and the answers it was given so
far.  The functions of the source that work on one client are functions of a
connection here, and `ecmCtlSrvService` puts them together.
-/

namespace EcMaster.Api

open EcMaster.ByteImage EcMaster.CText EcMaster.Lines

/-- `ECM_CTL_LINE_MAX`. -/
def ctlLineMax : Nat := 1024

/-- `ECM_CTL_OUT_MAX`. -/
def ctlOutMax : Nat := 160 * 1024

/-- What stands behind the server: the reply to a request, given as memory and
length, the time of the call and the time that its SDO takes; and what is counted
for a line that is too long. -/
structure Handler (σ : Type) where
  serve : σ → Image → Nat → UInt64 → UInt64 → σ × Text
  tooLong : σ → σ

/-! ## Clients -/

/-- `ecm_ctl_client_t`. -/
structure Client where
  opened : Bool
  input : Text
  out : Text
  outoff : Nat
  discard : Bool
deriving DecidableEq, Repr

/-- After `client_close`. -/
def Client.closed : Client :=
  { opened := false, input := [], out := [], outoff := 0, discard := false }

/-- A client that was accepted. -/
def Client.fresh : Client := { Client.closed with opened := true }

/-- The replies that are not sent yet. -/
def Client.pending (c : Client) : Text := c.out.drop c.outoff

/-- The other end: the bytes that it sends and the server has not read, whether
it sends no more after them, and the bytes that it has got. -/
structure Peer where
  unread : Text
  shut : Bool
  got : Text
deriving DecidableEq, Repr

/-- What one `recv` finds: some bytes, the end of the stream, a signal or an
error. -/
inductive Recv where
  | avail (n : Nat) | fin | intr | fail
deriving DecidableEq, Repr

/-- What one `send` takes. -/
inductive Send where
  | took (n : Nat) | intr | fail
deriving DecidableEq, Repr

/-- The bytes of one `recv` in the buffer. -/
def Client.take (c : Client) (data : Text) : Client :=
  if c.discard then
    -- the rest of an over-long line
    match memchr 10 data with
    | none => c
    | some k => { c with input := data.drop (k + 1), discard := false }
  else { c with input := c.input ++ data }

/-- `client_read`. -/
def clientRead : List Recv → Client → Peer → Client × Peer
  | [], c, p => (c, p)
  | x :: xs, c, p =>
      if c.input.length = ctlLineMax then (c, p)
      else
        match x with
        | .intr => clientRead xs c p
        | .fail => (.closed, p)
        | .fin =>
            if p.unread = [] then (if p.shut then .closed else c, p)
            else
              let r := min (ctlLineMax - c.input.length) p.unread.length
              clientRead xs (c.take (p.unread.take r)) { p with unread := p.unread.drop r }
        | .avail n =>
            let r := min n (min (ctlLineMax - c.input.length) p.unread.length)
            if r = 0 then (c, p)
            else clientRead xs (c.take (p.unread.take r)) { p with unread := p.unread.drop r }

/-- `client_queue`, and whether the client was dropped. -/
def clientQueue (c : Client) (b : Text) : Client × Bool :=
  let c := if c.outoff ≠ 0 ∧ ctlOutMax < c.out.length + b.length then
      { c with out := c.out.drop c.outoff, outoff := 0 }
    else c
  if ctlOutMax < c.out.length + b.length then (.closed, true)
  else ({ c with out := c.out ++ b }, false)

/-- The end of `client_send`. -/
def Client.sent (c : Client) : Client :=
  if c.outoff = c.out.length then { c with out := [], outoff := 0 } else c

/-- `client_send`. -/
def clientSend : List Send → Client → Peer → Client × Peer
  | [], c, p => (c.sent, p)
  | x :: xs, c, p =>
      if c.opened && decide (c.outoff < c.out.length) then
        match x with
        | .intr => clientSend xs c p
        | .fail => (.closed, p)
        | .took n =>
            let w := min n (c.out.length - c.outoff)
            clientSend xs { c with outoff := c.outoff + w }
              { p with got := p.got ++ c.pending.take w }
      else (c.sent, p)

/-! ## Connections -/

/-- A line that was answered, without its carriage return, and the reply. -/
structure Answer where
  item : Framed UInt8
  reply : Text
deriving DecidableEq, Repr

/-- A client, its peer and its answers. -/
structure Conn where
  client : Client
  peer : Peer
  answers : List Answer
deriving DecidableEq, Repr

/-- A connection whose peer sends `stream`. -/
def Conn.fresh (stream : Text) (shut : Bool) : Conn :=
  { client := .fresh, peer := { unread := stream, shut, got := [] }, answers := [] }

/-- The reply to a line that is too long. -/
def lineTooLong : Text :=
  txt ("\x7b\"id\":null,\"ok\":false,\"error\":\"line_too_long\"," ++
    "\"msg\":\"a request is one line of at most 1023 bytes\"\x7d\n")

/-- The read of a client that poll reported. -/
def Conn.read (k : Conn) (xs : List Recv) : Conn :=
  let r := clientRead xs k.client k.peer
  { k with client := r.1, peer := r.2 }

/-- What serving one client leaves behind. -/
structure Served (σ : Type) where
  conn : Conn
  st : σ
  long : Bool
  slow : Bool

/-- One request of a client, if it has one. -/
def Conn.serve {σ : Type} (h : Handler σ) (k : Conn) (st : σ) (nowNs dt : UInt64) :
    Option (Served σ) :=
  let c := k.client
  if !c.opened || c.input.isEmpty then none
  else
    match memchr 10 c.input with
    | none =>
        if c.input.length < ctlLineMax then none
        else
          let q := clientQueue { c with input := [], discard := true } lineTooLong
          some
            { conn := { k with
                client := q.1, answers := k.answers ++ [⟨.tooLong, lineTooLong⟩] }
              st := h.tooLong st, long := true, slow := q.2 }
    | some l =>
        let ll := if l ≠ 0 ∧ c.input.getD (l - 1) 0 = 13 then l - 1 else l
        let r := h.serve st (ofText c.input) ll nowNs dt
        let c' := { c with input := c.input.drop (l + 1) }
        let q := if r.2 = [] then (c', false) else clientQueue c' r.2
        some
          { conn := { k with
              client := q.1, answers := k.answers ++ [⟨.line (c.input.take ll), r.2⟩] }
            st := r.1, long := false, slow := q.2 }

/-- The send to a client that has replies. -/
def Conn.send (k : Conn) (xs : List Send) : Conn :=
  if k.client.opened && decide (k.client.outoff < k.client.out.length) then
    let r := clientSend xs k.client k.peer
    { k with client := r.1, peer := r.2 }
  else k

/-! ## The server -/

/-- `ecm_ctl_srv_t`, with `ECM_CTL_MAX_CLIENTS` slots. -/
structure Srv (σ : Type) where
  conns : Fin 4 → Conn
  st : σ
  accepted : Nat
  refusedClients : Nat
  droppedSlow : Nat
  droppedLong : Nat

/-- One call of `ecm_ctl_srv_service`: the connections that wait, what poll and
`recv` find for every client, the time, the budget, and what `send` takes. -/
structure ServiceCall where
  arrivals : List Peer
  recv : Fin 4 → Option (List Recv)
  nowNs : UInt64
  dt : Fin 4 → UInt64
  maxCmds : Nat
  send : Fin 4 → List Send

section Service

variable {σ : Type}

/-- One connection is accepted, or refused if all slots are taken. -/
def Srv.accept (s : Srv σ) (p : Peer) : Srv σ :=
  match (List.finRange 4).find? fun i => !(s.conns i).client.opened with
  | none => { s with refusedClients := s.refusedClients + 1 }
  | some i =>
      { s with
        conns := Function.update s.conns i (Conn.fresh p.unread p.shut)
        accepted := s.accepted + 1 }

/-- The turn of client `i` in the loop over requests, with the number of requests
before it. -/
def Srv.turn (h : Handler σ) (call : ServiceCall) (acc : Srv σ × Nat) (i : Fin 4) : Srv σ × Nat :=
  if acc.2 < call.maxCmds then
    match (acc.1.conns i).serve h acc.1.st call.nowNs (call.dt i) with
    | none => acc
    | some r =>
        ({ acc.1 with
            conns := Function.update acc.1.conns i r.conn
            st := r.st
            droppedLong := if r.long then acc.1.droppedLong + 1 else acc.1.droppedLong
            droppedSlow := if r.slow then acc.1.droppedSlow + 1 else acc.1.droppedSlow },
          acc.2 + 1)
  else acc

/-- `ecm_ctl_srv_service`: accept, read, serve, send. -/
def ecmCtlSrvService (h : Handler σ) (s : Srv σ) (call : ServiceCall) : Srv σ × Nat :=
  -- poll was called before the new clients came
  let polled := fun i => if (s.conns i).client.opened then call.recv i else none
  let s := call.arrivals.foldl Srv.accept s
  let s := { s with
    conns := fun i =>
      match polled i with
      | none => s.conns i
      | some xs => (s.conns i).read xs }
  let r := (List.finRange 4).foldl (Srv.turn h call) (s, 0)
  ({ r.1 with conns := fun i => (r.1.conns i).send (call.send i) }, r.2)

/-- The server after a call. -/
def Srv.step (h : Handler σ) (s : Srv σ) (call : ServiceCall) : Srv σ :=
  (ecmCtlSrvService h s call).1

/-! ## What a call does to one client -/

theorem accept_conn {s : Srv σ} {i : Fin 4} (hopen : (s.conns i).client.opened = true) (p : Peer) :
    (s.accept p).conns i = s.conns i := by
  unfold Srv.accept
  split
  · rfl
  · rename_i j hfind
    have hj := List.find?_some hfind
    have hne : i ≠ j := by
      rintro rfl
      simp [hopen] at hj
    exact Function.update_of_ne hne _ _

theorem foldl_accept_conn {i : Fin 4} (ps : List Peer) {s : Srv σ}
    (hopen : (s.conns i).client.opened = true) :
    (ps.foldl Srv.accept s).conns i = s.conns i := by
  induction ps generalizing s with
  | nil => rfl
  | cons p ps ih =>
    have hsame := accept_conn hopen p
    rw [List.foldl_cons, ih (by rw [hsame]; exact hopen), hsame]

/-- The turns of other clients. -/
theorem foldl_turn_other (h : Handler σ) (call : ServiceCall) {i : Fin 4} (js : List (Fin 4))
    (hnot : i ∉ js) (acc : Srv σ × Nat) :
    (js.foldl (Srv.turn h call) acc).1.conns i = acc.1.conns i ∧
      (js.foldl (Srv.turn h call) acc).2 ≤ acc.2 + js.length := by
  induction js generalizing acc with
  | nil => exact ⟨rfl, Nat.le_refl _⟩
  | cons j js ih =>
    obtain ⟨hij, hnot⟩ := not_or.1 (mt List.mem_cons.2 hnot)
    have hone : (Srv.turn h call acc j).1.conns i = acc.1.conns i ∧
        (Srv.turn h call acc j).2 ≤ acc.2 + 1 := by
      unfold Srv.turn
      split
      · split
        · exact ⟨rfl, Nat.le_succ _⟩
        · exact ⟨Function.update_of_ne hij _ _, Nat.le_refl _⟩
      · exact ⟨rfl, Nat.le_succ _⟩
    obtain ⟨hconn, hrun⟩ := ih hnot (Srv.turn h call acc j)
    rw [List.foldl_cons, List.length_cons]
    exact ⟨hconn.trans hone.1, by omega⟩

/-- The connection after the loop over requests: its turn came, or the budget was
used up by the clients before it. -/
theorem foldl_turn_conn (h : Handler σ) (call : ServiceCall) (s : Srv σ) (i : Fin 4) :
    ((List.finRange 4).foldl (Srv.turn h call) (s, 0)).1.conns i = s.conns i ∧
        call.maxCmds ≤ i ∨
      ∃ st, ((List.finRange 4).foldl (Srv.turn h call) (s, 0)).1.conns i =
        match (s.conns i).serve h st call.nowNs (call.dt i) with
        | none => s.conns i
        | some r => r.conn := by
  have hsplit : List.finRange 4 =
      (List.finRange 4).take i ++ i :: (List.finRange 4).drop (i + 1) ∧
        i ∉ (List.finRange 4).take i ∧ i ∉ (List.finRange 4).drop (i + 1) ∧
        ((List.finRange 4).take i).length = i := by
    revert i
    decide
  obtain ⟨hlist, hbefore, hafter, hlen⟩ := hsplit
  obtain ⟨hconn, hrun⟩ := foldl_turn_other h call _ hbefore (s, 0)
  rw [hlist, List.foldl_append, List.foldl_cons, (foldl_turn_other h call _ hafter _).1]
  generalize ((List.finRange 4).take i).foldl (Srv.turn h call) (s, 0) = acc at hconn hrun
  rw [← hconn]
  unfold Srv.turn
  split
  · refine .inr ⟨acc.1.st, ?_⟩
    split <;> simp
  · refine .inl ⟨rfl, ?_⟩
    simp only at hrun
    omega

/-- One call, as one client sees it: a read if poll reported it, a request if it has
one and the budget allows it, and a send. -/
theorem service_conn (h : Handler σ) (s : Srv σ) (call : ServiceCall) {i : Fin 4}
    (hopen : (s.conns i).client.opened = true) :
    ∃ k, (k = s.conns i ∧ call.recv i = none ∨ ∃ xs, call.recv i = some xs ∧
        k = (s.conns i).read xs) ∧
      ((s.step h call).conns i = k.send (call.send i) ∧ call.maxCmds ≤ i ∨
        ∃ st, (s.step h call).conns i =
          (match k.serve h st call.nowNs (call.dt i) with
            | none => k
            | some r => r.conn).send (call.send i)) := by
  refine ⟨match call.recv i with | none => s.conns i | some xs => (s.conns i).read xs, ?_, ?_⟩
  · cases call.recv i with
    | none => exact .inl ⟨rfl, rfl⟩
    | some xs => exact .inr ⟨xs, rfl, rfl⟩
  · unfold Srv.step ecmCtlSrvService
    dsimp only
    generalize hread : ({ call.arrivals.foldl Srv.accept s with
      conns := fun i =>
        match (if (s.conns i).client.opened then call.recv i else none) with
        | none => (call.arrivals.foldl Srv.accept s).conns i
        | some xs => ((call.arrivals.foldl Srv.accept s).conns i).read xs } : Srv σ) = s'
    have hk : s'.conns i =
        match call.recv i with
        | none => s.conns i
        | some xs => (s.conns i).read xs := by
      rw [← hread]
      simp only [hopen, if_true, foldl_accept_conn call.arrivals hopen]
    rw [← hk]
    rcases foldl_turn_conn h call s' i with ⟨hsame, hbudget⟩ | ⟨st, hturn⟩
    · exact .inl ⟨by rw [hsame], hbudget⟩
    · exact .inr ⟨st, by rw [hturn]⟩

end Service

end EcMaster.Api
