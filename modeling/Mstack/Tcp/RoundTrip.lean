import Mstack.Tcp.Echo
import Mstack.Tcp.Outbox

/-!
# A client and the echo server

`Duplex` with the application of `main.cpp` at one end.

What the server's callbacks do is not an event any more but follows from the
state of its array, so an event of `RoundTrip` is an event of `Duplex` whose
calls have been filled in (`step_duplex`).  The results on two blocks then
hold, provided that these calls are admissible.  They are (`duplexOk`), as the
application has one operation outstanding at a time and makes its calls in
callbacks, but for the write, which is **assumed to fit the send queue**:
`EventOk` says so of each handler that runs.  `Tcp.Return` has a condition on
the client that implies it.

### Main result

`echo_round_trip`: what the client has got back, what is on its way back, what
the application has in hand and what is on its way there are together what the
client has written, in order.

### Outline

Two facts meet.  On the way nothing is lost (`Intact`), in either direction;
and at the server nothing is lost between what it reads and what it writes
(`Echo.Echoes`).  The second one is about a block that nobody takes packets
from, the first one about a block whose packets are delivered; `Echo.behind`
says that the application does not see the difference.
-/

namespace Mstack

open EventSystem (bind_eq_ok Admitted)

namespace Echo

/-! ## What has been handed out

The application does not look at it. -/

/-- The application, had its block handed out `m` before. -/
def behind (m : List TcpPacket) (s : Echo) : Echo := { s with tcb := s.tcb.behind m }

/-- The application does not look at it. -/
theorem step_behind (m : List TcpPacket) (isn : BitVec 32) (s : Echo) (e : Event) :
    (s.behind m).step isn e = (s.step isn e).map (behind m) := by
  have hevent : (s.behind m).blockEvent e = s.blockEvent e := by cases e <;> rfl
  show Tcb.step isn (s.tcb.behind m) ((s.behind m).blockEvent e) >>= _ = Except.map _
    (Tcb.step isn s.tcb (s.blockEvent e) >>= _)
  rw [hevent, Tcb.step_behind]
  cases Tcb.step isn s.tcb (s.blockEvent e) <;> rfl

theorem Phase.of_behind {m : List TcpPacket} {s : Echo} (h : Phase (s.behind m)) : Phase s := by
  have hsame : Phase ⟨s.tcb, s.buf⟩ := h.congr rfl rfl rfl Iff.rfl rfl
  exact hsame

/-! ## The calls are admissible

What the application calls in a callback is what `LocalOk` asks for. -/

section Calls

variable {s : Echo} {k : ℕ} {task : Task}

/-- Where the callback issues a read, none is outstanding. -/
theorem Phase.none_outstanding (h : Phase s) (hk : s.tcb.ioCtx[k]? = some task)
    (honce : task = .connectionEstablished → ¬ s.tcb.Connected) (hne : task ≠ .sendLoop)
    (hread : ∀ cb n, task ≠ .readDone cb n) : (s.tcb.enterTask k task).NoReadOutstanding := by
  have hinbox : (s.tcb.enterTask k task).inbox = s.tcb.inbox := by
    refine Tcb.inbox_enterTask hk ?_
    cases task with
    | readDone cb n => exact (hread cb n rfl).elim
    | _ => rfl
  have hnone (hreaders : s.tcb.inbox.readers = []) (hdones : s.tcb.inbox.completions = []) :
      (s.tcb.enterTask k task).NoReadOutstanding := by
    refine ⟨(congrArg Tcb.Inbox.readers hinbox).trans hreaders, fun cb n hmem => ?_⟩
    have hdone : (cb, n) ∈ (s.tcb.enterTask k task).inbox.completions := Tcb.mem_readDones.mpr hmem
    rw [hinbox, hdones] at hdone
    cases hdone
  have hnothing (hcalled : s.tcb.Connected) (hreports : Tcb.writeDones s.tcb.ioCtx = []) :
      (s.tcb.enterTask k task).NoReadOutstanding := by
    cases task with
    | connectionEstablished => exact (honce rfl hcalled).elim
    | readDone cb n => exact (hread cb n rfl).elim
    | writeDone cb n =>
        have hreport := (writeDones_eraseIdx hk).mem_iff.mpr
          (List.mem_append_left _ (List.mem_singleton.mpr rfl) : (cb, n) ∈ _)
        rw [hreports] at hreport
        cases hreport
    | sendLoop => exact (hne rfl).elim
  cases h with
  | before _ _ hreaders hdones _ _ => exact hnone hreaders hdones
  | reads hcalled _ _ _ hreports _ => exact hnothing hcalled hreports
  | answers _ hcalled _ _ hreports _ _ _ _ => exact hnothing hcalled hreports
  | writes _ _ hreaders hdones _ _ => exact hnone hreaders hdones

/-- **What the application calls in a callback is admissible**, if what it
writes fits. -/
theorem Phase.calls_ok (h : Phase s) (hk : s.tcb.ioCtx[k]? = some task)
    (honce : task = .connectionEstablished → ¬ s.tcb.Connected) (hne : task ≠ .sendLoop)
    (hfits : ∀ cb n, task = .readDone cb n → s.tcb.WriteFits (s.buf.take n)) :
    Admitted Tcb.appCall (fun t c => t.Connected ∧ Tcb.OneRead t c) (s.tcb.enterTask k task)
      (calls s.buf task) := by
  have hcalled := h.connected_of_posted hk hne
  cases task with
  | connectionEstablished =>
      exact .single ⟨hcalled, h.none_outstanding hk honce hne (by simp)⟩
  | readDone cb n =>
      refine .single ⟨hcalled, ?_⟩
      show ∃ pq, (s.tcb.enterTask k (.readDone cb n)).send.pq = some pq ∧ _
      rw [Tcb.enterTask_send]
      exact hfits cb n rfl
  | writeDone cb n => exact .single ⟨hcalled, h.none_outstanding hk honce hne (by simp)⟩
  | sendLoop => exact (hne rfl).elim

end Calls

end Echo

/-- A client, and the application that echoes. -/
structure RoundTrip where
  client : Tcb
  server : Echo

namespace RoundTrip

open Tcb

/-- What can happen: a delivery, an event at the client, or the `k`-th handler
at the server. -/
inductive Event where
  | toServer
  | toClient
  | client (e : Mstack.Event)
  | server (k : ℕ)
  deriving DecidableEq, Repr

/-- One event; `isn` is the number the server draws. -/
def step (isn : BitVec 32) (s : RoundTrip) : Event → Except Fault RoundTrip
  | .toServer =>
      match s.client.mngr with
      | [] => .ok s
      | pkt :: rest => do
          let server ← s.server.step isn (.process pkt.skb)
          return { client := { s.client with mngr := rest }, server }
  | .toClient =>
      match s.server.tcb.mngr with
      | [] => .ok s
      | pkt :: rest => do
          let client ← s.client.process isn pkt.skb
          return { client, server := { s.server with tcb := { s.server.tcb with mngr := rest } } }
  | .client e => do return { s with client := ← Tcb.step isn s.client e }
  | .server k => do return { s with server := ← s.server.step isn (.task k) }

/-- A run of events. -/
def run (isn : BitVec 32) (s : RoundTrip) (es : List Event) : Except Fault RoundTrip :=
  EventSystem.run (step isn) s es

/-! ## The two blocks

An event here is an event of `Duplex`. -/

/-- The two blocks. -/
def duplex (s : RoundTrip) : Duplex := ⟨s.client, s.server.tcb⟩

/-- What an event is for them. -/
def duplexEvent (s : RoundTrip) : Event → Duplex.Event
  | .toServer => .toServer
  | .toClient => .toClient
  | .client e => .client e
  | .server k => .server (s.server.blockEvent (.task k))

/-- **The two blocks do what `Duplex` does.**  An equation between results, so
it holds for runs that abort as well. -/
theorem step_duplex (isn : BitVec 32) (s : RoundTrip) (e : Event) :
    (step isn s e).map duplex = Duplex.step isn s.duplex (s.duplexEvent e) := by
  obtain ⟨client, server⟩ := s
  cases e with
  | toServer =>
      cases hmngr : client.mngr with
      | nil => simp only [step, Duplex.step, duplex, duplexEvent, hmngr]; rfl
      | cons pkt rest =>
          simp only [step, Duplex.step, duplex, duplexEvent, hmngr, Echo.step, Echo.blockEvent,
            Tcb.step]
          cases server.tcb.process isn pkt.skb <;> rfl
  | toClient =>
      cases hmngr : server.tcb.mngr with
      | nil => simp only [step, Duplex.step, duplex, duplexEvent, hmngr]; rfl
      | cons pkt rest =>
          simp only [step, Duplex.step, duplex, duplexEvent, hmngr]
          cases client.process isn pkt.skb <;> rfl
  | client e =>
      simp only [step, Duplex.step, duplex, duplexEvent]
      cases Tcb.step isn client e <;> rfl
  | server k =>
      simp only [step, Duplex.step, duplex, duplexEvent, Echo.step]
      cases Tcb.step isn server.tcb (server.blockEvent (.task k)) <;> rfl

theorem step_of_duplex {isn : BitVec 32} {s : RoundTrip} {e : Event} {d : Duplex}
    (h : Duplex.step isn s.duplex (s.duplexEvent e) = .ok d) :
    ∃ s', step isn s e = .ok s' ∧ s'.duplex = d := by
  rw [← step_duplex] at h
  cases hstep : step isn s e with
  | error f => rw [hstep] at h; cases h
  | ok s' => rw [hstep] at h; exact ⟨s', rfl, Except.ok.inj h⟩

/-! ## One event

Both invariants, side by side. -/

/-- **What may happen**: any delivery and any handler of the server, whose
write is assumed to fit; at the client what `LocalOk` admits; and no sequence
number in use plus the receive window reaches `2 ^ 32`. -/
def EventOk (s : RoundTrip) (e : Event) : Prop :=
  Bounded s.client ∧ Bounded s.server.tcb ∧
    match e with
    | .toServer => True
    | .toClient => True
    | .client e => LocalOk s.client e
    | .server k => ∀ cb n, s.server.tcb.ioCtx[k]? = some (.readDone cb n) →
        s.server.tcb.WriteFits (s.server.buf.take n)

/-- What holds in every state of the two. -/
structure Together (isnA isnB : BitVec 32) (s : RoundTrip) : Prop where
  phase : Duplex.Phase isnA isnB s.duplex
  serving : ∃ out, Echo.Serving isnB (s.server.behind out)

section Step

variable {isnA isnB : BitVec 32} {s s' : RoundTrip} {e : Event}

/-- **The calls of the application are admissible.**  What `EventOk` leaves to
be shown is that a read is issued only when none is outstanding, and after the
connection callback. -/
theorem duplexOk (hserving : ∃ out, Echo.Serving isnB (s.server.behind out)) (hok : EventOk s e) :
    Duplex.EventOk s.duplex (s.duplexEvent e) := by
  obtain ⟨hA, hB, hevent⟩ := hok
  refine ⟨hA, hB, ?_⟩
  cases e with
  | toServer => trivial
  | toClient => trivial
  | client e => exact hevent
  | server k =>
      obtain ⟨out, hserves⟩ := hserving
      intro task hk hne
      have hcalls : (s.server.tcb.ioCtx[k]?).elim [] (Echo.calls s.server.buf) =
          Echo.calls s.server.buf task := by
        rw [show s.server.tcb.ioCtx[k]? = some task from hk]
        rfl
      rw [hcalls]
      refine hserves.phase.of_behind.calls_ok hk (fun htask => ?_) hne fun cb n htask => ?_
      · subst htask
        exact Echo.not_connected_of_posted (t := s.server.tcb.behind out) hserves.life hk
      · subst htask
        exact hevent cb n hk

/-- The server serves, whatever has been taken out of its channel. -/
theorem serving_step (h : ∃ out, Echo.Serving isnB (s.server.behind out))
    (hstep : step isnB s e = .ok s') : ∃ out, Echo.Serving isnB (s'.server.behind out) := by
  obtain ⟨out, h⟩ := h
  have hserver {e : Echo.Event} {server : Echo} (hserver : s.server.step isnB e = .ok server) :
      Echo.Serving isnB (server.behind out) := by
    refine h.step (e := e) ?_
    rw [Echo.step_behind, hserver]
    rfl
  cases e with
  | toServer =>
      cases hmngr : s.client.mngr with
      | nil =>
          simp only [step, hmngr] at hstep
          obtain rfl := Except.ok.inj hstep
          exact ⟨out, h⟩
      | cons pkt rest =>
          simp only [step, hmngr] at hstep
          obtain ⟨server, hrun, hs'⟩ := bind_eq_ok.mp hstep
          obtain rfl := Except.ok.inj hs'
          exact ⟨out, hserver hrun⟩
  | toClient =>
      cases hmngr : s.server.tcb.mngr with
      | nil =>
          simp only [step, hmngr] at hstep
          obtain rfl := Except.ok.inj hstep
          exact ⟨out, h⟩
      | cons pkt rest =>
          simp only [step, hmngr] at hstep
          obtain ⟨client, -, hs'⟩ := bind_eq_ok.mp hstep
          obtain rfl := Except.ok.inj hs'
          -- The packet is one more that has been handed out before.
          refine ⟨out ++ [pkt], ?_⟩
          have hsame : Echo.behind (out ++ [pkt])
              { s.server with tcb := { s.server.tcb with mngr := rest } } =
              s.server.behind out := by
            simp only [Echo.behind, behind, hmngr, List.append_assoc, List.singleton_append]
          rw [hsame]
          exact h
  | client e =>
      obtain ⟨client, -, hs'⟩ := bind_eq_ok.mp hstep
      obtain rfl := Except.ok.inj hs'
      exact ⟨out, h⟩
  | server k =>
      obtain ⟨server, hrun, hs'⟩ := bind_eq_ok.mp hstep
      obtain rfl := Except.ok.inj hs'
      exact ⟨out, hserver hrun⟩

/-- **One event keeps the two together, and does not abort.**  The two blocks
do not, by `Phase.step`; and the application follows. -/
theorem Together.step (h : Together isnA isnB s) (hok : EventOk s e) :
    ∃ s', RoundTrip.step isnB s e = .ok s' ∧ Together isnA isnB s' := by
  obtain ⟨d, hd, hphase⟩ := h.phase.step (duplexOk h.serving hok)
  obtain ⟨s', hstep, rfl⟩ := step_of_duplex hd
  exact ⟨s', hstep, hphase, serving_step h.serving hstep⟩

/-- **At the start**: the client has sent its SYN, and the server's block is in
LISTEN. -/
theorem together_of_connecting {d : Duplex} (h : Duplex.Connecting isnA d) (isnB : BitVec 32)
    (buf : List Byte) : Together isnA isnB ⟨d.client, d.server, buf⟩ := by
  refine ⟨h.phase isnB, [], ?_⟩
  obtain ⟨remoteEp, localEp, remoteEp', localEp', junkSend, junkSend', junkRcv, junkRcv', h⟩ := h
  exact Echo.serving_opened (.passive remoteEp' localEp' junkSend' junkRcv') buf

end Step

/-! ## There and back

The two facts put together. -/

/-- What is on its way from `s` to the reader of `r`: it is buffered, in the
channel, or has not been sent. -/
def onWay (s r : Tcb) : List Byte := r.rcv.pq.data ++ payload s.mngr ++ s.unsent

theorem onWay_eq {s r : Tcb} (h : Intact s r) : r.handed ++ onWay s r = s.written := by
  rw [← h, onWay]
  simp only [List.append_assoc]

/-- What the application has read and not written yet is about to be written. -/
theorem handed_of_phase {s : Echo} (h : Echo.Phase s) :
    ∃ inHand, s.tcb.handed = s.tcb.written ++ inHand ∧
      (inHand ≠ [] → .readDone Echo.onRead inHand.length ∈ s.tcb.ioCtx) := by
  cases h with
  | before _ hcopied _ _ _ hwritten =>
      refine ⟨[], ?_, fun hne => (hne rfl).elim⟩
      have hnothing : s.tcb.trace.copied = [] := hcopied
      rw [hwritten, handed, hnothing]
      rfl
  | reads _ _ _ _ _ hall => exact ⟨[], by rw [hall, List.append_nil], fun hne => (hne rfl).elim⟩
  | answers part _ _ hdones _ _ _ _ hall =>
      refine ⟨part, hall, fun _ => mem_readDones.mp ?_⟩
      show _ ∈ s.tcb.inbox.completions
      rw [hdones]
      exact List.mem_singleton.mpr rfl
  | writes _ _ _ _ _ hall => exact ⟨[], by rw [hall, List.append_nil], fun hne => (hne rfl).elim⟩

/-- **What is sent to the echo server comes back.**  In every state that a
client and the application reach by events that `EventOk` admits (the client's
calls are admissible, every write of the server fits its send queue, and no
number wraps), what the client has got back, what is on its way back, what the
application has in hand and what is on its way there are together what the
client has written, in order; what is in hand is about to be written back.  No
such run aborts. -/
theorem echo_round_trip {isnA isnB : BitVec 32} {d : Duplex} {es : List Event}
    (hstart : Duplex.Connecting isnA d)
    (hok : Admitted (step isnB) EventOk ⟨d.client, d.server, Echo.array⟩ es) :
    ∃ s, run isnB ⟨d.client, d.server, Echo.array⟩ es = .ok s ∧ ∃ inHand,
      s.client.handed ++ onWay s.server.tcb s.client ++ inHand ++ onWay s.client s.server.tcb =
        s.client.written ∧
      (inHand ≠ [] → .readDone Echo.onRead inHand.length ∈ s.server.tcb.ioCtx) := by
  obtain ⟨s, hrun, htogether⟩ := EventSystem.run_total (P := Together isnA isnB)
    (fun _ _ h hok => h.step hok) (together_of_connecting hstart isnB Echo.array) hok
  obtain ⟨out, hserving⟩ := htogether.serving
  obtain ⟨hthere, hback⟩ := htogether.phase.intact
  obtain ⟨inHand, hhanded, hposted⟩ := handed_of_phase hserving.phase.of_behind
  refine ⟨s, hrun, inHand, ?_, hposted⟩
  calc s.client.handed ++ onWay s.server.tcb s.client ++ inHand ++ onWay s.client s.server.tcb
      = s.server.tcb.written ++ inHand ++ onWay s.client s.server.tcb :=
        congrArg (· ++ inHand ++ onWay s.client s.server.tcb) (onWay_eq hback)
    _ = s.server.tcb.handed ++ onWay s.client s.server.tcb := by rw [← hhanded]
    _ = s.client.written := onWay_eq hthere

/-- The client writes two bytes in its connection callback; the server reads
them and writes them back. -/
def twoBytes : List Event :=
  [.toServer, .toClient, .client (.task 0 [.write [0x61, 0x62] 1]), .client (.task 0 []),
    .toServer, .server 0, .toServer, .server 0, .toClient]

theorem twoBytes_admitted : Admitted (step 9) EventOk
    ⟨Duplex.openingMss.client, Duplex.openingMss.server, Echo.array⟩ twoBytes := by
  refine .cons ⟨fun _ => by decide, fun h => (h rfl).elim, trivial⟩ rfl ?_
  refine .cons ⟨fun _ => by decide, fun _ => by decide, trivial⟩ rfl ?_
  refine .cons ⟨fun _ => by decide, fun _ => by decide, fun task hk _ => ?_⟩ rfl ?_
  · cases hk
    exact .single ⟨List.mem_singleton.mpr rfl, _, rfl, by decide⟩
  refine .cons ⟨fun _ => by decide, fun _ => by decide, fun task hk hne => ?_⟩ rfl ?_
  · cases hk
    exact (hne rfl).elim
  refine .cons ⟨fun _ => by decide, fun _ => by decide, trivial⟩ rfl ?_
  refine .cons ⟨fun _ => by decide, fun _ => by decide, fun cb n hk => by cases hk⟩ rfl ?_
  refine .cons ⟨fun _ => by decide, fun _ => by decide, trivial⟩ rfl ?_
  refine .cons ⟨fun _ => by decide, fun _ => by decide, fun cb n hk => ?_⟩ rfl ?_
  · cases hk
    exact ⟨_, rfl, by decide⟩
  exact .single ⟨fun _ => by decide, fun _ => by decide, trivial⟩

theorem two_bytes_return :
    ∃ s, run 9 ⟨Duplex.openingMss.client, Duplex.openingMss.server, Echo.array⟩ twoBytes = .ok s ∧
      (∃ inHand, s.client.handed ++ onWay s.server.tcb s.client ++ inHand ++
        onWay s.client s.server.tcb = s.client.written) ∧
      s.client.written = [0x61, 0x62] ∧ s.client.rcv.pq.data = [0x61, 0x62] := by
  obtain ⟨s, hrun, inHand, hall, -⟩ :=
    echo_round_trip Duplex.connecting_openingMss twoBytes_admitted
  obtain ⟨s', hrun', hwritten, hdata⟩ : ∃ s', run 9
      ⟨Duplex.openingMss.client, Duplex.openingMss.server, Echo.array⟩ twoBytes = .ok s' ∧
      s'.client.written = [0x61, 0x62] ∧ s'.client.rcv.pq.data = [0x61, 0x62] := ⟨_, rfl, rfl, rfl⟩
  obtain rfl := Except.ok.inj (hrun.symm.trans hrun')
  exact ⟨s, hrun, ⟨inHand, hall⟩, hwritten, hdata⟩

end RoundTrip

end Mstack
