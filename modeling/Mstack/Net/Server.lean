import Mstack.Net.Connections
import Mstack.Tcp.Echo

/-!
# The echo server

`main.cpp` as a whole: one acceptor, whose callback is `do_accept`'s lambda,
and on every connection it accepts the loop of `async_read_and_echo`.  The
application is part of the model, so all that can happen is that a packet
arrives or that the next handler runs.

The acceptor and the loop depend on each other through what the host tells the
application.  A callback is called only for a connection that has been
announced; the acceptor hands over what has been announced, provided that a
callback waits (`Accepts.waiting`); and the lambda of `do_accept` calls
`do_accept` again.  So every block is an `Echo`, with the array that belongs to
it, and what holds of one `Echo` holds of every connection of the program.

* `Accepts` — what the host is to the program: one rule, one callback that
  waits, and sockets for the connections that were handed over.
* `Served` — one connection of the program: the loop on its block.
* `Serves` — what holds in every state: every block serves, with its array.
* `composed` — **the program is composed of its connections**, in the sense of
  `Lib.Component`.
* `server_echoes` — what this says of every run.

### Runs that abort

The program has one process for all of its connections, and an assertion that
fails in one block ends them all.  So the result has two halves.  Where the run
goes through, every connection echoes.  Where it does not, the run of one
connection, alone, aborts with the same fault (`Serves.blames`), and
`step_error` says that there is no other way to stop: the acceptor never runs
out of callbacks, and nobody connects actively.  A peer that announces a small
window and sends more than fits is enough (`greedy`): the loop writes back what
it has read, and the write does not fit the queue.

### What is load-bearing

A read that waits while bytes are buffered is an assertion of the block
(`readerWhileBuffered`).  The loop never causes it: it reads again only after
the write of what it has read has completed, so that at most one read is
outstanding (`Tcp.Echo`).
-/

namespace Mstack

open EventSystem Rendezvous

namespace TcbManager

variable {γ : Type} {m m' : TcbManager γ} {key : TwoEnds}

/-! ## What the table says of a block

A block whose connection callback has been called was announced, and the other
way around. -/

/-- A packet changes no rule. -/
theorem process_rules {fresh : BlockInit} {pktIn : TcpPacket}
    (hprocess : m.process fresh pktIn = .ok m') : m'.rules = m.rules := by
  unfold process at hprocess
  dsimp only at hprocess
  split at hprocess
  · obtain ⟨t, -, hm'⟩ := bind_eq_ok.mp hprocess
    obtain rfl := Except.ok.inj hm'
    rfl
  · split at hprocess
    · obtain ⟨t, -, hm'⟩ := bind_eq_ok.mp hprocess
      obtain rfl := Except.ok.inj hm'
      rfl
    · obtain rfl := Except.ok.inj hprocess
      rfl

/-- A block that a packet makes is made under a rule that matches its key. -/
theorem process_makes {fresh : BlockInit} {pktIn : TcpPacket} {c : Conn γ}
    (hprocess : m.process fresh pktIn = .ok m') (hno : m.tcbs key = none)
    (hc : m'.tcbs key = some c) :
    ∃ rule ∈ m.rules, rule.matcher key.remoteEp key.localEp = true ∧
      c.onConnectionEstablished = rule.cb := by
  unfold process at hprocess
  dsimp only at hprocess
  split at hprocess
  · rename_i b hb
    obtain ⟨t, -, hm'⟩ := bind_eq_ok.mp hprocess
    obtain rfl := Except.ok.inj hm'
    exact (present_of_update hb rfl (by rw [hc]; exact Option.some_ne_none c) hno).elim
  · split at hprocess
    · rename_i rule hrule
      obtain ⟨t, -, hm'⟩ := bind_eq_ok.mp hprocess
      obtain rfl := Except.ok.inj hm'
      have htcbs : ((m.emplace pktIn.twoEnd (listener fresh pktIn.twoEnd rule.cb)).store
          pktIn.twoEnd (listener fresh pktIn.twoEnd rule.cb) t).tcbs =
          Function.update m.tcbs pktIn.twoEnd
            (some { listener fresh pktIn.twoEnd rule.cb with tcb := t }) :=
        Function.update_idem _ _ _
      rw [htcbs] at hc
      by_cases hkey : key = pktIn.twoEnd
      · subst hkey
        rw [Function.update_self] at hc
        obtain rfl := Option.some.inj hc
        have hmatch := List.find?_some hrule
        exact ⟨rule, List.mem_of_find?_eq_some hrule, by simpa using hmatch, rfl⟩
      · rw [Function.update_of_ne hkey, hno] at hc
        cases hc
    · obtain rfl := Except.ok.inj hprocess
      rw [hno] at hc
      cases hc

theorem appCall_rules {call : AppCall} (hcall : m.appCall key call = .ok m') :
    m'.rules = m.rules := by
  unfold appCall at hcall
  split at hcall
  · obtain ⟨t, -, hm'⟩ := bind_eq_ok.mp hcall
    obtain rfl := Except.ok.inj hm'
    rfl
  · obtain rfl := Except.ok.inj hcall
    rfl

theorem finishTask_rules {h : PostedTask} (hfinish : m.finishTask h = .ok m') :
    m'.rules = m.rules := by
  unfold finishTask at hfinish
  split at hfinish
  · obtain ⟨t, -, hm'⟩ := bind_eq_ok.mp hfinish
    obtain rfl := Except.ok.inj hm'
    rfl
  · obtain rfl := Except.ok.inj hfinish
    rfl

/-- The connection handlers of a block in the queue. -/
theorem count_pending (key : TwoEnds) (queue : List PostedTask) :
    (pending queue).count key = (handlers key queue).count .connectionEstablished := by
  induction queue with
  | nil => rfl
  | cons h queue ih =>
      by_cases htask : h.task = .connectionEstablished <;> by_cases hkey : h.key = key <;>
        simp_all [pending, handlers]

/-- **A connection has been announced where the callback of its block has been
called.** -/
theorem Kept.connected_iff {c : Conn γ} (h : m.Kept) (hc : m.tcbs key = some c) :
    c.tcb.Connected ↔ key ∈ m.announced := by
  have hposted := (h.life key c hc).posted_eq
  have hentered := h.entered key c hc
  have hqueue := count_pending key m.ioCtx
  rw [h.handlers key c hc] at hqueue
  rw [h.inOrder, List.count_append, hqueue] at hentered
  rw [Tcb.posted] at hposted
  rw [Tcb.Connected, ← List.count_pos_iff, ← List.count_pos_iff]
  omega

end TcbManager

/-! ## The program

The application holds no state but the arrays: what it does next is decided by
the handler that runs. -/

/-- The program: the host with its acceptor, and the array of each connection. -/
structure Server where
  host : Accepting
  bufs : TwoEnds → List Byte

namespace Server

/-- The acceptor that `main` makes. -/
def acceptor : AcceptorId := 0

/-- The callback that `do_accept` passes to `async_accept`. -/
def onAccept : CallbackId := 2

/-- The matcher that the constructor of `acceptor` makes of an endpoint. -/
def matcher (localEpExp _remoteEp localEp : Endpoint) : Bool := localEpExp = localEp

/-- What `main` has called when it runs the `io_context`. -/
def setUp (localEp : Endpoint) : List Accepting.Call :=
  [.acceptor acceptor (matcher localEp), .asyncAccept acceptor onAccept]

/-- The state that these calls lead to. -/
def start (localEp : Endpoint) : Server where
  host := { Accepting.create with
    mngr := TcbManager.create.ruleInsertBack ⟨matcher localEp, .acceptor acceptor⟩
    acceptors := Function.update Accepting.create.acceptors acceptor
      ((Accepting.create.acceptors acceptor).asyncAccept onAccept) }
  bufs := fun _ => Echo.array

/-- What can happen: a packet arrives, or the handler at the front of the queue
runs. -/
inductive Event where
  | packet (fresh : BlockInit) (pktIn : TcpPacket)
  | task

/-- What the callbacks do in a handler: what `async_read_and_echo` and its
callbacks call, and behind a connection `do_accept`. -/
def calls (s : Server) (h : PostedTask) : List Accepting.Call :=
  (Echo.calls (s.bufs h.key) h.task).map (.socket h.key) ++
    if h.task = .connectionEstablished then [.asyncAccept acceptor onAccept] else []

/-- What an event is for the host. -/
def hostEvent (s : Server) : Event → Accepting.Event
  | .packet fresh pktIn => .packet fresh pktIn
  | .task => .task (s.host.mngr.ioCtx.head?.elim [] s.calls)

/-- What the block of a connection has copied to its readers. -/
def copied (host : Accepting) (key : TwoEnds) : List (CallbackId × List Byte) :=
  (host.mngr.tcbs key).elim [] fun c => c.tcb.trace.copied

/-- One event. -/
def step (s : Server) (e : Event) : Except ManagerFault Server := do
  let host ← s.host.step (s.hostEvent e)
  return {
    host
    bufs := fun key =>
      Echo.fill (s.bufs key) ((copied host key).drop (copied s.host key).length) }

/-- A run of events. -/
def run (s : Server) (es : List Event) : Except ManagerFault Server := EventSystem.run step s es

/-! ### One connection of it -/

/-- A connection of the program: the loop on its block, with the sequence
number that the block picks when it opens. -/
structure Served where
  isn : BitVec 32
  echo : Echo

namespace Served

/-- One event. -/
def step (c : Served) (e : Echo.Event) : Except Fault Served := do
  return { c with echo := ← c.echo.step c.isn e }

/-- A connection as a packet makes it: the block has heard nothing, the array
is new. -/
structure Born (key : TwoEnds) (c : Served) : Prop where
  opened : Tcb.Opened c.isn c.echo.tcb
  addressed : c.echo.tcb.Addressed key
  buf : c.echo.buf = Echo.array

/-- A step of the connection is a step of its loop. -/
theorem step_map (isn : BitVec 32) (echo : Echo) (e : Echo.Event) :
    step ⟨isn, echo⟩ e = (Echo.step isn echo e).map (Served.mk isn) := by
  rw [step]
  cases Echo.step isn echo e <;> rfl

variable {isn : BitVec 32} {echo : Echo} {es : List Echo.Event}

/-- A run of the connection is a run of its loop. -/
theorem run_ok {c : Served} : EventSystem.run step ⟨isn, echo⟩ es = .ok c ↔
    ∃ echo', Echo.run isn echo es = .ok echo' ∧ c = ⟨isn, echo'⟩ :=
  run_map_ok (step_map isn)

/-- It aborts where its loop does. -/
theorem run_error {f : Fault} :
    EventSystem.run step ⟨isn, echo⟩ es = .error f ↔ Echo.run isn echo es = .error f :=
  run_map_error (step_map isn)

end Served

/-- The connection with this key, if there is one. -/
def view (key : TwoEnds) (s : Server) : Option Served :=
  (s.host.mngr.tcbs key).map fun c => ⟨c.isn, ⟨c.tcb, s.bufs key⟩⟩

/-- What an event of the block is for the loop: its own calls need no mention. -/
def toEcho : Mstack.Event → Option Echo.Event
  | .process seg => some (.process seg)
  | .call _ => none
  | .task k _ => some (.task k)

/-- What an event of the program is to the connection with this key. -/
def seen (key : TwoEnds) (s : Server) (e : Event) : List Echo.Event :=
  (s.host.seen key (s.hostEvent e)).filterMap toEcho

/-! ## The acceptor

There is one, and it never turns a connection away. -/

/-- **What the host is to the program.**  There is one rule; one callback
waits; and the application holds the connections that have been handed over. -/
structure Accepts (localEp : Endpoint) (s : Accepting) : Prop where
  sound : s.Sound
  rules : s.mngr.rules = [⟨matcher localEp, .acceptor acceptor⟩]
  made : ∀ key c, s.mngr.tcbs key = some c →
    c.onConnectionEstablished = .acceptor acceptor ∧ key.localEp = localEp
  waiting : (s.acceptors acceptor).waiting = [onAccept]
  lossless : (s.acceptors acceptor).Lossless
  sockets : s.sockets = (s.acceptors acceptor).items

section Accepts

variable {localEp : Endpoint} {s : Server} {host : Accepting}

/-- What `main` calls before it runs the `io_context`. -/
theorem run_setUp (localEp : Endpoint) :
    EventSystem.run Accepting.call .create (setUp localEp) = .ok (start localEp).host := rfl

/-- At the start the acceptor waits for its first connection. -/
theorem accepts_start (localEp : Endpoint) : Accepts localEp (start localEp).host := by
  have hsound := (Accepting.calls_sound (a := 0) (Q := fun _ => True) (fun _ _ => id)
    Accepting.sound_create trivial (run_setUp localEp)).1
  refine ⟨hsound, rfl, fun key c hc => ?_, rfl, Desk.lossless_empty.wait onAccept, rfl⟩
  cases hc

/-- Every connection that has been announced has been handed over. -/
theorem Accepts.items (h : Accepts localEp host) :
    (host.acceptors acceptor).items = host.mngr.announced := by
  rw [h.sound.items acceptor]
  refine List.filter_eq_self.mpr fun key hmem => ?_
  obtain ⟨c, hc⟩ := Option.ne_none_iff_exists'.mp
    (Accepting.announced_present h.sound.kept key hmem)
  rw [Accepting.under, hc]
  exact decide_eq_true (h.made key c hc).1

/-- **The application holds the connections whose callback has been called.** -/
theorem Accepts.held_iff (h : Accepts localEp host) {key : TwoEnds} {c : Conn ConnCallback}
    (hc : host.mngr.tcbs key = some c) : c.tcb.Connected ↔ key ∈ host.sockets := by
  rw [h.sockets, h.items, h.sound.kept.connected_iff hc]

/-- The handler at the front of the queue calls the callback of the acceptor,
or one of the loop. -/
theorem Accepts.invoke (h : Accepts localEp host) {t : PostedTask} {rest : List PostedTask}
    {c : Conn ConnCallback} (hc : host.mngr.tcbs t.key = some c) :
    let entered : Accepting := { host with mngr := host.mngr.enterTask t rest c }
    entered.invoke t c.onConnectionEstablished =
      match t.task with
      | .connectionEstablished => (true, { entered with
          acceptors := Function.update host.acceptors acceptor
            ((host.acceptors acceptor).onEstablished t.key)
          sockets := host.sockets ++ [t.key] })
      | .sendLoop => (false, entered)
      | _ => (true, entered) := by
  intro entered
  rw [(h.made t.key c hc).1, Accepting.invoke]
  cases t.task with
  | connectionEstablished =>
      have hwaits : (entered.acceptors acceptor).waiting ≠ [] := by
        rw [show entered.acceptors = host.acceptors from rfl, h.waiting]
        exact List.cons_ne_nil _ _
      exact if_neg hwaits
  | _ => rfl

/-- Reads and writes concern the blocks only. -/
theorem socket_calls {key : TwoEnds} {calls : List AppCall} {u v : Accepting}
    (hrun : EventSystem.run Accepting.call u (calls.map (.socket key)) = .ok v) :
    v.mngr.rules = u.mngr.rules ∧ v.acceptors = u.acceptors ∧ v.sockets = u.sockets := by
  induction calls generalizing u with
  | nil =>
      obtain rfl := Except.ok.inj hrun
      exact ⟨rfl, rfl, rfl⟩
  | cons call calls ih =>
      obtain ⟨w, hw, hrest⟩ := bind_eq_ok.mp hrun
      obtain ⟨hrules, hacceptors, hsockets⟩ := ih hrest
      have hcall : w.mngr.rules = u.mngr.rules ∧ w.acceptors = u.acceptors := by
        simp only [Accepting.call] at hw
        split at hw
        · obtain ⟨m', hm', rfl⟩ := Accepting.onMngr_ok hw
          exact ⟨TcbManager.appCall_rules hm', rfl⟩
        · obtain rfl := Except.ok.inj hw
          exact ⟨rfl, rfl⟩
      exact ⟨hrules.trans hcall.1, hacceptors.trans hcall.2,
        hsockets.trans (Accepting.call_sockets hw)⟩

/-- **`do_accept` leaves a callback waiting.**  What the calls inside a
callback make of the acceptor and the sockets. -/
theorem Accepts.inside (h : Accepts localEp s.host) {t : PostedTask} {rest : List PostedTask}
    {c : Conn ConnCallback} (hc : s.host.mngr.tcbs t.key = some c) {u : Accepting}
    (hinside : Accepting.inside (s.calls t) (({ s.host with
      mngr := s.host.mngr.enterTask t rest c } : Accepting).invoke t
        c.onConnectionEstablished) = .ok u) :
    u.mngr.rules = s.host.mngr.rules ∧ (u.acceptors acceptor).waiting = [onAccept] ∧
      (u.acceptors acceptor).Lossless ∧ u.sockets = (u.acceptors acceptor).items := by
  rw [h.invoke hc] at hinside
  by_cases htask : t.task = .connectionEstablished
  · rw [htask] at hinside
    -- The connection callback calls `async_accept` again, last of all.
    have hcalls : s.calls t = (Echo.calls (s.bufs t.key) t.task).map (.socket t.key) ++
        [.asyncAccept acceptor onAccept] := by rw [calls, if_pos htask]
    rw [hcalls, Accepting.inside, run_append] at hinside
    obtain ⟨v, hv, hlast⟩ := bind_eq_ok.mp hinside
    obtain ⟨hmngr, hupdate, hheld⟩ : u.mngr = v.mngr ∧
        u.acceptors = Function.update v.acceptors acceptor
          ((v.acceptors acceptor).asyncAccept onAccept) ∧ u.sockets = v.sockets := by
      obtain rfl := Except.ok.inj hlast
      exact ⟨rfl, rfl, rfl⟩
    obtain ⟨hrules, hacceptors, hsockets⟩ := socket_calls hv
    have hdesk : u.acceptors acceptor =
        (Desk.item (s.host.acceptors acceptor) t.key).wait onAccept := by
      rw [hupdate, Function.update_self, hacceptors]
      show Desk.wait (Function.update s.host.acceptors acceptor _ acceptor) onAccept = _
      rw [Function.update_self]
      rfl
    -- The callback that waited has been given the socket, so none waits.
    have hitem : (Desk.item (s.host.acceptors acceptor) t.key).waiting = [] := by
      rw [Desk.item, h.waiting]
    rw [hdesk]
    refine ⟨?_, ?_, ?_, ?_⟩
    · rw [hmngr]
      exact hrules
    · rw [Desk.wait, hitem]
      rfl
    · refine (h.lossless.item ?_ t.key).wait onAccept
      rw [h.waiting]
      exact List.cons_ne_nil _ _
    · rw [Desk.items_wait, Desk.items_item, hheld, ← h.sockets]
      exact hsockets
  · -- The other callbacks use the socket only.
    have hcalls : s.calls t = (Echo.calls (s.bufs t.key) t.task).map (.socket t.key) := by
      rw [calls, if_neg htask, List.append_nil]
    rw [hcalls] at hinside
    have hsame : u.mngr.rules = s.host.mngr.rules ∧ u.acceptors = s.host.acceptors ∧
        u.sockets = s.host.sockets := by
      cases hkind : t.task with
      | connectionEstablished => exact (htask hkind).elim
      | sendLoop =>
          rw [hkind] at hinside
          obtain rfl := Except.ok.inj hinside
          exact ⟨rfl, rfl, rfl⟩
      | readDone cb n =>
          rw [hkind] at hinside
          exact socket_calls (u := { s.host with mngr := s.host.mngr.enterTask t rest c }) hinside
      | writeDone cb n =>
          rw [hkind] at hinside
          exact socket_calls (u := { s.host with mngr := s.host.mngr.enterTask t rest c }) hinside
    obtain ⟨hrules, hacceptors, hsockets⟩ := hsame
    rw [hacceptors, hsockets]
    exact ⟨hrules, h.waiting, h.lossless, h.sockets⟩

/-- **One event of the host.**  A connection is announced to the acceptor,
whose callback runs at once and waits again; so no connection finds the
acceptor without a callback. -/
theorem Accepts.step {e : Event} (h : Accepts localEp s.host)
    (hstep : s.host.step (s.hostEvent e) = .ok host) : Accepts localEp host := by
  have hsound := Accepting.composed.keeps _ _ _ h.sound hstep
  -- A block keeps the callback it was made with.
  have hold (key : TwoEnds) (b c : Conn ConnCallback) (hb : s.host.mngr.tcbs key = some b)
      (hc : host.mngr.tcbs key = some c) : c.onConnectionEstablished = .acceptor acceptor ∧
        key.localEp = localEp := by
    have hevolves := Accepting.composed.evolves _ _ _ key h.sound hstep
    rw [hb, hc] at hevolves
    generalize Accepting.seen key s.host (s.hostEvent e) = ds at hevolves
    cases hevolves with
    | lives hrun =>
        obtain ⟨t, -, rfl⟩ := Conn.run_ok.mp hrun
        exact h.made key b hb
  cases e with
  | packet fresh pktIn =>
      obtain ⟨m', hm', rfl⟩ := Accepting.onMngr_ok hstep
      refine ⟨hsound, (TcbManager.process_rules hm').trans h.rules, fun key c hc => ?_, h.waiting,
        h.lossless, h.sockets⟩
      cases hb : s.host.mngr.tcbs key with
      | some b => exact hold key b c hb hc
      | none =>
          obtain ⟨rule, hrule, hmatch, hcb⟩ := TcbManager.process_makes hm' hb hc
          rw [h.rules] at hrule
          obtain rfl := List.mem_singleton.mp hrule
          exact ⟨hcb, (of_decide_eq_true hmatch).symm⟩
  | task =>
      have hmade (key : TwoEnds) (c : Conn ConnCallback) (hc : host.mngr.tcbs key = some c) :
          c.onConnectionEstablished = .acceptor acceptor ∧ key.localEp = localEp := by
        cases hb : s.host.mngr.tcbs key with
        | some b => exact hold key b c hb hc
        | none =>
            -- The calls of the program open no connection.
            obtain ⟨call, hcall, hconnects⟩ := Accepting.step_creates hstep hb
              (by rw [hc]; exact Option.some_ne_none c) trivial
            cases hqueue : s.host.mngr.ioCtx with
            | nil => rw [hqueue] at hcall; cases hcall
            | cons t rest =>
                rw [hqueue] at hcall
                have hmem : call ∈ s.calls t := hcall
                rw [calls, List.mem_append, List.mem_map] at hmem
                rcases hmem with ⟨_, _, rfl⟩ | hmem
                · exact hconnects.elim
                · split at hmem
                  · obtain rfl := List.mem_singleton.mp hmem
                    exact hconnects.elim
                  · cases hmem
      simp only [hostEvent, Accepting.step] at hstep
      split at hstep
      · obtain rfl := Except.ok.inj hstep
        exact h
      · rename_i t rest hqueue
        split at hstep
        · obtain rfl := Except.ok.inj hstep
          exact h
        · rename_i c hc
          obtain ⟨u, hu, hfinish⟩ := bind_eq_ok.mp hstep
          obtain ⟨m', hm', rfl⟩ := Accepting.onMngr_ok hfinish
          rw [hqueue] at hu
          obtain ⟨hrules, hwaiting, hlossless, hsockets⟩ := h.inside hc hu
          exact ⟨hsound, ((TcbManager.finishTask_rules hm').trans hrules).trans h.rules, hmade,
            hwaiting, hlossless, hsockets⟩

end Accepts

/-! ## The connections

Each is the `Echo` of its block and its array. -/

/-- **What holds in every state of the program**: every block serves, with its
array, and the array of a connection that has not been made is new.  Arrays are
kept by connection; the source captures them in the callbacks. -/
structure Serves (localEp : Endpoint) (s : Server) : Prop where
  accepts : Accepts localEp s.host
  blocks : ∀ key c, s.host.mngr.tcbs key = some c → Echo.Serving c.isn ⟨c.tcb, s.bufs key⟩
  fresh : ∀ key, s.host.mngr.tcbs key = none → s.bufs key = Echo.array

section Serves

variable {localEp : Endpoint} {s s' : Server} {e : Event} {key : TwoEnds}

/-- What the callbacks call is for the block of the handler. -/
theorem callsOn_calls (s : Server) (key : TwoEnds) {t : PostedTask} {u : Accepting}
    (hheld : t.key ∈ u.sockets) : u.callsOn key (s.calls t) =
      if t.key = key then Echo.calls (s.bufs t.key) t.task else [] := by
  have htail : (if t.task = .connectionEstablished then
      [Accepting.Call.asyncAccept acceptor onAccept] else []).filterMap
        (Accepting.Call.on key) = [] := by
    split <;> rfl
  by_cases hkey : t.key = key
  · subst hkey
    have hon : Accepting.Call.on t.key ∘ Accepting.Call.socket t.key = some := by
      funext c
      exact if_pos rfl
    rw [if_pos rfl, Accepting.callsOn, if_pos hheld, calls, List.filterMap_append, htail,
      List.append_nil, List.filterMap_map, hon, List.filterMap_some]
  · have hon : Accepting.Call.on key ∘ Accepting.Call.socket t.key = fun _ => none := by
      funext c
      exact if_neg hkey
    rw [if_neg hkey, Accepting.callsOn, calls, List.filterMap_append, htail, List.append_nil,
      List.filterMap_map, hon, List.filterMap_none]
    exact ite_self _

/-- **A handler is what it is for `Echo`.**  The calls that the callbacks of
the program make inside a handler are all on the block of the handler, and they
are those of the loop. -/
theorem Serves.insideOn (h : Serves localEp s) {t : PostedTask} {rest : List PostedTask}
    {c : Conn ConnCallback} (hqueue : s.host.mngr.ioCtx = t :: rest)
    (hc : s.host.mngr.tcbs t.key = some c) (key : TwoEnds) :
    Accepting.insideOn key (s.calls t) (({ s.host with
      mngr := s.host.mngr.enterTask t rest c } : Accepting).invoke t c.onConnectionEstablished) =
      if t.key = key then Echo.calls (s.bufs t.key) t.task else [] := by
  rw [h.accepts.invoke hc]
  have hfront := Accepting.front_task h.accepts.sound hqueue hc
  -- A read or a write completes on a connection that the application holds.
  have hheld (htask : t.task ≠ .connectionEstablished) (hsend : t.task ≠ .sendLoop) :
      t.key ∈ s.host.sockets := by
    have hcalled := (h.blocks t.key c hc).phase.connected_of_posted hfront hsend
    exact (h.accepts.held_iff hc).mp ((Echo.enterTask_connected htask).mp hcalled)
  cases hkind : t.task with
  | connectionEstablished =>
      have hown := callsOn_calls s key (t := t) (u := { s.host with
        sockets := s.host.sockets ++ [t.key] })
        (List.mem_append_right _ (List.mem_singleton.mpr rfl))
      rw [hkind] at hown
      exact hown
  | sendLoop =>
      show [] = _
      exact (ite_self _).symm
  | readDone cb n =>
      have hown := callsOn_calls s key (hheld (by rw [hkind]; simp) (by rw [hkind]; simp))
      rw [hkind] at hown
      exact hown
  | writeDone cb n =>
      have hown := callsOn_calls s key (hheld (by rw [hkind]; simp) (by rw [hkind]; simp))
      rw [hkind] at hown
      exact hown

/-- **What an event of the program is to a block**: nothing, a segment, or the
handler at the front of its queue with the calls of the loop. -/
theorem Serves.seen_cases (h : Serves localEp s) (key : TwoEnds) (e : Event) :
    s.host.seen key (s.hostEvent e) = [] ∨
      (∃ seg, s.host.seen key (s.hostEvent e) = [.process seg]) ∨
      ∃ c, s.host.mngr.tcbs key = some c ∧ s.host.seen key (s.hostEvent e) =
        [(⟨c.tcb, s.bufs key⟩ : Echo).blockEvent (.task 0)] := by
  cases e with
  | packet fresh pktIn =>
      simp only [hostEvent, Accepting.seen, TcbManager.seen]
      split
      · exact .inr (.inl ⟨_, rfl⟩)
      · exact .inl rfl
  | task =>
      cases hqueue : s.host.mngr.ioCtx with
      | nil =>
          refine .inl ?_
          simp only [hostEvent, Accepting.seen, hqueue]
      | cons t rest =>
          cases hc : s.host.mngr.tcbs t.key with
          | none =>
              refine .inl ?_
              simp only [hostEvent, Accepting.seen, hqueue, hc]
          | some c =>
              have hinside := h.insideOn hqueue hc key
              have hseen : s.host.seen key (s.hostEvent .task) =
                  if t.key = key then [.task 0 (if t.key = key then
                    Echo.calls (s.bufs t.key) t.task else [])]
                  else (if t.key = key then
                    Echo.calls (s.bufs t.key) t.task else []).map .call := by
                rw [← hinside]
                simp only [hostEvent, Accepting.seen, hqueue, hc]
                rfl
              by_cases hkey : t.key = key
              · subst hkey
                refine .inr (.inr ⟨c, hc, ?_⟩)
                rw [hseen, if_pos rfl, if_pos rfl, Echo.blockEvent,
                  Accepting.front_task h.accepts.sound hqueue hc]
                rfl
              · refine .inl ?_
                rw [hseen, if_neg hkey, if_neg hkey]
                rfl

/-- An event of one block. -/
theorem of_run_single {c c' : Conn ConnCallback} {e : Mstack.Event}
    (hrun : EventSystem.run Conn.step c [e] = .ok c') :
    c'.isn = c.isn ∧ Tcb.step c.isn c.tcb e = .ok c'.tcb := by
  obtain ⟨t, ht, rfl⟩ := Conn.run_ok.mp hrun
  obtain ⟨u, hu, hnil⟩ := bind_eq_ok.mp ht
  obtain rfl := Except.ok.inj hnil
  exact ⟨rfl, hu⟩

/-- What is an event of the loop for the block is one for the connection. -/
theorem served_of_block {c c' : Conn ConnCallback} {b : List Byte} {e : Echo.Event}
    (hrun : EventSystem.run Conn.step c [(⟨c.tcb, b⟩ : Echo).blockEvent e] = .ok c') :
    EventSystem.run Served.step ⟨c.isn, ⟨c.tcb, b⟩⟩ [e] =
      .ok ⟨c'.isn, ⟨c'.tcb, Echo.filled c.tcb c'.tcb b⟩⟩ := by
  obtain ⟨hisn, ht⟩ := of_run_single hrun
  refine Served.run_ok.mpr ⟨_, ?_, by rw [hisn]⟩
  rw [Echo.run, run_cons, Echo.step, ht]
  rfl

/-- It aborts the connection where it aborts the block. -/
theorem served_of_block_error {c : Conn ConnCallback} {b : List Byte} {e : Echo.Event}
    {f : Fault}
    (hrun : EventSystem.run Conn.step c [(⟨c.tcb, b⟩ : Echo).blockEvent e] = .error f) :
    EventSystem.run Served.step ⟨c.isn, ⟨c.tcb, b⟩⟩ [e] = .error f := by
  refine Served.run_error.mpr (bind_eq_error.mpr (.inl (bind_eq_error.mpr (.inl ?_))))
  rcases bind_eq_error.mp (Conn.run_error.mp hrun) with herror | ⟨t, -, hnone⟩
  · exact herror
  · cases hnone

/-- A new block has copied nothing to a reader. -/
theorem opened_copied {isn : BitVec 32} {t : Tcb} (h : Tcb.Opened isn t) : t.trace.copied = [] := by
  cases h with
  | passive remoteEp localEp junkSend junkRcv => rfl
  | active remoteEp localEp junkSend junkRcv h =>
      rw [Tcb.startConnecting_eq] at h
      obtain rfl := Except.ok.inj h
      rfl

/-- A connection that a packet makes. -/
theorem born_served {c : Conn ConnCallback} (h : Conn.Born key c) :
    Served.Born key ⟨c.isn, ⟨c.tcb, Echo.array⟩⟩ := ⟨h.opened, h.addressed, rfl⟩

/-- **What becomes of a connection** in one event of the program is what its
own events make of it.  Events of other connections are nothing to it; its
array changes with its own block only. -/
theorem Serves.evolves (h : Serves localEp s) (hstep : s.step e = .ok s') (key : TwoEnds) :
    Evolves Served.step (Served.Born key) (view key s) (seen key s e) (view key s') := by
  obtain ⟨host, hhost, hs'⟩ := bind_eq_ok.mp hstep
  obtain rfl := Except.ok.inj hs'
  have hevolves := Accepting.composed.evolves _ _ _ key h.accepts.sound hhost
  have hcases := h.seen_cases key e
  simp only [view, seen, copied]
  generalize Accepting.seen key s.host (s.hostEvent e) = ds at hevolves hcases ⊢
  generalize hc' : host.mngr.tcbs key = o' at hevolves ⊢
  cases hc : s.host.mngr.tcbs key with
  | some c =>
      rw [hc] at hevolves
      cases hevolves with
      | lives hrun =>
          rcases hcases with rfl | ⟨seg, rfl⟩ | ⟨c₀, hc₀, rfl⟩
          · -- The event is none of its business: the array is as it was.
            obtain rfl := Except.ok.inj hrun
            rw [Option.map_some, Option.elim_some, List.drop_length]
            exact .refl _
          · exact .lives (served_of_block (e := .process seg) hrun)
          · obtain rfl := Option.some.inj (hc.symm.trans hc₀)
            exact .lives (served_of_block (e := .task 0) hrun)
  | none =>
      rw [hc] at hevolves
      rw [h.fresh key hc]
      cases hevolves with
      | absent => exact .absent
      | @appears c _ _ hborn hrun =>
          have hnothing := opened_copied hborn.opened
          rcases hcases with rfl | ⟨seg, rfl⟩ | ⟨c₀, hc₀, rfl⟩
          · obtain rfl := Except.ok.inj hrun
            rw [Option.map_some, Option.elim_some, hnothing]
            exact .appears (born_served hborn) rfl
          · refine .appears (born_served hborn) ?_
            have hserved := served_of_block (e := .process seg) (b := Echo.array) hrun
            rw [Echo.filled, hnothing] at hserved
            exact hserved
          · cases hc.symm.trans hc₀

/-- A connection with a block is there. -/
theorem view_some {c : Conn ConnCallback} (hc : s.host.mngr.tcbs key = some c) :
    view key s = some ⟨c.isn, ⟨c.tcb, s.bufs key⟩⟩ := by
  rw [view, hc]
  rfl

/-- And no other one. -/
theorem view_eq_none : view key s = none ↔ s.host.mngr.tcbs key = none := Option.map_eq_none_iff

/-- A connection that runs keeps serving. -/
theorem serving_of_evolves {o o' : Option Served} {es : List Echo.Event}
    (hevolves : Evolves Served.step (Served.Born key) o es o')
    (h : ∀ c ∈ o, Echo.Serving c.isn c.echo) : ∀ c ∈ o', Echo.Serving c.isn c.echo := by
  rintro c hc
  obtain rfl := Option.mem_def.mp hc
  cases hevolves with
  | lives hrun =>
      obtain ⟨echo, hecho, rfl⟩ := Served.run_ok.mp hrun
      exact (h _ rfl).run hecho
  | @appears b _ _ hborn hrun =>
      obtain ⟨echo, hecho, rfl⟩ := Served.run_ok.mp hrun
      exact (Echo.serving_opened hborn.opened b.echo.buf).run hecho

/-- **One event.** -/
theorem Serves.step (h : Serves localEp s) (hstep : s.step e = .ok s') : Serves localEp s' := by
  have hevolves := h.evolves hstep
  obtain ⟨host, hhost, hs'⟩ := bind_eq_ok.mp hstep
  have hhost' : s'.host = host := by
    obtain rfl := Except.ok.inj hs'
    rfl
  refine ⟨?_, fun key c hc => ?_, fun key hno => ?_⟩
  · rw [hhost']
    exact h.accepts.step hhost
  · refine serving_of_evolves (hevolves key) (fun b hb => ?_) _ (view_some hc)
    obtain ⟨c, hc, rfl⟩ := Option.map_eq_some_iff.mp hb
    exact h.blocks key c hc
  · -- A connection that has not been made has copied nothing.
    have hkey := hevolves key
    rw [view_eq_none.mpr hno] at hkey
    have hbefore : s.host.mngr.tcbs key = none := by
      generalize hv : view key s = o at hkey
      generalize seen key s e = es at hkey
      cases hkey
      exact view_eq_none.mp hv
    obtain rfl := Except.ok.inj hs'
    have hnothing : copied host key = [] := by
      rw [copied, show host.mngr.tcbs key = none from hno]
      rfl
    show Echo.fill (s.bufs key) _ = _
    rw [hnothing, h.fresh key hbefore, List.drop_nil]
    rfl

/-- **Where the program aborts, one of its connections does.**  The fault is
the same, so the results on what stops one connection say what stops the
program. -/
theorem Serves.blames {f : Fault} (h : Serves localEp s) (hstep : s.step e = .error (.tcb f)) :
    ∃ key, Fails Served.step (Served.Born key) (view key s) (seen key s e) f := by
  rcases bind_eq_error.mp hstep with hhost | ⟨host, -, hs'⟩
  · obtain ⟨key, hfails⟩ := Accepting.composed.blames _ _ _ h.accepts.sound hhost
    have hcases := h.seen_cases key e
    refine ⟨key, ?_⟩
    simp only [view, seen]
    generalize Accepting.seen key s.host (s.hostEvent e) = ds at hfails hcases ⊢
    cases hc : s.host.mngr.tcbs key with
    | some c =>
        rw [hc] at hfails
        cases hfails with
        | lives hrun =>
            rcases hcases with rfl | ⟨seg, rfl⟩ | ⟨c₀, hc₀, rfl⟩
            · cases hrun
            · exact .lives (served_of_block_error (e := .process seg) hrun)
            · obtain rfl := Option.some.inj (hc.symm.trans hc₀)
              exact .lives (served_of_block_error (e := .task 0) hrun)
    | none =>
        rw [hc] at hfails
        cases hfails with
        | appears hborn hrun =>
            rcases hcases with rfl | ⟨seg, rfl⟩ | ⟨c₀, hc₀, rfl⟩
            · cases hrun
            · exact .appears (born_served hborn)
                (served_of_block_error (e := .process seg) hrun)
            · cases hc.symm.trans hc₀
  · cases hs'

/-- At the start there is none. -/
theorem serves_start (localEp : Endpoint) : Serves localEp (start localEp) :=
  ⟨accepts_start localEp, fun _ _ hc => (Option.some_ne_none _ hc.symm).elim, fun _ _ => rfl⟩

/-- **The program is composed of its connections**, each an echo application of
its own: what becomes of one is a run of it alone, and an abort of the program
is the abort of one of them. -/
theorem composed (localEp : Endpoint) :
    Composed step Served.step (Serves localEp) view seen Served.Born ManagerFault.tcb where
  keeps := fun _ _ _ h hstep => h.step hstep
  evolves := fun _ _ _ key h hstep => h.evolves hstep key
  blames := fun _ _ _ h hstep => h.blames hstep

end Serves

/-! ## What the program can abort on

Every call that the application makes is on a block, or is `async_accept`. -/

section Abort

variable {s : Server} {e : Event} {f : ManagerFault}

/-- A function of the manager aborts on a block. -/
theorem onMngr_error {u : Accepting} {x : Except Fault (TcbManager ConnCallback)}
    (h : u.onMngr x = .error f) : ∃ g, f = .tcb g := by
  cases x with
  | error g => exact ⟨g, (Except.error.inj h).symm⟩
  | ok m => cases h

/-- The calls inside a callback open no connection, so only a block can stop in
them. -/
theorem call_error {t : PostedTask} {u : Accepting} {call : Accepting.Call} (hmem : call ∈ s.calls t)
    (h : u.call call = .error f) : ∃ g, f = .tcb g := by
  rw [calls, List.mem_append, List.mem_map] at hmem
  rcases hmem with ⟨c, -, rfl⟩ | hmem
  · simp only [Accepting.call] at h
    split at h
    · exact onMngr_error h
    · cases h
  · split at hmem
    · obtain rfl := List.mem_singleton.mp hmem
      cases h
    · cases hmem

/-- **The program stops only where a block does.** -/
theorem step_error (h : s.step e = .error f) : ∃ g, f = .tcb g := by
  rcases bind_eq_error.mp h with hhost | ⟨host, -, hs'⟩
  · cases e with
    | packet fresh pktIn => exact onMngr_error hhost
    | task =>
        simp only [hostEvent, Accepting.step] at hhost
        split at hhost
        · cases hhost
        · rename_i t rest hqueue
          split at hhost
          · cases hhost
          · rename_i c hc
            rcases bind_eq_error.mp hhost with hinside | ⟨u, -, hfinish⟩
            · rw [hqueue] at hinside
              generalize Accepting.invoke _ t c.onConnectionEstablished = p at hinside
              obtain ⟨invoked, u⟩ := p
              cases invoked with
              | true =>
                  obtain ⟨v, call, hmem, hcall⟩ := run_error hinside
                  exact call_error hmem hcall
              | false => cases hinside
            · exact onMngr_error hfinish
  · cases hs'

end Abort

/-- **The program serves every connection.**  Take any run of `main.cpp`:
packets of any connections, in any order with the handlers.

Where the run goes through, every connection that has been announced has been
handed to a callback of `async_accept`, in this order, and the next callback
waits; the application holds those connections whose callback has been called;
and each connection is what its loop, on a block that has been made for it and
left alone with the events that are its own, would have become.  So it echoes:
what has been written back, what is in hand and what is buffered are together
the text taken from the peer.  A key without a block has heard nothing.

Where it does not, the run of one such loop, alone, aborts with the same fault:
one peer can stop the program, and with it the connections of all others.  It
is never a read that waits while bytes are buffered. -/
theorem server_echoes (localEp : Endpoint) (es : List Event) :
    (∀ s, run (start localEp) es = .ok s →
      (s.host.acceptors acceptor).pairs.map Prod.snd = s.host.mngr.announced ∧
      (s.host.acceptors acceptor).waiting = [onAccept] ∧
      ∀ key,
        (∀ c, s.host.mngr.tcbs key = some c → key.localEp = localEp ∧
          (c.tcb.Connected ↔ key ∈ s.host.sockets) ∧
          (∃ t, Tcb.Opened c.isn t ∧ t.Addressed key ∧
            Echo.run c.isn ⟨t, Echo.array⟩ (heard step (seen key) (start localEp) es) =
              .ok ⟨c.tcb, s.bufs key⟩) ∧
          Echo.Echoes ⟨c.tcb, s.bufs key⟩) ∧
        (s.host.mngr.tcbs key = none → heard step (seen key) (start localEp) es = [])) ∧
    ∀ f, run (start localEp) es = .error f →
      ∃ fault, f = .tcb fault ∧ fault ≠ .readerWhileBuffered ∧
        ∃ key isn t, Tcb.Opened isn t ∧ t.Addressed key ∧
          Echo.run isn ⟨t, Echo.array⟩ (heard step (seen key) (start localEp) es) =
            .error fault := by
  have hstart := serves_start localEp
  constructor
  · intro s hrun
    have h : Serves localEp s := run_invariant (fun _ _ _ h _ hstep => h.step hstep) hstart
      (admitted_of_forall (fun _ _ => trivial) _ es) hrun
    refine ⟨?_, h.accepts.waiting, fun key => ?_⟩
    · rw [← h.accepts.items, h.accepts.lossless.items_eq, List.append_nil]
    have hevolves := (composed localEp).run_evolves hstart hrun key
    constructor
    · -- A block has evolved from nothing, so some event of its own made it.
      intro c hc
      refine ⟨(h.accepts.made key c hc).2, h.accepts.held_iff hc, ?_, (h.blocks key c hc).echoes⟩
      rw [view_some hc] at hevolves
      generalize heard step (seen key) (start localEp) es = fs at hevolves ⊢
      cases hevolves with
      | @appears b _ _ hborn hrun' =>
          obtain ⟨echo, hecho, hb⟩ := Served.run_ok.mp hrun'
          obtain ⟨hisn, rfl⟩ := Served.mk.inj hb
          refine ⟨b.echo.tcb, hisn ▸ hborn.opened, hborn.addressed, ?_⟩
          rw [hisn, ← hborn.buf]
          exact hecho
    · intro hnone
      rw [view_eq_none.mpr hnone] at hevolves
      generalize heard step (seen key) (start localEp) es = fs at hevolves ⊢
      cases hevolves
      rfl
  · intro f hrun
    -- The step that aborts does so in one block, and that block's loop is to blame.
    obtain ⟨u, e, -, hu⟩ := run_error hrun
    obtain ⟨fault, rfl⟩ := step_error hu
    obtain ⟨key, hfails⟩ := (composed localEp).run_blames hstart hrun
    generalize hheard : heard step (seen key) (start localEp) es = fs at hfails
    cases hfails with
    | @appears b _ _ hborn hrun' =>
        have hecho := Served.run_error.mp hrun'
        rw [show b.echo = ⟨b.echo.tcb, Echo.array⟩ by rw [← hborn.buf]] at hecho
        refine ⟨fault, rfl, fun hfault => ?_, key, b.isn, b.echo.tcb, hborn.opened,
          hborn.addressed, hheard ▸ hecho⟩
        rw [hfault] at hecho
        exact (Echo.echo_conserves hborn.opened fs).1 hecho

/-- A segment of the client at `remoteEp`. -/
def fromClient (remoteEp : Endpoint) (tcph : TcpHeader) (text : List Byte) : Event :=
  .packet { isn := 7, junkSend := default, junkRcv := default }
    { proto := 0x06
      remoteEp
      localEp := Accepting.client.localEp
      skb := { tcph, opts := [], text } }

/-- A client that takes `window` bytes: the handshake, the callback of the
connection, some text, and the callback of the read. -/
def session (remoteEp : Endpoint) (window : BitVec 16) (text : List Byte) : List Event :=
  [fromClient remoteEp { TcpHeader.bare with SYN := true, seqNo := 100, window } [],
    fromClient remoteEp { TcpHeader.bare with ACK := true, seqNo := 101, ackNo := 8 } [], .task,
    fromClient remoteEp { TcpHeader.bare with ACK := true, seqNo := 101, ackNo := 8 } text, .task]

/-- A client that is echoed. -/
def modest : List Event := session Accepting.client.remoteEp 500 [0x61, 0x62]

/-- Behind it one that sends more bytes than it takes. -/
def greedy : List Event := modest ++ [.task, .task] ++ session ⟨1, 2⟩ 2 [0x61, 0x62, 0x63]

/-- One client is echoed.  Behind it comes one that sends more bytes than it
takes: the program stops, and the loop of that one connection, alone, does the
same. -/
theorem session_echoed :
    (∃ s c, run (start Accepting.client.localEp) modest = .ok s ∧
      s.host.mngr.tcbs Accepting.client = some c ∧ Accepting.client ∈ s.host.sockets ∧
      Echo.Echoes ⟨c.tcb, s.bufs Accepting.client⟩ ∧ c.tcb.accepted = [0x61, 0x62] ∧
      c.tcb.written = [0x61, 0x62]) ∧
    run (start Accepting.client.localEp) greedy = .error (.tcb .sendQueueCapacity) ∧
      ∃ isn t es, Tcb.Opened isn t ∧ Echo.run isn ⟨t, Echo.array⟩ es = .error .sendQueueCapacity := by
  have herror : run (start Accepting.client.localEp) greedy = .error (.tcb .sendQueueCapacity) := rfl
  obtain ⟨s, c, hrun, hc, hcalled, haccepted, hwritten⟩ : ∃ s c,
      run (start Accepting.client.localEp) modest = .ok s ∧
      s.host.mngr.tcbs Accepting.client = some c ∧ c.tcb.Connected ∧
      c.tcb.accepted = [0x61, 0x62] ∧ c.tcb.written = [0x61, 0x62] :=
    ⟨_, _, rfl, rfl, List.mem_cons_self, rfl, rfl⟩
  obtain ⟨-, -, hblocks⟩ := (server_echoes Accepting.client.localEp modest).1 s hrun
  obtain ⟨-, hheld, -, hechoes⟩ := (hblocks Accepting.client).1 c hc
  obtain ⟨fault, hfault, -, key, isn, t, hopened, -, halone⟩ :=
    (server_echoes Accepting.client.localEp greedy).2 _ herror
  obtain rfl := ManagerFault.tcb.inj hfault
  exact ⟨⟨s, c, hrun, hc, hheld.mp hcalled, hechoes, haccepted, hwritten⟩, herror, isn, t, _,
    hopened, halone⟩

end Server

end Mstack
