import Mstack.Net.RawFlow
import Mstack.Tcp.Handshake

/-!
# The connection table

`tcb_manager`: the rules of the listeners, the table of the blocks, and what
`process` and `async_connect` do with them.  `γ` is the type of the callbacks:
the manager stores them in the blocks it makes and does not call them.

* `process` — a packet goes to its block; if there is none, the first rule that
  matches makes one, in LISTEN; otherwise it is dropped.
* `asyncConnect` — the loop over generated ports.
* `appCall`, `enterTask`, `finishTask` — a call through a socket, and the two
  halves of a handler around the callback it invokes.

### One queue

A block posts its handlers to the `io_context` it shares with every other
block.  The list `ioCtx` is that queue, with the block each handler belongs to;
`PostedTask` in the queue and `Tcb.ioCtx` are two views of the same thing, and
`Kept.handlers` says so.  A handler is taken apart into its beginning and its
end because the callback runs in between, and the callback may call into the
manager again.

The history variables `established` and `announced` record the blocks that have
entered ESTABLISHED, and those whose connection handler has begun to run.

### What every operation keeps

`Kept` is the invariant: every block is one `Tcp.LifeCycle` speaks about, the
two views of the queue agree, a handler belongs to a block that is there, and
connections are announced in the order in which they were established.  `Grows`
is what an operation leaves alone: a block stays in the table, with its
callback, and its state does not go back.  Each operation has one lemma with
both (`process_kept`, `asyncConnect_kept`, `appCall_kept`, `finishTask_kept`).

### What is load-bearing

Nothing is ever erased from `tcbs_`.  A connection that has ended leaves its
block in the table, in TIME-WAIT, and its key is never free again.

The block that a rule makes gets its first packet right away, and nobody asks
what that packet is (`Net.Stray`).  `BlockInit` is what the environment decides
about a new block: the ISN, and the contents of members that the constructor
does not initialise.
-/

namespace Mstack

open EventSystem

/-- The connection a packet belongs to. -/
def TcpPacket.twoEnd (pkt : TcpPacket) : TwoEnds where
  remoteEp := pkt.remoteEp
  localEp := pkt.localEp

/-- `tcb_manager::rule`: a matcher on the two endpoints, and the callback that
the connections under the rule get. -/
structure ConnRule (γ : Type) where
  matcher : Endpoint → Endpoint → Bool
  cb : γ

/-- An entry of `tcbs_`: a block, the number its `generate_isn()` returns, and
its `on_connection_established_`. -/
structure Conn (γ : Type) where
  tcb : Tcb
  isn : BitVec 32
  onConnectionEstablished : γ

/-- A handler in the queue of `io_ctx_`, with the block that posted it.  All
blocks of a manager post to one queue. -/
structure PostedTask where
  key : TwoEnds
  task : Task
  deriving DecidableEq, Repr

/-- What the environment decides about a new block: its ISN, and the contents
of the members the constructor does not initialise. -/
structure BlockInit where
  isn : BitVec 32
  junkSend : SendState
  junkRcv : ReceiveState
  deriving DecidableEq, Repr, Inhabited

/-- The ways `tcb_manager` can stop.  The loop of `async_connect` has no bound
in the source, and the model gives it a list of ports. -/
inductive ManagerFault where
  /-- A block stops. -/
  | tcb (f : Fault)
  /-- `assert(on_connection_established_)` in the constructor of `tcb_t`. -/
  | emptyCallback
  /-- Not a fault of the code: the ports given to the model are used up while
  the loop of `async_connect` is still looking. -/
  | portsUsedUp
  deriving DecidableEq, Repr

/-- `tcb_manager`.  `established` and `announced` are history: the connections
in the order in which they have been established, and in the order in which
their handlers have run. -/
structure TcbManager (γ : Type) where
  rules : List (ConnRule γ)
  tcbs : TwoEnds → Option (Conn γ)
  ioCtx : List PostedTask
  established : List TwoEnds
  announced : List TwoEnds

namespace TcbManager

variable {γ : Type}

/-- The constructor. -/
def create : TcbManager γ where
  rules := []
  tcbs := fun _ => none
  ioCtx := []
  established := []
  announced := []

/-- `rule_insert_front`. -/
def ruleInsertFront (m : TcbManager γ) (rule : ConnRule γ) : TcbManager γ :=
  { m with rules := rule :: m.rules }

/-- `rule_insert_back`. -/
def ruleInsertBack (m : TcbManager γ) (rule : ConnRule γ) : TcbManager γ :=
  { m with rules := m.rules ++ [rule] }

/-- `tcbs_.emplace(key, …)`, for a key that is not in the table.  Nothing ever
removes an entry. -/
def emplace (m : TcbManager γ) (key : TwoEnds) (c : Conn γ) : TcbManager γ :=
  { m with tcbs := Function.update m.tcbs key (some c) }

/-- A member function of block `key` has turned `c.tcb` into `t`: what it has
posted joins the queue, and an entry into ESTABLISHED is recorded. -/
def store (m : TcbManager γ) (key : TwoEnds) (c : Conn γ) (t : Tcb) : TcbManager γ :=
  { m with
    tcbs := Function.update m.tcbs key (some { c with tcb := t })
    ioCtx := m.ioCtx ++ (t.ioCtx.drop c.tcb.ioCtx.length).map (PostedTask.mk key)
    established := m.established ++ List.replicate (t.entered - c.tcb.entered) key }

/-- The block `process` makes for the first segment of a connection under a
rule. -/
def listener (fresh : BlockInit) (key : TwoEnds) (cb : γ) : Conn γ where
  tcb := Tcb.create key.remoteEp key.localEp .listen .listen fresh.junkSend fresh.junkRcv
  isn := fresh.isn
  onConnectionEstablished := cb

/-- `tcb_manager::process`.  A packet without a block and without a rule is
logged and dropped. -/
def process (fresh : BlockInit) (m : TcbManager γ) (pktIn : TcpPacket) :
    Except Fault (TcbManager γ) :=
  let twoEnd := pktIn.twoEnd
  match m.tcbs twoEnd with
  | some c => do return m.store twoEnd c (← c.tcb.process c.isn pktIn.skb)
  | none =>
      match m.rules.find? fun rule => rule.matcher twoEnd.remoteEp twoEnd.localEp with
      | some rule => do
          let c := listener fresh twoEnd rule.cb
          return (m.emplace twoEnd c).store twoEnd c (← c.tcb.process c.isn pktIn.skb)
      | none => .ok m

/-- `tcb_manager::async_connect`, for the ports that `port_gen_ctx_`
generates.  Every turn of the loop moves `cb` into a block before it looks
whether the key is free, so a turn that finds the key taken leaves an empty
callback to the next one. -/
def asyncConnect (fresh : BlockInit) (remoteEp : Endpoint) (localAddr : BitVec 32) :
    TcbManager γ → Option γ → List (BitVec 16) → Except ManagerFault (TcbManager γ)
  | _, _, [] => .error .portsUsedUp
  | _, none, _ :: _ => .error .emptyCallback
  | m, some cb, port :: ports =>
      let twoEnd : TwoEnds := { remoteEp, localEp := { addrv4 := localAddr, addrv4Port := port } }
      match m.tcbs twoEnd with
      | some _ => asyncConnect fresh remoteEp localAddr m none ports
      | none =>
          let t := Tcb.create twoEnd.remoteEp twoEnd.localEp .connecting .connecting
            fresh.junkSend fresh.junkRcv
          match t.startConnecting fresh.isn with
          | .error f => .error (.tcb f)
          | .ok t =>
              .ok (m.emplace twoEnd { tcb := t, isn := fresh.isn, onConnectionEstablished := cb })

/-- The handler at the front of the queue, of block `key`, begins: it leaves
the queue, and the block invokes the callback the handler holds. -/
def enterTask (m : TcbManager γ) (h : PostedTask) (rest : List PostedTask) (c : Conn γ) :
    TcbManager γ :=
  { m with
    tcbs := Function.update m.tcbs h.key (some { c with tcb := c.tcb.enterTask 0 h.task })
    ioCtx := rest
    announced := m.announced ++ if h.task = .connectionEstablished then [h.key] else [] }

/-- A call on block `key` through a socket.  The socket has a weak pointer; if
the block is gone, the call does nothing. -/
def appCall (m : TcbManager γ) (key : TwoEnds) (call : AppCall) : Except Fault (TcbManager γ) :=
  match m.tcbs key with
  | some c => do return m.store key c (← c.tcb.appCall call)
  | none => .ok m

/-- What a handler does after the callback: the completion of a read sends its
packet, and the send loop sends. -/
def finishTask (m : TcbManager γ) (h : PostedTask) : Except Fault (TcbManager γ) :=
  match m.tcbs h.key with
  | some c => do return m.store h.key c (← c.tcb.runTask [] h.task)
  | none => .ok m

/-! ## What the manager keeps

The views of the queue, and the invariant. -/

/-- The handlers of one block, oldest first. -/
def handlers (key : TwoEnds) (queue : List PostedTask) : List Task :=
  (queue.filter fun h => h.key = key).map PostedTask.task

/-- The blocks whose connection handler waits to run, oldest first. -/
def pending (queue : List PostedTask) : List TwoEnds :=
  (queue.filter fun h => h.task = .connectionEstablished).map PostedTask.key

/-- **What every operation of the manager keeps.**  It relates the table of
blocks to the one queue of handlers and to the record of connections: a handler
belongs to a block of the table, and the queue, restricted to one block, is
that block's queue. -/
structure Kept (m : TcbManager γ) : Prop where
  /-- Every block is one of those `Life` speaks about. -/
  life : ∀ key c, m.tcbs key = some c → Tcb.Life c.isn c.tcb
  /-- The queue holds the handlers of the blocks, each in its order. -/
  handlers : ∀ key c, m.tcbs key = some c → handlers key m.ioCtx = c.tcb.ioCtx
  /-- A handler belongs to a block of the table. -/
  present : ∀ h ∈ m.ioCtx, m.tcbs h.key ≠ none
  /-- A block is recorded as often as it has entered ESTABLISHED. -/
  entered : ∀ key c, m.tcbs key = some c → m.established.count key = c.tcb.entered
  recorded : ∀ key ∈ m.established, m.tcbs key ≠ none
  /-- First in, first out: the connection handlers run in the order of the
  connections. -/
  inOrder : m.established = m.announced ++ pending m.ioCtx

/-- The empty table keeps all of it. -/
theorem kept_create : (create : TcbManager γ).Kept := by
  constructor <;> simp [create, pending]

section Queue

variable (key key' : TwoEnds) (queue queue' : List PostedTask)

/-- The handlers of a block, in two parts of the queue. -/
@[simp] theorem handlers_append :
    handlers key (queue ++ queue') = handlers key queue ++ handlers key queue' := by
  simp [handlers]

/-- The same for the connections that wait to be announced. -/
@[simp] theorem pending_append :
    pending (queue ++ queue') = pending queue ++ pending queue' := by
  simp [pending]

/-- What a block has posted are its handlers. -/
theorem handlers_mk (tasks : List Task) : handlers key (tasks.map (PostedTask.mk key)) = tasks := by
  simp [handlers, List.filter_map, Function.comp_def]

/-- And nobody else's. -/
theorem handlers_mk_of_ne (h : key' ≠ key) (tasks : List Task) :
    handlers key (tasks.map (PostedTask.mk key')) = [] := by
  simp [handlers, List.filter_map, Function.comp_def, h]

/-- A block is pending as often as its connection handler is posted. -/
theorem pending_mk (tasks : List Task) : pending (tasks.map (PostedTask.mk key)) =
    List.replicate (tasks.count .connectionEstablished) key := by
  induction tasks with
  | nil => rfl
  | cons task tasks ih =>
      rw [List.map_cons, List.count_cons]
      by_cases htask : task = .connectionEstablished
      · rw [pending, List.filter_cons_of_pos (by simpa using htask), List.map_cons]
        simp only [htask, beq_self_eq_true, if_true, List.replicate_succ]
        rw [← ih, pending]
      · rw [pending, List.filter_cons_of_neg (by simpa using htask)]
        simpa [htask, pending] using ih

end Queue

end TcbManager

namespace Tcb

/-- The step `t → t'` runs no callback, and what it posts is appended to the
handlers. -/
structure Posts (t t' : Tcb) : Prop where
  ioCtx : t.ioCtx <+: t'.ioCtx
  called : t'.trace.called = t.trace.called

/-- A step that posts nothing. -/
theorem Posts.of_eq {t t' : Tcb} (hio : t'.ioCtx = t.ioCtx)
    (hcalled : t'.trace.called = t.trace.called) : Posts t t' :=
  ⟨by rw [hio], hcalled⟩

/-- One step after the other. -/
theorem Posts.trans {t u v : Tcb} (h : Posts t u) (h' : Posts u v) : Posts t v :=
  ⟨h.ioCtx.trans h'.ioCtx, h'.called.trans h.called⟩

/-- The ACK step posts the connection handler, or nothing. -/
theorem AckOutcome.posts {t : Tcb} {seg : Segment} {flow : Flow} (h : AckOutcome t seg flow) :
    Posts t flow.block := by
  cases h with
  | accepted hACK hstate hlo hhi => exact ⟨List.prefix_append _ _, rfl⟩
  | data hACK hstate pq hpq hhi =>
      obtain ⟨n, hn⟩ := (t.ackData pq seg.tcph.ackNo).ackNextState_eq
      rw [hn]
      exact .of_eq rfl rfl
  | _ => exact .of_eq rfl rfl

/-- The text step may post the end of a read. -/
theorem TextOutcome.posts {t t' : Tcb} {seg : Segment} (h : TextOutcome t seg t') :
    Posts t t' := by
  cases h with
  | delivered hyes reader readers hreaders hempty => exact ⟨List.prefix_append _ _, rfl⟩
  | _ => exact .of_eq rfl rfl

/-- The FIN step posts nothing. -/
theorem FinOutcome.posts {t t' : Tcb} {seg : Segment} (h : FinOutcome t seg t') : Posts t t' := by
  cases h <;> exact .of_eq rfl rfl

/-- A segment runs no callback. -/
theorem process_posts {isn : BitVec 32} {t t' : Tcb} {seg : Segment}
    (h : t.process isn seg = .ok t') : Posts t t' := by
  cases process_cases h with
  | unchanged hno => exact .of_eq rfl rfl
  | passiveOpen hstate hRST hACK hSYN opts hopts => exact .of_eq rfl rfl
  | activeOpen hstate hSYN hACK hlo hhi opts hopts => exact ⟨List.prefix_append _ _, rfl⟩
  | returned hsync hreach hack => exact hack.posts
  | continued hsync hreach hack htext hfin =>
      exact (hack.posts.trans htext.posts).trans hfin.posts

/-- Nor does a call of the application. -/
theorem appCall_posts {t t' : Tcb} {c : AppCall} (h : t.appCall c = .ok t') : Posts t t' := by
  cases appCall_cases h with
  | waits size cb hempty => exact .of_eq rfl rfl
  | reads size cb hdata => exact ⟨List.prefix_append _ _, rfl⟩
  | writes buf cb pq hpq hfit =>
      refine ⟨?_, rfl⟩
      rw [afterWrite, List.append_assoc]
      exact List.prefix_append _ _

/-- After its callback a handler sends packets and posts nothing. -/
theorem runTask_nil {isn : BitVec 32} {t t' : Tcb} {task : Task} (h : Life isn t)
    (hrank : 2 ≤ t.state.rank) (hrun : t.runTask [] task = .ok t') :
    Life isn t' ∧ t.state.rank ≤ t'.state.rank ∧ Posts t t' := by
  have hpacket : ∀ u pq, (Life isn u ∧ t.state.rank ≤ u.state.rank ∧ Posts t u) →
      u.send.pq = some pq → Life isn (u.afterPacket pq) ∧
        t.state.rank ≤ (u.afterPacket pq).state.rank ∧ Posts t (u.afterPacket pq) := by
    rintro u pq ⟨hu, hle, hposts⟩ hpq
    obtain ⟨hu', hle', -⟩ := hu.afterPacket (hrank.trans hle) hpq
    exact ⟨hu', hle.trans hle', hposts.ioCtx, hposts.called⟩
  have hsame : Life isn t ∧ t.state.rank ≤ t.state.rank ∧ Posts t t := ⟨h, le_rfl, .of_eq rfl rfl⟩
  cases task with
  | connectionEstablished => cases hrun; exact hsame
  | writeDone cb len => cases hrun; exact hsame
  | readDone cb len =>
      obtain ⟨pq, hpq, rfl⟩ := makeAndSendPkt_ok.mp hrun
      exact hpacket t pq hsame hpq
  | sendLoop => exact sendLoop_preserves hpacket hsame hrun

/-- The connection handlers among those posted are the entries into
ESTABLISHED. -/
theorem Posts.count {isn : BitVec 32} {t t' : Tcb} (h : Posts t t') (hlife : Life isn t)
    (hlife' : Life isn t') :
    t'.entered = t.entered +
      (t'.ioCtx.drop t.ioCtx.length).count .connectionEstablished := by
  obtain ⟨posts, hposts⟩ := h.ioCtx
  have hcount := hlife.posted_eq
  have hcount' := hlife'.posted_eq
  rw [posted] at hcount hcount'
  rw [← hposts, List.count_append, h.called] at hcount'
  rw [← hposts, List.drop_left]
  omega

/-- A block of `tcb_manager` begins with nothing posted. -/
theorem Opened.fresh {isn : BitVec 32} {t : Tcb} (h : Opened isn t) :
    t.ioCtx = [] ∧ t.entered = 0 := by
  obtain ⟨hio, -, hentered⟩ := h.life.idle h.rank_lt
  exact ⟨hio, hentered⟩

end Tcb

namespace TcbManager

open Tcb

variable {γ : Type} {m m' : TcbManager γ} {key : TwoEnds} {c : Conn γ}

/-- A block that is not there has posted nothing. -/
theorem handlers_eq_nil_of_absent (h : m.Kept) (habsent : m.tcbs key = none) :
    TcbManager.handlers key m.ioCtx = [] := by
  rw [TcbManager.handlers, List.map_eq_nil_iff, List.filter_eq_nil_iff]
  intro handler hmem hkey
  refine h.present handler hmem ?_
  rw [of_decide_eq_true hkey]
  exact habsent

/-- The entries of a table with one entry changed. -/
theorem update_eq_some {key' : TwoEnds} {c' : Conn γ}
    (h : Function.update m.tcbs key (some c) key' = some c') :
    (key = key' ∧ c = c') ∨ (key' ≠ key ∧ m.tcbs key' = some c') := by
  by_cases hkey : key' = key
  · rw [hkey, Function.update_self] at h
    exact .inl ⟨hkey.symm, Option.some.inj h⟩
  · rw [Function.update_of_ne hkey] at h
    exact .inr ⟨hkey, h⟩

/-- And none of them is gone. -/
theorem update_ne_none {key' : TwoEnds} {c' : Conn γ} (h : m.tcbs key' ≠ none) :
    Function.update m.tcbs key (some c') key' ≠ none := by
  by_cases hkey : key' = key
  · rw [hkey, Function.update_self]
    exact Option.some_ne_none _
  · rwa [Function.update_of_ne hkey]

/-- A new block. -/
theorem Kept.emplace (h : m.Kept) (habsent : m.tcbs key = none) (hopen : Opened c.isn c.tcb) :
    (m.emplace key c).Kept := by
  obtain ⟨hio, hentered⟩ := hopen.fresh
  constructor
  · intro key' c' hc'
    obtain ⟨rfl, rfl⟩ | ⟨hkey, hc'⟩ := update_eq_some hc'
    · exact hopen.life
    · exact h.life key' c' hc'
  · intro key' c' hc'
    obtain ⟨rfl, rfl⟩ | ⟨hkey, hc'⟩ := update_eq_some hc'
    · have hnil := handlers_eq_nil_of_absent h habsent
      rw [hio]
      exact hnil
    · exact h.handlers key' c' hc'
  · exact fun handler hmem => update_ne_none (h.present handler hmem)
  · intro key' c' hc'
    obtain ⟨rfl, rfl⟩ | ⟨hkey, hc'⟩ := update_eq_some hc'
    · rw [hentered, List.count_eq_zero]
      exact fun hmem => h.recorded key hmem habsent
    · exact h.entered key' c' hc'
  · exact fun key' hmem => update_ne_none (h.recorded key' hmem)
  · exact h.inOrder

/-- A member function of one block. -/
theorem Kept.store {t : Tcb} (h : m.Kept) (hc : m.tcbs key = some c) (hlife : Life c.isn t)
    (hposts : Posts c.tcb t) : (m.store key c t).Kept := by
  -- A member function posts at the end, and enters as often as it posts the callback.
  have hcount := hposts.count (h.life key c hc) hlife
  have hle : c.tcb.entered ≤ t.entered := by omega
  have hpresent : m.tcbs key ≠ none := by
    rw [hc]
    exact Option.some_ne_none c
  constructor
  · intro key' c' hc'
    obtain ⟨rfl, rfl⟩ | ⟨hkey, hc'⟩ := update_eq_some hc'
    · exact hlife
    · exact h.life key' c' hc'
  · intro key' c' hc'
    simp only [TcbManager.store, handlers_append]
    obtain ⟨rfl, rfl⟩ | ⟨hkey, hc'⟩ := update_eq_some hc'
    · obtain ⟨posts, hposts⟩ := hposts.ioCtx
      rw [handlers_mk, h.handlers key c hc, ← hposts, List.drop_left]
    · rw [handlers_mk_of_ne _ _ (Ne.symm hkey), List.append_nil]
      exact h.handlers key' c' hc'
  · intro handler hmem
    refine update_ne_none ?_
    rcases List.mem_append.mp hmem with hmem | hmem
    · exact h.present handler hmem
    · obtain ⟨task, -, rfl⟩ := List.mem_map.mp hmem
      exact hpresent
  · intro key' c' hc'
    simp only [TcbManager.store, List.count_append, List.count_replicate]
    obtain ⟨rfl, rfl⟩ | ⟨hkey, hc'⟩ := update_eq_some hc'
    · rw [h.entered key c hc, beq_self_eq_true, if_pos rfl]
      exact Nat.add_sub_of_le hle
    · rw [if_neg (by simpa using Ne.symm hkey)]
      exact h.entered key' c' hc'
  · intro key' hmem
    refine update_ne_none ?_
    rcases List.mem_append.mp hmem with hmem | hmem
    · exact h.recorded key' hmem
    · rwa [List.eq_of_mem_replicate hmem]
  · simp only [TcbManager.store, pending_append, pending_mk]
    rw [h.inOrder, List.append_assoc, hcount, Nat.add_sub_cancel_left]

/-- A handler begins: if it is a connection handler, its block is the next one
announced. -/
theorem Kept.enterTask {handler : PostedTask} {rest : List PostedTask} (h : m.Kept)
    (hqueue : m.ioCtx = handler :: rest) (hc : m.tcbs handler.key = some c) :
    (m.enterTask handler rest c).Kept := by
  -- The oldest handler of the queue is the oldest one of its block.
  have hhandlers := h.handlers handler.key c hc
  rw [hqueue, TcbManager.handlers, List.filter_cons_of_pos (by simp), List.map_cons] at hhandlers
  have hfront : c.tcb.ioCtx[0]? = some handler.task := by rw [← hhandlers]; rfl
  constructor
  · intro key' c' hc'
    obtain ⟨rfl, rfl⟩ | ⟨hkey, hc'⟩ := update_eq_some hc'
    · exact (h.life handler.key c hc).enterTask hfront
    · exact h.life key' c' hc'
  · intro key' c' hc'
    obtain ⟨rfl, rfl⟩ | ⟨hkey, hc'⟩ := update_eq_some hc'
    · rw [enterTask_ioCtx, ← hhandlers]
      rfl
    · rw [← h.handlers key' c' hc', hqueue, TcbManager.handlers, TcbManager.handlers,
        List.filter_cons_of_neg (by simpa using Ne.symm hkey)]
      rfl
  · intro handler' hmem
    refine update_ne_none (h.present handler' ?_)
    rw [hqueue]
    exact List.mem_cons_of_mem handler hmem
  · intro key' c' hc'
    obtain ⟨rfl, rfl⟩ | ⟨hkey, hc'⟩ := update_eq_some hc'
    · rw [Tcb.entered, enterTask_states]
      exact h.entered handler.key c hc
    · exact h.entered key' c' hc'
  · exact fun key' hmem => update_ne_none (h.recorded key' hmem)
  · have hinOrder := h.inOrder
    rw [hqueue] at hinOrder
    refine hinOrder.trans ?_
    simp only [TcbManager.enterTask, List.append_assoc]
    congr 1
    -- A connection handler takes its key from the pending to the announced ones.
    by_cases htask : handler.task = .connectionEstablished
    · rw [if_pos htask, pending, List.filter_cons_of_pos (by simpa using htask), List.map_cons]
      rfl
    · rw [if_neg htask, pending, List.filter_cons_of_neg (by simpa using htask)]
      rfl

/-! ## What the operations do

Each is an emplace or a store, and leaves the rest of the table alone. -/

/-- A block stays in the table, with its callback, and moves forward. -/
structure Grows (m m' : TcbManager γ) : Prop where
  tcbs : ∀ key c, m.tcbs key = some c → ∃ c', m'.tcbs key = some c' ∧
    c'.onConnectionEstablished = c.onConnectionEstablished ∧
    c.tcb.state.rank ≤ c'.tcb.state.rank
  announced : m'.announced = m.announced

/-- Doing nothing. -/
theorem Grows.refl (m : TcbManager γ) : Grows m m :=
  ⟨fun _ c hc => ⟨c, hc, rfl, le_rfl⟩, rfl⟩

/-- One operation after the other. -/
theorem Grows.trans {m'' : TcbManager γ} (h : Grows m m') (h' : Grows m' m'') : Grows m m'' := by
  refine ⟨fun key c hc => ?_, h'.announced.trans h.announced⟩
  obtain ⟨c', hc', hcb, hrank⟩ := h.tcbs key c hc
  obtain ⟨c'', hc'', hcb', hrank'⟩ := h'.tcbs key c' hc'
  exact ⟨c'', hc'', hcb'.trans hcb, hrank.trans hrank'⟩

/-- A new block changes none of the others. -/
theorem grows_emplace (habsent : m.tcbs key = none) : Grows m (m.emplace key c) := by
  refine ⟨fun key' c' hc' => ⟨c', ?_, rfl, le_rfl⟩, rfl⟩
  have hne : key' ≠ key := by
    rintro rfl
    rw [habsent] at hc'
    cases hc'
  exact (Function.update_of_ne hne _ _).trans hc'

/-- Another block for the same entry. -/
theorem grows_update {t : Tcb} (hc : m.tcbs key = some c)
    (hrank : c.tcb.state.rank ≤ t.state.rank) {m' : TcbManager γ}
    (htcbs : m'.tcbs = Function.update m.tcbs key (some { c with tcb := t }))
    (hannounced : m'.announced = m.announced) : Grows m m' := by
  refine ⟨fun key' c' hc' => ?_, hannounced⟩
  rw [htcbs]
  by_cases hkey : key' = key
  · rw [hkey, hc] at hc'
    obtain rfl := Option.some.inj hc'
    rw [hkey]
    exact ⟨_, Function.update_self _ _ _, rfl, hrank⟩
  · exact ⟨c', (Function.update_of_ne hkey _ _).trans hc', rfl, le_rfl⟩

/-- A block that moves forward. -/
theorem grows_store {t : Tcb} (hc : m.tcbs key = some c)
    (hrank : c.tcb.state.rank ≤ t.state.rank) : Grows m (m.store key c t) :=
  grows_update hc hrank rfl rfl

/-- A handler that begins only adds to the blocks announced. -/
theorem grows_enterTask {handler : PostedTask} (rest : List PostedTask)
    (hc : m.tcbs handler.key = some c) :
    Grows { m with announced := (m.enterTask handler rest c).announced }
      (m.enterTask handler rest c) :=
  grows_update (m := { m with announced := (m.enterTask handler rest c).announced })
    (t := c.tcb.enterTask 0 handler.task) hc (le_of_eq (by rw [enterTask_state])) rfl rfl

/-- The rules are not part of what is kept. -/
theorem Kept.withRules (h : m.Kept) (rules : List (ConnRule γ)) :
    Kept { m with rules := rules } ∧ Grows m { m with rules := rules } :=
  ⟨⟨h.life, h.handlers, h.present, h.entered, h.recorded, h.inOrder⟩,
    fun _ c hc => ⟨c, hc, rfl, le_rfl⟩, rfl⟩

/-- An arriving segment, for a block of the table. -/
theorem Kept.received {seg : Segment} {t : Tcb} (h : m.Kept) (hc : m.tcbs key = some c)
    (hprocess : c.tcb.process c.isn seg = .ok t) :
    (m.store key c t).Kept ∧ Grows m (m.store key c t) := by
  obtain ⟨hlife, hprogress⟩ := process_life (h.life key c hc) hprocess
  exact ⟨h.store hc hlife (process_posts hprocess), grows_store hc hprogress.rank_le⟩

/-- **An arriving packet.**  At most one block changes or is made; its new
handlers go to the end of the queue, so the restriction of the queue to any
other block stays. -/
theorem process_kept {fresh : BlockInit} {pktIn : TcpPacket} (h : m.Kept)
    (hprocess : m.process fresh pktIn = .ok m') : m'.Kept ∧ Grows m m' := by
  unfold process at hprocess
  dsimp only at hprocess
  split at hprocess
  · rename_i c hc
    obtain ⟨t, ht, hm'⟩ := bind_eq_ok.mp hprocess
    cases hm'
    exact h.received hc ht
  · rename_i habsent
    split at hprocess
    · rename_i rule hrule
      obtain ⟨t, ht, hm'⟩ := bind_eq_ok.mp hprocess
      cases hm'
      have hkept := h.emplace (c := listener fresh pktIn.twoEnd rule.cb) habsent
        (.passive _ _ _ _)
      obtain ⟨hkept', hgrows⟩ := hkept.received (Function.update_self _ _ _) ht
      exact ⟨hkept', (grows_emplace habsent).trans hgrows⟩
    · cases hprocess
      exact ⟨h, .refl m⟩

/-- **An active open.** -/
theorem asyncConnect_kept {fresh : BlockInit} {remoteEp : Endpoint} {localAddr : BitVec 32}
    {cb : Option γ} {ports : List (BitVec 16)} (h : m.Kept)
    (hconnect : asyncConnect fresh remoteEp localAddr m cb ports = .ok m') :
    m'.Kept ∧ Grows m m' := by
  induction ports generalizing cb with
  | nil => cases hconnect
  | cons port ports ih =>
      cases cb with
      | none => cases hconnect
      | some cb =>
          simp only [asyncConnect] at hconnect
          split at hconnect
          · exact ih hconnect
          · rename_i habsent
            split at hconnect
            · cases hconnect
            · rename_i t ht
              cases hconnect
              exact ⟨h.emplace habsent (.active _ _ _ _ ht), grows_emplace habsent⟩

/-- **A call through a socket.**  The block may be gone, since a socket holds a
weak pointer; then nothing happens. -/
theorem appCall_kept {call : AppCall} (h : m.Kept)
    (hopen : ∀ c, m.tcbs key = some c → 2 ≤ c.tcb.state.rank)
    (hcall : m.appCall key call = .ok m') : m'.Kept ∧ Grows m m' := by
  unfold appCall at hcall
  split at hcall
  · rename_i c hc
    obtain ⟨t, ht, hm'⟩ := bind_eq_ok.mp hcall
    cases hm'
    obtain ⟨hlife, hstate, -⟩ := appCall_life (h.life key c hc) (hopen c hc) ht
    exact ⟨h.store hc hlife (appCall_posts ht), grows_store hc (le_of_eq (by rw [hstate]))⟩
  · cases hcall
    exact ⟨h, .refl m⟩

/-- **The end of a handler.** -/
theorem finishTask_kept {handler : PostedTask} (h : m.Kept)
    (hopen : ∀ c, m.tcbs handler.key = some c → 2 ≤ c.tcb.state.rank)
    (hfinish : m.finishTask handler = .ok m') : m'.Kept ∧ Grows m m' := by
  unfold finishTask at hfinish
  split at hfinish
  · rename_i c hc
    obtain ⟨t, ht, hm'⟩ := bind_eq_ok.mp hfinish
    cases hm'
    obtain ⟨hlife, hrank, hposts⟩ := runTask_nil (h.life _ c hc) (hopen c hc) ht
    exact ⟨h.store hc hlife hposts, grows_store hc hrank⟩
  · cases hfinish
    exact ⟨h, .refl m⟩

/-- A handler that begins belongs to a block that is open, and is its front
one. -/
theorem Kept.front {handler : PostedTask} {rest : List PostedTask} (h : m.Kept)
    (hqueue : m.ioCtx = handler :: rest) :
    ∃ c, m.tcbs handler.key = some c ∧ 2 ≤ c.tcb.state.rank := by
  obtain ⟨c, hc⟩ := Option.ne_none_iff_exists'.mp
    (h.present handler (by rw [hqueue]; exact List.mem_cons_self))
  have hhandlers := h.handlers handler.key c hc
  rw [hqueue, TcbManager.handlers, List.filter_cons_of_pos (by simp), List.map_cons] at hhandlers
  exact ⟨c, hc, (h.life _ c hc).rank_of_posted (k := 0) (by rw [← hhandlers]; rfl)⟩

/-- A connection enters ESTABLISHED once, so that it is announced once. -/
theorem Kept.nodup (h : m.Kept) : m.established.Nodup := by
  rw [List.nodup_iff_count_le_one]
  intro key
  by_cases hmem : key ∈ m.established
  · obtain ⟨c, hc⟩ := Option.ne_none_iff_exists'.mp (h.recorded key hmem)
    rw [h.entered key c hc]
    exact (h.life key c hc).entered_le
  · rw [List.count_eq_zero.mpr hmem]
    exact Nat.zero_le 1

end TcbManager

end Mstack
