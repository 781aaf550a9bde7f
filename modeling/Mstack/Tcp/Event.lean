import Mstack.Tcp.Process

/-!
# Events and runs

A `tcb_t` lives in a single-threaded event loop.  Three things happen to it: a
segment arrives, the application calls a member function, or the loop runs a
posted handler.  `step` is one such event, `EventSystem.run` a run of them.

**Handlers in any order.**  `Event.task k` runs the `k`-th posted handler, for
any `k`.  The loop itself always takes the first; what holds for every choice
holds for that one.

**Callbacks.**  A handler that invokes a callback gives control to the
application, which may call back into the block before the handler goes on — a
read completion sends its packet only *after* `cb` returns.  The calls made
inside the callback are therefore part of the event.

### Admissible events

Most results need something of the environment: that writes fit, that one read
at a time is outstanding, that segments are what a peer would send.
`EventOk segOk callOk` says this of one event, in the state in which it
happens: `segOk` of the segment, `callOk` of each call, those inside a callback
included, each in the state in which it is made.  A run is admissible if each
of its events is (`EventSystem.Admitted`).

* `Connected` — the application has been handed the block: its connection
  callback has been invoked.
* `NoReadOutstanding` — no read waits for data or for its completion.
* `WriteFits` — the send queue has room.

All three are decidable, and so is `EventOk` for conditions that are, so that a
concrete run is shown to be admissible by evaluation.

### What is load-bearing

An event whose handler does not exist is no event: `step` leaves the block
alone.  Results about "every `k`" therefore do not need `k` to be in range.
-/

namespace Mstack

/-- A call the application makes on a block it has been handed.  There are two;
no call closes the connection. -/
inductive AppCall where
  /-- `async_read_some` with a span of `size` bytes. -/
  | read (size : ℕ) (cb : CallbackId)
  /-- `async_write`. -/
  | write (buf : List Byte) (cb : CallbackId)
  deriving DecidableEq, Repr

/-- One turn of the event loop, as one block sees it.  A handler carries the
calls that the application makes inside its callback. -/
inductive Event where
  | process (seg : Segment)
  | call (c : AppCall)
  | task (k : ℕ) (calls : List AppCall)
  deriving DecidableEq, Repr

namespace Tcb

/-- One application call. -/
def appCall (t : Tcb) : AppCall → Except Fault Tcb
  | .read size cb => .ok (t.asyncReadSome size cb)
  | .write buf cb => t.asyncWrite buf cb

/-- What the application does inside a callback: any number of calls, one after
another. -/
def appCalls (t : Tcb) (calls : List AppCall) : Except Fault Tcb :=
  EventSystem.run appCall t calls

/-- The callback a handler invokes, if it invokes one. -/
def invokes : Task → Option Called
  | .connectionEstablished => some .connectionEstablished
  | .readDone cb len => some (.read cb len)
  | .writeDone cb len => some (.write cb len)
  | .sendLoop => none

/-- The block as the body of the callback finds it: the handler is off the
queue and its callback has been invoked.  What the callback calls sees this
block. -/
def enterTask (t : Tcb) (k : ℕ) (task : Task) : Tcb :=
  let t := { t with ioCtx := t.ioCtx.eraseIdx k }
  match invokes task with
  | some c => t.call c
  | none => t

/-- The body of a handler, from the callback on.  A read completion goes on
after its callback: it sends a packet. -/
def runTask (t : Tcb) (calls : List AppCall) : Task → Except Fault Tcb
  | .connectionEstablished => t.appCalls calls
  | .readDone _ _ => do (← t.appCalls calls).makeAndSendPkt
  | .writeDone _ _ => t.appCalls calls
  | .sendLoop => t.sendLoop

/-- One event.  A handler is taken off at position `k`, so that a theorem about
all runs is one about all orders; where the order matters, it is a condition on
the events. -/
def step (isn : BitVec 32) (t : Tcb) : Event → Except Fault Tcb
  | .process seg => t.process isn seg
  | .call c => t.appCall c
  | .task k calls =>
      match t.ioCtx[k]? with
      | none => .ok t
      | some task => (t.enterTask k task).runTask calls task

/-- A run of events. -/
def run (isn : BitVec 32) (t : Tcb) (es : List Event) : Except Fault Tcb :=
  EventSystem.run (step isn) t es

/-! ## What an environment may do -/

/-- The connection callback has been invoked, so the application holds the
block.  Before that it has no way to call it. -/
def Connected (t : Tcb) : Prop := .connectionEstablished ∈ t.trace.called

instance (t : Tcb) : Decidable t.Connected := inferInstanceAs (Decidable (_ ∈ _))

/-- No `async_read_some` is waiting for data or for its completion handler.  An
application that keeps to this reads again only in the callback of its last
read, or later. -/
def NoReadOutstanding (t : Tcb) : Prop :=
  t.onDataReceive = [] ∧ ∀ cb len, .readDone cb len ∉ t.ioCtx

instance (task : Task) : Decidable (∀ cb len, task ≠ .readDone cb len) :=
  match task with
  | .readDone cb len => isFalse fun h => h cb len rfl
  | .connectionEstablished => isTrue fun _ _ h => Task.noConfusion h
  | .writeDone _ _ => isTrue fun _ _ h => Task.noConfusion h
  | .sendLoop => isTrue fun _ _ h => Task.noConfusion h

/-- It can be tested handler by handler. -/
theorem noReadOutstanding_iff_tasks (t : Tcb) : t.NoReadOutstanding ↔
    t.onDataReceive = [] ∧ ∀ task ∈ t.ioCtx, ∀ cb len, task ≠ .readDone cb len :=
  and_congr Iff.rfl ⟨fun h _ hmem cb len htask => h cb len (htask ▸ hmem),
    fun h cb len hmem => h _ hmem cb len rfl⟩

instance (t : Tcb) : Decidable t.NoReadOutstanding :=
  decidable_of_iff _ t.noReadOutstanding_iff_tasks.symm

/-- A write fits the free space of the send queue, which is what
`enqueue_app_data` asserts. -/
def WriteFits (t : Tcb) (buf : List Byte) : Prop :=
  ∃ pq, t.send.pq = some pq ∧ pq.size + buf.length ≤ pq.capacity

instance (t : Tcb) (buf : List Byte) : Decidable (t.WriteFits buf) :=
  inferInstanceAs (Decidable (∃ pq ∈ t.send.pq, _))

/-- **Admissible events.**  `segOk` constrains arriving segments; `callOk`
constrains application calls, those inside a callback included, each in the
state in which it is made. -/
def EventOk (segOk : Tcb → Segment → Prop) (callOk : Tcb → AppCall → Prop) (t : Tcb) :
    Event → Prop
  | .process seg => segOk t seg
  | .call c => callOk t c
  | .task k calls =>
      ∀ task, t.ioCtx[k]? = some task → task ≠ .sendLoop →
        EventSystem.Admitted appCall callOk (t.enterTask k task) calls

instance {segOk : Tcb → Segment → Prop} {callOk : Tcb → AppCall → Prop}
    [∀ t seg, Decidable (segOk t seg)] [∀ t c, Decidable (callOk t c)] (t : Tcb) (e : Event) :
    Decidable (EventOk segOk callOk t e) :=
  match e with
  | .process seg => inferInstanceAs (Decidable (segOk t seg))
  | .call c => inferInstanceAs (Decidable (callOk t c))
  | .task k calls => inferInstanceAs (Decidable (∀ task ∈ t.ioCtx[k]?, task ≠ .sendLoop →
      EventSystem.Admitted appCall callOk (t.enterTask k task) calls))

/-- A run whose events are all admissible, each in the state in which it
happens. -/
def RunOk (isn : BitVec 32) (segOk : Tcb → Segment → Prop) (callOk : Tcb → AppCall → Prop)
    (t : Tcb) (es : List Event) : Prop :=
  EventSystem.Admitted (step isn) (EventOk segOk callOk) t es

/-- An environment that admits everything. -/
theorem eventOk_of_forall {segOk : Tcb → Segment → Prop} {callOk : Tcb → AppCall → Prop}
    (hseg : ∀ t seg, segOk t seg) (hcall : ∀ t c, callOk t c) (t : Tcb) (e : Event) :
    EventOk segOk callOk t e := by
  cases e with
  | process seg => exact hseg t seg
  | call c => exact hcall t c
  | task k calls => exact fun _ _ _ => EventSystem.admitted_of_forall hcall _ _

/-- A weaker condition admits more events. -/
theorem EventOk.mono {segOk segOk' : Tcb → Segment → Prop} {callOk callOk' : Tcb → AppCall → Prop}
    (hseg : ∀ t seg, segOk t seg → segOk' t seg) (hcall : ∀ t c, callOk t c → callOk' t c)
    {t : Tcb} {e : Event} (h : EventOk segOk callOk t e) : EventOk segOk' callOk' t e := by
  cases e with
  | process seg => exact hseg t seg h
  | call c => exact hcall t c h
  | task k calls => exact fun task hk hne => (h task hk hne).mono hcall

end Tcb

end Mstack
