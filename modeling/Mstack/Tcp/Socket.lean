import Mstack.Tcp.Conservation
import Mstack.Tcp.Readers

/-!
# `socket::async_read`

`async_read_some` reads what there is; `async_read` fills a buffer.  It is a
loop through callbacks: `async_read_complete` passes `async_read_some` a lambda
that captures the span it reads into, and the lambda either is done or calls
`async_read_complete` for the rest of the span.  The last callback is given the
bytes left, and the one of `async_read` translates them into bytes done.

A `Socket` is a block with one such read.  The loop is `onReadSome`: what the
lambda does when `async_read_some` completes.  The bytes get into the buffer in
two places of the block, when the read is issued and when a segment arrives,
and the completion is posted in both.

### Main result

`async_read_exact`: for any interleaving of segments, handlers and calls, the
callback is called once, when there are `n` bytes and not before, with no error
and `n`; the buffer has the next `n` bytes of the stream, and the bytes behind
them are left for the next read.

### Outline

The invariant is `Phase`: the rest of the span waits in the block, or a part
has been copied and the lambda is about to be told, or the callback has been
called.  In each phase the front of the buffer is the front of what has
arrived.  `Phase.process`, `Phase.appCalls`, `Phase.otherTask` and
`Phase.readDone` are the moves.

That the callback **is** called needs a measure, since the lambda posts a new
completion when it reads on: `left` counts handlers and the bytes the read has
not asked for, and each turn takes at least a byte (`Phase.consumes`).
-/

namespace Mstack

/-- A `std::span<std::byte>` in the buffer of a read. -/
structure Span where
  offset : ℕ
  size : ℕ
  deriving DecidableEq, Repr

/-- `buf.subspan(nbytes)`. -/
def Span.subspan (buf : Span) (nbytes : ℕ) : Span := ⟨buf.offset + nbytes, buf.size - nbytes⟩

/-- How the lambda of `async_read_complete` ends. -/
inductive ReadTurn where
  /-- `cb(ec, nbytes_left)`. -/
  | complete (ec : Bool) (nbytesLeft : ℕ)
  /-- `async_read_complete(buf, cb)`. -/
  | again (buf : Span)
  deriving DecidableEq, Repr

/-- The lambda that `async_read_complete` passes to `async_read_some`. -/
def Span.onReadSome (buf : Span) (ec : Bool) (nbytes : ℕ) : ReadTurn :=
  if ec then .complete ec (buf.size - nbytes)
  else if ¬ nbytes < buf.size then .complete false 0
  else .again (buf.subspan nbytes)

/-- A `socket` with one `async_read`.  `cb` is the identity of the lambda,
`buf` the span it has captured, until the read is complete; `nbytesall` is what
the lambda of `async_read` has captured, `memory` the buffer, and `called` what
the callback of the application has been given. -/
structure Socket where
  tcb : Tcb
  cb : CallbackId
  buf : Option Span
  nbytesall : ℕ
  memory : List Byte
  called : List (Bool × ℕ)

namespace Socket

open EventSystem (bind_eq_ok Admitted)

/-- `std::copy_n(…, buf.begin())`. -/
def copyTo (buf : Span) (memory bytes : List Byte) : List Byte :=
  memory.take buf.offset ++ bytes ++ memory.drop (buf.offset + bytes.length)

/-- The block is `tcb` now; what it has copied for the read since went to the
span of the read. -/
def withTcb (s : Socket) (tcb : Tcb) : Socket :=
  { s with
    tcb
    memory :=
      match s.buf with
      | none => s.memory
      | some buf =>
          (tcb.trace.copied.drop s.tcb.trace.copied.length).foldl
            (fun memory copied => if copied.1 = s.cb then copyTo buf memory copied.2 else memory)
            s.memory }

/-- `async_read`, for a block with buffer `memory`. -/
def asyncRead (tcb : Tcb) (cb : CallbackId) (memory : List Byte) : Socket :=
  { tcb, cb, buf := some ⟨0, memory.length⟩, nbytesall := memory.length, memory, called := [] :
    Socket }.withTcb (tcb.asyncReadSome memory.length cb)

/-- What the lambda does in a handler, if the handler calls it.  `tcb_t` passes
it no error. -/
def turn (s : Socket) (task : Task) : Option ReadTurn :=
  match task, s.buf with
  | .readDone cb len, some buf => if cb = s.cb then some (buf.onReadSome false len) else none
  | _, _ => none

/-- The calls made in a handler: those of the application, unless the lambda
reads on. -/
def calls (s : Socket) (calls : List AppCall) : Option ReadTurn → List AppCall
  | some (.again buf) => [.read buf.size s.cb]
  | _ => calls

/-- What the lambda does to the read. -/
def settle (s : Socket) : Option ReadTurn → Socket
  | some (.again buf) => { s with buf := some buf }
  | some (.complete ec nbytesLeft) =>
      { s with buf := none, called := s.called ++ [(ec, s.nbytesall - nbytesLeft)] }
  | none => s

/-- One event of the block. -/
def step (isn : BitVec 32) (s : Socket) : Event → Except Fault Socket
  | .process seg => do return s.withTcb (← s.tcb.process isn seg)
  | .call c => do return s.withTcb (← s.tcb.appCall c)
  | .task k calls =>
      match s.tcb.ioCtx[k]? with
      | none => .ok s
      | some task => do
          let turn := s.turn task
          return (s.settle turn).withTcb
            (← (s.tcb.enterTask k task).runTask (s.calls calls turn) task)

/-- A run of events. -/
def run (isn : BitVec 32) (s : Socket) (es : List Event) : Except Fault Socket :=
  EventSystem.run (step isn) s es

/-- **What the environment does.**  Segments carry no FIN and fit the queue;
the application makes calls outside of callbacks and in those that reach it;
its writes fit, and it has at most one read outstanding. -/
def EventOk (s : Socket) : Event → Prop
  | .process seg => Tcb.FitsQueue s.tcb seg
  | .call c => Tcb.OneRead s.tcb c
  | .task k calls => ∀ task, s.tcb.ioCtx[k]? = some task → task ≠ .sendLoop →
      (∀ buf, s.turn task ≠ some (.again buf)) →
      Admitted Tcb.appCall Tcb.OneRead (s.tcb.enterTask k task) calls

/-- The application writes, but does not read. -/
def WritesOnly : Event → Prop
  | .process _ => True
  | .call c => ∃ buf cb, c = .write buf cb
  | .task _ calls => ∀ c ∈ calls, ∃ buf cb, c = .write buf cb

/-! ## The buffer

Where the bytes go. -/

section Memory

variable {s : Socket} {tcb : Tcb}

/-- Where nothing is copied, the buffer is as it was. -/
theorem withTcb_of_copied_eq (h : tcb.inbox.copied = s.tcb.inbox.copied) :
    s.withTcb tcb = { s with tcb } := by
  change tcb.trace.copied = s.tcb.trace.copied at h
  cases hbuf : s.buf <;> simp [withTcb, hbuf, h]

theorem withTcb_of_buf_none (hbuf : s.buf = none) : s.withTcb tcb = { s with tcb } := by
  simp [withTcb, hbuf]

/-- One copy for the read goes to its span. -/
theorem withTcb_of_copied {buf : Span} (bytes : List Byte) (hbuf : s.buf = some buf)
    (h : tcb.inbox.copied = s.tcb.inbox.copied ++ [(s.cb, bytes)]) :
    s.withTcb tcb = { s with tcb, memory := copyTo buf s.memory bytes } := by
  change tcb.trace.copied = s.tcb.trace.copied ++ [(s.cb, bytes)] at h
  simp [withTcb, hbuf, h]

/-- Behind the bytes that are there, the buffer is overwritten. -/
theorem copyTo_append (memory before bytes : List Byte) (size : ℕ) :
    copyTo ⟨before.length, size⟩ (before ++ memory.drop before.length) bytes =
      before ++ bytes ++ memory.drop (before.length + bytes.length) := by
  simp [copyTo, List.drop_append, List.drop_drop]

end Memory

/-! ## How far the read is

The invariant, and what each move does to it. -/

/-- What has arrived after the bytes of the read is `rest`: other reads got the
front of it, and the queue has the others.  Where the application has only
written, that is all of it. -/
def Kept (only : Prop) (rest : List Byte) (b : Tcb.Inbox) : Prop :=
  ∃ later, rest = later ++ b.pq.data ∧ (only → later = [] ∧ b.readers = [])

/-- **How far the read is** when `arrived` has arrived since it was issued for
a block with the buffer `memory`.  In each phase the front of the buffer is the
front of what has arrived.  `only` is the proposition that the application has
only written: then nobody else takes bytes out of the queue. -/
inductive Phase (only : Prop) (memory arrived : List Byte) (s : Socket) : Prop where
  /-- All that has arrived is in the buffer, and the rest of the span waits. -/
  | waits (hbuf : s.buf = some ⟨arrived.length, memory.length - arrived.length⟩)
      (hlt : arrived.length < memory.length)
      (hmemory : s.memory = arrived ++ memory.drop arrived.length) (hcalled : s.called = [])
      (hreaders : s.tcb.inbox.readers = [⟨memory.length - arrived.length, s.cb⟩])
      (hempty : s.tcb.inbox.pq.data = []) (hdones : s.tcb.inbox.completions = [])
  /-- `part` has been copied to the front of the rest, and the lambda is about
  to be told. -/
  | served (before part : List Byte)
      (hbuf : s.buf = some ⟨before.length, memory.length - before.length⟩) (hpart : part ≠ [])
      (hfit : before.length + part.length ≤ memory.length)
      (hmemory : s.memory = before ++ part ++ memory.drop (before.length + part.length))
      (hcalled : s.called = []) (hreaders : s.tcb.inbox.readers = [])
      (harrived : arrived = before ++ part ++ s.tcb.inbox.pq.data)
      (hdones : s.tcb.inbox.completions = [(s.cb, part.length)])
  /-- The callback has been called. -/
  | done (hbuf : s.buf = none) (hle : memory.length ≤ arrived.length)
      (hmemory : s.memory = arrived.take memory.length)
      (hcalled : s.called = [(false, memory.length)])
      (hkept : Kept only (arrived.drop memory.length) s.tcb.inbox)

section Phase

variable {s : Socket} {t' : Tcb} {only : Prop} {memory arrived : List Byte}

/-- The phase is read off the inbox. -/
theorem Phase.congr (h : Phase only memory arrived s) (hinbox : t'.inbox = s.tcb.inbox) :
    Phase only memory arrived (s.withTcb t') := by
  rw [withTcb_of_copied_eq (by rw [hinbox])]
  cases h with
  | waits hbuf hlt hmemory hcalled hreaders hempty hdones =>
      rw [← hinbox] at hreaders hempty hdones
      exact .waits hbuf hlt hmemory hcalled hreaders hempty hdones
  | served before part hbuf hpart hfit hmemory hcalled hreaders harrived hdones =>
      rw [← hinbox] at hreaders harrived hdones
      exact .served before part hbuf hpart hfit hmemory hcalled hreaders harrived hdones
  | done hbuf hle hmemory hcalled hkept =>
      rw [← hinbox] at hkept
      exact .done hbuf hle hmemory hcalled hkept

/-- Until the callback is called, the read is outstanding. -/
theorem Phase.outstanding (h : Phase only memory arrived s) (hbuf : s.buf ≠ none) :
    s.tcb.inbox.readers ≠ [] ∨ s.tcb.inbox.completions ≠ [] := by
  cases h with
  | waits _ _ _ _ hreaders _ _ => exact .inl (by rw [hreaders]; simp)
  | served _ _ _ _ _ _ _ _ _ hdones => exact .inr (by rw [hdones]; simp)
  | done hnone _ _ _ _ => exact (hbuf hnone).elim

/-- **Issuing a read** for the rest of the span, behind the bytes that are
there.  It waits if the queue is empty; otherwise the part is copied here and
now, and its completion is posted. -/
theorem Phase.issue {u : Tcb} (before : List Byte)
    (hbuf : s.buf = some ⟨before.length, memory.length - before.length⟩)
    (hlt : before.length < memory.length)
    (hmemory : s.memory = before ++ memory.drop before.length) (hcalled : s.called = [])
    (hcopied : u.inbox.copied = s.tcb.inbox.copied) (hreaders : u.inbox.readers = [])
    (hdones : u.inbox.completions = []) (harrived : arrived = before ++ u.inbox.pq.data)
    (ht' : t'.inbox = (u.asyncReadSome (memory.length - before.length) s.cb).inbox) :
    Phase only memory arrived (s.withTcb t') := by
  rw [Tcb.asyncReadSome_eq] at ht'
  by_cases hempty : u.rcv.pq.data = []
  · -- Nothing is buffered: the span waits.
    rw [if_pos hempty, Tcb.inbox_afterWait] at ht'
    have hall : arrived = before := by
      rw [harrived, show u.inbox.pq.data = [] from hempty, List.append_nil]
    subst hall
    rw [withTcb_of_copied_eq (by rw [ht']; exact hcopied)]
    refine .waits hbuf hlt hmemory hcalled ?_ ?_ ?_
    · change t'.inbox.readers = _
      rw [ht']
      change u.inbox.readers ++ [_] = _
      rw [hreaders, List.nil_append]
    · change t'.inbox.pq.data = _
      rw [ht']
      exact hempty
    · change t'.inbox.completions = _
      rw [ht']
      exact hdones
  · -- The front of the queue goes to the span.
    rw [if_neg hempty, Tcb.inbox_afterRead] at ht'
    have hpos := List.length_pos_of_ne_nil hempty
    have hn : min u.inbox.pq.size (memory.length - before.length) =
        (u.inbox.pq.data.take
          (min u.inbox.pq.size (memory.length - before.length))).length := by
      rw [List.length_take, CircularBuffer.size_eq]
      omega
    generalize hpart : u.inbox.pq.data.take
      (min u.inbox.pq.size (memory.length - before.length)) = part at hn
    have hlen : part.length = min u.rcv.pq.data.length (memory.length - before.length) := hn.symm
    rw [withTcb_of_copied part hbuf (by rw [ht', ← hcopied, ← hpart]; rfl), hmemory,
      copyTo_append]
    refine .served before part hbuf ?_ ?_ rfl hcalled ?_ ?_ ?_
    · exact List.ne_nil_of_length_pos (by omega)
    · omega
    · change t'.inbox.readers = _
      rw [ht']
      exact hreaders
    · change arrived = before ++ part ++ t'.inbox.pq.data
      rw [ht', harrived, List.append_assoc, ← hpart]
      exact congrArg (before ++ ·) (List.take_append_drop _ _).symm
    · change t'.inbox.completions = [(s.cb, part.length)]
      rw [ht', ← hn]
      change u.inbox.completions ++ [_] = _
      rw [hdones, List.nil_append]

/-! ### Text -/

theorem Kept.deliver {rest : List Byte} {b : Tcb.Inbox} (h : Kept only rest b) {reader : Reader}
    {readers : List Reader} (text : List Byte) (hreaders : b.readers = reader :: readers)
    (hempty : b.pq.data = []) : Kept only (rest ++ text) (b.deliver reader readers text) := by
  obtain ⟨later, hrest, honly⟩ := h
  refine ⟨later ++ text.take (min text.length reader.size), ?_, fun hon => ?_⟩
  · rw [b.deliver_data reader readers text hempty, hrest, hempty, List.append_nil, List.append_assoc,
      List.take_append_drop]
  · have hnone := (honly hon).2
    rw [hreaders] at hnone
    cases hnone

theorem Kept.append {rest : List Byte} {b : Tcb.Inbox} (h : Kept only rest b) (text : List Byte) :
    Kept only (rest ++ text) (b.append text) := by
  obtain ⟨later, hrest, honly⟩ := h
  exact ⟨later, by rw [b.append_data text, hrest, List.append_assoc], honly⟩

/-- **Text for the span**: the front of it, as much as there is room for. -/
theorem Phase.deliver {readers : List Reader} {text : List Byte}
    (hbuf : s.buf = some ⟨arrived.length, memory.length - arrived.length⟩)
    (hlt : arrived.length < memory.length)
    (hmemory : s.memory = arrived ++ memory.drop arrived.length) (hcalled : s.called = [])
    (hempty : s.tcb.inbox.pq.data = []) (hdones : s.tcb.inbox.completions = [])
    (hreaders : readers = []) (htext : 0 < text.length)
    (ht' : t'.inbox =
      s.tcb.inbox.deliver ⟨memory.length - arrived.length, s.cb⟩ readers text) :
    Phase only memory (arrived ++ text) (s.withTcb t') := by
  have hrest := s.tcb.inbox.deliver_data ⟨memory.length - arrived.length, s.cb⟩ readers text hempty
  have hn : min text.length (memory.length - arrived.length) =
      (text.take (min text.length (memory.length - arrived.length))).length := by
    rw [List.length_take]
    omega
  generalize hpart : text.take (min text.length (memory.length - arrived.length)) = part at hn
  rw [withTcb_of_copied part hbuf (by rw [ht', ← hpart]; rfl), hmemory, copyTo_append]
  refine .served arrived part hbuf ?_ (by omega) rfl hcalled ?_ ?_ ?_
  · exact List.ne_nil_of_length_pos (by omega)
  · change t'.inbox.readers = []
    rw [ht']
    exact hreaders
  · change arrived ++ text = arrived ++ part ++ t'.inbox.pq.data
    rw [ht', hrest, List.append_assoc, ← hpart, List.take_append_drop]
  · change t'.inbox.completions = [(s.cb, part.length)]
    rw [ht', ← hn]
    change s.tcb.inbox.completions ++ [_] = _
    rw [hdones, List.nil_append]

/-- Text behind the bytes of a read that is done. -/
theorem Phase.behind {text : List Byte} (hbuf : s.buf = none)
    (hle : memory.length ≤ arrived.length) (hmemory : s.memory = arrived.take memory.length)
    (hcalled : s.called = [(false, memory.length)])
    (hkept : Kept only (arrived.drop memory.length ++ text) t'.inbox) :
    Phase only memory (arrived ++ text) (s.withTcb t') := by
  rw [withTcb_of_buf_none hbuf]
  refine .done hbuf ?_ ?_ hcalled ?_
  · rw [List.length_append]
    omega
  · rw [List.take_append_of_le_length hle]
    exact hmemory
  · rw [List.drop_append_of_le_length hle]
    exact hkept

/-- **An arriving segment.**  If its text is taken, it goes to the span, or
into the queue behind what the lambda has not been told of yet, or it is none
of the read's business. -/
theorem Phase.process {isn : BitVec 32} {seg : Segment} (h : Phase only memory arrived s)
    (hprocess : s.tcb.process isn seg = .ok t') :
    ∃ texts, t'.trace.acceptedText = s.tcb.trace.acceptedText ++ texts ∧
      Phase only memory (arrived ++ texts.flatten) (s.withTcb t') := by
  rcases Tcb.process_inbox hprocess with
    ⟨-, ht'⟩ | ⟨htakes, reader, readers, hreaders, hempty, ht'⟩ | ⟨htakes, hreaders, -, ht'⟩
  · refine ⟨[], ?_, ?_⟩
    · rw [List.append_nil]
      exact congrArg Tcb.Inbox.acceptedText ht'
    · rw [List.flatten_nil, List.append_nil]
      exact h.congr ht'
  · -- The oldest reader takes the text; that is this read, unless it is over.
    refine ⟨[seg.text], congrArg Tcb.Inbox.acceptedText ht', ?_⟩
    rw [List.flatten_singleton]
    cases h with
    | waits hbuf hlt hmemory hcalled hwaits _ hdones =>
        obtain ⟨rfl, hnil⟩ := List.cons.inj (hreaders.symm.trans hwaits)
        exact .deliver hbuf hlt hmemory hcalled hempty hdones hnil htakes.guarded.text ht'
    | served _ _ _ _ _ _ _ hnone _ _ =>
        cases hreaders.symm.trans hnone
    | done hbuf hle hmemory hcalled hkept =>
        refine .behind hbuf hle hmemory hcalled ?_
        rw [ht']
        exact hkept.deliver seg.text hreaders hempty
  · -- Nobody waits, so the text is buffered behind the rest.
    refine ⟨[seg.text], congrArg Tcb.Inbox.acceptedText ht', ?_⟩
    rw [List.flatten_singleton]
    cases h with
    | waits _ _ _ _ hwaits _ _ =>
        cases hreaders.symm.trans hwaits
    | served before part hbuf hpart hfit hmemory hcalled hnone harrived hdones =>
        rw [withTcb_of_copied_eq (by rw [ht']; rfl)]
        refine .served before part hbuf hpart hfit hmemory hcalled ?_ ?_ ?_
        · change t'.inbox.readers = []
          rw [ht']
          exact hnone
        · change arrived ++ seg.text = before ++ part ++ t'.inbox.pq.data
          rw [ht', Tcb.Inbox.append_data, harrived, List.append_assoc _ _ seg.text]
        · change t'.inbox.completions = _
          rw [ht']
          exact hdones
    | done hbuf hle hmemory hcalled hkept =>
        refine .behind hbuf hle hmemory hcalled ?_
        rw [ht']
        exact hkept.append seg.text

/-! ### Calls -/

/-- While the read is outstanding the application makes no other, and nothing
else touches the inbox. -/
theorem inbox_appCalls_of_outstanding {u u' : Tcb} {calls : List AppCall}
    (hout : ¬ Tcb.NoReadOutstanding u) (hok : Admitted Tcb.appCall Tcb.OneRead u calls)
    (hcalls : u.appCalls calls = .ok u') : u'.inbox = u.inbox := by
  refine EventSystem.run_invariant (P := fun v => v.inbox = u.inbox) ?_ rfl hok hcalls
  intro v c v' hv hcok hcall
  have hvout : ¬ Tcb.NoReadOutstanding v := by
    rw [Tcb.noReadOutstanding_iff] at hout ⊢
    rwa [hv]
  cases Tcb.appCall_cases hcall with
  | waits size cb hempty => exact (hvout hcok).elim
  | reads size cb hdata => exact (hvout hcok).elim
  | writes buf cb pq hpq hfit => rw [Tcb.inbox_afterWrite, hv]

/-- Other reads take the front of what is left. -/
theorem Kept.appCall {rest : List Byte} {u u' : Tcb} {c : AppCall} (h : Kept only rest u.inbox)
    (honly : only → ∃ buf cb, c = .write buf cb) (hcall : u.appCall c = .ok u') :
    Kept only rest u'.inbox := by
  obtain ⟨later, hrest, hkept⟩ := h
  cases Tcb.appCall_cases hcall with
  | waits size cb hempty =>
      refine ⟨later, hrest, fun hon => ?_⟩
      obtain ⟨buf, cb', hc⟩ := honly hon
      cases hc
  | reads size cb hdata =>
      refine ⟨later ++ u.rcv.pq.data.take (min u.rcv.pq.size size), ?_, fun hon => ?_⟩
      · rw [hrest, List.append_assoc, Tcb.inbox_afterRead]
        exact congrArg (later ++ ·) (List.take_append_drop _ _).symm
      · obtain ⟨buf, cb', hc⟩ := honly hon
        cases hc
  | writes buf cb pq hpq hfit =>
      rw [Tcb.inbox_afterWrite]
      exact ⟨later, hrest, hkept⟩

theorem Kept.appCalls {rest : List Byte} {u u' : Tcb} {calls : List AppCall}
    (h : Kept only rest u.inbox) (honly : only → ∀ c ∈ calls, ∃ buf cb, c = .write buf cb)
    (hcalls : u.appCalls calls = .ok u') : Kept only rest u'.inbox := by
  have hadm : Admitted Tcb.appCall (fun _ c => only → ∃ buf cb, c = .write buf cb) u calls :=
    EventSystem.admitted_of_mem (fun c hc _ hon => honly hon c hc) u
  exact EventSystem.run_invariant (P := fun v => Kept only rest v.inbox)
    (fun v c v' hv hcok hcall => hv.appCall hcok hcall) h hadm hcalls

/-- **Calls of the application**, from a block with the same inbox. -/
theorem Phase.appCalls {u : Tcb} {calls : List AppCall} (h : Phase only memory arrived s)
    (hu : u.inbox = s.tcb.inbox) (hok : Admitted Tcb.appCall Tcb.OneRead u calls)
    (honly : only → ∀ c ∈ calls, ∃ buf cb, c = .write buf cb)
    (hcalls : u.appCalls calls = .ok t') : Phase only memory arrived (s.withTcb t') := by
  by_cases hnone : s.buf = none
  · cases h with
    | waits hbuf _ _ _ _ _ _ => cases hnone.symm.trans hbuf
    | served _ _ hbuf _ _ _ _ _ _ _ => cases hnone.symm.trans hbuf
    | done hbuf hle hmemory hcalled hkept =>
        rw [withTcb_of_buf_none hbuf]
        rw [← hu] at hkept
        exact .done hbuf hle hmemory hcalled (hkept.appCalls honly hcalls)
  · refine h.congr ((inbox_appCalls_of_outstanding ?_ hok hcalls).trans hu)
    rw [Tcb.noReadOutstanding_iff, hu]
    rintro ⟨hreaders, hdones⟩
    exact (h.outstanding hnone).elim (· hreaders) (· hdones)

/-! ### Handlers -/

/-- A handler that completes no read. -/
theorem Phase.otherTask {k : ℕ} {task : Task} {calls : List AppCall}
    (h : Phase only memory arrived s) (hk : s.tcb.ioCtx[k]? = some task)
    (htask : Tcb.readDones [task] = [])
    (hok : task ≠ .sendLoop →
      Admitted Tcb.appCall Tcb.OneRead (s.tcb.enterTask k task) calls)
    (honly : only → ∀ c ∈ calls, ∃ buf cb, c = .write buf cb)
    (hrun : (s.tcb.enterTask k task).runTask calls task = .ok t') :
    Phase only memory arrived (s.withTcb t') := by
  have hinbox := Tcb.inbox_enterTask hk htask
  cases task with
  | connectionEstablished => exact h.appCalls hinbox (hok nofun) honly hrun
  | writeDone cb len => exact h.appCalls hinbox (hok nofun) honly hrun
  | readDone cb len => cases htask
  | sendLoop =>
      refine h.congr (Tcb.sendLoop_preserves (P := fun u => u.inbox = s.tcb.inbox) ?_ hinbox hrun)
      exact fun u pq hu _ => (Tcb.inbox_afterPacket u pq).trans hu

/-- The lambda is told of a part and the span has room for more: it reads on. -/
theorem Phase.readsOn {u : Tcb} {before part : List Byte}
    (hfit : before.length + part.length < memory.length)
    (hmemory : s.memory = before ++ part ++ memory.drop (before.length + part.length))
    (hcalled : s.called = []) (hreaders : s.tcb.inbox.readers = [])
    (harrived : arrived = before ++ part ++ s.tcb.inbox.pq.data)
    (hu : u.inbox = { s.tcb.inbox with completions := [] })
    (ht' : t'.inbox = (u.asyncReadSome (memory.length - (before ++ part).length) s.cb).inbox) :
    Phase only memory arrived ((s.settle (some (.again
      ⟨(before ++ part).length, memory.length - (before ++ part).length⟩))).withTcb t') := by
  rw [← List.length_append] at hfit hmemory
  refine Phase.issue (before ++ part) rfl hfit hmemory hcalled ?_ ?_ ?_ ?_ ht'
  · rw [hu]; rfl
  · rw [hu]; exact hreaders
  · rw [hu]
  · rw [hu]; exact harrived

/-- The part fills the span: the callback is called, and what the application
does there is up to the application. -/
theorem Phase.finishes {before part : List Byte}
    (hfull : memory.length = (before ++ part).length)
    (hmemory : s.memory = before ++ part ++ memory.drop (before.length + part.length))
    (hall : s.nbytesall = memory.length) (hcalled : s.called = [])
    (harrived : arrived = before ++ part ++ s.tcb.inbox.pq.data)
    (hkept : Kept only s.tcb.inbox.pq.data t'.inbox) :
    Phase only memory arrived ((s.settle (some (.complete false 0))).withTcb t') := by
  rw [settle, withTcb_of_buf_none rfl]
  refine .done rfl ?_ ?_ ?_ ?_
  · rw [harrived, hfull]
    exact (List.prefix_append _ _).length_le
  · change s.memory = _
    rw [hmemory, harrived, hfull, List.take_left, ← List.length_append, ← hfull, List.drop_length,
      List.append_nil]
  · change s.called ++ [(false, s.nbytesall - 0)] = _
    rw [hcalled, hall]
    rfl
  · rw [harrived, hfull, List.drop_left]
    exact hkept

/-- **The lambda is told of a part.**  It fills the span, and the callback is
called; or the lambda reads on.  No other read is outstanding, so a completion
that is posted before the callback is the lambda's own. -/
theorem Phase.readDone {k : ℕ} {cb : CallbackId} {len : ℕ} {calls : List AppCall}
    (h : Phase only memory arrived s) (hk : s.tcb.ioCtx[k]? = some (.readDone cb len))
    (hall : s.nbytesall = memory.length)
    (honly : only → ∀ c ∈ calls, ∃ buf cb, c = .write buf cb)
    (hrun : (s.tcb.enterTask k (.readDone cb len)).runTask
      (s.calls calls (s.turn (.readDone cb len))) (.readDone cb len) = .ok t') :
    Phase only memory arrived ((s.settle (s.turn (.readDone cb len))).withTcb t') := by
  obtain ⟨v, hv, hsend⟩ := bind_eq_ok.mp hrun
  obtain ⟨pq, -, rfl⟩ := Tcb.makeAndSendPkt_ok.mp hsend
  cases h with
  | waits _ _ _ _ _ _ hdones =>
      -- Nothing is posted for a span that waits.
      have hmem : (cb, len) ∈ s.tcb.inbox.completions :=
        Tcb.mem_readDones.mpr (List.mem_of_getElem? hk)
      rw [hdones] at hmem
      cases hmem
  | served before part hbuf hpart hfit hmemory hcalled hreaders harrived hdones =>
      obtain ⟨rfl, rfl, hinbox⟩ := Tcb.inbox_enterTask_readDone hk hdones
      have hturn : s.turn (.readDone s.cb part.length) = some (Span.onReadSome
          ⟨before.length, memory.length - before.length⟩ false part.length) := by
        simp [turn, hbuf]
      by_cases hmore : part.length < memory.length - before.length
      · -- The span is not full: the lambda reads on behind the part.
        have hagain : s.turn (.readDone s.cb part.length) =
            some (.again ⟨(before ++ part).length, memory.length - (before ++ part).length⟩) := by
          rw [hturn, List.length_append]
          simp [Span.onReadSome, hmore, Span.subspan, Nat.sub_sub]
        rw [hagain] at hv ⊢
        cases hv
        exact .readsOn (by omega) hmemory hcalled hreaders harrived hinbox
          (Tcb.inbox_afterPacket _ pq)
      · have hcomplete : s.turn (.readDone s.cb part.length) = some (.complete false 0) := by
          rw [hturn]
          simp [Span.onReadSome, hmore]
        rw [hcomplete] at hv ⊢
        refine .finishes ?_ hmemory hall hcalled harrived ?_
        · rw [List.length_append]
          omega
        · rw [Tcb.inbox_afterPacket]
          refine Kept.appCalls ⟨[], ?_, fun _ => ⟨rfl, ?_⟩⟩ honly hv
          · rw [hinbox, List.nil_append]
          · rw [hinbox]
            exact hreaders
  | done hbuf hle hmemory hcalled hkept =>
      -- The callback has been called; what completes now is a later read.
      have hturn : s.turn (.readDone cb len) = none := by simp [turn, hbuf]
      rw [hturn] at hv ⊢
      rw [settle, withTcb_of_buf_none hbuf]
      refine .done hbuf hle hmemory hcalled ?_
      change Kept only _ (v.afterPacket pq).inbox
      rw [Tcb.inbox_afterPacket]
      refine Kept.appCalls ?_ honly hv
      simpa [Kept, Tcb.inbox] using hkept

/-- Only the lambda of the read has a turn. -/
theorem turn_cases {task : Task} {turn : ReadTurn} (h : s.turn task = some turn) :
    ∃ len buf, task = .readDone s.cb len ∧ s.buf = some buf ∧ turn = buf.onReadSome false len := by
  cases task with
  | readDone cb len =>
      cases hbuf : s.buf with
      | none => simp [Socket.turn, hbuf] at h
      | some buf =>
          simp only [Socket.turn, hbuf] at h
          split at h
          · rename_i hcb
            cases h
            exact ⟨len, buf, by rw [hcb], rfl, rfl⟩
          · cases h
  | _ => simp [Socket.turn] at h

/-- A completion that is posted before the callback is called is for at least
one byte of the span. -/
theorem Phase.consumes (h : Phase only memory arrived s) {cb : CallbackId} {len : ℕ} {buf : Span}
    (hmem : .readDone cb len ∈ s.tcb.ioCtx) (hbuf : s.buf = some buf) :
    cb = s.cb ∧ 0 < len ∧ len ≤ buf.size := by
  have hdone : (cb, len) ∈ s.tcb.inbox.completions := Tcb.mem_readDones.mpr hmem
  cases h with
  | waits _ _ _ _ _ _ hdones =>
      rw [hdones] at hdone
      cases hdone
  | served before part hbuf' hpart hfit _ _ _ _ hdones =>
      rw [hdones, List.mem_singleton] at hdone
      obtain ⟨rfl, rfl⟩ := Prod.mk.inj hdone
      cases hbuf.symm.trans hbuf'
      exact ⟨rfl, List.length_pos_of_ne_nil hpart, Nat.le_sub_of_add_le' hfit⟩
  | done hnone _ _ _ _ => cases hnone.symm.trans hbuf

/-- Where the lambda reads on, no other read is outstanding, and what it reads
is shorter. -/
theorem Phase.again (h : Phase only memory arrived s) {k : ℕ} {task : Task} {rest : Span}
    (hk : s.tcb.ioCtx[k]? = some task) (hturn : s.turn task = some (.again rest)) :
    Tcb.NoReadOutstanding (s.tcb.enterTask k task) ∧
      ∃ buf, s.buf = some buf ∧ 0 < rest.size ∧ rest.size < buf.size := by
  obtain ⟨len, buf, rfl, hbuf, hrest⟩ := turn_cases hturn
  obtain ⟨-, hpos, hle⟩ := h.consumes (List.mem_of_getElem? hk) hbuf
  refine ⟨?_, buf, hbuf, ?_⟩
  · rw [Tcb.noReadOutstanding_iff]
    cases h with
    | waits _ _ _ _ _ _ hdones =>
        have hmem : (s.cb, len) ∈ s.tcb.inbox.completions :=
          Tcb.mem_readDones.mpr (List.mem_of_getElem? hk)
        rw [hdones] at hmem
        cases hmem
    | served before part _ _ _ _ _ hreaders _ hdones =>
        obtain ⟨-, rfl, hinbox⟩ := Tcb.inbox_enterTask_readDone hk hdones
        rw [hinbox]
        exact ⟨hreaders, rfl⟩
    | done hnone _ _ _ _ => cases hnone.symm.trans hbuf
  · simp only [Span.onReadSome, Bool.false_eq_true, if_false] at hrest
    split at hrest
    · cases hrest
    · cases hrest
      simp only [Span.subspan]
      omega

end Phase

/-! ## Runs

Every admissible run goes through. -/

/-- The invariant of a read that was issued for `t₀` and the buffer `memory`. -/
structure Reads (only : Prop) (memory : List Byte) (t₀ : Tcb) (s : Socket) : Prop where
  ready : Tcb.Ready s.tcb
  nbytesall : s.nbytesall = memory.length
  phase : ∃ texts, s.tcb.trace.acceptedText = t₀.trace.acceptedText ++ texts ∧
    Phase only memory (t₀.rcv.pq.data ++ texts.flatten) s

theorem settle_nbytesall (s : Socket) (turn : Option ReadTurn) :
    (s.settle turn).nbytesall = s.nbytesall := by
  rcases turn with _ | _ | _ <;> rfl

theorem asyncReadSome_acceptedText (t : Tcb) (size : ℕ) (cb : CallbackId) :
    (t.asyncReadSome size cb).trace.acceptedText = t.trace.acceptedText := by
  rw [Tcb.asyncReadSome_eq]
  split <;> rfl

/-- **A read is issued** for a block in ESTABLISHED with no other read
outstanding. -/
theorem reads_asyncRead {t₀ : Tcb} {cb : CallbackId} {only : Prop} {memory : List Byte}
    (hready : Tcb.Ready t₀) (hno : Tcb.NoReadOutstanding t₀) (hmemory : memory ≠ []) :
    Reads only memory t₀ (asyncRead t₀ cb memory) := by
  obtain ⟨hreaders, hdones⟩ := Tcb.noReadOutstanding_iff.mp hno
  obtain ⟨t, ht, hready'⟩ := hready.appCall (c := .read memory.length cb) hno
  cases ht
  refine ⟨hready', rfl, [], ?_, ?_⟩
  · rw [List.append_nil]
    exact asyncReadSome_acceptedText t₀ memory.length cb
  · rw [List.flatten_nil, List.append_nil]
    exact .issue (u := t₀) [] rfl (List.length_pos_of_ne_nil hmemory) rfl rfl rfl hreaders hdones
      rfl rfl

section Reads

variable {isn : BitVec 32} {s s' : Socket} {only : Prop} {memory : List Byte} {t₀ : Tcb}

theorem Reads.process {seg : Segment} (h : Reads only memory t₀ s)
    (hok : Tcb.FitsQueue s.tcb seg) :
    ∃ s', s.step isn (.process seg) = .ok s' ∧ Reads only memory t₀ s' := by
  obtain ⟨t', ht', hready⟩ := h.ready.process hok
  obtain ⟨texts, htexts, hphase⟩ := h.phase
  obtain ⟨more, hmore, hphase'⟩ := hphase.process ht'
  refine ⟨s.withTcb t', by rw [Socket.step, ht']; rfl, hready, h.nbytesall, texts ++ more, ?_, ?_⟩
  · change t'.trace.acceptedText = _
    rw [hmore, htexts, List.append_assoc]
  · rwa [List.flatten_append, ← List.append_assoc]

/-- A handler, after which the block is `t'`. -/
theorem Reads.task {k : ℕ} {task : Task} {calls : List AppCall} (h : Reads only memory t₀ s)
    (hk : s.tcb.ioCtx[k]? = some task) (hok : s.EventOk (.task k calls))
    (honly : only → WritesOnly (.task k calls)) :
    ∃ t', (s.tcb.enterTask k task).runTask (s.calls calls (s.turn task)) task = .ok t' ∧
      Reads only memory t₀ ((s.settle (s.turn task)).withTcb t') := by
  obtain ⟨texts, htexts, hphase⟩ := h.phase
  have hadm : Tcb.EventOk Tcb.FitsQueue Tcb.OneRead s.tcb
      (.task k (s.calls calls (s.turn task))) := by
    intro task' hk' hne
    obtain rfl : task' = task := Option.some.inj (hk'.symm.trans hk)
    cases hturn : s.turn task' with
    | none => exact hok task' hk hne (by rw [hturn]; nofun)
    | some turn =>
        cases turn with
        | complete ec left => exact hok task' hk hne (by rw [hturn]; nofun)
        | again rest => exact .single (hphase.again hk hturn).1
  obtain ⟨t', ht', hready⟩ : ∃ t', Tcb.step 0 s.tcb (.task k (s.calls calls (s.turn task))) =
      .ok t' ∧ Tcb.Ready t' := Tcb.step_ready h.ready hadm
  have haccepted := h.ready.toOpen.step_accepted ht'
  rw [Tcb.step_task_some _ hk] at ht'
  refine ⟨t', ht', hready, ?_, texts, ?_, ?_⟩
  · rw [withTcb, settle_nbytesall]
    exact h.nbytesall
  · change t'.trace.acceptedText = _
    rw [haccepted, htexts]
    exact List.append_nil _
  · -- Only a read completion has a turn for the lambda.
    cases task with
    | readDone cb len => exact hphase.readDone hk h.nbytesall honly ht'
    | connectionEstablished =>
        exact hphase.otherTask hk rfl (fun hne => hok _ hk hne nofun) honly ht'
    | writeDone cb len =>
        exact hphase.otherTask hk rfl (fun hne => hok _ hk hne nofun) honly ht'
    | sendLoop => exact hphase.otherTask hk rfl (fun hne => (hne rfl).elim) honly ht'

/-- A handler takes no text. -/
theorem Reads.task_accepted {k : ℕ} {calls : List AppCall} (h : Reads only memory t₀ s)
    (hstep : s.step isn (.task k calls) = .ok s') :
    s'.tcb.trace.acceptedText = s.tcb.trace.acceptedText := by
  cases hk : s.tcb.ioCtx[k]? with
  | none =>
      rw [Socket.step, hk] at hstep
      cases hstep
      rfl
  | some task =>
      rw [Socket.step, hk] at hstep
      obtain ⟨t', ht', hs'⟩ := bind_eq_ok.mp hstep
      cases hs'
      have hrun : Tcb.step isn s.tcb (.task k _) = .ok t' := (Tcb.step_task_some _ hk).trans ht'
      exact (h.ready.toOpen.step_accepted hrun).trans (List.append_nil _)

/-- **One event.**  Admissible events do not abort, by `Tcb.Ready`, and the
phase follows them. -/
theorem Reads.step {e : Event} (h : Reads only memory t₀ s) (hok : s.EventOk e)
    (honly : only → WritesOnly e) : ∃ s', s.step isn e = .ok s' ∧ Reads only memory t₀ s' := by
  cases e with
  | process seg => exact h.process hok
  | call c =>
      obtain ⟨texts, htexts, hphase⟩ := h.phase
      obtain ⟨t', ht', hready⟩ := h.ready.appCall hok
      have haccepted : t'.trace.acceptedText = s.tcb.trace.acceptedText := by
        cases Tcb.appCall_cases ht' <;> rfl
      have hcalls : s.tcb.appCalls [c] = .ok t' := by
        rw [Tcb.appCalls, EventSystem.run_cons, ht']
        rfl
      refine ⟨s.withTcb t', by rw [Socket.step, ht']; rfl, hready, h.nbytesall, texts,
        haccepted.trans htexts, ?_⟩
      have hadm : Admitted Tcb.appCall Tcb.OneRead s.tcb [c] := .single hok
      refine hphase.appCalls rfl hadm ?_ hcalls
      intro hon c' hc'
      rw [List.mem_singleton.mp hc']
      exact honly hon
  | task k calls =>
      cases hk : s.tcb.ioCtx[k]? with
      | none => exact ⟨s, by rw [Socket.step, hk], h⟩
      | some task =>
          obtain ⟨t', ht', hreads⟩ := h.task hk hok honly
          exact ⟨_, by rw [Socket.step, hk]; simp only [ht']; rfl, hreads⟩

/-! ### The posted handlers run out -/

/-- What is left to run: the handlers, and the bytes the read has not asked for
yet. -/
def left (s : Socket) : ℕ := s.tcb.ioCtx.length + s.buf.elim 0 Span.size

/-- Where the application makes no call, a handler posts nothing. -/
theorem runTask_nil_ioCtx {u u' : Tcb} {task : Task} (h : u.runTask [] task = .ok u') :
    u'.ioCtx = u.ioCtx := by
  cases task with
  | connectionEstablished =>
      cases h
      rfl
  | writeDone cb len =>
      cases h
      rfl
  | readDone cb len =>
      obtain ⟨v, hv, hsend⟩ := bind_eq_ok.mp h
      obtain ⟨pq, -, rfl⟩ := Tcb.makeAndSendPkt_ok.mp hsend
      cases hv
      rfl
  | sendLoop =>
      exact Tcb.sendLoop_preserves (P := fun v => v.ioCtx = u.ioCtx) (fun v pq hv _ => hv) rfl h

theorem asyncReadSome_ioCtx_le (t : Tcb) (size : ℕ) (cb : CallbackId) :
    (t.asyncReadSome size cb).ioCtx.length ≤ t.ioCtx.length + 1 := by
  rw [Tcb.asyncReadSome_eq]
  split
  · exact Nat.le_succ _
  · simp [Tcb.afterRead]

/-- **A handler makes what is left smaller**: it is gone, and where the lambda
reads on, which posts one more, the rest is shorter. -/
theorem Reads.step_left (h : Reads only memory t₀ s) (hne : s.tcb.ioCtx ≠ [])
    (hstep : s.step isn (.task 0 []) = .ok s') : s'.left < s.left := by
  obtain ⟨texts, -, hphase⟩ := h.phase
  obtain ⟨task, hk⟩ : ∃ task, s.tcb.ioCtx[0]? = some task :=
    ⟨_, List.getElem?_eq_getElem (List.length_pos_of_ne_nil hne)⟩
  rw [Socket.step, hk] at hstep
  obtain ⟨t', ht', hs'⟩ := bind_eq_ok.mp hstep
  cases hs'
  have hpos := List.length_pos_of_ne_nil hne
  have herase : (s.tcb.enterTask 0 task).ioCtx.length + 1 = s.tcb.ioCtx.length := by
    rw [Tcb.enterTask_ioCtx, List.length_eraseIdx_of_lt hpos]
    omega
  change t'.ioCtx.length + (s.settle (s.turn task)).buf.elim 0 Span.size < s.left
  rw [left]
  cases hturn : s.turn task with
  | none =>
      rw [hturn] at ht'
      rw [runTask_nil_ioCtx ht', settle]
      omega
  | some turn =>
      obtain ⟨len, buf, rfl, hbuf, -⟩ := turn_cases hturn
      rw [hturn] at ht'
      cases turn with
      | complete ec nbytesLeft =>
          rw [runTask_nil_ioCtx ht', settle, hbuf]
          simp only [Option.elim_none, Option.elim_some]
          omega
      | again rest =>
          obtain ⟨-, buf', hbuf', -, hlt⟩ := hphase.again hk hturn
          obtain ⟨v, hv, hsend⟩ := bind_eq_ok.mp ht'
          obtain ⟨pq, -, rfl⟩ := Tcb.makeAndSendPkt_ok.mp hsend
          cases hv
          have hposts := asyncReadSome_ioCtx_le (s.tcb.enterTask 0 (.readDone s.cb len)) rest.size
            s.cb
          rw [hbuf', settle]
          change (Tcb.asyncReadSome _ rest.size s.cb).ioCtx.length + rest.size < _ + buf'.size
          omega

/-- Nothing is asked of a handler in which the application makes no call. -/
theorem eventOk_task_nil (s : Socket) (k : ℕ) : s.EventOk (.task k []) :=
  fun _ _ _ _ => EventSystem.admitted_nil _ _ _

theorem writesOnly_task_nil (k : ℕ) : WritesOnly (.task k []) := nofun

/-- **The loop runs until nothing is posted.**  By induction on `left`.  Only
handlers are run, in turn, and the application makes no call in them. -/
theorem Reads.drains (h : Reads only memory t₀ s) :
    ∃ m s', run isn s (List.replicate m (.task 0 [])) = .ok s' ∧ s'.tcb.ioCtx = [] ∧
      s'.tcb.trace.acceptedText = s.tcb.trace.acceptedText ∧ Reads only memory t₀ s' := by
  induction hleft : s.left using Nat.strong_induction_on generalizing s with
  | _ left ih =>
      by_cases hnil : s.tcb.ioCtx = []
      · exact ⟨0, s, rfl, hnil, rfl, h⟩
      · obtain ⟨s₁, hs₁, h₁⟩ : ∃ s₁, s.step isn (.task 0 []) = .ok s₁ ∧
            Reads only memory t₀ s₁ :=
          h.step (eventOk_task_nil s 0) fun _ => writesOnly_task_nil 0
        obtain ⟨m, s', hrun, hdone, haccepted, h'⟩ :=
          ih s₁.left (hleft ▸ h.step_left hnil hs₁) h₁ rfl
        refine ⟨m + 1, s', ?_, hdone, ?_, h'⟩
        · rw [List.replicate_succ, run, EventSystem.run_cons, hs₁]
          exact hrun
        · rw [haccepted, h.task_accepted hs₁]

end Reads

/-! ## Exactly `n` bytes

The invariant, read as a statement on the callback. -/

/-- **A read of exactly as many bytes as `memory` has**, when `arrived` has
arrived. -/
structure ReadsExactly (only : Prop) (memory arrived : List Byte) (s : Socket) : Prop where
  /-- Before there are enough bytes, the callback is not called. -/
  early : arrived.length < memory.length → s.called = []
  /-- When there are, and no completion is posted, it has been. -/
  due : memory.length ≤ arrived.length → (∀ cb len, .readDone cb len ∉ s.tcb.ioCtx) →
    s.called ≠ []
  /-- It is called once, with no error and all the bytes. -/
  once : s.called = [] ∨ s.called = [(false, memory.length)]
  /-- By then the buffer has the next bytes, and the later ones are left for
  the next read. -/
  bytes : s.called ≠ [] → s.memory = arrived.take memory.length ∧
    Kept only (arrived.drop memory.length) s.tcb.inbox
  /-- Until then a read that completes has taken a byte at least, and what the
  lambda reads next is not empty and shorter than what it read before. -/
  consumes : s.called = [] → ∃ buf, s.buf = some buf ∧ 0 < buf.size ∧
    ∀ cb len, .readDone cb len ∈ s.tcb.ioCtx → cb = s.cb ∧ 0 < len ∧ len ≤ buf.size

theorem Phase.readsExactly {s : Socket} {only : Prop} {memory arrived : List Byte}
    (h : Phase only memory arrived s) : ReadsExactly only memory arrived s := by
  have hconsumes : ∀ buf, s.buf = some buf → ∀ cb len, .readDone cb len ∈ s.tcb.ioCtx →
      cb = s.cb ∧ 0 < len ∧ len ≤ buf.size :=
    fun buf hbuf cb len hmem => h.consumes hmem hbuf
  cases h with
  | waits hbuf hlt hmemory hcalled hreaders hempty hdones =>
      refine ⟨fun _ => hcalled, fun hle => absurd hle (by omega), .inl hcalled,
        fun hne => (hne hcalled).elim,
        fun _ => ⟨_, hbuf, Nat.sub_pos_of_lt hlt, hconsumes _ hbuf⟩⟩
  | served before part hbuf hpart hfit hmemory hcalled hreaders harrived hdones =>
      have hpos := List.length_pos_of_ne_nil hpart
      refine ⟨fun _ => hcalled, fun _ hno => ?_, .inl hcalled, fun hne => (hne hcalled).elim,
        fun _ => ⟨_, hbuf, Nat.sub_pos_of_lt (by omega), hconsumes _ hbuf⟩⟩
      refine (hno s.cb part.length (Tcb.mem_readDones.mp ?_)).elim
      change _ ∈ s.tcb.inbox.completions
      rw [hdones]
      exact List.mem_singleton_self _
  | done hbuf hle hmemory hcalled hkept =>
      have hne : s.called ≠ [] := by rw [hcalled]; simp
      exact ⟨fun hlt => absurd hlt (by omega), fun _ _ => hne, .inr hcalled,
        fun _ => ⟨hmemory, hkept⟩, fun hnil => (hne hnil).elim⟩

/-- **`async_read` reads exactly `n` bytes.**  A read into a buffer of `n ≥ 1`
bytes is issued for a block that has come to ESTABLISHED in any way and has no
read outstanding.  Then come segments without FIN that fit the queue, posted
handlers in any order and calls of the application, with at most one read
outstanding.  Every such run goes through, and what is in the queue at the
start followed by the texts taken since has been read exactly: the callback is
not called before there are `n` bytes, and then once, with no error and `n`;
the buffer has the first `n` of them, and the others are left for the next
read, in `rcv_.pq` where the application has only written.  A step of the
recursion takes at least a byte, and the handlers that are posted run out: then
the callback has been called if there are `n` bytes. -/
theorem async_read_exact {isn : BitVec 32} {t t₀ : Tcb} {past es : List Event} {cb : CallbackId}
    {memory : List Byte} (hopened : Tcb.Opened isn t) (hpast : Tcb.run isn t past = .ok t₀)
    (hstate : t₀.state = .established) (hno : Tcb.NoReadOutstanding t₀) (hmemory : memory ≠ [])
    (hok : Admitted (step isn) EventOk (asyncRead t₀ cb memory) es) :
    ∃ s texts, run isn (asyncRead t₀ cb memory) es = .ok s ∧
      s.tcb.trace.acceptedText = t₀.trace.acceptedText ++ texts ∧
      ReadsExactly (∀ e ∈ es, WritesOnly e) memory (t₀.rcv.pq.data ++ texts.flatten) s ∧
      ∃ m s', run isn s (List.replicate m (.task 0 [])) = .ok s' ∧ s'.tcb.ioCtx = [] ∧
        s'.tcb.trace.acceptedText = s.tcb.trace.acceptedText ∧
        ReadsExactly (∀ e ∈ es, WritesOnly e) memory (t₀.rcv.pq.data ++ texts.flatten) s' := by
  have hcontrolled : Tcb.Controlled t₀ := EventSystem.run_invariant (P := Tcb.Controlled)
    (fun _ _ _ hc _ hstep => Tcb.step_controlled hc hstep) hopened.controlled
    (EventSystem.admitted_of_forall (fun _ _ => trivial) t past) hpast
  have hready : Tcb.Ready t₀ := ⟨⟨hcontrolled, .inl hstate⟩, hstate, .of_nil hno.1⟩
  have hadm := hok.and (EventSystem.admitted_of_mem
    (fun e he _ (hon : ∀ e ∈ es, WritesOnly e) => hon e he) _)
  obtain ⟨s, hrun, h⟩ := EventSystem.run_total
    (fun s e hs (hoke : _ ∧ _) => hs.step hoke.1 hoke.2)
    (reads_asyncRead hready hno hmemory) hadm
  obtain ⟨texts, htexts, hphase⟩ := h.phase
  obtain ⟨m, s', hdrain, hdone, haccepted, h'⟩ : ∃ m s', run isn s _ = .ok s' ∧ _ := h.drains
  obtain ⟨texts', htexts', hphase'⟩ := h'.phase
  obtain rfl : texts' = texts := by
    rw [haccepted, htexts] at htexts'
    exact (List.append_cancel_left htexts').symm
  exact ⟨s, texts', hrun, htexts, hphase.readsExactly, m, s', hdrain, hdone, haccepted,
    hphase'.readsExactly⟩

/-- Text at 102. -/
def textAt102 (text : List Byte) : Event :=
  .process ⟨{ TcpHeader.bare with ACK := true, seqNo := 102, ackNo := 8 }, [], text⟩

/-- A byte, three bytes, and the handler behind each. -/
def fourBytes : List Event :=
  [Tcb.textAt101 [0x61], .task 1 [], textAt102 [0x62, 0x63, 0x64], .task 1 []]

theorem three_of_four_bytes :
    ∃ t₀ s, Tcb.run 7 Tcb.listening (Tcb.twoReadsWait.take 2) = .ok t₀ ∧
      run 7 (asyncRead t₀ 5 [0, 0, 0]) fourBytes = .ok s ∧
      s.called = [(false, 3)] ∧ s.memory = [0x61, 0x62, 0x63] ∧ s.tcb.rcv.pq.data = [0x64] := by
  obtain ⟨t₀, ht₀⟩ : ∃ t₀, Tcb.run 7 Tcb.listening (Tcb.twoReadsWait.take 2) = .ok t₀ := ⟨_, rfl⟩
  have hno : Tcb.NoReadOutstanding t₀ := by
    cases ht₀
    exact ⟨rfl, fun cb len hmem => nomatch List.mem_singleton.mp hmem⟩
  have hok : Admitted (step 7) EventOk (asyncRead t₀ 5 [0, 0, 0]) fourBytes := by
    cases ht₀
    refine .cons ⟨rfl, fun _ h => by cases h⟩ rfl ?_
    refine .cons (eventOk_task_nil _ 1) rfl ?_
    refine .cons ⟨rfl, fun _ h => by cases h⟩ rfl ?_
    exact .single (eventOk_task_nil _ 1)
  obtain ⟨s, texts, hrun, htexts, hexactly, -⟩ := async_read_exact (Tcb.opened_listening 7) ht₀
    (by cases ht₀; rfl) hno (List.cons_ne_nil _ _) hok
  cases ht₀
  cases hrun
  obtain rfl : [[0x61], [0x62, 0x63, 0x64]] = texts := htexts
  have hcalled := hexactly.due (by decide) fun cb len hmem => nomatch List.mem_singleton.mp hmem
  obtain ⟨hmemory, -⟩ := hexactly.bytes hcalled
  exact ⟨_, _, rfl, rfl, hexactly.once.resolve_left hcalled, hmemory, rfl⟩

end Socket

end Mstack
