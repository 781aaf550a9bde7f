import Mstack.Net.Layers

/-!
# The output queue of a device

`device::process` and the completion handler of `send_front_pkt_out`.  A frame
stays in `out_skb_q_` while it is written: `std::move` takes the bytes of the
front of the queue away, and the completion handler pops what is left there.  A
write is started when a frame is pushed into an empty queue, and by the
completion of the write before it.

`boost::asio::async_write` completes every write that was started once.
`Event.written` is such a completion: which of the outstanding writes, and with
which outcome, is left to the event.  The history variables `given` and
`handed` record the frames passed to `process` and those handed to the
descriptor.

* `Flows` — what the queue is for: something is being written whenever
  something is queued, one write at a time, each frame once and in order.
* `Single` — what holds whatever the outcomes are: never two writes, and no
  access to an empty queue.
* `never_stalls_iff` — **the queue flows in every state of a run exactly if no
  write fails.**

### What is load-bearing

The completion handler returns early on an error.  It pops nothing and starts
nothing, and `process` starts a write only for a frame that finds the queue
empty: the frame that failed is still there, so that nothing is written any
more (`failed_write_stalls`).  The loss is for good, which is why the exact
rule is `EventSystem.run_always_iff`, and `Single` has to survive a failure for
the rule to have anything to say behind one.
-/

namespace Mstack

open EventSystem

/-- The output side of `device`; `writes` are the writes that have not
completed. -/
structure Device where
  outSkbQ : List Skbuff
  writes : List Skbuff
  given : List Skbuff
  handed : List Skbuff
  deriving DecidableEq, Repr

namespace Device

/-- The constructor. -/
def create : Device where
  outSkbQ := []
  writes := []
  given := []
  handed := []

/-- `send_front_pkt_out`: the front of the queue is handed over, and what stays
there has been moved from. -/
def sendFrontPktOut (d : Device) : Except NetFault Device :=
  match d.outSkbQ with
  | [] => .error .emptyQueue
  | skb :: rest => .ok { d with
      outSkbQ := skb.movedFrom :: rest
      writes := d.writes ++ [skb]
      handed := d.handed ++ [skb] }

/-- `device::process`: a frame that finds the queue empty starts the writing. -/
def process (d : Device) (skbIn : Skbuff) : Except NetFault Device :=
  let d := { d with outSkbQ := d.outSkbQ ++ [skbIn], given := d.given ++ [skbIn] }
  if 1 = d.outSkbQ.length then d.sendFrontPktOut else .ok d

/-- The completion handler of `send_front_pkt_out`.  On an error it only logs:
the frame stays at the front of the queue and no write is started, so that the
next frame finds the queue neither empty nor being written. -/
def onWritten (d : Device) (success : Bool) : Except NetFault Device :=
  if success then
    match d.outSkbQ with
    | [] => .error .emptyQueue
    | _ :: rest =>
        let d := { d with outSkbQ := rest }
        if rest ≠ [] then d.sendFrontPktOut else .ok d
  else .ok d

/-- What can happen to the output side. -/
inductive Event where
  | process (skbIn : Skbuff)
  /-- The `k`-th outstanding write completes, if there is one. -/
  | written (k : ℕ) (success : Bool)
  deriving DecidableEq, Repr

/-- Handle one event.  A completion of a write that is not outstanding does not
happen. -/
def step (d : Device) : Event → Except NetFault Device
  | .process skbIn => d.process skbIn
  | .written k success =>
      match d.writes[k]? with
      | none => .ok d
      | some _ => { d with writes := d.writes.eraseIdx k }.onWritten success

/-! ## What must not go wrong

`Flows` is what a user of the device sees; `Single` is the invariant that
carries the proof through a failed write as well. -/

/-- The queue is non-empty if and only if exactly one write is outstanding, and
the frames handed to the descriptor are those given to `process`, in order and
each once, up to the ones that wait behind the front of the queue. -/
structure Flows (d : Device) : Prop where
  one_write : d.outSkbQ ≠ [] ↔ d.writes.length = 1
  in_order : d.given = d.handed ++ d.outSkbQ.tail

/-- A completion that is taken is a success. -/
def Succeeds (d : Device) : Event → Prop
  | .process _ => True
  | .written k success => d.writes[k]? ≠ none → success = true

instance (d : Device) (e : Event) : Decidable (d.Succeeds e) := by
  cases e <;> unfold Succeeds <;> infer_instance

/-- What holds whatever the outcomes are: there is never a second write, a
write has its frame in the queue, and the order is kept. -/
structure Single (d : Device) : Prop where
  idle_or_writing : d.writes = [] ∨ ∃ skb, d.writes = [skb] ∧ d.outSkbQ ≠ []
  in_order : d.given = d.handed ++ d.outSkbQ.tail

/-- A new device has nothing to write. -/
theorem single_create : create.Single := ⟨.inl rfl, rfl⟩

/-- What is missing from `Flows`: a queue with frames in it is being written. -/
theorem Single.flows_iff {d : Device} (h : d.Single) :
    d.Flows ↔ (d.outSkbQ ≠ [] → d.writes ≠ []) := by
  constructor
  · intro hflows hqueue hnone
    have hone := hflows.one_write.mp hqueue
    rw [hnone] at hone
    cases hone
  · intro hwrites
    refine ⟨⟨fun hqueue => ?_, fun hone => ?_⟩, h.in_order⟩
    · rcases h.idle_or_writing with hnone | ⟨skb, hskb, -⟩
      · exact absurd hnone (hwrites hqueue)
      · rw [hskb]
        rfl
    · rcases h.idle_or_writing with hnone | ⟨skb, -, hqueue⟩
      · rw [hnone] at hone
        cases hone
      · exact hqueue

/-- `process` starts a write if the queue was empty. -/
theorem process_flows {d : Device} (h : d.Single) (skbIn : Skbuff) :
    ∃ d', d.process skbIn = .ok d' ∧ d'.Single ∧ (d.Flows → d'.Flows) := by
  have horder := h.in_order
  cases hqueue : d.outSkbQ with
  | nil =>
      have hnone : d.writes = [] := by
        rcases h.idle_or_writing with hnone | ⟨-, -, hne⟩
        · exact hnone
        · exact absurd hqueue hne
      rw [hqueue, List.tail_nil, List.append_nil] at horder
      have hsingle : (⟨[skbIn.movedFrom], [skbIn], d.given ++ [skbIn], d.handed ++ [skbIn]⟩ :
          Device).Single := by
        refine ⟨.inr ⟨skbIn, rfl, nofun⟩, ?_⟩
        rw [horder]
        exact (List.append_nil _).symm
      refine ⟨_, ?_, hsingle, fun _ => hsingle.flows_iff.mpr nofun⟩
      simp [process, sendFrontPktOut, hqueue, hnone]
  | cons front rest =>
      rw [hqueue, List.tail_cons] at horder
      have hlen : ¬ 1 = (d.outSkbQ ++ [skbIn]).length := by
        rw [hqueue]
        simp
      have hsingle : ({ d with
          outSkbQ := d.outSkbQ ++ [skbIn], given := d.given ++ [skbIn] } : Device).Single := by
        refine ⟨h.idle_or_writing.imp_right fun ⟨skb, hskb, _⟩ => ⟨skb, hskb, by simp⟩, ?_⟩
        simp only [hqueue, horder, List.cons_append, List.tail_cons, List.append_assoc]
      refine ⟨_, if_neg hlen, hsingle, fun hflows => hsingle.flows_iff.mpr fun _ => ?_⟩
      exact h.flows_iff.mp hflows (by rw [hqueue]; exact List.cons_ne_nil _ _)

/-- A write that succeeds takes its frame off the queue and starts the next
one. -/
theorem onWritten_flows {d : Device} (hqueue : d.outSkbQ ≠ []) (hwrites : d.writes = [])
    (horder : d.given = d.handed ++ d.outSkbQ.tail) :
    ∃ d', d.onWritten true = .ok d' ∧ d'.Single ∧ d'.Flows := by
  obtain ⟨front, rest, hcons⟩ := List.exists_cons_of_ne_nil hqueue
  rw [hcons, List.tail_cons] at horder
  cases rest with
  | nil =>
      have hsingle : ({ d with outSkbQ := [] } : Device).Single := ⟨.inl hwrites, horder⟩
      refine ⟨_, ?_, hsingle, hsingle.flows_iff.mpr fun h => absurd rfl h⟩
      simp [onWritten, hcons]
  | cons next rest =>
      have hsingle : (⟨next.movedFrom :: rest, [next], d.given, d.handed ++ [next]⟩ :
          Device).Single := by
        refine ⟨.inr ⟨next, rfl, nofun⟩, ?_⟩
        rw [horder, List.append_assoc]
        rfl
      refine ⟨_, ?_, hsingle, hsingle.flows_iff.mpr nofun⟩
      simp [onWritten, sendFrontPktOut, hcons, hwrites]

/-- **One event**: no access to an empty queue, and a device that flows goes on
flowing if and only if the event is not a write that fails.  `Single`, at most
one write at a time, holds whatever happens; that it flows is what a failed
write ends, since it returns before it starts the next one. -/
theorem step_flows {d : Device} (h : d.Single) (e : Event) :
    ∃ d', step d e = .ok d' ∧ d'.Single ∧ (d.Flows → (d'.Flows ↔ d.Succeeds e)) := by
  cases e with
  | process skbIn =>
      obtain ⟨d', hd', hsingle, hflows⟩ := process_flows h skbIn
      exact ⟨d', hd', hsingle, fun hd => iff_of_true (hflows hd) trivial⟩
  | written k success =>
      cases hk : d.writes[k]? with
      | none =>
          refine ⟨d, by simp only [step, hk], h, fun hd => iff_of_true hd ?_⟩
          exact fun hne => absurd hk hne
      | some skb =>
          -- The only outstanding write is the one that completes.
          obtain ⟨hqueue, herase⟩ : d.outSkbQ ≠ [] ∧ d.writes.eraseIdx k = [] := by
            rcases h.idle_or_writing with hnone | ⟨skb', hskb', hqueue⟩
            · rw [hnone] at hk
              cases hk
            · rw [hskb'] at hk ⊢
              obtain ⟨hlt, -⟩ := List.getElem?_eq_some_iff.mp hk
              obtain rfl := Nat.lt_one_iff.mp hlt
              exact ⟨hqueue, rfl⟩
          have hsucceeds : d.Succeeds (.written k success) ↔ success = true :=
            ⟨fun hok => hok (by rw [hk]; nofun), fun hok _ => hok⟩
          simp only [step, hk, herase]
          rw [hsucceeds]
          cases success with
          | true =>
              obtain ⟨d', hd', hsingle, hflows⟩ :=
                @onWritten_flows { d with writes := [] } hqueue rfl h.in_order
              exact ⟨d', hd', hsingle, fun _ => iff_of_true hflows rfl⟩
          | false =>
              have hsingle : ({ d with writes := [] } : Device).Single := ⟨.inl rfl, h.in_order⟩
              refine ⟨_, rfl, hsingle, fun _ => iff_of_false (fun hflows => ?_) nofun⟩
              exact hsingle.flows_iff.mp hflows hqueue rfl

/-- **The output queue never stalls exactly if no write fails.**  Whatever the
order of calls of `process` and of completions, no empty queue is accessed; and
in every state of the run the queue is non-empty if and only if exactly one
write is outstanding, with every frame handed over once and in order, if and
only if every write that completes is a success. -/
theorem never_stalls_iff (es : List Event) :
    ∃ d, run step create es = .ok d ∧
      ((∀ past rest d', es = past ++ rest → run step create past = .ok d' → d'.Flows) ↔
        Admitted step Succeeds create es) := by
  have hadm : Admitted step (fun _ _ => True) create es :=
    admitted_of_forall (fun _ _ => trivial) create es
  obtain ⟨d, hrun, -⟩ := run_total (P := Single)
    (fun d e hd _ => (step_flows hd e).imp fun d' h => ⟨h.1, h.2.1⟩) single_create hadm
  have hflows : create.Flows := single_create.flows_iff.mpr fun h => absurd rfl h
  refine ⟨d, hrun, run_always_iff (J := Single) ?_ ?_ single_create hflows hadm hrun⟩
  · intro d e d' hd _ hstep
    obtain ⟨d'', hd'', hsingle, -⟩ := step_flows hd e
    rwa [Except.ok.inj (hstep.symm.trans hd'')]
  · intro d e d' hd hdf _ hstep
    obtain ⟨d'', hd'', -, hiff⟩ := step_flows hd e
    rw [Except.ok.inj (hstep.symm.trans hd'')]
    exact hiff hdf

/-- A buffer with one byte. -/
def oneByte (b : Byte) : Skbuff := ⟨[], [b], []⟩

/-- The first of two writes fails: the second frame, and every later one, stays
in the queue, and nothing is outstanding. -/
theorem failed_write_stalls :
    ∃ d, run step create [.process (oneByte 1), .process (oneByte 2), .written 0 false,
        .process (oneByte 3)] = .ok d ∧
      d.outSkbQ.length = 3 ∧ d.writes = [] ∧ d.handed = [oneByte 1] ∧ ¬ d.Flows := by
  refine ⟨_, rfl, rfl, rfl, rfl, fun h => ?_⟩
  have hone := h.one_write.mp nofun
  cases hone

end Device

end Mstack
