import Mstack.Net.Interceptor
import Mstack.Net.Manager

/-!
# Acceptors

`acceptor` on top of `tcb_manager`: the constructor adds a rule whose callback
takes the first of the callbacks that `async_accept` has queued in `cbs_`, and
does nothing if there is none.  That callback runs from the handler which a
block posts when it enters ESTABLISHED, so between the connection and the
callback anything can happen.

The application is what a callback does: calls of `async_accept`, new
acceptors, rules and active opens, and reads and writes on the sockets it
holds.

* `Accepting` — the manager, the acceptors, and the blocks that the sockets of
  the application hold.
* `Sound` — what holds in every reachable state: the manager is `Kept`, and the
  desk of each acceptor has seen exactly the announced connections under its
  rule.
* `NoneLost` — the `i`-th connection is that of the `i`-th callback, and those
  that are not handed over yet have their handler in the queue.
* `none_lost_iff`, `arrivals_handed_iff` — **when no connection is lost**, for
  acceptors, and for acceptors and interceptors together.

### The same desk, at another time

An acceptor is the desk of `Lib.Rendezvous` once more.  The difference to
`Net.Interceptor` is *when* it is asked: not when the connection arrives, but
when its handler runs.  The condition is about the state in which that is
(`Awaits`), and the order in which connections reach the desk is the order of
the handlers, which is the order in which they were established
(`Kept.inOrder`).

### What is load-bearing

A rule stays with the block that it made: the callback is copied into the
block, so that a connection belongs to the acceptor whose rule matched its
first packet, whatever rules come later (`under`, `under_grows`).

A connection that finds no callback is established nevertheless.  Its block
stays in the table, acknowledges what it is sent, and no socket ever holds it.
-/

namespace Mstack

open EventSystem Rendezvous

/-- The identity of an acceptor. -/
abbrev AcceptorId := ℕ

/-- What the manager stores in a block: the callback an acceptor has
registered, or one of the application, which `socket::async_connect` wraps. -/
inductive ConnCallback where
  | acceptor (a : AcceptorId)
  | app (cb : CallbackId)
  deriving DecidableEq, Repr

/-- `acceptor`; `cbs_` are the waiters of the desk. -/
abbrev Acceptor := Desk TwoEnds CallbackId

/-- `acceptor::async_accept`. -/
def Acceptor.asyncAccept (acc : Acceptor) (cb : CallbackId) : Acceptor := Desk.wait acc cb

/-- The callback that the constructor of `acceptor` registers. -/
def Acceptor.onEstablished (acc : Acceptor) (twoEnd : TwoEnds) : Acceptor := Desk.item acc twoEnd

/-- The manager, the acceptors, and the blocks that the sockets of the
application hold. -/
structure Accepting where
  mngr : TcbManager ConnCallback
  acceptors : AcceptorId → Acceptor
  sockets : List TwoEnds

namespace Accepting

/-- Before the first call. -/
def create : Accepting where
  mngr := TcbManager.create
  acceptors := fun _ => Desk.empty
  sockets := []

/-- A call of the application. -/
inductive Call where
  /-- The constructor of acceptor `a`. -/
  | acceptor (a : AcceptorId) (matcher : Endpoint → Endpoint → Bool)
  | asyncAccept (a : AcceptorId) (cb : CallbackId)
  | ruleInsertFront (rule : ConnRule ConnCallback)
  | ruleInsertBack (rule : ConnRule ConnCallback)
  | asyncConnect (fresh : BlockInit) (remoteEp : Endpoint) (localAddr : BitVec 32)
      (cb : CallbackId) (ports : List (BitVec 16))
  /-- A read or a write on a socket. -/
  | socket (twoEnd : TwoEnds) (call : AppCall)

/-- What can happen. -/
inductive Event where
  /-- `tcb_manager` receives a packet. -/
  | packet (fresh : BlockInit) (pktIn : TcpPacket)
  | call (c : Call)
  /-- The handler at the front of the queue runs; `calls` is what the
  application does if the handler invokes one of its callbacks. -/
  | task (calls : List Call)

/-- The manager after one of its functions. -/
def onMngr (s : Accepting) :
    Except Fault (TcbManager ConnCallback) → Except ManagerFault Accepting
  | .ok mngr => .ok { s with mngr }
  | .error f => .error (.tcb f)

/-- One call of the application.  A socket that holds no block throws. -/
def call (s : Accepting) : Call → Except ManagerFault Accepting
  | .acceptor a matcher =>
      .ok { s with mngr := s.mngr.ruleInsertBack { matcher, cb := .acceptor a } }
  | .asyncAccept a cb =>
      .ok { s with acceptors := Function.update s.acceptors a ((s.acceptors a).asyncAccept cb) }
  | .ruleInsertFront rule => .ok { s with mngr := s.mngr.ruleInsertFront rule }
  | .ruleInsertBack rule => .ok { s with mngr := s.mngr.ruleInsertBack rule }
  | .asyncConnect fresh remoteEp localAddr cb ports => do
      let mngr ← TcbManager.asyncConnect fresh remoteEp localAddr s.mngr (some (.app cb)) ports
      return { s with mngr }
  | .socket twoEnd call =>
      if twoEnd ∈ s.sockets then s.onMngr (s.mngr.appCall twoEnd call) else .ok s

/-- The callback a handler invokes: the state as the application finds it, and
whether the application is called at all. -/
def invoke (s : Accepting) (h : PostedTask) (cb : ConnCallback) : Bool × Accepting :=
  match h.task with
  | .connectionEstablished =>
      match cb with
      | .acceptor a =>
          let acc := s.acceptors a
          let s := { s with acceptors := Function.update s.acceptors a (acc.onEstablished h.key) }
          if acc.waiting = [] then (false, s)
          else (true, { s with sockets := s.sockets ++ [h.key] })
      | .app _ => (true, { s with sockets := s.sockets ++ [h.key] })
  | .readDone _ _ => (true, s)
  | .writeDone _ _ => (true, s)
  | .sendLoop => (false, s)

/-- What the application does inside the callback, if it is called. -/
def inside (calls : List Call) : Bool × Accepting → Except ManagerFault Accepting
  | (true, s) => run call s calls
  | (false, s) => .ok s

/-- Handle one event. -/
def step (s : Accepting) : Event → Except ManagerFault Accepting
  | .packet fresh pktIn => s.onMngr (s.mngr.process fresh pktIn)
  | .call c => s.call c
  | .task calls =>
      match s.mngr.ioCtx with
      | [] => .ok s
      | h :: rest =>
          match s.mngr.tcbs h.key with
          | none => .ok s
          | some c => do
              let entered : Accepting := { s with mngr := s.mngr.enterTask h rest c }
              let s ← inside calls (entered.invoke h c.onConnectionEstablished)
              s.onMngr (s.mngr.finishTask h)

/-! ## What one acceptor is handed

The blocks under one rule, among all those of the manager. -/

/-- Block `twoEnd` was made under the rule of acceptor `a`. -/
def under (m : TcbManager ConnCallback) (a : AcceptorId) (twoEnd : TwoEnds) : Bool :=
  match m.tcbs twoEnd with
  | some c => c.onConnectionEstablished = .acceptor a
  | none => false

/-- The connections under the rule of `a` that have entered ESTABLISHED, in
this order. -/
def established (s : Accepting) (a : AcceptorId) : List TwoEnds :=
  s.mngr.established.filter (under s.mngr a)

/-- Those among them whose handler has not run. -/
def pending (s : Accepting) (a : AcceptorId) : List TwoEnds :=
  (TcbManager.pending s.mngr.ioCtx).filter (under s.mngr a)

/-- **No connection is lost.**  The connections under the rule of `a` are those
handed to a callback, followed by those whose handler waits; the callbacks
registered are those that have got a connection, followed by those that wait.
So the `i`-th connection is that of the `i`-th callback. -/
structure NoneLost (a : AcceptorId) (s : Accepting) : Prop where
  connections : s.established a = (s.acceptors a).pairs.map Prod.snd ++ s.pending a
  callbacks : (s.acceptors a).waiters =
    (s.acceptors a).pairs.map Prod.fst ++ (s.acceptors a).waiting

/-- If the event runs the handler of a connection under the rule of `a`, then a
callback of `a` waits. -/
def Awaits (a : AcceptorId) (s : Accepting) : Event → Prop
  | .task _ => ∀ h rest, s.mngr.ioCtx = h :: rest → h.task = .connectionEstablished →
      under s.mngr a h.key = true → (s.acceptors a).waiting ≠ []
  | _ => True

/-! ## What one step keeps

An event is an operation of the manager, with the application inside it. -/

/-- What holds in every reachable state. -/
structure Sound (s : Accepting) : Prop where
  kept : s.mngr.Kept
  /-- The blocks the application can call are open. -/
  sockets : ∀ twoEnd ∈ s.sockets, ∃ c, s.mngr.tcbs twoEnd = some c ∧ 2 ≤ c.tcb.state.rank
  /-- The callback of an acceptor has run for the announced connections under
  its rule. -/
  items : ∀ a, (s.acceptors a).items = s.mngr.announced.filter (under s.mngr a)

/-- Nothing has happened at any desk. -/
theorem sound_create : create.Sound :=
  ⟨TcbManager.kept_create, by simp [create], fun _ => rfl⟩

/-- Whose rule a block was made under does not change. -/
theorem under_grows {m m' : TcbManager ConnCallback} (h : m.Grows m') {l : List TwoEnds}
    (hpresent : ∀ twoEnd ∈ l, m.tcbs twoEnd ≠ none) (a : AcceptorId) :
    l.filter (under m' a) = l.filter (under m a) := by
  refine List.filter_congr fun twoEnd hmem => ?_
  obtain ⟨c, hc⟩ := Option.ne_none_iff_exists'.mp (hpresent twoEnd hmem)
  obtain ⟨c', hc', hcb, -⟩ := h.tcbs twoEnd c hc
  simp only [under, hc, hc', hcb]

/-- A connection that was announced is in the table. -/
theorem announced_present {m : TcbManager ConnCallback} (h : m.Kept) :
    ∀ twoEnd ∈ m.announced, m.tcbs twoEnd ≠ none := by
  intro twoEnd hmem
  refine h.recorded twoEnd ?_
  rw [h.inOrder]
  exact List.mem_append_left _ hmem

/-- An operation of the manager that announces nothing. -/
theorem Sound.onMngr {s : Accepting} {m' : TcbManager ConnCallback} (h : s.Sound)
    (hkept : m'.Kept) (hgrows : s.mngr.Grows m') : ({ s with mngr := m' } : Accepting).Sound := by
  refine ⟨hkept, fun twoEnd hmem => ?_, fun a => ?_⟩
  · obtain ⟨c, hc, hrank⟩ := h.sockets twoEnd hmem
    obtain ⟨c', hc', -, hle⟩ := hgrows.tcbs twoEnd c hc
    exact ⟨c', hc', hrank.trans hle⟩
  · simp only [h.items a, hgrows.announced]
    exact (under_grows hgrows (announced_present h.kept) a).symm

/-- An operation of the manager changes the manager. -/
theorem onMngr_ok {s s' : Accepting} {r : Except Fault (TcbManager ConnCallback)}
    (h : s.onMngr r = .ok s') : ∃ m', r = .ok m' ∧ s' = { s with mngr := m' } := by
  cases r with
  | error f => cases h
  | ok m' => exact ⟨m', rfl, (Except.ok.inj h).symm⟩

/-- What one call of the application keeps: `Q` is any property of a desk that
a further waiter does not destroy. -/
theorem call_sound {s s' : Accepting} {c : Call} {a : AcceptorId} {Q : Acceptor → Prop}
    (hwait : ∀ d cb, Q d → Q (Desk.wait d cb)) (h : s.Sound) (hQ : Q (s.acceptors a))
    (hcall : s.call c = .ok s') :
    s'.Sound ∧ Q (s'.acceptors a) ∧ s.mngr.Grows s'.mngr := by
  cases c with
  | acceptor a' matcher =>
      -- A rule that is added names no block, so nothing in the table changes.
      cases hcall
      obtain ⟨hkept, hgrows⟩ := h.kept.withRules (s.mngr.rules ++ [⟨matcher, .acceptor a'⟩])
      exact ⟨h.onMngr hkept hgrows, hQ, hgrows⟩
  | asyncAccept a' cb =>
      cases hcall
      refine ⟨⟨h.kept, h.sockets, fun b => ?_⟩, ?_, .refl _⟩
      · refine Desk.update_desk (Q := fun d => d.items = _) (fun hb => ?_) fun _ => h.items b
        rw [hb]
        exact h.items b
      · refine Desk.update_desk (fun ha => ?_) fun _ => hQ
        rw [ha]
        exact hwait _ cb hQ
  | ruleInsertFront rule =>
      cases hcall
      obtain ⟨hkept, hgrows⟩ := h.kept.withRules (rule :: s.mngr.rules)
      exact ⟨h.onMngr hkept hgrows, hQ, hgrows⟩
  | ruleInsertBack rule =>
      cases hcall
      obtain ⟨hkept, hgrows⟩ := h.kept.withRules (s.mngr.rules ++ [rule])
      exact ⟨h.onMngr hkept hgrows, hQ, hgrows⟩
  | asyncConnect fresh remoteEp localAddr cb ports =>
      obtain ⟨m', hm', hs'⟩ := bind_eq_ok.mp hcall
      cases hs'
      obtain ⟨hkept, hgrows⟩ := TcbManager.asyncConnect_kept h.kept hm'
      exact ⟨h.onMngr hkept hgrows, hQ, hgrows⟩
  | socket twoEnd c =>
      simp only [call] at hcall
      split at hcall
      · -- A socket is open, so its block is past the handshake and may be called.
        rename_i hmem
        obtain ⟨m', hm', rfl⟩ := onMngr_ok hcall
        have hopen : ∀ c, s.mngr.tcbs twoEnd = some c → 2 ≤ c.tcb.state.rank := by
          intro c hc
          obtain ⟨c', hc', hrank⟩ := h.sockets twoEnd hmem
          obtain rfl := Option.some.inj (hc'.symm.trans hc)
          exact hrank
        obtain ⟨hkept, hgrows⟩ := TcbManager.appCall_kept h.kept hopen hm'
        exact ⟨h.onMngr hkept hgrows, hQ, hgrows⟩
      · cases hcall
        exact ⟨h, hQ, .refl _⟩

/-- The calls inside a callback. -/
theorem calls_sound {s s' : Accepting} {calls : List Call} {a : AcceptorId} {Q : Acceptor → Prop}
    (hwait : ∀ d cb, Q d → Q (Desk.wait d cb)) (h : s.Sound) (hQ : Q (s.acceptors a))
    (hrun : run call s calls = .ok s') :
    s'.Sound ∧ Q (s'.acceptors a) ∧ s.mngr.Grows s'.mngr := by
  have hadm : Admitted call (fun _ _ => True) s calls :=
    admitted_of_forall (fun _ _ => trivial) s calls
  refine run_invariant (P := fun u => u.Sound ∧ Q (u.acceptors a) ∧ s.mngr.Grows u.mngr) ?_
    ⟨h, hQ, .refl _⟩ hadm hrun
  rintro u c u' ⟨hu, hQu, hgrows⟩ - hcall
  obtain ⟨hu', hQu', hgrows'⟩ := call_sound hwait hu hQu hcall
  exact ⟨hu', hQu', hgrows.trans hgrows'⟩

/-- A callback of an acceptor leaves the manager alone. -/
theorem invoke_mngr (s : Accepting) (h : PostedTask) (cb : ConnCallback) :
    (s.invoke h cb).2.mngr = s.mngr := by
  unfold invoke
  cases h.task with
  | connectionEstablished =>
      cases cb with
      | acceptor a =>
          dsimp only
          split <;> rfl
      | app cb => rfl
  | _ => rfl

/-- It may give the application one more socket. -/
theorem invoke_sockets (s : Accepting) (h : PostedTask) (cb : ConnCallback) :
    ∀ twoEnd ∈ (s.invoke h cb).2.sockets, twoEnd ∈ s.sockets ∨ twoEnd = h.key := by
  unfold invoke
  cases h.task with
  | connectionEstablished =>
      cases cb with
      | acceptor a =>
          dsimp only
          split <;> simp +contextual
      | app cb => simp
  | _ => simp +contextual

/-- The callback of acceptor `a` runs for the connections under its rule. -/
theorem invoke_acceptors (s : Accepting) (h : PostedTask) (cb : ConnCallback) (a : AcceptorId) :
    (s.invoke h cb).2.acceptors a =
      if h.task = .connectionEstablished ∧ cb = .acceptor a then
        (s.acceptors a).onEstablished h.key
      else s.acceptors a := by
  unfold invoke
  cases h.task with
  | connectionEstablished =>
      cases cb with
      | acceptor a' =>
          have hupdate : Function.update s.acceptors a' ((s.acceptors a').onEstablished h.key) a =
              if a' = a then (s.acceptors a).onEstablished h.key else s.acceptors a := by
            refine Desk.update_desk (Q := fun d => d = _) (fun ha => ?_) fun ha => ?_
            · rw [if_pos ha, ha]
            · rw [if_neg ha]
          dsimp only
          split <;> simp [hupdate]
      | app cb => simp
  | _ => simp

/-- **A handler begins.**  Its block has been announced, and the callback of
the acceptor whose rule made the block has run. -/
theorem Sound.begin {s : Accepting} {h : PostedTask} {rest : List PostedTask}
    {c : Conn ConnCallback} (hs : s.Sound) (hqueue : s.mngr.ioCtx = h :: rest)
    (hc : s.mngr.tcbs h.key = some c) :
    let u := (({ s with mngr := s.mngr.enterTask h rest c } : Accepting).invoke h
      c.onConnectionEstablished).2
    u.Sound ∧ (∃ c', u.mngr.tcbs h.key = some c' ∧ 2 ≤ c'.tcb.state.rank) ∧
      ∀ a, u.acceptors a =
        if h.task = .connectionEstablished ∧ under s.mngr a h.key then
          (s.acceptors a).onEstablished h.key
        else s.acceptors a := by
  intro u
  have hgrows := TcbManager.grows_enterTask rest hc
  -- The rule under which a block was made is the callback it was made with.
  have hunder : ∀ a, under s.mngr a h.key = true ↔ c.onConnectionEstablished = .acceptor a := by
    intro a
    simp only [under, hc, decide_eq_true_iff]
  have hmngr : u.mngr = s.mngr.enterTask h rest c := invoke_mngr _ _ _
  have hacceptors : ∀ a, u.acceptors a =
      if h.task = .connectionEstablished ∧ under s.mngr a h.key then
        (s.acceptors a).onEstablished h.key
      else s.acceptors a := by
    intro a
    simp only [hunder a]
    exact invoke_acceptors _ _ _ a
  obtain ⟨c₀, hc₀, hrank⟩ := hs.kept.front hqueue
  obtain ⟨c₁, hc₁, -, hle⟩ := hgrows.tcbs h.key c₀ hc₀
  have hopen : ∃ c', u.mngr.tcbs h.key = some c' ∧ 2 ≤ c'.tcb.state.rank := by
    rw [hmngr]
    exact ⟨c₁, hc₁, hrank.trans hle⟩
  refine ⟨⟨?_, fun twoEnd hmem => ?_, fun a => ?_⟩, hopen, hacceptors⟩
  · rw [hmngr]
    exact hs.kept.enterTask hqueue hc
  · -- A socket is older, or made by the callback for the block that is announced.
    rcases invoke_sockets _ _ _ twoEnd hmem with hmem | rfl
    · obtain ⟨c', hc', hrank'⟩ := hs.sockets twoEnd hmem
      obtain ⟨c'', hc'', -, hle'⟩ := hgrows.tcbs twoEnd c' hc'
      rw [hmngr]
      exact ⟨c'', hc'', hrank'.trans hle'⟩
    · exact hopen
  · -- One more announcement, which the acceptor sees if the block is under its rule.
    have hpresent : ∀ twoEnd ∈ (s.mngr.enterTask h rest c).announced,
        s.mngr.tcbs twoEnd ≠ none := by
      intro twoEnd hmem
      rcases List.mem_append.mp hmem with hmem | hmem
      · exact announced_present hs.kept twoEnd hmem
      · split at hmem
        · rw [List.mem_singleton.mp hmem, hc]
          exact Option.some_ne_none c
        · cases hmem
    rw [hmngr, under_grows hgrows hpresent a, hacceptors a]
    change _ = List.filter (under s.mngr a) (s.mngr.announced ++ _)
    rw [List.filter_append, ← hs.items a]
    by_cases htask : h.task = .connectionEstablished
    · by_cases hrule : under s.mngr a h.key = true
      · rw [if_pos ⟨htask, hrule⟩, if_pos htask, List.filter_cons_of_pos hrule]
        exact Desk.items_item _ _
      · rw [if_neg (fun hand => hrule hand.2), if_pos htask, List.filter_cons_of_neg hrule]
        exact (List.append_nil _).symm
    · rw [if_neg (fun hand => htask hand.1), if_neg htask]
      exact (List.append_nil _).symm

/-- The connection under the rule of `a` whose handler an event runs, if it
runs one. -/
def arriving (a : AcceptorId) (s : Accepting) : Event → Option TwoEnds
  | .task _ =>
      match s.mngr.ioCtx with
      | [] => none
      | h :: _ =>
          if h.task = .connectionEstablished ∧ under s.mngr a h.key then some h.key else none
  | _ => none

/-- The condition, in terms of the connection that arrives. -/
theorem awaits_iff (a : AcceptorId) (s : Accepting) (e : Event) :
    Awaits a s e ↔ (s.arriving a e ≠ none → (s.acceptors a).waiting ≠ []) := by
  cases e with
  | task calls =>
      cases hqueue : s.mngr.ioCtx with
      | nil => simp [Awaits, arriving, hqueue]
      | cons h rest => simp [Awaits, arriving, hqueue]
  | packet fresh pktIn => simp [Awaits, arriving]
  | call c => simp [Awaits, arriving]

/-- **One event**: the callback of the acceptor runs for the connection that
arrives, and the rest makes at most somebody wait.  `Q` is any property of the
acceptor that waiting keeps, so that the lemma serves the two sides of the
result, nothing lost and something lost. -/
theorem step_sound {s s' : Accepting} {e : Event} {a : AcceptorId} {Q : Acceptor → Prop}
    (hwait : ∀ d cb, Q d → Q (Desk.wait d cb)) (h : s.Sound)
    (hQ : Q ((s.arriving a e).elim (s.acceptors a) (s.acceptors a).onEstablished))
    (hstep : step s e = .ok s') : s'.Sound ∧ Q (s'.acceptors a) := by
  cases e with
  | packet fresh pktIn =>
      obtain ⟨m', hm', rfl⟩ := onMngr_ok hstep
      obtain ⟨hkept, hgrows⟩ := TcbManager.process_kept h.kept hm'
      exact ⟨h.onMngr hkept hgrows, hQ⟩
  | call c =>
      obtain ⟨hs', hQ', -⟩ := call_sound hwait h hQ hstep
      exact ⟨hs', hQ'⟩
  | task calls =>
      simp only [step] at hstep
      split at hstep
      · rename_i hqueue
        cases hstep
        simp only [arriving, hqueue] at hQ
        exact ⟨h, hQ⟩
      · -- The handler of a block is in the queue, so the block is in the table.
        rename_i handler rest hqueue
        obtain ⟨c₀, hc₀, -⟩ := h.kept.front hqueue
        split at hstep
        · rename_i habsent
          rw [habsent] at hc₀
          cases hc₀
        · rename_i c hc
          obtain ⟨hbegin, ⟨c₁, hc₁, hrank⟩, hacceptors⟩ := h.begin hqueue hc
          obtain ⟨s₂, hs₂, hfinish⟩ := bind_eq_ok.mp hstep
          obtain ⟨m', hm', rfl⟩ := onMngr_ok hfinish
          have hQ₁ : Q ((({ s with mngr := s.mngr.enterTask handler rest c } : Accepting).invoke
              handler c.onConnectionEstablished).2.acceptors a) := by
            rw [hacceptors a]
            simp only [arriving, hqueue] at hQ
            split <;> rename_i hcond <;> simpa [hcond] using hQ
          -- The application may call back before the handler ends.
          have hcalls : s₂.Sound ∧ Q (s₂.acceptors a) ∧
              (({ s with mngr := s.mngr.enterTask handler rest c } : Accepting).invoke
                handler c.onConnectionEstablished).2.mngr.Grows s₂.mngr := by
            unfold inside at hs₂
            split at hs₂
            · rename_i heq
              rw [heq] at hbegin hQ₁ ⊢
              exact calls_sound hwait hbegin hQ₁ hs₂
            · rename_i heq
              cases hs₂
              rw [heq] at hbegin hQ₁ ⊢
              exact ⟨hbegin, hQ₁, .refl _⟩
          obtain ⟨hsound, hQ₂, hgrows⟩ := hcalls
          have hopen : ∀ c, s₂.mngr.tcbs handler.key = some c → 2 ≤ c.tcb.state.rank := by
            intro c₃ hc₃
            obtain ⟨c₂, hc₂, -, hle⟩ := hgrows.tcbs handler.key c₁ hc₁
            obtain rfl := Option.some.inj (hc₂.symm.trans hc₃)
            exact hrank.trans hle
          obtain ⟨hkept, hgrows'⟩ := TcbManager.finishTask_kept hsound.kept hopen hm'
          exact ⟨hsound.onMngr hkept hgrows', hQ₂⟩

/-- **One event for one acceptor**: nothing is lost if and only if the
connection that arrives finds a callback, and what is lost stays lost.  This is
why the result on runs has both directions: `Lossy` is an invariant as much as
`Lossless` is. -/
theorem step_desk {s s' : Accepting} {e : Event} (a : AcceptorId) (h : s.Sound)
    (hstep : step s e = .ok s') :
    ((s.acceptors a).Lossless →
      (Awaits a s e → (s'.acceptors a).Lossless) ∧ (¬ Awaits a s e → (s'.acceptors a).Lossy)) ∧
    ((s.acceptors a).Lossy → (s'.acceptors a).Lossy) := by
  have hlossless : Desk.Lossless ((s.arriving a e).elim (s.acceptors a)
      (s.acceptors a).onEstablished) → (s'.acceptors a).Lossless :=
    fun hQ => (step_sound (Q := Desk.Lossless) (fun _ cb hd => hd.wait cb) h hQ hstep).2
  have hlossy : Desk.Lossy ((s.arriving a e).elim (s.acceptors a)
      (s.acceptors a).onEstablished) → (s'.acceptors a).Lossy :=
    fun hQ => (step_sound (Q := Desk.Lossy) (fun _ cb hd => hd.wait cb) h hQ hstep).2
  rw [awaits_iff]
  cases harriving : s.arriving a e with
  | none =>
      rw [harriving] at hlossless hlossy
      refine ⟨fun hd => ⟨fun _ => hlossless hd, fun hno => ?_⟩, hlossy⟩
      exact absurd (fun hne => absurd rfl hne) hno
  | some twoEnd =>
      rw [harriving] at hlossless hlossy
      refine ⟨fun hd => ⟨fun hwaiting => ?_, fun hno => ?_⟩, fun hd => ?_⟩
      · exact hlossless (hd.item (hwaiting nofun) twoEnd)
      · exact hlossy (hd.lossy_item (by simpa using hno) twoEnd)
      · exact hlossy (hd.item twoEnd)

/-- The desk of a sound state says what becomes of the connections. -/
theorem Sound.noneLost_iff {s : Accepting} (h : s.Sound) (a : AcceptorId) :
    NoneLost a s ↔ (s.acceptors a).Lossless := by
  have hestablished : s.established a = (s.acceptors a).items ++ s.pending a := by
    rw [established, h.kept.inOrder, List.filter_append, h.items a, pending]
  constructor
  · rintro ⟨hconnections, hcallbacks⟩
    rw [hestablished] at hconnections
    refine ⟨?_, hcallbacks, .inl rfl⟩
    rw [List.append_nil]
    exact List.append_cancel_right hconnections
  · intro hd
    have hitems := hd.items_eq
    rw [List.append_nil] at hitems
    exact ⟨by rw [hestablished, hitems], hd.waiters_eq⟩

/-- **Which accepted connections are lost**: in every run, no connection under
the rule of an acceptor is, and the `i`-th goes to the `i`-th callback, if and
only if a callback is waiting whenever the handler of such a connection runs. -/
theorem none_lost_iff {a : AcceptorId} {es : List Event} {s : Accepting}
    (hrun : run step create es = .ok s) :
    (s.established a).Nodup ∧ (NoneLost a s ↔ Admitted step (Awaits a) create es) := by
  have hadm : Admitted step (fun _ _ => True) create es :=
    admitted_of_forall (fun _ _ => trivial) create es
  have hdich : (Admitted step (Awaits a) create es ∧ s.Sound ∧ (s.acceptors a).Lossless) ∨
      (¬ Admitted step (Awaits a) create es ∧ s.Sound ∧ (s.acceptors a).Lossy) := by
    refine run_dichotomy
      (P := fun s => s.Sound ∧ (s.acceptors a).Lossless)
      (L := fun s => s.Sound ∧ (s.acceptors a).Lossy) ?_ ?_
      ⟨sound_create, Desk.lossless_empty⟩ hadm hrun
    · rintro s e s' ⟨hs, hd⟩ - hstep
      have hs' := (step_sound (a := a) (Q := fun _ => True) (fun _ _ => id) hs trivial hstep).1
      obtain ⟨hyes, hno⟩ := (step_desk a hs hstep).1 hd
      exact ⟨fun hok => ⟨hs', hyes hok⟩, fun hnot => ⟨hs', hno hnot⟩⟩
    · rintro s e s' ⟨hs, hd⟩ - hstep
      have hs' := (step_sound (a := a) (Q := fun _ => True) (fun _ _ => id) hs trivial hstep).1
      exact ⟨hs', (step_desk a hs hstep).2 hd⟩
  have hsound : s.Sound := hdich.elim (fun h => h.2.1) (fun h => h.2.1)
  refine ⟨hsound.kept.nodup.filter _, ?_⟩
  rw [hsound.noneLost_iff a]
  rcases hdich with ⟨hyes, -, hd⟩ | ⟨hno, -, hd⟩
  · exact iff_of_true hd hyes
  · exact iff_of_false (fun hlossless => hlossless.not_lossy hd) hno

/-- A client, as this host sees the connection. -/
def client : TwoEnds where
  remoteEp := { addrv4 := 1, addrv4Port := 1 }
  localEp := { addrv4 := 2, addrv4Port := 2 }

/-- A segment of the client. -/
def fromClient (tcph : TcpHeader) : Event :=
  .packet { isn := 7, junkSend := default, junkRcv := default }
    { proto := 0x06
      remoteEp := client.remoteEp
      localEp := client.localEp
      skb := { tcph, opts := [], text := [] } }

/-- The handshake of the client, up to the callback of the acceptor. -/
def handshake : List Event :=
  [fromClient { TcpHeader.bare with SYN := true, seqNo := 100, window := 500 },
    fromClient { TcpHeader.bare with ACK := true, seqNo := 101, ackNo := 8 },
    .task []]

end Accepting

/-! ## Both kinds of arrivals

The two desks side by side. -/

/-- **Connections and flows are handed over** if and only if a callback is
waiting when they arrive: for every acceptor and every interceptor, and in
every run.

The two classes have the same two queues, and the same branch for an arrival
that finds no callback.  It does not queue what has arrived.  So each waiting
callback gets one arrival, in order, and an arrival without a callback is
dropped; the condition is asked of the state in which the arrival happens. -/
theorem arrivals_handed_iff (a : AcceptorId) (es : List Accepting.Event) (s : Accepting)
    (i : InterceptorId) (fs : List Intercepting.Event) (u : Intercepting) :
    (run Accepting.step Accepting.create es = .ok s →
      (s.established a).Nodup ∧ (Accepting.NoneLost a s ↔
        Admitted Accepting.step (Accepting.Awaits a) Accepting.create es)) ∧
    (run Intercepting.step Intercepting.create fs = .ok u →
      ((u.interceptors i).Lossless ↔
        Admitted Intercepting.step (Intercepting.Awaits i) Intercepting.create fs)) :=
  ⟨fun hrun => Accepting.none_lost_iff hrun, fun hrun => Intercepting.lossless_iff hrun⟩

/-- With a callback registered before the handshake and the packet, the
connection and the flow are handed over. -/
theorem waiting_callbacks_served :
    (∃ s, run Accepting.step Accepting.create
        ([.call (.acceptor 0 fun _ _ => true), .call (.asyncAccept 0 5)] ++
          Accepting.handshake) = .ok s ∧
      Accepting.NoneLost 0 s ∧ (s.acceptors 0).pairs = [(5, Accepting.client)]) ∧
    ∃ s, run Intercepting.step Intercepting.create
        [.interceptor 0 fun _ _ => true, .asyncIntercept 0 5,
          .packet (fun _ => 0) (Tcp.bareSegment 1) []] = .ok s ∧
      (s.interceptors 0).Lossless ∧ (s.interceptors 0).pairs.length = 1 := by
  have hboth := fun s u => arrivals_handed_iff 0 ([.call (.acceptor 0 fun _ _ => true),
    .call (.asyncAccept 0 5)] ++ Accepting.handshake) s 0 [.interceptor 0 fun _ _ => true,
    .asyncIntercept 0 5, .packet (fun _ => 0) (Tcp.bareSegment 1) []] u
  have hconn := (hboth _ Intercepting.create).1 rfl
  have hflow := (hboth Accepting.create _).2 rfl
  refine ⟨⟨_, rfl, hconn.2.mpr ?_, rfl⟩, ⟨_, rfl, hflow.mpr ?_, rfl⟩⟩
  · refine .cons trivial rfl ?_
    refine .cons trivial rfl ?_
    refine .cons trivial rfl ?_
    refine .cons trivial rfl ?_
    exact .single fun _ _ _ _ _ => by nofun
  · refine .cons trivial rfl ?_
    refine .cons trivial rfl ?_
    exact .single fun pkt _ _ => ⟨fun _ => by nofun, fun h => by cases h⟩

/-- One connection before the first `async_accept`, and one packet before the
first `async_intercept`: neither is handed to the callback registered
afterwards. -/
theorem early_arrivals_lost :
    (∃ s, run Accepting.step Accepting.create
        ([.call (.acceptor 0 fun _ _ => true)] ++ Accepting.handshake ++
          [.call (.asyncAccept 0 5)]) = .ok s ∧
      s.established 0 = [Accepting.client] ∧ s.pending 0 = [] ∧
      (s.acceptors 0).waiting = [5] ∧ (s.acceptors 0).pairs = [] ∧
      ¬ Accepting.NoneLost 0 s) ∧
    ∃ s, run Intercepting.step Intercepting.create
        [.interceptor 0 fun _ _ => true, .packet (fun _ => 0) (Tcp.bareSegment 1) [],
          .asyncIntercept 0 5] = .ok s ∧
      (s.interceptors 0).items.length = 1 ∧ (s.interceptors 0).waiting = [5] ∧
      (s.interceptors 0).pairs = [] ∧ ¬ (s.interceptors 0).Lossless := by
  refine ⟨⟨_, rfl, by rfl, by rfl, rfl, rfl, fun h => ?_⟩, ⟨_, rfl, rfl, rfl, rfl, fun h => ?_⟩⟩
  · have hconnections := h.connections
    cases hconnections
  · have hitems := h.items_eq
    cases hitems

end Mstack
