import Mstack.Net.RawFlow

/-!
# Interceptors

`interceptor` on top of `tcp`: the constructor adds a rule whose callback takes
the first of the callbacks that `async_intercept` has queued in `cbs_`, and
does nothing if there is none.  `tcp::make_packet` runs that callback while it
handles the first packet of a flow.

The tables of `tcp` are those of `Tcp`; its rules stand here, because a
callback of a rule is now code that changes the queue of an interceptor.
`packet_tcp` says that the tables cannot tell the difference.

### A desk

`cbs_` is one side of a rendezvous whose other side is **not a queue**: a flow
that finds no callback is not kept for the next one.  `Rendezvous.Desk` is
this, with the histories of both sides; a desk is `Lossless` if every arrival
found somebody waiting, and `Lossy` from the first that did not.  Both are kept
by whatever comes, so that `EventSystem.run_dichotomy` gives an exact condition
for a run.

### Code inside a callback

A callback of the application may call `async_intercept` of any interceptor,
and may throw.  `Body` is what it does, and an event of a packet carries one
body for each callback that the loop over the rules invokes, in order: a
callback that throws hands the packet to the rules behind it, and the next
matching one is called too.

### What is load-bearing

A flow that found no callback is *in the table of `tcp`* all the same, with its
packet queued and nobody who knows of it: the rule has taken it, and nothing of
it is passed up any more. "Lost" here is about the callback; `Net.RawFlow` says
what a later `async_wait` on that flow would get.
-/

namespace Mstack

open EventSystem Rendezvous
open Tcp (tcpPkt)

/-- The identity of an interceptor. -/
abbrev InterceptorId := ℕ

/-- The callback of a rule of `tcp`: that of an interceptor, or one of the
application. -/
inductive FlowCallback where
  | interceptor (i : InterceptorId)
  | app (cb : CallbackId)
  deriving DecidableEq, Repr

/-- `tcp::rule`, with its callback. -/
structure FlowRule where
  matcher : Endpoint → Endpoint → Bool
  cb : FlowCallback

/-- `interceptor`; `cbs_` are the waiters of the desk. -/
abbrev Interceptor := Desk TwoEnds CallbackId

/-- `interceptor::async_intercept`. -/
def Interceptor.asyncIntercept (ic : Interceptor) (cb : CallbackId) : Interceptor :=
  Desk.wait ic cb

/-- The callback that the constructor of `interceptor` registers. -/
def Interceptor.onFlow (ic : Interceptor) (twoEnd : TwoEnds) : Interceptor := Desk.item ic twoEnd

/-- What the application does inside a callback: the interceptors it calls, and
whether it ends with an exception. -/
structure Body where
  calls : List (InterceptorId × CallbackId) := []
  throws : Bool := false
  deriving DecidableEq, Repr

/-- The tables of `tcp`, its rules, and the interceptors. -/
structure Intercepting where
  tcp : Tcp
  rules : List FlowRule
  interceptors : InterceptorId → Interceptor

namespace Intercepting

/-- Before the first call. -/
def create : Intercepting where
  tcp := Tcp.create
  rules := []
  interceptors := fun _ => Desk.empty

/-- `interceptor::async_intercept`: one more waits. -/
def asyncIntercept (s : Intercepting) (i : InterceptorId) (cb : CallbackId) : Intercepting :=
  { s with interceptors :=
      Function.update s.interceptors i ((s.interceptors i).asyncIntercept cb) }

/-- The body of a callback of the application. -/
def inside (s : Intercepting) (body : Body) : Intercepting :=
  body.calls.foldl (fun s c => s.asyncIntercept c.1 c.2) s

/-- The callback of a rule: whether it throws, and the state it leaves. -/
def invoke (s : Intercepting) (cb : FlowCallback) (twoEnd : TwoEnds) (body : Body) :
    Bool × Intercepting :=
  match cb with
  | .interceptor i =>
      let ic := s.interceptors i
      let s := { s with interceptors := Function.update s.interceptors i (ic.onFlow twoEnd) }
      if ic.waiting = [] then (false, s) else (body.throws, s.inside body)
  | .app _ => (body.throws, s.inside body)

/-- The flow of `pkt` is put into the table, before the callback runs. -/
def offer (s : Intercepting) (pkt : RawTcpPacket) : Intercepting :=
  { s with tcp := s.tcp.setRawState pkt.twoEnd ⟨[pkt], []⟩ }

/-- It is erased again when the callback has thrown. -/
def withdraw (s : Intercepting) (pkt : RawTcpPacket) : Intercepting :=
  { s with tcp := s.tcp.erase pkt.twoEnd }

/-- The loop over `rules_` for a packet of a flow that is not in the table.
The bodies are those of the callbacks of the rules, in this order; `freed` is
what a read of memory that has been given back happens to yield. -/
def intercept (freed : ℕ → Byte) (s : Intercepting) :
    List FlowRule → List Body → RawTcpPacket → Option RawTcpPacket × Intercepting
  | [], _, pkt => (some pkt, s)
  | rule :: rules, bodies, pkt =>
      if rule.matcher pkt.remoteEp pkt.localEp then
        let r := (s.offer pkt).invoke rule.cb pkt.twoEnd (bodies.headD {})
        if r.1 then intercept freed (r.2.withdraw pkt) rules bodies.tail (pkt.dangling freed)
        else (none, r.2)
      else intercept freed s rules bodies.tail pkt

/-- What can happen. -/
inductive Event where
  /-- `ipv4` dispatches a packet to `tcp`; `freed` is what memory that has been
  given back holds. -/
  | packet (freed : ℕ → Byte) (pktIn : Ipv4Packet) (bodies : List Body)
  /-- The constructor of interceptor `i`. -/
  | interceptor (i : InterceptorId) (matcher : Endpoint → Endpoint → Bool)
  | asyncIntercept (i : InterceptorId) (cb : CallbackId)
  | ruleInsertFront (rule : FlowRule)
  | ruleInsertBack (rule : FlowRule)
  | asyncWait (key : TwoEnds) (cb : CallbackId)
  | attach (key : TwoEnds)
  | detach (key : TwoEnds)
  | task

/-- An event that only the tables of `tcp` see. -/
def onTcp (s : Intercepting) (e : Tcp.Event) : Except NetFault Intercepting := do
  return { s with tcp := ← Tcp.step s.tcp e }

/-- Handle one event. -/
def step (s : Intercepting) : Event → Except NetFault Intercepting
  | .packet freed pktIn bodies => do
      let pkt ← tcpPkt pktIn
      match s.tcp.rcvRawStates pkt.twoEnd with
      | some _ => s.onTcp (.packet freed pktIn)
      | none =>
          let r := s.intercept freed s.rules bodies pkt
          return { r.2 with tcp := { r.2.tcp with passedUp := r.2.tcp.passedUp ++ r.1.toList } }
  | .interceptor i matcher => .ok { s with rules := s.rules ++ [⟨matcher, .interceptor i⟩] }
  | .asyncIntercept i cb => .ok (s.asyncIntercept i cb)
  | .ruleInsertFront rule => .ok { s with rules := rule :: s.rules }
  | .ruleInsertBack rule => .ok { s with rules := s.rules ++ [rule] }
  | .asyncWait key cb => s.onTcp (.asyncWait key cb)
  | .attach key => s.onTcp (.attach key)
  | .detach key => s.onTcp (.detach key)
  | .task => s.onTcp .task

/-! ## The tables are those of `Tcp`

The loop over the rules is the one of `Net.RawFlow`, with callbacks that do
something. -/

/-- A callback of the application does not touch the tables. -/
theorem inside_tcp (s : Intercepting) (body : Body) : (s.inside body).tcp = s.tcp := by
  unfold inside
  induction body.calls generalizing s with
  | nil => rfl
  | cons c calls ih => exact ih (s.asyncIntercept c.1 c.2)

/-- Nor does a callback of a rule. -/
theorem invoke_tcp (s : Intercepting) (cb : FlowCallback) (twoEnd : TwoEnds) (body : Body) :
    (s.invoke cb twoEnd body).2.tcp = s.tcp := by
  cases cb with
  | interceptor i =>
      simp only [invoke]
      split
      · rfl
      · exact inside_tcp _ body
  | app cb => exact inside_tcp s body

/-- The loop over the rules does to the tables what it does for callbacks of
which only the exception is known. -/
theorem intercept_tcp (freed : ℕ → Byte) (s : Intercepting) (rules : List FlowRule)
    (bodies : List Body) (pkt : RawTcpPacket) :
    ∃ rs : List Rule, rs.map Rule.matcher = rules.map FlowRule.matcher ∧
      (s.intercept freed rules bodies pkt).1 = (s.tcp.intercept freed rs pkt).1 ∧
      (s.intercept freed rules bodies pkt).2.tcp = (s.tcp.intercept freed rs pkt).2 := by
  induction rules generalizing s bodies pkt with
  | nil => exact ⟨[], rfl, rfl, rfl⟩
  | cons rule rules ih =>
      by_cases hmatch : rule.matcher pkt.remoteEp pkt.localEp = true
      · have htcp := invoke_tcp (s.offer pkt) rule.cb pkt.twoEnd (bodies.headD {})
        cases hthrows : ((s.offer pkt).invoke rule.cb pkt.twoEnd (bodies.headD {})).1 with
        | true =>
            obtain ⟨rs, hrs, hout, htables⟩ := ih
              (((s.offer pkt).invoke rule.cb pkt.twoEnd (bodies.headD {})).2.withdraw pkt)
              bodies.tail (pkt.dangling freed)
            refine ⟨⟨rule.matcher, fun _ _ => true⟩ :: rs, by rw [List.map_cons, hrs]; rfl, ?_⟩
            simp only [intercept, Tcp.intercept, hmatch, hthrows, if_true]
            rw [hout, htables, withdraw, htcp]
            exact ⟨rfl, rfl⟩
        | false =>
            obtain ⟨rs, hrs, -⟩ := ih s bodies pkt
            refine ⟨⟨rule.matcher, fun _ _ => false⟩ :: rs, by rw [List.map_cons, hrs]; rfl, ?_⟩
            simp only [intercept, Tcp.intercept, hmatch, hthrows, Bool.false_eq_true, if_true,
              if_false, htcp, true_and]
            rfl
      · obtain ⟨rs, hrs, hout, htables⟩ := ih s bodies.tail pkt
        refine ⟨⟨rule.matcher, fun _ _ => false⟩ :: rs, by rw [List.map_cons, hrs]; rfl, ?_⟩
        simp only [intercept, Tcp.intercept, hmatch]
        exact ⟨hout, htables⟩

/-- The loop of `Tcp` does not read the rules in the table. -/
theorem tcp_intercept_rules (freed : ℕ → Byte) (t : Tcp) (rules rs : List Rule)
    (pkt : RawTcpPacket) :
    ({ t with rules := rules } : Tcp).intercept freed rs pkt =
      ((t.intercept freed rs pkt).1, { (t.intercept freed rs pkt).2 with rules := rules }) := by
  induction rs generalizing t pkt with
  | nil => rfl
  | cons rule rs ih =>
      simp only [Tcp.intercept]
      split
      · split
        · exact ih ((t.setRawState pkt.twoEnd ⟨[pkt], []⟩).erase pkt.twoEnd)
            (pkt.dangling freed)
        · rfl
      · exact ih t pkt

/-- **A packet is handled as by `tcp`**, with rules that match the same flows.
So the flows of `tcp` are served as in `Net.RawFlow`. -/
theorem packet_tcp {freed : ℕ → Byte} {s s' : Intercepting} {pktIn : Ipv4Packet}
    {bodies : List Body} (h : step s (.packet freed pktIn bodies) = .ok s') :
    ∃ rs : List Rule, rs.map Rule.matcher = s.rules.map FlowRule.matcher ∧
      Tcp.step { s.tcp with rules := rs } (.packet freed pktIn) = .ok { s'.tcp with rules := rs } := by
  obtain ⟨pkt, hpkt, h⟩ := bind_eq_ok.mp h
  obtain ⟨rs, hrs, hout, htables⟩ := s.intercept_tcp freed s.rules bodies pkt
  refine ⟨rs, hrs, ?_⟩
  cases hst : s.tcp.rcvRawStates pkt.twoEnd with
  | some st =>
      rw [hst] at h
      obtain ⟨t', ht', hs'⟩ := bind_eq_ok.mp h
      cases hs'
      obtain ⟨⟨out, u⟩, hmake, hu⟩ := bind_eq_ok.mp ht'
      cases hu
      simp only [Tcp.makePacket, hpkt, hst, ok_bind] at hmake
      simp only [Tcp.step, Tcp.makePacket, hpkt, hst, ok_bind]
      split at hmake
      · cases hmake
        rfl
      · cases hmake
        rfl
  | none =>
      rw [hst] at h
      cases h
      simp only [Tcp.step, Tcp.makePacket, hpkt, hst, ok_bind]
      rw [hout, htables]
      simp only [tcp_intercept_rules]
      rfl

/-! ## What one interceptor is handed

One desk is followed, whatever happens at the others. -/

/-- Whenever the loop calls interceptor `i`, a callback of `i` waits. -/
def AwaitsIn (freed : ℕ → Byte) (i : InterceptorId) (s : Intercepting) :
    List FlowRule → List Body → RawTcpPacket → Prop
  | [], _, _ => True
  | rule :: rules, bodies, pkt =>
      if rule.matcher pkt.remoteEp pkt.localEp then
        let r := (s.offer pkt).invoke rule.cb pkt.twoEnd (bodies.headD {})
        (rule.cb = .interceptor i → (s.interceptors i).waiting ≠ []) ∧
          (r.1 = true →
            AwaitsIn freed i (r.2.withdraw pkt) rules bodies.tail (pkt.dangling freed))
      else AwaitsIn freed i s rules bodies.tail pkt

/-- If the event brings the first packet of a flow, a callback of `i` waits
whenever interceptor `i` is called for it. -/
def Awaits (i : InterceptorId) (s : Intercepting) : Event → Prop
  | .packet freed pktIn bodies => ∀ pkt, tcpPkt pktIn = .ok pkt →
      s.tcp.rcvRawStates pkt.twoEnd = none → AwaitsIn freed i s s.rules bodies pkt
  | _ => True

/-- A callback of the application makes at most somebody wait. -/
theorem inside_desk {Q : Interceptor → Prop} (hwait : ∀ d cb, Q d → Q (Desk.wait d cb))
    (s : Intercepting) (i : InterceptorId) (body : Body) (hQ : Q (s.interceptors i)) :
    Q ((s.inside body).interceptors i) := by
  unfold inside
  induction body.calls generalizing s with
  | nil => exact hQ
  | cons c calls ih =>
      refine ih (s.asyncIntercept c.1 c.2) (Desk.update_desk (fun hi => ?_) fun _ => hQ)
      rw [hi]
      exact hwait _ c.2 hQ

/-- The callback of a rule: interceptor `i` is called if the rule is its own. -/
theorem invoke_desk {Q : Interceptor → Prop} (hwait : ∀ d cb, Q d → Q (Desk.wait d cb))
    (s : Intercepting) (i : InterceptorId) (cb : FlowCallback) (twoEnd : TwoEnds) (body : Body)
    (hQ : Q (if cb = .interceptor i then (s.interceptors i).onFlow twoEnd
      else s.interceptors i)) :
    Q ((s.invoke cb twoEnd body).2.interceptors i) := by
  cases cb with
  | app cb => exact inside_desk hwait s i body (by simpa using hQ)
  | interceptor i' =>
      have hcalled : Q (Function.update s.interceptors i'
          ((s.interceptors i').onFlow twoEnd) i) := by
        refine Desk.update_desk (fun hi => ?_) fun hi => ?_
        · rw [if_pos (by rw [hi])] at hQ
          rwa [hi]
        · rwa [if_neg (by simpa using hi)] at hQ
      simp only [invoke]
      split
      · exact hcalled
      · exact inside_desk hwait _ i body hcalled

/-- What is lost stays lost, in the loop. -/
theorem intercept_lossy (freed : ℕ → Byte) (i : InterceptorId) (s : Intercepting)
    (rules : List FlowRule) (bodies : List Body) (pkt : RawTcpPacket)
    (h : (s.interceptors i).Lossy) :
    ((s.intercept freed rules bodies pkt).2.interceptors i).Lossy := by
  induction rules generalizing s bodies pkt with
  | nil => exact h
  | cons rule rules ih =>
      have hinvoke : Desk.Lossy (((s.offer pkt).invoke rule.cb pkt.twoEnd
          (bodies.headD {})).2.interceptors i) := by
        refine invoke_desk (Q := Desk.Lossy) (fun d cb hd => hd.wait cb) _ _ _ _ _ ?_
        split
        · exact h.item pkt.twoEnd
        · exact h
      simp only [intercept]
      split
      · split
        · exact ih _ _ _ hinvoke
        · exact hinvoke
      · exact ih _ _ _ h

/-- **The loop loses nothing** if and only if interceptor `i` has a callback
whenever it is called.  By induction on the rules; one packet may call the same
interceptor under several of them. -/
theorem intercept_desk (freed : ℕ → Byte) (i : InterceptorId) (s : Intercepting)
    (rules : List FlowRule) (bodies : List Body) (pkt : RawTcpPacket)
    (h : (s.interceptors i).Lossless) :
    (AwaitsIn freed i s rules bodies pkt →
      ((s.intercept freed rules bodies pkt).2.interceptors i).Lossless) ∧
    (¬ AwaitsIn freed i s rules bodies pkt →
      ((s.intercept freed rules bodies pkt).2.interceptors i).Lossy) := by
  induction rules generalizing s bodies pkt with
  | nil => exact ⟨fun _ => h, fun hno => absurd trivial hno⟩
  | cons rule rules ih =>
      simp only [AwaitsIn, intercept]
      by_cases hmatch : rule.matcher pkt.remoteEp pkt.localEp = true
      swap
      · rw [if_neg hmatch, if_neg hmatch]
        exact ih _ _ _ h
      rw [if_pos hmatch, if_pos hmatch]
      -- The rule is tried, and then the rest of the rules if its callback throws.
      by_cases hwaits : rule.cb = .interceptor i → (s.interceptors i).waiting ≠ []
      · have hinvoke : Desk.Lossless (((s.offer pkt).invoke rule.cb pkt.twoEnd
            (bodies.headD {})).2.interceptors i) := by
          refine invoke_desk (Q := Desk.Lossless) (fun d cb hd => hd.wait cb) _ _ _ _ _ ?_
          split
          · rename_i hcb
            exact h.item (hwaits hcb) pkt.twoEnd
          · exact h
        cases hthrows : ((s.offer pkt).invoke rule.cb pkt.twoEnd (bodies.headD {})).1 with
        -- The flow is withdrawn, and the loop goes on with the next rule.
        | true =>
            obtain ⟨hyes, hno⟩ := ih (((s.offer pkt).invoke rule.cb pkt.twoEnd
              (bodies.headD {})).2.withdraw pkt) bodies.tail (pkt.dangling freed) hinvoke
            refine ⟨fun hawaits => hyes (hawaits.2 rfl), fun hnot => hno fun hrest => ?_⟩
            exact hnot ⟨hwaits, fun _ => hrest⟩
        | false =>
            refine ⟨fun _ => hinvoke, fun hnot => absurd ⟨hwaits, fun hfalse => ?_⟩ hnot⟩
            cases hfalse
      · -- The flow is lost here, whatever the rest of the loop does.
        obtain ⟨hcb, hnone⟩ : rule.cb = .interceptor i ∧ (s.interceptors i).waiting = [] := by
          simpa using hwaits
        have hinvoke : Desk.Lossy (((s.offer pkt).invoke rule.cb pkt.twoEnd
            (bodies.headD {})).2.interceptors i) := by
          refine invoke_desk (Q := Desk.Lossy) (fun d cb hd => hd.wait cb) _ _ _ _ _ ?_
          rw [if_pos hcb]
          exact h.lossy_item hnone pkt.twoEnd
        refine ⟨fun hawaits => absurd hawaits.1 hwaits, fun _ => ?_⟩
        split
        · exact intercept_lossy freed i _ _ _ _ hinvoke
        · exact hinvoke

/-- What only the tables see, no interceptor sees. -/
theorem onTcp_interceptors {s s' : Intercepting} {e : Tcp.Event} (h : s.onTcp e = .ok s') :
    s'.interceptors = s.interceptors := by
  obtain ⟨t', -, hs'⟩ := bind_eq_ok.mp h
  cases hs'
  rfl

/-- **One event for one interceptor**: nothing is lost if and only if a
callback waits whenever the interceptor is called, and what is lost stays
lost. -/
theorem step_desk {s s' : Intercepting} {e : Event} (i : InterceptorId)
    (hstep : step s e = .ok s') :
    ((s.interceptors i).Lossless →
      (Awaits i s e → (s'.interceptors i).Lossless) ∧
      (¬ Awaits i s e → (s'.interceptors i).Lossy)) ∧
    ((s.interceptors i).Lossy → (s'.interceptors i).Lossy) := by
  -- Most events leave the interceptors alone.
  have hsame : Awaits i s e → s'.interceptors = s.interceptors →
      ((s.interceptors i).Lossless →
        (Awaits i s e → (s'.interceptors i).Lossless) ∧
        (¬ Awaits i s e → (s'.interceptors i).Lossy)) ∧
      ((s.interceptors i).Lossy → (s'.interceptors i).Lossy) := by
    intro hawaits heq
    rw [heq]
    exact ⟨fun h => ⟨fun _ => h, fun hno => absurd hawaits hno⟩, id⟩
  cases e with
  | packet freed pktIn bodies =>
      obtain ⟨pkt, hpkt, h⟩ := bind_eq_ok.mp hstep
      cases hst : s.tcp.rcvRawStates pkt.twoEnd with
      | some st =>
          rw [hst] at h
          refine hsame (fun pkt' hpkt' hnone => ?_) (onTcp_interceptors h)
          obtain rfl := Except.ok.inj (hpkt.symm.trans hpkt')
          rw [hst] at hnone
          cases hnone
      | none =>
          rw [hst] at h
          cases h
          have hiff : Awaits i s (.packet freed pktIn bodies) ↔
              AwaitsIn freed i s s.rules bodies pkt := by
            refine ⟨fun h => h pkt hpkt hst, fun h pkt' hpkt' _ => ?_⟩
            obtain rfl := Except.ok.inj (hpkt.symm.trans hpkt')
            exact h
          rw [hiff]
          exact ⟨fun h => intercept_desk freed i s s.rules bodies pkt h,
            fun h => intercept_lossy freed i s s.rules bodies pkt h⟩
  | asyncIntercept i' cb =>
      cases hstep
      refine ⟨fun h => ⟨fun _ => ?_, fun hno => absurd trivial hno⟩, fun h => ?_⟩
      · exact inside_desk (Q := Desk.Lossless) (fun d cb hd => hd.wait cb) s i
          { calls := [(i', cb)] } h
      · exact inside_desk (Q := Desk.Lossy) (fun d cb hd => hd.wait cb) s i
          { calls := [(i', cb)] } h
  | interceptor i' matcher =>
      cases hstep
      exact hsame trivial rfl
  | ruleInsertFront rule =>
      cases hstep
      exact hsame trivial rfl
  | ruleInsertBack rule =>
      cases hstep
      exact hsame trivial rfl
  | asyncWait key cb => exact hsame trivial (onTcp_interceptors hstep)
  | attach key => exact hsame trivial (onTcp_interceptors hstep)
  | detach key => exact hsame trivial (onTcp_interceptors hstep)
  | task => exact hsame trivial (onTcp_interceptors hstep)

/-- **Which intercepted flows are lost**: in every run, no flow for which an
interceptor is called is, and the `i`-th goes to the `i`-th callback, if and
only if a callback is waiting at every such call. -/
theorem lossless_iff {i : InterceptorId} {es : List Event} {s : Intercepting}
    (hrun : run step create es = .ok s) :
    (s.interceptors i).Lossless ↔ Admitted step (Awaits i) create es := by
  have hadm : Admitted step (fun _ _ => True) create es :=
    admitted_of_forall (fun _ _ => trivial) create es
  have hdich : (Admitted step (Awaits i) create es ∧ (s.interceptors i).Lossless) ∨
      (¬ Admitted step (Awaits i) create es ∧ (s.interceptors i).Lossy) := by
    refine run_dichotomy (P := fun s => (s.interceptors i).Lossless)
      (L := fun s => (s.interceptors i).Lossy) ?_ ?_ Desk.lossless_empty hadm hrun
    · exact fun s e s' hd _ hstep => (step_desk i hstep).1 hd
    · exact fun s e s' hd _ hstep => (step_desk i hstep).2 hd
  rcases hdich with ⟨hyes, hd⟩ | ⟨hno, hd⟩
  · exact iff_of_true hd hyes
  · exact iff_of_false (fun hlossless => hlossless.not_lossy hd) hno

end Intercepting

end Mstack
