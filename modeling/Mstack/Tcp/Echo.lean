import Mstack.Tcp.Delivery
import Mstack.Tcp.SendQueue
import Mstack.Tcp.Socket

/-!
# The echo application

`main.cpp` serves every connection with a loop through callbacks:
`async_read_and_echo` reads up to 2000 bytes into an array, the callback of the
read writes what the array has got, and the callback of the write reads again.

An `Echo` is a block with this application.  The array is filled in two places
of the block, when the read is issued and when a segment arrives, and it is
written when the handler of the read runs.  In between any segments may arrive
and other handlers may run, and the array must not be touched.

### Main result

`echo_conserves`: from any block that `tcb_manager` makes, for any segments and
any order of handlers, what has been written back, what is in hand and what is
buffered are together the text taken from the peer; no read waits while bytes
are buffered; and when the handlers have run, everything has been written back
and a read of 2000 bytes waits.  Nothing is assumed of the peer.

It is a statement about the states that are reached.  A run may abort: the
peer's window is the size of the send queue, and what the application writes
back may not fit it (`Tcp.SendQueue`).

### Outline

`Phase` says where the loop is: before the connection callback, a read waits, a
read is about to be told, a write is about to be told.  From the connection
callback on **exactly one operation is outstanding**, which is why one array is
enough, and why no second reader ever waits (`Phase.one_reader`).
-/

namespace Mstack

open EventSystem (bind_eq_ok Admitted)

/-- `async_read_and_echo`, on a block: `buf` is the array it reads into.  The
callbacks share it, as they capture the same `std::shared_ptr`. -/
structure Echo where
  tcb : Tcb
  buf : List Byte

namespace Echo

/-- The size of the array. -/
def bufSize : ℕ := 2000

/-- The callback that `async_read_and_echo` passes to `async_read_some`. -/
def onRead : CallbackId := 0

/-- The callback that this one passes to `async_write`. -/
def onWrite : CallbackId := 1

/-- The array, as `std::make_shared` makes it. -/
def array : List Byte := List.replicate bufSize 0

/-- What the application does in the callback of a handler:
`async_read_and_echo`, or `async_write` of what has been read. -/
def calls (buf : List Byte) : Task → List AppCall
  | .connectionEstablished => [.read bufSize onRead]
  | .readDone _ nbytes => [.write (buf.take nbytes) onWrite]
  | .writeDone _ _ => [.read bufSize onRead]
  | .sendLoop => []

/-- The array after these copies, each of which goes to its front. -/
def fill (buf : List Byte) (copied : List (CallbackId × List Byte)) : List Byte :=
  copied.foldl (fun buf copied => Socket.copyTo ⟨0, bufSize⟩ buf copied.2) buf

/-- The array after the block has become `tcb'`.  What the block has copied in
between, as its history says, has gone to the front of the array. -/
def filled (tcb tcb' : Tcb) (buf : List Byte) : List Byte :=
  fill buf (tcb'.trace.copied.drop tcb.trace.copied.length)

/-- What can happen: a segment arrives, or the `k`-th handler runs. -/
inductive Event where
  | process (seg : Segment)
  | task (k : ℕ)
  deriving DecidableEq, Repr

/-- What that is for the block. -/
def blockEvent (s : Echo) : Event → Mstack.Event
  | .process seg => .process seg
  | .task k => .task k (s.tcb.ioCtx[k]?.elim [] (calls s.buf))

/-- One event. -/
def step (isn : BitVec 32) (s : Echo) (e : Event) : Except Fault Echo := do
  let tcb ← Tcb.step isn s.tcb (s.blockEvent e)
  return { tcb, buf := filled s.tcb tcb s.buf }

/-- A run of events. -/
def run (isn : BitVec 32) (s : Echo) (es : List Event) : Except Fault Echo :=
  EventSystem.run (step isn) s es

/-! ## Where the loop is

The invariant, and one lemma for each thing that can happen. -/

/-- **Where the loop is.**  In each phase but the first, one operation is
outstanding. -/
inductive Phase (s : Echo) : Prop where
  /-- The connection callback has not been called. -/
  | before (hcalled : ¬ s.tcb.Connected) (hcopied : s.tcb.inbox.copied = [])
      (hreaders : s.tcb.inbox.readers = []) (hdones : s.tcb.inbox.completions = [])
      (hreports : Tcb.writeDones s.tcb.ioCtx = []) (hwritten : s.tcb.written = [])
  /-- The read waits: everything that has been read has been written. -/
  | reads (hcalled : s.tcb.Connected) (hreaders : s.tcb.inbox.readers = [⟨bufSize, onRead⟩])
      (hempty : s.tcb.inbox.pq.data = []) (hdones : s.tcb.inbox.completions = [])
      (hreports : Tcb.writeDones s.tcb.ioCtx = []) (hall : s.tcb.handed = s.tcb.written)
  /-- The array has got `part`, and the callback is about to be told. -/
  | answers (part : List Byte) (hcalled : s.tcb.Connected) (hreaders : s.tcb.inbox.readers = [])
      (hdones : s.tcb.inbox.completions = [(onRead, part.length)])
      (hreports : Tcb.writeDones s.tcb.ioCtx = []) (hpart : part ≠ [])
      (hle : part.length ≤ bufSize) (hbuf : s.buf.take part.length = part)
      (hall : s.tcb.handed = s.tcb.written ++ part)
  /-- It has been written, and the callback of the write is about to be
  called. -/
  | writes (nbytes : ℕ) (hcalled : s.tcb.Connected) (hreaders : s.tcb.inbox.readers = [])
      (hdones : s.tcb.inbox.completions = [])
      (hreports : Tcb.writeDones s.tcb.ioCtx = [(onWrite, nbytes)])
      (hall : s.tcb.handed = s.tcb.written)

section Phase

variable {s : Echo} {t' : Tcb}

/-- Where nothing is copied, the array is as it was. -/
theorem filled_of_copied_eq {t : Tcb} (buf : List Byte)
    (h : t'.inbox.copied = t.inbox.copied) : filled t t' buf = buf := by
  have hcopied : t'.trace.copied = t.trace.copied := h
  rw [filled, hcopied, List.drop_length]
  rfl

/-- One copy. -/
theorem filled_of_copied {t : Tcb} (buf : List Byte) {cb : CallbackId} {bytes : List Byte}
    (h : t'.inbox.copied = t.inbox.copied ++ [(cb, bytes)]) :
    filled t t' buf = bytes ++ buf.drop bytes.length := by
  have hcopied : t'.trace.copied = t.trace.copied ++ [(cb, bytes)] := h
  rw [filled, hcopied, List.drop_left]
  simp [fill, Socket.copyTo]

theorem handed_of_copied {t : Tcb} {cb : CallbackId} {bytes : List Byte}
    (h : t'.inbox.copied = t.inbox.copied ++ [(cb, bytes)]) : t'.handed = t.handed ++ bytes := by
  have hcopied : t'.trace.copied = t.trace.copied ++ [(cb, bytes)] := h
  simp [Tcb.handed, hcopied]

theorem handed_of_copied_eq {t : Tcb} (h : t'.inbox.copied = t.inbox.copied) :
    t'.handed = t.handed := by
  have hcopied : t'.trace.copied = t.trace.copied := h
  rw [Tcb.handed, hcopied, Tcb.handed]

/-- The phase is read off what the application sees of the block. -/
theorem Phase.congr {buf : List Byte} (h : Phase s) (hinbox : t'.inbox = s.tcb.inbox)
    (hreports' : Tcb.writeDones t'.ioCtx = Tcb.writeDones s.tcb.ioCtx)
    (hwritten' : t'.written = s.tcb.written) (hcalled' : t'.Connected ↔ s.tcb.Connected)
    (hbuf' : buf = s.buf) : Phase ⟨t', buf⟩ := by
  have hhanded : t'.handed = s.tcb.handed := handed_of_copied_eq (by rw [hinbox])
  subst hbuf'
  cases h with
  | before hcalled hcopied hreaders hdones hreports hwritten =>
      exact .before (hcalled'.not.mpr hcalled) (hinbox ▸ hcopied) (hinbox ▸ hreaders)
        (hinbox ▸ hdones) (hreports'.trans hreports) (hwritten'.trans hwritten)
  | reads hcalled hreaders hempty hdones hreports hall =>
      exact .reads (hcalled'.mpr hcalled) (hinbox ▸ hreaders) (hinbox ▸ hempty) (hinbox ▸ hdones)
        (hreports'.trans hreports) (hhanded.trans (hall.trans hwritten'.symm))
  | answers part hcalled hreaders hdones hreports hpart hle hbuf hall =>
      refine .answers part (hcalled'.mpr hcalled) (hinbox ▸ hreaders) (hinbox ▸ hdones)
        (hreports'.trans hreports) hpart hle hbuf ?_
      rw [hhanded, hall, hwritten']
  | writes nbytes hcalled hreaders hdones hreports hall =>
      exact .writes nbytes (hcalled'.mpr hcalled) (hinbox ▸ hreaders) (hinbox ▸ hdones)
        (hreports'.trans hreports) (hhanded.trans (hall.trans hwritten'.symm))

/-- **`async_read_and_echo`**, called on the block `u`, between two
operations. -/
theorem Phase.issue {u : Tcb} {buf : List Byte} (hcalled : u.Connected)
    (hreaders : u.inbox.readers = []) (hdones : u.inbox.completions = [])
    (hreports : Tcb.writeDones u.ioCtx = []) (hall : u.handed = u.written) :
    Phase ⟨u.asyncReadSome bufSize onRead,
      filled u (u.asyncReadSome bufSize onRead) buf⟩ := by
  rw [Tcb.asyncReadSome_eq]
  by_cases hempty : u.rcv.pq.data = []
  · rw [if_pos hempty]
    refine .reads hcalled ?_ hempty hdones hreports hall
    show u.inbox.readers ++ [_] = _
    rw [hreaders, List.nil_append]
  · rw [if_neg hempty]
    have hinbox := Tcb.inbox_afterRead u bufSize onRead
    set n := min u.inbox.pq.size bufSize with hn
    have hpos : 0 < n := by
      have hsize := List.length_pos_of_ne_nil hempty
      rw [← CircularBuffer.size_eq] at hsize
      exact lt_min hsize (by decide)
    have hlen : (u.inbox.pq.data.take n).length = n := by
      rw [List.length_take, ← CircularBuffer.size_eq]
      exact Nat.min_eq_left (Nat.min_le_left _ _)
    have hcopied : (u.afterRead bufSize onRead).inbox.copied =
        u.inbox.copied ++ [(onRead, u.inbox.pq.data.take n)] := by rw [hinbox]; rfl
    refine .answers (u.inbox.pq.data.take n) hcalled ?_ ?_ ?_ ?_ ?_ ?_ ?_
    · rw [hinbox]
      exact hreaders
    · rw [hinbox, hlen]
      show u.inbox.completions ++ [_] = _
      rw [hdones, List.nil_append]
    · show Tcb.writeDones (u.ioCtx ++ [_]) = []
      rw [Tcb.writeDones_append, hreports]
      rfl
    · exact List.ne_nil_of_length_pos (hpos.trans_eq hlen.symm)
    · rw [hlen]
      exact Nat.min_le_right _ _
    · rw [filled_of_copied buf hcopied, List.take_left]
    · rw [handed_of_copied hcopied, hall]
      rfl

/-- **An arriving segment.**  If it finds the read waiting, the front of its
text goes to the array and the completion is posted; otherwise its text is
queued or dropped, and the loop does not notice. -/
theorem Phase.process {isn : BitVec 32} {seg : Segment} (h : Phase s)
    (hprocess : s.tcb.process isn seg = .ok t') : Phase ⟨t', filled s.tcb t' s.buf⟩ := by
  have hwritten' : t'.written = s.tcb.written := (Tcb.process_keeps hprocess).written
  have hcalled' : t'.Connected ↔ s.tcb.Connected := by
    rw [Tcb.Connected, Tcb.process_called hprocess, Tcb.Connected]
  have hreports' : Tcb.writeDones t'.ioCtx = Tcb.writeDones s.tcb.ioCtx := by
    have hreported := Tcb.process_reported hprocess
    rw [Tcb.reported, Tcb.reported, Tcb.writesCalled, Tcb.writesCalled,
      Tcb.process_called hprocess] at hreported
    exact List.append_cancel_left hreported
  -- The segment brings no text, meets the read, or is buffered.
  rcases Tcb.process_inbox hprocess with
    ⟨-, hinbox⟩ | ⟨htakes, reader, readers, hwaits, hempty, hinbox⟩ | ⟨-, hnone, -, hinbox⟩
  · exact h.congr hinbox hreports' hwritten' hcalled' (filled_of_copied_eq _ (by rw [hinbox]))
  · -- The text is for the read that waits.
    cases h with
    | reads hcalled hreaders _ hdones hreports hall =>
        obtain ⟨rfl, rfl⟩ := List.cons.inj (hwaits.symm.trans hreaders)
        set n := min seg.text.length bufSize with hn
        have hpos : 0 < n := lt_min htakes.guarded.text (by decide)
        have hlen : (seg.text.take n).length = n := by
          rw [List.length_take]
          exact Nat.min_eq_left (Nat.min_le_left _ _)
        have hcopied : t'.inbox.copied = s.tcb.inbox.copied ++ [(onRead, seg.text.take n)] := by
          rw [hinbox]
          rfl
        refine .answers (seg.text.take n) (hcalled'.mpr hcalled) ?_ ?_ (hreports'.trans hreports)
          ?_ ?_ ?_ ?_
        · rw [hinbox]
          rfl
        · rw [hinbox, hlen]
          show s.tcb.inbox.completions ++ [_] = _
          rw [hdones, List.nil_append]
        · exact List.ne_nil_of_length_pos (hpos.trans_eq hlen.symm)
        · rw [hlen]
          exact Nat.min_le_right _ _
        · rw [filled_of_copied s.buf hcopied, List.take_left]
        · rw [handed_of_copied hcopied, hall, hwritten']
    -- In the other phases no read waits.
    | before _ _ hreaders _ _ _ => cases hwaits.symm.trans hreaders
    | answers _ _ hreaders _ _ _ _ _ _ => cases hwaits.symm.trans hreaders
    | writes _ _ hreaders _ _ _ => cases hwaits.symm.trans hreaders
  · -- Nobody waits, so the text is buffered.
    have hcopied : t'.inbox.copied = s.tcb.inbox.copied := by rw [hinbox]; rfl
    have hreaders' : t'.inbox.readers = s.tcb.inbox.readers := by rw [hinbox]; rfl
    have hdones' : t'.inbox.completions = s.tcb.inbox.completions := by rw [hinbox]; rfl
    have hhanded := handed_of_copied_eq hcopied
    rw [filled_of_copied_eq s.buf hcopied]
    cases h with
    | before hcalled hnothing hreaders hdones hreports hwritten =>
        exact .before (hcalled'.not.mpr hcalled) (hcopied.trans hnothing)
          (hreaders'.trans hreaders) (hdones'.trans hdones) (hreports'.trans hreports)
          (hwritten'.trans hwritten)
    | reads _ hreaders _ _ _ _ => cases hnone.symm.trans hreaders
    | answers part hcalled hreaders hdones hreports hpart hle hbuf hall =>
        refine .answers part (hcalled'.mpr hcalled) (hreaders'.trans hreaders)
          (hdones'.trans hdones) (hreports'.trans hreports) hpart hle hbuf ?_
        rw [hhanded, hall, hwritten']
    | writes nbytes hcalled hreaders hdones hreports hall =>
        exact .writes nbytes (hcalled'.mpr hcalled) (hreaders'.trans hreaders)
          (hdones'.trans hdones) (hreports'.trans hreports)
          (hhanded.trans (hall.trans hwritten'.symm))

/-! ### Handlers -/

/-- A handler that is taken off the queue takes its report with it. -/
theorem writeDones_eraseIdx {tasks : List Task} {k : ℕ} {task : Task}
    (hk : tasks[k]? = some task) :
    (Tcb.writeDones tasks).Perm (Tcb.writeDones [task] ++ Tcb.writeDones (tasks.eraseIdx k)) := by
  obtain ⟨hlt, rfl⟩ := List.getElem?_eq_some_iff.mp hk
  have hperm := (List.getElem_cons_eraseIdx_perm hlt).symm
  rw [← Tcb.writeDones_append]
  exact hperm.filterMap _

/-- A handler that reports no write leaves the reports. -/
theorem writeDones_enterTask {k : ℕ} {task : Task} {t : Tcb} (hk : t.ioCtx[k]? = some task)
    (hno : Tcb.writeDones [task] = []) {reports : List (CallbackId × ℕ)}
    (hreports : Tcb.writeDones t.ioCtx = reports) (hshort : reports.length ≤ 1) :
    Tcb.writeDones (t.enterTask k task).ioCtx = reports := by
  have hperm := writeDones_eraseIdx hk
  rw [hno, List.nil_append, hreports] at hperm
  rw [Tcb.enterTask_ioCtx]
  match reports, hshort with
  | [], _ => exact hperm.nil_eq.symm
  | [_], _ => exact (List.perm_singleton.mp hperm.symm)

/-- The connection callback is called once. -/
theorem not_connected_of_posted {isn : BitVec 32} {k : ℕ} {t : Tcb} (hlife : Tcb.Life isn t)
    (hk : t.ioCtx[k]? = some .connectionEstablished) : ¬ t.Connected := by
  intro hcalled
  have hposted := hlife.posted_eq
  have hle := hlife.entered_le
  have hone := List.count_pos_iff.mpr (List.mem_of_getElem? hk)
  have htwo := List.count_pos_iff.mpr hcalled
  rw [Tcb.posted] at hposted
  omega

theorem filled_congr {t u : Tcb} (h : u.inbox.copied = t.inbox.copied) (buf : List Byte) :
    filled u t' buf = filled t t' buf := by
  have hcopied : u.trace.copied = t.trace.copied := h
  rw [filled, filled, hcopied]

/-- At most one write is reported. -/
theorem Phase.reports_short (h : Phase s) : (Tcb.writeDones s.tcb.ioCtx).length ≤ 1 := by
  cases h with
  | before _ _ _ _ hreports _ => simp [hreports]
  | reads _ _ _ _ hreports _ => simp [hreports]
  | answers _ _ _ _ hreports _ _ _ _ => simp [hreports]
  | writes _ _ _ _ hreports _ => simp [hreports]

theorem enterTask_connected {k : ℕ} {task : Task} {t : Tcb}
    (htask : task ≠ .connectionEstablished) : (t.enterTask k task).Connected ↔ t.Connected := by
  rw [Tcb.Connected, Tcb.enterTask_called, Tcb.Connected]
  cases task with
  | connectionEstablished => exact (htask rfl).elim
  | _ => simp [Tcb.invokes]

theorem enterTask_written (t : Tcb) (k : ℕ) (task : Task) :
    (t.enterTask k task).written = t.written := by
  rw [Tcb.written, Tcb.enterTask_written, Tcb.written]

/-- The handler that sends is none of the application's business. -/
theorem Phase.sendLoop {k : ℕ} (h : Phase s) (hk : s.tcb.ioCtx[k]? = some .sendLoop)
    (hrun : (s.tcb.enterTask k .sendLoop).sendLoop = .ok t') :
    Phase ⟨t', filled s.tcb t' s.buf⟩ := by
  have hinbox := Tcb.inbox_enterTask hk rfl
  have hreports := writeDones_enterTask hk rfl rfl h.reports_short
  obtain ⟨hinbox', hreports', hwritten', hcalled'⟩ := Tcb.sendLoop_preserves
    (P := fun u => u.inbox = s.tcb.inbox ∧ Tcb.writeDones u.ioCtx = Tcb.writeDones s.tcb.ioCtx ∧
      u.written = s.tcb.written ∧ (u.Connected ↔ s.tcb.Connected))
    (fun u pq hu _ => hu)
    ⟨hinbox, hreports, enterTask_written _ _ _, enterTask_connected (by decide)⟩ hrun
  exact h.congr hinbox' hreports' hwritten' hcalled' (filled_of_copied_eq _ (by rw [hinbox']))

/-- **The connection callback**: the loop begins. -/
theorem Phase.connectionEstablished {isn : BitVec 32} {k : ℕ} (h : Phase s)
    (hlife : Tcb.Life isn s.tcb) (hk : s.tcb.ioCtx[k]? = some .connectionEstablished)
    (hrun : (s.tcb.enterTask k .connectionEstablished).appCalls [.read bufSize onRead] = .ok t') :
    Phase ⟨t', filled s.tcb t' s.buf⟩ := by
  obtain rfl := Except.ok.inj hrun
  have hnot := not_connected_of_posted hlife hk
  have hinbox := Tcb.inbox_enterTask hk rfl
  rw [← filled_congr (u := s.tcb.enterTask k .connectionEstablished) (by rw [hinbox])]
  cases h with
  | before hcalled hcopied hreaders hdones hreports hwritten =>
      refine .issue ?_ ?_ ?_ ?_ ?_
      · rw [Tcb.Connected, Tcb.enterTask_called]
        exact List.mem_append_right _ (List.mem_singleton.mpr rfl)
      · rw [hinbox]
        exact hreaders
      · rw [hinbox]
        exact hdones
      · exact writeDones_enterTask hk rfl hreports (Nat.zero_le 1)
      · have hnothing : s.tcb.trace.copied = [] := hcopied
        rw [handed_of_copied_eq (t := s.tcb) (by rw [hinbox]), enterTask_written, hwritten,
          Tcb.handed, hnothing]
        rfl
  | reads hcalled _ _ _ _ _ => exact (hnot hcalled).elim
  | answers _ hcalled _ _ _ _ _ _ _ => exact (hnot hcalled).elim
  | writes _ hcalled _ _ _ _ => exact (hnot hcalled).elim

/-- **The callback of the read**: what the array has got is written. -/
theorem Phase.readDone {k : ℕ} {cb : CallbackId} {len : ℕ} (h : Phase s)
    (hk : s.tcb.ioCtx[k]? = some (.readDone cb len))
    (hrun : (s.tcb.enterTask k (.readDone cb len)).runTask [.write (s.buf.take len) onWrite]
      (.readDone cb len) = .ok t') : Phase ⟨t', filled s.tcb t' s.buf⟩ := by
  have hmem : (cb, len) ∈ s.tcb.inbox.completions :=
    Tcb.mem_readDones.mpr (List.mem_of_getElem? hk)
  cases h with
  | answers part hcalled hreaders hdones hreports hpart hle hbuf hall =>
      obtain ⟨rfl, rfl, hinbox⟩ := Tcb.inbox_enterTask_readDone hk hdones
      obtain ⟨v, hv, hsend⟩ := bind_eq_ok.mp hrun
      obtain ⟨pq, -, rfl⟩ := Tcb.makeAndSendPkt_ok.mp hsend
      obtain ⟨w, hw, hnil⟩ := bind_eq_ok.mp hv
      obtain rfl := Except.ok.inj hnil
      obtain ⟨pq', -, -, rfl⟩ := Tcb.asyncWrite_ok.mp hw
      set u := s.tcb.enterTask k (.readDone onRead part.length) with hu
      have hinbox' : ((u.afterWrite pq' (s.buf.take part.length) onWrite).afterPacket pq).inbox =
          { s.tcb.inbox with completions := [] } := by
        rw [Tcb.inbox_afterPacket, Tcb.inbox_afterWrite, hinbox]
      have hcopied : ((u.afterWrite pq' (s.buf.take part.length) onWrite).afterPacket
          pq).inbox.copied = s.tcb.inbox.copied := by rw [hinbox']
      rw [filled_of_copied_eq s.buf hcopied]
      refine .writes part.length ?_ ?_ ?_ ?_ ?_
      · exact (enterTask_connected (by simp)).mpr hcalled
      · rw [hinbox']
        exact hreaders
      · rw [hinbox']
      · show Tcb.writeDones (u.ioCtx ++ [.sendLoop] ++ [.writeDone onWrite _]) = _
        rw [Tcb.writeDones_append, Tcb.writeDones_append,
          writeDones_enterTask hk rfl hreports (Nat.zero_le 1), hbuf]
        rfl
      · rw [handed_of_copied_eq hcopied, hall]
        show _ = (u.trace.written ++ [s.buf.take part.length]).flatten
        rw [List.flatten_append, List.flatten_singleton, hbuf]
        exact congrArg (· ++ part) (enterTask_written _ _ _).symm
  | before _ _ _ hdones _ _ => rw [hdones] at hmem; cases hmem
  | reads _ _ _ hdones _ _ => rw [hdones] at hmem; cases hmem
  | writes _ _ _ hdones _ _ => rw [hdones] at hmem; cases hmem

/-- **The callback of the write**: the loop goes on. -/
theorem Phase.writeDone {k : ℕ} {cb : CallbackId} {len : ℕ} (h : Phase s)
    (hk : s.tcb.ioCtx[k]? = some (.writeDone cb len))
    (hrun : (s.tcb.enterTask k (.writeDone cb len)).appCalls [.read bufSize onRead] = .ok t') :
    Phase ⟨t', filled s.tcb t' s.buf⟩ := by
  obtain rfl := Except.ok.inj hrun
  have hinbox := Tcb.inbox_enterTask hk rfl
  have hperm := writeDones_eraseIdx hk
  rw [← filled_congr (u := s.tcb.enterTask k (.writeDone cb len)) (by rw [hinbox])]
  cases h with
  | writes nbytes hcalled hreaders hdones hreports hall =>
      refine .issue ?_ ?_ ?_ ?_ ?_
      · exact (enterTask_connected (by simp)).mpr hcalled
      · rw [hinbox]
        exact hreaders
      · rw [hinbox]
        exact hdones
      · rw [Tcb.enterTask_ioCtx]
        have hlength := hperm.length_eq
        rw [hreports, List.length_append] at hlength
        exact List.length_eq_zero_iff.mp (by simpa [Tcb.writeDones] using hlength)
      · rw [handed_of_copied_eq (t := s.tcb) (by rw [hinbox]), enterTask_written, hall]
  | before _ _ _ _ hreports _ => rw [hreports] at hperm; cases hperm.nil_eq
  | reads _ _ _ _ hreports _ => rw [hreports] at hperm; cases hperm.nil_eq
  | answers _ _ _ _ hreports _ _ _ _ => rw [hreports] at hperm; cases hperm.nil_eq

/-- **One event.**  A segment, or one of the four kinds of handler.  The life
cycle is needed for the connection callback only: it is called once. -/
theorem Phase.step {isn : BitVec 32} {e : Event} {s' : Echo} (h : Phase s)
    (hlife : Tcb.Life isn s.tcb) (hstep : s.step isn e = .ok s') : Phase s' := by
  obtain ⟨t', ht', hs'⟩ := bind_eq_ok.mp hstep
  obtain rfl := Except.ok.inj hs'
  cases e with
  | process seg => exact h.process ht'
  | task k =>
      cases hk : s.tcb.ioCtx[k]? with
      | none =>
          rw [blockEvent, Tcb.step_task_none _ hk] at ht'
          obtain rfl := Except.ok.inj ht'
          rw [filled_of_copied_eq s.buf rfl]
          exact h
      | some task =>
          rw [blockEvent, hk, Tcb.step_task_some _ hk] at ht'
          cases task with
          | connectionEstablished => exact h.connectionEstablished hlife hk ht'
          | readDone cb len => exact h.readDone hk ht'
          | writeDone cb len => exact h.writeDone hk ht'
          | sendLoop => exact h.sendLoop hk ht'

/-- Whoever calls back has been called. -/
theorem Phase.connected_of_posted {k : ℕ} {task : Task} (h : Phase s)
    (hk : s.tcb.ioCtx[k]? = some task) (htask : task ≠ .sendLoop) :
    (s.tcb.enterTask k task).Connected := by
  have hmem := List.mem_of_getElem? hk
  cases task with
  | connectionEstablished =>
      rw [Tcb.Connected, Tcb.enterTask_called]
      exact List.mem_append_right _ (List.mem_singleton.mpr rfl)
  | readDone cb len =>
      have hdone : (cb, len) ∈ s.tcb.inbox.completions := Tcb.mem_readDones.mpr hmem
      refine (enterTask_connected (by simp)).mpr ?_
      cases h with
      | before _ _ _ hdones _ _ => rw [hdones] at hdone; cases hdone
      | reads hcalled _ _ _ _ _ => exact hcalled
      | answers _ hcalled _ _ _ _ _ _ _ => exact hcalled
      | writes _ hcalled _ _ _ _ => exact hcalled
  | writeDone cb len =>
      have hreport := (writeDones_eraseIdx hk).mem_iff.mpr
        (List.mem_append_left _ (List.mem_singleton.mpr rfl) : (cb, len) ∈ _)
      refine (enterTask_connected (by simp)).mpr ?_
      cases h with
      | before _ _ _ _ hreports _ => rw [hreports] at hreport; cases hreport
      | reads hcalled _ _ _ _ _ => exact hcalled
      | answers _ hcalled _ _ _ _ _ _ _ => exact hcalled
      | writes _ hcalled _ _ _ _ => exact hcalled
  | sendLoop => exact (htask rfl).elim

end Phase

/-! ## Runs

With the life cycle and the order of readers, which the phase needs. -/

/-- What holds in every state of the application. -/
structure Serving (isn : BitVec 32) (s : Echo) : Prop where
  life : Tcb.Life isn s.tcb
  reading : ∃ ids, Tcb.Reading False ids s.tcb
  phase : Phase s

section Serving

variable {isn : BitVec 32} {s s' : Echo} {e : Event}

theorem serving_opened {t : Tcb} (h : Tcb.Opened isn t) (buf : List Byte) :
    Serving isn ⟨t, buf⟩ := by
  refine ⟨h.life, ⟨[], h.reading False⟩, ?_⟩
  cases h with
  | passive remoteEp localEp junkSend junkRcv => exact .before List.not_mem_nil rfl rfl rfl rfl rfl
  | active remoteEp localEp junkSend junkRcv h =>
      rw [Tcb.startConnecting_eq] at h
      obtain rfl := Except.ok.inj h
      exact .before List.not_mem_nil rfl rfl rfl rfl rfl

/-- Nobody waits behind the read of the application. -/
theorem Phase.one_reader (h : Phase s) {reader : Reader} {readers : List Reader}
    (hreaders : s.tcb.onDataReceive = reader :: readers) : readers = [] := by
  cases h with
  | before _ _ hnone _ _ _ => cases hreaders.symm.trans hnone
  | reads _ hone _ _ _ _ => exact (List.cons.inj (hreaders.symm.trans hone)).2
  | answers _ _ hnone _ _ _ _ _ _ => cases hreaders.symm.trans hnone
  | writes _ _ hnone _ _ _ => cases hreaders.symm.trans hnone

/-- **One event.**  The three invariants are kept side by side.  The order of
readers needs that no reader waits behind another one, which the phase
provides. -/
theorem Serving.step (h : Serving isn s) (hstep : s.step isn e = .ok s') : Serving isn s' := by
  obtain ⟨t', ht', hs'⟩ := bind_eq_ok.mp hstep
  obtain rfl := Except.ok.inj hs'
  have hlifeOk : Tcb.LifeEventOk s.tcb (s.blockEvent e) := by
    cases e with
    | process seg => trivial
    | task k =>
        intro task hk htask
        have hcalled := h.phase.connected_of_posted hk htask
        rw [hk]
        cases task with
        | sendLoop => exact (htask rfl).elim
        | _ => exact .single hcalled
  have hreadOk : Tcb.EventOk Tcb.FitsFirstReader (fun _ _ => True) s.tcb (s.blockEvent e) := by
    cases e with
    | process seg =>
        exact fun _ reader readers hreaders hne => (hne (h.phase.one_reader hreaders)).elim
    | task k => exact fun _ _ _ => EventSystem.admitted_of_forall (fun _ _ => trivial) _ _
  obtain ⟨ids, hreading⟩ := h.reading
  exact ⟨(Tcb.step_life h.life hlifeOk ht').1, ⟨_, hreading.step hreadOk False.elim ht'⟩,
    h.phase.step h.life hstep⟩

/-- **A run.** -/
theorem Serving.run {es : List Event} (h : Serving isn s) (hrun : Echo.run isn s es = .ok s') :
    Serving isn s' :=
  EventSystem.run_invariant (fun _ _ _ hs _ hstep => hs.step hstep) h
    (EventSystem.admitted_of_forall (fun _ _ => trivial) _ _) hrun

/-- **One event does not abort on a reader that waits.**  A handler cannot, and
a segment would have to find a reader and buffered bytes. -/
theorem Serving.step_ne_readerWhileBuffered (h : Serving isn s) (e : Event) :
    s.step isn e ≠ .error .readerWhileBuffered := by
  intro herror
  obtain ⟨ids, hreading⟩ := h.reading
  rcases EventSystem.bind_eq_error.mp herror with hblock | ⟨t', -, hnone⟩
  · exact Tcb.step_ne_readerWhileBuffered h.life.toControlled hreading hblock
  · cases hnone

end Serving

/-- The operations of the application that are outstanding: a read that waits,
a read or a write whose callback has not been called. -/
def outstanding (t : Tcb) : ℕ :=
  t.onDataReceive.length + (Tcb.readDones t.ioCtx).length + (Tcb.writeDones t.ioCtx).length

/-- **What the application has done with what it has got.**  `inHand` is what
the array holds of the read whose callback has not been called yet. -/
structure Echoes (s : Echo) : Prop where
  /-- What has been written, what has been read and is about to be written, and
  what is buffered are together the text taken from the peer. -/
  stream : ∃ inHand, s.tcb.written ++ inHand ++ s.tcb.rcv.pq.data = s.tcb.accepted ∧
    inHand.length ≤ bufSize ∧ (inHand ≠ [] → .readDone onRead inHand.length ∈ s.tcb.ioCtx)
  /-- No read waits while bytes are buffered. -/
  waits : s.tcb.onDataReceive ≠ [] → s.tcb.rcv.pq.data = []
  /-- One operation is outstanding from the connection callback on, and none
  before. -/
  one : (s.tcb.Connected → outstanding s.tcb = 1) ∧ (¬ s.tcb.Connected → outstanding s.tcb = 0)
  /-- When no handler is left to run, all of it has been written, and the read
  waits. -/
  idle : s.tcb.Connected → s.tcb.ioCtx = [] →
    s.tcb.written = s.tcb.accepted ∧ s.tcb.onDataReceive = [⟨bufSize, onRead⟩]

theorem Serving.echoes {isn : BitVec 32} {s : Echo} (h : Serving isn s) : Echoes s := by
  obtain ⟨ids, hreading⟩ := h.reading
  have hstream : s.tcb.handed ++ s.tcb.rcv.pq.data = s.tcb.accepted := hreading.orderly.stream
  cases h.phase with
  -- Each phase says what is in hand and which one operation is outstanding.
  | before hcalled hcopied hreaders hdones hreports hwritten =>
      have hnothing : s.tcb.trace.copied = [] := hcopied
      have hhanded : s.tcb.handed = [] := by rw [Tcb.handed, hnothing]; rfl
      refine ⟨⟨[], ?_, Nat.zero_le _, fun hne => (hne rfl).elim⟩, fun hwaits => (hwaits hreaders).elim,
        ⟨fun hcon => (hcalled hcon).elim, fun _ => ?_⟩, fun hcon => (hcalled hcon).elim⟩
      · rw [hwritten, ← hstream, hhanded]
        rfl
      · show s.tcb.inbox.readers.length + s.tcb.inbox.completions.length + _ = 0
        rw [hreaders, hdones, hreports]
        rfl
  | reads hcalled hreaders hempty hdones hreports hall =>
      have hnone : s.tcb.rcv.pq.data = [] := hempty
      refine ⟨⟨[], ?_, Nat.zero_le _, fun hne => (hne rfl).elim⟩, fun _ => hempty,
        ⟨fun _ => ?_, fun hno => (hno hcalled).elim⟩, fun _ _ => ⟨?_, hreaders⟩⟩
      · rw [List.append_nil, ← hstream, hall]
      · show s.tcb.inbox.readers.length + s.tcb.inbox.completions.length + _ = 1
        rw [hreaders, hdones, hreports]
        rfl
      · rw [← hstream, hnone, List.append_nil, hall]
  | answers part hcalled hreaders hdones hreports hpart hle hbuf hall =>
      have hmem : .readDone onRead part.length ∈ s.tcb.ioCtx := by
        refine Tcb.mem_readDones.mp ?_
        show _ ∈ s.tcb.inbox.completions
        rw [hdones]
        exact List.mem_singleton.mpr rfl
      refine ⟨⟨part, ?_, hle, fun _ => hmem⟩, fun hwaits => (hwaits hreaders).elim,
        ⟨fun _ => ?_, fun hno => (hno hcalled).elim⟩, fun _ hidle => ?_⟩
      · rw [← hstream, hall]
      · show s.tcb.inbox.readers.length + s.tcb.inbox.completions.length + _ = 1
        rw [hreaders, hdones, hreports]
        rfl
      · rw [hidle] at hmem
        cases hmem
  | writes nbytes hcalled hreaders hdones hreports hall =>
      refine ⟨⟨[], ?_, Nat.zero_le _, fun hne => (hne rfl).elim⟩, fun hwaits => (hwaits hreaders).elim,
        ⟨fun _ => ?_, fun hno => (hno hcalled).elim⟩, fun _ hidle => ?_⟩
      · rw [List.append_nil, ← hstream, hall]
      · show s.tcb.inbox.readers.length + s.tcb.inbox.completions.length + _ = 1
        rw [hreaders, hdones, hreports]
        rfl
      · rw [hidle] at hreports
        cases hreports

/-- **The echo application echoes.**  For every block `tcb_manager` makes, with
the application of `main.cpp`, and whatever segments arrive and in whatever
order handlers run: no reader waits while bytes are buffered when text is
taken; what has been written back, what is in hand and what is buffered are
together the text taken from the peer, in order; one operation is outstanding
from the connection callback on; and when the handlers have run, everything has
been written back and a read of 2000 bytes waits. -/
theorem echo_conserves {isn : BitVec 32} {t : Tcb} (hopened : Tcb.Opened isn t)
    (es : List Event) :
    run isn ⟨t, array⟩ es ≠ .error .readerWhileBuffered ∧
      ∀ s, run isn ⟨t, array⟩ es = .ok s → Echoes s := by
  have hserving := serving_opened hopened array
  exact ⟨EventSystem.run_avoids (fun _ _ _ hs _ hstep => hs.step hstep)
      (fun _ e hs _ => hs.step_ne_readerWhileBuffered e) hserving
      (EventSystem.admitted_of_forall (fun _ _ => trivial) _ _),
    fun _ hrun => (hserving.run hrun).echoes⟩

/-- The handshake of a client, its connection callback, and two bytes. -/
def twoBytes : List Event :=
  [.process ⟨{ TcpHeader.bare with SYN := true, seqNo := 100, window := 500 }, [], []⟩,
    .process ⟨{ TcpHeader.bare with ACK := true, seqNo := 101, ackNo := 8 }, [], []⟩, .task 0,
    .process ⟨{ TcpHeader.bare with ACK := true, seqNo := 101, ackNo := 8 }, [], [0x61, 0x62]⟩,
    .task 0]

theorem two_bytes_echoed : ∃ s, run 7 ⟨Tcb.listening, array⟩ twoBytes = .ok s ∧ Echoes s ∧
    s.tcb.accepted = [0x61, 0x62] ∧ s.tcb.written = [0x61, 0x62] := by
  obtain ⟨s, hrun, haccepted, hwritten⟩ : ∃ s, run 7 ⟨Tcb.listening, array⟩ twoBytes = .ok s ∧
      s.tcb.accepted = [0x61, 0x62] ∧ s.tcb.written = [0x61, 0x62] := ⟨_, rfl, rfl, rfl⟩
  exact ⟨s, hrun, (echo_conserves (Tcb.opened_listening 7) twoBytes).2 s hrun, haccepted, hwritten⟩

end Echo

end Mstack
