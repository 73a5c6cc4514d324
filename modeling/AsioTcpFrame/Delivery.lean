import AsioTcpFrame.Connection

/-! # Delivery

A connection between ends that are not stopped and do not fail, when nothing more is written.  Whatever
is under way needs finitely many steps: every byte that is still to be sent costs a `send` and the
handler that follows it, every byte in the pipe a `recv`, and every byte in `recv_buf` at most one
turn of the loop (`Session.backlog`).  `Connection.work` adds these up, and every step makes it smaller
(`work_step`).  And a step is left as long as something is under way (`idle_of_stuck`): so however the
sends, the reads and the handlers are scheduled and cut, everything that was written is handed to
`read_callback` (`all_delivered`). -/

namespace AsioTcpFrame

open Transition Framing

namespace Session

variable {cfg : Config} {s s' t : Session} {f : Frame}

/-- What the loop has still to work on: a header that was taken counts as half a byte. -/
def backlog (s : Session) : ℕ := 2 * s.recvBuf.length + (!s.isReadingHead).toNat

theorem backlog_congr (h : t.input = s.input) : t.backlog = s.backlog := by
  have hbuf : t.recvBuf = s.recvBuf := congrArg Input.recvBuf h
  have hhead : t.isReadingHead = s.isReadingHead := congrArg Input.isReadingHead h
  simp only [backlog, hbuf, hhead]

theorem backlog_head (h : s.turn cfg = .head s') : s'.backlog < s.backlog := by
  have hpos := cfg.pakSize_pos
  obtain ⟨hr, -, hp, rfl⟩ := turn_eq_head h
  simp only [backlog, hr, List.length_drop, Bool.not_false, Bool.not_true, Bool.toNat_true,
    Bool.toNat_false]
  omega

theorem backlog_body (h : s.turn cfg = .body f s') : s'.backlog + 1 = s.backlog := by
  obtain ⟨hr, -, -, -, rfl⟩ := turn_eq_body h
  simp [backlog, hr]

theorem backlog_consumeBody : s.consumeBody.backlog ≤ s.backlog := by
  simp only [backlog, consumeBody, List.length_drop]
  omega

@[simp] theorem backlog_doRead : s.doRead.backlog = s.backlog := by
  unfold doRead
  split <;> rfl

/-- Whether the socket has taken bytes whose handler is still to run. -/
def settling (s : Session) : ℕ := s.writes.countP fun op => op.sent.isSome

theorem settling_writeHandler (s : Session) (len : ℕ) : (s.writeHandler len).settling = s.settling := by
  unfold writeHandler writeDone doWrite
  split
  · rfl
  · split
    · rfl
    · simp [settling]

end Session

/-! ### The receiver -/

/-- The steps that a running handler has still to take, apart from the turns of the loop. -/
def Activation.work {ε : Type} : Activation ε → ℕ
  | .loop => 1
  | .reading todo => todo.length + 2
  | .failing todo => todo.length + 1

/-- The same for a read that has got its bytes. -/
def ReadOp.work : ReadOp → ℕ
  | none => 0
  | some bytes => 6 * bytes.length + 2

namespace Live

variable {cfg : Config} {n n' : Live Frame} {a : SessionAct} {held : List Byte}

/-- The steps that a receiver has still to take until it waits for bytes. -/
def work (n : Live Frame) : ℕ :=
  3 * n.sess.backlog + (n.sess.reads.map ReadOp.work).sum + (n.running.map Activation.work).sum +
    (!n.started).toNat

/-- **One step of the receiver** takes one of the steps off, and a byte that comes in adds nine. -/
theorem RxInv.work_step (h : RxInv cfg n held) (ha : a.Receives) (hstep : Step cfg frames n a n') :
    n'.work < n.work + 9 * a.received.length := by
  have hstopped := h.stopped
  have hshape := h.shape
  cases hstep with
  | write content => exact ha.elim
  | stop => exact ha.elim
  | tryLock hs => exact ha.elim
  | unlock ht => exact ha.elim
  | send hsend => exact ha.elim
  | sendDone hdone => exact ha.elim
  | sendFail ec hw => exact ha.elim
  | recvFail ec hr => exact ha.elim
  | recvStopped hr hs => rw [hstopped] at hs; cases hs
  | returnFail hact => exact absurd hact hshape.not_failing
  | callFail hact => exact absurd hact hshape.not_failing
  | start hs =>
      simp [work, Session.start, Session.doRead_running hstopped, hs, ReadOp.work, Session.backlog,
        SessionAct.received]
  | @recv bytes s hrecv =>
      obtain ⟨rest, hr, hpos, -, rfl⟩ := Session.recv_eq hrecv
      simp only [work, withSess, hr, List.map_cons, List.sum_cons, ReadOp.work, Session.backlog,
        SessionAct.received]
      omega
  | @recvDone bytes rest hr _ =>
      simp only [work, hr, List.map_cons, List.sum_cons, List.map_append,
        List.sum_append, ReadOp.work, Activation.work, Session.backlog, Session.commit,
        SessionAct.received, List.map_nil, List.sum_nil, List.length_append]
      omega
  | @brk i hact hturn =>
      obtain ⟨rfl, -, hr, hrun, -⟩ := hshape.of_loop hact
      simp [work, leave, withSess, hrun, Session.doRead_running hstopped, hr, ReadOp.work,
        Activation.work, Session.backlog, SessionAct.received]
  | @head i s hact hturn =>
      obtain ⟨rfl, -, hr, hrun, -⟩ := hshape.of_loop hact
      have hlt := Session.backlog_head hturn
      obtain ⟨-, -, -, rfl⟩ := Session.turn_eq_head hturn
      simp only [work, withSess, SessionAct.received, List.length_nil]
      omega
  | @body i f s hact hturn =>
      obtain ⟨rfl, -, hr, hrun, -⟩ := hshape.of_loop hact
      have hlt := Session.backlog_body hturn
      obtain ⟨-, -, -, -, rfl⟩ := Session.turn_eq_body hturn
      simp only [work, goOn, withSess, hrun, frames, Activation.work, SessionAct.received,
        List.set_cons_zero, List.map_cons, List.map_nil, List.sum_cons, List.sum_nil,
        List.length_cons, List.length_nil]
      omega
  | @consume i hact =>
      obtain ⟨rfl, -, hr, hrun, -⟩ := hshape.of_reading hact
      have hle := n.sess.backlog_consumeBody
      simp only [work, goOn, withSess, hrun, Activation.work, SessionAct.received,
        List.set_cons_zero, List.map_cons, List.map_nil, List.sum_cons, List.sum_nil,
        List.length_nil]
      have hreads : n.sess.consumeBody.reads = n.sess.reads := rfl
      rw [hreads]
      omega
  | @callRead i f todo hact =>
      obtain ⟨rfl, -, hr, hrun, -⟩ := hshape.of_reading hact
      simp only [work, goOn, see, hrun, Activation.work, SessionAct.received,
        List.set_cons_zero, List.map_cons, List.map_nil, List.sum_cons, List.sum_nil,
        List.length_cons, List.length_nil]
      omega

theorem socketOpen_step (ha : a.Receives) (hstep : Step cfg frames n a n') :
    n'.sess.socketOpen = n.sess.socketOpen := by
  have hread : ∀ s : Session, s.doRead.socketOpen = s.socketOpen := by
    intro s
    unfold Session.doRead
    split <;> rfl
  cases hstep with
  | write content => exact ha.elim
  | stop => exact ha.elim
  | sendDone hdone => exact ha.elim
  | start hs => exact hread _
  | recv hrecv => obtain ⟨rest, -, -, -, rfl⟩ := Session.recv_eq hrecv; rfl
  | brk hact hturn => exact hread _
  | head hact hturn => obtain ⟨-, -, -, rfl⟩ := Session.turn_eq_head hturn; rfl
  | body hact hturn => obtain ⟨-, -, -, -, rfl⟩ := Session.turn_eq_body hturn; rfl
  | send hsend => exact ha.elim
  | sendFail ec hw => exact ha.elim
  | recvFail ec hr => exact ha.elim
  | _ => rfl

/-- A receiver of which no step is left waits for bytes. -/
theorem RxInv.waiting_of_stuck (h : RxInv .shipped n held)
    (hstart : n.step .shipped frames .start = none)
    (hdone : n.step .shipped frames .recvDone = none)
    (hrun : n.step .shipped frames (.run 0) = none) :
    n.started = true ∧ n.sess.reads = [none] := by
  have hturn : n.sess.turn .shipped ≠ .overread := Session.not_overread (by decide) _
  cases h.shape with
  | waiting hs hr _ _ => exact ⟨hs, hr⟩
  | fresh hs _ _ _ _ => simp [Live.step, hs] at hstart
  | arrived _ hr _ => simp [Live.step, hr] at hdone
  | looping _ _ hact =>
      simp only [Live.step, Live.run, hact, List.getElem?_cons_zero] at hrun
      split at hrun
      · cases hrun
      · next hover => exact absurd hover hturn
      · cases hrun
      · cases hrun
  | calling _ _ hact _ _ => simp [Live.step, Live.run, hact] at hrun
  | called _ _ hact _ => simp [Live.step, Live.run, hact] at hrun

end Live

/-! ### The sender -/

namespace Sender

variable {cfg : Config} {n n' : Sender} {a : SenderAct}

/-- A byte costs two steps of the sender and nine afterwards. -/
def work (n : Sender) : ℕ := 11 * n.sess.unsent.length + n.sess.settling

/-- **One step of the sender**, other than a `write`, takes one of its steps off; nine are left of each byte
that it puts on the wire. -/
theorem Inv.work_step (h : Inv cfg n) (ha : ∀ content, a ≠ .write content)
    (hstep : n.step cfg a = some n') :
    n'.work + 9 * n'.wire.length < n.work + 9 * n.wire.length ∧ n'.written = n.written := by
  cases a with
  | write content => exact absurd rfl (ha content)
  | send k =>
      obtain ⟨⟨bytes, s⟩, hsend, rfl⟩ := Option.map_eq_some_iff.mp hstep
      have hunsent := congrArg List.length (Session.writeChain_send h.chain hsend).2
      obtain ⟨data, rest, hw, hpos, hk, rfl, rfl⟩ := Session.send_eq hsend
      refine ⟨?_, rfl⟩
      simp only [List.length_append, List.length_take] at hunsent
      simp only [work, Session.settling, hw, List.countP_cons, Option.isSome, List.length_append,
        List.length_take, if_true]
      simp only [Bool.false_eq_true, if_false]
      omega
  | sendDone =>
      obtain ⟨s, hdone, rfl⟩ := Option.map_eq_some_iff.mp hstep
      have hunsent := congrArg List.length (Session.writeChain_sendDone h.chain h.stopped hdone).2
      obtain ⟨data, k, rest, hw, rfl⟩ := Session.sendDone_eq hdone
      refine ⟨?_, rfl⟩
      simp only [work, hunsent, Session.settling_writeHandler]
      simp only [Session.settling, hw, List.countP_cons, Option.isSome, if_true]
      omega

/-- A sender of which no step is left has sent everything. -/
theorem Inv.idle_of_stuck (h : Inv cfg n) (hsend : n.step cfg (.send 1) = none)
    (hdone : n.step cfg .sendDone = none) : n.sess.writes = [] := by
  cases h.chain with
  | idle hw _ _ => exact hw
  | @busy op hw _ hne _ _ =>
      obtain ⟨data, sent⟩ := op
      cases sent with
      | some k => simp [Sender.step, Session.sendDone, hw] at hdone
      | none =>
          have hlen : 1 ≤ data.length := List.length_pos_iff.mpr hne
          simp [Sender.step, Session.send, hw, h.socketOpen, hlen] at hsend

end Sender

/-! ### Both ends -/

/-- The step is one of the connection, not of its user. -/
def ConnectionAct.Quiet : ConnectionAct → Prop
  | .write _ => False
  | _ => True

namespace Connection

variable {cfg : Config} {n n' : Connection} {a : ConnectionAct} {held : List Byte}

/-- The steps of a connection that nothing more is written to. -/
def Quietly : Connection → ConnectionAct → Prop := fun _ a => a.Quiet

/-- The steps that a connection has still to take. -/
def work (n : Connection) : ℕ := n.tx.work + 9 * n.pipe.length + n.rx.work

/-- What holds of a connection in which nothing more is written than `written`. -/
structure Settling (written : List (ℕ × List Byte)) (n : Connection) : Prop where
  inv : ∃ held, Inv .shipped n held
  socketOpen : n.rx.sess.socketOpen = true
  written : n.written = written

theorem length_pipe (n : Connection) : n.pipe.length = n.tx.wire.length - n.taken :=
  List.length_drop

theorem Inv.work_receives (h : Inv cfg n held) {b : SessionAct} (hb : b.Receives)
    (hpipe : b.received.length ≤ n.pipe.length)
    (hstep : n.receives b.received.length (n.rx.step cfg Live.frames b) = some n') :
    n'.work < n.work ∧ n'.written = n.written ∧
      n'.rx.sess.socketOpen = n.rx.sess.socketOpen := by
  obtain ⟨rx, hrx, rfl⟩ := Option.map_eq_some_iff.mp hstep
  have hlt := h.rx.work_step hb (Live.Step.of_step hrx)
  refine ⟨?_, rfl, Live.socketOpen_step hb (Live.Step.of_step hrx)⟩
  simp only [work, length_pipe] at hpipe ⊢
  omega

theorem Inv.work_sends (h : Inv cfg n held) {b : SenderAct} (hb : ∀ content, b ≠ .write content)
    (hstep : n.sends (n.tx.step cfg b) = some n') :
    n'.work < n.work ∧ n'.written = n.written ∧
      n'.rx.sess.socketOpen = n.rx.sess.socketOpen := by
  obtain ⟨tx, htx, rfl⟩ := Option.map_eq_some_iff.mp hstep
  obtain ⟨hlt, hwritten⟩ := h.tx.work_step hb htx
  have hwire := (Sender.wire_mono htx).length_le
  have htaken := h.taken
  refine ⟨?_, by simp only [written, hwritten], rfl⟩
  simp only [work, length_pipe]
  omega

/-- **One step** takes one of the steps off. -/
theorem Inv.work_step (h : Inv cfg n held) (ha : a.Quiet) (hstep : n.step cfg a = some n') :
    n'.work < n.work ∧ n'.written = n.written ∧
      n'.rx.sess.socketOpen = n.rx.sess.socketOpen := by
  cases a with
  | write p => exact ha.elim
  | send k => exact h.work_sends (b := .send k) (by simp) hstep
  | sendDone => exact h.work_sends (b := .sendDone) (by simp) hstep
  | start => exact h.work_receives (b := .start) trivial (Nat.zero_le _) hstep
  | recv k =>
      simp only [Connection.step] at hstep
      split at hstep
      · next hk =>
        have hlen : (n.pipe.take k).length = k := List.length_take_of_le hk
        apply h.work_receives (b := .recv (n.pipe.take k)) trivial
        · show (n.pipe.take k).length ≤ n.pipe.length
          omega
        · rw [SessionAct.received, hlen]
          exact hstep
      · cases hstep
  | recvDone => exact h.work_receives (b := .recvDone) trivial (Nat.zero_le _) hstep
  | run i => exact h.work_receives (b := .run i) trivial (Nat.zero_le _) hstep

/-- Where no step is left, nothing is under way, and everything was handed on. -/
theorem Settling.delivered_of_stuck {ws : List (ℕ × List Byte)} (h : Settling ws n)
    (hstuck : ∀ a, Quietly n a → n.step .shipped a = none) : n.delivered = ws := by
  obtain ⟨held, hI⟩ := h.inv
  have htx : ∀ b, n.sends (n.tx.step .shipped b) = none → n.tx.step .shipped b = none :=
    fun b hb => Option.map_eq_none_iff.mp hb
  have hrx : ∀ k b, n.receives k (n.rx.step .shipped Live.frames b) = none →
      n.rx.step .shipped Live.frames b = none := fun k b hb => Option.map_eq_none_iff.mp hb
  have hidle := hI.tx.idle_of_stuck (htx _ (hstuck (.send 1) trivial))
    (htx _ (hstuck .sendDone trivial))
  obtain ⟨hstarted, hreads⟩ := hI.rx.waiting_of_stuck (hrx 0 _ (hstuck .start trivial))
    (hrx 0 _ (hstuck .recvDone trivial)) (hrx 0 _ (hstuck (.run 0) trivial))
  have hpipe : n.pipe = [] := by
    by_contra hne
    have hpos : 1 ≤ n.pipe.length := List.length_pos_iff.mpr hne
    have hrecv := hstuck (.recv 1) trivial
    have hlen : (n.pipe.take 1).length = 1 := List.length_take_of_le hpos
    simp only [Connection.step, hpos, if_true] at hrecv
    have hnone := hrx 1 _ hrecv
    simp [Live.step, Session.recv, hreads, h.socketOpen, hlen] at hnone
  have hcontents := hI.contents.2 hidle hpipe hstarted hreads
  have hdel : n.delivered = (n.rx.calls.map Frame.content).map fun p => (p.length, p) := by
    simp only [delivered, List.map_map, Function.comp_def, Frame.content_length]
  rw [hdel, hcontents, ← h.written]
  rfl

theorem socketOpen_of_run {acts : List ConnectionAct}
    (h : Run (Connection.step .shipped) Anything create acts n) : n.rx.sess.socketOpen = true := by
  induction h with
  | refl => rfl
  | @tail acts a m n' hrun _ hstep ih =>
      obtain ⟨held, hI⟩ := Inv.of_run hrun
      by_cases ha : a.Quiet
      · exact (hI.work_step ha hstep).2.2.trans ih
      · cases a with
        | write p => cases hstep; exact ih
        | _ => exact absurd trivial ha

/-- **Everything is delivered.**  From every state of a connection, when nothing more is written: however
the sends, the reads and the handlers are scheduled and cut, they come to an end, after at most `n.work`
steps; and then everything that was written has been handed to `read_callback`. -/
theorem all_delivered {acts : List ConnectionAct}
    (h : Run (Connection.step .shipped) Anything create acts n) :
    Ends (Connection.step .shipped) Quietly (fun m => m.delivered = n.written) n n.work := by
  have hopen : n.rx.sess.socketOpen = true := socketOpen_of_run h
  apply Ends.of_measure (I := Settling n.written) work ⟨Inv.of_run h, hopen, rfl⟩
  · intro m a m' hm ha hstep
    obtain ⟨held, hI⟩ := hm.inv
    obtain ⟨hlt, hwritten, hsock⟩ := hI.work_step ha hstep
    exact ⟨⟨hI.step hstep, hsock.trans hm.socketOpen, hwritten.trans hm.written⟩, hlt⟩
  · exact fun m hm hstuck => hm.delivered_of_stuck hstuck

/-- Two payloads; nothing has been received yet. -/
def twoWritten : List ConnectionAct :=
  [.start, .write ⟨[8], by decide⟩, .write ⟨[9, 9], by decide⟩, .send 3]

theorem all_delivered_two :
    ∃ n, Run (Connection.step .shipped) Anything create twoWritten n ∧ n.delivered = [] ∧
      n.written = [(1, [8]), (2, [9, 9])] ∧
      Ends (Connection.step .shipped) Quietly (fun m => m.delivered = n.written) n n.work := by
  have h := Run.of_exec (Connection.step .shipped) create twoWritten (by decide)
  exact ⟨_, h, by decide, by decide, all_delivered h⟩

end Connection

end AsioTcpFrame
