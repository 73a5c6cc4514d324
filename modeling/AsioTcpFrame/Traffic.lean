import AsioTcpFrame.Connection
import AsioTcpFrame.WriteFailure

/-! # What goes through a session

`Live` says what a session does.  `Traffic` notes on the way what was written to it, what its socket
took and got, and which frames were handed to `read_callback`; no step looks at these notes.

In every run, with any operations that fail, with `stop` at any moment and with tests of the flag that
disturb each other:

* what the socket has taken begins the frames that were written (`SendHalf`, `sent_prefix`): a write
  that fails leaves the session stuck, and `stop` closes the socket, so nothing is ever sent twice or
  out of order;
* the frames that were handed on begin what the socket has got, and the user was told of each of them,
  in their order, but for the one that is being told (`Intake`, `told_prefix`). -/

namespace AsioTcpFrame

open Transition Framing
open scoped List

/-- The contents that were written, the bytes that the socket has taken and those that it has got, and
the calls of `read_callback`. -/
structure Traffic where
  written : List (List Byte)
  wire : List Byte
  received : List Byte
  frames : List Frame
deriving DecidableEq, Repr

def Traffic.empty : Traffic := ⟨[], [], [], []⟩

namespace Live

variable {ε : Type} (cfg : Config) (body : Callback → List ε)

/-- The frame that the next step of the running handler `i` hands to `read_callback`. -/
def handed (n : Live ε) (i : ℕ) : List Frame :=
  match n.running[i]? with
  | some .loop =>
      match n.sess.turn cfg with
      | .body f _ => [f]
      | _ => []
  | _ => []

/-- What is noted of a step. -/
def note (n : Live ε) (g : Traffic) : SessionAct → Traffic
  | .write content =>
      if n.sess.stopped then g else { g with written := g.written ++ [content] }
  | .send k => { g with wire := g.wire ++ ((n.sess.send k).map Prod.fst).getD [] }
  | .recv bytes => { g with received := g.received ++ bytes }
  | .run i => { g with frames := g.frames ++ n.handed cfg i }
  | _ => g

/-- What has gone through the session in a run. -/
def traffic (acts : List SessionAct) : Traffic :=
  follow (Live.step cfg body) (note cfg) create Traffic.empty acts

variable {cfg} {body} {n n' : Live ε} {a : SessionAct} {acts : List SessionAct} {g g' : Traffic}

/-! ### The sending half -/

/-- Where the sending half is: in order; stuck after a write that has failed; or its socket was
closed. -/
inductive SendHalf (cfg : Config) (g : Traffic) (n : Live ε) : Prop
  | whole : n.Untouched → n.sess.WriteChain →
      g.wire ++ n.sess.unsent = cfg.codec.stream g.written → SendHalf cfg g n
  | stuck : n.sess.Stuck → g.wire <+: cfg.codec.stream g.written → SendHalf cfg g n
  | closed : n.sess.socketOpen = false → g.wire <+: cfg.codec.stream g.written → SendHalf cfg g n

theorem SendHalf.sent (h : SendHalf cfg g n) : g.wire <+: cfg.codec.stream g.written := by
  cases h with
  | whole _ _ hbytes => exact ⟨_, hbytes⟩
  | stuck _ hpre => exact hpre
  | closed _ hpre => exact hpre

theorem unsent_congr {s t : Session} (h : t.output = s.output) : t.unsent = s.unsent := by
  obtain ⟨-, hbuf, hwrites⟩ := Session.Output.mk.inj h
  simp only [Session.unsent, Session.performed, hbuf, hwrites]

theorem SendHalf.congr (h : SendHalf cfg g n) (hun : n.Untouched → n'.Untouched)
    (hout : n'.sess.output = n.sess.output) (hopen : n'.sess.socketOpen = n.sess.socketOpen)
    (hwritten : g'.written = g.written) (hwire : g'.wire = g.wire) : SendHalf cfg g' n' := by
  cases h with
  | whole h hchain hbytes =>
      exact .whole (hun h) (hchain.congr hout) (by rw [hwritten, hwire, unsent_congr hout, hbytes])
  | stuck hstuck hpre => exact .stuck (hstuck.congr hout) (by rw [hwritten, hwire]; exact hpre)
  | closed hclosed hpre =>
      exact .closed (hopen.trans hclosed) (by rw [hwritten, hwire]; exact hpre)

/-- What the socket has taken still begins the frames when one is added. -/
theorem prefix_written (h : g.wire <+: cfg.codec.stream g.written) (content : List Byte) :
    g.wire <+: cfg.codec.stream (g.written ++ [content]) := by
  rw [LenCodec.stream_append]
  exact h.trans (List.prefix_append _ _)

theorem testing_enter (n : Live ε) (s : Session) (x : Activation ε) :
    (n.enter s x).testing = n.testing := by
  unfold enter; split <;> rfl

theorem started_enter (n : Live ε) (s : Session) (x : Activation ε) :
    (n.enter s x).started = n.started := by
  unfold enter; split <;> rfl

theorem SendHalf.write (h : SendHalf cfg g n) (content : List Byte) :
    SendHalf cfg (note cfg n g (.write content)) (n.withSess (n.sess.write cfg content)) := by
  cases hs : n.sess.stopped with
  | true =>
      have hsess : n.sess.write cfg content = n.sess := by simp only [Session.write, hs, if_true]
      have hnote : note cfg n g (.write content) = g := by simp only [note, hs, if_true]
      rw [hsess, hnote]
      exact h
  | false =>
      have hnote : note cfg n g (.write content) = { g with written := g.written ++ [content] } := by
        simp only [note, hs, Bool.false_eq_true, if_false]
      rw [hnote]
      cases h with
      | whole hun hchain hbytes =>
          obtain ⟨hchain', hunsent⟩ := Session.writeChain_write cfg hchain hs content
          refine .whole ⟨by simp [withSess, hs], hun.2⟩ hchain' ?_
          show g.wire ++ (n.sess.write cfg content).unsent = _
          rw [hunsent, ← List.append_assoc, hbytes, LenCodec.stream_append]
          simp
      | stuck hstuck hpre => exact .stuck (hstuck.write cfg content) (prefix_written hpre content)
      | closed hclosed hpre =>
          refine .closed ?_ (prefix_written hpre content)
          rw [← hclosed]
          exact Session.write_socketOpen cfg n.sess content

theorem SendHalf.send (h : SendHalf cfg g n) {k : ℕ} {bytes : List Byte} {s : Session}
    (hsend : n.sess.send k = some (bytes, s)) :
    SendHalf cfg (note cfg n g (.send k)) (n.withSess s) := by
  have hnote : note cfg n g (.send k) = { g with wire := g.wire ++ bytes } := by
    simp only [note, hsend, Option.map_some, Option.getD_some]
  rw [hnote]
  cases h with
  | whole hun hchain hbytes =>
      obtain ⟨hchain', hunsent⟩ := Session.writeChain_send hchain hsend
      have hbytes' : (g.wire ++ bytes) ++ s.unsent = cfg.codec.stream g.written := by
        rw [List.append_assoc, hunsent, hbytes]
      obtain ⟨data, rest, -, -, -, -, rfl⟩ := Session.send_eq hsend
      exact .whole hun hchain' hbytes'
  | stuck hstuck hpre => rw [hstuck.not_send] at hsend; cases hsend
  | closed hclosed hpre =>
      unfold Session.send at hsend
      split at hsend
      · rw [if_neg (by simp [hclosed])] at hsend; cases hsend
      · cases hsend

/-- **One step of the sending half.** -/
theorem SendHalf.step (h : SendHalf cfg g n) (hstep : Step cfg body n a n') :
    SendHalf cfg (note cfg n g a) n' := by
  cases hstep with
  | start hs =>
      refine h.congr (fun hun => ⟨by simp [Session.start, hun.1], hun.2⟩) (Session.doRead_output _) ?_
        rfl rfl
      unfold Session.start Session.doRead
      split <;> rfl
  | write content => exact h.write content
  | stop =>
      cases hs : n.sess.stopped with
      | true =>
          have hstop : n.sess.stop = n.sess := by simp only [Session.stop, hs, if_true]
          rw [hstop]
          exact h.congr id rfl rfl rfl rfl
      | false =>
          refine .closed ?_ h.sent
          simp only [see, withSess, Session.stop, hs, Bool.false_eq_true, if_false]
  | tryLock hs =>
      exact h.congr (fun hun => by rw [hun.1] at hs; cases hs) rfl rfl rfl rfl
  | unlock ht =>
      exact h.congr (fun hun => by rw [hun.2] at ht; cases ht) rfl rfl rfl rfl
  | send hsend => exact h.send hsend
  | sendDone hdone =>
      have hnote : note cfg n g .sendDone = g := rfl
      rw [hnote]
      cases h with
      | whole hun hchain hbytes =>
          obtain ⟨hchain', hunsent⟩ := Session.writeChain_sendDone hchain hun.1 hdone
          have hbytes' := (congrArg (g.wire ++ ·) hunsent).trans hbytes
          obtain ⟨data, k, rest, -, rfl⟩ := Session.sendDone_eq hdone
          exact .whole ⟨by simp [withSess, hun.1], hun.2⟩ hchain' hbytes'
      | stuck hstuck hpre => rw [hstuck.not_sendDone] at hdone; cases hdone
      | closed hclosed hpre =>
          obtain ⟨data, k, rest, -, rfl⟩ := Session.sendDone_eq hdone
          exact .closed (by rw [withSess, Session.writeHandler_socketOpen]; exact hclosed) hpre
  | @sendFail data rest ec hw =>
      have hnote : note cfg n g (.sendFail ec) = g := rfl
      have hsess := sess_enter n { n.sess with writes := rest } (.failing (body (.error false ec)))
      rw [hnote]
      cases h with
      | whole hun hchain hbytes => exact .stuck (by rw [hsess]; exact hchain.fail hw) ⟨_, hbytes⟩
      | stuck hstuck hpre => rw [hstuck.2] at hw; cases hw
      | closed hclosed hpre => exact .closed (by rw [hsess]; exact hclosed) hpre
  | recv hrecv =>
      obtain ⟨rest, -, -, -, rfl⟩ := Session.recv_eq hrecv
      exact h.congr id rfl rfl rfl rfl
  | recvStopped hr hs => exact h.congr id rfl rfl rfl rfl
  | recvDone hr hs => exact h.congr id rfl rfl rfl rfl
  | @recvFail rest ec hr =>
      have hsess := sess_enter n { n.sess with reads := rest } (.failing (body (.error true ec)))
      exact h.congr (fun hun => ⟨by rw [hsess]; exact hun.1, (testing_enter _ _ _).trans hun.2⟩)
        (by rw [hsess]; rfl) (by rw [hsess]) rfl rfl
  | brk hact hturn =>
      refine h.congr (fun hun => ⟨by simp [leave, withSess, hun.1], hun.2⟩)
        (Session.doRead_output _) ?_ rfl rfl
      simp only [leave, withSess]
      unfold Session.doRead
      split <;> rfl
  | head hact hturn =>
      obtain ⟨-, -, -, rfl⟩ := Session.turn_eq_head hturn
      exact h.congr id rfl rfl rfl rfl
  | body hact hturn =>
      obtain ⟨-, -, -, -, rfl⟩ := Session.turn_eq_body hturn
      exact h.congr id rfl rfl rfl rfl
  | consume hact => exact h.congr id rfl rfl rfl rfl
  | callRead hact => exact h.congr id rfl rfl rfl rfl
  | returnFail hact => exact h.congr id rfl rfl rfl rfl
  | callFail hact => exact h.congr id rfl rfl rfl rfl

theorem sendHalf_create : SendHalf cfg Traffic.empty (create : Live ε) :=
  .whole ⟨rfl, rfl⟩ (.idle rfl rfl rfl) rfl

theorem SendHalf.of_run (h : Run (Live.step cfg body) Anything create acts n) :
    SendHalf cfg (traffic cfg body acts) n :=
  h.follow (I := SendHalf cfg) sendHalf_create
    fun _ _ _ _ hI _ hstep => hI.step (Step.of_step hstep)

/-- **Nothing is sent twice or out of order.**  In every run, whatever fails and whenever `stop` is
called, what the socket has taken begins the frames of the contents that were written. -/
theorem sent_prefix (h : Run (Live.step cfg body) Anything create acts n) :
    (traffic cfg body acts).wire <+: cfg.codec.stream (traffic cfg body acts).written :=
  (SendHalf.of_run h).sent

/-- Two writes, of which the second is cut short by a failure; the third is written in vain. -/
def failedSend : List SessionAct :=
  [.write [7], .write [8], .send 9, .sendDone, .sendFail .eof, .write [9], .run 0, .stop, .write []]

theorem sent_prefix_failed :
    (traffic .shipped callbacks failedSend).wire = [1, 0, 0, 0, 0, 0, 0, 0, 7] ∧
      (traffic .shipped callbacks failedSend).wire <+:
        Config.shipped.codec.stream (traffic .shipped callbacks failedSend).written := by
  have h := Run.of_exec (Live.step .shipped callbacks) create failedSend (by decide)
  exact ⟨by decide, sent_prefix h⟩

/-! ### The receiving half -/

/-- Where the receiving half is, the user calls that the running `read_callback` has still to make, and
the bytes that were received and not handed on: before `start`; with a read outstanding; with a read
that has got its bytes; at the head of the loop; in `read_callback`; or done with reading. -/
inductive Reading (cfg : Config) (n : Live ε) : List ε → List Byte → Prop
  | fresh : n.started = false → n.sess.isReadingHead = true → n.sess.recvBuf = [] → Reading cfg n [] []
  | outstanding (op : ReadOp) : n.started = true → n.sess.reads = [op] →
      Reading cfg n [] (n.sess.undelivered cfg ++ op.getD [])
  | looping : n.started = true → .loop ∈ n.running → Reading cfg n [] (n.sess.undelivered cfg)
  | calling {todo : List ε} : n.started = true → .reading todo ∈ n.running →
      n.sess.isReadingHead = true → Reading cfg n todo n.sess.consumeBody.recvBuf
  | ended (held : List Byte) : n.started = true → n.readers = 0 → Reading cfg n [] held

/-- What holds of the receiving half: it reads one thing at a time, its header is a `PakSize`, and the
frames that were handed on, followed by what is held, are what was received.  The calls with `p` that
were made, followed by those still to come, are those of the frames, when no failure makes one. -/
structure Intake (cfg : Config) (body : Callback → List ε) (p : ε → Bool) (g : Traffic) (n : Live ε)
    (todo : List ε) (held : List Byte) : Prop where
  chain : n.ReadChain
  bodylen : n.sess.bodylen < cfg.codec.bound
  frames : ∀ f ∈ g.frames, f.length < cfg.codec.bound
  bytes : g.frames.flatMap (Frame.bytes cfg) ++ held = g.received
  shape : Reading cfg n todo held
  failing : ∀ todo', .failing todo' ∈ n.running → ∀ e ∈ todo', p e = false
  told : n.calls.filter p ++ todo.filter p = (g.frames.flatMap fun f => body (.read f)).filter p

variable {todo : List ε} {held : List Byte}

theorem readers_pos {x : Activation ε} (hx : x ∈ n.running) (hr : x.isReader = true) :
    0 < n.running.countP Activation.isReader := List.countP_pos_iff.mpr ⟨x, hx, hr⟩

theorem Reading.of_reads (h : Reading cfg n todo held) (hchain : n.ReadChain) {op : ReadOp}
    {rest : List ReadOp} (hr : n.sess.reads = op :: rest) :
    n.started = true ∧ rest = [] ∧ n.running.countP Activation.isReader = 0 ∧ todo = [] ∧
      held = n.sess.undelivered cfg ++ op.getD [] := by
  have hone := hchain.one
  simp only [readers, hr, List.length_cons] at hone
  have hrest : rest = [] := List.length_eq_zero_iff.mp (by omega)
  have hnone : n.running.countP Activation.isReader = 0 := by omega
  cases h with
  | fresh hs _ _ =>
      have := hchain.idle hs
      simp only [readers, hr, List.length_cons] at this
      omega
  | outstanding _ hs hr' =>
      rw [hr'] at hr
      obtain ⟨rfl, -⟩ := List.cons.inj hr
      exact ⟨hs, hrest, hnone, rfl, rfl⟩
  | looping hs hx => have := readers_pos hx rfl; omega
  | calling hs hx _ => have := readers_pos hx rfl; omega
  | ended _ hs hzero => simp only [readers, hr, List.length_cons] at hzero; omega

theorem Reading.of_loop (h : Reading cfg n todo held) (hchain : n.ReadChain)
    (hx : .loop ∈ n.running) :
    n.started = true ∧ n.sess.reads = [] ∧ todo = [] ∧ held = n.sess.undelivered cfg := by
  have hone := hchain.one
  have hpos := readers_pos hx rfl
  have hreads : n.sess.reads = [] := List.length_eq_zero_iff.mp (by simp only [readers] at hone; omega)
  cases h with
  | fresh hs _ _ => have := hchain.idle hs; simp only [readers] at this; omega
  | outstanding _ hs hr => rw [hr] at hreads; cases hreads
  | looping hs _ => exact ⟨hs, hreads, rfl, rfl⟩
  | calling hs hy _ => cases hchain.unique hx hy rfl rfl
  | ended _ hs hzero => simp only [readers] at hzero; omega

theorem Reading.of_reading (h : Reading cfg n todo held) (hchain : n.ReadChain) {todo' : List ε}
    (hx : .reading todo' ∈ n.running) :
    n.started = true ∧ n.sess.reads = [] ∧ todo = todo' ∧ n.sess.isReadingHead = true ∧
      held = n.sess.consumeBody.recvBuf := by
  have hone := hchain.one
  have hpos := readers_pos hx rfl
  have hreads : n.sess.reads = [] := List.length_eq_zero_iff.mp (by simp only [readers] at hone; omega)
  cases h with
  | fresh hs _ _ => have := hchain.idle hs; simp only [readers] at this; omega
  | outstanding _ hs hr => rw [hr] at hreads; cases hreads
  | looping hs hy => cases hchain.unique hx hy rfl rfl
  | calling hs hy hhead =>
      cases hchain.unique hx hy rfl rfl
      exact ⟨hs, hreads, rfl, hhead, rfl⟩
  | ended _ hs hzero => simp only [readers] at hzero; omega

/-- From `n` to `n'` the receiving half is left alone. -/
structure Aside (p : ε → Bool) (n n' : Live ε) : Prop where
  started : n'.started = n.started
  input : n'.sess.input = n.sess.input
  readers : n'.readers = n.readers
  stay : ∀ x ∈ n.running, x.isReader = true → x ∈ n'.running
  calls : n'.calls.filter p = n.calls.filter p

variable {p : ε → Bool}

theorem Aside.of_running (hs : n'.started = n.started) (hin : n'.sess.input = n.sess.input)
    (hrun : n'.running = n.running) (hcalls : n'.calls = n.calls) : Aside p n n' where
  started := hs
  input := hin
  readers := by
    have hreads : n'.sess.reads = n.sess.reads := congrArg Session.Input.reads hin
    simp only [Live.readers, hreads, hrun]
  stay x hx _ := by rw [hrun]; exact hx
  calls := by rw [hcalls]

theorem Reading.congr (h : Reading cfg n todo held) (ha : Aside p n n') :
    Reading cfg n' todo held := by
  obtain ⟨hhead, hlen, hbuf, hreads⟩ := Session.Input.mk.inj ha.input
  have hund : n'.sess.undelivered cfg = n.sess.undelivered cfg := by
    simp only [Session.undelivered, hhead, hlen, hbuf]
  have hrest : n'.sess.consumeBody.recvBuf = n.sess.consumeBody.recvBuf := by
    simp only [Session.consumeBody, hlen, hbuf]
  cases h with
  | fresh h₀ h₁ h₂ => exact .fresh (ha.started.trans h₀) (hhead.trans h₁) (hbuf.trans h₂)
  | outstanding op h₀ h₁ => rw [← hund]; exact .outstanding op (ha.started.trans h₀) (hreads.trans h₁)
  | looping h₀ hx => rw [← hund]; exact .looping (ha.started.trans h₀) (ha.stay _ hx rfl)
  | calling h₀ hx h₁ =>
      rw [← hrest]; exact .calling (ha.started.trans h₀) (ha.stay _ hx rfl) (hhead.trans h₁)
  | ended held h₀ h₁ => exact .ended held (ha.started.trans h₀) (ha.readers.trans h₁)

theorem Intake.congr (h : Intake cfg body p g n todo held) (hchain : n'.ReadChain)
    (ha : Aside p n n') (hfail : ∀ todo', .failing todo' ∈ n'.running → ∀ e ∈ todo', p e = false)
    (hframes : g'.frames = g.frames) (hreceived : g'.received = g.received) :
    Intake cfg body p g' n' todo held where
  chain := hchain
  bodylen := by
    have hlen : n'.sess.bodylen = n.sess.bodylen := congrArg Session.Input.bodylen ha.input
    rw [hlen]; exact h.bodylen
  frames := by rw [hframes]; exact h.frames
  bytes := by rw [hframes, hreceived]; exact h.bytes
  shape := h.shape.congr ha
  failing := hfail
  told := by rw [ha.calls, hframes]; exact h.told

/-- A step of the receiving half that hands nothing on and calls nobody. -/
theorem Intake.hold (h : Intake cfg body p g n todo held) (bytes : List Byte)
    (hchain : n'.ReadChain) (hlen : n'.sess.bodylen < cfg.codec.bound) {held' : List Byte}
    (hshape : Reading cfg n' todo held') (hrun : ∀ x ∈ n'.running, x ∈ n.running ∨ x.isReader = true)
    (hcalls : n'.calls = n.calls) (hframes : g'.frames = g.frames)
    (hreceived : g'.received = g.received ++ bytes) (hheld : held' = held ++ bytes) :
    Intake cfg body p g' n' todo held' where
  chain := hchain
  bodylen := hlen
  frames := by rw [hframes]; exact h.frames
  bytes := by rw [hframes, hreceived, hheld, ← List.append_assoc, h.bytes]
  shape := hshape
  failing todo' hx := (hrun _ hx).elim (h.failing todo') (fun hr => by cases hr)
  told := by rw [hcalls, hframes]; exact h.told

theorem mem_enter {s : Session} {x y : Activation ε} (h : y ∈ (n.enter s x).running) :
    y ∈ n.running ∨ y = x := by
  unfold enter at h
  split at h
  · exact Or.inl h
  · exact (List.mem_append.mp h).imp_right List.mem_singleton.mp

theorem mem_goOn {m : Live ε} {i : ℕ} {x y : Activation ε} (h : y ∈ (m.goOn i x).running) :
    y ∈ m.running ∨ y = x := List.mem_or_eq_of_mem_set h

theorem mem_leave {m : Live ε} {i : ℕ} {y : Activation ε} (h : y ∈ (m.leave i).running) :
    y ∈ m.running := List.mem_of_mem_eraseIdx h

theorem goOn_mem {m : Live ε} {i : ℕ} {x : Activation ε} (h : m.running[i]? = some x)
    (y : Activation ε) : y ∈ (m.goOn i y).running := by
  obtain ⟨hi, -⟩ := List.getElem?_eq_some_iff.mp h
  exact List.mem_set hi y

theorem aside_enter {s : Session} (hin : s.input = n.sess.input) (todo' : List ε) :
    Aside p n (n.enter s (.failing todo')) where
  started := started_enter _ _ _
  input := by rw [sess_enter]; exact hin
  readers := by
    have hreads : s.reads = n.sess.reads := congrArg Session.Input.reads hin
    rw [readers_enter_failing, hreads]; rfl
  stay x hx _ := by
    unfold enter
    split
    · exact hx
    · exact List.mem_append_left _ hx
  calls := by rw [calls_enter]

theorem handed_of_ne {i : ℕ} {x : Activation ε} (h : n.running[i]? = some x) (hx : x ≠ .loop) :
    n.handed cfg i = [] := by
  unfold handed
  rw [h]
  cases x with
  | loop => exact absurd rfl hx
  | reading todo => rfl
  | failing todo => rfl

theorem Intake.start (h : Intake cfg body p g n todo held) (hs : n.started = false)
    (hchain : ReadChain { n with sess := n.sess.start, started := true }) :
    ∃ todo' held', Intake cfg body p g { n with sess := n.sess.start, started := true } todo' held' := by
  cases h.shape with
  | fresh _ hhead hbuf =>
      cases hstop : n.sess.stopped with
      | true =>
          have hdo : n.sess.start = n.sess := by
            simp only [Session.start, Session.doRead, hstop, if_true]
          have hzero := h.chain.idle hs
          rw [hdo] at hchain ⊢
          exact ⟨[], [], h.hold [] hchain h.bodylen (.ended [] rfl hzero)
            (fun x hx => Or.inl hx) rfl rfl (List.append_nil _).symm rfl⟩
      | false =>
          have hdo : n.sess.start = { n.sess with reads := n.sess.reads ++ [none] } :=
            Session.doRead_running hstop
          have hzero := h.chain.idle hs
          have hreads : n.sess.reads = [] :=
            List.length_eq_zero_iff.mp (by simp only [readers] at hzero; omega)
          rw [hdo, hreads] at hchain ⊢
          have hshape : Reading cfg { n with
              sess := { n.sess with reads := [] ++ [none] }, started := true } ([] : List ε)
              (n.sess.undelivered cfg ++ []) := .outstanding none rfl rfl
          refine ⟨[], _, h.hold [] hchain h.bodylen hshape (fun x hx => Or.inl hx) rfl rfl
            (List.append_nil _).symm ?_⟩
          simp [Session.undelivered, hhead, hbuf]
  | outstanding _ h₀ _ => rw [h₀] at hs; cases hs
  | looping h₀ _ => rw [h₀] at hs; cases hs
  | calling h₀ _ _ => rw [h₀] at hs; cases hs
  | ended _ h₀ _ => rw [h₀] at hs; cases hs

theorem Intake.brk (h : Intake cfg body p g n todo held) {i : ℕ}
    (hact : n.running[i]? = some .loop)
    (hchain : ((n.withSess n.sess.doRead).leave i).ReadChain) :
    ∃ todo' held', Intake cfg body p g ((n.withSess n.sess.doRead).leave i) todo' held' := by
  obtain ⟨hs, hreads, rfl, rfl⟩ := h.shape.of_loop h.chain (List.mem_of_getElem? hact)
  cases hstop : n.sess.stopped with
  | true =>
      have hdo : n.sess.doRead = n.sess := by simp only [Session.doRead, hstop, if_true]
      have hone := h.chain.one
      have hleave := readers_leave (n := n.withSess n.sess) hact
      have hsame : (n.withSess n.sess).readers = n.readers := rfl
      rw [hsame] at hleave
      rw [hdo] at hchain ⊢
      simp only [Activation.isReader, Bool.toNat_true] at hleave
      exact ⟨[], n.sess.undelivered cfg, h.hold [] hchain h.bodylen
        (.ended _ hs (by omega)) (fun x hx => Or.inl (mem_leave hx)) rfl rfl
        (List.append_nil _).symm (List.append_nil _).symm⟩
  | false =>
      have hdo := Session.doRead_running hstop
      rw [hdo, hreads] at hchain ⊢
      refine ⟨[], n.sess.undelivered cfg ++ [], h.hold [] hchain h.bodylen
        (.outstanding none hs rfl) (fun x hx => Or.inl (mem_leave hx)) rfl rfl
        (List.append_nil _).symm rfl⟩

theorem Intake.handOn (h : Intake cfg body p g n todo held) {i : ℕ} {f : Frame} {s : Session}
    (hact : n.running[i]? = some .loop) (hturn : n.sess.turn cfg = .body f s)
    (hchain : ((n.withSess s).goOn i (.reading (body (.read f)))).ReadChain) :
    ∃ todo' held', Intake cfg body p { g with frames := g.frames ++ [f] }
      ((n.withSess s).goOn i (.reading (body (.read f)))) todo' held' := by
  obtain ⟨hs, hreads, rfl, rfl⟩ := h.shape.of_loop h.chain (List.mem_of_getElem? hact)
  have hund := Session.undelivered_body hturn
  obtain ⟨-, -, hlen, -, rfl⟩ := Session.turn_eq_body hturn
  refine ⟨body (.read f), _, hchain, h.bodylen, ?_, ?_, .calling hs (goOn_mem hact _) rfl, ?_, ?_⟩
  · intro f' hf
    rcases List.mem_append.mp hf with hf | hf
    · exact h.frames f' hf
    · rw [List.mem_singleton.mp hf, hlen]; exact h.bodylen
  · have hbytes := h.bytes
    rw [← hund] at hbytes
    simp only [List.flatMap_append, List.flatMap_singleton, List.append_assoc]
    exact hbytes
  · intro todo' hx
    rcases mem_goOn hx with hx | hx
    · exact h.failing todo' hx
    · cases hx
  · have htold := h.told
    rw [List.filter_nil, List.append_nil] at htold
    simp only [List.flatMap_append, List.flatMap_singleton, List.filter_append]
    rw [← htold]
    rfl

/-- **One step of the receiving half.** -/
theorem Intake.step (herr : ∀ w ec, ∀ e ∈ body (.error w ec), p e = false)
    (h : Intake cfg body p g n todo held) (hstep : Step cfg body n a n') :
    ∃ todo' held', Intake cfg body p (note cfg n g a) n' todo' held' := by
  have hchain := h.chain.step hstep
  cases hstep with
  | start hs => exact h.start hs hchain
  | write content =>
      have hnote : (note cfg n g (.write content)).frames = g.frames ∧
          (note cfg n g (.write content)).received = g.received := by
        simp only [note]; split <;> exact ⟨rfl, rfl⟩
      exact ⟨todo, held, h.congr hchain (.of_running rfl (Session.write_input ..) rfl rfl) h.failing
        hnote.1 hnote.2⟩
  | stop =>
      exact ⟨todo, held, h.congr hchain (.of_running rfl (Session.stop_input _) rfl
        (by simp [calls, see, withSess])) h.failing rfl rfl⟩
  | tryLock hs =>
      exact ⟨todo, held, h.congr hchain (.of_running rfl rfl rfl rfl) h.failing rfl rfl⟩
  | unlock ht =>
      exact ⟨todo, held, h.congr hchain (.of_running rfl rfl rfl rfl) h.failing rfl rfl⟩
  | send hsend =>
      obtain ⟨data, rest, -, -, -, -, rfl⟩ := Session.send_eq hsend
      exact ⟨todo, held, h.congr hchain (.of_running rfl rfl rfl rfl) h.failing rfl rfl⟩
  | sendDone hdone =>
      obtain ⟨data, k, rest, -, rfl⟩ := Session.sendDone_eq hdone
      exact ⟨todo, held, h.congr hchain (.of_running rfl (Session.writeHandler_input ..) rfl rfl)
        h.failing rfl rfl⟩
  | @sendFail data rest ec hw =>
      refine ⟨todo, held, h.congr hchain (aside_enter (s := { n.sess with writes := rest }) rfl _) ?_
        rfl rfl⟩
      intro todo' hx
      rcases mem_enter hx with hx | hx
      · exact h.failing todo' hx
      · cases hx; exact herr false ec
  | @recv bytes s hrecv =>
      obtain ⟨rest, hr, -, -, rfl⟩ := Session.recv_eq hrecv
      obtain ⟨hs, rfl, -, rfl, rfl⟩ := h.shape.of_reads h.chain hr
      have hshape : Reading cfg (n.withSess { n.sess with reads := [some bytes] }) ([] : List ε)
          (n.sess.undelivered cfg ++ bytes) := .outstanding (some bytes) hs rfl
      exact ⟨[], _, h.hold bytes hchain h.bodylen hshape (fun x hx => Or.inl hx) rfl rfl rfl (by simp)⟩
  | @recvStopped bytes rest hr hstop =>
      obtain ⟨hs, rfl, hnone, rfl, rfl⟩ := h.shape.of_reads h.chain hr
      have hzero : (n.withSess { n.sess with reads := [] }).readers = 0 := by
        simp only [readers, withSess, List.length_nil]; omega
      exact ⟨[], _, h.hold [] hchain h.bodylen (.ended _ hs hzero) (fun x hx => Or.inl hx)
        rfl rfl (List.append_nil _).symm (List.append_nil _).symm⟩
  | @recvDone bytes rest hr hstop =>
      obtain ⟨hs, rfl, -, rfl, rfl⟩ := h.shape.of_reads h.chain hr
      refine ⟨[], _, h.hold [] hchain h.bodylen
        (.looping hs (List.mem_append_right _ (List.mem_singleton_self _))) ?_ rfl rfl
        (List.append_nil _).symm ?_⟩
      · intro x hx
        rcases List.mem_append.mp hx with hx | hx
        · exact Or.inl hx
        · rw [List.mem_singleton.mp hx]; exact Or.inr rfl
      · simp only [Session.undelivered, Session.commit, List.append_assoc, List.append_nil,
          Option.getD_some]
        rfl
  | @recvFail rest ec hr =>
      obtain ⟨hs, rfl, hnone, rfl, rfl⟩ := h.shape.of_reads h.chain hr
      have hsess := sess_enter n { n.sess with reads := [] } (.failing (body (.error true ec)))
      have hzero : (n.enter { n.sess with reads := [] } (.failing (body (.error true ec)))).readers =
          0 := by
        rw [readers_enter_failing]; simpa using hnone
      refine ⟨[], n.sess.undelivered cfg ++ [], hchain, ?_, h.frames, h.bytes,
        .ended _ ((started_enter _ _ _).trans hs) hzero, ?_, ?_⟩
      · rw [hsess]; exact h.bodylen
      · intro todo' hx
        rcases mem_enter hx with hx | hx
        · exact h.failing todo' hx
        · cases hx; exact herr true ec
      · rw [calls_enter]; exact h.told
  | @brk i hact hturn =>
      have hnote : note cfg n g (.run i) = g := by simp [note, handed, hact, hturn]
      rw [hnote]
      exact h.brk hact hchain
  | @head i s hact hturn =>
      have hnote : note cfg n g (.run i) = g := by simp [note, handed, hact, hturn]
      obtain ⟨hs, hreads, rfl, rfl⟩ := h.shape.of_loop h.chain (List.mem_of_getElem? hact)
      have hund := Session.undelivered_head hturn
      obtain ⟨-, -, hp, rfl⟩ := Session.turn_eq_head hturn
      rw [hnote]
      exact ⟨[], _, h.hold [] hchain (cfg.codec.dec_lt (by simp [hp]))
        (.looping hs (List.mem_of_getElem? hact)) (fun x hx => Or.inl hx) rfl rfl
        (List.append_nil _).symm (hund.trans (List.append_nil _).symm)⟩
  | @body i f s hact hturn =>
      have hnote : note cfg n g (.run i) = { g with frames := g.frames ++ [f] } := by
        simp [note, handed, hact, hturn]
      rw [hnote]
      exact h.handOn hact hturn hchain
  | @consume i hact =>
      have hnote : note cfg n g (.run i) = g := by simp [note, handed_of_ne hact]
      obtain ⟨hs, hreads, rfl, hhead, rfl⟩ := h.shape.of_reading h.chain (List.mem_of_getElem? hact)
      rw [hnote]
      refine ⟨[], _, h.hold [] hchain h.bodylen (.looping hs (goOn_mem hact _)) ?_ rfl rfl
        (List.append_nil _).symm ?_⟩
      · intro x hx
        rcases mem_goOn hx with hx | rfl
        · exact Or.inl hx
        · exact Or.inr rfl
      · simp [Session.undelivered, Session.consumeBody, goOn, withSess, hhead]
  | @callRead i e todo' hact =>
      have hnote : note cfg n g (.run i) = g := by simp [note, handed_of_ne hact]
      obtain ⟨hs, hreads, rfl, hhead, rfl⟩ := h.shape.of_reading h.chain (List.mem_of_getElem? hact)
      rw [hnote]
      refine ⟨todo', _, hchain, h.bodylen, h.frames, h.bytes, .calling hs (goOn_mem hact _) hhead,
        ?_, ?_⟩
      · intro todo hx
        rcases mem_goOn hx with hx | hx
        · exact h.failing todo hx
        · cases hx
      · have hcalls : ((n.see (.call e)).goOn i (.reading todo')).calls = n.calls ++ [e] :=
          calls_see n e
        rw [← h.told, hcalls, List.filter_append, List.append_assoc, ← List.filter_append]
        rfl
  | @returnFail i hact =>
      have hnote : note cfg n g (.run i) = g := by simp [note, handed_of_ne hact]
      have hleave := readers_leave hact
      rw [hnote]
      refine ⟨todo, held, h.congr hchain ⟨rfl, rfl, by simpa [Activation.isReader] using hleave, ?_,
        rfl⟩ (fun todo' hx => h.failing todo' (mem_leave hx)) rfl rfl⟩
      intro x hx hr
      exact Slots.mem_eraseIdx_of_ne hx hact (fun he => by rw [he] at hr; cases hr)
  | @callFail i e todo' hact =>
      have hnote : note cfg n g (.run i) = g := by simp [note, handed_of_ne hact]
      have hfail := h.failing _ (List.mem_of_getElem? hact)
      rw [hnote]
      refine ⟨todo, held, h.congr hchain ⟨rfl, rfl, readers_goOn hact rfl rfl rfl, ?_, ?_⟩ ?_ rfl rfl⟩
      · intro x hx hr
        exact Slots.mem_set_of_ne hx hact (fun he => by rw [he] at hr; cases hr) _
      · have hcalls : ((n.see (.call e)).goOn i (.failing todo')).calls = n.calls ++ [e] :=
          calls_see n e
        rw [hcalls, List.filter_append]
        simp [hfail e List.mem_cons_self]
      · intro todo'' hx
        rcases mem_goOn hx with hx | hx
        · exact h.failing todo'' hx
        · cases hx
          exact fun e' he' => hfail e' (List.mem_cons_of_mem _ he')

theorem intake_create : Intake cfg body p Traffic.empty create [] [] where
  chain := readChain_create
  bodylen := Nat.pow_pos (by norm_num)
  frames := fun f hf => by cases hf
  bytes := rfl
  shape := .fresh rfl rfl rfl
  failing := fun _ hx => by cases hx
  told := rfl

theorem Intake.of_run (herr : ∀ w ec, ∀ e ∈ body (.error w ec), p e = false)
    (h : Run (Live.step cfg body) Anything create acts n) :
    ∃ todo held, Intake cfg body p (traffic cfg body acts) n todo held :=
  h.follow (I := fun g n => ∃ todo held, Intake cfg body p g n todo held) ⟨[], [], intake_create⟩
    fun _ _ _ _ ⟨_, _, hI⟩ _ hstep => hI.step herr (Step.of_step hstep)

/-- Frames whose bytes begin a stream of contents are those of the first contents. -/
theorem Intake.contents (h : Intake cfg body p g n todo held) {ps : List (List Byte)}
    (hps : ∀ q ∈ ps, q.length < cfg.codec.bound) (hpre : g.received <+: cfg.codec.stream ps) :
    g.frames.map Frame.content <+: ps := by
  obtain ⟨rest, hrest⟩ := hpre
  apply cfg.codec.stream_prefix cfg.pakSize_pos (r := held ++ rest) ?_ hps
  · rw [← Frame.flatMap_bytes, ← List.append_assoc, h.bytes, hrest]
  · intro q hq
    obtain ⟨f, hf, rfl⟩ := List.mem_map.mp hq
    rw [f.content_length]
    exact h.frames f hf

/-- **Nothing is handed on twice or out of order.**  In every run, whatever fails and whenever `stop` is
called: the frames handed to `read_callback` begin what was received; when that begins the frames of
`ps`, they are the first of `ps`; and the user calls with `p` are those of these frames, in their order,
as far as they were made, when no failure makes one. -/
theorem told_prefix (herr : ∀ w ec, ∀ e ∈ body (.error w ec), p e = false)
    (h : Run (Live.step cfg body) Anything create acts n) :
    (traffic cfg body acts).frames.flatMap (Frame.bytes cfg) <+: (traffic cfg body acts).received ∧
      (∀ ps : List (List Byte), (∀ q ∈ ps, q.length < cfg.codec.bound) →
        (traffic cfg body acts).received <+: cfg.codec.stream ps →
          (traffic cfg body acts).frames.map Frame.content <+: ps) ∧
      n.calls.filter p <+: ((traffic cfg body acts).frames.flatMap fun f => body (.read f)).filter p := by
  obtain ⟨todo, held, hI⟩ := Intake.of_run herr h
  exact ⟨⟨held, hI.bytes⟩, fun ps => hI.contents, ⟨todo.filter p, hI.told⟩⟩

/-- Two frames arrive; a write fails meanwhile, and `stop` comes while the first is being told. -/
def stoppedTelling : List SessionAct :=
  [.start, .write [7], .recv [1, 0, 0, 0, 0, 0, 0, 0, 5, 1, 0, 0, 0, 0, 0, 0, 0, 6], .recvDone,
    .sendFail .eof, .run 0, .run 0, .stop, .run 1, .run 0, .run 0, .run 0, .run 0]

theorem told_prefix_stopped :
    (traffic .shipped frames stoppedTelling).frames.map Frame.content = [[5], [6]] ∧
      ∃ n : Live Frame, n.calls.map Frame.content = [[5]] ∧
      (traffic .shipped frames stoppedTelling).frames.flatMap (Frame.bytes .shipped) <+:
        (traffic .shipped frames stoppedTelling).received ∧
      (∀ ps : List (List Byte), (∀ q ∈ ps, q.length < Config.shipped.codec.bound) →
        (traffic .shipped frames stoppedTelling).received <+: Config.shipped.codec.stream ps →
          (traffic .shipped frames stoppedTelling).frames.map Frame.content <+: ps) ∧
      n.calls.filter (fun _ => true) <+:
        ((traffic .shipped frames stoppedTelling).frames.flatMap fun f =>
          frames (.read f)).filter fun _ => true := by
  have h := Run.of_exec (Live.step .shipped frames) create stoppedTelling (by decide)
  exact ⟨by decide, _, by decide, told_prefix (fun _ _ _ he => by cases he) h⟩

end Live

end AsioTcpFrame
