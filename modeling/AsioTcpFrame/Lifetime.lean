import AsioTcpFrame.Client
import AsioTcpFrame.ServerLifetime

/-! # What runs after a client or a server is destroyed

The handlers of the framework capture `this`, of the object that starts the operation, as a plain
pointer.  On an `io_context` of the caller's the object may be destroyed while operations are
outstanding; its socket is closed, and the operations complete with an error, or with what they had
got before, and their handlers run.

* `~ClientTCP` stops its session and drops it; nobody else owns it, so the connect handler and the
  handlers of the session access what is gone.  All is well only when none is outstanding.
* `~ServerTCP` drops its pool, but the sessions own themselves (`Kept`) and go on, and report to the
  server that is gone.  All is well only when it is `Server.Settled`.
* The receive handler of `ServerUDP` starts the next receive whatever has happened, and one is always
  outstanding.  So it always accesses the server that is gone. -/

namespace AsioTcpFrame

open Transition Lifetime

/-! ### A client -/

namespace Client

variable {cfg : Config} {n n' : Client} {acts : List ClientAct}

/-- No handler and no call of the client is running. -/
structure Between (n : Client) : Prop where
  running : n.live.running = []
  testing : n.live.testing = false
  connect : n.connect = .pending ∨ n.connect = .connected ∨ n.connect = .failed

/-- A client on the caller's `io_context`.  A stop test of another thread is part of a call.  The
handlers of the client and of its session all access one of the two, which are destroyed together;
that the socket takes or gets bytes does not. -/
def host (cfg : Config) : Host Client ClientAct where
  step := Client.step cfg .shared
  isCall
    | .write _ _ | .close | .io .tryLock | .io .unlock => true
    | _ => false
  touches _
    | .connectDone _ | .connectNext => true
    | .io (.send _) | .io (.recv _) => false
    | .io _ => true
    | _ => false
  destroy n := { n with live := n.live.withSess n.live.sess.stop }

/-- Nothing of the client is outstanding. -/
structure Done (n : Client) : Prop where
  connect : n.connect ≠ .pending
  reads : n.live.sess.reads = []
  writes : n.live.sess.writes = []

theorem Done.no_step (h : n.Done) (hb : n.Between) {a : ClientAct}
    (ha : (host cfg).isCall a = false) : n.step cfg .shared a = none := by
  have hconnect := hb.connect.resolve_left h.connect
  cases a with
  | connectDone ec => simp only [step, if_neg h.connect]
  | connectNext => rcases hconnect with hc | hc <;> simp only [step, hc]
  | write head payload => cases ha
  | close => cases ha
  | io b =>
      cases b with
      | start => rfl
      | write content => rfl
      | stop => rfl
      | tryLock => cases ha
      | unlock => cases ha
      | send k => simp [step, SessionAct.isIo, sess, Live.step, Session.send, h.writes]
      | sendDone => simp [step, SessionAct.isIo, sess, Live.step, Session.sendDone, h.writes]
      | sendFail ec => simp [step, SessionAct.isIo, sess, Live.step, h.writes]
      | recv bytes => simp [step, SessionAct.isIo, sess, Live.step, Session.recv, h.reads]
      | recvDone => simp [step, SessionAct.isIo, sess, Live.step, h.reads]
      | recvFail ec => simp [step, SessionAct.isIo, sess, Live.step, h.reads]
      | run i => simp [step, SessionAct.isIo, sess, Live.step, Live.run, hb.running]

theorem stop_reads_writes (s : Session) : s.stop.reads = s.reads ∧ s.stop.writes = s.writes := by
  unfold Session.stop
  split <;> exact ⟨rfl, rfl⟩

theorem Done.destroy (h : n.Done) : ((host cfg).destroy n).Done := by
  obtain ⟨hreads, hwrites⟩ := stop_reads_writes n.live.sess
  exact ⟨h.connect, hreads.trans h.reads, hwrites.trans h.writes⟩

/-- **When a client may be destroyed** between handlers: exactly when nothing is outstanding. -/
theorem noneOutlives_iff (hb : n.Between) : (host cfg).NoneOutlives n ↔ n.Done := by
  obtain ⟨hreads, hwrites⟩ := stop_reads_writes n.live.sess
  constructor
  · intro hnone
    -- the handler of what is outstanding runs at once
    have haccess : ∀ a, (host cfg).isCall a = false → (host cfg).touches ((host cfg).destroy n) a =
        true → (((host cfg).destroy n).step cfg .shared a).isSome = true → False := by
      intro a ha ht hsome
      obtain ⟨s', hstep⟩ := Option.isSome_iff_exists.mp hsome
      exact (Host.Reaches.access (h := host cfg) ha hstep ht).not_noneOutlives hnone
    refine ⟨fun hpending => ?_, ?_, ?_⟩
    · exact haccess (.connectDone none) rfl rfl (by simp [step, host, hpending])
    · cases hr : n.live.sess.reads with
      | nil => rfl
      | cons op rest =>
          exfalso
          cases op with
          | none =>
              refine haccess (.io (.recvFail .eof)) rfl rfl ?_
              simp [step, SessionAct.isIo, sess, Live.step, host, Live.withSess, hreads, hr]
          | some bytes =>
              refine haccess (.io .recvDone) rfl rfl ?_
              simp [step, SessionAct.isIo, sess, Live.step, host, Live.withSess, hreads, hr]
    · cases hw : n.live.sess.writes with
      | nil => rfl
      | cons op rest =>
          exfalso
          obtain ⟨data, sent⟩ := op
          cases sent with
          | none =>
              refine haccess (.io (.sendFail .eof)) rfl rfl ?_
              simp [step, SessionAct.isIo, sess, Live.step, host, Live.withSess, hwrites, hw]
          | some k =>
              refine haccess (.io .sendDone) rfl rfl ?_
              simp [step, SessionAct.isIo, sess, Live.step, host, Live.withSess, hwrites, hw,
                Session.sendDone]
  · intro hdone
    refine Host.noneOutlives_of_inert (h := host cfg) (I := fun n => n.Done ∧ n.Between)
      ⟨hdone.destroy, ⟨hb.running, hb.testing, hb.connect⟩⟩ fun s a s' hI ha hstep => ?_
    have hnone := hI.1.no_step hI.2 ha
    rw [show s.step cfg .shared a = some s' from hstep] at hnone
    cases hnone

end Client

/-! ### A `ServerUDP` -/

namespace ServerUDP

variable {ε : Type} {cfg : Config} {cb : Callbacks} {n : ServerUDP ε}

/-- A `ServerUDP` on the caller's `io_context`.  The receive handler accesses it on every branch, the
handler of a send only to report an error. -/
def host (cfg : Config) (cb : Callbacks) : Host (ServerUDP ε) (ServerUDPAct ε) where
  step := ServerUDP.step cfg cb
  isCall
    | .write _ _ _ => true
    | _ => false
  touches _
    | .run _ | .sendDone (some _) => true
    | _ => false
  destroy n := n

/-- **A `ServerUDP` may never be destroyed** between handlers. -/
theorem not_noneOutlives (h : n.Loop) (hidle : n.running = []) : ¬ (host cfg cb).NoneOutlives n := by
  have hcalled : ∀ (k : ServerUDP ε) r, k.receives = [some r] → k.running = [] → (host cfg cb).Reaches k := by
    intro k r hr hk
    have hinvoke : (host cfg cb).step k .invoke =
        some { k with receives := [], running := [.called r] } := by
      simp only [host, step, hr, hk, List.nil_append]
    obtain ⟨k', hstep⟩ : ∃ k', (host cfg cb).step
        { k with receives := [], running := [.called r] } (.run 0) = some k' := ⟨_, rfl⟩
    exact .step rfl hinvoke (.access rfl hstep rfl)
  cases h with
  | waiting hr _ =>
      -- the socket is closed, and the receive fails
      have hfail : (host cfg cb).step n (.fail .eof 0) =
          some { n with receives := [some ⟨some .eof, 0⟩] } := by simp only [host, step, hr]
      exact (Host.Reaches.step (h := host cfg cb) rfl hfail
        (hcalled _ _ rfl hidle)).not_noneOutlives
  | done r hr _ => exact (hcalled n r hr hidle).not_noneOutlives
  | called r _ hrunning => rw [hidle] at hrunning; cases hrunning
  | showing _ hrunning => rw [hidle] at hrunning; cases hrunning

end ServerUDP

/-- **When an object may be destroyed** between handlers, on an `io_context` that goes on: a client exactly
when nothing of it is outstanding; a `ServerTCP` exactly when no accept and no read is, and its writes
have sent all that is buffered (only then if the guard of the read loop covers a header); a `ServerUDP`
never.  Then no handler and no callback of a session accesses what was destroyed. -/
theorem handlers_outlive {ε : Type} [Inhabited ε] {cfg : Config} {cb : Callbacks}
    {c : Client} (hbetween : c.Between)
    {acts : List ServerAct} {s : Server} (hs : Run (Server.step cfg) Anything Server.create acts s)
    (hq : s.Quiescent) {acts' : List (ServerUDPAct ε)} {u : ServerUDP ε}
    (hu : Run (ServerUDP.step cfg cb) Anything ServerUDP.create acts' u) (hidle : u.running = []) :
    ((Client.host cfg).NoneOutlives c ↔ c.Done) ∧
      ((s.Settled → (Server.host cfg).NoneOutlives s) ∧
        (cfg.pakSize ≤ cfg.sizeT → (Server.host cfg).NoneOutlives s → s.Settled)) ∧
      ¬ (ServerUDP.host cfg cb).NoneOutlives u :=
  ⟨Client.noneOutlives_iff hbetween,
    ⟨Server.noneOutlives_of_settled hs hq, fun hcfg => Server.settled_of_noneOutlives hcfg hs hq⟩,
    ServerUDP.not_noneOutlives (ServerUDP.loop_of_run hu) hidle⟩

/-- A client connects and is sent a packet, which the socket takes as a whole; it closes the connection, and
the accept operation fails. -/
def windsUp : List ServerAct :=
  Server.clientConnects ++
    [.call (.write 7 [5] [6]), .run 1 [] none, .run 1 [] none, .run 1 [] none, .run 1 [] none,
      .io 0 (.send 10), .io 0 (.recvFail .eof), .run 3 [] none, .run 3 [] none, .run 3 [] none,
      .acceptFail "Too many open files", .run 4 [] none]

/-- A client that could not connect, a server whose write has yet to complete, and a `ServerUDP` that has
received. -/
theorem handlers_outlive_refused :
    ∃ c s u, Run (Client.step .shipped .shared) Anything Client.create
        [.connectDone (some (.other "Connection refused")), .connectNext] c ∧
      Run (Server.step .shipped) Anything Server.create windsUp s ∧
      Run (ServerUDP.step .shipped .both) Anything ServerUDP.create ServerUDP.mixedReceives u ∧
      c.Done ∧ s.writes 0 = 1 ∧ s.Settled ∧
      (((Client.host .shipped).NoneOutlives c ↔ c.Done) ∧
        ((Server.host .shipped).NoneOutlives s ↔ s.Settled) ∧
        ¬ (ServerUDP.host .shipped .both).NoneOutlives u) := by
  have hc := Run.of_exec (Client.step .shipped .shared) Client.create
    [.connectDone (some (.other "Connection refused")), .connectNext] (by decide +kernel)
  have hs := Run.of_exec (Server.step .shipped) Server.create windsUp (by decide +kernel)
  have hu := Run.of_exec (ServerUDP.step .shipped .both) ServerUDP.create ServerUDP.mixedReceives
    (by decide +kernel)
  refine ⟨_, _, _, hc, hs, hu, ⟨by decide +kernel, by decide +kernel, by decide +kernel⟩,
    by decide +kernel, ⟨by decide +kernel, by decide +kernel, ?_⟩, ?_⟩
  · have hsent : ∀ o ∈ ((Transition.exec (Server.step .shipped) Server.create windsUp).get
        (by decide +kernel)).sessions, o.sess.reads = [] ∧
          ∀ op ∈ o.sess.writes, op.sent = some 10 ∧ o.sess.sendBuf.length ≤ 10 := by
      decide +kernel
    intro i o ho
    obtain ⟨hreads, hwrites⟩ := hsent o (List.mem_of_getElem? ho)
    exact ⟨hreads, fun op hop => ⟨10, hwrites op hop⟩⟩
  · refine And.imp_right (And.imp_left fun h => ⟨h.2 (Nat.le_refl 8), h.1⟩)
      (handlers_outlive ?_ hs (by decide +kernel) hu (by decide +kernel))
    exact ⟨by decide +kernel, by decide +kernel, Or.inr (Or.inr (by decide +kernel))⟩

/-- **What is accessed after the destructor**: a connected client waits for bytes, a server for a
client, and a `ServerUDP` for a datagram. -/
theorem not_handlers_outlive :
    ∃ c, Run (Client.step .shipped .shared) Anything Client.create
        [.connectDone none, .connectNext, .connectNext] c ∧ c.Between ∧
      ¬ (Client.host .shipped).NoneOutlives c ∧
      ¬ (Server.host .shipped).NoneOutlives Server.create ∧
      ¬ (ServerUDP.host .shipped .both).NoneOutlives (ServerUDP.create : ServerUDP ℕ) := by
  have hc := Run.of_exec (Client.step .shipped .shared) Client.create
    [.connectDone none, .connectNext, .connectNext] (by decide +kernel)
  have hclient : ∀ n, Client.Between n → ¬ n.Done → ¬ (Client.host .shipped).NoneOutlives n :=
    fun n hbetween hdone hnone => hdone ((Client.noneOutlives_iff hbetween).mp hnone)
  refine ⟨_, hc, ⟨by decide +kernel, by decide +kernel, Or.inr (Or.inl (by decide +kernel))⟩,
    hclient _ ⟨by decide +kernel, by decide +kernel, Or.inr (Or.inl (by decide +kernel))⟩ ?_, ?_, ?_⟩
  · intro hdone
    exact absurd hdone.reads (by decide +kernel)
  · -- the acceptor is closed, and the handler of the accept operation runs
    exact (Host.Reaches.step (h := Server.host .shipped) (a := .acceptFail "Operation canceled") rfl rfl
      (.access (a := .run 0 [] none) rfl rfl rfl)).not_noneOutlives
  · exact ServerUDP.not_noneOutlives (.waiting rfl rfl) rfl

end AsioTcpFrame
