import AsioTcpFrame.Sender
import AsioTcpFrame.Stopping

/-! # Writes that fail

The success branch of the write handler ends in `doWrite`, which starts the next write or clears
`is_writing`.  The error branch only calls `error_callback`: `is_writing` stays set, although
nothing is outstanding, and every later `write` appends to `send_buf` and leaves it at that
(`Stuck`).

So as long as `stop` is not called, `is_writing`, `send_buf` and the outstanding write agree
(`NothingParked`) exactly in the runs in which no write has failed: `nothingParked_iff`. -/

namespace AsioTcpFrame

open Transition

namespace Session

variable {s t : Session}

/-- What the sending half works on. -/
structure Output where
  isWriting : Bool
  sendBuf : List Byte
  writes : List WriteOp

def output (s : Session) : Output := ⟨s.isWriting, s.sendBuf, s.writes⟩

@[simp] theorem doRead_output (s : Session) : s.doRead.output = s.output := by
  unfold doRead; split <;> rfl

/-- `is_writing` is set exactly while one write is outstanding, and nothing is buffered without
one. -/
structure NothingParked (s : Session) : Prop where
  writing : s.isWriting = true ↔ s.writes.length = 1
  buffered : s.writes = [] → s.sendBuf = []

/-- `is_writing` is set, and nothing is outstanding that would ever clear it. -/
def Stuck (s : Session) : Prop := s.isWriting = true ∧ s.writes = []

theorem WriteChain.congr (h : WriteChain s) (he : t.output = s.output) : WriteChain t := by
  obtain ⟨hw, hb, hws⟩ := Output.mk.inj he
  cases h with
  | idle hnil hbuf hwr => exact .idle (hws.trans hnil) (hb.trans hbuf) (hw.trans hwr)
  | busy hop hwr hne hpre hle =>
      exact .busy (hws.trans hop) (hw.trans hwr) hne (hb ▸ hpre) hle

theorem WriteChain.nothingParked (h : WriteChain s) : NothingParked s := by
  cases h with
  | idle hnil hbuf hwr => exact ⟨by simp [hwr, hnil], fun _ => hbuf⟩
  | busy hop hwr _ _ _ => exact ⟨by simp [hwr, hop], fun hnil => by rw [hop] at hnil; cases hnil⟩

theorem Stuck.congr (h : Stuck s) (he : t.output = s.output) : Stuck t := by
  obtain ⟨hw, -, hws⟩ := Output.mk.inj he
  exact ⟨hw.trans h.1, hws.trans h.2⟩

theorem Stuck.not_nothingParked (h : Stuck s) : ¬ NothingParked s := by
  intro hp
  have hone := hp.writing.mp h.1
  rw [h.2] at hone
  cases hone

theorem Stuck.write (h : Stuck s) (cfg : Config) (content : List Byte) :
    Stuck (s.write cfg content) := by
  unfold Session.write writeLocked
  split
  · exact h
  · rw [if_pos h.1]; exact h

theorem Stuck.not_send (h : Stuck s) (k : ℕ) : s.send k = none := by
  simp only [send, h.2]

theorem Stuck.not_sendDone (h : Stuck s) : s.sendDone = none := by
  simp only [sendDone, h.2]

/-- **The failure of the outstanding write** leaves the session stuck. -/
theorem WriteChain.fail (h : WriteChain s) {data : List Byte} {rest : List WriteOp}
    (hw : s.writes = ⟨data, none⟩ :: rest) : Stuck { s with writes := rest } := by
  cases h with
  | idle hnil _ _ => rw [hnil] at hw; cases hw
  | busy hop hwr _ _ _ =>
      rw [hop] at hw
      cases hw
      exact ⟨hwr, rfl⟩

end Session

namespace Live

variable {ε : Type} {cfg : Config} {body : Callback → List ε} {n n' : Live ε} {a : SessionAct}

/-- `stop` is not called. -/
def NotStop (_ : Live ε) (a : SessionAct) : Prop := a ≠ .stop

instance (n : Live ε) (a : SessionAct) : Decidable (NotStop n a) := by
  unfold NotStop; infer_instance

/-- What a step does to the sending half while the session is running. -/
inductive Sends (cfg : Config) (n : Live ε) (n' : Live ε) : SessionAct → Prop
  | quiet {a : SessionAct} : (∀ ec, a ≠ .sendFail ec) → n'.sess.output = n.sess.output →
      Sends cfg n n' a
  | write (content : List Byte) : n'.sess.output = (n.sess.write cfg content).output →
      Sends cfg n n' (.write content)
  | send {k : ℕ} {bytes : List Byte} {s : Session} : n.sess.send k = some (bytes, s) →
      n'.sess.output = s.output → Sends cfg n n' (.send k)
  | sendDone {s : Session} : n.sess.sendDone = some s → n'.sess.output = s.output →
      Sends cfg n n' .sendDone
  | sendFail {data : List Byte} {rest : List WriteOp} (ec : ErrorCode) :
      n.sess.writes = ⟨data, none⟩ :: rest →
        n'.sess.output = ({ n.sess with writes := rest } : Session).output →
          Sends cfg n n' (.sendFail ec)

theorem sess_enter (n : Live ε) (s : Session) (x : Activation ε) : (n.enter s x).sess = s := by
  unfold enter; split <;> rfl

theorem Sends.of_step (hG : NotStop n a) (hstep : Step cfg body n a n') : Sends cfg n n' a := by
  cases hstep with
  | start hs => exact .quiet (fun _ => nofun) (Session.doRead_output _)
  | write content => exact .write content rfl
  | stop => exact absurd rfl hG
  | tryLock hs => exact .quiet (fun _ => nofun) rfl
  | unlock ht => exact .quiet (fun _ => nofun) rfl
  | send hsend => exact .send hsend rfl
  | sendDone hdone => exact .sendDone hdone rfl
  | sendFail ec hw => exact .sendFail ec hw (by rw [sess_enter])
  | recv hrecv =>
      obtain ⟨rest, -, -, -, rfl⟩ := Session.recv_eq hrecv
      exact .quiet (fun _ => nofun) rfl
  | recvStopped hr hs => exact .quiet (fun _ => nofun) rfl
  | recvDone hr hs => exact .quiet (fun _ => nofun) rfl
  | recvFail ec hr => exact .quiet (fun _ => nofun) (by rw [sess_enter]; rfl)
  | brk hact hturn => exact .quiet (fun _ => nofun) (Session.doRead_output _)
  | head hact hturn =>
      obtain ⟨-, -, -, rfl⟩ := Session.turn_eq_head hturn
      exact .quiet (fun _ => nofun) rfl
  | body hact hturn =>
      obtain ⟨-, -, -, -, rfl⟩ := Session.turn_eq_body hturn
      exact .quiet (fun _ => nofun) rfl
  | consume hact => exact .quiet (fun _ => nofun) rfl
  | callRead hact => exact .quiet (fun _ => nofun) rfl
  | returnFail hact => exact .quiet (fun _ => nofun) rfl
  | callFail hact => exact .quiet (fun _ => nofun) rfl

/-- The session is running, and no test holds its flag. -/
def Untouched (n : Live ε) : Prop := n.sess.stopped = false ∧ n.testing = false

theorem Untouched.step (h : n.Untouched) (hG : NotStop n a) (hstep : Step cfg body n a n') :
    n'.Untouched := by
  obtain ⟨hs, ht⟩ := h
  cases hstep with
  | start _ => exact ⟨by simp [Session.start, hs], ht⟩
  | write content => exact ⟨by simp [withSess, hs], ht⟩
  | stop => exact absurd rfl hG
  | tryLock hstop => rw [hs] at hstop; cases hstop
  | unlock htest => rw [ht] at htest; cases htest
  | send hsend =>
      obtain ⟨data, rest, -, -, -, -, rfl⟩ := Session.send_eq hsend
      exact ⟨hs, ht⟩
  | sendDone hdone =>
      obtain ⟨data, k, rest, -, rfl⟩ := Session.sendDone_eq hdone
      exact ⟨by simp [withSess, hs], ht⟩
  | sendFail ec hw => simp [Untouched, enter, hs, ht]
  | recv hrecv =>
      obtain ⟨rest, -, -, -, rfl⟩ := Session.recv_eq hrecv
      exact ⟨hs, ht⟩
  | recvStopped hr hstop => exact ⟨hs, ht⟩
  | recvDone hr _ => exact ⟨hs, ht⟩
  | recvFail ec hr => simp [Untouched, enter, hs, ht]
  | brk hact hturn => exact ⟨by simp [leave, withSess, hs], ht⟩
  | head hact hturn =>
      obtain ⟨-, -, -, rfl⟩ := Session.turn_eq_head hturn
      exact ⟨hs, ht⟩
  | body hact hturn =>
      obtain ⟨-, -, -, -, rfl⟩ := Session.turn_eq_body hturn
      exact ⟨hs, ht⟩
  | consume hact => exact ⟨hs, ht⟩
  | callRead hact => exact ⟨hs, ht⟩
  | returnFail hact => exact ⟨hs, ht⟩
  | callFail hact => exact ⟨hs, ht⟩

/-- The chain of writes is whole as long as none has failed, and stuck afterwards. -/
structure FailInv (acts : List SessionAct) (n : Live ε) : Prop where
  untouched : n.Untouched
  whole : (∀ ec, .sendFail ec ∉ acts) → n.sess.WriteChain
  stuck : ∀ ec, .sendFail ec ∈ acts → n.sess.Stuck

theorem failInv_create : FailInv [] (create : Live ε) where
  untouched := ⟨rfl, rfl⟩
  whole := fun _ => .idle rfl rfl rfl
  stuck := fun _ h => by cases h

/-- A step that is not a failure: what it does to a whole chain, and to a stuck one. -/
theorem FailInv.extend {acts : List SessionAct} (h : FailInv acts n) (hn : n'.Untouched)
    (ha : ∀ ec, a ≠ .sendFail ec) (hwhole : n.sess.WriteChain → n'.sess.WriteChain)
    (hstuck : n.sess.Stuck → n'.sess.Stuck) : FailInv (acts ++ [a]) n' where
  untouched := hn
  whole hnone := hwhole (h.whole fun ec hec => hnone ec (List.mem_append_left _ hec))
  stuck ec hec := by
    rcases List.mem_append.mp hec with hec | hec
    · exact hstuck (h.stuck ec hec)
    · exact absurd (List.mem_singleton.mp hec).symm (ha ec)

theorem FailInv.step {acts : List SessionAct} (h : FailInv acts n) (hG : NotStop n a)
    (hstep : Step cfg body n a n') : FailInv (acts ++ [a]) n' := by
  have hn := h.untouched.step hG hstep
  have hrun := h.untouched.1
  cases Sends.of_step hG hstep with
  | quiet ha he => exact h.extend hn ha (fun hc => hc.congr he) (fun hs => hs.congr he)
  | write content he =>
      apply h.extend hn (by simp)
      · intro hc
        exact (Session.writeChain_write cfg hc hrun content).1.congr he
      · intro hs
        exact (hs.write cfg content).congr he
  | send hsend he =>
      apply h.extend hn (by simp)
      · intro hc
        exact (Session.writeChain_send hc hsend).1.congr he
      · intro hs
        rw [hs.not_send] at hsend
        cases hsend
  | sendDone hdone he =>
      apply h.extend hn (by simp)
      · intro hc
        exact (Session.writeChain_sendDone hc hrun hdone).1.congr he
      · intro hs
        rw [hs.not_sendDone] at hdone
        cases hdone
  | sendFail ec hw he =>
      -- a session that is stuck has nothing that could fail, so this is the first failure
      have hnone : ∀ ec', .sendFail ec' ∉ acts := by
        intro ec' hec'
        have hnil := (h.stuck ec' hec').2
        rw [hw] at hnil
        cases hnil
      have hstuck : n'.sess.Stuck := ((h.whole hnone).fail hw).congr he
      refine ⟨hn, fun hfail => ?_, fun _ _ => hstuck⟩
      exact absurd (List.mem_append_right acts (List.mem_singleton_self _)) (hfail ec)

/-- **When nothing is parked.**  In every state of every run in which `stop` is not called,
`is_writing` says whether a write is outstanding and nothing is buffered without one, exactly when
no write has failed. -/
theorem nothingParked_iff {acts : List SessionAct}
    (h : Run (step cfg body) NotStop create acts n) :
    n.sess.NothingParked ↔ ∀ ec, .sendFail ec ∉ acts := by
  have hI : FailInv acts n := h.history failInv_create
    fun _ _ _ _ hI hG hstep => hI.step hG (Step.of_step hstep)
  constructor
  · intro hp ec hec
    exact (hI.stuck ec hec).not_nothingParked hp
  · intro hnone
    exact (hI.whole hnone).nothingParked

/-- Two writes, of which the first is cut; a partial and a whole completion. -/
def cutWrite : List SessionAct :=
  [.write [7], .send 4, .write [8], .sendDone, .send 14, .sendDone]

theorem nothingParked_cutWrite :
    ∃ n, Run (step .shipped callbacks) NotStop create cutWrite n ∧ n.running = [] ∧
      n.sess.NothingParked := by
  have h := Run.of_execWhen (step .shipped callbacks) NotStop create cutWrite (by decide)
  exact ⟨_, h, by decide, (nothingParked_iff h).mpr (by simp [cutWrite])⟩

/-- A write fails, `error_callback` returns, and another write comes. -/
def writeAfterFailure : List SessionAct :=
  [.write [7], .sendFail (.other "Broken pipe"), .run 0, .run 0, .write [8]]

/-- Both frames stay in the buffer, and nothing is outstanding that would ever send them. -/
theorem not_nothingParked :
    ∃ n, Run (step .shipped callbacks) NotStop create writeAfterFailure n ∧ n.running = [] ∧
      n.sess.writes = [] ∧ n.sess.sendBuf.length = 18 ∧ ¬ n.sess.NothingParked := by
  have h := Run.of_execWhen (step .shipped callbacks) NotStop create writeAfterFailure (by decide)
  refine ⟨_, h, by decide, by decide, by decide, ?_⟩
  intro hp
  exact absurd (hp.buffered (by decide)) (by decide)

end Live

end AsioTcpFrame
