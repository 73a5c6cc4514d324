import AsioTcpFrame.Client
import AsioTcpFrame.Rearming

/-! # How often a session fails

The error branches of the two handlers of a session start nothing again: no `doRead`, and no `doWrite`,
which is also the only one that would clear `is_writing`.  So whatever happens, a read of a session fails
at most once, and a write fails at most once (`Spent`, `fails_once`); and `error_callback` is called at most
twice (`reported`).

`ClientTCP` calls `onDisconnect` for each of the two and stops nothing.  Its callbacks are out of order
when both come (`not_protocol`), but that is all: `onConnect` is called at most once, and `onDisconnect`
once for every failure that was reported, which are two at most (`disconnects_le_two`). -/

namespace AsioTcpFrame

open Transition
open scoped List

/-- A write of the session fails. -/
def SessionAct.isSendFail : SessionAct → Bool
  | sendFail _ => true
  | _ => false

namespace Live

variable {ε : Type} {cfg : Config} {body : Callback → List ε} {n n' : Live ε} {a : SessionAct}
  {acts : List SessionAct} {r w : ℕ}

/-- The `r` reads that have failed, and those that may still do, are one at most, and none before
`start`; the `w` writes that have failed, and those that may still do, are one at most, and none while
`is_writing` is clear. -/
structure Spent (r w : ℕ) (n : Live ε) : Prop where
  reads : r + n.readers ≤ n.started.toNat
  writes : w + n.sess.writes.length ≤ n.sess.isWriting.toNat

theorem spent_create : Spent 0 0 (create : Live ε) := ⟨Nat.le_refl 0, Nat.le_refl 0⟩

/-! ### The writes -/

/-- `doWrite` starts a write only when it sets `is_writing`, and clears it only when nothing is
outstanding. -/
theorem writes_doWrite {s : Session} (h : w + s.writes.length ≤ s.isWriting.toNat)
    (hw : w + s.writes.length = 0) :
    w + s.doWrite.writes.length ≤ s.doWrite.isWriting.toNat := by
  unfold Session.doWrite
  split
  · exact h
  · split
    · show w + s.writes.length ≤ 0
      omega
    · simp only [List.length_append, List.length_singleton, Bool.toNat_true]
      omega

theorem writes_write {s : Session} (h : w + s.writes.length ≤ s.isWriting.toNat)
    (content : List Byte) :
    w + (s.write cfg content).writes.length ≤ (s.write cfg content).isWriting.toNat := by
  unfold Session.write Session.writeLocked
  split
  · exact h
  · split
    · exact h
    · next hidle =>
      have hclear : s.isWriting = false := by simpa using hidle
      rw [hclear] at h
      apply writes_doWrite
      · show w + s.writes.length ≤ s.isWriting.toNat
        rw [hclear]
        exact h
      · show w + s.writes.length = 0
        exact Nat.le_zero.mp h

theorem writes_writeHandler {s : Session} {x : WriteOp} {rest : List WriteOp} {k : ℕ}
    (h : w + s.writes.length ≤ s.isWriting.toNat) (hx : s.writes = x :: rest) :
    w + (Session.writeHandler { s with writes := rest } k).writes.length ≤
      (Session.writeHandler { s with writes := rest } k).isWriting.toNat := by
  rw [hx, List.length_cons] at h
  have hle := Bool.toNat_le s.isWriting
  unfold Session.writeHandler Session.writeDone
  split
  · show w + rest.length ≤ s.isWriting.toNat
    omega
  · apply writes_doWrite
    · show w + rest.length ≤ s.isWriting.toNat
      omega
    · show w + rest.length = 0
      omega

/-! ### One step -/

theorem Spent.sending (h : Spent r w n) {s : Session} (hin : s.input = n.sess.input)
    (hw : w + s.writes.length ≤ s.isWriting.toNat) : Spent r w (n.withSess s) :=
  ⟨by rw [readers_withSess hin]; exact h.reads, hw⟩

theorem Spent.receiving (h : Spent r w n) {r' : ℕ} (hr : r' + n'.readers ≤ n'.started.toNat)
    (hout : n'.sess.output = n.sess.output) : Spent r' w n' := by
  obtain ⟨hwriting, -, hwrites⟩ := Session.Output.mk.inj hout
  exact ⟨hr, by rw [hwriting, hwrites]; exact h.writes⟩

theorem Spent.congr (h : Spent r w n) (hr : n'.readers = n.readers) (hs : n'.started = n.started)
    (hout : n'.sess.output = n.sess.output) : Spent r w n' :=
  h.receiving (by rw [hr, hs]; exact h.reads) hout

/-- **One step** spends a read or a write for every failure. -/
theorem Spent.step (h : Spent r w n) (hstep : Step cfg body n a n') :
    Spent (r + a.isRecvFail.toNat) (w + a.isSendFail.toNat) n' := by
  have hreads := h.reads
  have hwrites := h.writes
  cases hstep with
  | start hs =>
      have hread := readers_doRead_le (n := n)
      rw [hs, Bool.toNat_false] at hreads
      refine h.receiving ?_ (Session.doRead_output n.sess)
      show r + (n.withSess n.sess.doRead).readers ≤ 1
      omega
  | write content => exact h.sending (by simp) (writes_write hwrites content)
  | stop =>
      have hstop : Spent r w (n.withSess n.sess.stop) := by
        refine h.sending (by simp) ?_
        unfold Session.stop
        split
        · exact hwrites
        · exact hwrites
      exact ⟨hstop.reads, hstop.writes⟩
  | tryLock hs => exact ⟨hreads, hwrites⟩
  | unlock ht => exact ⟨hreads, hwrites⟩
  | send hsend =>
      obtain ⟨data, rest, hw, -, -, -, rfl⟩ := Session.send_eq hsend
      refine h.sending rfl ?_
      rw [hw] at hwrites
      exact hwrites
  | sendDone hdone =>
      obtain ⟨data, k, rest, hw, rfl⟩ := Session.sendDone_eq hdone
      refine h.sending ?_ (writes_writeHandler hwrites hw)
      rw [Session.writeHandler_input]
      rfl
  | @sendFail data rest ec hw =>
      have hstarted : (n.enter { n.sess with writes := rest }
          (.failing (body (.error false ec)))).started = n.started := by
        unfold enter; split <;> rfl
      refine ⟨?_, ?_⟩
      · rw [readers_enter_failing, hstarted]
        exact hreads
      · rw [sess_enter]
        rw [hw, List.length_cons] at hwrites
        show w + 1 + rest.length ≤ n.sess.isWriting.toNat
        omega
  | recv hrecv =>
      obtain ⟨rest, hr, -, -, rfl⟩ := Session.recv_eq hrecv
      exact h.congr (by simp [readers, withSess, hr]) rfl rfl
  | recvStopped hr hs =>
      refine h.receiving ?_ rfl
      simp only [readers, hr, List.length_cons] at hreads
      simp only [readers, withSess, SessionAct.isRecvFail, Bool.toNat_false]
      omega
  | recvDone hr hs =>
      refine h.receiving ?_ rfl
      simp only [readers, hr, List.length_cons] at hreads
      simp only [readers, Session.commit, List.countP_append, List.countP_singleton,
        Activation.isReader, SessionAct.isRecvFail, Bool.toNat_false, if_true]
      omega
  | @recvFail rest ec hr =>
      have hstarted : (n.enter { n.sess with reads := rest }
          (.failing (body (.error true ec)))).started = n.started := by
        unfold enter; split <;> rfl
      refine h.receiving ?_ (by rw [sess_enter]; rfl)
      rw [readers_enter_failing, hstarted]
      simp only [readers, hr, List.length_cons] at hreads
      simp only [SessionAct.isRecvFail, Bool.toNat_true]
      omega
  | brk hact hturn =>
      have hread := readers_doRead_le (n := n)
      have hleave := readers_leave (n := n.withSess n.sess.doRead) hact
      simp only [Activation.isReader, Bool.toNat_true] at hleave
      refine h.receiving ?_ (Session.doRead_output n.sess)
      show r + ((n.withSess n.sess.doRead).leave _).readers ≤ n.started.toNat
      omega
  | head hact hturn =>
      obtain ⟨-, -, -, rfl⟩ := Session.turn_eq_head hturn
      exact h.congr rfl rfl rfl
  | body hact hturn =>
      obtain ⟨-, -, -, -, rfl⟩ := Session.turn_eq_body hturn
      exact h.congr (readers_goOn hact rfl rfl rfl) rfl rfl
  | consume hact => exact h.congr (readers_goOn hact rfl rfl rfl) rfl rfl
  | callRead hact => exact h.congr (readers_goOn hact rfl rfl rfl) rfl rfl
  | returnFail hact => exact h.congr (readers_leave hact) rfl rfl
  | callFail hact => exact h.congr (readers_goOn hact rfl rfl rfl) rfl rfl

/-! ### Whole runs -/

/-- A failure that is reported is one that is counted. -/
theorem reports_le (n : Live ε) (a : SessionAct) :
    (if n.Reports a then 1 else 0) ≤ a.isRecvFail.toNat + a.isSendFail.toNat := by
  split
  · next h =>
    cases a with
    | sendFail ec => exact Nat.le_refl 1
    | recvFail ec => exact Nat.le_refl 1
    | _ => cases h
  · exact Nat.zero_le _

variable (cfg body) in
/-- How often `error_callback` is called in a run. -/
def reported (acts : List SessionAct) : ℕ :=
  follow (Live.step cfg body) (fun n k a => k + if n.Reports a then 1 else 0) create 0 acts

theorem Spent.of_run (h : Run (Live.step cfg body) Anything create acts n) :
    Spent (acts.countP SessionAct.isRecvFail) (acts.countP SessionAct.isSendFail) n := by
  apply h.history (I := fun acts n =>
    Spent (acts.countP SessionAct.isRecvFail) (acts.countP SessionAct.isSendFail) n) spent_create
  intro as s a s' hI _ hstep
  have hnext := hI.step (Step.of_step hstep)
  have hcount : ∀ p : SessionAct → Bool, (as ++ [a]).countP p = as.countP p + (p a).toNat := by
    intro p
    rw [List.countP_append, List.countP_singleton]
    cases p a <;> rfl
  rw [hcount, hcount]
  exact hnext

theorem Spent.le_one (h : Spent r w n) : r ≤ 1 ∧ w ≤ 1 := by
  have hreads := h.reads
  have hwrites := h.writes
  have hstarted := Bool.toNat_le n.started
  have hwriting := Bool.toNat_le n.sess.isWriting
  omega

theorem reported_le_two (h : Run (Live.step cfg body) Anything create acts n) :
    reported cfg body acts ≤ 2 := by
  have hI : ∃ r w, Spent r w n ∧ reported cfg body acts ≤ r + w := by
    apply h.follow (I := fun k n => ∃ r w, Spent r w n ∧ k ≤ r + w)
      ⟨0, 0, spent_create, Nat.le_refl 0⟩
    rintro k n a n' ⟨r, w, hspent, hle⟩ _ hstep
    have hone := reports_le n a
    exact ⟨_, _, hspent.step (Step.of_step hstep), by omega⟩
  obtain ⟨r, w, hspent, hle⟩ := hI
  obtain ⟨hr, hw⟩ := hspent.le_one
  omega

/-- **Everything fails at most once**: in every run, whatever is called and whenever, at most one read and
at most one write of a session fail, and `error_callback` is called at most twice. -/
theorem fails_once (h : Run (Live.step cfg body) Anything create acts n) :
    acts.countP SessionAct.isRecvFail ≤ 1 ∧ acts.countP SessionAct.isSendFail ≤ 1 ∧
      reported cfg body acts ≤ 2 := by
  obtain ⟨hr, hw⟩ := (Spent.of_run h).le_one
  exact ⟨hr, hw, reported_le_two h⟩

/-- A write fails; what is written after that is not sent, so it cannot fail; and the read fails. -/
def failingTwice : List SessionAct :=
  [.start, .write [7], .sendFail (.other "Broken pipe"), .run 0, .write [8], .recvFail .eof, .run 1]

theorem fails_once_each :
    ∃ n, Run (Live.step .shipped fun c => [c]) Anything create failingTwice n ∧
      n.calls = [.error false (.other "Broken pipe"), .error true .eof] ∧
      reported .shipped (fun c => [c]) failingTwice = 2 ∧
      failingTwice.countP SessionAct.isRecvFail ≤ 1 ∧
      failingTwice.countP SessionAct.isSendFail ≤ 1 ∧
      reported .shipped (fun c => [c]) failingTwice ≤ 2 := by
  have h := Run.of_exec (Live.step .shipped fun c => [c]) create failingTwice (by decide)
  exact ⟨_, h, by decide, by decide, fails_once h⟩

end Live

/-! ### A client -/

namespace Client

variable {cfg : Config} {kind : ClientKind} {n n' : Client} {a : ClientAct} {acts : List ClientAct}

/-- How often the user is told of the connection and of its failures, when `r` reads and `w` writes have
failed. -/
structure Told (r w : ℕ) (n : Client) : Prop where
  spent : Live.Spent r w n.live
  errors : n.errors ≤ r + w
  noConnect : n.live.ahead.count .onConnect = 0
  connect : n.calls.count .onConnect = if n.connect = .connected then 1 else 0
  disconnect : n.live.ahead.count .onDisconnect + n.calls.count .onDisconnect = n.errors

theorem told_create : Told 0 0 create :=
  ⟨Live.spent_create, Nat.le_refl 0, rfl, rfl, rfl⟩

theorem Told.sess {r w : ℕ} (h : Told r w n) {b : SessionAct}
    (hstep : n.sess cfg kind b = some n') :
    Told (r + b.isRecvFail.toNat) (w + b.isSendFail.toNat) n' := by
  obtain ⟨live, hlive, rfl⟩ := Option.map_eq_some_iff.mp hstep
  have hlive' := Live.Step.of_step hlive
  have hspent := h.spent.step hlive'
  have herrors : n.errors + (if n.live.Reports b then 1 else 0) ≤
      r + b.isRecvFail.toNat + (w + b.isSendFail.toNat) := by
    have hle := Live.reports_le n.live b
    have hold := h.errors
    omega
  have hconnect := h.noConnect
  have hdisconnect := h.disconnect
  simp only [calls] at hdisconnect
  cases Live.Calls.of_step hlive' with
  | quiet hrep hcalls hahead =>
      rw [if_neg hrep] at herrors ⊢
      refine ⟨hspent, herrors, ?_, ?_, ?_⟩
      · rw [hahead.count_eq, hconnect]
      · simp only [calls, hcalls]
        exact h.connect
      · simp only [calls, hcalls, hahead.count_eq]
        exact hdisconnect
  | read f hon hrep hcalls hahead =>
      obtain ⟨hc, hd⟩ := count_body_read cfg kind f
      rw [if_neg hrep] at herrors ⊢
      refine ⟨hspent, herrors, ?_, ?_, ?_⟩
      · rw [hahead.count_eq, List.count_append, hc, hconnect]
      · simp only [calls, hcalls]
        exact h.connect
      · simp only [calls, hcalls, hahead.count_eq, List.count_append, hd]
        omega
  | error x ec hrep hcalls hahead =>
      obtain ⟨hc, hd, -⟩ := count_errorCallback x ec
      rw [if_pos hrep] at herrors ⊢
      refine ⟨hspent, herrors, ?_, ?_, ?_⟩
      · rw [hahead.count_eq, List.count_append, ClientTCP.body, hc, hconnect]
      · simp only [calls, hcalls]
        exact h.connect
      · simp only [calls, hcalls, hahead.count_eq, List.count_append, ClientTCP.body, hd]
        omega
  | call e hrep hcalls hahead =>
      rw [← hahead.count_eq, List.count_cons] at hconnect hdisconnect
      have hne : ¬ e = .onConnect := by rintro rfl; simp at hconnect
      rw [if_neg hrep] at herrors ⊢
      refine ⟨hspent, herrors, by dsimp only; omega, ?_, ?_⟩
      · simp only [calls, hcalls, List.count_append, List.count_singleton, beq_iff_eq, hne, if_false]
        exact h.connect
      · simp only [calls, hcalls, List.count_append, List.count_singleton]
        omega

theorem Told.move {r w : ℕ} (h : Told r w n) {live : Live ClientEvent} {pc : ConnectPc}
    (hspent : Live.Spent r w live) (hahead : live.ahead = n.live.ahead)
    (hconnect : live.calls.count .onConnect = if pc = .connected then 1 else 0)
    (hdisconnect : live.calls.count .onDisconnect = n.live.calls.count .onDisconnect) :
    Told r w { n with live := live, connect := pc } := by
  refine ⟨hspent, h.errors, by rw [hahead]; exact h.noConnect, hconnect, ?_⟩
  show live.ahead.count .onDisconnect + live.calls.count .onDisconnect = n.errors
  rw [hahead, hdisconnect]
  exact h.disconnect

theorem Told.step {r w : ℕ} (h : Told r w n) (hstep : n.step cfg kind a = some n') :
    ∃ r' w', Told r' w' n' := by
  have hpending : n.connect ≠ .connected → n.live.calls.count .onConnect = 0 := by
    intro hc
    have hold := h.connect
    rwa [if_neg hc] at hold
  cases a with
  | connectDone ec =>
      simp only [Client.step] at hstep
      split at hstep
      · next hc =>
        cases hstep
        have hzero := hpending (by rw [hc]; decide)
        cases ec with
        | none => exact ⟨r, w, h.move h.spent rfl hzero rfl⟩
        | some ec => exact ⟨r, w, h.move h.spent rfl hzero rfl⟩
      · cases hstep
  | connectNext =>
      simp only [Client.step] at hstep
      split at hstep
      · next hc =>
        obtain ⟨k, hk, rfl⟩ := Option.map_eq_some_iff.mp hstep
        have hstart := h.sess hk
        obtain ⟨live, hlive, rfl⟩ := Option.map_eq_some_iff.mp hk
        have hnot : ¬ n.connect = .connected := by rw [hc]; decide
        have hcount : live.calls.count .onConnect = 0 := hstart.connect.trans (if_neg hnot)
        exact ⟨_, _, hstart.move hstart.spent rfl hcount rfl⟩
      · next hc =>
        cases hstep
        have hzero := hpending (by rw [hc]; decide)
        refine ⟨r, w, h.move ⟨h.spent.reads, h.spent.writes⟩ rfl ?_ ?_⟩
        · simp [Live.calls_see, hzero]
        · simp [Live.calls_see]
      · next hc =>
        cases hstep
        have hzero := hpending (by rw [hc]; simp)
        refine ⟨r, w, h.move ⟨h.spent.reads, h.spent.writes⟩ rfl ?_ ?_⟩
        · simp [Live.calls_see, hzero]
        · simp [Live.calls_see]
      · cases hstep
  | write head payload => exact ⟨_, _, h.sess hstep⟩
  | close => exact ⟨_, _, h.sess hstep⟩
  | io b =>
      simp only [Client.step] at hstep
      split at hstep
      · exact ⟨_, _, h.sess hstep⟩
      · cases hstep

/-- **What is left of the order in every run**: `onConnect` is called at most once, and `onDisconnect` at
most twice; and when no callback is running, once for every failure that was reported. -/
theorem disconnects_le_two (h : Run (Client.step cfg kind) Anything create acts n) :
    n.calls.count .onConnect ≤ 1 ∧ n.calls.count .onDisconnect ≤ 2 ∧
      (n.live.running = [] → n.calls.count .onDisconnect = n.errors) := by
  have hI : ∃ r w, Told r w n := by
    apply h.invariant (I := fun n => ∃ r w, Told r w n) ⟨0, 0, told_create⟩
    rintro n a n' ⟨r, w, hI⟩ _ hstep
    exact hI.step hstep
  obtain ⟨r, w, hI⟩ := hI
  obtain ⟨hr, hw⟩ := hI.spent.le_one
  have herrors := hI.errors
  have hconnect := hI.connect
  have hdisconnect := hI.disconnect
  refine ⟨by split at hconnect <;> omega, by omega, ?_⟩
  intro hidle
  rw [Live.ahead, hidle] at hdisconnect
  simpa using hdisconnect

theorem disconnects_le_two_fail :
    ∃ n, Run (Client.step .shipped .own) Anything create bothFail n ∧
      n.calls.count .onDisconnect = 2 ∧ n.calls.count .onConnect ≤ 1 ∧
      n.calls.count .onDisconnect ≤ 2 ∧
      (n.live.running = [] → n.calls.count .onDisconnect = n.errors) := by
  have h := Run.of_exec (Client.step .shipped .own) create bothFail (by decide)
  exact ⟨_, h, by decide +kernel, disconnects_le_two h⟩

end Client

end AsioTcpFrame
