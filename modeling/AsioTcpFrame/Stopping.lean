import AsioTcpFrame.Lib.Trace
import AsioTcpFrame.Handlers

/-! # Callbacks after `stop`

Every handler tests the stop flag when it is entered, and not again.  So `stop` is followed by
no callback exactly when it is called while no handler that has passed its test has a callback
still to make: none that is about to make one, and no read handler whose buffer holds another
complete frame (`Activation.Silent`); and when no handler is entered while a test holds the flag.
`no_call_after_stop` is about every run of that kind; `call_after_stop` is a run which is not, the
`close()` in `onMessage` of the example client on a chunk with two frames. -/

namespace AsioTcpFrame

open Transition Trace

/-- The buffer holds a complete frame, or the rest of one whose header was taken. -/
def Session.FrameReady (cfg : Config) (s : Session) : Prop :=
  if s.isReadingHead then
    cfg.sizeT ≤ s.recvBuf.length ∧ cfg.pakSize ≤ s.recvBuf.length ∧
      cfg.codec.dec (s.recvBuf.take cfg.pakSize) ≤ s.recvBuf.length - cfg.pakSize
  else s.bodylen ≤ s.recvBuf.length

instance (cfg : Config) (s : Session) : Decidable (s.FrameReady cfg) := by
  unfold Session.FrameReady; infer_instance

namespace Session

variable {cfg : Config} {s s' : Session} {f : Frame}

theorem FrameReady.congr (h : s.input = s'.input) : s.FrameReady cfg ↔ s'.FrameReady cfg := by
  obtain ⟨hr, hb, hbuf, -⟩ := Input.mk.inj h
  unfold FrameReady
  rw [hr, hb, hbuf]

theorem consumeBody_congr (h : s.input = s'.input) : s.consumeBody.input = s'.consumeBody.input := by
  obtain ⟨hr, hb, hbuf, hreads⟩ := Input.mk.inj h
  simp only [consumeBody, input, hr, hb, hbuf, hreads]

theorem frameReady_head (h : s.turn cfg = .head s') : s'.FrameReady cfg ↔ s.FrameReady cfg := by
  obtain ⟨hr, hsz, hp, rfl⟩ := turn_eq_head h
  simp [FrameReady, hr, hsz, hp]

theorem frameReady_body (h : s.turn cfg = .body f s') : s.FrameReady cfg := by
  obtain ⟨hr, hb, -, -, -⟩ := turn_eq_body h
  simp [FrameReady, hr, hb]

end Session

/-- A running handler that will make no callback unless more bytes are received. -/
def Activation.Silent {ε : Type} (cfg : Config) (s : Session) : Activation ε → Prop
  | loop => ¬ s.FrameReady cfg
  | reading todo => todo = [] ∧ ¬ s.consumeBody.FrameReady cfg
  | failing todo => todo = []

instance {ε : Type} [DecidableEq ε] (cfg : Config) (s : Session) (x : Activation ε) :
    Decidable (x.Silent cfg s) := by
  cases x <;> unfold Activation.Silent <;> infer_instance

theorem Activation.Silent.congr {ε : Type} {cfg : Config} {s s' : Session} {x : Activation ε}
    (h : s.input = s'.input) (hx : x.Silent cfg s) : x.Silent cfg s' := by
  cases x with
  | loop => exact fun hr => hx ((Session.FrameReady.congr h).mpr hr)
  | reading todo =>
      exact ⟨hx.1, fun hr => hx.2 ((Session.FrameReady.congr (Session.consumeBody_congr h)).mpr hr)⟩
  | failing todo => exact hx

theorem Activation.Silent.failing {ε : Type} {cfg : Config} {s s' : Session} {x : Activation ε}
    (hx : x.isReader = false) (h : x.Silent cfg s) : x.Silent cfg s' := by
  cases x with
  | failing todo => exact h
  | loop => cases hx
  | reading todo => cases hx

namespace Live

/-- The callbacks themselves are what is seen. -/
def callbacks : Callback → List Callback := fun c => [c]

/-- `stop` was called: the flag is free, or a test holds it for a moment. -/
def Halted {ε : Type} (n : Live ε) : Prop := n.sess.stopped = true ∨ n.testing = true

instance {ε : Type} (n : Live ε) : Decidable n.Halted := by unfold Halted; infer_instance

/-- The first call of `stop` is made while no running handler has a callback still to make, and no
handler that may make one is entered while a test holds the flag. -/
def StopsSilently (cfg : Config) (n : Live Callback) : SessionAct → Prop
  | .stop => ¬ n.Halted → ∀ x ∈ n.running, x.Silent cfg n.sess
  | .sendFail _ | .recvDone | .recvFail _ => n.testing = true → n.sess.stopped = true
  | _ => True

instance (cfg : Config) (n : Live Callback) : ∀ a, Decidable (StopsSilently cfg n a)
  | .stop => inferInstanceAs (Decidable (¬ n.Halted → ∀ x ∈ n.running, x.Silent cfg n.sess))
  | .sendFail _ | .recvDone | .recvFail _ =>
      inferInstanceAs (Decidable (n.testing = true → n.sess.stopped = true))
  | .start | .write _ | .tryLock | .unlock | .send _ | .sendDone | .recv _ | .run _ =>
      inferInstanceAs (Decidable True)

/-- A call of user code. -/
def IsCall {ε : Type} : Obs ε → Prop
  | .call _ => True
  | .stopped => False

instance {ε : Type} (o : Obs ε) : Decidable (IsCall o) := by
  cases o <;> unfold IsCall <;> infer_instance

/-- After `stop` has returned, no `read_callback` and no `error_callback` is called. -/
def SilentAfterStop (n : Live Callback) : Prop := NeverAfter (· = .stopped) IsCall n.trace

/-- What holds in every state of such a run: before `stop` its return is not in the trace, and
after it every running handler is silent. -/
structure StopInv (cfg : Config) (n : Live Callback) : Prop where
  chain : n.ReadChain
  fresh : ¬ n.Halted → .stopped ∉ n.trace
  silent : n.Halted → ∀ x ∈ n.running, x.Silent cfg n.sess
  order : n.SilentAfterStop

variable {cfg : Config} {n n' : Live Callback} {a : SessionAct}

theorem stopInv_create : StopInv cfg create where
  chain := readChain_create
  fresh := fun _ => List.not_mem_nil
  silent := fun _ x hx => by cases hx
  order := neverAfter_nil

theorem SilentAfterStop.call (h : n.SilentAfterStop) (hfresh : .stopped ∉ n.trace) (c : Callback) :
    (n.see (.call c)).SilentAfterStop := by
  refine neverAfter_snoc.mpr ⟨h, ?_⟩
  intro _ y hy hstop
  exact hfresh (hstop ▸ hy)

/-- A step that makes no call, after which the handlers are silent if the session is halted. -/
theorem StopInv.quiet (h : StopInv cfg n) (hchain : n'.ReadChain) (hhalted : n.Halted → n'.Halted)
    (htrace : n'.trace = n.trace) (hrunning : n'.Halted → ∀ x ∈ n'.running, x.Silent cfg n'.sess) :
    StopInv cfg n' where
  chain := hchain
  fresh hn := by rw [htrace]; exact h.fresh fun hhalt => hn (hhalted hhalt)
  silent := hrunning
  order := by
    show NeverAfter _ _ n'.trace
    rw [htrace]
    exact h.order

theorem StopInv.sess (h : StopInv cfg n) {s : Session} (hchain : (n.withSess s).ReadChain)
    (hstopped : s.stopped = n.sess.stopped) (hready : ∀ x : Activation Callback,
      x.Silent cfg n.sess → x.Silent cfg s) : StopInv cfg (n.withSess s) := by
  have hiff : (n.withSess s).Halted ↔ n.Halted := by
    simp only [Halted, withSess, hstopped]
  apply h.quiet hchain hiff.mpr rfl
  intro hhalt x hx
  exact hready x (h.silent (hiff.mp hhalt) x hx)

/-- A handler is entered, and the flag says whether `stop` was called: only when it was not does
the handler start to run. -/
theorem StopInv.enter (h : StopInv cfg n) {s : Session} {act : Activation Callback}
    (hG : n.testing = true → n.sess.stopped = true) (hchain : (n.enter s act).ReadChain)
    (hstopped : s.stopped = n.sess.stopped)
    (hready : ∀ x : Activation Callback, x.Silent cfg n.sess → x.Silent cfg s) :
    StopInv cfg (n.enter s act) := by
  cases hs : s.stopped with
  | true =>
      simp only [Live.enter, hs, if_true] at hchain ⊢
      exact h.sess hchain hstopped hready
  | false =>
      have hrun : ¬ n.Halted := by
        rintro (hstop | htest)
        · rw [← hstopped, hs] at hstop; cases hstop
        · rw [← hstopped, hs] at hG; cases hG htest
      simp only [Live.enter, hs, Bool.false_eq_true, if_false] at hchain ⊢
      apply h.quiet hchain (fun hhalt => absurd hhalt hrun) rfl
      intro hhalt
      simp only [Halted, hstopped] at hhalt
      exact absurd hhalt hrun

theorem StopInv.running (h : StopInv cfg n) {x : Activation Callback} (hx : x ∈ n.running)
    (htodo : x.todo ≠ []) : ¬ n.Halted := by
  intro hhalt
  have hsilent := h.silent hhalt x hx
  cases x with
  | loop => exact htodo rfl
  | reading todo => exact htodo hsilent.1
  | failing todo => exact htodo hsilent

theorem StopInv.call (h : StopInv cfg n) {i : ℕ} {x y : Activation Callback} {c : Callback}
    (hact : n.running[i]? = some x) (htodo : x.todo = c :: y.todo)
    (hchain : ((n.see (.call c)).goOn i y).ReadChain) :
    StopInv cfg ((n.see (.call c)).goOn i y) := by
  have hrun : ¬ n.Halted := h.running (List.mem_of_getElem? hact) (by rw [htodo]; simp)
  refine ⟨hchain, ?_, fun hhalt => absurd hhalt hrun, h.order.call (h.fresh hrun) c⟩
  intro _
  simpa [see, goOn] using h.fresh hrun

theorem StopInv.step (h : StopInv cfg n) (hG : StopsSilently cfg n a)
    (hstep : Step cfg callbacks n a n') : StopInv cfg n' := by
  have hchain := h.chain.step hstep
  have hreads : ∀ (rs : List ReadOp) (x : Activation Callback), x.Silent cfg n.sess →
      x.Silent cfg { n.sess with reads := rs } := by
    intro rs x hx
    cases x with
    | loop => exact hx
    | reading todo => exact hx
    | failing todo => exact hx
  have hdoRead : ∀ x : Activation Callback, x.Silent cfg n.sess → x.Silent cfg n.sess.doRead := by
    intro x hx
    unfold Session.doRead
    split
    · exact hx
    · exact hreads _ x hx
  cases hstep with
  | start hs =>
      have hiff : Halted { n with sess := n.sess.start, started := true } ↔ n.Halted := by
        simp [Halted, Session.start]
      apply h.quiet hchain hiff.mpr rfl
      intro hhalt x hx
      exact hdoRead x (h.silent (hiff.mp hhalt) x hx)
  | write content =>
      exact h.sess hchain (by simp) fun x hx => hx.congr (by simp)
  | stop =>
      refine ⟨hchain, ?_, ?_, neverAfter_snoc.mpr ⟨h.order, fun hc => hc.elim⟩⟩
      · intro hn
        exact absurd (Or.inl (by simp [see, withSess])) hn
      · intro _ x hx
        have hsilent : x.Silent cfg n.sess := by
          by_cases hhalt : n.Halted
          · exact h.silent hhalt x hx
          · exact hG hhalt x hx
        exact hsilent.congr (by simp [see, withSess])
  | tryLock hs =>
      apply h.quiet hchain (fun _ => Or.inr rfl) rfl
      intro _ x hx
      exact (h.silent (Or.inl hs) x hx).congr rfl
  | unlock ht =>
      apply h.quiet hchain (fun _ => Or.inl rfl) rfl
      intro _ x hx
      exact (h.silent (Or.inr ht) x hx).congr rfl
  | send hsend =>
      obtain ⟨data, rest, -, -, -, -, rfl⟩ := Session.send_eq hsend
      exact h.sess hchain rfl fun x hx => hx.congr rfl
  | sendDone hdone =>
      obtain ⟨data, k, rest, -, rfl⟩ := Session.sendDone_eq hdone
      exact h.sess hchain (by simp) fun x hx => hx.congr (by rw [Session.writeHandler_input]; rfl)
  | sendFail ec hw => exact h.enter hG hchain rfl fun x hx => hx.congr rfl
  | recv hrecv =>
      obtain ⟨rest, hr, -, -, rfl⟩ := Session.recv_eq hrecv
      exact h.sess hchain rfl (hreads _)
  | recvStopped hr hs => exact h.sess hchain rfl (hreads _)
  | recvDone hr hs =>
      have hrun : ¬ n.Halted := by
        rintro (hstop | htest)
        · rw [hs] at hstop; cases hstop
        · rw [hG htest] at hs; cases hs
      exact h.quiet hchain (fun hhalt => absurd hhalt hrun) rfl fun hhalt => absurd hhalt hrun
  | recvFail ec hr => exact h.enter hG hchain rfl (hreads _)
  | @brk i hact hturn =>
      have hiff : ((n.withSess n.sess.doRead).leave i).Halted ↔ n.Halted := by
        simp [Halted, leave, withSess]
      apply h.quiet hchain hiff.mpr rfl
      intro hhalt x hx
      exact hdoRead x (h.silent (hiff.mp hhalt) x (List.mem_of_mem_eraseIdx hx))
  | @head i s hact hturn =>
      have hiff : (n.withSess s).Halted ↔ n.Halted := by
        obtain ⟨-, -, -, rfl⟩ := Session.turn_eq_head hturn
        rfl
      apply h.quiet hchain hiff.mpr rfl
      intro hhalt x hx
      have hloop : (Activation.loop (ε := Callback)).Silent cfg n.sess :=
        h.silent (hiff.mp hhalt) _ (List.mem_of_getElem? hact)
      cases hxr : x.isReader with
      | true =>
          obtain rfl := h.chain.unique hx (List.mem_of_getElem? hact) hxr rfl
          exact fun hr => hloop ((Session.frameReady_head hturn).mp hr)
      | false => exact (h.silent (hiff.mp hhalt) x hx).failing hxr
  | @body i f s hact hturn =>
      have hiff : ((n.withSess s).goOn i (.reading (callbacks (.read f)))).Halted ↔ n.Halted := by
        obtain ⟨-, -, -, -, rfl⟩ := Session.turn_eq_body hturn
        rfl
      apply h.quiet hchain hiff.mpr rfl
      intro hhalt
      have hloop : (Activation.loop (ε := Callback)).Silent cfg n.sess :=
        h.silent (hiff.mp hhalt) _ (List.mem_of_getElem? hact)
      exact absurd (Session.frameReady_body hturn) hloop
  | @consume i hact =>
      apply h.quiet hchain (fun hhalt => hhalt) rfl
      intro hhalt x hx
      have hold : n.Halted := hhalt
      have hread : (Activation.reading ([] : List Callback)).Silent cfg n.sess :=
        h.silent hold _ (List.mem_of_getElem? hact)
      cases hxr : x.isReader with
      | true =>
          have hmem : Activation.loop ∈ ((n.withSess n.sess.consumeBody).goOn i .loop).running :=
            List.mem_set (List.getElem?_eq_some_iff.mp hact).1 _
          obtain rfl := hchain.unique hx hmem hxr rfl
          exact hread.2
      | false =>
          rcases List.mem_or_eq_of_mem_set hx with hx | rfl
          · exact (h.silent hold x hx).failing hxr
          · exact hread.2
  | callRead hact => exact h.call (y := .reading _) hact rfl hchain
  | returnFail hact =>
      apply h.quiet hchain (fun hhalt => hhalt) rfl
      intro hhalt x hx
      exact h.silent hhalt x (List.mem_of_mem_eraseIdx hx)
  | callFail hact => exact h.call (y := .failing _) hact rfl hchain

/-- **No callback after `stop`**, in every run in which the first call of `stop` is made while no
handler that has tested the flag has a callback still to make. -/
theorem no_call_after_stop {acts : List SessionAct}
    (h : Run (step cfg callbacks) (StopsSilently cfg) create acts n) : n.SilentAfterStop :=
  (h.invariant (I := StopInv cfg) stopInv_create
    fun _ _ _ hI hG hstep => hI.step hG (Step.of_step hstep)).order

/-- A chunk of two empty frames, and a `stop` in the first or in the second `read_callback`. -/
def twoFrames : List SessionAct :=
  [.start, .recv [0, 0, 0, 0, 0, 0, 0, 0, 0, 0, 0, 0, 0, 0, 0, 0], .recvDone, .run 0, .run 0, .run 0]

theorem no_call_after_stop_last :
    ∃ n, Run (step .shipped callbacks) (StopsSilently .shipped) create
        (twoFrames ++ [.run 0, .run 0, .run 0, .run 0, .stop, .run 0, .run 0]) n ∧
      n.trace = [.call (.read ⟨0, [], rfl⟩), .call (.read ⟨0, [], rfl⟩), .stopped] ∧
      n.SilentAfterStop := by
  have h := Run.of_execWhen (step .shipped callbacks) (StopsSilently .shipped) create
    (twoFrames ++ [.run 0, .run 0, .run 0, .run 0, .stop, .run 0, .run 0]) (by decide)
  exact ⟨_, h, by decide, no_call_after_stop h⟩

/-- An empty frame is received and `stop` is called; a test holds the flag for a moment, and meanwhile
the read completes. -/
def disturbedTest : List SessionAct :=
  [.start, .recv [0, 0, 0, 0, 0, 0, 0, 0], .stop, .tryLock, .recvDone, .run 0, .run 0, .run 0]

/-- `stop` in the first `read_callback` of the chunk: the second frame is handed on after it.  And a
handler that is entered while a test holds the flag hands its frame on. -/
theorem call_after_stop :
    (∃ n, Run (step .shipped callbacks) Anything create
        (twoFrames ++ [.stop, .run 0, .run 0, .run 0, .run 0]) n ∧
      n.trace = [.call (.read ⟨0, [], rfl⟩), .stopped, .call (.read ⟨0, [], rfl⟩)] ∧
      ¬ n.SilentAfterStop) ∧
    (∃ n, Run (step .shipped callbacks) Anything create disturbedTest n ∧
      n.trace = [.stopped, .call (.read ⟨0, [], rfl⟩)] ∧ ¬ n.SilentAfterStop) := by
  constructor
  · have h := Run.of_exec (step .shipped callbacks) create
      (twoFrames ++ [.stop, .run 0, .run 0, .run 0, .run 0]) (by decide)
    refine ⟨_, h, by decide, ?_⟩
    unfold SilentAfterStop NeverAfter
    decide
  · have h := Run.of_exec (step .shipped callbacks) create disturbedTest (by decide)
    refine ⟨_, h, by decide, ?_⟩
    unfold SilentAfterStop NeverAfter
    decide

end Live

end AsioTcpFrame
