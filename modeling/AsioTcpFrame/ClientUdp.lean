import AsioTcpFrame.ServerUdp

/-! # `ClientUDP` and its `io_context`

A `Scheduler` is what `run_one` and `io_context::work` see of an `io_context`: the handlers that are
ready, the count of the work that is outstanding, and the flag `stopped`.  When the count reaches
zero the context is stopped, and dispatches nothing from then on (there is no `restart` in the code).
The reactor's own operation goes round in the same queue; every send here completes at once, so it
brings nothing, and is left out.

`ClientUDP` owns such a context.  `write` starts a send, whose handler is then ready; `run_once`
dispatches one handler; `run` says that it runs the context, but only makes an `io_context::work`,
which begins and ends on the spot.  So `run` dispatches nothing, and the first call that leaves
nothing to dispatch stops the context for good.  `dispatches_iff` says which sequences of calls are
not harmed by it. -/

namespace AsioTcpFrame

/-- The part of `asio::detail::scheduler` that is used, with the handlers that are ready. -/
structure Scheduler (α : Type) where
  outstandingWork : ℕ
  stopped : Bool
  opQueue : List α

namespace Scheduler

variable {α : Type} {s : Scheduler α} {op : α} {rest : List α}

def create : Scheduler α := ⟨0, false, []⟩

def stop (s : Scheduler α) : Scheduler α := { s with stopped := true }

def workStarted (s : Scheduler α) : Scheduler α :=
  { s with outstandingWork := s.outstandingWork + 1 }

def workFinished (s : Scheduler α) : Scheduler α :=
  let s := { s with outstandingWork := s.outstandingWork - 1 }
  if s.outstandingWork = 0 then s.stop else s

/-- `post_immediate_completion`. -/
def postImmediateCompletion (s : Scheduler α) (op : α) : Scheduler α :=
  { s.workStarted with opQueue := s.opQueue ++ [op] }

/-- `run_one`, and the handler that it calls, if any; `none` when it waits. -/
def runOne (s : Scheduler α) : Option (Scheduler α × Option α) :=
  if s.outstandingWork = 0 then some (s.stop, none)
  else if s.stopped then some (s, none)
  else
    match s.opQueue with
    | op :: rest => some ({ s with opQueue := rest }.workFinished, some op)
    | [] => none

/-- All the outstanding work is that of the handlers that are ready. -/
def Immediate (s : Scheduler α) : Prop := s.outstandingWork = s.opQueue.length

theorem Immediate.post (h : s.Immediate) (op : α) : (s.postImmediateCompletion op).Immediate := by
  simp only [Immediate, postImmediateCompletion, workStarted, List.length_append, List.length_cons,
    List.length_nil]
  exact congrArg (· + 1) h

/-- Work that begins and ends at once stops a context without any other. -/
theorem Immediate.work (h : s.Immediate) :
    s.workStarted.workFinished = if s.opQueue = [] then s.stop else s := by
  have hzero : s.outstandingWork = 0 ↔ s.opQueue = [] := by
    rw [show s.outstandingWork = s.opQueue.length from h, List.length_eq_zero_iff]
  simp only [workStarted, workFinished, Nat.add_sub_cancel, hzero]

theorem Immediate.runOne_nil (h : s.Immediate) (hq : s.opQueue = []) :
    s.runOne = some (s.stop, none) := by
  rw [runOne, if_pos (by rw [show s.outstandingWork = _ from h, hq]; rfl)]

theorem Immediate.runOne_stopped (h : s.Immediate) (hq : s.opQueue = op :: rest)
    (hs : s.stopped = true) : s.runOne = some (s, none) := by
  have hlen : s.outstandingWork = rest.length + 1 := by
    rw [show s.outstandingWork = _ from h, hq, List.length_cons]
  rw [runOne, if_neg (by omega), if_pos hs]

theorem Immediate.runOne_cons (h : s.Immediate) (hq : s.opQueue = op :: rest)
    (hs : s.stopped = false) :
    s.runOne = some (⟨rest.length, decide (rest = []), rest⟩, some op) := by
  have hlen : s.outstandingWork = rest.length + 1 := by
    rw [show s.outstandingWork = _ from h, hq, List.length_cons]
  rw [runOne, if_neg (by omega), if_neg (by rw [hs]; decide), hq]
  simp only [workFinished, hlen, Nat.add_sub_cancel, List.length_eq_zero_iff]
  split
  · next hnil => simp [stop, hnil]
  · next hnil => simp [hs, hnil]

end Scheduler

/-- The handler of a send, with its buffer. -/
structure Completion where
  buf : ℕ
  ec : Option ErrorCode
deriving DecidableEq

variable {ε : Type}

/-- A `ClientUDP` that owns its context.  The buffers of the sends are numbered. -/
structure ClientUDP (ε : Type) where
  ctx : Scheduler Completion
  /-- How many buffers were allocated. -/
  made : ℕ
  /-- The buffers that were not deleted. -/
  live : List ℕ
  /-- The handlers that were called. -/
  dispatched : List Completion
  wire : List (Datagram ε)
  errors : List String

/-- The calls of the user; a `write` with what its send completes with. -/
inductive ClientUDPCall (ε : Type) where
  | write (endpoint : ε) (head payload : List Byte) (ec : Option ErrorCode)
  | run
  | runOnce

def ClientUDPCall.IsWrite : ClientUDPCall ε → Prop
  | .write .. => True
  | _ => False

instance : ∀ c : ClientUDPCall ε, Decidable c.IsWrite
  | .write .. => isTrue trivial
  | .run => isFalse id
  | .runOnce => isFalse id

namespace ClientUDP

def create : ClientUDP ε := ⟨.create, 0, [], [], [], []⟩

/-- `async_send_to`, which completes at once. -/
def asyncSendTo (n : ClientUDP ε) (d : Datagram ε) (ec : Option ErrorCode) : ClientUDP ε :=
  { n with
    ctx := n.ctx.postImmediateCompletion ⟨n.made, ec⟩
    made := n.made + 1
    live := n.live ++ [n.made]
    wire := if ec = none then n.wire ++ [d] else n.wire }

/-- What a send with this outcome tells the user. -/
def report (onError : Bool) (c : Completion) : List String :=
  match c.ec with
  | some ec => if onError then [ec.message] else []
  | none => []

/-- The handler of a send. -/
def handler (onError : Bool) (n : ClientUDP ε) (c : Completion) : ClientUDP ε :=
  { n with
    errors := n.errors ++ report onError c
    live := n.live.erase c.buf
    dispatched := n.dispatched ++ [c] }

/-- `run`. -/
def run (n : ClientUDP ε) : ClientUDP ε := { n with ctx := n.ctx.workStarted.workFinished }

/-- `run_once`. -/
def runOnce (onError : Bool) (n : ClientUDP ε) : Option (ClientUDP ε) :=
  n.ctx.runOne.map fun r =>
    match r.2 with
    | some c => handler onError { n with ctx := r.1 } c
    | none => { n with ctx := r.1 }

def call (cfg : Config) (onError : Bool) (n : ClientUDP ε) : ClientUDPCall ε → Option (ClientUDP ε)
  | .write endpoint head payload ec => some (n.asyncSendTo (write cfg endpoint head payload) ec)
  | .run => some n.run
  | .runOnce => n.runOnce onError

/-! ### What should happen -/

/-- No handler was called twice; the buffers that are left, and the errors that were not reported,
are those of the sends that were not dispatched. -/
structure Sound (onError : Bool) (n : ClientUDP ε) : Prop where
  once : (n.dispatched.map Completion.buf).Nodup
  released : n.live = n.ctx.opQueue.map Completion.buf
  reported : n.errors = n.dispatched.flatMap (report onError)

/-- `run` leaves nothing to dispatch, and `run_once` dispatches a handler when there is one. -/
def Dispatching (n : ClientUDP ε) (c : ClientUDPCall ε) (n' : ClientUDP ε) : Prop :=
  match c with
  | .write .. => True
  | .run => n'.ctx.opQueue = []
  | .runOnce => n.ctx.opQueue ≠ [] → n'.dispatched.length = n.dispatched.length + 1

/-- Every call of the sequence returns and does what it should. -/
def Dispatches (cfg : Config) (onError : Bool) : ClientUDP ε → List (ClientUDPCall ε) → Prop
  | n, [] => n.Sound onError
  | n, c :: cs => n.Sound onError ∧
      ∃ n', n.call cfg onError c = some n' ∧ n.Dispatching c n' ∧ Dispatches cfg onError n' cs

/-- Calls that do not need the context: no `run` and no `run_once` comes after a `write`. -/
def Drained (cs : List (ClientUDPCall ε)) : Prop := cs.Pairwise fun c c' => c.IsWrite → c'.IsWrite

/-- Calls that find `q` sends not dispatched: there is no `run` as long as one is left, and after the
`run` or `run_once` that leaves none the context is not needed. -/
def Good : ℕ → List (ClientUDPCall ε) → Prop
  | _, [] => True
  | q, .write .. :: cs => Good (q + 1) cs
  | 0, .run :: cs => Drained cs
  | 0, .runOnce :: cs => Drained cs
  | _ + 1, .run :: _ => False
  | 1, .runOnce :: cs => Drained cs
  | q + 2, .runOnce :: cs => Good (q + 1) cs

/-! ### What does -/

variable {cfg : Config} {onError : Bool} {n n' : ClientUDP ε} {cs : List (ClientUDPCall ε)}
  {c : ClientUDPCall ε}

/-- The handlers are called in the order of the sends. -/
structure Inv (onError : Bool) (n : ClientUDP ε) : Prop where
  immediate : n.ctx.Immediate
  fifo : (n.dispatched ++ n.ctx.opQueue).map Completion.buf = List.range n.made
  released : n.live = n.ctx.opQueue.map Completion.buf
  reported : n.errors = n.dispatched.flatMap (report onError)

theorem inv_create : Inv onError (create : ClientUDP ε) := ⟨rfl, rfl, rfl, rfl⟩

theorem Inv.sound (h : Inv onError n) : n.Sound onError where
  once := by
    have hnodup : (n.dispatched.map Completion.buf ++ n.ctx.opQueue.map Completion.buf).Nodup := by
      rw [← List.map_append, h.fifo]
      exact List.nodup_range
    exact (List.nodup_append.mp hnodup).1
  released := h.released
  reported := h.reported

theorem Inv.asyncSendTo (h : Inv onError n) (d : Datagram ε) (ec : Option ErrorCode) :
    Inv onError (n.asyncSendTo d ec) where
  immediate := h.immediate.post _
  fifo := by
    simp only [ClientUDP.asyncSendTo, Scheduler.postImmediateCompletion]
    rw [← List.append_assoc, List.map_append, h.fifo, List.range_succ]
    rfl
  released := by
    simp only [ClientUDP.asyncSendTo, Scheduler.postImmediateCompletion, h.released, List.map_append,
      List.map_cons, List.map_nil]
  reported := h.reported

theorem Inv.congr (h : Inv onError n) {ctx : Scheduler Completion}
    (hq : ctx.opQueue = n.ctx.opQueue) (hw : ctx.outstandingWork = n.ctx.outstandingWork) :
    Inv onError { n with ctx := ctx } where
  immediate := by rw [Scheduler.Immediate, hq, hw]; exact h.immediate
  fifo := by rw [hq]; exact h.fifo
  released := by rw [hq]; exact h.released
  reported := h.reported

theorem run_eq (h : Inv onError n) :
    n.run = { n with ctx := if n.ctx.opQueue = [] then n.ctx.stop else n.ctx } := by
  rw [run, h.immediate.work]

theorem Inv.handler (h : Inv onError n) {op : Completion} {rest : List Completion}
    (hq : n.ctx.opQueue = op :: rest) (stopped : Bool) :
    Inv onError (ClientUDP.handler onError { n with ctx := ⟨rest.length, stopped, rest⟩ } op) where
  immediate := rfl
  fifo := by
    have hfifo := h.fifo
    rw [hq] at hfifo
    simpa [ClientUDP.handler] using hfifo
  released := by
    simp only [ClientUDP.handler, h.released, hq, List.map_cons, List.erase_cons_head]
  reported := by
    simp only [ClientUDP.handler, h.reported, List.flatMap_append, List.flatMap_cons,
      List.flatMap_nil, List.append_nil]

/-- **A stopped context with sends to dispatch** does for `write`s only. -/
theorem dispatches_parked (h : Inv onError n) (hs : n.ctx.stopped = true)
    (hq : n.ctx.opQueue ≠ []) : Dispatches cfg onError n cs ↔ ∀ c ∈ cs, c.IsWrite := by
  induction cs generalizing n with
  | nil => exact iff_of_true h.sound (fun _ hc => by cases hc)
  | cons c cs ih =>
      obtain ⟨op, rest, hcons⟩ := List.exists_cons_of_ne_nil hq
      cases c with
      | write endpoint head payload ec =>
          have hq' : (n.asyncSendTo (write cfg endpoint head payload) ec).ctx.opQueue ≠ [] := by
            simp [ClientUDP.asyncSendTo, Scheduler.postImmediateCompletion]
          have ih' := ih (h.asyncSendTo (write cfg endpoint head payload) ec) hs hq'
          constructor
          · rintro ⟨-, n', hcall, -, hrest⟩
            cases hcall
            exact List.forall_mem_cons.mpr ⟨trivial, ih'.mp hrest⟩
          · intro hall
            exact ⟨h.sound, _, rfl, trivial, ih'.mpr (List.forall_mem_cons.mp hall).2⟩
      | run =>
          apply iff_of_false
          · rintro ⟨-, n', hcall, hnil, -⟩
            cases hcall
            rw [run_eq h, if_neg hq] at hnil
            exact hq hnil
          · intro hall
            exact (List.forall_mem_cons.mp hall).1
      | runOnce =>
          apply iff_of_false
          · rintro ⟨-, n', hcall, hlen, -⟩
            simp only [call, runOnce, h.immediate.runOne_stopped hcons hs, Option.map_some] at hcall
            cases hcall
            have hlen := hlen hq
            dsimp only at hlen
            omega
          · intro hall
            exact (List.forall_mem_cons.mp hall).1

/-- **A stopped context with nothing to dispatch** does until something is written. -/
theorem dispatches_dry (h : Inv onError n) (hs : n.ctx.stopped = true) (hq : n.ctx.opQueue = []) :
    Dispatches cfg onError n cs ↔ Drained cs := by
  have hstop : n.ctx.stop = n.ctx := by rw [Scheduler.stop, ← hs]
  induction cs with
  | nil => exact iff_of_true h.sound .nil
  | cons c cs ih =>
      cases c with
      | write endpoint head payload ec =>
          have hq' : (n.asyncSendTo (write cfg endpoint head payload) ec).ctx.opQueue ≠ [] := by
            simp [ClientUDP.asyncSendTo, Scheduler.postImmediateCompletion]
          have hparked : Dispatches cfg onError
              (n.asyncSendTo (write cfg endpoint head payload) ec) cs ↔ ∀ c ∈ cs, c.IsWrite :=
            dispatches_parked (h.asyncSendTo (write cfg endpoint head payload) ec) hs hq'
          constructor
          · rintro ⟨-, n', hcall, -, hrest⟩
            cases hcall
            have hall := hparked.mp hrest
            exact List.pairwise_cons.mpr ⟨fun c hc _ => hall c hc,
              List.pairwise_of_forall_mem_list fun _ _ c hc _ => hall c hc⟩
          · intro hdrained
            obtain ⟨hall, -⟩ := List.pairwise_cons.mp hdrained
            exact ⟨h.sound, _, rfl, trivial, hparked.mpr fun c hc => hall c hc trivial⟩
      | run =>
          have hrun : n.run = n := by rw [run_eq h, if_pos hq, hstop]
          constructor
          · rintro ⟨-, n', hcall, -, hrest⟩
            cases hcall
            rw [hrun] at hrest
            exact List.pairwise_cons.mpr ⟨fun _ _ hc => hc.elim, ih.mp hrest⟩
          · intro hdrained
            refine ⟨h.sound, n, congrArg some hrun, hq, ih.mpr (List.pairwise_cons.mp hdrained).2⟩
      | runOnce =>
          have hrun : n.runOnce onError = some n := by
            simp only [runOnce, h.immediate.runOne_nil hq, Option.map_some, hstop]
          constructor
          · rintro ⟨-, n', hcall, -, hrest⟩
            rw [call, hrun] at hcall
            cases hcall
            exact List.pairwise_cons.mpr ⟨fun _ _ hc => hc.elim, ih.mp hrest⟩
          · intro hdrained
            exact ⟨h.sound, n, hrun, fun hne => absurd hq hne,
              ih.mpr (List.pairwise_cons.mp hdrained).2⟩

/-- **A context that has not been stopped.** -/
theorem dispatches_running (h : Inv onError n) (hs : n.ctx.stopped = false) :
    Dispatches cfg onError n cs ↔ Good n.ctx.opQueue.length cs := by
  induction cs generalizing n with
  | nil => exact iff_of_true h.sound trivial
  | cons c cs ih =>
      cases c with
      | write endpoint head payload ec =>
          have ih' := ih (h.asyncSendTo (write cfg endpoint head payload) ec) hs
          have hlen : (n.asyncSendTo (write cfg endpoint head payload) ec).ctx.opQueue.length =
              n.ctx.opQueue.length + 1 := by
            simp [ClientUDP.asyncSendTo, Scheduler.postImmediateCompletion]
          rw [hlen] at ih'
          rw [Good, ← ih']
          constructor
          · rintro ⟨-, n', hcall, -, hrest⟩
            cases hcall
            exact hrest
          · intro hrest
            exact ⟨h.sound, _, rfl, trivial, hrest⟩
      | run =>
          cases hq : n.ctx.opQueue with
          | nil =>
              have hrun : n.run = { n with ctx := n.ctx.stop } := by rw [run_eq h, if_pos hq]
              have hdry : Dispatches cfg onError { n with ctx := n.ctx.stop } cs ↔ Drained cs :=
                dispatches_dry (h.congr rfl rfl) rfl hq
              rw [List.length_nil, Good, ← hdry]
              constructor
              · rintro ⟨-, n', hcall, -, hrest⟩
                cases hcall
                rwa [hrun] at hrest
              · intro hrest
                exact ⟨h.sound, _, congrArg some hrun, hq, hrest⟩
          | cons op rest =>
              apply iff_of_false
              · rintro ⟨-, n', hcall, hnil, -⟩
                cases hcall
                rw [run_eq h, if_neg (by rw [hq]; exact List.cons_ne_nil _ _)] at hnil
                exact absurd (hq.symm.trans hnil) (List.cons_ne_nil _ _)
              · exact id
      | runOnce =>
          cases hq : n.ctx.opQueue with
          | nil =>
              have hrun : n.runOnce onError = some { n with ctx := n.ctx.stop } := by
                simp only [runOnce, h.immediate.runOne_nil hq, Option.map_some]
              have hdry : Dispatches cfg onError { n with ctx := n.ctx.stop } cs ↔ Drained cs :=
                dispatches_dry (h.congr rfl rfl) rfl hq
              rw [List.length_nil, Good, ← hdry]
              constructor
              · rintro ⟨-, n', hcall, -, hrest⟩
                rw [call, hrun] at hcall
                cases hcall
                exact hrest
              · intro hrest
                exact ⟨h.sound, _, hrun, fun hne => absurd hq hne, hrest⟩
          | cons op rest =>
              have hrun : n.runOnce onError = some (ClientUDP.handler onError
                  { n with ctx := ⟨rest.length, decide (rest = []), rest⟩ } op) := by
                simp only [runOnce, h.immediate.runOne_cons hq hs, Option.map_some]
              have hinv := h.handler hq (decide (rest = []))
              have hrest : Dispatches cfg onError n (.runOnce :: cs) ↔
                  Dispatches cfg onError (ClientUDP.handler onError
                    { n with ctx := ⟨rest.length, decide (rest = []), rest⟩ } op) cs := by
                constructor
                · rintro ⟨-, n', hcall, -, hrest⟩
                  rw [call, hrun] at hcall
                  cases hcall
                  exact hrest
                · intro hrest
                  exact ⟨h.sound, _, hrun, fun _ => by simp [ClientUDP.handler], hrest⟩
              rw [hrest]
              cases rest with
              | nil => exact dispatches_dry hinv rfl rfl
              | cons op' rest => exact ih hinv rfl

/-- **Which calls dispatch every send.**  For every sequence of calls, with whatever the sends complete
with: every `run` and every `run_once` of it does what it should, and no handler, buffer or error is
lost or used twice, exactly when the sequence is `Good`. -/
theorem dispatches_iff (cfg : Config) (onError : Bool) (cs : List (ClientUDPCall ε)) :
    Dispatches cfg onError create cs ↔ Good 0 cs :=
  dispatches_running inv_create rfl

/-- Two rounds of `write` and `run_once`. -/
def twoRounds : List (ClientUDPCall ℕ) :=
  [.write 7 [0] [5] none, .runOnce, .write 7 [0] [6] (some (.other "Network is unreachable")), .runOnce]

/-- The second send is never dispatched: its buffer stays, and its error is not reported.  Nor does
`run` dispatch the send that was made before it. -/
theorem not_dispatches :
    (∃ n, twoRounds.foldlM (call .shipped true) create = some n ∧ n.live = [1] ∧ n.errors = []) ∧
    ¬ Dispatches .shipped true create twoRounds ∧
    ¬ Dispatches .shipped true create [.write 7 [0] [5] none, .run] := by
  refine ⟨⟨_, rfl, rfl, rfl⟩, ?_, ?_⟩
  · rw [dispatches_running inv_create rfl]
    simp [twoRounds, create, Scheduler.create, Good, Drained, ClientUDPCall.IsWrite]
  · rw [dispatches_running inv_create rfl]
    simp [Good]

end ClientUDP

end AsioTcpFrame
