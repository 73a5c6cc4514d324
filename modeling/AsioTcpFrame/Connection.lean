import AsioTcpFrame.Handlers
import AsioTcpFrame.Receiver
import AsioTcpFrame.Sender

/-! # One connection, end to end

A sender and a receiver joined by a byte pipe.  What the sender's socket has taken goes into the
pipe (`Sender.wire`), and the receiver's reads take it out again: `taken` counts the bytes that
were taken out.  Writes may be cut anywhere, and so may reads, also inside a header; the steps
of the two sides interleave in any order, down to the turns of the receiver's loop.

`Held cfg n held` says for every state of the receiver which bytes it has received but not yet
handed on; `Connection.Inv` joins it with the invariant of the sender.  The result is
`delivered_prefix`: what was delivered is, frame by frame, a prefix of what was written, and
all of it once nothing is under way. -/

namespace AsioTcpFrame

open Transition Framing

/-- The actions of a receiver that is not stopped and whose reads do not fail. -/
def SessionAct.Receives : SessionAct → Prop
  | .start | .recv _ | .recvDone | .run _ => True
  | _ => False

/-- The bytes an action takes out of the pipe. -/
def SessionAct.received : SessionAct → List Byte
  | .recv bytes => bytes
  | _ => []

namespace Live

/-- The frames given to `read_callback` are what is seen. -/
def frames : Callback → List Frame
  | .read f => [f]
  | .error _ _ => []

/-- The bytes that the receiver `n` has got and not handed on are `held`: in turn, before
`start`; with a read outstanding; with a read that has got its bytes; at the head of the loop;
in `read_callback`, before it has noted the frame, and after that. -/
inductive Held (cfg : Config) (n : Live Frame) : List Byte → Prop
  | fresh : n.started = false → n.sess.reads = [] → n.running = [] →
      n.sess.isReadingHead = true → n.sess.recvBuf = [] → Held cfg n []
  | waiting : n.started = true → n.sess.reads = [none] → n.running = [] → n.sess.Settled cfg →
      Held cfg n (n.sess.undelivered cfg)
  | arrived {bytes : List Byte} : n.started = true → n.sess.reads = [some bytes] →
      n.running = [] → Held cfg n (n.sess.undelivered cfg ++ bytes)
  | looping : n.started = true → n.sess.reads = [] → n.running = [.loop] →
      Held cfg n (n.sess.undelivered cfg)
  | calling {f : Frame} : n.started = true → n.sess.reads = [] → n.running = [.reading [f]] →
      n.sess.isReadingHead = true → f.length < cfg.codec.bound →
        Held cfg n (f.bytes cfg ++ n.sess.consumeBody.recvBuf)
  | called : n.started = true → n.sess.reads = [] → n.running = [.reading []] →
      n.sess.isReadingHead = true → Held cfg n n.sess.consumeBody.recvBuf

/-- The receiver is running, its header is a `PakSize`, and it holds `held`. -/
structure RxInv (cfg : Config) (n : Live Frame) (held : List Byte) : Prop where
  stopped : n.sess.stopped = false
  bodylen : n.sess.bodylen < cfg.codec.bound
  calls : ∀ f ∈ n.calls, f.length < cfg.codec.bound
  shape : Held cfg n held

/-- The frames handed on, back on the wire. -/
def deliveredBytes (cfg : Config) (n : Live Frame) : List Byte := n.calls.flatMap (Frame.bytes cfg)

variable {cfg : Config} {n n' : Live Frame} {a : SessionAct} {held : List Byte}

theorem rxInv_create : RxInv cfg create [] where
  stopped := rfl
  bodylen := Nat.pow_pos (by norm_num)
  calls := fun f hf => by cases hf
  shape := .fresh rfl rfl rfl rfl rfl

theorem deliveredBytes_quiet {held' bytes : List Byte} (h : n'.trace = n.trace)
    (hheld : held' = held ++ bytes) :
    n'.deliveredBytes cfg ++ held' = n.deliveredBytes cfg ++ held ++ bytes := by
  rw [deliveredBytes, calls, h, hheld, ← List.append_assoc]
  rfl

/-- What the session holds where its loop ends is settled. -/
theorem settled_of_brk {s : Session} (h : s.turn cfg = .brk) : s.Settled cfg := by
  rcases Session.turn_eq_brk h with ⟨hr, hlt⟩ | ⟨hr, hlt⟩
  · exact ⟨fun _ => hlt, fun h => absurd (hr.symm.trans h) (by decide)⟩
  · exact ⟨fun h => absurd (hr.symm.trans h) (by decide), fun _ => hlt⟩

theorem Held.of_loop {i : ℕ} (h : Held cfg n held) (hact : n.running[i]? = some .loop) :
    i = 0 ∧ n.started = true ∧ n.sess.reads = [] ∧ n.running = [.loop] ∧
      held = n.sess.undelivered cfg := by
  cases h with
  | looping hs hr hrun =>
      rw [hrun, List.getElem?_singleton] at hact
      split at hact
      · next hi => exact ⟨by omega, hs, hr, hrun, rfl⟩
      · cases hact
  | fresh _ _ hrun _ _ => rw [hrun] at hact; cases hact
  | waiting _ _ hrun _ => rw [hrun] at hact; cases hact
  | arrived _ _ hrun => rw [hrun] at hact; cases hact
  | calling _ _ hrun _ _ => rw [hrun, List.getElem?_singleton] at hact; split at hact <;> cases hact
  | called _ _ hrun _ => rw [hrun, List.getElem?_singleton] at hact; split at hact <;> cases hact

theorem Held.of_reading {i : ℕ} {todo : List Frame} (h : Held cfg n held)
    (hact : n.running[i]? = some (.reading todo)) :
    i = 0 ∧ n.started = true ∧ n.sess.reads = [] ∧ n.running = [.reading todo] ∧
      n.sess.isReadingHead = true ∧ (∀ f ∈ todo, f.length < cfg.codec.bound) ∧
      held = todo.flatMap (Frame.bytes cfg) ++ n.sess.consumeBody.recvBuf ∧ todo.length ≤ 1 := by
  cases h with
  | calling hs hr hrun hhead hf =>
      rw [hrun, List.getElem?_singleton] at hact
      split at hact
      · next hi => cases hact; exact ⟨by omega, hs, hr, hrun, hhead, by simpa using hf, by simp⟩
      · cases hact
  | called hs hr hrun hhead =>
      rw [hrun, List.getElem?_singleton] at hact
      split at hact
      · next hi => cases hact; exact ⟨by omega, hs, hr, hrun, hhead, by simp, by simp⟩
      · cases hact
  | fresh _ _ hrun _ _ => rw [hrun] at hact; cases hact
  | waiting _ _ hrun _ => rw [hrun] at hact; cases hact
  | arrived _ _ hrun => rw [hrun] at hact; cases hact
  | looping _ _ hrun => rw [hrun, List.getElem?_singleton] at hact; split at hact <;> cases hact

theorem Held.not_failing {i : ℕ} {todo : List Frame} (h : Held cfg n held) :
    n.running[i]? ≠ some (.failing todo) := by
  intro hact
  have hmem := List.mem_of_getElem? hact
  cases h <;> simp_all

/-- **One step of the receiver**: bytes that come in are held until their frame is handed on. -/
theorem RxInv.step (h : RxInv cfg n held) (ha : a.Receives) (hstep : Step cfg frames n a n') :
    ∃ held', RxInv cfg n' held' ∧
      n'.deliveredBytes cfg ++ held' = n.deliveredBytes cfg ++ held ++ a.received := by
  obtain ⟨hstopped, hbody, hcalls, hshape⟩ := h
  cases hstep with
  | write content => exact ha.elim
  | stop => exact ha.elim
  | tryLock hs => exact ha.elim
  | unlock ht => exact ha.elim
  | send hsend => exact ha.elim
  | sendDone hdone => exact ha.elim
  | sendFail ec hw => exact ha.elim
  | recvFail ec hr => exact ha.elim
  | recvStopped hr hs => rw [hstopped] at hs; cases hs
  | returnFail hact => exact absurd hact hshape.not_failing
  | callFail hact => exact absurd hact hshape.not_failing
  | start hs =>
      cases hshape with
      | fresh _ hr hrun hhead hbuf =>
          have hdo := Session.doRead_running hstopped
          refine ⟨Session.undelivered cfg n.sess.start, ⟨?_, ?_, hcalls, .waiting rfl ?_ hrun ?_⟩, ?_⟩
          · simp [Session.start, hstopped]
          · simp only [Session.start, hdo]; exact hbody
          · simp only [Session.start, hdo, hr, List.nil_append]
          · have := cfg.sizeT_pos
            simp only [Session.start, hdo]
            exact ⟨fun _ => by simpa [hbuf] using this, fun h => by rw [hhead] at h; cases h⟩
          · apply deliveredBytes_quiet rfl
            simp [Session.start, hdo, Session.undelivered, hhead, hbuf, SessionAct.received]
      | waiting h' _ _ _ => rw [h'] at hs; cases hs
      | arrived h' _ _ => rw [h'] at hs; cases hs
      | looping h' _ _ => rw [h'] at hs; cases hs
      | calling h' _ _ _ _ => rw [h'] at hs; cases hs
      | called h' _ _ _ => rw [h'] at hs; cases hs
  | @recv bytes s hrecv =>
      obtain ⟨rest, hr, -, -, rfl⟩ := Session.recv_eq hrecv
      cases hshape with
      | waiting hs hr' hrun _ =>
          rw [hr'] at hr
          obtain ⟨-, rfl⟩ := List.cons.inj hr
          exact ⟨_, ⟨hstopped, hbody, hcalls, .arrived hs rfl hrun⟩,
            deliveredBytes_quiet rfl rfl⟩
      | fresh _ hr' _ _ _ => rw [hr'] at hr; cases hr
      | arrived _ hr' _ => rw [hr'] at hr; cases hr
      | looping _ hr' _ => rw [hr'] at hr; cases hr
      | calling _ hr' _ _ _ => rw [hr'] at hr; cases hr
      | called _ hr' _ _ => rw [hr'] at hr; cases hr
  | @recvDone bytes rest hr _ =>
      cases hshape with
      | arrived hs hr' hrun =>
          rw [hr'] at hr
          cases hr
          refine ⟨_, ⟨hstopped, hbody, hcalls, .looping hs rfl (by rw [hrun]; rfl)⟩,
            deliveredBytes_quiet rfl ?_⟩
          simp only [Session.undelivered, Session.commit, SessionAct.received, List.append_assoc,
            List.append_nil]
          rfl
      | fresh _ hr' _ _ _ => rw [hr'] at hr; cases hr
      | waiting _ hr' _ _ => rw [hr'] at hr; cases hr
      | looping _ hr' _ => rw [hr'] at hr; cases hr
      | calling _ hr' _ _ _ => rw [hr'] at hr; cases hr
      | called _ hr' _ _ => rw [hr'] at hr; cases hr
  | brk hact hturn =>
      obtain ⟨rfl, hs, hr, hrun, rfl⟩ := hshape.of_loop hact
      have hdo := Session.doRead_running hstopped
      refine ⟨n.sess.undelivered cfg,
        ⟨by simpa [leave, withSess] using hstopped, ?_, hcalls, ?_⟩,
        deliveredBytes_quiet rfl (List.append_nil _).symm⟩
      · simp only [leave, withSess, hdo]; exact hbody
      · have hset := settled_of_brk hturn
        have hwait : Held cfg ((n.withSess n.sess.doRead).leave 0) _ := .waiting hs
          (by simp [leave, withSess, hdo, hr]) (by simp [leave, withSess, hrun])
          (by simp only [leave, withSess, hdo]; exact ⟨hset.head, hset.body⟩)
        simpa only [leave, withSess, hdo, Session.undelivered] using hwait
  | head hact hturn =>
      obtain ⟨rfl, hs, hr, hrun, rfl⟩ := hshape.of_loop hact
      have hund := Session.undelivered_head hturn
      obtain ⟨-, -, hp, rfl⟩ := Session.turn_eq_head hturn
      refine ⟨n.sess.undelivered cfg, ⟨hstopped, ?_, hcalls, ?_⟩,
        deliveredBytes_quiet rfl (List.append_nil _).symm⟩
      · exact cfg.codec.dec_lt (by simp [hp])
      · rw [← hund]
        exact .looping hs hr hrun
  | @body i f s hact hturn =>
      obtain ⟨rfl, hs, hr, hrun, rfl⟩ := hshape.of_loop hact
      have hund := Session.undelivered_body hturn
      obtain ⟨-, -, hlen, -, rfl⟩ := Session.turn_eq_body hturn
      refine ⟨n.sess.undelivered cfg, ⟨hstopped, hbody, hcalls, ?_⟩,
        deliveredBytes_quiet rfl (List.append_nil _).symm⟩
      rw [← hund]
      exact .calling hs hr (by simp [goOn, withSess, hrun, frames]) rfl (by rw [hlen]; exact hbody)
  | consume hact =>
      obtain ⟨rfl, hs, hr, hrun, hhead, -, rfl, -⟩ := hshape.of_reading hact
      refine ⟨n.sess.consumeBody.undelivered cfg, ⟨hstopped, hbody, hcalls, ?_⟩,
        deliveredBytes_quiet rfl ?_⟩
      · exact .looping hs hr (by simp [goOn, withSess, hrun])
      · simp [SessionAct.received, Session.undelivered, Session.consumeBody, hhead]
  | @callRead i f todo hact =>
      obtain ⟨rfl, hs, hr, hrun, hhead, hf, rfl, htodo⟩ := hshape.of_reading hact
      obtain rfl : todo = [] := List.length_eq_zero_iff.mp (by simpa using htodo)
      have hcalls' : ((n.see (.call f)).goOn 0 (.reading [])).calls = n.calls ++ [f] :=
        calls_see n f
      refine ⟨n.sess.consumeBody.recvBuf, ⟨hstopped, hbody, ?_, ?_⟩, ?_⟩
      · rw [hcalls']
        intro g hg
        rcases List.mem_append.mp hg with hg | hg
        · exact hcalls g hg
        · exact hf g hg
      · exact .called hs hr (by simp [goOn, see, hrun]) hhead
      · simp [deliveredBytes, hcalls', SessionAct.received]

/-- A receiver that waits for bytes, with none to come, has handed on all there was. -/
theorem Held.complete {ps : List (List Byte)} {p : List Byte} (h : Held cfg n held)
    (hcfg : cfg.sizeT ≤ cfg.pakSize) (hbody : n.sess.bodylen < cfg.codec.bound)
    (hstarted : n.started = true) (hidle : n.sess.reads = [none]) (hp : p.length < cfg.codec.bound)
    (hheld : held = cfg.codec.frame p ++ cfg.codec.stream ps) : False := by
  cases h with
  | waiting _ _ _ hset =>
      cases hr : n.sess.isReadingHead with
      | true =>
          have hlen := congrArg List.length hheld
          have hlt := hset.head hr
          simp [Session.undelivered, hr] at hlen
          omega
      | false =>
          have hlt := hset.body hr
          simp only [Session.undelivered, hr, LenCodec.frame, Bool.false_eq_true, if_false,
            List.append_assoc] at hheld
          obtain ⟨henc, hrest⟩ := List.append_inj hheld (by simp)
          have hlen : n.sess.bodylen = p.length := by
            rw [← cfg.codec.dec_enc hbody, henc, cfg.codec.dec_enc hp]
          rw [hrest, List.length_append] at hlt
          omega
  | fresh hs _ _ _ _ => rw [hs] at hstarted; cases hstarted
  | arrived _ hr _ => rw [hr] at hidle; cases hidle
  | looping _ hr _ => rw [hr] at hidle; cases hidle
  | calling _ hr _ _ _ => rw [hr] at hidle; cases hidle
  | called _ hr _ _ => rw [hr] at hidle; cases hidle

end Live

/-! ### Both ends -/

/-- What can be passed to `write`: `length + sizeof(PakSize)` does not overflow. -/
structure Payload where
  content : List Byte
  short : content.length < 2 ^ 64 - 8

structure Connection where
  tx : Sender
  rx : Live Frame
  taken : ℕ
deriving DecidableEq, Repr

inductive ConnectionAct where
  | write (p : Payload)
  | send (k : ℕ)
  | sendDone
  | start
  | recv (k : ℕ)
  | recvDone
  | run (i : ℕ)

namespace Connection

def create : Connection := ⟨Sender.create, Live.create, 0⟩

/-- The bytes in the pipe. -/
def pipe (n : Connection) : List Byte := n.tx.wire.drop n.taken

/-- What was handed to `read_callback`, as its arguments. -/
def delivered (n : Connection) : List (ℕ × List Byte) :=
  n.rx.calls.map fun f => (f.length, f.content)

/-- What was passed to `write`, as its arguments. -/
def written (n : Connection) : List (ℕ × List Byte) := n.tx.written.map fun p => (p.length, p)

/-- A step of the sender. -/
def sends (n : Connection) (tx : Option Sender) : Option Connection :=
  tx.map fun tx => { n with tx := tx }

/-- A step of the receiver, which takes `k` bytes out of the pipe. -/
def receives (n : Connection) (k : ℕ) (rx : Option (Live Frame)) : Option Connection :=
  rx.map fun rx => { n with rx := rx, taken := n.taken + k }

def step (cfg : Config) (n : Connection) : ConnectionAct → Option Connection
  | .write p => n.sends (n.tx.step cfg (.write p.content))
  | .send k => n.sends (n.tx.step cfg (.send k))
  | .sendDone => n.sends (n.tx.step cfg .sendDone)
  | .start => n.receives 0 (n.rx.step cfg Live.frames .start)
  | .recv k =>
      if k ≤ n.pipe.length then n.receives k (n.rx.step cfg Live.frames (.recv (n.pipe.take k)))
      else none
  | .recvDone => n.receives 0 (n.rx.step cfg Live.frames .recvDone)
  | .run i => n.receives 0 (n.rx.step cfg Live.frames (.run i))

/-- What holds in every state of a connection: both ends are in order, and what was handed on,
followed by what is held, is what was taken out of the pipe. -/
structure Inv (cfg : Config) (n : Connection) (held : List Byte) : Prop where
  tx : n.tx.Inv cfg
  rx : n.rx.RxInv cfg held
  taken : n.taken ≤ n.tx.wire.length
  bytes : n.rx.deliveredBytes cfg ++ held = n.tx.wire.take n.taken
  short : ∀ p ∈ n.tx.written, p.length < 2 ^ 64 - 8

variable {cfg : Config} {n n' : Connection} {a : ConnectionAct} {held : List Byte}

theorem inv_create : Inv cfg create [] where
  tx := Sender.inv_create
  rx := Live.rxInv_create
  taken := Nat.zero_le _
  bytes := rfl
  short := fun p hp => by cases hp

theorem Inv.sends (h : Inv cfg n held) {b : SenderAct}
    (hb : ∀ content, b = .write content → content.length < 2 ^ 64 - 8)
    (hstep : n.sends (n.tx.step cfg b) = some n') : Inv cfg n' held := by
  obtain ⟨tx, htx, rfl⟩ := Option.map_eq_some_iff.mp hstep
  have hwire : n.tx.wire <+: tx.wire := Sender.wire_mono htx
  refine ⟨h.tx.step htx, h.rx, h.taken.trans hwire.length_le, ?_, ?_⟩
  · rw [h.bytes]
    obtain ⟨more, hmore⟩ := hwire
    rw [← hmore, List.take_append_of_le_length h.taken]
  · intro p hp
    rcases Sender.mem_written htx hp with hp | rfl
    · exact h.short p hp
    · exact hb p rfl

theorem Inv.receives (h : Inv cfg n held) {b : SessionAct} (hb : b.Receives)
    (hpipe : b.received <+: n.pipe)
    (hstep : n.receives b.received.length (n.rx.step cfg Live.frames b) = some n') :
    ∃ held', Inv cfg n' held' := by
  obtain ⟨rx, hrx, rfl⟩ := Option.map_eq_some_iff.mp hstep
  obtain ⟨held', hinv, hbytes⟩ := h.rx.step hb (Live.Step.of_step hrx)
  have hlen := hpipe.length_le
  have htaken := h.taken
  simp only [pipe, List.length_drop] at hlen
  refine ⟨held', h.tx, hinv, by dsimp only; omega, ?_, h.short⟩
  have htake : b.received = (n.tx.wire.drop n.taken).take b.received.length :=
    List.prefix_iff_eq_take.mp hpipe
  rw [hbytes, h.bytes]
  dsimp only
  rw [List.take_add, ← htake]

theorem Inv.step (h : Inv cfg n held) (hstep : n.step cfg a = some n') :
    ∃ held', Inv cfg n' held' := by
  cases a with
  | write p =>
      exact ⟨held, h.sends (fun content hc => by cases hc; exact p.short) hstep⟩
  | send k => exact ⟨held, h.sends (fun content hc => by cases hc) hstep⟩
  | sendDone => exact ⟨held, h.sends (fun content hc => by cases hc) hstep⟩
  | start => exact h.receives (b := .start) trivial List.nil_prefix hstep
  | recv k =>
      simp only [Connection.step] at hstep
      split at hstep
      · next hk =>
        have hlen : (n.pipe.take k).length = k := List.length_take_of_le hk
        apply h.receives (b := .recv (n.pipe.take k)) trivial (List.take_prefix k _)
        rw [SessionAct.received, hlen]
        exact hstep
      · cases hstep
  | recvDone => exact h.receives (b := .recvDone) trivial List.nil_prefix hstep
  | run i => exact h.receives (b := .run i) trivial List.nil_prefix hstep

theorem Inv.of_run {acts : List ConnectionAct}
    (h : Run (Connection.step cfg) Anything create acts n) : ∃ held, Inv cfg n held :=
  h.invariant (I := fun n => ∃ held, Inv cfg n held) ⟨[], inv_create⟩
    fun _ _ _ ⟨_, hI⟩ _ hstep => hI.step hstep

/-- The contents handed on begin those written, and are all of them once nothing is under way. -/
theorem Inv.contents (h : Inv .shipped n held) :
    n.rx.calls.map Frame.content <+: n.tx.written ∧
      (n.tx.sess.writes = [] → n.pipe = [] → n.rx.started = true → n.rx.sess.reads = [none] →
        n.rx.calls.map Frame.content = n.tx.written) := by
  have hstream : n.rx.deliveredBytes .shipped =
      Config.shipped.codec.stream (n.rx.calls.map Frame.content) := Frame.flatMap_bytes _ _
  have hshort : ∀ p ∈ n.tx.written, p.length < Config.shipped.codec.bound :=
    fun p hp => (h.short p hp).trans (by decide)
  have hcalls : ∀ p ∈ n.rx.calls.map Frame.content, p.length < Config.shipped.codec.bound := by
    intro p hp
    obtain ⟨f, hf, rfl⟩ := List.mem_map.mp hp
    rw [f.content_length]
    exact h.rx.calls f hf
  have hbytes : Config.shipped.codec.stream (n.rx.calls.map Frame.content) ++
      (held ++ (n.pipe ++ n.tx.sess.unsent)) = Config.shipped.codec.stream n.tx.written := by
    rw [← hstream, ← List.append_assoc, h.bytes, pipe, ← List.append_assoc, List.take_append_drop]
    exact h.tx.bytes
  have hpre := Config.shipped.codec.stream_prefix (by decide) hcalls hshort hbytes
  refine ⟨hpre, ?_⟩
  intro hw hpipe hstarted hreads
  obtain ⟨rest, hrest⟩ := hpre
  cases rest with
  | nil => simpa using hrest
  | cons p ps =>
      have hunsent : n.tx.sess.unsent = [] := by
        cases h.tx.chain with
        | idle _ hb _ => simp [Session.unsent, hb]
        | busy hw' _ _ _ _ => rw [hw] at hw'; cases hw'
      rw [← hrest, hpipe, hunsent, LenCodec.stream_append] at hbytes
      have hheld := List.append_cancel_left hbytes
      rw [List.append_nil, List.append_nil] at hheld
      have hp : p.length < Config.shipped.codec.bound := hshort p (by rw [← hrest]; simp)
      exact (h.rx.shape.complete (by decide) h.rx.bodylen hstarted hreads hp hheld).elim

/-- **End to end.**  In every state of a connection, what was handed to `read_callback` is a
prefix of what was passed to `write`, call by call; at most one write is outstanding, and one
is whenever something is buffered.  When no write is outstanding, the pipe is empty and the
receiver waits for bytes, everything was handed on. -/
theorem delivered_prefix {acts : List ConnectionAct}
    (h : Run (step .shipped) Anything create acts n) :
    n.delivered <+: n.written ∧
      n.tx.sess.writes.length ≤ 1 ∧
      (n.tx.sess.sendBuf ≠ [] ↔ n.tx.sess.writes.length = 1) ∧
      (n.tx.sess.writes = [] → n.pipe = [] → n.rx.started = true → n.rx.sess.reads = [none] →
        n.delivered = n.written) := by
  obtain ⟨held, hI⟩ := Inv.of_run h
  obtain ⟨hpre, hall⟩ := hI.contents
  have hdel : n.delivered = (n.rx.calls.map Frame.content).map fun p => (p.length, p) := by
    simp only [delivered, List.map_map, Function.comp_def, Frame.content_length]
  refine ⟨?_, hI.tx.chain.one, hI.tx.chain.buffered, fun hw hpipe hs hr => ?_⟩
  · rw [hdel]
    exact hpre.map _
  · rw [hdel, hall hw hpipe hs hr]
    rfl

/-- Two payloads, one of them empty; the writes and the reads are cut inside the headers. -/
def twoPayloads : List ConnectionAct :=
  [.start, .write ⟨[7], by decide⟩, .write ⟨[], by decide⟩, .send 3, .sendDone, .recv 2, .recvDone,
    .run 0, .recv 1, .recvDone, .run 0, .send 14, .sendDone, .recv 14, .recvDone,
    .run 0, .run 0, .run 0, .run 0]

theorem delivered_prefix_two :
    ∃ n, Run (step .shipped) Anything create twoPayloads n ∧ n.delivered = [(1, [7])] ∧
      n.delivered <+: n.written ∧
      n.tx.sess.writes.length ≤ 1 ∧
      (n.tx.sess.sendBuf ≠ [] ↔ n.tx.sess.writes.length = 1) ∧
      (n.tx.sess.writes = [] → n.pipe = [] → n.rx.started = true → n.rx.sess.reads = [none] →
        n.delivered = n.written) := by
  have h := Run.of_exec (step .shipped) create twoPayloads (by decide)
  exact ⟨_, h, by decide, delivered_prefix h⟩

end Connection

end AsioTcpFrame
