import AsioTcpFrame.Streambuf
import AsioTcpFrame.Traffic

/-! # The receiving half of a session, in memory

`MemoryReceiver` is the receiving half of a session with `recv_buf` as it is in memory.  An
`async_read_some` is given the room that `prepare` made; the socket writes there when bytes arrive,
which may be much later.  The read handler commits them, looks at a header through a pointer into the
same vector, and gives `read_callback` another one, to look at while it runs.

The vector may be moved and reallocated by every `prepare`, and the bytes that are consumed may be
written over.  But there is one chain of reads (`ReadChain`): nothing is prepared while a read is
outstanding or while `read_callback` runs.  So the memory that was given away stays where it is
(`InPlace`), and the half in memory is, step by step, the FIFO that `Session` has in its place
(`Matches`, `matches_of_run`).

Two things have to hold for that (`Safe`): the allocator gives memory when it is asked, and no frame that
is handed on has `2 ^ 31` bytes or more, because `consume` passes its length to `gbump`, which takes
an `int`. -/

namespace AsioTcpFrame

open Transition Framing Window Streambuf

/-- An outstanding `async_read_some`: where its room is, and what the socket has put there, once it
has. -/
structure MemoryRead where
  block : ℕ
  offset : ℕ
  size : ℕ
  got : Option (List Byte)
deriving DecidableEq, Repr

/-- A running handler: the read handler at the head of its loop; the read handler inside `read_callback`,
where the pointer it was given points, the length, and what was there; a handler inside
`error_callback`. -/
inductive MemoryHandler where
  | loop
  | reading (block offset length : ℕ) (shown : List Byte)
  | failing
deriving DecidableEq, Repr

/-- `frames` are the lengths that `read_callback` was given, with what was at its pointer. -/
structure MemoryReceiver where
  buf : Streambuf
  isReadingHead : Bool
  bodylen : ℕ
  stopped : Bool
  testing : Bool
  started : Bool
  socketOpen : Bool
  reads : List MemoryRead
  running : List MemoryHandler
  received : List Byte
  frames : List (ℕ × List Byte)
deriving DecidableEq, Repr

/-- The steps of `SessionAct` that concern the receiving half, with what the allocator gives if it is
asked. -/
inductive MemoryReceiverAct where
  | start (grow : Option ℕ)
  | stop
  | tryLock
  | unlock
  | recv (bytes : List Byte)
  | recvDone
  | recvFail (ec : ErrorCode)
  | run (i : ℕ) (grow : Option ℕ)

namespace MemoryReceiver

def create : MemoryReceiver :=
  ⟨.create, true, 0, false, false, false, true, [], [], [], []⟩

/-- The running handler `i` returns. -/
def leave (n : MemoryReceiver) (i : ℕ) : MemoryReceiver := { n with running := n.running.eraseIdx i }

/-- `Session::doRead`; it throws when `prepare` does. -/
def doRead (n : MemoryReceiver) (grow : Option ℕ) : MemoryReceiver :=
  if n.stopped then n
  else
    match n.buf.prepare grow 1024 with
    | (buf, false) => { n with buf := buf }
    | (buf, true) => { n with
        buf := buf
        reads := n.reads ++ [⟨buf.block, buf.pptr, 1024, none⟩] }

/-- The socket puts bytes where the outstanding read has its room; when that was freed, they go to memory
that is not the buffer's. -/
def recv (n : MemoryReceiver) (bytes : List Byte) : Option MemoryReceiver :=
  match n.reads with
  | op :: rest =>
      if op.got = none ∧ n.socketOpen = true ∧ 1 ≤ bytes.length ∧ bytes.length ≤ op.size then
        some { n with
          buf :=
            if op.block = n.buf.block then
              { n.buf with bytes := overwrite n.buf.bytes op.offset bytes }
            else n.buf
          reads := { op with got := some bytes } :: rest
          received := n.received ++ bytes }
      else none
  | [] => none

/-- The next step of the running handler `i`: a turn of the loop of the read handler, up to the call of
`read_callback`; or the return from a callback. -/
def run (cfg : Config) (n : MemoryReceiver) (i : ℕ) (grow : Option ℕ) : Option MemoryReceiver :=
  match n.running[i]? with
  | none => none
  | some .loop =>
      if n.isReadingHead then
        if cfg.sizeT ≤ n.buf.size then
          if cfg.pakSize ≤ n.buf.size then
            some { n with
              isReadingHead := false
              bodylen := cfg.codec.dec (window n.buf.bytes n.buf.gptr cfg.pakSize)
              buf := n.buf.consume cfg.pakSize }
          else none
        else some ((n.doRead grow).leave i)
      else if n.bodylen ≤ n.buf.size then
        let shown := window n.buf.bytes n.buf.gptr n.bodylen
        some { n with
          isReadingHead := true
          running := n.running.set i (.reading n.buf.block n.buf.gptr n.bodylen shown)
          frames := n.frames ++ [(n.bodylen, shown)] }
      else some ((n.doRead grow).leave i)
  | some (.reading _ _ _ _) => some { n with
      buf := n.buf.consume n.bodylen
      running := n.running.set i .loop }
  | some .failing => some (n.leave i)

def step (cfg : Config) (n : MemoryReceiver) : MemoryReceiverAct → Option MemoryReceiver
  | .start grow => if n.started then none else some { n.doRead grow with started := true }
  | .stop => some (if n.stopped then n else { n with stopped := true, socketOpen := false })
  | .tryLock => if n.stopped then some { n with stopped := false, testing := true } else none
  | .unlock => if n.testing then some { n with stopped := true, testing := false } else none
  | .recv bytes => n.recv bytes
  | .recvDone =>
      match n.reads with
      | ⟨_, _, _, some bytes⟩ :: rest =>
          if n.stopped then some { n with reads := rest }
          else some { n with
            reads := rest
            buf := n.buf.commit bytes.length
            running := n.running ++ [.loop] }
      | _ => none
  | .recvFail _ =>
      match n.reads with
      | ⟨_, _, _, none⟩ :: rest =>
          if n.stopped then some { n with reads := rest }
          else some { n with reads := rest, running := n.running ++ [.failing] }
      | _ => none
  | .run i grow => n.run cfg i grow

/-- A read that is started gets its 1024 bytes; the frame that was handed on is short enough for
`gbump`. -/
def Safe (n : MemoryReceiver) : MemoryReceiverAct → Prop
  | .start grow => n.buf.Room 1024 ∨ n.buf.Fits grow 1024
  | .run i grow =>
      match n.running[i]? with
      | some .loop => n.buf.Room 1024 ∨ n.buf.Fits grow 1024
      | some (.reading _ _ _ _) => n.bodylen < 2 ^ 31
      | _ => True
  | _ => True

instance (n : MemoryReceiver) (a : MemoryReceiverAct) : Decidable (n.Safe a) := by
  cases a <;> unfold Safe
  case run => dsimp only; split <;> infer_instance
  all_goals infer_instance

/-- The memory that was given away is where it was: the room of an outstanding read is behind the data,
inside the vector; and what `read_callback` looks at is inside the vector, at the front of the data, and
as it was when the callback was called. -/
structure InPlace (n : MemoryReceiver) : Prop where
  room : ∀ op ∈ n.reads, op.block = n.buf.block ∧ n.buf.pptr ≤ op.offset ∧
    op.offset + op.size ≤ n.buf.bytes.length
  shown : ∀ block offset length shown, .reading block offset length shown ∈ n.running →
    block = n.buf.block ∧ offset + length ≤ n.buf.bytes.length ∧
      window n.buf.bytes offset length = shown

end MemoryReceiver

/-! ### The FIFO -/

/-- A handler as the FIFO sees it; `read_callback` makes no calls. -/
def MemoryHandler.abs : MemoryHandler → Activation Empty
  | loop => .loop
  | reading _ _ _ _ => .reading []
  | failing => .failing []

/-- A step as the FIFO sees it. -/
def MemoryReceiverAct.abs : MemoryReceiverAct → SessionAct
  | start _ => .start
  | stop => .stop
  | tryLock => .tryLock
  | unlock => .unlock
  | recv bytes => .recv bytes
  | recvDone => .recvDone
  | recvFail ec => .recvFail ec
  | run i _ => .run i

/-- Callbacks that make no calls. -/
def silent : Callback → List Empty := fun _ => []

/-- The room of an outstanding read is behind the data of `sb`, and what the socket has put there is
there. -/
structure MemoryRead.Placed (op : MemoryRead) (sb : Streambuf) : Prop where
  block : op.block = sb.block
  offset : op.offset = sb.pptr
  size : op.size = 1024
  fits : sb.Room 1024
  got : ∀ bytes, op.got = some bytes → bytes.length ≤ 1024 ∧
    window sb.bytes sb.pptr bytes.length = bytes

/-- What `read_callback` looks at is the front of the data of `sb`. -/
def MemoryHandler.Placed (sb : Streambuf) (bodylen : ℕ) : MemoryHandler → Prop
  | reading block offset length shown => block = sb.block ∧ offset = sb.gptr ∧
      length = bodylen ∧ length ≤ sb.data.length ∧ shown = sb.data.take length
  | _ => True

namespace MemoryReceiver

/-- The receiving half `n` is in memory what `m` is, with the traffic `g`. -/
structure Matches (n : MemoryReceiver) (g : Traffic) (m : Live Empty) : Prop where
  wf : n.buf.WF
  buf : m.sess.recvBuf = n.buf.data
  head : m.sess.isReadingHead = n.isReadingHead
  bodylen : m.sess.bodylen = n.bodylen
  stopped : m.sess.stopped = n.stopped
  testing : m.testing = n.testing
  started : m.started = n.started
  socketOpen : m.sess.socketOpen = n.socketOpen
  reads : m.sess.reads = n.reads.map MemoryRead.got
  running : m.running = n.running.map MemoryHandler.abs
  rooms : ∀ op ∈ n.reads, op.Placed n.buf
  shows : ∀ x ∈ n.running, x.Placed n.buf n.bodylen
  received : g.received = n.received
  frames : g.frames.map (fun f => (f.length, f.content)) = n.frames

variable {cfg : Config} {n n' : MemoryReceiver} {g : Traffic} {m : Live Empty}
  {a : MemoryReceiverAct} {grow : Option ℕ}

theorem Matches.size_eq (h : n.Matches g m) : n.buf.size = m.sess.recvBuf.length := by
  rw [h.buf, h.wf.length_data, h.wf.size_eq]

/-- What was given away is where it was. -/
theorem Matches.inPlace (h : n.Matches g m) : n.InPlace where
  room op hop := by
    obtain ⟨hblock, hoffset, hsize, hfits, -⟩ := h.rooms op hop
    have hpend := h.wf.pend
    unfold Room at hfits
    exact ⟨hblock, by omega, by omega⟩
  shown block offset length shown hx := by
    obtain ⟨hblock, hoffset, -, hle, hshown⟩ := h.shows _ hx
    have hget := h.wf.get; have hput := h.wf.put; have hpend := h.wf.pend
    have hlen := h.wf.length_data
    refine ⟨hblock, by omega, ?_⟩
    rw [hshown, h.wf.data_eq, take_window (by omega), hoffset]

theorem Matches.shown_eq (h : n.Matches g m) {k : ℕ} (hk : k ≤ m.sess.recvBuf.length) :
    window n.buf.bytes n.buf.gptr k = m.sess.recvBuf.take k := by
  rw [h.buf, h.wf.length_data] at hk
  rw [h.buf, h.wf.data_eq, take_window hk]

/-! ### One chain of reads -/

theorem Matches.reads_nil (h : n.Matches g m) (hchain : m.ReadChain) {x : MemoryHandler}
    (hx : x ∈ n.running) (hr : x.abs.isReader = true) : n.reads = [] := by
  have hmem : x.abs ∈ m.running := by rw [h.running]; exact List.mem_map_of_mem hx
  have hpos : 0 < m.running.countP Activation.isReader := List.countP_pos_iff.mpr ⟨_, hmem, hr⟩
  have hone := hchain.one
  have hlen : m.sess.reads.length = n.reads.length := by rw [h.reads, List.length_map]
  apply List.length_eq_zero_iff.mp
  unfold Live.readers at hone
  omega

theorem placed_of_loop {running : List MemoryHandler} (hchain : m.ReadChain)
    (hrun : m.running = running.map MemoryHandler.abs) (hloop : .loop ∈ running) (sb : Streambuf)
    (k : ℕ) : ∀ x ∈ running, x.Placed sb k := by
  intro x hx
  cases x with
  | loop => trivial
  | failing => trivial
  | reading block offset length shown =>
      have hmem : ∀ y ∈ running, y.abs ∈ m.running := fun y hy => by
        rw [hrun]; exact List.mem_map_of_mem hy
      have heq := hchain.unique (hmem _ hloop) (hmem _ hx) rfl rfl
      cases heq

/-! ### Starting a read -/

/-- **`doRead`** does the same to both, when nothing is outstanding and no `read_callback` runs. -/
theorem Matches.doRead (h : n.Matches g m) (hn : n.buf.Room 1024 ∨ n.buf.Fits grow 1024)
    (hreads : n.reads = []) (hshows : ∀ sb, ∀ x ∈ n.running, x.Placed sb n.bodylen) :
    (n.doRead grow).Matches g (m.withSess m.sess.doRead) := by
  have hstopped := h.stopped
  cases hs : n.stopped with
  | true =>
      have hsess : m.sess.doRead = m.sess := by
        simp only [Session.doRead, hstopped, hs, if_true]
      have hself : n.doRead grow = n := by simp only [MemoryReceiver.doRead, hs, if_true]
      rw [hsess, hself]
      exact h
  | false =>
      obtain ⟨sb, hprep, hwf, hroom, hdata, -, -, -⟩ := prepare_returns h.wf hn
      have hsess : m.sess.doRead = { m.sess with reads := m.sess.reads ++ [none] } :=
        Session.doRead_running (by rw [hstopped, hs])
      have hdo : n.doRead grow = { n with
          buf := sb
          reads := [⟨sb.block, sb.pptr, 1024, none⟩] } := by
        simp [MemoryReceiver.doRead, hs, hprep, hreads]
      rw [hsess, hdo]
      refine ⟨hwf, ?_, h.head, h.bodylen, h.stopped, h.testing, h.started, h.socketOpen, ?_,
        h.running, ?_, hshows _, h.received, h.frames⟩
      · show m.sess.recvBuf = sb.data
        rw [hdata, h.buf]
      · show m.sess.reads ++ [none] = _
        rw [h.reads, hreads]
        rfl
      · intro op hop
        obtain rfl := List.mem_singleton.mp hop
        exact ⟨rfl, rfl, rfl, hroom, by simp⟩

theorem Matches.leave (h : n.Matches g m) (i : ℕ) : (n.leave i).Matches g (m.leave i) := by
  refine ⟨h.wf, h.buf, h.head, h.bodylen, h.stopped, h.testing, h.started, h.socketOpen, h.reads, ?_,
    h.rooms, ?_, h.received, h.frames⟩
  · show m.running.eraseIdx i = (n.running.eraseIdx i).map MemoryHandler.abs
    rw [h.running, List.eraseIdx_map]
  · intro x hx
    exact h.shows x (List.mem_of_mem_eraseIdx hx)

theorem Matches.start (h : n.Matches g m) (hchain : m.ReadChain) (hs : n.started = false)
    (hn : n.buf.Room 1024 ∨ n.buf.Fits grow 1024) :
    ({ n.doRead grow with started := true } : MemoryReceiver).Matches g
      { m with sess := m.sess.start, started := true } := by
  have hidle := hchain.idle (h.started.trans hs)
  unfold Live.readers at hidle
  have hreads : n.reads = [] := by
    apply List.length_eq_zero_iff.mp
    have hlen : m.sess.reads.length = n.reads.length := by rw [h.reads, List.length_map]
    omega
  have hshows : ∀ sb, ∀ x ∈ n.running, x.Placed sb n.bodylen := by
    intro sb x hx
    cases x with
    | loop => trivial
    | failing => trivial
    | reading block offset length shown =>
        have hmem : .reading [] ∈ m.running := by
          rw [h.running]; exact List.mem_map_of_mem (f := MemoryHandler.abs) hx
        have hnone := List.countP_eq_zero.mp (by omega : m.running.countP Activation.isReader = 0) _ hmem
        exact absurd rfl hnone
  have hdo := h.doRead hn hreads hshows
  exact ⟨hdo.wf, hdo.buf, hdo.head, hdo.bodylen, hdo.stopped, hdo.testing, rfl, hdo.socketOpen,
    hdo.reads, hdo.running, hdo.rooms, hdo.shows, hdo.received, hdo.frames⟩

/-! ### The socket -/

theorem Matches.shows_reads (h : n.Matches g m) (hchain : m.ReadChain) (hreads : n.reads ≠ [])
    (sb : Streambuf) (k : ℕ) : ∀ x ∈ n.running, x.Placed sb k := by
  intro x hx
  cases x with
  | loop => trivial
  | failing => trivial
  | reading block offset length shown => exact absurd (h.reads_nil hchain hx rfl) hreads

theorem Matches.reads_one (h : n.Matches g m) (hchain : m.ReadChain) {op : MemoryRead}
    {rest : List MemoryRead} (hr : n.reads = op :: rest) : rest = [] := by
  have hone := hchain.one
  unfold Live.readers at hone
  rw [h.reads, hr] at hone
  apply List.length_eq_zero_iff.mp
  simp only [List.map_cons, List.length_cons, List.length_map] at hone
  omega

theorem Matches.recv (h : n.Matches g m) (hchain : m.ReadChain) {bytes : List Byte}
    (hstep : n.recv bytes = some n') :
    ∃ s, m.sess.recv bytes = some s ∧
      n'.Matches { g with received := g.received ++ bytes } (m.withSess s) := by
  unfold MemoryReceiver.recv at hstep
  split at hstep
  · next op rest hr =>
    split at hstep
    · next hop =>
      cases hstep
      obtain ⟨hgot, hopen, hpos, hle⟩ := hop
      obtain ⟨hblock, hoffset, hsize, hfits, -⟩ := h.rooms op (by simp [hr])
      obtain rfl := h.reads_one hchain hr
      rw [hsize] at hle
      have hroom : n.buf.Room bytes.length := by unfold Room at hfits ⊢; omega
      obtain ⟨hwf, hdata, hwindow⟩ := h.wf.store hroom
      have hreads : m.sess.reads = [none] := by rw [h.reads, hr, List.map_singleton, hgot]
      refine ⟨{ m.sess with reads := [some bytes] }, ?_, ?_⟩
      · simp only [Session.recv, hreads, h.socketOpen.trans hopen, hpos, hle, and_self, if_true]
      · rw [if_pos hblock, hoffset]
        refine ⟨hwf, h.buf.trans hdata.symm, h.head, h.bodylen, h.stopped, h.testing, h.started,
          h.socketOpen, rfl, h.running, ?_, h.shows_reads hchain (by simp [hr]) _ _, ?_, h.frames⟩
        · intro op' hop'
          obtain rfl := List.mem_singleton.mp hop'
          refine ⟨hblock, rfl, hsize, hfits, ?_⟩
          intro bytes' hbytes'
          cases hbytes'
          exact ⟨hle, hwindow⟩
        · show g.received ++ bytes = n.received ++ bytes
          rw [h.received]
    · cases hstep
  · cases hstep

/-- The read completes, and its handler commits what the socket has put there. -/
theorem Matches.recvDone (h : n.Matches g m) (hchain : m.ReadChain)
    (hstep : n.step cfg .recvDone = some n') :
    ∃ m', m.step cfg silent .recvDone = some m' ∧ n'.Matches g m' := by
  simp only [MemoryReceiver.step] at hstep
  split at hstep
  · next block offset size bytes rest hr =>
    obtain ⟨-, -, -, hfits, hgot⟩ := h.rooms ⟨block, offset, size, some bytes⟩ (by simp [hr])
    obtain ⟨hle, hwindow⟩ := hgot bytes rfl
    obtain rfl := h.reads_one hchain hr
    have hreads : m.sess.reads = [some bytes] := by rw [h.reads, hr]; rfl
    have hshows := h.shows_reads hchain (by simp [hr])
    split at hstep
    · next hs =>
      cases hstep
      have hstopped := h.stopped.trans hs
      refine ⟨m.withSess { m.sess with reads := [] }, ?_, ?_⟩
      · simp only [Live.step, hreads, hstopped, Live.enter, if_true]
      · exact ⟨h.wf, h.buf, h.head, h.bodylen, h.stopped, h.testing, h.started, h.socketOpen, rfl,
          h.running, by simp, hshows _ _, h.received, h.frames⟩
    · next hs =>
      cases hstep
      have hstopped : m.sess.stopped = false := h.stopped.trans (by simpa using hs)
      have hroom : n.buf.Room bytes.length := by unfold Room at hfits ⊢; omega
      have hself : n.buf.store bytes = n.buf := by
        simp only [Streambuf.store, overwrite_self hwindow]
      obtain ⟨hwf, hdata, -, -⟩ := commit_store h.wf hroom (by omega)
      rw [hself] at hwf hdata
      refine ⟨{ m with
          sess := ({ m.sess with reads := [] } : Session).commit bytes
          running := m.running ++ [.loop] }, ?_, ?_⟩
      · simp [Live.step, hreads, hstopped, Live.enter, Session.commit]
      · refine ⟨hwf, ?_, h.head, h.bodylen, h.stopped, h.testing, h.started, h.socketOpen, rfl, ?_,
          by simp, ?_, h.received, h.frames⟩
        · show m.sess.recvBuf ++ bytes = _
          rw [hdata, h.buf]
        · show m.running ++ [.loop] = (n.running ++ [MemoryHandler.loop]).map MemoryHandler.abs
          rw [h.running, List.map_append]
          rfl
        · intro x hx
          rcases List.mem_append.mp hx with hx | hx
          · exact hshows _ _ x hx
          · obtain rfl := List.mem_singleton.mp hx
            trivial
  · cases hstep

theorem Matches.recvFail (h : n.Matches g m) (hchain : m.ReadChain) {ec : ErrorCode}
    (hstep : n.step cfg (.recvFail ec) = some n') :
    ∃ m', m.step cfg silent (.recvFail ec) = some m' ∧ n'.Matches g m' := by
  simp only [MemoryReceiver.step] at hstep
  split at hstep
  · next block offset size rest hr =>
    obtain rfl := h.reads_one hchain hr
    have hreads : m.sess.reads = [none] := by rw [h.reads, hr]; rfl
    have hshows := h.shows_reads hchain (by simp [hr])
    refine ⟨m.enter { m.sess with reads := [] } (.failing []), ?_, ?_⟩
    · simp only [Live.step, hreads]
      rfl
    · split at hstep
      · next hs =>
        cases hstep
        rw [Live.enter, if_pos (h.stopped.trans hs)]
        exact ⟨h.wf, h.buf, h.head, h.bodylen, h.stopped, h.testing, h.started, h.socketOpen, rfl,
          h.running, by simp, hshows _ _, h.received, h.frames⟩
      · next hs =>
        cases hstep
        have hstopped : ¬ m.sess.stopped = true := by rw [h.stopped]; exact hs
        rw [Live.enter, if_neg hstopped]
        refine ⟨h.wf, h.buf, h.head, h.bodylen, h.stopped, h.testing, h.started, h.socketOpen, rfl, ?_,
          by simp, ?_, h.received, h.frames⟩
        · show m.running ++ [.failing []] = (n.running ++ [MemoryHandler.failing]).map MemoryHandler.abs
          rw [h.running, List.map_append]
          rfl
        · intro x hx
          rcases List.mem_append.mp hx with hx | hx
          · exact hshows _ _ x hx
          · obtain rfl := List.mem_singleton.mp hx
            trivial
  · cases hstep

/-! ### The read handler -/

theorem Matches.turn (h : n.Matches g m) (hchain : m.ReadChain) (hp : cfg.pakSize < 2 ^ 31) {i : ℕ}
    (hact : n.running[i]? = some .loop) (hn : n.buf.Room 1024 ∨ n.buf.Fits grow 1024)
    (hstep : n.run cfg i grow = some n') :
    ∃ m', m.run cfg silent i = some m' ∧
      n'.Matches { g with frames := g.frames ++ m.handed cfg i } m' := by
  have hloop : .loop ∈ n.running := List.mem_of_getElem? hact
  have hact' : m.running[i]? = some .loop := by
    rw [h.running, List.getElem?_map, hact]
    rfl
  have hreads := h.reads_nil hchain hloop rfl
  have hshows := placed_of_loop hchain h.running hloop
  have hsize := h.size_eq
  have hbrk : m.sess.turn cfg = .brk → n' = (n.doRead grow).leave i →
      ∃ m', m.run cfg silent i = some m' ∧
        n'.Matches { g with frames := g.frames ++ m.handed cfg i } m' := by
    intro hturn hn'
    have hhanded : m.handed cfg i = [] := by simp only [Live.handed, hact', hturn]
    refine ⟨(m.withSess m.sess.doRead).leave i, by simp only [Live.run, hact', hturn], ?_⟩
    rw [hn', hhanded, List.append_nil]
    exact (h.doRead hn hreads fun sb => hshows sb _).leave i
  simp only [MemoryReceiver.run, hact] at hstep
  cases hhead : n.isReadingHead with
  | true =>
      have hhead' := h.head.trans hhead
      simp only [hhead, if_true] at hstep
      split at hstep
      · next hsz =>
        split at hstep
        · next hpak =>
          cases hstep
          rw [hsize] at hsz hpak
          obtain ⟨hwf, hdata⟩ := data_consume h.wf (by rw [← h.buf]; exact hpak) hp
          have hturn : m.sess.turn cfg = .head { m.sess with
              isReadingHead := false
              bodylen := cfg.codec.dec (m.sess.recvBuf.take cfg.pakSize)
              recvBuf := m.sess.recvBuf.drop cfg.pakSize } := by
            simp only [Session.turn, hhead', hsz, hpak, if_true]
          have hhanded : m.handed cfg i = [] := by simp only [Live.handed, hact', hturn]
          refine ⟨_, by simp only [Live.run, hact', hturn]; rfl, ?_⟩
          rw [hhanded, List.append_nil, h.shown_eq hpak]
          exact ⟨hwf, by rw [hdata, ← h.buf]; rfl, rfl, rfl, h.stopped, h.testing, h.started,
            h.socketOpen, h.reads, h.running, by simp [hreads], hshows _ _, h.received, h.frames⟩
        · cases hstep
      · next hsz =>
        cases hstep
        rw [hsize] at hsz
        exact hbrk (by simp only [Session.turn, hhead', hsz, if_true, if_false]) rfl
  | false =>
      have hhead' := h.head.trans hhead
      simp only [hhead, Bool.false_eq_true, if_false] at hstep
      split at hstep
      · next hbody =>
        cases hstep
        rw [hsize] at hbody
        have hbody' : m.sess.bodylen ≤ m.sess.recvBuf.length := by rw [h.bodylen]; exact hbody
        have hshown := h.shown_eq hbody
        have hturn : ∃ f : Frame, m.sess.turn cfg = .body f { m.sess with isReadingHead := true } ∧
            f.length = m.sess.bodylen ∧ f.content = m.sess.recvBuf.take m.sess.bodylen := by
          simp only [Session.turn, hhead', Bool.false_eq_true, if_false, hbody', dif_pos]
          exact ⟨_, rfl, rfl, rfl⟩
        obtain ⟨f, hturn, hlen, hcontent⟩ := hturn
        have hhanded : m.handed cfg i = [f] := by simp only [Live.handed, hact', hturn]
        refine ⟨_, by simp only [Live.run, hact', hturn]; rfl, ?_⟩
        rw [hhanded]
        refine ⟨h.wf, h.buf, rfl, h.bodylen, h.stopped, h.testing, h.started, h.socketOpen, h.reads, ?_,
          h.rooms, ?_, h.received, ?_⟩
        · show m.running.set i (.reading []) = _
          rw [h.running, List.map_set]
          rfl
        · intro x hx
          rcases List.mem_or_eq_of_mem_set hx with hx | rfl
          · exact hshows _ _ x hx
          · exact ⟨rfl, rfl, rfl, by rw [← h.buf]; exact hbody, by rw [hshown, h.buf]⟩
        · show (g.frames ++ [f]).map _ = _
          rw [List.map_append, h.frames, List.map_singleton, hlen, hcontent, h.bodylen, hshown]
      · next hbody =>
        cases hstep
        rw [hsize] at hbody
        rw [← h.bodylen] at hbody
        exact hbrk (by simp only [Session.turn, hhead', Bool.false_eq_true, if_false, hbody, dif_neg,
          not_false_eq_true]) rfl

theorem Matches.consume (h : n.Matches g m) (hchain : m.ReadChain) {i block offset length : ℕ}
    {shown : List Byte} (hact : n.running[i]? = some (.reading block offset length shown))
    (hlt : n.bodylen < 2 ^ 31) :
    ∃ m', m.run cfg silent i = some m' ∧ ({ n with
        buf := n.buf.consume n.bodylen
        running := n.running.set i .loop } : MemoryReceiver).Matches g m' := by
  have hmem := List.mem_of_getElem? hact
  have hreads := h.reads_nil hchain hmem rfl
  have hact' : m.running[i]? = some (.reading []) := by
    rw [h.running, List.getElem?_map, hact]
    rfl
  obtain ⟨-, -, hlen, hle, -⟩ := h.shows _ hmem
  obtain ⟨hwf, hdata⟩ := data_consume h.wf (by rw [← hlen]; exact hle) hlt
  have hrun : m.running.set i .loop = (n.running.set i .loop).map MemoryHandler.abs := by
    rw [h.running, List.map_set]
    rfl
  have hchain' : ((m.withSess m.sess.consumeBody).goOn i .loop).ReadChain :=
    hchain.step (Live.Step.consume hact' : Live.Step cfg silent m (.run i) _)
  have hloop : .loop ∈ n.running.set i .loop :=
    List.mem_set (List.getElem?_eq_some_iff.mp hact).1 _
  refine ⟨_, by simp only [Live.run, hact']; rfl, ?_⟩
  refine ⟨hwf, ?_, h.head, h.bodylen, h.stopped, h.testing, h.started, h.socketOpen, h.reads, hrun,
    by simp [hreads], placed_of_loop hchain' hrun hloop _ _, h.received, h.frames⟩
  show m.sess.recvBuf.drop m.sess.bodylen = _
  rw [hdata, h.buf, h.bodylen]

theorem Matches.run (h : n.Matches g m) (hchain : m.ReadChain) (hp : cfg.pakSize < 2 ^ 31) {i : ℕ}
    (hG : n.Safe (.run i grow)) (hstep : n.run cfg i grow = some n') :
    ∃ m', m.run cfg silent i = some m' ∧
      n'.Matches { g with frames := g.frames ++ m.handed cfg i } m' := by
  unfold Safe at hG
  cases hact : n.running[i]? with
  | none => simp [MemoryReceiver.run, hact] at hstep
  | some x =>
      have hact' : m.running[i]? = some x.abs := by
        rw [h.running, List.getElem?_map, hact]
        rfl
      simp only [hact] at hG
      cases x with
      | loop => exact h.turn hchain hp hact hG hstep
      | reading block offset length shown =>
          have hhanded : m.handed cfg i = [] := Live.handed_of_ne hact' (by simp [MemoryHandler.abs])
          simp only [MemoryReceiver.run, hact, Option.some.injEq] at hstep
          rw [hhanded, List.append_nil, ← hstep]
          exact h.consume hchain hact hG
      | failing =>
          have hhanded : m.handed cfg i = [] := Live.handed_of_ne hact' (by simp [MemoryHandler.abs])
          simp only [MemoryReceiver.run, hact, Option.some.injEq] at hstep
          rw [hhanded, List.append_nil, ← hstep]
          exact ⟨m.leave i, by simp only [Live.run, hact', MemoryHandler.abs], h.leave i⟩

/-! ### Runs -/

/-- **One step** in memory is the same step of the FIFO. -/
theorem Matches.step (h : n.Matches g m) (hchain : m.ReadChain) (hp : cfg.pakSize < 2 ^ 31)
    (hG : n.Safe a) (hstep : n.step cfg a = some n') :
    ∃ m', m.step cfg silent a.abs = some m' ∧ n'.Matches (Live.note cfg m g a.abs) m' := by
  cases a with
  | start grow =>
      simp only [MemoryReceiver.step] at hstep
      split at hstep
      · cases hstep
      · next hs =>
        cases hstep
        have hs' : n.started = false := by simpa using hs
        refine ⟨_, ?_, h.start hchain hs' hG⟩
        show (if m.started then none else _) = _
        rw [h.started, hs', if_neg (by decide)]
  | stop =>
      refine ⟨_, rfl, ?_⟩
      cases hstep
      cases hs : n.stopped with
      | true =>
          have hsess : m.sess.stop = m.sess := by
            simp only [Session.stop, h.stopped, hs, if_true]
          rw [hsess, if_pos rfl]
          exact ⟨h.wf, h.buf, h.head, h.bodylen, h.stopped, h.testing, h.started, h.socketOpen, h.reads,
            h.running, h.rooms, h.shows, h.received, h.frames⟩
      | false =>
          have hsess : m.sess.stop = { m.sess with stopped := true, socketOpen := false } := by
            simp only [Session.stop, h.stopped, hs, Bool.false_eq_true, if_false]
          rw [hsess, if_neg (by decide)]
          exact ⟨h.wf, h.buf, h.head, h.bodylen, rfl, h.testing, h.started, rfl, h.reads, h.running,
            h.rooms, h.shows, h.received, h.frames⟩
  | tryLock =>
      simp only [MemoryReceiver.step] at hstep
      split at hstep
      · next hs =>
        cases hstep
        refine ⟨{ m with sess := { m.sess with stopped := false }, testing := true }, ?_, ?_⟩
        · show (if m.sess.stopped then _ else none) = _
          rw [h.stopped, hs, if_pos rfl]
        · exact ⟨h.wf, h.buf, h.head, h.bodylen, rfl, rfl, h.started, h.socketOpen, h.reads, h.running,
            h.rooms, h.shows, h.received, h.frames⟩
      · cases hstep
  | unlock =>
      simp only [MemoryReceiver.step] at hstep
      split at hstep
      · next ht =>
        cases hstep
        refine ⟨{ m with sess := { m.sess with stopped := true }, testing := false }, ?_, ?_⟩
        · show (if m.testing then _ else none) = _
          rw [h.testing, ht, if_pos rfl]
        · exact ⟨h.wf, h.buf, h.head, h.bodylen, rfl, rfl, h.started, h.socketOpen, h.reads, h.running,
            h.rooms, h.shows, h.received, h.frames⟩
      · cases hstep
  | recv bytes =>
      obtain ⟨s, hrecv, hmatch⟩ := h.recv hchain hstep
      exact ⟨m.withSess s, by simp only [MemoryReceiverAct.abs, Live.step, hrecv, Option.map_some],
        hmatch⟩
  | recvDone => exact h.recvDone hchain hstep
  | recvFail ec => exact h.recvFail hchain hstep
  | run i grow => exact h.run hchain hp hG hstep

theorem matches_create : create.Matches Traffic.empty Live.create :=
  ⟨wf_create, by decide, rfl, rfl, rfl, rfl, rfl, rfl, rfl, rfl, by simp [create], by simp [create],
    rfl, rfl⟩

theorem intake_of_run {as : List SessionAct} (h : Run (Live.step cfg silent) Anything Live.create as m) :
    ∃ todo held, Live.Intake cfg silent (fun _ => true) (Live.traffic cfg silent as) m todo held :=
  Live.Intake.of_run (by simp [silent]) h

/-- A whole run in memory is the same run of the FIFO. -/
theorem matches_of_run (hp : cfg.pakSize < 2 ^ 31) {acts : List MemoryReceiverAct}
    (h : Run (MemoryReceiver.step cfg) Safe create acts n) :
    ∃ m, Run (Live.step cfg silent) Anything Live.create (acts.map MemoryReceiverAct.abs) m ∧
      n.Matches (Live.traffic cfg silent (acts.map MemoryReceiverAct.abs)) m := by
  induction h with
  | refl => exact ⟨_, .refl, matches_create⟩
  | @tail acts a n₁ n₂ _ hG hstep ih =>
      obtain ⟨m, hrun, hmatch⟩ := ih
      obtain ⟨_, _, hI⟩ := intake_of_run hrun
      obtain ⟨m', hstep', hmatch'⟩ := hmatch.step hI.chain hp hG hstep
      refine ⟨m', by rw [List.map_append]; exact hrun.tail trivial hstep', ?_⟩
      have hlast : Live.traffic cfg silent (acts.map MemoryReceiverAct.abs ++ [a.abs]) =
          follow (Live.step cfg silent) (Live.note cfg) m
            (Live.traffic cfg silent (acts.map MemoryReceiverAct.abs)) [a.abs] :=
        hrun.follow_append [a.abs]
      rw [follow, hstep'] at hlast
      rw [List.map_append, List.map_singleton, hlast]
      exact hmatch'

/-- **Reads in memory.**  In every run in which reads get their room and no frame is too long for
`gbump`: the memory that was given to the socket and to `read_callback` stays where it is and as it is;
what `read_callback` was shown begins what was received; and the run is one of the FIFO, with the same
bytes buffered, the same reads outstanding and the same frames handed on. -/
theorem received_in_place (hp : cfg.pakSize < 2 ^ 31) {acts : List MemoryReceiverAct}
    (h : Run (MemoryReceiver.step cfg) Safe create acts n) :
    n.InPlace ∧ (n.frames.flatMap fun f => cfg.codec.enc f.1 ++ f.2) <+: n.received ∧
      ∃ m, Run (Live.step cfg silent) Anything Live.create (acts.map MemoryReceiverAct.abs) m ∧
        m.sess.recvBuf = n.buf.data ∧ m.sess.reads = n.reads.map MemoryRead.got ∧
        (Live.traffic cfg silent (acts.map MemoryReceiverAct.abs)).frames.map
          (fun f => (f.length, f.content)) = n.frames := by
  obtain ⟨m, hrun, hmatch⟩ := matches_of_run hp h
  refine ⟨hmatch.inPlace, ?_, m, hrun, hmatch.buf, hmatch.reads, hmatch.frames⟩
  obtain ⟨todo, held, hI⟩ := intake_of_run hrun
  have hbytes := hI.bytes
  rw [hmatch.received] at hbytes
  rw [← hmatch.frames, List.flatMap_map]
  exact ⟨held, hbytes⟩

/-- A frame of 120 bytes, in two reads: the second does not fit behind the first, and the data are
moved to a new block; after it a header in two pieces. -/
def readReallocates : List MemoryReceiverAct :=
  [.start (some 0), .recv ([120, 0, 0, 0, 0, 0, 0, 0] ++ List.replicate 100 7), .recvDone,
    .run 0 (some 0), .run 0 (some 0), .recv (List.replicate 20 8 ++ [1, 0, 0]), .recvDone, .run 0 (some 0)]

theorem received_in_place_reallocates :
    ∃ n, Run (MemoryReceiver.step .shipped) Safe create readReallocates n ∧
      n.running = [.reading 2 0 120 (List.replicate 100 7 ++ List.replicate 20 8)] ∧ n.InPlace ∧
      (n.frames.flatMap fun f => Config.shipped.codec.enc f.1 ++ f.2) <+: n.received ∧
      ∃ m, Run (Live.step .shipped silent) Anything Live.create
          (readReallocates.map MemoryReceiverAct.abs) m ∧
        m.sess.recvBuf = n.buf.data ∧ m.sess.reads = n.reads.map MemoryRead.got ∧
        (Live.traffic .shipped silent (readReallocates.map MemoryReceiverAct.abs)).frames.map
          (fun f => (f.length, f.content)) = n.frames := by
  have h := Run.of_execWhen (MemoryReceiver.step .shipped) Safe create readReallocates
    (by decide +kernel)
  exact ⟨_, h, by decide +kernel, received_in_place (by decide) h⟩

end MemoryReceiver

end AsioTcpFrame
