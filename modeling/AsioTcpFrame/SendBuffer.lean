import AsioTcpFrame.Sender
import AsioTcpFrame.Streambuf

/-! # The sending half of a session, in memory

`MemorySender` is the sending half of a session with `send_buf` as it is in memory.  An
`async_write_some` stores the address and the size of what `data()` referred to when it was
started, and the socket reads the memory there when it becomes writable, which may be much later;
what freed memory holds then is up to the run (`freed`).

Meanwhile `write` may append to the same buffer, and `prepare` may move its bytes or free them.
So the outstanding write sends what it should as long as, while it is waiting for the socket, no
other write moves other bytes over the ones it looks at or has them freed (`Safe`).  Then
`MemorySender` is, step by step, the FIFO `Sender`. -/

namespace AsioTcpFrame

open Transition Framing Window Streambuf

/-- An outstanding `async_write_some`: where its bytes are, what they were when it was started, and
how many of them the socket has taken, once it has. -/
structure MemoryOp where
  block : ℕ
  offset : ℕ
  size : ℕ
  started : List Byte
  sent : Option ℕ
deriving DecidableEq, Repr

/-- The operation as the FIFO sees it. -/
def MemoryOp.abs (op : MemoryOp) : WriteOp := ⟨op.started, op.sent⟩

structure MemorySender where
  buf : Streambuf
  isWriting : Bool
  writes : List MemoryOp
  wire : List Byte
  written : List (List Byte)
deriving DecidableEq, Repr

/-- `write`, with what the allocator gives if it is asked; the socket takes `k` bytes; the write
handler. -/
inductive MemorySenderAct where
  | write (grow : Option ℕ) (content : List Byte)
  | send (k : ℕ) (freed : ℕ → Byte)
  | sendDone

namespace MemorySender

def create : MemorySender := ⟨.create, false, [], [], []⟩

/-- `Session::doWrite`. -/
def doWrite (n : MemorySender) : MemorySender :=
  if n.buf.size = 0 then { n with isWriting := false }
  else { n with
    isWriting := true
    writes := n.writes ++ [⟨n.buf.block, n.buf.gptr, n.buf.size, n.buf.data, none⟩] }

/-- `Session::write`, under `send_mtx`; it throws when `prepare` does. -/
def write (cfg : Config) (n : MemorySender) (grow : Option ℕ) (content : List Byte) :
    MemorySender :=
  let len := toSize (content.length + cfg.pakSize)
  match n.buf.prepare grow len with
  | (buf, false) => { n with buf := buf }
  | (buf, true) =>
      let n := { n with
        buf := (buf.store (cfg.codec.frame content)).commit len
        written := n.written ++ [content] }
      if n.isWriting then n else n.doWrite

/-- What is in memory where `op` looks. -/
def memory (n : MemorySender) (freed : ℕ → Byte) (op : MemoryOp) : List Byte :=
  if op.block = n.buf.block then window n.buf.bytes op.offset op.size
  else (List.range op.size).map freed

def step (cfg : Config) (n : MemorySender) : MemorySenderAct → Option MemorySender
  | .write grow content => some (n.write cfg grow content)
  | .send k freed =>
      match n.writes with
      | op :: rest =>
          if op.sent = none ∧ 1 ≤ k ∧ k ≤ op.size then
            some { n with
              writes := { op with sent := some k } :: rest
              wire := n.wire ++ (n.memory freed op).take k }
          else none
      | [] => none
  | .sendDone =>
      match n.writes with
      | op :: rest => op.sent.map fun k => doWrite { n with writes := rest, buf := n.buf.consume k }
      | [] => none

/-- What `write` asks `prepare` for, as a number. -/
def frameLength (cfg : Config) (content : List Byte) : ℕ := content.length + cfg.pakSize

/-- `prepare` gets room for the frame. -/
def Prepares (cfg : Config) (n : MemorySender) (grow : Option ℕ) (content : List Byte) : Prop :=
  n.buf.Room (frameLength cfg content) ∨ n.buf.Fits grow (frameLength cfg content)

instance (cfg : Config) (n : MemorySender) (grow : Option ℕ) (content : List Byte) :
    Decidable (n.Prepares cfg grow content) := by unfold Prepares; infer_instance

/-- The length of a frame is a `size_t`.  When the `prepare` of a `write` returns, it is short enough for
`pbump`, and the bytes that are moved and the frame stay clear of the bytes that a write is waiting to send;
when `prepare` throws, what the `memmove` has written over was the same.  A partial send is short enough for
`gbump`. -/
def Safe (cfg : Config) (n : MemorySender) : MemorySenderAct → Prop
  | .write grow content =>
      frameLength cfg content < 2 ^ 64 ∧
      (n.Prepares cfg grow content → frameLength cfg content < 2 ^ 31 ∧
        ∀ op ∈ n.writes, op.sent = none →
          n.buf.Clear (frameLength cfg content) op.offset op.size) ∧
      (¬ n.Prepares cfg grow content → n.buf.Repeats)
  | .send k _ => k < 2 ^ 31
  | .sendDone => True

instance (cfg : Config) (n : MemorySender) (a : MemorySenderAct) : Decidable (Safe cfg n a) := by
  cases a <;> unfold Safe <;> infer_instance

/-- The memory that a waiting write looks at is allocated and as it was when the write started. -/
def Intact (n : MemorySender) : Prop :=
  ∀ op ∈ n.writes, op.sent = none → op.block = n.buf.block ∧
    op.offset + op.size ≤ n.buf.bytes.length ∧ window n.buf.bytes op.offset op.size = op.started

/-- The waiting write finds its bytes, and what the socket was given begins the frames written. -/
structure Undisturbed (cfg : Config) (n : MemorySender) : Prop where
  region : n.Intact
  wire : n.wire <+: cfg.codec.stream n.written

/-! ### The FIFO -/

/-- The sending half `n` is in memory what `s` is. -/
structure Matches (n : MemorySender) (s : Session) : Prop where
  wf : n.buf.WF
  buf : s.sendBuf = n.buf.data
  writes : s.writes = n.writes.map MemoryOp.abs
  region : n.Intact
  place : ∀ op ∈ n.writes, op.sent = none →
    n.buf.gptr = 0 ∨ op.offset = n.buf.gptr ∧ op.size ≤ n.buf.data.length
  size : ∀ op ∈ n.writes, op.size = op.started.length
  sent : ∀ op ∈ n.writes, ∀ k, op.sent = some k → k < 2 ^ 31

/-- The whole of `n`. -/
structure Refines (cfg : Config) (n : MemorySender) (m : Sender) : Prop where
  inv : m.Inv cfg
  mem : n.Matches m.sess
  isWriting : m.sess.isWriting = n.isWriting
  wire : m.wire = n.wire
  written : m.written = n.written

variable {cfg : Config} {n n' : MemorySender} {s : Session} {m : Sender} {a : MemorySenderAct}

theorem Matches.doWrite (h : n.Matches s) (hs : s.stopped = false) (hw : n.writes = []) :
    n.doWrite.Matches s.doWrite ∧ s.doWrite.isWriting = n.doWrite.isWriting := by
  have hsize : n.buf.size = s.sendBuf.length := by
    rw [h.buf, h.wf.length_data, h.wf.size_eq]
  have hw' : s.writes = [] := by rw [h.writes, hw]; rfl
  by_cases hzero : s.sendBuf.length = 0
  · simp only [MemorySender.doWrite, Session.doWrite, hs, hsize, hzero, Bool.false_eq_true, if_false,
      if_true]
    exact ⟨⟨h.wf, h.buf, h.writes, h.region, h.place, h.size, h.sent⟩, trivial⟩
  · simp only [MemorySender.doWrite, Session.doWrite, hs, hsize, hzero, Bool.false_eq_true, if_false]
    refine ⟨⟨h.wf, h.buf, ?_, ?_, ?_, ?_, ?_⟩, trivial⟩
    · simp [hw, hw', h.buf, MemoryOp.abs]
    · intro op hop _
      simp only [hw, List.nil_append, List.mem_singleton] at hop
      subst hop
      have hget := h.wf.get; have hput := h.wf.put; have hpend := h.wf.pend
      have hsz := h.wf.size_eq
      refine ⟨rfl, ?_, ?_⟩
      · dsimp only; omega
      · dsimp only; rw [← hsize]; rfl
    · intro op hop _
      simp only [hw, List.nil_append, List.mem_singleton] at hop
      subst hop
      exact Or.inr ⟨rfl, by rw [← h.buf]⟩
    all_goals simp [hw, h.buf]

theorem Refines.intact_wire (h : Refines cfg n m) : n.Undisturbed cfg where
  region := h.mem.region
  wire := by
    rw [← h.wire, ← h.written, ← h.inv.bytes]
    exact List.prefix_append _ _

@[simp] theorem doWrite_wire (n : MemorySender) : n.doWrite.wire = n.wire := by
  unfold doWrite; split <;> rfl

@[simp] theorem doWrite_written (n : MemorySender) : n.doWrite.written = n.written := by
  unfold doWrite; split <;> rfl

theorem Refines.idle (h : Refines cfg n m) (hw : n.isWriting = false) : n.writes = [] := by
  have hnil : m.sess.writes = [] := h.inv.chain.idle_of (h.isWriting.trans hw)
  rw [h.mem.writes] at hnil
  exact List.map_eq_nil_iff.mp hnil

/-- A frame is stored and committed to the buffer `sb` that `prepare` left. -/
def appended (cfg : Config) (n : MemorySender) (sb : Streambuf) (content : List Byte) :
    MemorySender :=
  { n with
    buf := (sb.store (cfg.codec.frame content)).commit (cfg.codec.frame content).length
    written := n.written ++ [content] }

theorem length_frame (cfg : Config) (content : List Byte) :
    (cfg.codec.frame content).length = frameLength cfg content := by
  simp [frameLength, Nat.add_comm]

/-- The two ways of a `write`. -/
theorem write_cases {grow : Option ℕ} {content : List Byte} (hwf : n.buf.WF)
    (hlen : frameLength cfg content < 2 ^ 64) :
    (n.Prepares cfg grow content ∧
      ∃ sb, n.buf.prepare grow (cfg.codec.frame content).length = (sb, true) ∧ sb.WF ∧
        sb.Room (cfg.codec.frame content).length ∧ sb.data = n.buf.data ∧
        n.write cfg grow content = if n.isWriting then n.appended cfg sb content
          else (n.appended cfg sb content).doWrite) ∨
    (¬ n.Prepares cfg grow content ∧
      n.write cfg grow content = { n with buf := n.buf.moved }) := by
  have hframe := length_frame cfg content
  have htoSize : toSize (content.length + cfg.pakSize) = (cfg.codec.frame content).length := by
    rw [hframe]
    exact toSize_natCast (n := content.length + cfg.pakSize) hlen
  by_cases hn : n.Prepares cfg grow content
  · have hn' := hn
    rw [Prepares, ← hframe] at hn'
    obtain ⟨sb, hprep, hsb, hroom, hdata, -⟩ := prepare_returns hwf hn'
    refine Or.inl ⟨hn, sb, hprep, hsb, hroom, hdata, ?_⟩
    simp only [write, htoSize, hprep, appended]
  · have hn' := hn
    rw [Prepares, ← hframe] at hn'
    obtain ⟨hroom, hfits⟩ := not_or.mp hn'
    refine Or.inr ⟨hn, ?_⟩
    simp only [write, htoSize, prepare_throws hwf hroom hfits]

theorem Refines.append (h : Refines cfg n m) {sb : Streambuf} {content : List Byte}
    (hwf : (n.appended cfg sb content).buf.WF)
    (hdata : (n.appended cfg sb content).buf.data = n.buf.data ++ cfg.codec.frame content)
    (hgptr : (n.appended cfg sb content).buf.gptr = 0 ∨
      (n.appended cfg sb content).buf.gptr = n.buf.gptr)
    (hregion : (n.appended cfg sb content).Intact) :
    ∃ acts m', Run (Sender.step cfg) Anything m acts m' ∧
      Refines cfg (if n.isWriting then n.appended cfg sb content
        else (n.appended cfg sb content).doWrite) m' := by
  have hstopped := h.inv.stopped
  have hplace : ∀ op ∈ n.writes, op.sent = none → (n.appended cfg sb content).buf.gptr = 0 ∨
      op.offset = (n.appended cfg sb content).buf.gptr ∧
        op.size ≤ (n.appended cfg sb content).buf.data.length := by
    intro op hop hsent
    rcases hgptr with hfront | hsame
    · exact Or.inl hfront
    · rw [hsame, hdata, List.length_append]
      exact (h.mem.place op hop hsent).imp_right fun ⟨hoff, hle⟩ => ⟨hoff, by omega⟩
  have happend : (n.appended cfg sb content).Matches (m.sess.append cfg content) :=
    ⟨hwf, by rw [hdata, ← h.mem.buf]; rfl, h.mem.writes, hregion, hplace, h.mem.size, h.mem.sent⟩
  have hinv := h.inv.step (a := .write content) rfl
  refine ⟨[.write content], _, .single trivial rfl, ?_⟩
  cases hw : n.isWriting with
  | true =>
      have hsess : m.sess.write cfg content = m.sess.append cfg content := by
        simp only [Session.write, Session.writeLocked, hstopped, h.isWriting.trans hw,
          Bool.false_eq_true, if_false, if_true]
      rw [if_pos rfl]
      refine ⟨hinv, ?_, ?_, h.wire, by dsimp only; rw [h.written]; rfl⟩
      · rw [hsess]; exact happend
      · rw [hsess]; exact h.isWriting
  | false =>
      have hsess : m.sess.write cfg content = (m.sess.append cfg content).doWrite := by
        simp only [Session.write, Session.writeLocked, hstopped, h.isWriting.trans hw,
          Bool.false_eq_true, if_false]
      obtain ⟨hmatch, hwriting⟩ := happend.doWrite hstopped (h.idle hw)
      rw [if_neg (by decide)]
      refine ⟨hinv, ?_, ?_, ?_, ?_⟩
      · rw [hsess]; exact hmatch
      · rw [hsess]; exact hwriting
      · rw [doWrite_wire]; exact h.wire
      · rw [doWrite_written, appended, ← h.written]

/-- The bytes are moved to the front, but `prepare` throws before the pointers are. -/
theorem Refines.moved (h : Refines cfg n m) (hrep : n.buf.Repeats) :
    Refines cfg { n with buf := n.buf.moved } m := by
  have hwf := h.mem.wf
  obtain ⟨hmoved, hlen, -⟩ := hwf.moved
  have hdata := (data_moved_iff hwf).mpr hrep
  refine ⟨h.inv, ⟨hwf.wf_moved, ?_, h.mem.writes, ?_, ?_, h.mem.size, h.mem.sent⟩, h.isWriting,
    h.wire, h.written⟩
  · rw [hdata]
    exact h.mem.buf
  · intro op hop hsent
    obtain ⟨hblock, hle, hwindow⟩ := h.mem.region op hop hsent
    refine ⟨by rw [hmoved]; exact hblock, by rw [hlen]; exact hle, ?_⟩
    rcases h.mem.place op hop hsent with hfront | ⟨hoff, hsize⟩
    · rw [moved_of_front hfront]
      exact hwindow
    · rw [hoff, hrep.window_moved hwf hsize, ← hoff]
      exact hwindow
  · intro op hop hsent
    rw [hdata, hmoved]
    exact h.mem.place op hop hsent

theorem Refines.write (h : Refines cfg n m) {grow : Option ℕ} {content : List Byte}
    (hG : Safe cfg n (.write grow content)) :
    ∃ acts m', Run (Sender.step cfg) Anything m acts m' ∧
      Refines cfg (n.write cfg grow content) m' := by
  obtain ⟨hlen, hreturns, hthrows⟩ := hG
  have hframe := length_frame cfg content
  rcases write_cases h.mem.wf hlen with ⟨hn, sb, hprep, -, -, -, hwrite⟩ | ⟨hn, hwrite⟩
  · obtain ⟨hlt, hclear⟩ := hreturns hn
    rw [Prepares, ← hframe] at hn
    rw [← hframe] at hlt hclear
    obtain ⟨sb', hprep', hwf, hdata, hgptr, hkeep⟩ := prepare_store_commit h.mem.wf hn hlt
    obtain rfl : sb = sb' := congrArg Prod.fst (hprep.symm.trans hprep')
    rw [hwrite]
    apply h.append hwf hdata hgptr
    intro op hop hsent
    obtain ⟨hb, hle, hwindow⟩ := h.mem.region op hop hsent
    obtain ⟨hb', hle', hwindow'⟩ := hkeep op.offset op.size hle (hclear op hop hsent)
    exact ⟨hb.trans hb'.symm, hle', hwindow'.trans hwindow⟩
  · rw [hwrite]
    exact ⟨[], m, .refl, h.moved (hthrows hn)⟩

theorem Refines.send (h : Refines cfg n m) {k : ℕ} {freed : ℕ → Byte} (hk : k < 2 ^ 31)
    (hstep : n.step cfg (.send k freed) = some n') :
    ∃ acts m', Run (Sender.step cfg) Anything m acts m' ∧ Refines cfg n' m' := by
  simp only [MemorySender.step] at hstep
  split at hstep
  · next op rest hw =>
    split at hstep
    · next hop =>
      obtain ⟨hsent, hk₁, hk₂⟩ := hop
      cases hstep
      have hmem : op ∈ n.writes := by rw [hw]; exact List.mem_cons_self
      obtain ⟨hblock, -, hread⟩ := h.mem.region op hmem hsent
      have hmemory : n.memory freed op = op.started := by rw [memory, if_pos hblock, hread]
      have hsize := h.mem.size op hmem
      have hwrites : m.sess.writes = ⟨op.started, none⟩ :: rest.map MemoryOp.abs := by
        rw [h.mem.writes, hw, List.map_cons, MemoryOp.abs, hsent]
      have hsend : m.sess.send k = some (op.started.take k,
          { m.sess with writes := ⟨op.started, some k⟩ :: rest.map MemoryOp.abs }) := by
        rw [hsize] at hk₂
        simp only [Session.send, hwrites, h.inv.socketOpen, hk₁, hk₂, and_self, if_true]
      have hstep' : m.step cfg (.send k) = some { m with
          sess := { m.sess with writes := ⟨op.started, some k⟩ :: rest.map MemoryOp.abs }
          wire := m.wire ++ op.started.take k } := by
        simp only [Sender.step, hsend, Option.map_some]
      refine ⟨[.send k], _, .single trivial hstep', h.inv.step hstep', ?_, h.isWriting, ?_, h.written⟩
      · refine ⟨h.mem.wf, h.mem.buf, rfl, ?_, ?_, ?_, ?_⟩
        · intro op' hop' hsent'
          rcases List.mem_cons.mp hop' with rfl | hop'
          · cases hsent'
          · exact h.mem.region op' (by rw [hw]; exact List.mem_cons_of_mem _ hop') hsent'
        · intro op' hop' hsent'
          rcases List.mem_cons.mp hop' with rfl | hop'
          · cases hsent'
          · exact h.mem.place op' (by rw [hw]; exact List.mem_cons_of_mem _ hop') hsent'
        · intro op' hop'
          rcases List.mem_cons.mp hop' with rfl | hop'
          · exact hsize
          · exact h.mem.size op' (by rw [hw]; exact List.mem_cons_of_mem _ hop')
        · intro op' hop' k' hsent'
          rcases List.mem_cons.mp hop' with rfl | hop'
          · cases hsent'; exact hk
          · exact h.mem.sent op' (by rw [hw]; exact List.mem_cons_of_mem _ hop') k' hsent'
      · rw [hmemory, h.wire]
    · cases hstep
  · cases hstep

theorem Refines.sendDone (h : Refines cfg n m) (hstep : n.step cfg .sendDone = some n') :
    ∃ acts m', Run (Sender.step cfg) Anything m acts m' ∧ Refines cfg n' m' := by
  simp only [MemorySender.step] at hstep
  split at hstep
  · next op rest hw =>
    obtain ⟨k, hsent, rfl⟩ := Option.map_eq_some_iff.mp hstep
    have hmem : op ∈ n.writes := by rw [hw]; exact List.mem_cons_self
    obtain rfl : rest = [] := by
      have hone := h.inv.chain.one
      rw [h.mem.writes, hw] at hone
      exact List.length_eq_zero_iff.mp (by simpa using hone)
    have hwrites : m.sess.writes = [⟨op.started, some k⟩] := by
      rw [h.mem.writes, hw, List.map_singleton, MemoryOp.abs, hsent]
    have hk : k ≤ n.buf.data.length := by
      have hop : (⟨op.started, some k⟩ : WriteOp) ∈ m.sess.writes := by rw [hwrites]; simp
      have hle := h.inv.chain.sent_le hop rfl
      have hpre := (h.inv.chain.data_prefix hop).length_le
      rw [← h.mem.buf]
      exact hle.trans hpre
    obtain ⟨hwf, hdata⟩ := data_consume h.mem.wf hk (h.mem.sent op hmem k hsent)
    have hstopped := h.inv.stopped
    have hmatch : (MemorySender.mk (n.buf.consume k) n.isWriting [] n.wire n.written).Matches
        { m.sess with writes := [], sendBuf := m.sess.sendBuf.drop k } := by
      refine ⟨hwf, ?_, rfl, ?_, ?_, ?_, ?_⟩
      · rw [hdata, ← h.mem.buf]
      all_goals intro op hop; cases hop
    obtain ⟨hmatch', hwriting⟩ := hmatch.doWrite hstopped rfl
    have hdone : m.step cfg .sendDone = some { m with
        sess := Session.doWrite { m.sess with writes := [], sendBuf := m.sess.sendBuf.drop k } } := by
      simp only [Sender.step, Session.sendDone, hwrites, Option.map_some, Session.writeHandler,
        Session.writeDone, hstopped, Bool.false_eq_true, if_false]
    refine ⟨[.sendDone], _, .single trivial hdone, h.inv.step hdone, hmatch', hwriting, ?_, ?_⟩
    · rw [doWrite_wire]; exact h.wire
    · rw [doWrite_written]; exact h.written
  · cases hstep

/-- **One step** of the sending half in memory is one of the FIFO, or none. -/
theorem Refines.step (h : Refines cfg n m) (hG : Safe cfg n a)
    (hstep : n.step cfg a = some n') :
    ∃ acts m', Run (Sender.step cfg) Anything m acts m' ∧ Refines cfg n' m' := by
  cases a with
  | write grow content => cases hstep; exact h.write hG
  | send k freed => exact h.send hG hstep
  | sendDone => exact h.sendDone hstep

theorem refines_create : Refines cfg create Sender.create where
  inv := Sender.inv_create
  mem := ⟨wf_create, by decide, rfl, fun op hop => (by cases hop), fun op hop => (by cases hop),
    fun op hop => (by cases hop), fun op hop => (by cases hop)⟩
  isWriting := rfl
  wire := rfl
  written := rfl

theorem refines_of_run {acts : List MemorySenderAct}
    (h : Run (MemorySender.step cfg) (Safe cfg) create acts n) :
    ∃ acts' m, Run (Sender.step cfg) Anything Sender.create acts' m ∧ Refines cfg n m :=
  h.simulate (R := Refines cfg) refines_create fun _ _ _ _ hR hG hstep => hR.step hG hstep

/-- **Writes in memory.**  In every run in which no `write` writes over or frees the bytes that a waiting
write looks at, that write finds its bytes unchanged, and the socket was given a prefix of the
frames written; and the run is one of the FIFO sender, with the same bytes buffered, the same
operation outstanding and the same bytes on the wire. -/
theorem undisturbed {acts : List MemorySenderAct}
    (h : Run (MemorySender.step cfg) (Safe cfg) create acts n) :
    n.Undisturbed cfg ∧ ∃ acts' m, Run (Sender.step cfg) Anything Sender.create acts' m ∧
      m.sess.sendBuf = n.buf.data ∧ m.sess.writes = n.writes.map MemoryOp.abs ∧
      m.sess.isWriting = n.isWriting ∧ m.wire = n.wire ∧ m.written = n.written := by
  obtain ⟨acts', m, hrun, hR⟩ := refines_of_run h
  exact ⟨hR.intact_wire, acts', m, hrun, hR.mem.buf, hR.mem.writes, hR.isWriting, hR.wire, hR.written⟩

/-- Two small packets while the first write is waiting, which is then cut. -/
def smallWrites : List MemorySenderAct :=
  [.write none [7], .write none [8, 9], .send 5 fun _ => 0, .sendDone, .send 14 fun _ => 0]

theorem undisturbed_small :
    ∃ n, Run (MemorySender.step .shipped) (Safe .shipped) create smallWrites n ∧
      n.wire = [1, 0, 0, 0, 0, 0, 0, 0, 7, 2, 0, 0, 0, 0, 0, 0, 0, 8, 9] ∧
      n.Undisturbed .shipped ∧
      ∃ acts' m, Run (Sender.step .shipped) Anything Sender.create acts' m ∧
        m.sess.sendBuf = n.buf.data ∧ m.sess.writes = n.writes.map MemoryOp.abs ∧
        m.sess.isWriting = n.isWriting ∧ m.wire = n.wire ∧ m.written = n.written := by
  have h := Run.of_execWhen (MemorySender.step .shipped) (Safe .shipped) create smallWrites
    (by decide +kernel)
  exact ⟨_, h, by decide +kernel, undisturbed h⟩

/-- A packet that leaves little room behind it, and another one while the write of the first is
waiting: the vector takes a new block, and the socket gets what is in the old one. -/
def writeReallocates : List MemorySenderAct :=
  [.write none (List.replicate 113 7), .write (some 0) [8, 9, 10, 11],
    .send 121 fun _ => 255]

/-- After a partial write, a packet that fits only when the rest is moved to the front. -/
def writeMoves : List MemorySenderAct :=
  [.write none (List.replicate 80 7 ++ List.replicate 20 8), .send 50 fun _ => 0, .sendDone,
    .write none (List.replicate 20 9), .send 58 fun _ => 0]

theorem not_undisturbed :
    (∃ n, Run (MemorySender.step .shipped) Anything create writeReallocates n ∧
      ¬ n.wire <+: Config.shipped.codec.stream n.written ∧ ¬ n.Undisturbed .shipped) ∧
    (∃ n, Run (MemorySender.step .shipped) Anything create writeMoves n ∧
      ¬ n.wire <+: Config.shipped.codec.stream n.written ∧ ¬ n.Undisturbed .shipped) := by
  constructor
  · have h := Run.of_exec (MemorySender.step .shipped) create writeReallocates (by decide +kernel)
    exact ⟨_, h, by decide +kernel, fun hu => absurd hu.wire (by decide +kernel)⟩
  · have h := Run.of_exec (MemorySender.step .shipped) create writeMoves (by decide +kernel)
    exact ⟨_, h, by decide +kernel, fun hu => absurd hu.wire (by decide +kernel)⟩

end MemorySender

end AsioTcpFrame
