import AsioTcpFrame.SendBuffer
import AsioTcpFrame.ReceiveBuffer

/-! # A connection, in memory

Two ends of a connection with both their buffers in memory: a `MemorySender` and a `MemoryReceiver`, with
the bytes that the socket was given in a pipe between them.  The pipe is cut where it likes; the writes,
the handlers, the blocks of the allocator and what freed memory holds are those of the run.

Each half refines its FIFO half as long as it is `Safe`; the pipe says no more of them than that what was
received begins what was sent (`Joined`).  So what `read_callback` is shown, through its pointer into
`recv_buf`, is what `write` was given, through all the moves of both vectors (`shown_begin_written`). -/

namespace AsioTcpFrame

open Transition Framing

structure MemoryConnection where
  tx : MemorySender
  rx : MemoryReceiver
deriving DecidableEq, Repr

/-- A step of one of the two ends. -/
inductive MemoryConnectionAct where
  | send (a : MemorySenderAct)
  | recv (a : MemoryReceiverAct)

namespace MemoryConnection

def create : MemoryConnection := ⟨.create, .create⟩

/-- What the receiver's socket has not got yet. -/
def pipe (n : MemoryConnection) : List Byte := n.tx.wire.drop n.rx.received.length

/-- The socket of the receiver gets what is in the pipe. -/
def Arrives (n : MemoryConnection) : MemoryReceiverAct → Prop
  | .recv bytes => bytes <+: n.pipe
  | _ => True

instance (n : MemoryConnection) : ∀ a, Decidable (n.Arrives a)
  | .recv bytes => inferInstanceAs (Decidable (bytes <+: n.pipe))
  | .start _ | .stop | .tryLock | .unlock | .recvDone | .recvFail _ | .run _ _ => isTrue trivial

def step (cfg : Config) (n : MemoryConnection) : MemoryConnectionAct → Option MemoryConnection
  | .send a => (n.tx.step cfg a).map fun tx => { n with tx := tx }
  | .recv a =>
      if n.Arrives a then (n.rx.step cfg a).map fun rx => { n with rx := rx } else none

/-- Both halves are safe. -/
def Safe (cfg : Config) (n : MemoryConnection) : MemoryConnectionAct → Prop
  | .send a => n.tx.Safe cfg a
  | .recv a => n.rx.Safe a

instance (cfg : Config) (n : MemoryConnection) (a : MemoryConnectionAct) :
    Decidable (n.Safe cfg a) := by
  cases a <;> unfold Safe <;> infer_instance

end MemoryConnection

/-! ### What a step of a half does to the pipe -/

namespace MemorySender

variable {cfg : Config} {n n' : MemorySender} {a : MemorySenderAct}

theorem write_effect (cfg : Config) (n : MemorySender) (grow : Option ℕ) (content : List Byte) :
    (n.write cfg grow content).wire = n.wire ∧
      ((n.write cfg grow content).written = n.written ∨
        (n.write cfg grow content).written = n.written ++ [content]) := by
  simp only [write]
  split
  · exact ⟨rfl, Or.inl rfl⟩
  · split
    · exact ⟨rfl, Or.inr rfl⟩
    · rw [doWrite_wire, doWrite_written]
      exact ⟨rfl, Or.inr rfl⟩

/-- What a step gives to the socket, and what it writes. -/
theorem step_effect (hstep : n.step cfg a = some n') :
    n.wire <+: n'.wire ∧ (n'.written = n.written ∨
      ∃ grow content, a = .write grow content ∧ n'.written = n.written ++ [content]) := by
  cases a with
  | write grow content =>
      cases hstep
      obtain ⟨hwire, hwritten⟩ := write_effect cfg n grow content
      exact ⟨hwire ▸ List.prefix_refl _, hwritten.imp id fun h => ⟨grow, content, rfl, h⟩⟩
  | send k freed =>
      simp only [step] at hstep
      split at hstep
      · split at hstep
        · cases hstep
          exact ⟨List.prefix_append _ _, Or.inl rfl⟩
        · cases hstep
      · cases hstep
  | sendDone =>
      simp only [step] at hstep
      split at hstep
      · obtain ⟨k, -, rfl⟩ := Option.map_eq_some_iff.mp hstep
        rw [doWrite_wire]
        exact ⟨List.prefix_refl _, Or.inl (doWrite_written _)⟩
      · cases hstep

theorem Refines.short_of_written {m : Sender} (h : Refines cfg n m) {grow : Option ℕ} {content : List Byte}
    (hG : Safe cfg n (.write grow content)) (hstep : n.step cfg (.write grow content) = some n')
    (hadd : n'.written = n.written ++ [content]) : content.length < 2 ^ 31 := by
  obtain ⟨hlen, hreturns, -⟩ := hG
  cases hstep
  rcases write_cases h.mem.wf hlen with ⟨hn, -⟩ | ⟨-, hwrite⟩
  · obtain ⟨hlt, -⟩ := hreturns hn
    unfold frameLength at hlt
    omega
  · rw [hwrite] at hadd
    have hlength := congrArg List.length hadd
    simp at hlength

end MemorySender

/-- Only the socket adds to what was received. -/
theorem MemoryReceiver.received_step {cfg : Config} {n n' : MemoryReceiver} {g : Traffic}
    {m : Live Empty} {a : MemoryReceiverAct} (h : n.Matches g m) (hchain : m.ReadChain)
    (hp : cfg.pakSize < 2 ^ 31) (hG : n.Safe a) (hstep : n.step cfg a = some n') :
    n'.received = n.received ∨ ∃ bytes, a = .recv bytes ∧ n'.received = n.received ++ bytes := by
  obtain ⟨m', -, hmatch⟩ := h.step hchain hp hG hstep
  rw [← hmatch.received, ← h.received]
  cases a with
  | recv bytes => exact Or.inr ⟨bytes, rfl, rfl⟩
  | _ => exact Or.inl rfl

namespace MemoryConnection

variable {cfg : Config} {n n' : MemoryConnection} {a : MemoryConnectionAct}
  {acts : List MemoryConnectionAct}

/-- Each half has made a run of its own; what was received begins what was sent; and no content is too
long for a length that `gbump` takes. -/
structure Joined (cfg : Config) (n : MemoryConnection) : Prop where
  sends : ∃ as, Run (MemorySender.step cfg) (MemorySender.Safe cfg) .create as n.tx
  receives : ∃ bs, Run (MemoryReceiver.step cfg) MemoryReceiver.Safe .create bs n.rx ∧
    (Live.traffic cfg silent (bs.map MemoryReceiverAct.abs)).received <+: n.tx.wire
  short : ∀ content ∈ n.tx.written, content.length < 2 ^ 31

theorem joined_create : Joined cfg create where
  sends := ⟨[], .refl⟩
  receives := ⟨[], .refl, List.prefix_refl _⟩
  short := by simp [create, MemorySender.create]

theorem Joined.send (h : Joined cfg n) {b : MemorySenderAct} {tx : MemorySender}
    (hG : n.tx.Safe cfg b) (hstep : n.tx.step cfg b = some tx) :
    Joined cfg { n with tx := tx } := by
  obtain ⟨as, hsends⟩ := h.sends
  obtain ⟨bs, hreceives, hpre⟩ := h.receives
  obtain ⟨hwire, hwritten⟩ := MemorySender.step_effect hstep
  refine ⟨⟨_, hsends.tail hG hstep⟩, ⟨bs, hreceives, hpre.trans hwire⟩, ?_⟩
  rcases hwritten with hsame | ⟨grow, content, rfl, hadd⟩
  · rw [hsame]
    exact h.short
  · rw [hadd]
    intro c hc
    rcases List.mem_append.mp hc with hc | hc
    · exact h.short c hc
    · obtain rfl := List.mem_singleton.mp hc
      obtain ⟨-, m, -, hR⟩ := MemorySender.refines_of_run hsends
      exact hR.short_of_written hG hstep hadd

theorem Joined.recv (h : Joined cfg n) (hp : cfg.pakSize < 2 ^ 31) {b : MemoryReceiverAct}
    {rx : MemoryReceiver} (hG : n.rx.Safe b) (harr : n.Arrives b)
    (hstep : n.rx.step cfg b = some rx) : Joined cfg { n with rx := rx } := by
  obtain ⟨bs, hreceives, hpre⟩ := h.receives
  have hreceives' := hreceives.tail hG hstep
  refine ⟨h.sends, ⟨_, hreceives', ?_⟩, h.short⟩
  obtain ⟨m, hrun, hmatch⟩ := MemoryReceiver.matches_of_run hp hreceives
  obtain ⟨m', -, hmatch'⟩ := MemoryReceiver.matches_of_run hp hreceives'
  obtain ⟨_, _, hI⟩ := MemoryReceiver.intake_of_run hrun
  rw [hmatch.received] at hpre
  rw [hmatch'.received]
  rcases MemoryReceiver.received_step hmatch hI.chain hp hG hstep with hsame | ⟨bytes, rfl, hadd⟩
  · rw [hsame]
    exact hpre
  · rw [hadd]
    obtain ⟨rest, hrest⟩ := hpre
    have hpipe : n.pipe = rest := by rw [pipe, ← hrest, List.drop_left]
    have hbytes : bytes <+: rest := by rw [← hpipe]; exact harr
    obtain ⟨rest', rfl⟩ := hbytes
    exact ⟨rest', by rw [List.append_assoc, hrest]⟩

theorem Joined.step (h : Joined cfg n) (hp : cfg.pakSize < 2 ^ 31) (hG : n.Safe cfg a)
    (hstep : n.step cfg a = some n') : Joined cfg n' := by
  cases a with
  | send b =>
      obtain ⟨tx, htx, rfl⟩ := Option.map_eq_some_iff.mp hstep
      exact h.send hG htx
  | recv b =>
      simp only [MemoryConnection.step] at hstep
      split at hstep
      · next harr =>
        obtain ⟨rx, hrx, rfl⟩ := Option.map_eq_some_iff.mp hstep
        exact h.recv hp hG harr hrx
      · cases hstep

/-- **What is shown is what was written**, with both buffers in memory: in every run in which both halves
are safe, `read_callback` was shown the first of the contents that were written, with their lengths and
in their order, and the memory that is given away is in place on both sides. -/
theorem shown_begin_written (hp : cfg.pakSize < 2 ^ 31) (hb : 2 ^ 31 ≤ cfg.codec.bound)
    (h : Run (MemoryConnection.step cfg) (Safe cfg) create acts n) :
    n.rx.frames <+: n.tx.written.map (fun content => (content.length, content)) ∧
      n.tx.Intact ∧ n.rx.InPlace := by
  have hjoined : Joined cfg n := h.invariant joined_create fun _ _ _ hI hG hs => hI.step hp hG hs
  obtain ⟨as, hsends⟩ := hjoined.sends
  obtain ⟨bs, hreceives, hpre⟩ := hjoined.receives
  obtain ⟨-, k, -, hR⟩ := MemorySender.refines_of_run hsends
  obtain ⟨m, hrun, hmatch⟩ := MemoryReceiver.matches_of_run hp hreceives
  obtain ⟨todo, held, hI⟩ := MemoryReceiver.intake_of_run hrun
  refine ⟨?_, hR.mem.region, hmatch.inPlace⟩
  have hcontents := hI.contents (fun q hq => (hjoined.short q hq).trans_le hb)
    (hpre.trans hR.intact_wire.wire)
  have hframes : n.rx.frames =
      ((Live.traffic cfg silent (bs.map MemoryReceiverAct.abs)).frames.map Frame.content).map
        fun content => (content.length, content) := by
    rw [← hmatch.frames, List.map_map]
    apply List.map_congr_left
    intro f hf
    simp [f.content_length]
  rw [hframes]
  exact hcontents.map _

/-- Two contents, the second written while the first is being sent, which is cut; the first is shown
while the rest is on its way. -/
def sentInPieces : List MemoryConnectionAct :=
  [.recv (.start (some 0)), .send (.write none [7, 8]), .send (.write none [9]),
    .send (.send 10 fun _ => 0), .send .sendDone, .recv (.recv [2, 0, 0, 0, 0, 0, 0, 0, 7]),
    .recv .recvDone, .recv (.run 0 (some 0)), .recv (.run 0 (some 0)), .recv (.recv [8]),
    .send (.send 9 fun _ => 0), .recv .recvDone, .recv (.run 0 (some 0))]

theorem shown_begin_written_pieces :
    ∃ n, Run (MemoryConnection.step .shipped) (Safe .shipped) create sentInPieces n ∧
      n.rx.frames = [(2, [7, 8])] ∧ n.tx.written = [[7, 8], [9]] ∧
      n.rx.frames <+: n.tx.written.map (fun content => (content.length, content)) ∧
      n.tx.Intact ∧ n.rx.InPlace := by
  have h := Run.of_execWhen (MemoryConnection.step .shipped) (Safe .shipped) create sentInPieces
    (by decide +kernel)
  exact ⟨_, h, by decide +kernel, by decide +kernel,
    shown_begin_written (by decide) (by decide) h⟩

end MemoryConnection

end AsioTcpFrame
