import AsioTcpFrame.Lib.Transition
import AsioTcpFrame.Session

/-! # The sending half of a session

`Sender` is a session that is neither stopped nor fails, with `send_buf` as a byte FIFO, the
bytes that the socket has taken (`wire`) and the contents that were written, in the order in
which the writes held `send_mtx` (`written`).  Writes of any number of threads are steps
`write`, one for each time `send_mtx` is held; the write handler is the step `sendDone`.

`WriteChain` is the agreement of `is_writing`, `send_buf` and the outstanding operations, and
`Sender.Inv` adds that what is on the wire, followed by what is still to be sent, are the frames
written. -/

namespace AsioTcpFrame

open Transition Framing

structure Sender where
  sess : Session
  wire : List Byte
  written : List (List Byte)
deriving DecidableEq, Repr

inductive SenderAct where
  | write (content : List Byte)
  | send (k : ℕ)
  | sendDone
deriving DecidableEq, Repr

namespace Session

/-- How much of `send_buf` the socket has already taken. -/
def performed (s : Session) : ℕ :=
  match s.writes with
  | ⟨_, some k⟩ :: _ => k
  | _ => 0

/-- What is still to be given to the socket. -/
def unsent (s : Session) : List Byte := s.sendBuf.drop s.performed

/-- Either nothing is buffered and no write is outstanding, or exactly one write is, of bytes at
the front of the buffer. -/
inductive WriteChain (s : Session) : Prop
  | idle : s.writes = [] → s.sendBuf = [] → s.isWriting = false → WriteChain s
  | busy {op : WriteOp} : s.writes = [op] → s.isWriting = true → op.data ≠ [] →
      op.data <+: s.sendBuf → (∀ k, op.sent = some k → k ≤ op.data.length) → WriteChain s

variable {s t : Session} {cfg : Config}

/-- **No data is parked**: something is buffered only while a write is outstanding. -/
theorem WriteChain.buffered (h : WriteChain s) : s.sendBuf ≠ [] ↔ s.writes.length = 1 := by
  cases h with
  | idle hw hb _ => simp [hw, hb]
  | busy hw _ hne hpre _ =>
      refine ⟨fun _ => by simp [hw], ?_⟩
      intro _ hb
      rw [hb] at hpre
      exact hne (List.prefix_nil.mp hpre)

theorem WriteChain.one (h : WriteChain s) : s.writes.length ≤ 1 := by
  cases h with
  | idle hw _ _ => simp [hw]
  | busy hw _ _ _ _ => simp [hw]

theorem WriteChain.idle_of (h : WriteChain s) (hw : s.isWriting = false) : s.writes = [] := by
  cases h with
  | idle hnil _ _ => exact hnil
  | busy _ hbusy _ _ _ => rw [hw] at hbusy; cases hbusy

theorem WriteChain.data_prefix (h : WriteChain s) {op : WriteOp} (hop : op ∈ s.writes) :
    op.data <+: s.sendBuf := by
  cases h with
  | idle hw _ _ => rw [hw] at hop; cases hop
  | busy hw _ _ hpre _ =>
      rw [hw] at hop
      rw [List.mem_singleton.mp hop]
      exact hpre

theorem WriteChain.sent_le (h : WriteChain s) {op : WriteOp} (hop : op ∈ s.writes) {k : ℕ}
    (hk : op.sent = some k) : k ≤ op.data.length := by
  cases h with
  | idle hw _ _ => rw [hw] at hop; cases hop
  | busy hw _ _ _ hle =>
      rw [hw] at hop
      obtain rfl := List.mem_singleton.mp hop
      exact hle k hk

/-- `doWrite` with no write outstanding starts one of all that is buffered, or none. -/
theorem writeChain_doWrite (hs : s.stopped = false) (hw : s.writes = []) :
    WriteChain s.doWrite ∧ s.doWrite.unsent = s.sendBuf := by
  unfold doWrite
  rw [if_neg (by simp [hs])]
  split
  · next hb =>
    refine ⟨.idle hw (List.length_eq_zero_iff.mp hb) rfl, ?_⟩
    simp [unsent, performed, hw]
  · next hb =>
    refine ⟨.busy (by simp [hw]; rfl) rfl (fun h => hb (by simpa using h)) (List.prefix_refl _)
      (fun k hk => by cases hk), ?_⟩
    simp [unsent, performed, hw]

theorem writeChain_write (cfg : Config) (h : WriteChain s) (hs : s.stopped = false)
    (content : List Byte) :
    WriteChain (s.write cfg content) ∧
      (s.write cfg content).unsent = s.unsent ++ cfg.codec.frame content := by
  unfold write writeLocked
  rw [if_neg (by simp [hs])]
  cases h with
  | idle hw hb hwr =>
      rw [if_neg (by simp [hwr])]
      have hdo := writeChain_doWrite (s := s.append cfg content) hs hw
      simp only [append, hb] at hdo ⊢
      refine ⟨hdo.1, hdo.2.trans ?_⟩
      simp [unsent, performed, hw, hb]
  | @busy op hw hwr hne hpre hk =>
      rw [if_pos hwr]
      refine ⟨.busy hw hwr hne (hpre.trans (List.prefix_append _ _)) hk, ?_⟩
      have hle : s.performed ≤ s.sendBuf.length := by
        obtain ⟨data, sent⟩ := op
        cases sent with
        | none => simp [performed, hw]
        | some k =>
            have hlen : data.length ≤ s.sendBuf.length := hpre.length_le
            simp only [performed, hw]
            exact (hk k rfl).trans hlen
      simp only [unsent, append, performed] at hle ⊢
      rw [List.drop_append_of_le_length hle]

theorem writeChain_send {k : ℕ} {bytes : List Byte} (h : WriteChain s)
    (hsend : s.send k = some (bytes, t)) : WriteChain t ∧ bytes ++ t.unsent = s.unsent := by
  obtain ⟨data, rest, hw, hk₁, hk, rfl, rfl⟩ := send_eq hsend
  cases h with
  | idle hw' _ _ => rw [hw'] at hw; cases hw
  | @busy op hw' hwr hne hpre _ =>
      rw [hw'] at hw
      obtain ⟨rfl, rfl⟩ := List.cons.inj hw
      refine ⟨.busy rfl hwr hne hpre (fun k' hk' => by cases hk'; exact hk), ?_⟩
      have htake : data.take k = s.sendBuf.take k := by
        obtain ⟨rest, hrest⟩ := hpre
        rw [← hrest, List.take_append_of_le_length hk]
      simp only [unsent, performed, hw', List.drop_zero]
      rw [htake, List.take_append_drop]

/-- The write handler consumes what was taken, and starts the next write. -/
theorem writeChain_sendDone (h : WriteChain s) (hs : s.stopped = false)
    (hdone : s.sendDone = some t) : WriteChain t ∧ t.unsent = s.unsent := by
  obtain ⟨data, k, rest, hw, rfl⟩ := sendDone_eq hdone
  cases h with
  | idle hw' _ _ => rw [hw'] at hw; cases hw
  | @busy op hw' _ _ _ _ =>
      rw [hw'] at hw
      obtain ⟨rfl, rfl⟩ := List.cons.inj hw
      unfold writeHandler writeDone
      rw [if_neg (by simp [hs])]
      have hdo := writeChain_doWrite
        (s := { s with writes := [], sendBuf := s.sendBuf.drop k }) hs rfl
      refine ⟨hdo.1, hdo.2.trans ?_⟩
      simp [unsent, performed, hw']

end Session

namespace Sender

def create : Sender := ⟨Session.create, [], []⟩

def step (cfg : Config) (n : Sender) : SenderAct → Option Sender
  | .write content => some { n with
      sess := n.sess.write cfg content
      written := n.written ++ [content] }
  | .send k => (n.sess.send k).map fun r => { n with sess := r.2, wire := n.wire ++ r.1 }
  | .sendDone => n.sess.sendDone.map fun s => { n with sess := s }

/-- What holds in every state of a sender. -/
structure Inv (cfg : Config) (n : Sender) : Prop where
  stopped : n.sess.stopped = false
  socketOpen : n.sess.socketOpen = true
  chain : n.sess.WriteChain
  bytes : n.wire ++ n.sess.unsent = cfg.codec.stream n.written

variable {cfg : Config} {n n' : Sender} {a : SenderAct}

theorem inv_create : Inv cfg create where
  stopped := rfl
  socketOpen := rfl
  chain := .idle rfl rfl rfl
  bytes := rfl

theorem Inv.step (h : Inv cfg n) (hstep : n.step cfg a = some n') :
    Inv cfg n' := by
  cases a with
  | write content =>
      cases hstep
      obtain ⟨hchain, hunsent⟩ := Session.writeChain_write cfg h.chain h.stopped content
      refine ⟨by simp [h.stopped], by simp [h.socketOpen], hchain, ?_⟩
      simp only [hunsent, LenCodec.stream_append, LenCodec.stream_cons, LenCodec.stream_nil,
        List.append_nil, ← h.bytes, List.append_assoc]
  | send k =>
      obtain ⟨⟨bytes, s⟩, hsend, rfl⟩ := Option.map_eq_some_iff.mp hstep
      obtain ⟨hchain, hunsent⟩ := Session.writeChain_send h.chain hsend
      have hbytes : n.wire ++ bytes ++ s.unsent = cfg.codec.stream n.written := by
        rw [List.append_assoc, hunsent, h.bytes]
      obtain ⟨data, rest, -, -, -, -, rfl⟩ := Session.send_eq hsend
      exact ⟨h.stopped, h.socketOpen, hchain, hbytes⟩
  | sendDone =>
      obtain ⟨s, hdone, rfl⟩ := Option.map_eq_some_iff.mp hstep
      obtain ⟨hchain, hunsent⟩ := Session.writeChain_sendDone h.chain h.stopped hdone
      have hbytes : n.wire ++ s.unsent = cfg.codec.stream n.written := by rw [hunsent, h.bytes]
      obtain ⟨data, k, rest, -, rfl⟩ := Session.sendDone_eq hdone
      exact ⟨by simp [h.stopped], by simp [h.socketOpen], hchain, hbytes⟩

theorem wire_mono (hstep : n.step cfg a = some n') : n.wire <+: n'.wire := by
  cases a with
  | write content => cases hstep; exact List.prefix_refl _
  | send k =>
      obtain ⟨r, -, rfl⟩ := Option.map_eq_some_iff.mp hstep
      exact List.prefix_append _ _
  | sendDone =>
      obtain ⟨s, -, rfl⟩ := Option.map_eq_some_iff.mp hstep
      exact List.prefix_refl _

theorem mem_written (hstep : n.step cfg a = some n') {p : List Byte} (hp : p ∈ n'.written) :
    p ∈ n.written ∨ a = .write p := by
  cases a with
  | write content =>
      cases hstep
      rcases List.mem_append.mp hp with hp | hp
      · exact Or.inl hp
      · exact Or.inr (by rw [List.mem_singleton.mp hp])
  | send k =>
      obtain ⟨r, -, rfl⟩ := Option.map_eq_some_iff.mp hstep
      exact Or.inl hp
  | sendDone =>
      obtain ⟨s, -, rfl⟩ := Option.map_eq_some_iff.mp hstep
      exact Or.inl hp

end Sender

end AsioTcpFrame
