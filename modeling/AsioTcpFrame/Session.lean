import AsioTcpFrame.Lib.Incremental
import AsioTcpFrame.Config

/-! # A session

`Session` holds the state of one connection: the half-decoded header and the received bytes,
the bytes to be sent, the stop flag, and the operations that are outstanding on its socket.
The two `asio::streambuf`s are byte FIFOs here (`Streambuf.lean` is the model of what they do
in memory).  `stop_mtx` is used as a flag: it is held until `stop` is called, so `stopped` says
that it is free (`StopFlag.lean` is the model of the steps that test it).

The functions are those of `session.cpp`.  A completion handler that calls user code in its
middle is given in pieces: `turn` is one turn of the `while (true)` of the read handler, up to
the call of `read_callback`, and `consumeBody` is what the handler does after that call.
`readLoop` is the whole loop. -/

namespace AsioTcpFrame

open Framing Incremental

/-- One call of `read_callback`: the length it is given, and as many bytes. -/
structure Frame where
  length : ℕ
  content : List Byte
  content_length : content.length = length
deriving DecidableEq, Repr

/-- The frame as it was on the wire. -/
def Frame.bytes (cfg : Config) (f : Frame) : List Byte := cfg.codec.enc f.length ++ f.content

theorem Frame.bytes_eq (cfg : Config) (f : Frame) : f.bytes cfg = cfg.codec.frame f.content := by
  rw [LenCodec.frame, f.content_length]; rfl

theorem Frame.flatMap_bytes (cfg : Config) (fs : List Frame) :
    fs.flatMap (Frame.bytes cfg) = cfg.codec.stream (fs.map Frame.content) := by
  rw [LenCodec.stream, List.flatMap_map]
  exact congrArg (fs.flatMap ·) (funext (Frame.bytes_eq cfg))

/-- An outstanding `async_write_some`: the bytes its buffer held when it was started, and how
many of them the socket has taken, once it has. -/
structure WriteOp where
  data : List Byte
  sent : Option ℕ
deriving DecidableEq, Repr

/-- An outstanding `async_read_some`: the bytes it has got, once it has. -/
abbrev ReadOp := Option (List Byte)

/-- The state of a `Session`; `reads` and `writes` are the operations outstanding on its socket. -/
structure Session where
  isReadingHead : Bool
  isWriting : Bool
  bodylen : ℕ
  stopped : Bool
  socketOpen : Bool
  recvBuf : List Byte
  sendBuf : List Byte
  reads : List ReadOp
  writes : List WriteOp
deriving DecidableEq, Repr

namespace Session

/-- `Session::Session`: the socket is given, `stop_mtx` is locked. -/
def create : Session where
  isReadingHead := true
  isWriting := false
  bodylen := 0
  stopped := false
  socketOpen := true
  recvBuf := []
  sendBuf := []
  reads := []
  writes := []

/-- `Session::stop`. -/
def stop (s : Session) : Session :=
  if s.stopped then s else { s with stopped := true, socketOpen := false }

/-- `Session::doRead`: start a read. -/
def doRead (s : Session) : Session :=
  if s.stopped then s else { s with reads := s.reads ++ [none] }

/-- `Session::start`. -/
def start (s : Session) : Session := s.doRead

/-- `Session::doWrite`: start a write of all that is buffered. -/
def doWrite (s : Session) : Session :=
  if s.stopped then s
  else if s.sendBuf.length = 0 then { s with isWriting := false }
  else { s with isWriting := true, writes := s.writes ++ [⟨s.sendBuf, none⟩] }

/-- The `prepare`, the two `memcpy`s and the `commit` of `Session::write`. -/
def append (cfg : Config) (s : Session) (content : List Byte) : Session :=
  { s with sendBuf := s.sendBuf ++ cfg.codec.frame content }

/-- What `Session::write` does while it holds `send_mtx`. -/
def writeLocked (cfg : Config) (s : Session) (content : List Byte) : Session :=
  if s.isWriting then s.append cfg content else (s.append cfg content).doWrite

/-- `Session::write`. -/
def write (cfg : Config) (s : Session) (content : List Byte) : Session :=
  if s.stopped then s else s.writeLocked cfg content

/-- What the write handler does under `send_mtx` when `len` bytes were written. -/
def writeDone (s : Session) (len : ℕ) : Session :=
  doWrite { s with sendBuf := s.sendBuf.drop len }

/-- The write handler, when `len` bytes were written. -/
def writeHandler (s : Session) (len : ℕ) : Session := if s.stopped then s else s.writeDone len

theorem doRead_running {s : Session} (h : s.stopped = false) :
    s.doRead = { s with reads := s.reads ++ [none] } := if_neg (by simp [h])

/-! ### The socket -/

/-- The socket, while it is open, takes `k` bytes of the outstanding write. -/
def send (s : Session) (k : ℕ) : Option (List Byte × Session) :=
  match s.writes with
  | ⟨data, none⟩ :: rest =>
      if s.socketOpen = true ∧ 1 ≤ k ∧ k ≤ data.length then
        some (data.take k, { s with writes := ⟨data, some k⟩ :: rest })
      else none
  | _ => none

/-- The outstanding write completes, and its handler runs. -/
def sendDone (s : Session) : Option Session :=
  match s.writes with
  | ⟨_, some k⟩ :: rest => some (writeHandler { s with writes := rest } k)
  | _ => none

/-- The outstanding read gets between 1 and 1024 bytes, while the socket is open. -/
def recv (s : Session) (bytes : List Byte) : Option Session :=
  match s.reads with
  | none :: rest =>
      if s.socketOpen = true ∧ 1 ≤ bytes.length ∧ bytes.length ≤ 1024 then
        some { s with reads := some bytes :: rest }
      else none
  | _ => none

section socket
variable {s t : Session} {k : ℕ} {bytes : List Byte}

theorem send_eq (h : s.send k = some (bytes, t)) :
    ∃ data rest, s.writes = ⟨data, none⟩ :: rest ∧ 1 ≤ k ∧ k ≤ data.length ∧
      bytes = data.take k ∧ t = { s with writes := ⟨data, some k⟩ :: rest } := by
  unfold send at h
  split at h
  · next data rest hw =>
    split at h
    · next hk => cases h; exact ⟨data, rest, hw, hk.2.1, hk.2.2, rfl, rfl⟩
    · cases h
  · cases h

theorem sendDone_eq (h : s.sendDone = some t) :
    ∃ data k rest, s.writes = ⟨data, some k⟩ :: rest ∧
      t = writeHandler { s with writes := rest } k := by
  unfold sendDone at h
  split at h
  · next data k rest hw => cases h; exact ⟨data, k, rest, hw, rfl⟩
  · cases h

theorem recv_eq (h : s.recv bytes = some t) :
    ∃ rest, s.reads = none :: rest ∧ 1 ≤ bytes.length ∧ bytes.length ≤ 1024 ∧
      t = { s with reads := some bytes :: rest } := by
  unfold recv at h
  split at h
  · next rest hr =>
    split at h
    · next hb => cases h; exact ⟨rest, hr, hb.2.1, hb.2.2, rfl⟩
    · cases h
  · cases h

end socket

/-! ### What the sending half leaves alone -/

/-- What the receiving half works on. -/
structure Input where
  isReadingHead : Bool
  bodylen : ℕ
  recvBuf : List Byte
  reads : List ReadOp

def input (s : Session) : Input := ⟨s.isReadingHead, s.bodylen, s.recvBuf, s.reads⟩

section frame
variable (cfg : Config) (s : Session) (content : List Byte) (len : ℕ)

@[simp] theorem stop_input : s.stop.input = s.input := by unfold stop; split <;> rfl

@[simp] theorem doWrite_input : s.doWrite.input = s.input := by
  unfold doWrite; split
  · rfl
  · split <;> rfl

@[simp] theorem writeLocked_input : (s.writeLocked cfg content).input = s.input := by
  unfold writeLocked; split
  · rfl
  · rw [doWrite_input]; rfl

@[simp] theorem write_input : (s.write cfg content).input = s.input := by
  unfold write; split
  · rfl
  · exact writeLocked_input cfg s content

@[simp] theorem writeHandler_input : (s.writeHandler len).input = s.input := by
  unfold writeHandler; split
  · rfl
  · rw [writeDone, doWrite_input]; rfl

@[simp] theorem stop_stopped : s.stop.stopped = true := by
  unfold stop; split
  · next h => exact h
  · rfl

@[simp] theorem doRead_stopped : s.doRead.stopped = s.stopped := by
  unfold doRead; split <;> rfl

@[simp] theorem doWrite_stopped : s.doWrite.stopped = s.stopped := by
  unfold doWrite; split
  · rfl
  · split <;> rfl

@[simp] theorem writeLocked_stopped : (s.writeLocked cfg content).stopped = s.stopped := by
  unfold writeLocked; split
  · rfl
  · rw [doWrite_stopped]; rfl

@[simp] theorem write_stopped : (s.write cfg content).stopped = s.stopped := by
  unfold write; split
  · rfl
  · exact writeLocked_stopped cfg s content

@[simp] theorem writeHandler_stopped : (s.writeHandler len).stopped = s.stopped := by
  unfold writeHandler; split
  · rfl
  · rw [writeDone, doWrite_stopped]

@[simp] theorem doRead_sendBuf : s.doRead.sendBuf = s.sendBuf := by
  unfold doRead; split <;> rfl

@[simp] theorem doWrite_sendBuf : s.doWrite.sendBuf = s.sendBuf := by
  unfold doWrite; split
  · rfl
  · split <;> rfl

@[simp] theorem writeLocked_sendBuf :
    (s.writeLocked cfg content).sendBuf = s.sendBuf ++ cfg.codec.frame content := by
  unfold writeLocked; split
  · rfl
  · rw [doWrite_sendBuf]; rfl

@[simp] theorem writeDone_sendBuf : (s.writeDone len).sendBuf = s.sendBuf.drop len := by
  rw [writeDone, doWrite_sendBuf]

@[simp] theorem doWrite_socketOpen : s.doWrite.socketOpen = s.socketOpen := by
  unfold doWrite; split
  · rfl
  · split <;> rfl

@[simp] theorem write_socketOpen : (s.write cfg content).socketOpen = s.socketOpen := by
  unfold write writeLocked; split
  · rfl
  · split
    · rfl
    · rw [doWrite_socketOpen]; rfl

@[simp] theorem writeHandler_socketOpen : (s.writeHandler len).socketOpen = s.socketOpen := by
  unfold writeHandler; split
  · rfl
  · rw [writeDone, doWrite_socketOpen]

end frame

/-! ### The read handler -/

/-- `recv_buf.commit`, with the bytes that were read. -/
def commit (s : Session) (bytes : List Byte) : Session := { s with recvBuf := s.recvBuf ++ bytes }

/-- One turn of the loop: it ends; or it takes a header; or it calls `read_callback`, with the
body not yet consumed; or it copies a header of which some bytes have not been received. -/
inductive Turn where
  | brk
  | overread
  | head (s : Session)
  | body (f : Frame) (s : Session)

/-- One turn of the `while (true)`.  The guard of the header branch is
`recv_buf.size() >= sizeof(hlen)`, where `hlen` is the `size_t` that holds `sizeof(PakSize)`. -/
def turn (cfg : Config) (s : Session) : Turn :=
  if s.isReadingHead then
    if cfg.sizeT ≤ s.recvBuf.length then
      if cfg.pakSize ≤ s.recvBuf.length then
        .head { s with
          isReadingHead := false
          bodylen := cfg.codec.dec (s.recvBuf.take cfg.pakSize)
          recvBuf := s.recvBuf.drop cfg.pakSize }
      else .overread
    else .brk
  else
    if h : s.bodylen ≤ s.recvBuf.length then
      .body ⟨s.bodylen, s.recvBuf.take s.bodylen, by simp [h]⟩ { s with isReadingHead := true }
    else .brk

/-- `recv_buf.consume(bodylen)`, after `read_callback` has returned. -/
def consumeBody (s : Session) : Session := { s with recvBuf := s.recvBuf.drop s.bodylen }

/-- The argument of the `recv_buf.consume` of a turn; `0` when the turn ends the loop. -/
def consumeArg (cfg : Config) (s : Session) : ℕ :=
  match s.turn cfg with
  | .brk => 0
  | .overread => cfg.pakSize
  | .head _ => cfg.pakSize
  | .body _ s' => s'.bodylen

/-! ### What a turn does -/

section turn
variable {cfg : Config} {s s' : Session} {f : Frame}

theorem turn_eq_head (h : s.turn cfg = .head s') :
    s.isReadingHead = true ∧ cfg.sizeT ≤ s.recvBuf.length ∧ cfg.pakSize ≤ s.recvBuf.length ∧
      s' = { s with
        isReadingHead := false
        bodylen := cfg.codec.dec (s.recvBuf.take cfg.pakSize)
        recvBuf := s.recvBuf.drop cfg.pakSize } := by
  unfold turn at h
  split at h
  · next hr =>
    split at h
    · next hsz =>
      split at h
      · next hp => cases h; exact ⟨hr, hsz, hp, rfl⟩
      · cases h
    · cases h
  · split at h <;> cases h

theorem turn_eq_body (h : s.turn cfg = .body f s') :
    s.isReadingHead = false ∧ s.bodylen ≤ s.recvBuf.length ∧ f.length = s.bodylen ∧
      f.content = s.recvBuf.take s.bodylen ∧ s' = { s with isReadingHead := true } := by
  unfold turn at h
  split at h
  · split at h
    · split at h <;> cases h
    · cases h
  · next hr =>
    split at h
    · next hb => cases h; exact ⟨by simpa using hr, hb, rfl, rfl, rfl⟩
    · cases h

theorem turn_eq_brk (h : s.turn cfg = .brk) :
    (s.isReadingHead = true ∧ s.recvBuf.length < cfg.sizeT) ∨
      (s.isReadingHead = false ∧ s.recvBuf.length < s.bodylen) := by
  unfold turn at h
  split at h
  · next hr =>
    split at h
    · split at h <;> cases h
    · next hsz => exact Or.inl ⟨hr, by omega⟩
  · next hr =>
    split at h
    · cases h
    · next hb => exact Or.inr ⟨by simpa using hr, by omega⟩

theorem turn_eq_overread (h : s.turn cfg = .overread) :
    s.isReadingHead = true ∧ cfg.sizeT ≤ s.recvBuf.length ∧ s.recvBuf.length < cfg.pakSize := by
  unfold turn at h
  split at h
  · next hr =>
    split at h
    · next hsz =>
      split at h
      · cases h
      · next hp => exact ⟨hr, hsz, by omega⟩
    · cases h
  · split at h <;> cases h

/-- More input does not change a turn that could be taken without it. -/
theorem turn_commit_head (c : List Byte) (h : s.turn cfg = .head s') :
    (s.commit c).turn cfg = .head (s'.commit c) := by
  obtain ⟨hr, hsz, hp, rfl⟩ := turn_eq_head h
  have hsz' : cfg.sizeT ≤ (s.recvBuf ++ c).length := by simp; omega
  have hp' : cfg.pakSize ≤ (s.recvBuf ++ c).length := by simp; omega
  simp only [turn, commit, hr, if_true, hsz', hp', List.take_append_of_le_length hp,
    List.drop_append_of_le_length hp]

theorem turn_commit_body (c : List Byte) (h : s.turn cfg = .body f s') :
    (s.commit c).turn cfg = .body f (s'.commit c) := by
  obtain ⟨hr, hb, hlen, hcontent, rfl⟩ := turn_eq_body h
  have hb' : s.bodylen ≤ (s.recvBuf ++ c).length := by simp; omega
  obtain ⟨length, content, _⟩ := f
  simp only at hlen hcontent
  subst hlen hcontent
  simp only [turn, commit, hr, Bool.false_eq_true, if_false, hb', dif_pos,
    List.take_append_of_le_length hb]

theorem consumeBody_commit (c : List Byte) (h : s.bodylen ≤ s.recvBuf.length) :
    (s.commit c).consumeBody = s.consumeBody.commit c := by
  simp only [commit, consumeBody, List.drop_append_of_le_length h]

end turn

/-! ### The loop -/

/-- The receiving half of a session as a decoder.  It stops where the loop ends, and also where
the next turn would read a header that has not been received in full. -/
def decoder (cfg : Config) : Decoder Session Byte Frame where
  turn s :=
    match s.turn cfg with
    | .head s' => some (none, s')
    | .body f s' => some (some f, s'.consumeBody)
    | _ => none
  push := commit
  size s := 2 * s.recvBuf.length + if s.isReadingHead then 0 else 1
  push_nil s := by simp [commit]
  push_append s b c := by simp [commit]
  turn_size {s o s'} h := by
    have hpos := cfg.pakSize_pos
    split at h
    · next hturn =>
      obtain ⟨hr, -, hp, rfl⟩ := turn_eq_head hturn
      cases h
      simp [hr]
      omega
    · next hturn =>
      obtain ⟨hr, -, -, -, rfl⟩ := turn_eq_body hturn
      cases h
      simp only [hr, consumeBody, List.length_drop, Bool.false_eq_true, if_false, if_true]
      omega
    · cases h
  turn_push {s o s'} c h := by
    split at h
    · next hturn =>
      cases h
      simp only [turn_commit_head c hturn]
    · next f t hturn =>
      cases h
      have hbody := turn_commit_body c hturn
      obtain ⟨-, hb, -, -, rfl⟩ := turn_eq_body hturn
      simp only [hbody, consumeBody_commit c (s := { s with isReadingHead := true }) hb]
    · cases h

/-- The loop of the read handler: the frames it hands to `read_callback`, and the state it
leaves. -/
def readLoop (cfg : Config) (s : Session) : List Frame × Session := (decoder cfg).drain s

/-- The read handler when `bytes` were read and nothing stops the session meanwhile. -/
def readHandler (cfg : Config) (s : Session) (bytes : List Byte) : List Frame × Session :=
  if s.stopped then ([], s)
  else ((readLoop cfg (s.commit bytes)).1, (readLoop cfg (s.commit bytes)).2.doRead)

/-- The outstanding read completes, with between 1 and 1024 bytes, and its handler runs. -/
def readDone (cfg : Config) (s : Session) (bytes : List Byte) : Option (List Frame × Session) :=
  match s.reads with
  | [] => none
  | _ :: rest =>
      if 1 ≤ bytes.length ∧ bytes.length ≤ 1024 then
        some (readHandler cfg { s with reads := rest } bytes)
      else none

/-- Successive reads. -/
def receive (cfg : Config) (s : Session) : List (List Byte) → Option (List Frame × Session)
  | [] => some ([], s)
  | c :: cs => do
      let (fs, s₁) ← s.readDone cfg c
      let (gs, s₂) ← s₁.receive cfg cs
      pure (fs ++ gs, s₂)

end Session

end AsioTcpFrame
