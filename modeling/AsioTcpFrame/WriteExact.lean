import AsioTcpFrame.SendBuffer

/-! # What one `write` leaves in `send_buf`

`Session::write` should append one frame to `send_buf`, or have no effect when `prepare` throws
(`WriteExact`).  There are two ways in which it does not.

* `commit` hands the length to `pbump`, which takes an `int`.  A length that does not survive the
  way to `int` and back moves `pptr` to another place.
* `reserve` moves the queued bytes to the front of the vector before it asks for memory, and only
  afterwards sets the pointers.  When it throws in between, `gptr` still points to where the bytes
  were; they are what they were only if they repeat with the period `gptr` (`Repeats`).

`writeExact_iff` says that there is no third way, in whatever state short writes and short partial
sends have left the buffer. -/

namespace AsioTcpFrame

open Transition Framing Window Streambuf

namespace Streambuf

variable {sb : Streambuf} {n : ℕ} {xs : List Byte}

/-- `prepare` returns when there is room, or memory for it. -/
theorem prepare_returns_iff (h : WF sb) (grow : Option ℕ) (n : ℕ) :
    (sb.prepare grow n).2 = true ↔ sb.Room n ∨ sb.Fits grow n := by
  by_cases hn : sb.Room n ∨ sb.Fits grow n
  · obtain ⟨sb', hprep, -⟩ := prepare_returns h hn
    simp only [hprep, hn]
  · obtain ⟨hroom, hfits⟩ := not_or.mp hn
    simp only [prepare_throws h hroom hfits, hn, Bool.false_eq_true]

/-- **`commit`** makes the buffer longer by what was stored exactly when the length survives the way
to `int` and back. -/
theorem size_commit_store (h : WF sb) (hroom : sb.Room xs.length) :
    ((sb.store xs).commit xs.length).size = sb.size + xs.length ↔
      toSize (toInt xs.length) = xs.length := by
  have hget := h.get; have hput := h.put; have hpend := h.pend
  have hsize := h.size; have hmax := h.maxSize
  have hle : xs.length ≤ sb.epptr - sb.pptr := Nat.le_sub_of_add_le' hroom
  have hroom' : toSize ((sb.epptr : ℤ) - sb.pptr) = sb.epptr - sb.pptr := h.room_eq
  have hmin : min xs.length (sb.epptr - sb.pptr) = xs.length := Nat.min_eq_left hle
  rw [h.size_eq]
  simp only [Streambuf.size, commit, store, hroom', hmin]
  generalize toInt (xs.length : ℤ) = k
  unfold toSize
  omega

theorem data_commit_store (h : WF sb)
    (hsize : ((sb.store xs).commit xs.length).size = sb.size + xs.length) :
    ((sb.store xs).commit xs.length).data = sb.data ++ xs := by
  have hget := h.get; have hput := h.put; have hpend := h.pend
  have hgp : sb.gptr + (sb.pptr - sb.gptr) = sb.pptr := by omega
  rw [data, hsize, h.size_eq, h.data_eq]
  show window (overwrite sb.bytes sb.pptr xs) sb.gptr (sb.pptr - sb.gptr + xs.length) = _
  rw [window_add, hgp, window_overwrite (by omega), window_overwrite_of_le (by omega) (by omega)]

end Streambuf

namespace MemorySender

variable {cfg : Config} {n n' : MemorySender} {grow : Option ℕ} {content : List Byte}

/-- Lengths for which the cast to `int` in `pbump` does no harm. -/
def Pbumps (len : ℕ) : Prop := len < 2 ^ 31 ∨ 2 ^ 64 - 2 ^ 31 ≤ len

instance (len : ℕ) : Decidable (Pbumps len) := by unfold Pbumps; infer_instance

theorem pbumps_iff {len : ℕ} (h : len < 2 ^ 64) : toSize (toInt len) = len ↔ Pbumps len := by
  unfold toSize toInt Pbumps
  rw [Int.bmod_def]
  split <;> omega

/-- `lock_guard` around a block that returns or throws: it waits while the mutex is held, and lets
go of it when the block is left, either way. -/
def lockGuard (body : MemorySender → MemorySender × Bool) (n : MemorySender) (sendMtx : Bool) :
    Option (MemorySender × Bool × Bool) :=
  if sendMtx then none else
    let (n, returned) := body n
    some (n, false, returned)

/-- `Session::write` with its lock: the sender, whether `send_mtx` is held, and whether it has
returned or thrown. -/
def writeLocked (cfg : Config) (n : MemorySender) (sendMtx : Bool) (grow : Option ℕ)
    (content : List Byte) : Option (MemorySender × Bool × Bool) :=
  lockGuard (fun n => (n.write cfg grow content,
    (n.buf.prepare grow (toSize (frameLength cfg content))).2)) n sendMtx

/-- **Exact or without effect.**  A `write` that returns has appended one frame to `send_buf`; one
that throws has left the buffer, `is_writing` and the outstanding write as they were.  Either way
`send_mtx` is free afterwards. -/
def WriteExact (cfg : Config) (n : MemorySender) (grow : Option ℕ) (content : List Byte) : Prop :=
  (∃ n', n.writeLocked cfg false grow content = some (n', false, true) ∧
    n'.buf.size = n.buf.size + frameLength cfg content ∧
    n'.buf.data = n.buf.data ++ cfg.codec.frame content) ∨
  (∃ n', n.writeLocked cfg false grow content = some (n', false, false) ∧
    n'.buf.size = n.buf.size ∧ n'.buf.data = n.buf.data ∧
    n'.isWriting = n.isWriting ∧ n'.writes = n.writes)

/-- When `prepare` returns, the length comes through `pbump`; when it throws, what the `memmove` has
written over was the same. -/
def ExactWhen (cfg : Config) (n : MemorySender) (grow : Option ℕ) (content : List Byte) : Prop :=
  if n.Prepares cfg grow content then Pbumps (frameLength cfg content) else n.buf.Repeats

instance : Decidable (n.ExactWhen cfg grow content) := by unfold ExactWhen; infer_instance

/-- Writes and partial sends that `pbump` and `gbump` get right. -/
def Short (cfg : Config) (n : MemorySender) : MemorySenderAct → Prop
  | .write grow content =>
      frameLength cfg content < 2 ^ 64 ∧
        (n.Prepares cfg grow content → frameLength cfg content < 2 ^ 31)
  | .send k _ => k < 2 ^ 31
  | .sendDone => True

instance (cfg : Config) (n : MemorySender) : ∀ a, Decidable (Short cfg n a)
  | .write grow content => inferInstanceAs (Decidable (frameLength cfg content < 2 ^ 64 ∧
      (n.Prepares cfg grow content → frameLength cfg content < 2 ^ 31)))
  | .send k _ => inferInstanceAs (Decidable (k < 2 ^ 31))
  | .sendDone => isTrue trivial

/-! ### What short writes and sends leave -/

/-- The pointers of the buffer are in order, and at most one write of bytes that are still in it is
outstanding. -/
structure Steady (n : MemorySender) : Prop where
  wf : n.buf.WF
  idle : n.isWriting = false → n.writes = []
  one : n.writes.length ≤ 1
  size : ∀ op ∈ n.writes, op.size ≤ n.buf.data.length
  sent : ∀ op ∈ n.writes, ∀ k, op.sent = some k → k ≤ op.size ∧ k < 2 ^ 31

theorem steady_create : Steady create where
  wf := wf_create
  idle := fun _ => rfl
  one := by decide
  size := fun _ hop => by cases hop
  sent := fun _ hop => by cases hop

@[simp] theorem doWrite_buf (n : MemorySender) : n.doWrite.buf = n.buf := by
  unfold doWrite; split <;> rfl

theorem Steady.doWrite (hwf : n.buf.WF) (hw : n.writes = []) : n.doWrite.Steady := by
  have hsize : n.buf.size = n.buf.data.length := by rw [hwf.size_eq, hwf.length_data]
  unfold MemorySender.doWrite
  split
  · exact ⟨hwf, fun _ => hw, by simp [hw], by simp [hw], by simp [hw]⟩
  · refine ⟨hwf, by simp, by simp [hw], ?_, by simp [hw]⟩
    simp [hw, hsize]

theorem Steady.step {a : MemorySenderAct} (h : n.Steady) (hG : Short cfg n a)
    (hstep : n.step cfg a = some n') : n'.Steady := by
  cases a with
  | write grow content =>
      cases hstep
      obtain ⟨hlen, hshort⟩ := hG
      rcases write_cases h.wf hlen with ⟨hn, sb, -, hsb, hroom, hdata, hwrite⟩ | ⟨-, hwrite⟩
      · have hframe := length_frame cfg content
        obtain ⟨hwf, happ, -⟩ := commit_store hsb hroom (by rw [hframe]; exact hshort hn)
        rw [hwrite]
        cases hw : n.isWriting with
        | false => exact Steady.doWrite hwf (h.idle hw)
        | true =>
            refine ⟨hwf, fun hf => ?_, h.one, ?_, h.sent⟩
            · rw [if_pos rfl, appended, hw] at hf
              cases hf
            · intro op hop
              have hle := h.size op hop
              have hdata' : ((sb.store (cfg.codec.frame content)).commit
                  (cfg.codec.frame content).length).data.length =
                    n.buf.data.length + (cfg.codec.frame content).length := by
                rw [happ, hdata, List.length_append]
              rw [if_pos rfl, appended, hdata']
              exact hle.trans (Nat.le_add_right _ _)
      · rw [hwrite]
        have hlen' : n.buf.moved.data.length = n.buf.data.length := by
          rw [h.wf.wf_moved.length_data, h.wf.length_data, h.wf.moved.1]
        exact ⟨h.wf.wf_moved, h.idle, h.one, fun op hop => hlen'.symm ▸ h.size op hop, h.sent⟩
  | send k freed =>
      simp only [MemorySender.step] at hstep
      split at hstep
      · next op rest hw =>
        split at hstep
        · next hk =>
          cases hstep
          have hmem : op ∈ n.writes := by rw [hw]; exact List.mem_cons_self
          have hone := h.one
          rw [hw] at hone
          refine ⟨h.wf, fun hf => ?_, hone, ?_, ?_⟩
          · rw [h.idle hf] at hw
            cases hw
          · intro op' hop'
            rcases List.mem_cons.mp hop' with rfl | hop'
            · exact h.size op hmem
            · exact h.size op' (by rw [hw]; exact List.mem_cons_of_mem _ hop')
          · intro op' hop' k' hsent
            rcases List.mem_cons.mp hop' with rfl | hop'
            · cases hsent
              exact ⟨hk.2.2, hG⟩
            · exact h.sent op' (by rw [hw]; exact List.mem_cons_of_mem _ hop') k' hsent
        · cases hstep
      · cases hstep
  | sendDone =>
      simp only [MemorySender.step] at hstep
      split at hstep
      · next op rest hw =>
        obtain ⟨k, hsent, rfl⟩ := Option.map_eq_some_iff.mp hstep
        have hmem : op ∈ n.writes := by rw [hw]; exact List.mem_cons_self
        have hone := h.one
        rw [hw] at hone
        have hrest : rest = [] := List.length_eq_zero_iff.mp (by simpa using hone)
        obtain ⟨hle, hlt⟩ := h.sent op hmem k hsent
        obtain ⟨hwf, -⟩ := data_consume h.wf (hle.trans (h.size op hmem)) hlt
        exact Steady.doWrite hwf hrest
      · cases hstep

/-! ### The writes that are exact -/

theorem Steady.exact_iff (h : n.Steady) (hlen : frameLength cfg content < 2 ^ 64) :
    n.WriteExact cfg grow content ↔ n.ExactWhen cfg grow content := by
  have hframe := length_frame cfg content
  have htoSize : toSize (frameLength cfg content) = frameLength cfg content :=
    toSize_natCast hlen
  rcases write_cases h.wf hlen with ⟨hn, sb, hprep, hsb, hroom, hdata, hwrite⟩ | ⟨hn, hwrite⟩
  · have hbuf : (n.write cfg grow content).buf =
        (sb.store (cfg.codec.frame content)).commit (cfg.codec.frame content).length := by
      rw [hwrite]
      split
      · rfl
      · rw [doWrite_buf]; rfl
    have hlocked : n.writeLocked cfg false grow content =
        some (n.write cfg grow content, false, true) := by
      rw [hframe] at hprep
      simp only [writeLocked, lockGuard, htoSize, hprep, Bool.false_eq_true, if_false]
    have hsize := size_commit_store hsb hroom
    have hold : sb.size = n.buf.size := by
      rw [hsb.size_eq, h.wf.size_eq, ← hsb.length_data, ← h.wf.length_data, hdata]
    rw [ExactWhen, if_pos hn, ← pbumps_iff hlen, ← hframe, ← hsize, hold, hframe]
    constructor
    · rintro (⟨n', hn', hs, -⟩ | ⟨n', hn', -⟩)
      · rw [hlocked] at hn'
        cases hn'
        rwa [hbuf, hframe] at hs
      · rw [hlocked] at hn'
        cases hn'
    · intro hs
      refine Or.inl ⟨_, hlocked, ?_, ?_⟩
      · rwa [hbuf, hframe]
      · rw [hbuf, ← hdata]
        exact data_commit_store hsb (by rw [hframe, hold]; exact hs)
  · have hthrow : (n.buf.prepare grow (frameLength cfg content)).2 = false := by
      rw [← Bool.not_eq_true, prepare_returns_iff h.wf]
      exact hn
    have hlocked : n.writeLocked cfg false grow content =
        some (n.write cfg grow content, false, false) := by
      simp only [writeLocked, lockGuard, htoSize, hthrow, Bool.false_eq_true, if_false]
    rw [ExactWhen, if_neg hn, ← data_moved_iff h.wf]
    constructor
    · rintro (⟨n', hn', -⟩ | ⟨n', hn', -, hd, -⟩)
      · rw [hlocked] at hn'
        cases hn'
      · rw [hlocked] at hn'
        cases hn'
        rwa [hwrite] at hd
    · intro hd
      refine Or.inr ⟨_, hlocked, ?_, ?_, ?_, ?_⟩
      · rw [hwrite]; exact h.wf.size_moved
      · rw [hwrite]; exact hd
      · rw [hwrite]
      · rw [hwrite]

/-- **When a write is exact.**  After any history of short writes, whether they returned or threw,
and short partial sends, a write of any length either appends its frame or has no effect exactly
when its length comes through `pbump`, or, where `prepare` throws, the bytes that are queued repeat
with the period of what was sent before them. -/
theorem writeExact_iff {acts : List MemorySenderAct}
    (h : Run (MemorySender.step cfg) (Short cfg) create acts n) (grow : Option ℕ)
    (content : List Byte) (hlen : content.length + cfg.pakSize < 2 ^ 64) :
    n.WriteExact cfg grow content ↔ n.ExactWhen cfg grow content :=
  (h.invariant steady_create fun _ _ _ hI hG hstep => hI.step hG hstep).exact_iff hlen

/-- One packet, of which the socket takes one half. -/
def halfSent : List MemorySenderAct :=
  [.write none (List.replicate 80 7 ++ List.replicate 20 8), .send 50 fun _ => 0, .sendDone]

/-- There is room for another packet when the rest has been moved to the front. -/
theorem writeExact_halfSent :
    ∃ n, Run (MemorySender.step .shipped) (Short .shipped) create halfSent n ∧
      ¬ n.buf.Room 28 ∧ n.WriteExact .shipped none (List.replicate 20 9) := by
  have h := Run.of_execWhen (MemorySender.step .shipped) (Short .shipped) create halfSent
    (by decide +kernel)
  exact ⟨_, h, by decide +kernel,
    (writeExact_iff h none (List.replicate 20 9) (by decide)).mpr (by decide +kernel)⟩

/-- There is no memory for a longer packet, and the rest of the first is overwritten.  With memory
for it, a packet of `2 ^ 31` bytes is lost even from an empty buffer. -/
theorem not_writeExact :
    (∃ n, Run (MemorySender.step .shipped) (Short .shipped) create halfSent n ∧
      (n.write .shipped none (List.replicate 100 9)).buf.data ≠ n.buf.data ∧
      ¬ n.WriteExact .shipped none (List.replicate 100 9)) ∧
    ∃ content : List Byte, content.length = 2 ^ 31 ∧
      ¬ create.WriteExact .shipped (some 0) content := by
  constructor
  · have h := Run.of_execWhen (MemorySender.step .shipped) (Short .shipped) create halfSent
      (by decide +kernel)
    have hsteady : Steady _ :=
      h.invariant steady_create fun _ _ _ hI hG hstep => hI.step hG hstep
    refine ⟨_, h, by decide +kernel, ?_⟩
    rw [hsteady.exact_iff (by decide)]
    decide +kernel
  · have hlong : ∀ content : List Byte, content.length = 2 ^ 31 →
        ¬ create.WriteExact .shipped (some 0) content := by
      intro content hlen
      have hframe : frameLength .shipped content = 2 ^ 31 + 8 := by
        rw [frameLength, hlen]; rfl
      have hfits : create.Prepares .shipped (some 0) content := by
        unfold Prepares
        rw [hframe]
        decide
      rw [steady_create.exact_iff (by rw [hframe]; decide), ExactWhen, if_pos hfits, hframe]
      decide
    exact ⟨List.replicate (2 ^ 31) 0, List.length_replicate, hlong _ List.length_replicate⟩

end MemorySender

end AsioTcpFrame
