import AsioTcpFrame.ReceiveBuffer

/-! # How large the receive buffer gets

`prepare` makes the vector of `recv_buf` larger when there is no room, even after the data were moved to
the front.  The loop of the read handler ends only when less than a header, or less than the frame that
was announced, is in the buffer; so a read that is started behind that adds its 1024 bytes to no more
than what one header or one frame lacks a byte of (`Small.run`), and `stays_small` is the bound for every
run. -/

namespace AsioTcpFrame

open Transition Window Streambuf

theorem Streambuf.consume_bytes (sb : Streambuf) (k : ℕ) : (sb.consume k).bytes = sb.bytes := by
  have hconsume : ∃ gptr, sb.consume k = { sb with gptr := gptr } := ⟨_, rfl⟩
  obtain ⟨gptr, hconsume⟩ := hconsume
  rw [hconsume]

theorem Streambuf.commit_bytes (sb : Streambuf) (k : ℕ) : (sb.commit k).bytes = sb.bytes := by
  have hcommit : ∃ pptr, sb.commit k = { sb with pptr := pptr } := ⟨_, rfl⟩
  obtain ⟨pptr, hcommit⟩ := hcommit
  rw [hcommit]

theorem Streambuf.length_prepare {sb : Streambuf} {grow : Option ℕ} {n : ℕ} (h : WF sb) (hn : 0 < n) :
    (sb.prepare grow n).1.bytes.length ≤ max sb.bytes.length (sb.pptr - sb.gptr + n) := by
  have hput := h.put; have hpend := h.pend
  obtain ⟨-, hlen, -⟩ := h.moved
  by_cases hroom : sb.Room n
  · rw [prepare_room h hroom]
    exact le_max_left _ _
  · rw [prepare_eq h hroom]
    split
    · split
      · have hone : max (sb.pptr - sb.gptr + n) 1 = sb.pptr - sb.gptr + n := by omega
        rw [hone]
        by_cases hres : sb.pptr - sb.gptr + n ≤ sb.moved.capacity
        · simp only [resize, if_pos hres, setPointers, List.length_append, List.length_take,
            List.length_replicate]
          omega
        · cases grow with
          | none => simp [resize, hres, hlen]
          | some more =>
              simp only [resize, if_neg hres, Option.map_some, setPointers, List.length_append,
                List.length_take, List.length_replicate]
              omega
      · exact hlen.le.trans (le_max_left _ _)
    · exact hlen.le.trans (le_max_left _ _)

namespace MemoryReceiver

variable {cfg : Config} {n n' : MemoryReceiver} {g : Traffic} {m : Live Empty}
  {a : MemoryReceiverAct} {grow : Option ℕ}

/-- The vector has at most `b` bytes, and nothing is buffered before `start`. -/
structure Small (b : ℕ) (n : MemoryReceiver) : Prop where
  bytes : n.buf.bytes.length ≤ b
  fresh : n.started = false → n.buf.data = []

theorem Small.congr {b : ℕ} (h : n.Small b) (hlen : n'.buf.bytes.length = n.buf.bytes.length)
    (hs : n'.started = false → n.started = false ∧ n'.buf = n.buf) : n'.Small b :=
  ⟨hlen.trans_le h.bytes, fun hn => by rw [(hs hn).2]; exact h.fresh (hs hn).1⟩

theorem doRead_started (n : MemoryReceiver) (grow : Option ℕ) :
    (n.doRead grow).started = n.started := by
  unfold doRead
  split
  · rfl
  · split <;> rfl

theorem Matches.started_of_readers (h : n.Matches g m) (hchain : m.ReadChain) (hr : 0 < m.readers) :
    n.started = true := by
  by_contra hs
  have hidle := hchain.idle (h.started.trans (by simpa using hs))
  omega

theorem bytes_doRead {k : ℕ} (h : n.buf.WF) (hk : n.buf.data.length ≤ k) :
    (n.doRead grow).buf.bytes.length ≤ max n.buf.bytes.length (k + 1024) := by
  have hlen : (n.buf.prepare grow 1024).1.bytes.length ≤
      max n.buf.bytes.length (n.buf.pptr - n.buf.gptr + 1024) := length_prepare h (by decide)
  rw [h.length_data] at hk
  unfold doRead
  split
  · exact le_max_left _ _
  · split
    all_goals
      next buf hprep =>
        rw [hprep] at hlen
        show buf.bytes.length ≤ _
        exact hlen.trans (max_le_max_left _ (by omega))

/-- The loop ends with less than a header or a frame in the buffer. -/
theorem Small.run {b L : ℕ} (h : n.Small b) (hmatch : n.Matches g m) (hchain : m.ReadChain)
    (hb : max cfg.sizeT L + 1023 ≤ b) (hL : n.bodylen ≤ L) {i : ℕ}
    (hstep : n.run cfg i grow = some n') : n'.Small b := by
  have hb' : ∀ k, k < max cfg.sizeT L → max n.buf.bytes.length (k + 1024) ≤ b := by
    intro k hk
    exact max_le h.bytes (by omega)
  have hsize : n.buf.size = n.buf.data.length := by
    rw [hmatch.wf.length_data, hmatch.wf.size_eq]
  have hstarted : ∀ x ∈ n.running, x.abs.isReader = true → n.started = true := by
    intro x hx hr
    have hmem : x.abs ∈ m.running := by rw [hmatch.running]; exact List.mem_map_of_mem hx
    have hpos : 0 < m.running.countP Activation.isReader := List.countP_pos_iff.mpr ⟨_, hmem, hr⟩
    apply hmatch.started_of_readers hchain
    unfold Live.readers
    omega
  cases hact : n.running[i]? with
  | none => simp [MemoryReceiver.run, hact] at hstep
  | some x =>
      simp only [MemoryReceiver.run, hact] at hstep
      cases x with
      | loop =>
          have hs := hstarted _ (List.mem_of_getElem? hact) rfl
          have hread : ∀ k, n.buf.data.length ≤ k → k < max cfg.sizeT L →
              ((n.doRead grow).leave i).Small b := by
            intro k hk hlt
            refine ⟨(bytes_doRead hmatch.wf hk).trans (hb' k hlt), ?_⟩
            intro hn
            have hstarted := doRead_started n grow
            rw [hs] at hstarted
            rw [leave] at hn
            rw [hstarted] at hn
            cases hn
          dsimp only at hstep
          split at hstep
          · split at hstep
            · split at hstep
              · cases hstep
                exact h.congr (congrArg List.length (consume_bytes _ _))
                  fun hn => absurd hs (by simpa using hn)
              · cases hstep
            · next hlt =>
              cases hstep
              exact hread _ (le_refl _) (lt_max_of_lt_left (by rwa [← hsize, ← not_le]))
          · split at hstep
            · cases hstep
              exact h.congr rfl fun hn => ⟨hn, rfl⟩
            · next hlt =>
              cases hstep
              have hdata : n.buf.data.length < n.bodylen := by rwa [← hsize, ← not_le]
              exact hread _ (le_refl _) (lt_max_of_lt_right (hdata.trans_le hL))
      | reading block offset length shown =>
          have hs := hstarted _ (List.mem_of_getElem? hact) rfl
          cases hstep
          exact h.congr (congrArg List.length (consume_bytes _ _))
            fun hn => absurd hs (by simpa using hn)
      | failing =>
          cases hstep
          exact h.congr rfl fun hn => ⟨hn, rfl⟩

/-- **What a step adds to the vector**: no more than the room of one read. -/
theorem Small.step {b L : ℕ} (h : n.Small b) (hmatch : n.Matches g m) (hchain : m.ReadChain)
    (hb : max cfg.sizeT L + 1023 ≤ b) (hL : n.bodylen ≤ L) (hstep : n.step cfg a = some n') :
    n'.Small b := by
  have hreads : n.reads ≠ [] → n.started = true := by
    intro hne
    have hpos : 0 < m.sess.reads.length := by
      rw [hmatch.reads, List.length_map]
      exact List.length_pos_iff.mpr hne
    apply hmatch.started_of_readers hchain
    unfold Live.readers
    omega
  cases a with
  | start grow =>
      simp only [MemoryReceiver.step] at hstep
      split at hstep
      · cases hstep
      · next hs =>
        cases hstep
        have hpos := cfg.sizeT_pos
        have hnil : n.buf.data = [] := h.fresh (by simpa using hs)
        have hlen : n.buf.data.length ≤ 0 := by rw [hnil]; exact le_refl _
        refine ⟨(bytes_doRead hmatch.wf hlen).trans (max_le h.bytes (by omega)), by simp⟩
  | stop =>
      cases hstep
      split
      · exact h
      · exact h.congr rfl fun hn => ⟨hn, rfl⟩
  | tryLock =>
      simp only [MemoryReceiver.step] at hstep
      split at hstep
      · cases hstep
        exact h.congr rfl fun hn => ⟨hn, rfl⟩
      · cases hstep
  | unlock =>
      simp only [MemoryReceiver.step] at hstep
      split at hstep
      · cases hstep
        exact h.congr rfl fun hn => ⟨hn, rfl⟩
      · cases hstep
  | recv bytes =>
      simp only [MemoryReceiver.step, MemoryReceiver.recv] at hstep
      split at hstep
      · next op rest hr =>
        split at hstep
        · next hop =>
          cases hstep
          obtain ⟨hblock, hoffset, hsize, hfits, -⟩ := hmatch.rooms op (by simp [hr])
          have hpend := hmatch.wf.pend
          have hs := hreads (by simp [hr])
          unfold Room at hfits
          refine h.congr ?_ fun hn => absurd hs (by simpa using hn)
          rw [if_pos hblock]
          exact length_overwrite (by omega)
        · cases hstep
      · cases hstep
  | recvDone =>
      simp only [MemoryReceiver.step] at hstep
      split at hstep
      · next hr =>
        have hs := hreads (by simp [hr])
        split at hstep
        · cases hstep
          exact h.congr rfl fun hn => ⟨hn, rfl⟩
        · cases hstep
          exact h.congr (congrArg List.length (commit_bytes _ _))
            fun hn => absurd hs (by simpa using hn)
      · cases hstep
  | recvFail ec =>
      simp only [MemoryReceiver.step] at hstep
      split at hstep
      · split at hstep
        · cases hstep
          exact h.congr rfl fun hn => ⟨hn, rfl⟩
        · cases hstep
          exact h.congr rfl fun hn => ⟨hn, rfl⟩
      · cases hstep
  | run i grow => exact h.run hmatch hchain hb hL hstep

/-- **The buffer stays small.**  When no header announces more than `L` bytes, the vector never has more
than `L` bytes, or a header, and 1023 more: however much is received, whatever it is and however it
is cut. -/
theorem stays_small (hp : cfg.pakSize < 2 ^ 31) {L : ℕ} {acts : List MemoryReceiverAct}
    (h : Run (MemoryReceiver.step cfg) (fun k a => k.Safe a ∧ k.bodylen ≤ L) create acts n) :
    n.buf.bytes.length ≤ max cfg.sizeT L + 1023 := by
  have hI : (∃ g m, n.Matches g m ∧ m.ReadChain) ∧ n.Small (max cfg.sizeT L + 1023) := by
    apply h.invariant (I := fun n => (∃ g m, n.Matches g m ∧ m.ReadChain) ∧
      n.Small (max cfg.sizeT L + 1023))
    · refine ⟨⟨_, _, matches_create, Live.readChain_create⟩, ?_, fun _ => by decide⟩
      have hlen : create.buf.bytes.length = 128 := List.length_replicate
      omega
    · rintro n a n' ⟨⟨g, m, hmatch, hchain⟩, hsmall⟩ ⟨hG, hL⟩ hstep
      obtain ⟨m', hstep', hmatch'⟩ := hmatch.step hchain hp hG hstep
      exact ⟨⟨_, m', hmatch', hchain.step (Live.Step.of_step hstep')⟩,
        hsmall.step hmatch hchain (le_refl _) hL hstep⟩
  exact hI.2.bytes

theorem stays_small_reallocates :
    ∃ n, Run (MemoryReceiver.step .shipped) (fun k a => k.Safe a ∧ k.bodylen ≤ 120) create
        readReallocates n ∧
      n.buf.bytes.length = 1124 ∧ n.buf.bytes.length ≤ max Config.shipped.sizeT 120 + 1023 := by
  have h := Run.of_execWhen (MemoryReceiver.step .shipped) (fun k a => k.Safe a ∧ k.bodylen ≤ 120)
    create readReallocates (by decide +kernel)
  exact ⟨_, h, by decide +kernel, stays_small (by decide) h⟩

end MemoryReceiver

end AsioTcpFrame
