import AsioTcpFrame.Session

/-! # The receiver on arbitrary input

What a session does with the bytes it receives, whoever sent them.  `Frame.bytes` undoes the
decoding: the frames handed to `read_callback`, back on the wire, followed by what the session
still holds (`undelivered`) are exactly the bytes received.  Together with the fact that the
loop stops only when no further frame is complete (`Settled`), this determines the frames; and
since the loop is an incremental decoder, how the bytes were cut into chunks cannot be seen.

`Loops` is the loop itself, turn by turn; `loops_readLoop` says that it ends, with the result
that `readLoop` computes. -/

namespace AsioTcpFrame

open Framing Incremental

namespace Session

variable {cfg : Config} {s s' t : Session} {f : Frame} {fs : List Frame}

/-- The bytes that were received but not handed on: a header that was taken, and the buffer. -/
def undelivered (cfg : Config) (s : Session) : List Byte :=
  (if s.isReadingHead then [] else cfg.codec.enc s.bodylen) ++ s.recvBuf

/-- No frame is complete in what the session holds. -/
structure Settled (cfg : Config) (s : Session) : Prop where
  head : s.isReadingHead = true → s.recvBuf.length < cfg.sizeT
  body : s.isReadingHead = false → s.recvBuf.length < s.bodylen

/-- The `while (true)` of the read handler, from the head of the loop to its end. -/
inductive Loops (cfg : Config) : Session → List Frame → Session → Prop
  | brk {s : Session} : s.turn cfg = .brk → Loops cfg s [] s
  | head {s s' t : Session} {fs : List Frame} :
      s.turn cfg = .head s' → Loops cfg s' fs t → Loops cfg s fs t
  | body {s s' t : Session} {f : Frame} {fs : List Frame} :
      s.turn cfg = .body f s' → Loops cfg s'.consumeBody fs t → Loops cfg s (f :: fs) t

/-! ### One turn -/

theorem undelivered_head (h : s.turn cfg = .head s') : s'.undelivered cfg = s.undelivered cfg := by
  obtain ⟨hr, -, hp, rfl⟩ := turn_eq_head h
  have henc : cfg.codec.enc (cfg.codec.dec (s.recvBuf.take cfg.pakSize)) =
      s.recvBuf.take cfg.pakSize := cfg.codec.enc_dec (by simp [hp])
  simp only [undelivered, hr, if_true, Bool.false_eq_true, if_false, List.nil_append, henc,
    List.take_append_drop]

theorem undelivered_body (h : s.turn cfg = .body f s') :
    f.bytes cfg ++ s'.consumeBody.undelivered cfg = s.undelivered cfg := by
  obtain ⟨hr, -, hlen, hcontent, rfl⟩ := turn_eq_body h
  simp only [Frame.bytes, undelivered, consumeBody, hr, hlen, hcontent, if_true,
    Bool.false_eq_true, if_false, List.nil_append, List.append_assoc, List.take_append_drop]

theorem consumeArg_le (hcfg : cfg.pakSize ≤ cfg.sizeT) (s : Session) :
    s.consumeArg cfg ≤ s.recvBuf.length := by
  unfold consumeArg
  cases hturn : s.turn cfg with
  | brk => exact Nat.zero_le _
  | overread =>
      have := turn_eq_overread hturn
      dsimp only; omega
  | head s' => exact (turn_eq_head hturn).2.2.1
  | body f s' =>
      obtain ⟨-, hb, -, -, rfl⟩ := turn_eq_body hturn
      exact hb

theorem not_overread (hcfg : cfg.pakSize ≤ cfg.sizeT) (s : Session) : s.turn cfg ≠ .overread := by
  intro h
  have := turn_eq_overread h
  omega

/-! ### The loop -/

theorem decoder_turn_eq_none (h : (decoder cfg).turn s = none) :
    s.turn cfg = .brk ∨ s.turn cfg = .overread := by
  simp only [decoder] at h
  split at h
  · cases h
  · cases h
  · next hhead hbody =>
    cases hturn : s.turn cfg with
    | brk => exact Or.inl rfl
    | overread => exact Or.inr rfl
    | head s' => exact absurd hturn (hhead s')
    | body f s' => exact absurd hturn (hbody f s')

theorem decoder_turn_none (hcfg : cfg.pakSize ≤ cfg.sizeT) (h : (decoder cfg).turn s = none) :
    s.turn cfg = .brk :=
  (decoder_turn_eq_none h).resolve_right (not_overread hcfg s)

theorem readLoop_brk (h : s.turn cfg = .brk) : readLoop cfg s = ([], s) :=
  Decoder.drain_none (by simp only [decoder, h])

theorem readLoop_head (h : s.turn cfg = .head s') : readLoop cfg s = readLoop cfg s' :=
  Decoder.drain_some (o := none) (by simp only [decoder, h])

theorem readLoop_body (h : s.turn cfg = .body f s') :
    readLoop cfg s = (f :: (readLoop cfg s'.consumeBody).1, (readLoop cfg s'.consumeBody).2) :=
  Decoder.drain_some (o := some f) (by simp only [decoder, h])

/-- **The loop ends** from every state, and `readLoop` is what it computes. -/
theorem loops_readLoop (hcfg : cfg.pakSize ≤ cfg.sizeT) (s : Session) :
    Loops cfg s (readLoop cfg s).1 (readLoop cfg s).2 := by
  cases hturn : s.turn cfg with
  | brk => rw [readLoop_brk hturn]; exact .brk hturn
  | overread => exact absurd hturn (not_overread hcfg s)
  | head s' =>
      have hsize : (decoder cfg).size s' < (decoder cfg).size s :=
        (decoder cfg).turn_size (o := none) (by simp only [decoder, hturn])
      rw [readLoop_head hturn]
      exact .head hturn (loops_readLoop hcfg s')
  | body f s' =>
      have hsize : (decoder cfg).size s'.consumeBody < (decoder cfg).size s :=
        (decoder cfg).turn_size (o := some f) (by simp only [decoder, hturn])
      rw [readLoop_body hturn]
      exact .body hturn (loops_readLoop hcfg s'.consumeBody)
termination_by (decoder cfg).size s

/-- Every property of the state that turns keep is kept by the loop. -/
theorem readLoop_induction {I : List Frame → Session → Prop} (h₀ : I [] s)
    (hhead : ∀ fs s s', I fs s → s.turn cfg = .head s' → I fs s')
    (hbody : ∀ fs s f s', I fs s → s.turn cfg = .body f s' → I (fs ++ [f]) s'.consumeBody) :
    I (readLoop cfg s).1 (readLoop cfg s).2 := by
  have hdrain := Decoder.drain_induction (d := decoder cfg) h₀ fun fs s o s' hI h => by
    simp only [decoder] at h
    split at h
    · next hturn => cases h; simpa using hhead _ _ _ hI hturn
    · next hturn => cases h; exact hbody _ _ _ _ hI hturn
    · cases h
  simpa [readLoop] using hdrain

/-- **Inversion**: the frames of the loop and what is left are what there was. -/
theorem readLoop_bytes (cfg : Config) (s : Session) :
    (readLoop cfg s).1.flatMap (Frame.bytes cfg) ++ (readLoop cfg s).2.undelivered cfg =
      s.undelivered cfg := by
  refine readLoop_induction
    (I := fun fs t => fs.flatMap (Frame.bytes cfg) ++ t.undelivered cfg = s.undelivered cfg)
    (by simp) ?_ ?_
  · intro fs s s' hI hturn
    rw [undelivered_head hturn]; exact hI
  · intro fs s f s' hI hturn
    rw [← hI, ← undelivered_body hturn]
    simp

theorem readLoop_frame (cfg : Config) (s : Session) :
    (readLoop cfg s).2.stopped = s.stopped ∧ (readLoop cfg s).2.reads = s.reads := by
  refine readLoop_induction (I := fun _ t => t.stopped = s.stopped ∧ t.reads = s.reads)
    ⟨rfl, rfl⟩ ?_ ?_
  · intro fs s s' hI hturn
    obtain ⟨-, -, -, rfl⟩ := turn_eq_head hturn
    exact hI
  · intro fs s f s' hI hturn
    obtain ⟨-, -, -, -, rfl⟩ := turn_eq_body hturn
    exact hI

/-- Where the loop stops, no frame is complete. -/
theorem settled_readLoop (hcfg : cfg.pakSize ≤ cfg.sizeT) (s : Session) :
    Settled cfg (readLoop cfg s).2 := by
  have hbrk := turn_eq_brk (decoder_turn_none hcfg (Decoder.turn_drain s))
  constructor
  · intro hr
    rcases hbrk with ⟨-, hlt⟩ | ⟨hr', -⟩
    · exact hlt
    · rw [readLoop, hr'] at hr; cases hr
  · intro hr
    rcases hbrk with ⟨hr', -⟩ | ⟨-, hlt⟩
    · rw [readLoop, hr'] at hr; cases hr
    · exact hlt

/-! ### Successive chunks -/

/-- A session between two reads is a decoder with one read outstanding. -/
theorem receive_eq_feed (chunks : List (List Byte))
    (h : ∀ c ∈ chunks, 1 ≤ c.length ∧ c.length ≤ 1024) (hs : s.stopped = false) (hr : s.reads = []) :
    s.doRead.receive cfg chunks =
      some (((decoder cfg).feed s chunks).1, ((decoder cfg).feed s chunks).2.doRead) := by
  induction chunks generalizing s with
  | nil => rfl
  | cons c cs ih =>
      have hc := h c (by simp)
      have hstep : s.doRead.readDone cfg c =
          some ((readLoop cfg (s.commit c)).1, (readLoop cfg (s.commit c)).2.doRead) := by
        have hs' : { s with reads := [] } = s := by rw [← hr]
        simp only [doRead_running hs, readDone, hr, List.nil_append, hc, and_self, if_true, hs']
        rw [readHandler, if_neg (by simp [hs])]
      obtain ⟨hs₁, hr₁⟩ := readLoop_frame cfg (s.commit c)
      have htail := ih (s := (readLoop cfg (s.commit c)).2) (fun c hc => h c (by simp [hc]))
        (by rw [hs₁]; exact hs) (by rw [hr₁]; exact hr)
      simp only [receive, hstep, Option.bind_eq_bind, Option.bind_some, htail]
      rfl

/-- Chunks are as good as their concatenation. -/
theorem feed_create (hcfg : 0 < cfg.sizeT) (chunks : List (List Byte)) :
    (decoder cfg).feed create chunks = readLoop cfg (create.commit chunks.flatten) := by
  refine Decoder.feed_eq_drain ?_ chunks
  have hlt : ¬ cfg.sizeT ≤ 0 := by omega
  simp [decoder, turn, create, hlt]

/-- **The receiver inverts the framing, whatever it is sent.**  After chunks of 1 to 1024 bytes,
cut anywhere, the frames handed on and what is held are the bytes received; no complete frame
is held; any other cut of the same bytes gives the same frames and the same state.  The loop
ends from every state, and never consumes more than is buffered. -/
theorem receive_exact (chunks : List (List Byte))
    (h : ∀ c ∈ chunks, 1 ≤ c.length ∧ c.length ≤ 1024) :
    (∃ fs s, create.start.receive .shipped chunks = some (fs, s) ∧
      fs.flatMap (Frame.bytes .shipped) ++ s.undelivered .shipped = chunks.flatten ∧
      (s.isReadingHead = true → s.recvBuf.length < 8) ∧
      (s.isReadingHead = false → s.recvBuf.length < s.bodylen) ∧
      ∀ chunks' : List (List Byte), (∀ c ∈ chunks', 1 ≤ c.length ∧ c.length ≤ 1024) →
        chunks'.flatten = chunks.flatten → create.start.receive .shipped chunks' = some (fs, s)) ∧
    (∀ s : Session, Loops .shipped s (readLoop .shipped s).1 (readLoop .shipped s).2) ∧
    (∀ s : Session, s.consumeArg .shipped ≤ s.recvBuf.length) := by
  have hcfg : Config.shipped.pakSize ≤ Config.shipped.sizeT := by decide
  refine ⟨?_, loops_readLoop hcfg, consumeArg_le hcfg⟩
  have hrun : ∀ cs : List (List Byte), (∀ c ∈ cs, 1 ≤ c.length ∧ c.length ≤ 1024) →
      create.start.receive .shipped cs =
        some ((readLoop .shipped (create.commit cs.flatten)).1,
          (readLoop .shipped (create.commit cs.flatten)).2.doRead) := by
    intro cs hcs
    rw [start, receive_eq_feed cs hcs rfl rfl, feed_create (by decide)]
  set r := readLoop .shipped (create.commit chunks.flatten) with hr
  have hstopped : r.2.stopped = false := (readLoop_frame .shipped (create.commit chunks.flatten)).1
  have hdoRead := doRead_running hstopped
  have hsettled : Settled .shipped r.2 := settled_readLoop hcfg _
  refine ⟨r.1, r.2.doRead, hrun chunks h, ?_, ?_, ?_, ?_⟩
  · have hbytes := readLoop_bytes .shipped (create.commit chunks.flatten)
    rw [← hr] at hbytes
    rw [hdoRead]
    exact hbytes
  · rw [hdoRead]; exact hsettled.head
  · rw [hdoRead]; exact hsettled.body
  · intro chunks' h' hflat
    rw [hrun chunks' h', hflat]

/-- A header cut in two, and an empty packet behind it. -/
theorem receive_exact_cut :
    (∃ fs s, create.start.receive .shipped [[1, 0, 0], [0, 0, 0, 0, 0, 7, 0], [0]] = some (fs, s) ∧
      fs.flatMap (Frame.bytes .shipped) ++ s.undelivered .shipped =
        [1, 0, 0, 0, 0, 0, 0, 0, 7, 0, 0] ∧
      (s.isReadingHead = true → s.recvBuf.length < 8) ∧
      (s.isReadingHead = false → s.recvBuf.length < s.bodylen) ∧
      ∀ chunks' : List (List Byte), (∀ c ∈ chunks', 1 ≤ c.length ∧ c.length ≤ 1024) →
        chunks'.flatten = [1, 0, 0, 0, 0, 0, 0, 0, 7, 0, 0] →
          create.start.receive .shipped chunks' = some (fs, s)) ∧
    (∀ s : Session, Loops .shipped s (readLoop .shipped s).1 (readLoop .shipped s).2) ∧
    (∀ s : Session, s.consumeArg .shipped ≤ s.recvBuf.length) :=
  receive_exact [[1, 0, 0], [0, 0, 0, 0, 0, 7, 0], [0]] (by decide)

end Session

end AsioTcpFrame
