import AsioTcpFrame.Receiver

/-! # The header guard

Before it takes a header, the read handler tests `recv_buf.size() >= sizeof(hlen)`, where `hlen`
is a `size_t` that holds `sizeof(PakSize)`.  It then copies and consumes `hlen` bytes.  The two
sizes are the same in the shipped configuration only by chance: `config.h` may have another
`PakSize`, and a platform another `size_t`.

`HeaderGuarded` is what the guard is for.  In any configuration it holds of a cutting of the input
into chunks exactly when no chunk ends where, behind complete frames, as many bytes have come as
lie between the two sizes (`guarded_iff`).  With fewer bytes than a header has, the handler
then reads bytes that have not been received; with more, it leaves a header alone that is complete,
and the frame with it when that is short. -/

namespace AsioTcpFrame

open Framing Incremental

namespace Session

variable {cfg : Config} {s t : Session}

/-- Where the loop has ended: it does not stand before a header of which bytes are missing, fewer
bytes than a header has are left, and no complete frame. -/
structure HeaderGuarded (cfg : Config) (s : Session) : Prop where
  taken : s.turn cfg ≠ .overread
  left : s.isReadingHead = true → s.recvBuf.length < cfg.pakSize
  whole : ∀ p r, p.length < cfg.codec.bound → s.undelivered cfg ≠ cfg.codec.frame p ++ r

/-- A number of bytes between the two sizes. -/
def Between (cfg : Config) (k : ℕ) : Prop :=
  min cfg.pakSize cfg.sizeT ≤ k ∧ k < max cfg.pakSize cfg.sizeT

/-- The bytes end, behind complete frames, with a number of bytes between the two sizes. -/
def EndsBetween (cfg : Config) (bytes : List Byte) : Prop :=
  ∃ ps r, (∀ p ∈ ps, p.length < cfg.codec.bound) ∧ bytes = cfg.codec.stream ps ++ r ∧
    Between cfg r.length

/-! ### Where the loop ends -/

/-- At a header the loop does not go on with a number of bytes between the two sizes: the guard
stops it, or lets it read too far. -/
theorem readLoop_stays (hr : s.isReadingHead = true) (hb : Between cfg s.recvBuf.length) :
    readLoop cfg s = ([], s) := by
  obtain ⟨hmin, hmax⟩ := hb
  apply Decoder.drain_none
  by_cases hsz : cfg.sizeT ≤ s.recvBuf.length
  · have hlt : ¬ cfg.pakSize ≤ s.recvBuf.length := by omega
    simp only [decoder, turn, hr, if_true, hsz, hlt, if_false]
  · simp only [decoder, turn, hr, if_true, hsz, if_false]

/-- A complete frame in front is handed on when the guard lets its header through. -/
theorem readLoop_frame_append {p r : List Byte} (hr : s.isReadingHead = true)
    (hbuf : s.recvBuf = cfg.codec.frame p ++ r) (hp : p.length < cfg.codec.bound)
    (hsz : cfg.sizeT ≤ s.recvBuf.length) :
    ∃ t : Session, t.isReadingHead = true ∧ t.recvBuf = r ∧
      (readLoop cfg s).2 = (readLoop cfg t).2 := by
  have henc : (cfg.codec.enc p.length).length = cfg.pakSize := by simp
  have hlen : cfg.pakSize ≤ s.recvBuf.length := by rw [hbuf]; simp; omega
  have htake : s.recvBuf.take cfg.pakSize = cfg.codec.enc p.length := by
    rw [hbuf, LenCodec.frame, List.append_assoc, List.take_left' henc]
  have hdrop : s.recvBuf.drop cfg.pakSize = p ++ r := by
    rw [hbuf, LenCodec.frame, List.append_assoc, List.drop_left' henc]
  have hhead : s.turn cfg =
      .head { s with isReadingHead := false, bodylen := p.length, recvBuf := p ++ r } := by
    simp only [turn, hr, if_true, hsz, hlen, htake, hdrop, cfg.codec.dec_enc hp]
  have hbody : ({ s with isReadingHead := false, bodylen := p.length, recvBuf := p ++ r } :
      Session).turn cfg = .body ⟨p.length, (p ++ r).take p.length, by simp⟩
        { s with isReadingHead := true, bodylen := p.length, recvBuf := p ++ r } := by
    simp [turn]
  refine ⟨({ s with isReadingHead := true, bodylen := p.length, recvBuf := p ++ r } :
    Session).consumeBody, rfl, ?_, ?_⟩
  · simp [consumeBody]
  · rw [readLoop_head hhead, readLoop_body hbody]

/-- **Behind complete frames** with a number of bytes between the two sizes, the loop ends at a
header, with such a number left. -/
theorem readLoop_between {ps : List (List Byte)} {r : List Byte} (hr : s.isReadingHead = true)
    (hbuf : s.recvBuf = cfg.codec.stream ps ++ r) (hps : ∀ p ∈ ps, p.length < cfg.codec.bound)
    (hb : Between cfg r.length) :
    (readLoop cfg s).2.isReadingHead = true ∧ Between cfg (readLoop cfg s).2.recvBuf.length := by
  induction ps generalizing s with
  | nil =>
      have hnow : Between cfg s.recvBuf.length := by rw [hbuf]; exact hb
      rw [readLoop_stays hr hnow]
      exact ⟨hr, hnow⟩
  | cons p ps ih =>
      by_cases hnow : Between cfg s.recvBuf.length
      · rw [readLoop_stays hr hnow]
        exact ⟨hr, hnow⟩
      · have hlen : cfg.pakSize ≤ s.recvBuf.length := by rw [hbuf]; simp; omega
        have hsz : cfg.sizeT ≤ s.recvBuf.length := by unfold Between at hnow; omega
        rw [LenCodec.stream_cons, List.append_assoc] at hbuf
        obtain ⟨t, htr, htbuf, heq⟩ := readLoop_frame_append hr hbuf (hps p (by simp)) hsz
        rw [heq]
        exact ih htr htbuf fun q hq => hps q (by simp [hq])

theorem readLoop_bounded (h : s.isReadingHead = false → s.bodylen < cfg.codec.bound) :
    (∀ f ∈ (readLoop cfg s).1, f.content.length < cfg.codec.bound) ∧
      ((readLoop cfg s).2.isReadingHead = false → (readLoop cfg s).2.bodylen < cfg.codec.bound) := by
  refine readLoop_induction (I := fun fs t => (∀ f ∈ fs, f.content.length < cfg.codec.bound) ∧
    (t.isReadingHead = false → t.bodylen < cfg.codec.bound)) ⟨by simp, h⟩ ?_ ?_
  · intro fs s s' hI hturn
    obtain ⟨-, -, hp, rfl⟩ := turn_eq_head hturn
    exact ⟨hI.1, fun _ => cfg.codec.dec_lt (by simp [hp])⟩
  · intro fs s f s' hI hturn
    obtain ⟨hr, -, hlen, -, rfl⟩ := turn_eq_body hturn
    refine ⟨?_, fun hr' => by cases hr'⟩
    intro g hg
    rcases List.mem_append.mp hg with hg | hg
    · exact hI.1 g hg
    · rw [List.mem_singleton.mp hg, f.content_length, hlen]
      exact hI.2 hr

/-! ### What the guard is for -/

theorem headerGuarded_of_not_between (hends : (decoder cfg).turn s = none)
    (hbound : s.isReadingHead = false → s.bodylen < cfg.codec.bound)
    (h : s.isReadingHead = true → ¬ Between cfg s.recvBuf.length) : HeaderGuarded cfg s := by
  have hturn := decoder_turn_eq_none hends
  have hover : s.turn cfg ≠ .overread := by
    intro hov
    obtain ⟨hr, hlow, hhigh⟩ := turn_eq_overread hov
    exact h hr ⟨by omega, by omega⟩
  have hbrk := turn_eq_brk (hturn.resolve_right hover)
  have hleft : s.isReadingHead = true → s.recvBuf.length < cfg.pakSize := by
    intro hr
    have hnot := h hr
    rcases hbrk with ⟨-, hlt⟩ | ⟨hr', -⟩
    · unfold Between at hnot; omega
    · rw [hr'] at hr; cases hr
  refine ⟨hover, hleft, ?_⟩
  intro p r hp heq
  cases hr : s.isReadingHead with
  | true =>
      have hlen := congrArg List.length heq
      have := hleft hr
      simp [undelivered, hr] at hlen
      omega
  | false =>
      simp only [undelivered, hr, Bool.false_eq_true, if_false, LenCodec.frame,
        List.append_assoc] at heq
      obtain ⟨henc, hrest⟩ := List.append_inj heq (by simp)
      have hpl : s.bodylen = p.length := by
        rw [← cfg.codec.dec_enc (hbound hr), henc, cfg.codec.dec_enc hp]
      have hlen := congrArg List.length hrest
      simp at hlen
      rcases hbrk with ⟨hr', -⟩ | ⟨-, hlt⟩
      · rw [hr] at hr'; cases hr'
      · omega

theorem HeaderGuarded.not_between (h : HeaderGuarded cfg s) (hr : s.isReadingHead = true) :
    ¬ Between cfg s.recvBuf.length := by
  rintro ⟨hmin, hmax⟩
  have hlt := h.left hr
  apply h.taken
  have hsz : cfg.sizeT ≤ s.recvBuf.length := by omega
  have hp : ¬ cfg.pakSize ≤ s.recvBuf.length := by omega
  simp only [turn, hr, if_true, hsz, hp, if_false]

theorem turn_overread_iff : s.turn cfg = .overread ↔
    s.isReadingHead = true ∧ cfg.sizeT ≤ s.recvBuf.length ∧ s.recvBuf.length < cfg.pakSize := by
  refine ⟨turn_eq_overread, ?_⟩
  rintro ⟨hr, hsz, hlt⟩
  have hp : ¬ cfg.pakSize ≤ s.recvBuf.length := by omega
  simp only [turn, hr, if_true, hsz, hp, if_false]

theorem headerGuarded_doRead (hs : s.stopped = false) :
    HeaderGuarded cfg s.doRead ↔ HeaderGuarded cfg s := by
  rw [doRead_running hs]
  have hiff : ({ s with reads := s.reads ++ [none] } : Session).turn cfg = .overread ↔
      s.turn cfg = .overread := by rw [turn_overread_iff, turn_overread_iff]
  constructor
  · rintro ⟨htaken, hleft, hwhole⟩
    exact ⟨fun h => htaken (hiff.mpr h), hleft, hwhole⟩
  · rintro ⟨htaken, hleft, hwhole⟩
    exact ⟨fun h => htaken (hiff.mp h), hleft, hwhole⟩

/-- Wherever the input has been cut so far, the session is guarded. -/
def Guarded (cfg : Config) (chunks : List (List Byte)) : Prop :=
  ∀ pre, pre <+: chunks → ∃ fs s, create.start.receive cfg pre = some (fs, s) ∧
    HeaderGuarded cfg s

/-- After its input so far, a session is where the loop ends on all of it. -/
theorem guarded_state (chunks : List (List Byte))
    (h : ∀ c ∈ chunks, 1 ≤ c.length ∧ c.length ≤ 1024) :
    (∃ fs s, create.start.receive cfg chunks = some (fs, s) ∧ HeaderGuarded cfg s) ↔
      ¬ EndsBetween cfg chunks.flatten := by
  have hreceive : create.doRead.receive cfg chunks = _ := receive_eq_feed chunks h rfl rfl
  rw [feed_create cfg.sizeT_pos] at hreceive
  have hstopped := (readLoop_frame cfg (create.commit chunks.flatten)).1
  have hbytes := readLoop_bytes cfg (create.commit chunks.flatten)
  obtain ⟨hcontents, hbodylen⟩ := @readLoop_bounded cfg (create.commit chunks.flatten)
    fun hr => by cases hr
  have hends : (decoder cfg).turn (readLoop cfg (create.commit chunks.flatten)).2 = none :=
    Decoder.turn_drain _
  constructor
  · rintro ⟨fs, s, hs, hguard⟩ ⟨ps, r, hps, hflat, hb⟩
    rw [start, hreceive] at hs
    cases hs
    obtain ⟨hr, hbetween⟩ := @readLoop_between cfg (create.commit chunks.flatten) _ _
      rfl (by simpa [commit, create] using hflat) hps hb
    exact ((headerGuarded_doRead hstopped).mp hguard).not_between hr hbetween
  · intro hnot
    refine ⟨_, _, hreceive, (headerGuarded_doRead hstopped).mpr ?_⟩
    apply headerGuarded_of_not_between hends hbodylen
    intro hr hb
    apply hnot
    refine ⟨(readLoop cfg (create.commit chunks.flatten)).1.map Frame.content,
      (readLoop cfg (create.commit chunks.flatten)).2.recvBuf, ?_, ?_, hb⟩
    · intro p hp
      obtain ⟨f, hf, rfl⟩ := List.mem_map.mp hp
      exact hcontents f hf
    · have hheld : undelivered cfg (readLoop cfg (create.commit chunks.flatten)).2 =
          (readLoop cfg (create.commit chunks.flatten)).2.recvBuf := by
        rw [undelivered, hr, if_pos rfl, List.nil_append]
      rw [Frame.flatMap_bytes, hheld] at hbytes
      exact hbytes.symm

/-- **When the header guard is right.**  For any sizes of `PakSize` and `size_t`, a cutting of the
input is handled as it should be exactly when none of its chunks ends, behind complete frames, with
a number of bytes between the two sizes; and every cutting of every input is exactly when the two
sizes are the same. -/
theorem guarded_iff (cfg : Config) :
    (∀ chunks : List (List Byte), (∀ c ∈ chunks, 1 ≤ c.length ∧ c.length ≤ 1024) →
      (Guarded cfg chunks ↔ ∀ pre, pre <+: chunks → ¬ EndsBetween cfg pre.flatten)) ∧
    ((∀ chunks : List (List Byte), (∀ c ∈ chunks, 1 ≤ c.length ∧ c.length ≤ 1024) →
      Guarded cfg chunks) ↔ cfg.pakSize = cfg.sizeT) := by
  have hcut : ∀ chunks : List (List Byte), (∀ c ∈ chunks, 1 ≤ c.length ∧ c.length ≤ 1024) →
      (Guarded cfg chunks ↔ ∀ pre, pre <+: chunks → ¬ EndsBetween cfg pre.flatten) := by
    intro chunks h
    apply forall_congr'
    intro pre
    apply forall_congr'
    intro hpre
    exact guarded_state pre fun c hc => h c (hpre.subset hc)
  refine ⟨hcut, ?_, ?_⟩
  · intro hall
    by_contra hne
    have hone : ∀ c ∈ List.replicate (min cfg.pakSize cfg.sizeT) [(0 : Byte)],
        1 ≤ c.length ∧ c.length ≤ 1024 := by
      intro c hc
      rw [List.eq_of_mem_replicate hc]
      decide
    refine (hcut _ hone).mp (hall _ hone) _ (List.prefix_refl _) ⟨[], _, by simp, rfl, ?_⟩
    rw [List.flatten_replicate_singleton, Between, List.length_replicate]
    omega
  · intro heq chunks h
    refine (hcut chunks h).mpr ?_
    rintro pre - ⟨ps, r, -, -, hmin, hmax⟩
    rw [heq] at hmin hmax
    omega

theorem guarded_iff_shipped : Guarded .shipped [[1, 0, 0], [0, 0, 0, 0, 0, 7, 0], [0]] :=
  (guarded_iff .shipped).2.mpr rfl _ (by decide)

/-- `PakSize` as a 4-byte integer on a 64-bit platform. -/
def narrow : Config := ⟨4, 8, 1, Nat.zero_lt_succ _, Nat.zero_lt_succ _, Nat.zero_lt_succ _⟩

/-- `PakSize` as shipped, on a 32-bit platform. -/
def wide : Config := ⟨8, 4, 1, Nat.zero_lt_succ _, Nat.zero_lt_succ _, Nat.zero_lt_succ _⟩

/-- An empty packet is not handed on; and a header is read of which half has come. -/
theorem not_guarded : ¬ Guarded narrow [[0, 0, 0, 0]] ∧ ¬ Guarded wide [[1, 0, 0, 0]] := by
  have hnarrow : EndsBetween narrow [0, 0, 0, 0] :=
    ⟨[], [0, 0, 0, 0], by simp, rfl, by decide, by decide⟩
  have hwide : EndsBetween wide [1, 0, 0, 0] :=
    ⟨[], [1, 0, 0, 0], by simp, rfl, by decide, by decide⟩
  constructor
  · intro hguard
    exact (@guarded_state narrow [[0, 0, 0, 0]] (by decide)).mp
      (hguard _ (List.prefix_refl _)) hnarrow
  · intro hguard
    exact (@guarded_state wide [[1, 0, 0, 0]] (by decide)).mp
      (hguard _ (List.prefix_refl _)) hwide

end Session

end AsioTcpFrame
