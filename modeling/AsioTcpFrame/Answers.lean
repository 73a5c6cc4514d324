import AsioTcpFrame.Answering

/-! # The answers of a server

The answers to a session are written one after the other, in the order of its messages.  An answer is
missed when the session has left the pool, and then all that follow are missed as well.  `Answered` says
this of one session, with what is on its way; a step that hands no frame on keeps it (`Answered.serve`),
and so does one that hands a frame on (`Answered.hand`).  So what was written to a session of a server in
a run answers the first of the frames that were handed on, and all of them once its handlers have
returned (`answered_in_order`). -/

namespace AsioTcpFrame

open Transition Framing

open scoped List

namespace Server

variable {cfg : Config} {u : Responder} {n n' m : Server} {i : ℕ} {g : Traffic} {acts : List ServerAct}

/-- What `u` answers to a frame. -/
def answer (cfg : Config) (u : Responder) (f : Frame) : List Byte := u.reply (f.content.drop cfg.hdLen)

/-- What is still to be written by a call that serves a session. -/
def owes (cfg : Config) (u : Responder) (g : Traffic) : Call → List (List Byte)
  | .message _ _ _ _ => (g.frames.getLast?).toList.map (answer cfg u)
  | .write _ bytes | .sessionWrite _ bytes _ => [bytes.drop cfg.hdLen]
  | _ => []

/-- What is still to be written by the calls that serve the session `i`. -/
def owed (cfg : Config) (u : Responder) (g : Traffic) (n : Server) (i : ℕ) : List (List Byte) :=
  (n.calls.filter (Call.serves n.addrs[i]? i)).flatMap (owes cfg u g)

/-- The frame is a packet, of a length that is an `int`. -/
def Packed (cfg : Config) (f : Frame) : Prop :=
  cfg.hdLen ≤ f.content.length ∧ f.content.length < cfg.hdLen + 2 ^ 31

instance (f : Frame) : Decidable (Packed cfg f) :=
  inferInstanceAs (Decidable (cfg.hdLen ≤ f.content.length ∧ f.content.length < cfg.hdLen + 2 ^ 31))

/-- The answers to the session `i`.  What was written to it, what was missed, and what is on its way are
the greeting and the answers to the frames that were handed on, in this order; nothing is missed while
the session is in the pool, or something is written to it. -/
structure Answered (cfg : Config) (u : Responder) (i : ℕ) (g : Traffic) (n : Server) : Prop where
  modest : ∀ c ∈ n.calls, c.Modest n.addrs
  tended : ∀ stack ∈ n.threads, Tended n.addrs[i]? i stack
  shows : .readConsume i ∈ n.calls → ∃ fs f s, g.frames = fs ++ [f] ∧ n.session i = some s ∧
    s.recvBuf.take f.content.length = f.content ∧
    ∀ c ∈ n.calls, c.messaging i = true → c = messageCall cfg i f.content
  fresh : (i < n.sessions.length → ∃ c ∈ n.calls, c.begins i = true) →
    g.written = [] ∧ g.frames = [] ∧ greeted u n i = []
  answered : (∀ f ∈ g.frames, Packed cfg f) → ∃ missed,
    g.written.map (List.drop cfg.hdLen) ++ (missed ++ owed cfg u g n i) =
        greeted u n i ++ g.frames.map (answer cfg u) ∧
      (n.InPool i ∨ (∃ bytes pc, .sessionWrite i bytes pc ∈ n.calls) → missed = [])

/-! ### The call that serves a session -/

theorem Answered.exists_waits (h : Answered cfg u i g n) {c : Call} (hc : c ∈ n.calls)
    (hs : c.serves n.addrs[i]? i = true) :
    ∃ d ∈ n.calls, d.waits i = true ∧ (c.messaging i = true → d = .readConsume i) := by
  obtain ⟨stack, hstack, hc⟩ := List.mem_flatten.mp hc
  obtain ⟨d, hd, hw⟩ := (h.tended stack hstack).exists_waits hc hs
  exact ⟨d, List.mem_flatten.mpr ⟨stack, hstack, hd⟩, hw⟩

/-- One call at most serves the session. -/
theorem Answered.serving_le (h : Answered cfg u i g n) (hone : n.Single i) :
    (n.calls.filter (Call.serves n.addrs[i]? i)).length ≤ 1 := by
  have hle := hone.countP_reading_le
  have hwaits : n.calls.countP (Call.waits i) ≤ n.calls.countP (Call.reading i) :=
    List.countP_mono_left fun c _ hc => reading_of_waits hc
  have hserves := countP_serves_le h.tended
  rw [← List.countP_eq_length_filter]
  omega

theorem Answered.none_serving (h : Answered cfg u i g n) (hone : n.Single i) {c : Call}
    (hc : c ∈ n.calls) (hr : c.reading i = true) (hw : c.waits i = false) :
    n.calls.filter (Call.serves n.addrs[i]? i) = [] := by
  refine List.filter_eq_nil_iff.mpr fun d hd hs => ?_
  obtain ⟨e, he, hwait, -⟩ := h.exists_waits hd hs
  obtain rfl := hone.eq_of_reading hc he hr (reading_of_waits hwait)
  exact absurd (hw.symm.trans hwait) (by decide)

theorem lt_of_session {s : Session} (h : n.session i = some s) : i < n.sessions.length := by
  obtain ⟨o, ho, -⟩ := Option.map_eq_some_iff.mp h
  exact (List.getElem?_eq_some_iff.mp ho).1

theorem Single.session_of_reading (h : n.Single i) {c : Call} (hc : c ∈ n.calls)
    (hr : c.reading i = true) : ∃ s, n.session i = some s := by
  by_cases hi : n.sessions.length ≤ i
  · have hnone := (h.aloof hi).1
    exact absurd hr (List.filter_eq_nil_iff.mp hnone c hc)
  · have hlt : i < n.sessions.length := by omega
    exact ⟨(n.sessions[i]).sess, by simp [session, List.getElem?_eq_getElem hlt]⟩

theorem Answered.begun (h : Answered cfg u i g n) (hone : n.Single i) {c : Call} (hc : c ∈ n.calls)
    (hs : c.serves n.addrs[i]? i = true) :
    (∃ s, n.session i = some s) ∧ ∀ d ∈ n.calls, d.begins i = false := by
  obtain ⟨e, he, hw, -⟩ := h.exists_waits hc hs
  refine ⟨hone.session_of_reading he (reading_of_waits hw), fun d hd => ?_⟩
  by_contra hb
  have hb : d.begins i = true := by simpa using hb
  obtain rfl := hone.eq_of_reading he hd (reading_of_waits hw) (reading_of_begins hb)
  cases e with
  | accepted j pc => cases pc <;> first | cases hb | cases hw
  | _ => cases hb

/-! ### Calls that come -/

theorem answered_create (cfg : Config) (u : Responder) (i : ℕ) :
    Answered cfg u i Traffic.empty create where
  modest c hc := by cases hc
  tended stack hstack := by cases hstack
  shows hc := by cases hc
  fresh _ := ⟨rfl, rfl, rfl⟩
  answered _ := ⟨[], rfl, fun _ => rfl⟩

theorem Answered.spawn {g' : Traffic} (h : Answered cfg u i g n) {stack : List Call}
    (hthreads : ∀ st ∈ n'.threads, st ∈ n.threads ∨ st = stack) (hcalls : n'.calls = n.calls ++ stack)
    (hsub : ∀ b ∈ n.addrs, b ∈ n'.addrs)
    (hsame : ∀ c ∈ n.calls, c.serves n'.addrs[i]? i = c.serves n.addrs[i]? i)
    (hnew : ∀ c ∈ stack, c.Modest n'.addrs ∧ c.serves n'.addrs[i]? i = false ∧ c ≠ .readConsume i)
    (hlen : n.sessions.length ≤ n'.sessions.length)
    (hbegins : ∀ c ∈ stack, c.begins i = true → n.sessions.length ≤ i)
    (hbuf : .readConsume i ∈ n.calls → ∀ s, n.session i = some s →
      ∃ s', n'.session i = some s' ∧ s'.recvBuf = s.recvBuf)
    (hpool : n'.pool = n.pool) (htrace : n'.trace = n.trace) (hwritten : g'.written = g.written)
    (hframes : g'.frames = g.frames) : Answered cfg u i g' n' := by
  have hnot : ∀ c ∈ stack, c.messaging i = false ∧ ∀ bytes pc, c ≠ .sessionWrite i bytes pc := by
    intro c hc
    have hserves := (hnew c hc).2.1
    cases c <;> simp_all [Call.serves, Call.messaging]
  have hgreeted : greeted u n' i = greeted u n i := by rw [greeted, greeted, htrace]
  have howed : owed cfg u g' n' i = owed cfg u g n i := by
    have hold : n.calls.filter (Call.serves n'.addrs[i]? i) =
        n.calls.filter (Call.serves n.addrs[i]? i) := List.filter_congr hsame
    have hnone : stack.filter (Call.serves n'.addrs[i]? i) = [] :=
      List.filter_eq_nil_iff.mpr fun c hc => by simp [(hnew c hc).2.1]
    have howes : owes cfg u g' = owes cfg u g := by
      funext c
      simp only [owes, hframes]
    rw [owed, owed, hcalls, List.filter_append, hold, hnone, List.append_nil, howes]
  refine ⟨fun c hc => ?_, fun st hst => ?_, fun hc => ?_, fun hfresh => ?_, fun hpacked => ?_⟩
  · rw [hcalls] at hc
    rcases List.mem_append.mp hc with hc | hc
    · exact modest_of_subset (h.modest c hc) hsub
    · exact (hnew c hc).1
  · rcases hthreads st hst with hst | rfl
    · exact (h.tended st hst).congr fun c hc => hsame c (List.mem_flatten.mpr ⟨st, hst, hc⟩)
    · rw [← List.append_nil st]
      exact tended_append (fun c hc => (hnew c hc).2.1) trivial
  · have hc : .readConsume i ∈ n.calls := by
      rw [hcalls] at hc
      exact (List.mem_append.mp hc).resolve_right fun hc => (hnew _ hc).2.2 rfl
    obtain ⟨fs, f, s, hfs, hs, hcontent, hmessages⟩ := h.shows hc
    obtain ⟨s', hs', hsame'⟩ := hbuf hc s hs
    refine ⟨fs, f, s', hframes.trans hfs, hs', hsame' ▸ hcontent, fun d hd hmsg => ?_⟩
    rw [hcalls] at hd
    rcases List.mem_append.mp hd with hd | hd
    · exact hmessages d hd hmsg
    · exact absurd ((hnot d hd).1.symm.trans hmsg) (by decide)
  · rw [hwritten, hframes, hgreeted]
    apply h.fresh
    intro hi
    obtain ⟨c, hc, hb⟩ := hfresh (by omega)
    rw [hcalls] at hc
    rcases List.mem_append.mp hc with hc | hc
    · exact ⟨c, hc, hb⟩
    · have := hbegins c hc hb
      omega
  · rw [hwritten, hframes, hgreeted, howed]
    rw [hframes] at hpacked
    obtain ⟨missed, heq, hmissed⟩ := h.answered hpacked
    refine ⟨missed, heq, fun hor => hmissed (hor.imp ?_ ?_)⟩
    · exact fun hp => by rwa [InPool, hpool] at hp
    · rintro ⟨bytes, pc, hc⟩
      rw [hcalls] at hc
      refine ⟨bytes, pc, (List.mem_append.mp hc).resolve_right fun hc => ?_⟩
      exact (hnot _ hc).2 bytes pc rfl

/-! ### A step of a thread -/

section run
variable {t : ℕ} {prog : List Api} {next : Option ℕ} {c d : Call} {rest new calls : List Call}

theorem mem_of_run (hperm : c :: calls ~ new ++ n.calls) (hd : d ∈ calls) : d ∈ new ∨ d ∈ n.calls :=
  List.mem_append.mp (hperm.mem_iff.mp (List.mem_cons_of_mem c hd))

theorem Single.not_mem_after (h : n.Single i) (hr : c.reading i = true)
    (hperm : c :: calls ~ new ++ n.calls) (hnew : c ∉ new) : c ∉ calls := by
  intro hin
  have hle := h.countP_reading_le
  have hcount : n.calls.count c ≤ n.calls.countP (Call.reading i) := by
    apply List.countP_mono_left
    intro d _ hd
    rw [beq_iff_eq.mp hd]
    exact hr
  have hsame := hperm.count_eq c
  rw [List.count_cons_self, List.count_append, List.count_eq_zero.mpr hnew] at hsame
  have hpos : 0 < calls.count c := List.count_pos_iff.mpr hin
  omega

theorem Single.mem_new (h : n.Single i) (hc : c ∈ n.calls) (hr : c.reading i = true)
    (hperm : c :: calls ~ new ++ n.calls) (hnew : c ∉ new) (hd : d ∈ calls)
    (hdr : d.reading i = true) : d ∈ new := by
  refine (mem_of_run hperm hd).resolve_right fun hold => ?_
  obtain rfl := h.eq_of_reading hc hold hr hdr
  exact h.not_mem_after hr hperm hnew hd

/-- What is shown of a packet is its payload. -/
theorem shown_of_packed {s : Session} {f : Frame} (hs : n.session i = some s)
    (hcontent : s.recvBuf.take f.content.length = f.content) (hpacked : Packed cfg f) :
    n.shown i (toSize (bodyLength cfg.hdLen f.content.length)) cfg.hdLen =
      f.content.drop cfg.hdLen := by
  obtain ⟨hle, hlt⟩ := hpacked
  rw [shown, hs, bodyLength_of_fits hle (by omega), toSize_natCast (by omega), Option.map_some,
    Option.getD_some, ← List.drop_take, hcontent]

theorem Answered.serving_next (h : Answered cfg u i g n) (hone : n.Single i) (hc : c ∈ n.calls)
    (hs : c.serves n.addrs[i]? i = true) (hperm : c :: n'.calls ~ new ++ n.calls)
    (haddrs : n'.addrs = n.addrs) (hnew : ∀ d ∈ new, d.serves n.addrs[i]? i = true)
    (hlen : new.length ≤ 1) :
    owed cfg u g n i = owes cfg u g c ∧ n'.calls.filter (Call.serves n'.addrs[i]? i) = new := by
  have hlone := Slots.eq_singleton_of_mem (h.serving_le hone) (List.mem_filter.mpr ⟨hc, hs⟩)
  have hall : new.filter (Call.serves n.addrs[i]? i) = new := List.filter_eq_self.mpr hnew
  have hfilter := Slots.filter_exchange_of_eq hperm hlone
  rw [hall] at hfilter
  constructor
  · rw [owed, hlone, List.flatMap_singleton]
  · rw [haddrs]
    exact Slots.eq_of_perm_of_length_le_one hfilter hlen

theorem Answered.serving_other (h : Answered cfg u i g n) (hone : n.Single i)
    (hs : c.serves n.addrs[i]? i = false) (hperm : c :: n'.calls ~ new ++ n.calls)
    (haddrs : n'.addrs = n.addrs) (hnew : (new.filter (Call.serves n.addrs[i]? i)).length ≤ 1)
    (hwhen : new.filter (Call.serves n.addrs[i]? i) = [] ∨
      n.calls.filter (Call.serves n.addrs[i]? i) = []) :
    n'.calls.filter (Call.serves n'.addrs[i]? i) =
      new.filter (Call.serves n.addrs[i]? i) ++ n.calls.filter (Call.serves n.addrs[i]? i) := by
  rw [haddrs]
  apply Slots.eq_of_perm_of_length_le_one (Slots.filter_exchange hperm hs)
  rcases hwhen with hnil | hnil
  · rw [hnil]
    exact h.serving_le hone
  · rw [hnil, List.append_nil]
    exact hnew

theorem Answered.owes_message (h : Answered cfg u i g n) {head : List Byte} {length content : ℕ}
    (hc : .message i head length content ∈ n.calls) (hpacked : ∀ f ∈ g.frames, Packed cfg f) :
    owes cfg u g (.message i head length content) = [u.reply (n.shown i length content)] := by
  obtain ⟨d, hd, -, hcons⟩ := h.exists_waits hc (by simp [Call.serves])
  obtain rfl := hcons (by simp [Call.messaging])
  obtain ⟨fs, f, s, hfs, hs, hcontent, hmessages⟩ := h.shows hd
  have hcall := hmessages _ hc (by simp [Call.messaging])
  rw [messageCall, Call.message.injEq] at hcall
  obtain ⟨-, -, hlength, hat⟩ := hcall
  have hshown := shown_of_packed hs hcontent (hpacked f (by simp [hfs]))
  rw [hlength, hat, hshown]
  simp [owes, hfs, answer]

theorem Answered.settled (h : Answered cfg u i g n) (hone : n.Single i)
    (hstack : n.threads[t]? = some (c :: rest)) (hexec : n.exec cfg prog next c = some (m, new))
    (hserves : Serves cfg u n i c new) (hperm : c :: n'.calls ~ new ++ n.calls)
    (haddrs : n'.addrs = n.addrs) (hpool : n'.pool = m.pool) (htrace : n'.trace = m.trace)
    (hpacked : ∀ f ∈ g.frames, Packed cfg f) :
    ∃ missed, (noteFor cfg i n g (.run t prog next)).written.map (List.drop cfg.hdLen) ++
          (missed ++ owed cfg u (noteFor cfg i n g (.run t prog next)) n' i) =
        greeted u n' i ++ (noteFor cfg i n g (.run t prog next)).frames.map (answer cfg u) ∧
      (n'.InPool i ∨ (∃ bytes pc, .sessionWrite i bytes pc ∈ n'.calls) → missed = []) := by
  have hmem : c ∈ n.calls := mem_calls hstack
  obtain ⟨missed, heq, hmissed⟩ := h.answered hpacked
  have hgreeted : greeted u n' i = _ := exec_greeted hexec htrace
  have hin : n'.InPool i → n.InPool i ∨ c = .accepted i .insert := exec_inPool hexec hpool
  have hquiet : (∀ bytes, c ≠ .sessionWrite i bytes .body) →
      noteFor cfg i n g (.run t prog next) = g := hserves.note hstack
  cases hserves with
  | aside hc hnew hne hnote =>
      have hnil : new.filter (Call.serves n.addrs[i]? i) = [] :=
        List.filter_eq_nil_iff.mpr fun d hd => by simp [(hnew d hd).1]
      have hcalls := h.serving_other hone hc hperm haddrs (by simp [hnil]) (.inl hnil)
      have hbody : ∀ bytes, c ≠ .sessionWrite i bytes .body := by
        rintro bytes rfl
        simp [Call.serves] at hc
      rw [hnil, List.nil_append] at hcalls
      rw [owed, hcalls, hgreeted, if_neg hne, hquiet hbody]
      refine ⟨missed, heq, ?_⟩
      rintro (hp | ⟨bytes, pc, hd⟩)
      · rcases hin hp with hp | rfl
        · exact hmissed (.inl hp)
        · obtain ⟨hw, hf, hg⟩ := h.fresh fun _ => ⟨_, hmem, by simp [Call.begins]⟩
          rw [hw, hf, hg] at heq
          exact (List.append_eq_nil_iff.mp (List.append_eq_nil_iff.mp heq).2).1
      · rcases mem_of_run hperm hd with hd | hd
        · have hserve := (hnew _ hd).1
          simp [Call.serves] at hserve
        · exact hmissed (.inr ⟨bytes, pc, hd⟩)
  | @greet b bytes hb hbytes =>
      obtain ⟨hw, hf, -⟩ := h.fresh fun _ => ⟨_, hmem, by simp [Call.begins]⟩
      have hnil := h.none_serving hone hmem (by simp [Call.reading]) rfl
      have hnew : [Call.write b bytes, .accepted i .start].filter (Call.serves n.addrs[i]? i) =
          [.write b bytes] := by simp [Call.serves, hb]
      have hcalls := h.serving_other hone rfl hperm haddrs (by simp [hnew]) (.inr hnil)
      rw [hnew, hnil, List.append_nil] at hcalls
      rw [owed, hcalls, hgreeted, if_pos rfl, hquiet (by simp), hw, hf]
      refine ⟨[], ?_, fun _ => rfl⟩
      simp [owes, hbytes]
  | @answer head bytes length content b hb hbytes =>
      obtain ⟨howed, hcalls⟩ := h.serving_next hone hmem (by simp [Call.serves]) hperm haddrs
        (by simp [Call.serves, hb]) (Nat.le_refl 1)
      rw [howed, h.owes_message hmem hpacked, ← hbytes] at heq
      rw [owed, hcalls, hgreeted, if_neg (by simp), hquiet (by simp)]
      refine ⟨missed, heq, ?_⟩
      rintro (hp | ⟨bytes, pc, hd⟩)
      · exact hmissed (.inl ((hin hp).resolve_right (by simp)))
      · exact hmissed (.inr ⟨bytes, pc, (mem_of_run hperm hd).resolve_left (by simp)⟩)
  | @find b bytes hb hfound =>
      obtain rfl := hmissed (.inl hfound)
      obtain ⟨howed, hcalls⟩ := h.serving_next hone hmem (by simp [Call.serves, hb]) hperm haddrs
        (by simp [Call.serves]) (Nat.le_refl 1)
      rw [howed] at heq
      rw [owed, hcalls, hgreeted, if_neg (by simp), hquiet (by simp)]
      exact ⟨[], heq, fun _ => rfl⟩
  | @miss b bytes hb hgone =>
      obtain ⟨howed, hcalls⟩ := h.serving_next hone hmem (by simp [Call.serves, hb]) hperm haddrs
        (by simp) (Nat.zero_le 1)
      rw [howed] at heq
      rw [owed, hcalls, hgreeted, if_neg (by simp), hquiet (by simp)]
      refine ⟨missed ++ [bytes.drop cfg.hdLen], ?_, ?_⟩
      · rw [List.flatMap_nil, List.append_nil]
        exact heq
      · rintro (hp | ⟨bytes', pc, hd⟩)
        · exact absurd ((hin hp).resolve_right (by simp)) hgone
        · have hserve : .sessionWrite i bytes' pc ∈ n'.calls.filter (Call.serves n'.addrs[i]? i) :=
            List.mem_filter.mpr ⟨hd, by simp [Call.serves]⟩
          rw [hcalls] at hserve
          cases hserve
  | @move bytes pc pc' hpc =>
      obtain rfl := hmissed (.inr ⟨bytes, pc, hmem⟩)
      obtain ⟨howed, hcalls⟩ := h.serving_next hone hmem (by simp [Call.serves]) hperm haddrs
        (by simp [Call.serves]) (Nat.le_refl 1)
      rw [howed] at heq
      rw [owed, hcalls, hgreeted, if_neg (by simp), hquiet (by simp [hpc])]
      exact ⟨[], heq, fun _ => rfl⟩
  | @done bytes =>
      obtain rfl := hmissed (.inr ⟨bytes, .body, hmem⟩)
      have hserve : (Call.sessionWrite i bytes .body).serves n.addrs[i]? i = true := by
        simp [Call.serves]
      obtain ⟨howed, hcalls⟩ := h.serving_next hone hmem hserve hperm haddrs (by simp) (Nat.zero_le 1)
      obtain ⟨⟨s, hs⟩, -⟩ := h.begun hone hmem hserve
      rw [howed] at heq
      rw [owed, hcalls, hgreeted, if_neg (by simp), noteFor_run hs hstack]
      refine ⟨[], ?_, fun _ => rfl⟩
      simp only [noteCall, if_true, List.map_append, List.flatMap_nil, List.append_nil]
      simpa [owes] using heq

theorem Answered.serve (h : Answered cfg u i g n) (hone : n.Single i)
    (hprog : n.Program cfg u prog c) (hstack : n.threads[t]? = some (c :: rest))
    (hexec : n.exec cfg prog next c = some (m, new)) (hserves : Serves cfg u n i c new)
    (hperm : c :: n'.calls ~ new ++ n.calls) (hthreads : n'.threads = n.threads.set t (new ++ rest))
    (hsessions : n'.sessions = m.sessions) (hpool : n'.pool = m.pool) (htrace : n'.trace = m.trace) :
    Answered cfg u i (noteFor cfg i n g (.run t prog next)) n' := by
  have hmem : c ∈ n.calls := mem_calls hstack
  have haddrs : n'.addrs = n.addrs := by rw [addrs, hsessions]; exact exec_addrs hexec
  have hlen : n'.sessions.length = n.sessions.length := by
    have := congrArg List.length haddrs
    rwa [addrs, addrs, List.length_map, List.length_map] at this
  refine ⟨fun d hd => ?_, ?_, fun hcons => ?_, fun hfresh => ?_, fun hpacked => ?_⟩
  · rw [haddrs]
    rcases mem_of_run hperm hd with hd | hd
    · exact exec_modest (h.modest c hmem) hprog hexec hd
    · exact h.modest d hd
  · rw [haddrs, hthreads]
    exact tended_run h.tended hstack hserves.tended
  · have hold : .readConsume i ∈ n.calls :=
      (mem_of_run hperm hcons).resolve_left fun hd => (hserves.quiet hd).1 rfl
    have hr : c.reading i = false := by
      by_contra hc
      have hc : c.reading i = true := by simpa using hc
      obtain rfl := hone.eq_of_reading hold hmem (by simp [Call.reading]) hc
      exact hone.not_mem_after hc hperm (fun hd => (hserves.quiet hd).1 rfl) hcons
    obtain ⟨fs, f, s, hfs, hs, hcontent, hmessages⟩ := h.shows hold
    obtain ⟨s', hs', hrecv⟩ : ∃ s', m.session i = some s' ∧ s'.recvBuf = s.recvBuf := by
      cases Moved.of_exec hexec hs with
      | intro hs' hmoves _ _ => exact ⟨_, hs', hmoves.recvBuf hr⟩
    refine ⟨fs, f, s', ?_, ?_, ?_, fun d hd hmsg => ?_⟩
    · rw [noteFor_run hs hstack, noteCall_frames hr, hfs]
    · rw [session, hsessions]
      exact hs'
    · rw [hrecv, hcontent]
    · rcases mem_of_run hperm hd with hd | hd
      · exact absurd ((hserves.quiet hd).2.1.symm.trans hmsg) (by decide)
      · exact hmessages d hd hmsg
  · have hbefore : i < n.sessions.length → ∃ d ∈ n.calls, d.begins i = true := by
      intro hi
      obtain ⟨d, hd, hb⟩ := hfresh (by omega)
      rcases mem_of_run hperm hd with hd | hd
      · exact ⟨c, hmem, (hserves.quiet hd).2.2 hb⟩
      · exact ⟨d, hd, hb⟩
    obtain ⟨hw, hf, hg⟩ := h.fresh hbefore
    refine ⟨?_, (hserves.frames hstack).trans hf, ?_⟩
    · rw [hserves.note hstack, hw]
      rintro bytes rfl
      obtain ⟨⟨s, hs⟩, hnone⟩ := h.begun hone hmem (by simp [Call.serves])
      obtain ⟨d, hd, hb⟩ := hbefore (lt_of_session hs)
      exact absurd ((hnone d hd).symm.trans hb) (by decide)
    · rw [exec_greeted hexec htrace, if_neg, hg]
      rintro rfl
      cases hserves with
      | aside _ _ hne _ => exact hne rfl
      | greet hb hbytes =>
          have hr : (Call.accepted i .connect).reading i = true := by simp [Call.reading]
          obtain ⟨s, hs⟩ := hone.session_of_reading hmem hr
          obtain ⟨d, hd, hb⟩ := hfresh (by have := lt_of_session hs; omega)
          have hnew := hone.mem_new hmem hr hperm (by simp) hd (reading_of_begins hb)
          rcases List.mem_cons.mp hnew with rfl | hnew
          · cases hb
          · rw [List.mem_singleton.mp hnew] at hb
            cases hb
  · rw [hserves.frames hstack] at hpacked
    exact h.settled hone hstack hexec hserves hperm haddrs hpool htrace hpacked

theorem Answered.hand (h : Answered cfg u i g n) (hone : n.Single i) (hprep : n.Prepared)
    (hprog : n.Program cfg u prog c) (hstack : n.threads[t]? = some (c :: rest))
    (hexec : n.exec cfg prog next c = some (m, new)) (hhands : Hands cfg n i m c new)
    (hperm : c :: n'.calls ~ new ++ n.calls) (hthreads : n'.threads = n.threads.set t (new ++ rest))
    (hsessions : n'.sessions = m.sessions) (hpool : n'.pool = m.pool) (htrace : n'.trace = m.trace) :
    Answered cfg u i (noteFor cfg i n g (.run t prog next)) n' := by
  have hmem : c ∈ n.calls := mem_calls hstack
  have haddrs : n'.addrs = n.addrs := by rw [addrs, hsessions]; exact exec_addrs hexec
  have hmodest : ∀ d ∈ new, d.Modest n.addrs := fun d hd =>
    exec_modest (h.modest c hmem) hprog hexec hd
  have hgreeted : greeted u n' i = _ := exec_greeted hexec htrace
  have hin : n'.InPool i → n.InPool i ∨ c = .accepted i .insert := exec_inPool hexec hpool
  cases hhands with
  | @intro o f s ho hturn hs =>
  have hr : (Call.readLoop i).reading i = true := by simp [Call.reading]
  have hset := hprep.set_of_reading hone ho hmem
  have hnone := h.none_serving hone hmem hr rfl
  have hsess : n.session i = some o.sess := by rw [session, ho]; rfl
  have hnote : noteFor cfg i n g (.run t prog next) = { g with frames := g.frames ++ [f] } := by
    rw [noteFor_run hsess hstack]
    simp only [noteCall, hturn, if_true]
  obtain ⟨errors, hcalls, herrors⟩ := readCallback_eq cfg hset f i
  have hcases : ∀ d ∈ readCallback cfg i o f ++ [Call.readConsume i],
      (∃ text, d = .error (some i) text) ∨ d = messageCall cfg i f.content ∨ d = .readConsume i := by
    intro d hd
    rw [hcalls] at hd
    simp only [List.mem_append, List.mem_singleton] at hd
    rcases hd with (hd | hd) | hd
    · exact .inl (herrors d hd)
    · exact .inr (.inl hd)
    · exact .inr (.inr hd)
  have hnotserve : ∀ d ∈ n.calls, d.serves n.addrs[i]? i = false := by
    intro d hd
    simpa using List.filter_eq_nil_iff.mp hnone d hd
  rw [hnote]
  refine ⟨fun d hd => ?_, ?_, fun _ => ?_, fun hfresh => ?_, fun hpacked => ?_⟩
  · rw [haddrs]
    exact (mem_of_run hperm hd).elim (hmodest d) (h.modest d)
  · rw [haddrs, hthreads]
    exact tended_run h.tended hstack fun ht => tended_hands hset f ht.2
  · obtain ⟨-, -, hlen, hcontent, heq⟩ := Session.turn_eq_body hturn
    refine ⟨g.frames, f, s, rfl, ?_, ?_, fun d hd hmsg => ?_⟩
    · rw [session, hsessions]
      exact hs
    · rw [f.content_length, hlen, heq]
      exact hcontent.symm
    · rcases mem_of_run hperm hd with hd | hd
      · rcases hcases d hd with ⟨text, rfl⟩ | rfl | rfl
        · cases hmsg
        · rfl
        · cases hmsg
      · have hnot := hnotserve d hd
        cases d with
        | message j head length content => exact absurd (hnot.symm.trans hmsg) (by decide)
        | _ => cases hmsg
  · have hlt : i < n'.sessions.length := by rw [hsessions]; exact lt_of_session hs
    obtain ⟨d, hd, hb⟩ := hfresh hlt
    have hloop : Call.readLoop i ∉ readCallback cfg i o f ++ [Call.readConsume i] := by
      intro hl
      rcases hcases _ hl with ⟨text, h⟩ | h | h <;> cases h
    have hnew := hone.mem_new hmem hr hperm hloop hd (reading_of_begins hb)
    rcases hcases d hnew with ⟨text, rfl⟩ | rfl | rfl <;> cases hb
  · obtain ⟨missed, heq, hmissed⟩ := h.answered fun e he => hpacked e (List.mem_append_left _ he)
    have hserving : (readCallback cfg i o f ++ [Call.readConsume i]).filter
        (Call.serves n.addrs[i]? i) = [messageCall cfg i f.content] := serves_readCallback hset f
    have hfilter := h.serving_other hone rfl hperm haddrs (by simp [hserving]) (.inr hnone)
    rw [hserving, hnone, List.append_nil] at hfilter
    rw [owed, hnone, List.flatMap_nil, List.append_nil] at heq
    refine ⟨missed, ?_, fun hor => hmissed (hor.imp (fun hp => (hin hp).resolve_right (by simp)) ?_)⟩
    · rw [owed, hfilter, hgreeted, if_neg (by simp), List.map_append, ← List.append_assoc,
        ← List.append_assoc, heq]
      simp [owes, messageCall]
    · rintro ⟨bytes, pc, hd⟩
      refine ⟨bytes, pc, (mem_of_run hperm hd).resolve_left fun hd => ?_⟩
      rcases hcases _ hd with ⟨text, h⟩ | h | h <;> cases h

end run

/-! ### Whole runs -/

theorem Answered.step {b : ServerAct} (h : Answered cfg u i g n) (hone : n.Single i)
    (hprep : n.Prepared) (haddr : n.Addressed) (hresponds : n.Responds cfg u b)
    (hstep : Step cfg n b n') : Answered cfg u i (noteFor cfg i n g b) n' := by
  cases hstep with
  | call c => exact hresponds.elim
  | arrive _ _ =>
      rw [noteFor_plain (by simp) (by simp)]
      exact ⟨h.modest, h.tended, h.shows, h.fresh, h.answered⟩
  | acceptFail message _ =>
      rw [noteFor_plain (by simp) (by simp)]
      refine h.spawn (fun st hst => ?_) (calls_spawn _ _) (fun _ hb => hb) (fun _ _ => rfl)
        (fun c hc => ?_) (Nat.le_refl _) (fun c hc hb => ?_) (fun _ s hs => ⟨s, hs, rfl⟩) rfl rfl rfl rfl
      · exact (List.mem_append.mp hst).imp_right List.mem_singleton.mp
      · rw [List.mem_singleton.mp hc]
        exact ⟨trivial, rfl, by simp⟩
      · rw [List.mem_singleton.mp hc] at hb
        cases hb
  | @acceptDone a _ hfresh =>
      have hnew := hone.kept.not_mem_addrs hfresh
      have haddrs := accept_addrs n a
      rw [noteFor_plain (by simp) (by simp)]
      refine h.spawn (fun st hst => ?_) (calls_spawn _ _) (fun b hb => ?_) (fun c hc => ?_)
        (fun c hc => ?_) ?_ (fun c hc hb => ?_) (fun _ s hs => ⟨s, ?_, rfl⟩) rfl rfl rfl rfl
      · exact (List.mem_append.mp hst).imp_right List.mem_singleton.mp
      · rw [spawn_addrs, haddrs]
        exact List.mem_append_left _ hb
      · rw [spawn_addrs, haddrs]
        exact serves_accept (h.modest c hc) hnew
      · rw [List.mem_singleton.mp hc]
        exact ⟨trivial, rfl, by simp⟩
      · simp [Server.spawn, accept]
      · rw [List.mem_singleton.mp hc] at hb
        exact Nat.le_of_eq (beq_iff_eq.mp hb)
      · have hlt := lt_of_session hs
        simp only [session, Server.spawn, accept]
        rw [List.getElem?_append_left hlt]
        exact hs
  | @io j io o s' stack ho hc =>
      have hstack := fun c hmem => mem_complete (c := c) hc hmem
      obtain ⟨hwritten, hframes⟩ : (noteFor cfg i n g (.io j io)).written = g.written ∧
          (noteFor cfg i n g (.io j io)).frames = g.frames := noteFor_io_same j io
      refine h.spawn (fun st hst => ?_) (calls_spawn _ _) (fun b hb => ?_) (fun c hc => ?_)
        (fun c hc => ?_) ?_ (fun c hc hb => ?_) (fun hcons s hs => ?_) rfl rfl hwritten hframes
      · exact (List.mem_append.mp hst).imp_right List.mem_singleton.mp
      · rw [spawn_addrs, onSess_addrs]
        exact hb
      · rw [spawn_addrs, onSess_addrs]
      · rcases hstack c hc with ⟨k, rfl⟩ | rfl | ⟨text, rfl⟩ | ⟨a, rfl⟩ | rfl <;>
          exact ⟨trivial, rfl, by simp⟩
      · exact Nat.le_of_eq (List.length_modify ..).symm
      · rcases hstack c hc with ⟨k, rfl⟩ | rfl | ⟨text, rfl⟩ | ⟨a, rfl⟩ | rfl <;> cases hb
      · show ∃ s'', (n.onSess j fun _ => s').session i = some s'' ∧ s''.recvBuf = s.recvBuf
        by_cases hj : j = i
        · subst hj
          obtain rfl : o.sess = s := by simpa [session, ho] using hs
          rw [session_onSess, if_pos rfl, hs]
          refine ⟨s', rfl, complete_recvBuf hc ?_⟩
          have hmem : Call.readConsume j ∈ n.calls.filter (Call.reading j) :=
            List.mem_filter.mpr ⟨hcons, by simp [Call.reading]⟩
          have hpos := List.length_pos_of_mem hmem
          have hle := (hone.one ho).1
          exact List.length_eq_zero_iff.mp (by omega)
        · rw [session_onSess, if_neg hj]
          exact ⟨s, hs, rfl⟩
  | @run t prog next c rest new m hstack hen hexec =>
      have hmem := mem_calls hstack
      have hprog := hresponds c (by simp [top_eq hstack])
      have hperm := calls_run new hstack (exec_threads hexec)
      rw [(hone.kept.exec hstack hexec).sweep] at hperm ⊢
      have hthreads : m.threads.set t (new ++ rest) = n.threads.set t (new ++ rest) := by
        rw [exec_threads hexec]
      rcases Serves.of_exec (i := i) haddr hone.kept (h.modest c hmem) hprog hexec with hhands | hserves
      · exact h.hand hone hprep hprog hstack hexec hhands hperm hthreads rfl rfl rfl
      · exact h.serve hone hprog hstack hexec hserves hperm hthreads rfl rfl rfl

theorem Answered.of_run (h : Run (Server.step cfg) (Responds cfg u) create acts n) (i : ℕ) :
    Answered cfg u i (traffic cfg i acts) n := by
  induction h with
  | refl => exact answered_create cfg u i
  | @tail acts b n n' hrun hG hs ih =>
      have hrun := hrun.imp (H := Anything) fun _ _ _ => trivial
      rw [traffic_snoc hrun hs]
      exact ih.step (Single.of_run hrun i) (Prepared.of_run hrun) (Addressed.of_run hrun).2 hG
        (Step.of_step hs)

/-- What was written to a session is the greeting and the first of the answers. -/
theorem Answered.written (h : Answered cfg u i g n) (hintro : n.Introduced i)
    (hpacked : ∀ f ∈ g.frames, Packed cfg f) :
    g.written.map (List.drop cfg.hdLen) <+: u.greeting :: g.frames.map (answer cfg u) := by
  by_cases ht : .onConnect i ∈ n.trace
  · obtain ⟨missed, heq, -⟩ := h.answered hpacked
    rw [greeted, if_pos ht] at heq
    exact ⟨_, heq⟩
  · obtain ⟨hw, -, -⟩ := h.fresh fun hi => (hintro hi).resolve_left ht
    rw [hw]
    exact List.nil_prefix

/-- All are written while no handler of the session runs. -/
theorem Answered.written_all (h : Answered cfg u i g n) (hintro : n.Introduced i)
    (haddr : n.Addressed) (hpacked : ∀ f ∈ g.frames, Packed cfg f) (hpool : n.InPool i)
    (hidle : ∀ c ∈ n.calls, c.reading i = false) :
    g.written.map (List.drop cfg.hdLen) = u.greeting :: g.frames.map (answer cfg u) := by
  obtain ⟨missed, heq, hmissed⟩ := h.answered hpacked
  obtain rfl := hmissed (.inl hpool)
  have hlt : i < n.sessions.length := by
    obtain ⟨e, he, rfl⟩ := hpool
    have hlt := (List.getElem?_eq_some_iff.mp (haddr.pool e he)).1
    rwa [addrs, List.length_map] at hlt
  have ht : .onConnect i ∈ n.trace := by
    apply (hintro hlt).resolve_right
    rintro ⟨c, hc, hb⟩
    exact absurd ((hidle c hc).symm.trans (reading_of_begins hb)) (by decide)
  have howed : owed cfg u g n i = [] := by
    have hnone : n.calls.filter (Call.serves n.addrs[i]? i) = [] := by
      refine List.filter_eq_nil_iff.mpr fun c hc hs => ?_
      obtain ⟨d, hd, hw, -⟩ := h.exists_waits hc hs
      exact absurd ((hidle d hd).symm.trans (reading_of_waits hw)) (by decide)
    rw [owed, hnone, List.flatMap_nil]
  rw [greeted, if_pos ht, howed, List.append_nil, List.append_nil] at heq
  exact heq

/-- **The answers are in order.**  In every run of a server whose callbacks are those of `u`, and for each
of its sessions that only gets packets: what was written to the session is the greeting, and then the
answers to the first of the frames that were handed on, one for each and in their order.  It is all of
them when the session is in the pool and none of its handlers is running. -/
theorem answered_in_order (h : Run (Server.step cfg) (Responds cfg u) create acts n) (i : ℕ)
    (hpacked : ∀ f ∈ (traffic cfg i acts).frames, Packed cfg f) :
    (traffic cfg i acts).written.map (List.drop cfg.hdLen) <+:
        u.greeting :: (traffic cfg i acts).frames.map (answer cfg u) ∧
      (n.InPool i → (∀ c ∈ n.calls, c.reading i = false) →
        (traffic cfg i acts).written.map (List.drop cfg.hdLen) =
          u.greeting :: (traffic cfg i acts).frames.map (answer cfg u)) := by
  have hanswered := Answered.of_run h i
  have hrun := h.imp (H := Anything) fun _ _ _ => trivial
  have hintro := Introduced.of_run hrun i
  refine ⟨hanswered.written hintro hpacked, fun hpool hidle => ?_⟩
  exact hanswered.written_all hintro (Addressed.of_run hrun).2 hpacked hpool hidle

/-- A client is greeted, and what it sends is sent back to it. -/
def echoes : List ServerAct :=
  [.arrive, .acceptDone 7, .run 0 [] none, .run 0 [] none, .run 0 [] none,
    .run 0 [.write 7 [0] [33]] none, .run 0 [] none, .run 0 [] none, .run 0 [] none, .run 0 [] none,
    .run 0 [] none, .run 0 [] none, .io 0 (.recv [2, 0, 0, 0, 0, 0, 0, 0, 0, 44]), .io 0 .recvDone,
    .run 2 [] none, .run 2 [] none, .run 2 [.write 7 [0] [44]] none, .run 2 [] none, .run 2 [] none,
    .run 2 [] none, .run 2 [] none, .run 2 [] none, .run 2 [] none]

theorem answered_in_order_echoes :
    ∃ n, Run (Server.step .shipped) (Responds .shipped (.echo [33])) create echoes n ∧
      (∀ f ∈ (traffic .shipped 0 echoes).frames, Packed .shipped f) ∧ n.InPool 0 ∧
      (∀ c ∈ n.calls, c.reading 0 = false) ∧
      (traffic .shipped 0 echoes).frames.map (answer .shipped (.echo [33])) = [[44]] ∧
      (traffic .shipped 0 echoes).written.map (List.drop Config.shipped.hdLen) =
        [33] :: (traffic .shipped 0 echoes).frames.map (answer .shipped (.echo [33])) := by
  have h := Run.of_execWhen (Server.step .shipped) (Responds .shipped (.echo [33])) create echoes
    (by decide +kernel)
  have hpacked : ∀ f ∈ (traffic .shipped 0 echoes).frames, Packed .shipped f := by decide +kernel
  exact ⟨_, h, hpacked, by decide +kernel, by decide +kernel, by decide +kernel,
    (answered_in_order h 0 hpacked).2 (by decide +kernel) (by decide +kernel)⟩

end Server

end AsioTcpFrame
