import AsioTcpFrame.ServerTraffic

/-! # The messages of a server

The read loop of a session hands a frame to `read_callback`, which calls `onMessage` once, after
`onError` if the frame is too short.  `Talks` follows the messages of one session through a run: those
that the user was given, followed by the one that is on its way, are those of the frames that the loop
handed on.  A message is on its way only above the call of the loop that waits for it (`Behind`), and
there is one such call (`Single`), so messages neither overtake each other nor mix.

Together with what goes through the session (`mirrors_of_run`) this says what a peer that writes to the
session can rely on: `messages_prefix`. -/

namespace AsioTcpFrame

open Transition Framing
open scoped List

/-- A call of `onMessage` for the session `i`. -/
def Call.messaging (i : ℕ) : Call → Bool
  | message j _ _ _ => j == i
  | _ => false

/-- The handler of the accepted connection `i`, before it has set the `read_callback`. -/
def Call.preparesRead (i : ℕ) : Call → Prop
  | accepted j .insert | accepted j .setError | accepted j .setRead => j = i
  | _ => False

namespace Server

variable {cfg : Config} {n n' m : Server} {a : ServerAct} {acts : List ServerAct} {i j : ℕ}

/-- The call of `onMessage` that a frame of the session `i` leads to. -/
def messageCall (cfg : Config) (i : ℕ) (content : List Byte) : Call :=
  .message i ((List.range cfg.hdLen).map fun k => content.getD k 0)
    (toSize (bodyLength cfg.hdLen content.length)) cfg.hdLen

/-- What the user sees of a call of `onMessage`. -/
def messageOf : Call → List ServerEvent
  | .message i head length content => [.onMessage i head length content]
  | _ => []

/-- The message that a content sent to the session `i` becomes, if it holds a header. -/
def messageFor (cfg : Config) (i : ℕ) (content : List Byte) : ServerEvent :=
  .onMessage i (content.take cfg.hdLen) (toSize (bodyLength cfg.hdLen content.length)) cfg.hdLen

/-- Below every message of the session `i` its read loop waits. -/
def Behind (i : ℕ) : List Call → Prop
  | [] => True
  | c :: rest => (c.messaging i = true → .readConsume i ∈ rest) ∧ Behind i rest

/-- The `read_callback` of every session is set, or the handler that sets it is running. -/
def Prepared (n : Server) : Prop :=
  ∀ i o, n.sessions[i]? = some o → o.readCallback = true ∨ ∃ c ∈ n.calls, c.preparesRead i

/-- What is told of the session `i`: the messages that were given to the user, followed by the one on
its way, are those of the frames that were handed on. -/
structure Talks (cfg : Config) (i : ℕ) (g : Traffic) (n : Server) : Prop where
  behind : ∀ stack ∈ n.threads, Behind i stack
  one : (n.calls.filter (Call.messaging i)).length ≤ 1
  told : n.messages i ++ (n.calls.filter (Call.messaging i)).flatMap messageOf =
    g.frames.flatMap fun f => messageOf (messageCall cfg i f.content)

theorem messageOf_messageCall {content : List Byte} (h : cfg.hdLen ≤ content.length) :
    messageOf (messageCall cfg i content) = [messageFor cfg i content] := by
  simp only [messageCall, messageOf, messageFor, head_eq_take h]

/-! ### Stacks -/

theorem behind_append {stack rest : List Call} (h : ∀ c ∈ stack, c.messaging i = false)
    (hrest : Behind i rest) : Behind i (stack ++ rest) := by
  induction stack with
  | nil => exact hrest
  | cons c stack ih =>
      have hc := h c List.mem_cons_self
      exact ⟨fun h' => absurd (hc.symm.trans h') (by decide),
        ih fun d hd => h d (List.mem_cons_of_mem c hd)⟩

theorem behind_consume {stack rest : List Call} (hrest : Behind i rest) :
    Behind i (stack ++ .readConsume i :: rest) := by
  induction stack with
  | nil => exact ⟨nofun, hrest⟩
  | cons c stack ih => exact ⟨fun _ => List.mem_append_right _ List.mem_cons_self, ih⟩

theorem Behind.mem {stack : List Call} (h : Behind i stack) {c : Call} (hc : c ∈ stack)
    (hmsg : c.messaging i = true) : .readConsume i ∈ stack := by
  induction stack with
  | nil => cases hc
  | cons d stack ih =>
      rcases List.mem_cons.mp hc with rfl | hc
      · exact List.mem_cons_of_mem _ (h.1 hmsg)
      · exact List.mem_cons_of_mem _ (ih h.2 hc)

theorem messaging_of_holds {c : Call} (hc : ∀ head length content, c ≠ .message i head length content) :
    c.messaging i = false := by
  cases c with
  | message j head length content =>
      have hj : j ≠ i := fun hj => hc head length content (by rw [hj])
      simp [Call.messaging, hj]
  | _ => rfl

variable (cfg) in
theorem not_messaging_prog (prog : List Api) (i : ℕ) :
    ∀ c ∈ prog.map (Api.toCall cfg), c.messaging i = false := by
  intro c hc
  obtain ⟨api, -, rfl⟩ := List.mem_map.mp hc
  cases api <;> rfl

theorem readCallback_messaging {o : Obj} (ho : o.readCallback = true) (f : Frame) (j : ℕ) :
    (readCallback cfg j o f).filter (Call.messaging i) =
      if j = i then [messageCall cfg i f.content] else [] := by
  have hlen : f.length = f.content.length := f.content_length.symm
  simp only [readCallback, ho, if_true, ServerTCP.readCallback, unpack, Callbacks.error,
    Callbacks.message, Callbacks.both, hlen]
  by_cases hneg : bodyLength cfg.hdLen f.content.length < 0 <;> by_cases hj : j = i <;>
    simp [hneg, hj, Call.ofEffect, Call.messaging, messageCall]

theorem messages_see (e : ServerEvent) :
    (n.see e).messages i = n.messages i ++ [e].filter fun e => match e with
      | .onMessage j _ _ _ => j == i
      | _ => false := List.filter_append _ _

/-! ### What a step says -/

/-- What a step of a call means for the messages of the session `i`: nothing; one is given to the user;
or a frame is handed on. -/
inductive Tells (cfg : Config) (n : Server) (i : ℕ) (m : Server) : Call → List Call → Prop
  | quiet {c : Call} {new : List Call} : c.messaging i = false → m.messages i = n.messages i →
      (∀ d ∈ new, d.messaging i = false) →
      (∀ s g, n.session i = some s → (noteCall cfg i s g c).frames = g.frames) →
        Tells cfg n i m c new
  | message (head : List Byte) (length content : ℕ) {new : List Call} :
      m.messages i = n.messages i ++ [.onMessage i head length content] →
      (∀ d ∈ new, d.messaging i = false) → Tells cfg n i m (.message i head length content) new
  | frame {o : Obj} {f : Frame} {s : Session} : n.sessions[i]? = some o → o.sess.turn cfg = .body f s →
      m.messages i = n.messages i →
        Tells cfg n i m (.readLoop i) (readCallback cfg i o f ++ [.readConsume i])

theorem not_messaging_append {stack : List Call} (h : ∀ c ∈ stack, c.messaging i = false) {c : Call}
    (hc : c.messaging i = false) : ∀ d ∈ stack ++ [c], d.messaging i = false := by
  intro d hd
  rcases List.mem_append.mp hd with hd | hd
  · exact h d hd
  · rw [List.mem_singleton.mp hd]; exact hc

/-- **What a step says of a session.** -/
theorem Tells.of_exec {prog : List Api} {next : Option ℕ} {c : Call} {new : List Call}
    (h : n.exec cfg prog next c = some (m, new)) : Tells cfg n i m c new := by
  have hprog := not_messaging_prog cfg prog i
  have hother : ∀ {j : ℕ} {s : Session} {g : Traffic}, j ≠ i →
      (noteCall cfg i s g (.readLoop j)).frames = g.frames := by
    intro j s g hj
    exact congrArg Traffic.frames (noteCall_quiet (by simp [Call.reading, hj]) nofun)
  have hturn : ∀ {o : Obj} {s : Session}, n.sessions[i]? = some o → n.session i = some s →
      o.sess = s := by
    intro o s ho hs
    simpa [session, ho] using hs
  cases Exec.of_exec h with
  | write _ _ | close _ | closeAll | advance | erase _ _ _ | test _ _ =>
      refine .quiet rfl rfl ?_ fun _ _ _ => rfl
      split <;> simp [Call.messaging]
  | disconnect a j all =>
      exact .quiet rfl ((messages_see _).trans (List.append_nil _)) (not_messaging_append hprog rfl)
        fun _ _ _ => rfl
  | connect j =>
      exact .quiet rfl ((messages_see _).trans (List.append_nil _)) (not_messaging_append hprog rfl)
        fun _ _ _ => rfl
  | error j message =>
      exact .quiet rfl ((messages_see _).trans (List.append_nil _)) hprog fun _ _ _ => rfl
  | message j head length content =>
      by_cases hj : j = i
      · subst hj
        exact .message head length content ((messages_see _).trans (by simp)) hprog
      · exact .quiet (by simp [Call.messaging, hj]) ((messages_see _).trans (by simp [hj])) hprog
          fun _ _ _ => rfl
  | body j bytes =>
      refine .quiet rfl rfl (by simp) fun s g _ => ?_
      show (if j = i then { g with written := g.written ++ [bytes] } else g).frames = g.frames
      split <;> rfl
  | @loopBreak j o ho hbrk =>
      refine .quiet rfl rfl (by simp) fun s g hs => ?_
      by_cases hj : j = i
      · subst hj
        rw [hturn ho hs] at hbrk
        simp only [noteCall, hbrk]
      · exact hother hj
  | @loopHead j o s' ho hhead =>
      refine .quiet rfl rfl (by simp [Call.messaging]) fun s g hs => ?_
      by_cases hj : j = i
      · subst hj
        rw [hturn ho hs] at hhead
        simp only [noteCall, hhead]
      · exact hother hj
  | @loopBody j o f s' ho hbody =>
      by_cases hj : j = i
      · subst hj
        exact .frame ho hbody rfl
      · refine .quiet rfl rfl (not_messaging_append ?_ rfl) fun _ _ _ => hother hj
        intro c hc
        refine messaging_of_holds fun head length content hmsg => ?_
        subst hmsg
        unfold readCallback at hc
        split at hc
        · obtain ⟨e, -, he⟩ := List.mem_flatMap.mp hc
          cases e with
          | load _ _ => cases he
          | onError _ text => cases List.mem_singleton.mp he
          | onMessage _ head length content =>
              cases List.mem_singleton.mp he
              exact hj rfl
        · cases hc
  | _ => exact .quiet rfl rfl (by simp [Call.messaging]) fun _ _ _ => rfl

/-! ### The callback is set in time -/

theorem modify_readCallback {f : Obj → Obj} {o' : Obj}
    (hf : ∀ o, o.readCallback = true → (f o).readCallback = true)
    (h : (n.modify j f).sessions[i]? = some o') :
    ∃ o, n.sessions[i]? = some o ∧ (o.readCallback = true → o'.readCallback = true) ∧
      (j = i → o' = f o) := by
  simp only [modify, List.getElem?_modify] at h
  obtain ⟨o, ho, rfl⟩ := Option.map_eq_some_iff.mp h
  split
  · exact ⟨o, ho, hf o, fun _ => rfl⟩
  · next hj => exact ⟨o, ho, id, fun h => absurd h hj⟩

/-- A callback that is set stays set; and a call that is to set it sets it, or goes on to do so. -/
theorem exec_readCallback {prog : List Api} {next : Option ℕ} {c : Call} {new : List Call} {o' : Obj}
    (h : n.exec cfg prog next c = some (m, new)) (hi : m.sessions[i]? = some o') :
    ∃ o, n.sessions[i]? = some o ∧ (o.readCallback = true → o'.readCallback = true) ∧
      (c.preparesRead i → o'.readCallback = true ∨ ∃ d ∈ new, d ≠ c ∧ d.preparesRead i) := by
  have honSess : ∀ j (f : Session → Session), m = n.onSess j f → ¬ c.preparesRead i →
      ∃ o, n.sessions[i]? = some o ∧ (o.readCallback = true → o'.readCallback = true) ∧
        (c.preparesRead i → o'.readCallback = true ∨ ∃ d ∈ new, d ≠ c ∧ d.preparesRead i) := by
    rintro j f rfl hc
    obtain ⟨o, ho, hset, -⟩ := modify_readCallback (f := fun o => { o with sess := f o.sess })
      (fun _ h => h) hi
    exact ⟨o, ho, hset, fun h => absurd h hc⟩
  cases Exec.of_exec h with
  | @insert j o ho =>
      exact ⟨o', hi, id, fun hc => Or.inr ⟨.accepted j .setError, by simp, by simp, hc⟩⟩
  | setError j =>
      obtain ⟨o, ho, hset, -⟩ := modify_readCallback (f := fun o => { o with errorCallback := true })
        (fun _ h => h) hi
      exact ⟨o, ho, hset, fun hc => Or.inr ⟨.accepted j .setRead, by simp, by simp, hc⟩⟩
  | setRead j =>
      obtain ⟨o, ho, hset, hself⟩ := modify_readCallback (f := fun o => { o with readCallback := true })
        (fun _ _ => rfl) hi
      exact ⟨o, ho, hset, fun hc => Or.inl (by rw [hself hc])⟩
  | start j => exact honSess j _ rfl id
  | body j bytes => exact honSess j _ rfl id
  | loopBreak _ _ => exact honSess _ _ rfl id
  | loopHead _ _ => exact honSess _ _ rfl id
  | loopBody _ _ => exact honSess _ _ rfl id
  | consume j => exact honSess j _ rfl id
  | done j len => exact honSess j _ rfl id
  | _ => exact ⟨o', hi, id, fun hc => hc.elim⟩

theorem Prepared.step (h : n.Prepared) (hkept : n.Kept) (hstep : Step cfg n a n') : n'.Prepared := by
  have hspawn : ∀ (k : Server) stack, k.Prepared → (k.spawn stack).Prepared := by
    intro k stack hk i o ho
    refine (hk i o ho).imp_right ?_
    rintro ⟨c, hc, hp⟩
    refine ⟨c, ?_, hp⟩
    rw [calls_spawn]
    exact List.mem_append_left _ hc
  cases hstep with
  | call c => exact hspawn n _ h
  | acceptFail message _ => exact hspawn n.acceptEnd _ h
  | arrive _ _ => exact h
  | acceptDone _ _ =>
      intro i o ho
      rw [calls_spawn]
      simp only [spawn, accept, List.getElem?_append] at ho
      split at ho
      · refine (h i o ho).imp_right ?_
        rintro ⟨c, hc, hp⟩
        exact ⟨c, List.mem_append_left _ hc, hp⟩
      · next hi =>
        have hzero : i - n.sessions.length = 0 := by
          by_contra hne
          rw [List.getElem?_eq_none (by simp; omega)] at ho
          cases ho
        refine Or.inr ⟨.accepted n.sessions.length .insert, by simp, ?_⟩
        simp only [Call.preparesRead]
        omega
  | @io i b o s stack ho hc =>
      apply hspawn _ _
      intro j o' hj
      obtain ⟨p, hp, hset, -⟩ := modify_readCallback (f := fun o => { o with sess := s })
        (fun _ h => h) hj
      exact (h j p hp).imp_left hset
  | @run t prog next c rest new m hstack hen hexec =>
      have hcalls := calls_run new hstack (exec_threads hexec)
      rw [(hkept.exec hstack hexec).sweep] at hcalls ⊢
      intro i o' hi
      obtain ⟨o, ho, hset, hpass⟩ := exec_readCallback hexec hi
      have hmem : ∀ d, d ≠ c → d ∈ new ++ n.calls →
          d ∈ calls { m with threads := m.threads.set t (new ++ rest) } := fun d hne hd =>
        (List.mem_cons.mp (hcalls.mem_iff.mpr hd)).resolve_left hne
      rcases h i o ho with hcb | ⟨d, hd, hp⟩
      · exact Or.inl (hset hcb)
      · by_cases hdc : d = c
        · subst hdc
          refine (hpass hp).imp_right ?_
          rintro ⟨e, he, hne, hp⟩
          exact ⟨e, hmem e hne (List.mem_append_left _ he), hp⟩
        · exact Or.inr ⟨d, hmem d hdc (List.mem_append_right _ hd), hp⟩

theorem Prepared.of_run (h : Run (Server.step cfg) Anything create acts n) : n.Prepared := by
  have hI := h.invariant (I := fun n => n.Kept ∧ n.Prepared)
    ⟨fun i o ho => by simp [create] at ho, fun i o ho => by simp [create] at ho⟩
    fun _ _ _ hI _ hstep => ⟨hI.1.step (.of_step hstep), hI.2.step hI.1 (.of_step hstep)⟩
  exact hI.2

theorem Prepared.set_of_reading (h : n.Prepared) (hone : n.Single i) {o : Obj}
    (ho : n.sessions[i]? = some o) (hloop : .readLoop i ∈ n.calls) : o.readCallback = true := by
  refine (h i o ho).resolve_right fun ⟨c, hc, hp⟩ => ?_
  have hread : c.reading i = true := by
    cases c with
    | accepted k pc => cases pc <;> first | exact beq_iff_eq.mpr hp | exact hp.elim
    | _ => exact hp.elim
  have hsame := hone.eq_of_reading hc hloop hread (by simp [Call.reading])
  subst hsame
  exact hp

/-! ### Whole runs -/

variable {g g' : Traffic}

theorem Talks.spawn (h : Talks cfg i g n) {stack : List Call}
    (hstack : ∀ c ∈ stack, c.messaging i = false) (hthreads : n'.threads = n.threads ++ [stack])
    (htrace : n'.trace = n.trace) (hframes : g'.frames = g.frames) : Talks cfg i g' n' := by
  have hcalls : n'.calls.filter (Call.messaging i) = n.calls.filter (Call.messaging i) := by
    have hnone : stack.filter (Call.messaging i) = [] :=
      List.filter_eq_nil_iff.mpr fun c hc => by simp [hstack c hc]
    simp [calls, hthreads, hnone]
  refine ⟨fun st hst => ?_, by rw [hcalls]; exact h.one, ?_⟩
  · rw [hthreads] at hst
    rcases List.mem_append.mp hst with hst | hst
    · exact h.behind st hst
    · rw [List.mem_singleton.mp hst]
      rw [← List.append_nil stack]
      exact behind_append hstack trivial
  · rw [hcalls, hframes, messages, htrace]
    exact h.told

/-- While the loop is at its head no message is on its way. -/
theorem Talks.none_of_loop (h : Talks cfg i g n) (hone : n.Single i) (hloop : .readLoop i ∈ n.calls) :
    n.calls.filter (Call.messaging i) = [] := by
  refine List.filter_eq_nil_iff.mpr fun c hc hmsg => ?_
  obtain ⟨stack, hstack, hmem⟩ := List.mem_flatten.mp hc
  have hconsume : .readConsume i ∈ n.calls :=
    List.mem_flatten.mpr ⟨stack, hstack, (h.behind stack hstack).mem hmem hmsg⟩
  have hsame := hone.eq_of_reading hconsume hloop (by simp [Call.reading]) (by simp [Call.reading])
  cases hsame

theorem behind_run {t : ℕ} {c : Call} {rest new : List Call} (h : ∀ stack ∈ n.threads, Behind i stack)
    (hstack : n.threads[t]? = some (c :: rest)) (hnew : Behind i rest → Behind i (new ++ rest)) :
    ∀ stack ∈ n.threads.set t (new ++ rest), Behind i stack := by
  intro stack hmem
  rcases List.mem_or_eq_of_mem_set hmem with hmem | rfl
  · exact h stack hmem
  · exact hnew (h _ (List.mem_of_getElem? hstack)).2

theorem mem_complete {o : Obj} {b : SessionIo} {s : Session} {stack : List Call}
    (h : complete j o b = some (s, stack)) {c : Call} (hc : c ∈ stack) :
    (∃ k, c = .writeDone j k false) ∨ c = .readLoop j ∨ (∃ text, c = .error (some j) text) ∨
      (∃ a, c = .close a) ∨ c = .guard j := by
  obtain ⟨-, rfl | ⟨k, rfl⟩ | rfl | ⟨ec, tail, -, -, htail, rfl⟩⟩ := complete_cases h
  · cases hc
  · exact .inl ⟨k, List.mem_singleton.mp hc⟩
  · exact .inr (.inl (List.mem_singleton.mp hc))
  · rcases List.mem_append.mp hc with hc | hc
    · unfold errorCallback at hc
      split at hc
      · rcases List.mem_append.mp hc with hc | hc
        · split at hc
          · cases hc
          · exact .inr (.inr (.inl ⟨_, List.mem_singleton.mp hc⟩))
        · exact .inr (.inr (.inr (.inl ⟨_, List.mem_singleton.mp hc⟩)))
      · cases hc
    · rcases htail with rfl | rfl
      · cases hc
      · exact .inr (.inr (.inr (.inr (List.mem_singleton.mp hc))))

theorem Talks.step (h : Talks cfg i g n) (hone : n.Single i) (hprep : n.Prepared)
    (hstep : Step cfg n a n') : Talks cfg i (noteFor cfg i n g a) n' := by
  have hplain : ∀ b, (∀ j io, b ≠ .io j io) → (∀ t prog next, b ≠ .run t prog next) →
      (noteFor cfg i n g b).frames = g.frames := fun b hio hrun =>
    congrArg Traffic.frames (noteFor_plain hio hrun)
  cases hstep with
  | call c => exact h.spawn (not_messaging_prog cfg [c] i) rfl rfl (hplain _ (by simp) (by simp))
  | arrive _ _ => exact ⟨h.behind, h.one, by rw [hplain _ (by simp) (by simp)]; exact h.told⟩
  | acceptFail message _ => exact h.spawn (by simp [Call.messaging]) rfl rfl (hplain _ (by simp) (by simp))
  | @acceptDone a _ _ => exact h.spawn (by simp [Call.messaging]) rfl rfl (hplain _ (by simp) (by simp))
  | @io j b o s stack ho hc =>
      refine h.spawn (fun c hmem => ?_) rfl rfl (noteFor_io_same j b).2
      rcases mem_complete hc hmem with ⟨k, rfl⟩ | rfl | ⟨text, rfl⟩ | ⟨a, rfl⟩ | rfl <;> rfl
  | @run t prog next c rest new m hstack hen hexec =>
      have hthreads := exec_threads hexec
      have hperm := calls_run new hstack hthreads
      rw [(hone.kept.exec hstack hexec).sweep] at hperm ⊢
      cases Tells.of_exec (i := i) hexec with
      | quiet hc hmsg hnew hframes =>
          have hsame : (noteFor cfg i n g (.run t prog next)).frames = g.frames := by
            cases hs : n.session i with
            | none => rw [noteFor_none hs]
            | some s => rw [noteFor_run hs hstack]; exact hframes s g hs
          have hnil : new.filter (Call.messaging i) = [] :=
            List.filter_eq_nil_iff.mpr fun d hd => by simp [hnew d hd]
          have hfilter := Slots.filter_exchange hperm hc
          rw [hnil, List.nil_append] at hfilter
          have heq := Slots.eq_of_perm_of_length_le_one hfilter h.one
          refine ⟨?_, by rw [heq]; exact h.one, ?_⟩
          · show ∀ stack ∈ m.threads.set t (new ++ rest), Behind i stack
            rw [hthreads]
            exact behind_run h.behind hstack (behind_append hnew)
          · rw [heq, hsame]
            exact (congrArg (· ++ _) hmsg).trans h.told
      | message head length content hmsg hnew =>
          have hc : (Call.message i head length content).messaging i = true := by
            simp [Call.messaging]
          have hlone := Slots.eq_singleton_of_mem h.one (List.mem_filter.mpr ⟨mem_calls hstack, hc⟩)
          have hnil : new.filter (Call.messaging i) = [] :=
            List.filter_eq_nil_iff.mpr fun d hd => by simp [hnew d hd]
          have hfilter := Slots.filter_exchange_of_eq hperm hlone
          rw [hnil] at hfilter
          have heq := List.perm_nil.mp hfilter
          have hsame : (noteFor cfg i n g (.run t prog next)).frames = g.frames := by
            cases hs : n.session i with
            | none => rw [noteFor_none hs]
            | some s => rw [noteFor_run hs hstack]; rfl
          refine ⟨?_, by rw [heq]; exact Nat.zero_le 1, ?_⟩
          · show ∀ stack ∈ m.threads.set t (new ++ rest), Behind i stack
            rw [hthreads]
            exact behind_run h.behind hstack (behind_append hnew)
          · have htold := h.told
            rw [hlone] at htold
            rw [heq, hsame, ← htold, List.flatMap_nil, List.append_nil]
            exact hmsg
      | @frame o f s ho hturn hmsg =>
          have hloop : .readLoop i ∈ n.calls := mem_calls hstack
          have hpending := h.none_of_loop hone hloop
          have hset := hprep.set_of_reading hone ho hloop
          have hs : n.session i = some o.sess := by simp [session, ho]
          have hfilter := Slots.filter_exchange (p := Call.messaging i) hperm rfl
          have hmsgs : (readCallback cfg i o f ++ [Call.readConsume i]).filter (Call.messaging i) =
              [messageCall cfg i f.content] := by
            rw [List.filter_append, readCallback_messaging hset, if_pos rfl]
            rfl
          rw [hmsgs, hpending, List.append_nil] at hfilter
          have heq := List.perm_singleton.mp hfilter
          refine ⟨?_, by rw [heq]; exact Nat.le_refl 1, ?_⟩
          · show ∀ stack ∈ m.threads.set t ((readCallback cfg i o f ++ [Call.readConsume i]) ++ rest),
              Behind i stack
            rw [hthreads]
            refine behind_run h.behind hstack fun hrest => ?_
            rw [List.append_assoc]
            exact behind_consume hrest
          · have htold := h.told
            rw [hpending, List.flatMap_nil, List.append_nil] at htold
            rw [heq, noteFor_run hs hstack]
            simp only [noteCall, hturn, if_true, List.flatMap_append, ← htold]
            exact congrArg (· ++ _) hmsg

theorem Talks.of_run (h : Run (Server.step cfg) Anything create acts n) (i : ℕ) :
    Talks cfg i (traffic cfg i acts) n := by
  induction h with
  | refl => exact ⟨nofun, Nat.zero_le 1, rfl⟩
  | @tail acts a n n' hrun _ hs ih =>
      rw [traffic_snoc hrun hs]
      exact ih.step (Single.of_run hrun i) (Prepared.of_run hrun) (Step.of_step hs)

/-- What goes through a session: nothing is sent twice or out of order, and the contents that were
received become messages, in their order. -/
structure Relays (cfg : Config) (i : ℕ) (g : Traffic) (n : Server) : Prop where
  sent : g.wire <+: cfg.codec.stream g.written
  told : ∀ ps : List (List Byte), (∀ q ∈ ps, cfg.hdLen ≤ q.length ∧ q.length < cfg.codec.bound) →
    g.received <+: cfg.codec.stream ps → n.messages i <+: ps.map (messageFor cfg i)

/-- What was sent, and what was received and is still to be made a frame. -/
theorem halves_of_run (h : Run (Server.step cfg) Anything create acts n) (i : ℕ) :
    (traffic cfg i acts).wire <+: cfg.codec.stream (traffic cfg i acts).written ∧
      ∀ ps : List (List Byte), (∀ q ∈ ps, q.length < cfg.codec.bound) →
        (traffic cfg i acts).received <+: cfg.codec.stream ps →
          (traffic cfg i acts).frames.map Frame.content <+: ps := by
  obtain ⟨p, ⟨acts', hlive, htraffic⟩, -⟩ := mirrors_of_run h i
  rw [← Live.traffic] at htraffic
  obtain ⟨todo, held, hintake⟩ := Live.Intake.of_run (p := fun _ => false)
    (fun _ _ _ he => by cases he) hlive
  rw [← htraffic]
  exact ⟨(Live.SendHalf.of_run hlive).sent, fun ps hps hpre => hintake.contents hps hpre⟩

theorem Relays.of_run (h : Run (Server.step cfg) Anything create acts n) (i : ℕ) :
    Relays cfg i (traffic cfg i acts) n := by
  obtain ⟨hsent, hreceived⟩ := halves_of_run h i
  refine ⟨hsent, fun ps hps hpre => ?_⟩
  have hcontents := hreceived ps (fun q hq => (hps q hq).2) hpre
  have hframes : ((traffic cfg i acts).frames.flatMap fun f => messageOf (messageCall cfg i f.content)) =
      ((traffic cfg i acts).frames.map Frame.content).map (messageFor cfg i) := by
    rw [List.map_map, List.map_eq_flatMap]
    refine List.flatMap_congr fun f hf => messageOf_messageCall ?_
    exact (hps _ (hcontents.subset (List.mem_map_of_mem hf))).1
  exact List.IsPrefix.trans ⟨_, (Talks.of_run h i).told.trans hframes⟩ (hcontents.map _)

/-- **What a peer of a server can rely on.**  In every run of a server and for each of its sessions: what
was sent begins the frames of the contents that were written to the session; and when what was received
begins the frames of `ps`, which all hold a header, the messages that the user was given of the session
are those of the first contents of `ps`, in their order. -/
theorem messages_prefix (h : Run (Server.step cfg) Anything create acts n) (i : ℕ) :
    (traffic cfg i acts).wire <+: cfg.codec.stream (traffic cfg i acts).written ∧
      ∀ ps : List (List Byte), (∀ q ∈ ps, cfg.hdLen ≤ q.length ∧ q.length < cfg.codec.bound) →
        (traffic cfg i acts).received <+: cfg.codec.stream ps →
          n.messages i <+: ps.map (messageFor cfg i) :=
  ⟨(Relays.of_run h i).sent, (Relays.of_run h i).told⟩

theorem messages_prefix_asks :
    ∃ n, Run (Server.step .shipped) Anything create clientAsks n ∧
      n.messages 0 = [.onMessage 0 [5] 0 1] ∧
      (traffic .shipped 0 clientAsks).wire <+:
        Config.shipped.codec.stream (traffic .shipped 0 clientAsks).written ∧
      n.messages 0 <+: [[5]].map (messageFor .shipped 0) := by
  have h := Run.of_exec (Server.step .shipped) create clientAsks (by decide +kernel)
  obtain ⟨hsent, htold⟩ := messages_prefix h 0
  exact ⟨_, h, by decide +kernel, hsent, htold [[5]] (by decide +kernel) (by decide +kernel)⟩

end Server

end AsioTcpFrame
