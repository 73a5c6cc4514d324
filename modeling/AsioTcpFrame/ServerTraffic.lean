import AsioTcpFrame.ServerLifetime
import AsioTcpFrame.Traffic

/-! # A session of a server

The sessions of a `Server` are taken apart into calls that run on its threads: `Session::write` tests the
flag, locks `send_mtx`, and writes; the write handler locks `send_mtx` before it does anything.  In
`Live` each of them is one step.

`Mirrors n i m` says that the session `m` of `Live` is where the session `i` of the server `n` is: the
write that completed is still outstanding in `m` until its handler has the mutex, and the read handler
in `m` is the call of the server that reads.  Every step of the server is matched by steps of `m` that
let the same bytes and the same frames through (`Mirrors.step`), so what goes through a session of a
server in a run is what goes through a session of `Live` in some run (`refines_live`). -/

namespace AsioTcpFrame

open Transition Framing
open scoped List

namespace Session

/-- `s`, with the writes `d` completed and their handlers still to run. -/
def withDone (d : List WriteOp) (s : Session) : Session := { s with writes := d ++ s.writes }

section withDone
variable (d : List WriteOp) (s : Session) (cfg : Config)

theorem withDone_doRead : (s.withDone d).doRead = s.doRead.withDone d := by
  cases hs : s.stopped <;> simp [doRead, withDone, hs]

theorem withDone_doWrite : (s.withDone d).doWrite = s.doWrite.withDone d := by
  cases hs : s.stopped with
  | true => simp only [doWrite, withDone, hs, if_true]
  | false => by_cases hb : s.sendBuf.length = 0 <;> simp [doWrite, withDone, hs, hb]

theorem withDone_writeLocked (content : List Byte) :
    (s.withDone d).writeLocked cfg content = (s.writeLocked cfg content).withDone d := by
  cases hw : s.isWriting with
  | true => simp only [writeLocked, withDone, append, hw, if_true]
  | false =>
      have hw' : (s.withDone d).isWriting = false := hw
      simp only [writeLocked, hw, hw', Bool.false_eq_true, if_false]
      exact withDone_doWrite d (s.append cfg content)

variable {d} {s} {cfg} {s' : Session} {f : Frame}

theorem withDone_turn_brk (h : s.turn cfg = .brk) : (s.withDone d).turn cfg = .brk := by
  rcases turn_eq_brk h with ⟨hr, hlt⟩ | ⟨hr, hlt⟩
  · simp only [turn, withDone, hr, if_true, Nat.not_le.mpr hlt, if_false]
  · simp only [turn, withDone, hr, Bool.false_eq_true, if_false, Nat.not_le.mpr hlt, dif_neg,
      not_false_eq_true]

theorem withDone_turn_head (h : s.turn cfg = .head s') :
    (s.withDone d).turn cfg = .head (s'.withDone d) := by
  obtain ⟨hr, hsz, hp, rfl⟩ := turn_eq_head h
  simp only [turn, withDone, hr, if_true, hsz, hp]

theorem withDone_turn_body (h : s.turn cfg = .body f s') :
    (s.withDone d).turn cfg = .body f (s'.withDone d) := by
  obtain ⟨hr, hb, hlen, hcontent, rfl⟩ := turn_eq_body h
  obtain ⟨length, content, _⟩ := f
  simp only at hlen hcontent
  subst hlen hcontent
  simp only [turn, withDone, hr, Bool.false_eq_true, if_false, hb, dif_pos]

end withDone

end Session

namespace Server

variable (cfg : Config)

/-- The state of the session `i`. -/
def session (n : Server) (i : ℕ) : Option Session := (n.sessions[i]?).map Obj.sess

/-- What is noted of the step of a call, for the session `i` in the state `s`. -/
def noteCall (i : ℕ) (s : Session) (g : Traffic) : Call → Traffic
  | .sessionWrite j bytes .body =>
      if j = i then { g with written := g.written ++ [bytes] } else g
  | .readLoop j =>
      match s.turn cfg with
      | .body f _ => if j = i then { g with frames := g.frames ++ [f] } else g
      | _ => g
  | _ => g

/-- What is noted of what happens to the operations of a session in the state `s`. -/
def noteIo (s : Session) (g : Traffic) : SessionIo → Traffic
  | .send k => { g with wire := g.wire ++ ((s.send k).map Prod.fst).getD [] }
  | .recv bytes => { g with received := g.received ++ bytes }
  | _ => g

/-- What is noted of a step for the session `i`. -/
def noteFor (i : ℕ) (n : Server) (g : Traffic) (a : ServerAct) : Traffic :=
  match n.session i, a with
  | some s, .io j b => if j = i then noteIo s g b else g
  | some s, .run t _ _ => ((n.top t).map (noteCall cfg i s g)).getD g
  | _, _ => g

/-- What has gone through the session `i` in a run. -/
def traffic (i : ℕ) (acts : List ServerAct) : Traffic :=
  follow (Server.step cfg) (noteFor cfg i) create Traffic.empty acts

variable {cfg} {n n' m : Server} {a : ServerAct} {i j : ℕ} {s s' : Session} {g : Traffic}

theorem noteFor_none (h : n.session i = none) (a : ServerAct) : noteFor cfg i n g a = g := by
  simp only [noteFor, h]

theorem noteFor_io (h : n.session i = some s) (j : ℕ) (b : SessionIo) :
    noteFor cfg i n g (.io j b) = if j = i then noteIo s g b else g := by
  simp only [noteFor, h]

theorem noteFor_run (h : n.session i = some s) {t : ℕ} {prog : List Api} {next : Option ℕ} {c : Call}
    {rest : List Call} (hstack : n.threads[t]? = some (c :: rest)) :
    noteFor cfg i n g (.run t prog next) = noteCall cfg i s g c := by
  simp [noteFor, h, top, hstack]

theorem noteFor_plain (hio : ∀ j b, a ≠ .io j b) (hrun : ∀ t prog next, a ≠ .run t prog next) :
    noteFor cfg i n g a = g := by
  unfold noteFor
  split
  · exact absurd rfl (hio _ _)
  · exact absurd rfl (hrun _ _ _)
  · rfl

theorem noteFor_io_same (j : ℕ) (b : SessionIo) :
    (noteFor cfg i n g (.io j b)).written = g.written ∧
      (noteFor cfg i n g (.io j b)).frames = g.frames := by
  cases hs : n.session i with
  | none =>
      rw [noteFor_none hs]
      exact ⟨rfl, rfl⟩
  | some s =>
      rw [noteFor_io hs]
      split
      · cases b <;> exact ⟨rfl, rfl⟩
      · exact ⟨rfl, rfl⟩

/-- The notes of one more step. -/
theorem traffic_snoc {acts : List ServerAct} (h : Run (Server.step cfg) Anything create acts n)
    (hs : n.step cfg a = some n') (i : ℕ) :
    traffic cfg i (acts ++ [a]) = noteFor cfg i n (traffic cfg i acts) a := by
  rw [traffic, h.follow_append, follow, hs]
  rfl

/-! ### What a call does to a session -/

/-- What a step of a call means for the session `i` in the state `s`: the state after it, and the calls
of its read loop and of its write handler that take the place of the call. -/
inductive Moves (cfg : Config) (i : ℕ) (s : Session) :
    Call → Session → List Call → List Call → Prop
  | quiet {c : Call} : c.reading i = false → c.writing i = false →
      (∀ bytes, c ≠ .sessionWrite i bytes .body) → Moves cfg i s c s [] []
  | prepare (pc pc' : AcceptPc) : pc ≠ .rearm → pc' ≠ .rearm →
      Moves cfg i s (.accepted i pc) s [.accepted i pc'] []
  | start : Moves cfg i s (.accepted i .start) s.start [] []
  | write (bytes : List Byte) :
      Moves cfg i s (.sessionWrite i bytes .body) (s.writeLocked cfg bytes) [] []
  | brk : s.turn cfg = .brk → Moves cfg i s (.readLoop i) s.doRead [] []
  | head {s' : Session} : s.turn cfg = .head s' → Moves cfg i s (.readLoop i) s' [.readLoop i] []
  | body {f : Frame} {s' : Session} : s.turn cfg = .body f s' →
      Moves cfg i s (.readLoop i) s' [.readConsume i] []
  | consume : Moves cfg i s (.readConsume i) s.consumeBody [.readLoop i] []
  | lock (len : ℕ) : Moves cfg i s (.writeDone i len false) s [] [.writeDone i len true]
  | done (len : ℕ) : Moves cfg i s (.writeDone i len true) (s.writeDone len) [] []

theorem session_onSess (f : Session → Session) :
    (n.onSess j f).session i = if j = i then (n.session i).map f else n.session i := by
  simp only [session, onSess, modify, List.getElem?_modify]
  split <;> cases n.sessions[i]? <;> simp_all

theorem session_modify {f : Obj → Obj} (hf : ∀ o, (f o).sess = o.sess) :
    (n.modify j f).session i = n.session i := by
  simp only [session, modify, List.getElem?_modify]
  split <;> cases n.sessions[i]? <;> simp_all

/-- Calls of which none is one of the read loop or the write handler of the session `i`. -/
def Aloof (i : ℕ) (stack : List Call) : Prop :=
  stack.filter (Call.reading i) = [] ∧ stack.filter (Call.writing i) = []

theorem aloof_of_initial {stack : List Call} (h : ∀ c ∈ stack, c.Initial) (i : ℕ) : Aloof i stack :=
  ⟨List.filter_eq_nil_iff.mpr (List.countP_eq_zero.mp ((idle_of_initial h).reading i)),
    List.filter_eq_nil_iff.mpr (List.countP_eq_zero.mp (not_writing_of_initial h i))⟩

theorem aloof_append {stack tail : List Call} (h : Aloof i stack) (h' : Aloof i tail) :
    Aloof i (stack ++ tail) := by
  simp only [Aloof, List.filter_append, h.1, h.2, h'.1, h'.2, List.append_nil, and_self]

theorem apart_of_worksOn {c : Call} (h : c.worksOn ≠ some i) :
    c.reading i = false ∧ c.writing i = false ∧ ∀ bytes, c ≠ .sessionWrite i bytes .body := by
  have hne : ∀ j, c.worksOn = some j → j ≠ i := by
    rintro j hj rfl
    exact h hj
  cases c with
  | accepted j pc =>
      have hj := hne j rfl
      refine ⟨?_, rfl, by simp⟩
      cases pc <;> simp [Call.reading, hj]
  | sessionWrite j bytes pc => simp [Call.reading, Call.writing, hne j rfl]
  | readLoop j => simp [Call.reading, Call.writing, hne j rfl]
  | readConsume j => simp [Call.reading, Call.writing, hne j rfl]
  | writeDone j len locked => simp [Call.reading, Call.writing, hne j rfl]
  | _ => simp [Call.reading, Call.writing]

theorem aloof_of_worksOn {stack : List Call} (h : ∀ c ∈ stack, c.Initial ∨ c.worksOn ≠ some i) :
    Aloof i stack := by
  have hnone : ∀ c ∈ stack, c.reading i = false ∧ c.writing i = false := by
    intro c hc
    rcases h c hc with hinit | hne
    · cases hinit <;> exact ⟨rfl, rfl⟩
    · exact ⟨(apart_of_worksOn hne).1, (apart_of_worksOn hne).2.1⟩
  constructor
  · exact List.filter_eq_nil_iff.mpr fun c hc => by simp [(hnone c hc).1]
  · exact List.filter_eq_nil_iff.mpr fun c hc => by simp [(hnone c hc).2]

/-- In the server `m` the step of the call `c` has done to the session `i` what it means for it. -/
inductive Moved (cfg : Config) (i : ℕ) (s : Session) (c : Call) (m : Server) (new : List Call) : Prop
  | intro {s' : Session} {r w : List Call} : m.session i = some s' → Moves cfg i s c s' r w →
      new.filter (Call.reading i) = r → new.filter (Call.writing i) = w → Moved cfg i s c m new

theorem Moved.of_quiet {c : Call} {new : List Call} (hs : m.session i = some s)
    (hc : c.reading i = false ∧ c.writing i = false ∧ ∀ bytes, c ≠ .sessionWrite i bytes .body)
    (hnew : Aloof i new) : Moved cfg i s c m new :=
  .intro hs (.quiet hc.1 hc.2.1 hc.2.2) hnew.1 hnew.2

theorem Moved.of_other {c : Call} {new : List Call} (hs : m.session i = some s)
    (hc : c.worksOn = some j) (hj : j ≠ i) (hnew : ∀ d ∈ new, d.Initial ∨ d.worksOn = some j) :
    Moved cfg i s c m new := by
  have hne : c.worksOn ≠ some i := by
    rw [hc]
    exact fun h => hj (Option.some.inj h)
  refine .of_quiet hs (apart_of_worksOn hne) ?_
  refine aloof_of_worksOn fun d hd => (hnew d hd).imp_right fun hd => ?_
  rw [hd]
  exact fun h => hj (Option.some.inj h)

/-- **What a call means for a session.** -/
theorem Moved.of_exec {prog : List Api} {next : Option ℕ} {c : Call} {new : List Call}
    (h : n.exec cfg prog next c = some (m, new)) (hs : n.session i = some s) :
    Moved cfg i s c m new := by
  have hprog : Aloof i (prog.map (Api.toCall cfg)) := aloof_of_initial (initial_prog cfg prog) i
  have hother : ∀ j (f : Session → Session), j ≠ i → (n.onSess j f).session i = some s := by
    intro j f hj
    rw [session_onSess, if_neg hj, hs]
  have hself : ∀ f : Session → Session, (n.onSess i f).session i = some (f s) := by
    intro f
    rw [session_onSess, if_pos rfl, hs]
    rfl
  have hmodify : ∀ j (f : Obj → Obj), (∀ o, (f o).sess = o.sess) →
      (n.modify j f).session i = some s := fun j f hf => (session_modify hf).trans hs
  have hget : ∀ o, n.sessions[i]? = some o → o.sess = s := by
    intro o ho
    simpa [session, ho] using hs
  cases Exec.of_exec h with
  | write _ _ | close _ | closeAll | test _ _ =>
      refine .of_quiet hs (by simp [Call.reading, Call.writing]) ?_
      split <;> exact ⟨rfl, rfl⟩
  | advance =>
      refine .of_quiet (m := { n with ub := true }) hs (by simp [Call.reading, Call.writing]) ?_
      split <;> exact ⟨rfl, rfl⟩
  | erase a j all =>
      refine .of_quiet (m := n.poolErase a) hs (by simp [Call.reading, Call.writing]) ?_
      cases all <;> exact ⟨rfl, rfl⟩
  | disconnect a j all =>
      exact .of_quiet hs (by simp [Call.reading, Call.writing]) (aloof_append hprog ⟨rfl, rfl⟩)
  | message j head length content => exact .of_quiet hs (by simp [Call.reading, Call.writing]) hprog
  | error j message => exact .of_quiet hs (by simp [Call.reading, Call.writing]) hprog
  | @insert j o ho =>
      by_cases hj : j = i
      · subst hj; exact .intro hs (.prepare _ .setError (by simp) (by simp)) (by simp [Call.reading]) rfl
      · exact .of_other hs rfl hj (by simp [Call.worksOn])
  | setError j =>
      have hm := hmodify j (fun o => { o with errorCallback := true }) fun _ => rfl
      by_cases hj : j = i
      · subst hj; exact .intro hm (.prepare _ .setRead (by simp) (by simp)) (by simp [Call.reading]) rfl
      · exact .of_other hm rfl hj (by simp [Call.worksOn])
  | setRead j =>
      have hm := hmodify j (fun o => { o with readCallback := true }) fun _ => rfl
      by_cases hj : j = i
      · subst hj; exact .intro hm (.prepare _ .connect (by simp) (by simp)) (by simp [Call.reading]) rfl
      · exact .of_other hm rfl hj (by simp [Call.worksOn])
  | connect j =>
      by_cases hj : j = i
      · subst hj
        refine .intro hs (.prepare _ .start (by simp) (by simp)) ?_ ?_
        · rw [List.filter_append, hprog.1]; simp [Call.reading]
        · rw [List.filter_append, hprog.2]; rfl
      · refine .of_other hs rfl hj fun d hd => (List.mem_append.mp hd).imp (initial_prog cfg prog d) ?_
        intro hd
        rw [List.mem_singleton.mp hd]
        rfl
  | start j =>
      by_cases hj : j = i
      · subst hj; exact .intro (hself _) .start rfl rfl
      · exact .of_other (hother j _ hj) rfl hj (by simp [Call.worksOn])
  | body j bytes =>
      by_cases hj : j = i
      · subst hj; exact .intro (hself _) (.write bytes) rfl rfl
      · exact .of_other (hother j _ hj) rfl hj (by simp [Call.worksOn])
  | @loopBreak j o ho hturn =>
      by_cases hj : j = i
      · subst hj
        rw [hget o ho] at hturn
        exact .intro (hself _) (.brk hturn) rfl rfl
      · exact .of_other (hother j _ hj) rfl hj (by simp [Call.worksOn])
  | @loopHead j o s' ho hturn =>
      by_cases hj : j = i
      · subst hj
        rw [hget o ho] at hturn
        exact .intro (hself _) (.head hturn) (by simp [Call.reading]) rfl
      · exact .of_other (hother j _ hj) rfl hj (by simp [Call.worksOn])
  | @loopBody j o f s' ho hturn =>
      have hcall : Aloof i (readCallback cfg j o f) := aloof_of_initial (initial_readCallback j o f) i
      by_cases hj : j = i
      · subst hj
        rw [hget o ho] at hturn
        refine .intro (hself _) (.body hturn) ?_ ?_
        · rw [List.filter_append, hcall.1]; simp [Call.reading]
        · rw [List.filter_append, hcall.2]; rfl
      · refine .of_other (hother j _ hj) rfl hj fun d hd =>
          (List.mem_append.mp hd).imp (initial_readCallback j o f d) ?_
        intro hd
        rw [List.mem_singleton.mp hd]
        rfl
  | consume j =>
      by_cases hj : j = i
      · subst hj; exact .intro (hself _) .consume (by simp [Call.reading]) rfl
      · exact .of_other (hother j _ hj) rfl hj (by simp [Call.worksOn])
  | doneLock j len =>
      by_cases hj : j = i
      · subst hj; exact .intro hs (.lock len) rfl (by simp [Call.writing])
      · exact .of_other hs rfl hj (by simp [Call.worksOn])
  | done j len =>
      by_cases hj : j = i
      · subst hj; exact .intro (hself _) (.done len) rfl rfl
      · exact .of_other (hother j _ hj) rfl hj (by simp [Call.worksOn])
  | _ => exact .of_quiet hs (by simp [Call.reading, Call.writing]) ⟨rfl, rfl⟩

/-! ### Where the session is in `Live` -/

/-- The user makes no calls. -/
def mute : Callback → List Empty := fun _ => []

/-- The calls of the write handler, and the write that has completed. -/
inductive Finishing (i : ℕ) : List Call → List WriteOp → Prop
  | nothing : Finishing i [] []
  | one (data : List Byte) (k : ℕ) (locked : Bool) :
      Finishing i [.writeDone i k locked] [⟨data, some k⟩]

/-- The calls of the read loop, whether the session was started, and the read handler. -/
inductive Doing (i : ℕ) : List Call → Bool → List (Activation Empty) → Prop
  | preparing (pc : AcceptPc) : pc ≠ .rearm → Doing i [.accepted i pc] false []
  | waiting : Doing i [] true []
  | looping : Doing i [.readLoop i] true [.loop]
  | calling : Doing i [.readConsume i] true [.reading []]

/-- The session `m` is in the state `s`, but for the completed write of a handler that is running; `r`
and `w` are the calls of its read loop and of its write handler. -/
structure Copies (i : ℕ) (s : Session) (r w : List Call) (m : Live Empty) : Prop where
  sess : ∃ d, m.sess = s.withDone d ∧ Finishing i w d
  testing : m.testing = false
  doing : Doing i r m.started m.running

/-- The session `m` is where the session `i` of the server `n` is. -/
inductive Mirrors (n : Server) (i : ℕ) (m : Live Empty) : Prop
  | absent : n.session i = none → m = Live.create → Mirrors n i m
  | present {s : Session} : n.session i = some s →
      Copies i s (n.calls.filter (Call.reading i)) (n.calls.filter (Call.writing i)) m → Mirrors n i m

/-- Steps lead from `p` to `p'` and make the notes `g` to `g'`. -/
def Goes (cfg : Config) (p : Live Empty) (g : Traffic) (p' : Live Empty) (g' : Traffic) : Prop :=
  ∃ bs, Run (Live.step cfg mute) Anything p bs p' ∧
    follow (Live.step cfg mute) (Live.note cfg) p g bs = g'

variable {p p' p'' : Live Empty} {g' g'' : Traffic} {c : Call} {r w : List Call}

theorem Goes.refl (cfg : Config) (p : Live Empty) (g : Traffic) : Goes cfg p g p g := ⟨[], .refl, rfl⟩

theorem Goes.tail (h : Goes cfg p g p' g') {b : SessionAct}
    (hstep : p'.step cfg mute b = some p'') (hnote : p'.note cfg g' b = g'') :
    Goes cfg p g p'' g'' := by
  obtain ⟨bs, hrun, rfl⟩ := h
  refine ⟨bs ++ [b], hrun.tail trivial hstep, ?_⟩
  rw [hrun.follow_append, follow, hstep]
  exact hnote

theorem Goes.single {b : SessionAct} (hstep : p.step cfg mute b = some p')
    (hnote : p.note cfg g b = g') : Goes cfg p g p' g' := (Goes.refl cfg p g).tail hstep hnote

theorem Goes.enter (h : Goes cfg p g p' g') {b : SessionAct} {s : Session} (hs : s.stopped = false)
    (hstep : p'.step cfg mute b = some (p'.enter s (.failing []))) (hnote : p'.note cfg g' b = g') :
    Goes cfg p g (p'.withSess s) g' := by
  have hlast : (p'.running ++ [Activation.failing []])[p'.running.length]? = some (.failing []) := by
    simp
  have henter : p'.enter s (.failing []) =
      { p' with sess := s, running := p'.running ++ [.failing []] } := by
    simp only [Live.enter, hs, Bool.false_eq_true, if_false]
  refine (h.tail hstep hnote).tail (b := .run p'.running.length) ?_ ?_
  · have herase : (p'.running ++ [Activation.failing []]).eraseIdx p'.running.length = p'.running := by
      rw [List.eraseIdx_append_of_length_le (le_refl _)]
      simp
    rw [henter]
    simp [Live.step, Live.run, Live.leave, Live.withSess, herase]
  · rw [henter]
    simp [Live.note, Live.handed]

theorem noteCall_quiet (hr : c.reading i = false) (hb : ∀ bytes, c ≠ .sessionWrite i bytes .body) :
    noteCall cfg i s g c = g := by
  unfold noteCall
  split
  · next j bytes =>
    have hj : j ≠ i := fun hj => hb bytes (by rw [hj])
    exact if_neg hj
  · next j =>
    have hj : j ≠ i := by simpa [Call.reading] using hr
    split
    · exact if_neg hj
    · rfl
  · rfl

theorem Doing.of_accepted {pc : AcceptPc} {b : Bool} {l : List (Activation Empty)}
    (h : Doing i [.accepted i pc] b l) : b = false ∧ l = [] := by
  cases h with
  | preparing _ _ => exact ⟨rfl, rfl⟩

theorem Doing.of_loop {b : Bool} {l : List (Activation Empty)} (h : Doing i [.readLoop i] b l) :
    b = true ∧ l = [.loop] := by
  cases h with
  | looping => exact ⟨rfl, rfl⟩

theorem Doing.of_consume {b : Bool} {l : List (Activation Empty)} (h : Doing i [.readConsume i] b l) :
    b = true ∧ l = [.reading []] := by
  cases h with
  | calling => exact ⟨rfl, rfl⟩

theorem Doing.of_nil {b : Bool} {l : List (Activation Empty)} (h : Doing i [] b l) :
    b = true ∧ l = [] := by
  cases h with
  | waiting => exact ⟨rfl, rfl⟩

theorem Finishing.of_one {d : List WriteOp} {k : ℕ} {locked : Bool}
    (h : Finishing i [.writeDone i k locked] d) : ∃ data, d = [⟨data, some k⟩] := by
  cases h with
  | one data _ _ => exact ⟨data, rfl⟩

/-- **A step of a call is matched.**  `c` is the only call of the read loop, or of the write handler, if
it is one of them. -/
theorem Copies.moves (h : Copies i s r w p) (hs : s.stopped = false) {r' w' : List Call}
    (hm : Moves cfg i s c s' r' w') (hr : c.reading i = true → r = [c])
    (hw : c.writing i = true → w = [c]) :
    ∃ p', Goes cfg p g p' (noteCall cfg i s g c) ∧
      Copies i s' (if c.reading i then r' else r) (if c.writing i then w' else w) p' := by
  obtain ⟨⟨d, hsess, hfin⟩, htest, hdo⟩ := h
  have hstop : p.sess.stopped = false := by rw [hsess]; exact hs
  cases hm with
  | quiet hcr hcw hcb =>
      rw [noteCall_quiet hcr hcb, hcr, hcw]
      exact ⟨p, .refl cfg p g, ⟨d, hsess, hfin⟩, htest, hdo⟩
  | prepare pc pc' hpc hpc' =>
      have hcr : (Call.accepted i pc).reading i = true := by cases pc <;> simp_all [Call.reading]
      rw [hr hcr] at hdo
      obtain ⟨hstarted, hrunning⟩ := hdo.of_accepted
      rw [if_pos hcr]
      refine ⟨p, .refl cfg p g, ⟨d, hsess, hfin⟩, htest, ?_⟩
      rw [hstarted, hrunning]
      exact .preparing pc' hpc'
  | start =>
      have hcr : (Call.accepted i .start).reading i = true := by simp [Call.reading]
      rw [hr hcr] at hdo
      obtain ⟨hstarted, hrunning⟩ := hdo.of_accepted
      rw [if_pos hcr]
      refine ⟨{ p with sess := p.sess.start, started := true },
        .single (b := .start) (by simp only [Live.step, hstarted]; rfl) rfl,
        ⟨d, ?_, hfin⟩, htest, ?_⟩
      · show p.sess.start = _
        rw [hsess]
        exact Session.withDone_doRead d s
      · show Doing i [] true p.running
        rw [hrunning]
        exact .waiting
  | write bytes =>
      refine ⟨p.withSess (p.sess.write cfg bytes), .single (b := .write bytes) rfl ?_,
        ⟨d, ?_, hfin⟩, htest, hdo⟩
      · simp only [Live.note, hstop, noteCall, Bool.false_eq_true, if_false, if_true]
      · show p.sess.write cfg bytes = _
        rw [Session.write, if_neg (by simp [hstop]), hsess]
        exact Session.withDone_writeLocked d s cfg bytes
  | brk hturn =>
      have hcr : (Call.readLoop i).reading i = true := by simp [Call.reading]
      rw [hr hcr] at hdo
      obtain ⟨hstarted, hrunning⟩ := hdo.of_loop
      have hact : p.running[0]? = some .loop := by rw [hrunning]; rfl
      have hturn' : p.sess.turn cfg = .brk := by rw [hsess]; exact Session.withDone_turn_brk hturn
      rw [if_pos hcr]
      refine ⟨(p.withSess p.sess.doRead).leave 0, .single (b := .run 0) ?_ ?_, ⟨d, ?_, hfin⟩, htest, ?_⟩
      · simp only [Live.step, Live.run, hact, hturn']
      · simp only [Live.note, Live.handed, hact, hturn', noteCall, hturn, List.append_nil]
      · show p.sess.doRead = _
        rw [hsess]
        exact Session.withDone_doRead d s
      · show Doing i [] p.started (p.running.eraseIdx 0)
        rw [hstarted, hrunning]
        exact .waiting
  | @head s' hturn =>
      have hcr : (Call.readLoop i).reading i = true := by simp [Call.reading]
      rw [hr hcr] at hdo
      obtain ⟨hstarted, hrunning⟩ := hdo.of_loop
      have hact : p.running[0]? = some .loop := by rw [hrunning]; rfl
      have hturn' : p.sess.turn cfg = .head (s'.withDone d) := by
        rw [hsess]; exact Session.withDone_turn_head hturn
      rw [if_pos hcr]
      refine ⟨p.withSess (s'.withDone d), .single (b := .run 0) ?_ ?_, ⟨d, rfl, hfin⟩, htest, hdo⟩
      · simp only [Live.step, Live.run, hact, hturn']
      · simp only [Live.note, Live.handed, hact, hturn', noteCall, hturn, List.append_nil]
  | @body f s' hturn =>
      have hcr : (Call.readLoop i).reading i = true := by simp [Call.reading]
      rw [hr hcr] at hdo
      obtain ⟨hstarted, hrunning⟩ := hdo.of_loop
      have hact : p.running[0]? = some .loop := by rw [hrunning]; rfl
      have hturn' : p.sess.turn cfg = .body f (s'.withDone d) := by
        rw [hsess]; exact Session.withDone_turn_body hturn
      rw [if_pos hcr]
      refine ⟨(p.withSess (s'.withDone d)).goOn 0 (.reading []), .single (b := .run 0) ?_ ?_,
        ⟨d, rfl, hfin⟩, htest, ?_⟩
      · simp only [Live.step, Live.run, hact, hturn']
        rfl
      · simp only [Live.note, Live.handed, hact, hturn', noteCall, hturn, if_true]
      · show Doing i [.readConsume i] p.started (p.running.set 0 (.reading []))
        rw [hstarted, hrunning]
        exact .calling
  | consume =>
      have hcr : (Call.readConsume i).reading i = true := by simp [Call.reading]
      rw [hr hcr] at hdo
      obtain ⟨hstarted, hrunning⟩ := hdo.of_consume
      have hact : p.running[0]? = some (.reading []) := by rw [hrunning]; rfl
      rw [if_pos hcr]
      refine ⟨(p.withSess p.sess.consumeBody).goOn 0 .loop, .single (b := .run 0) ?_ ?_,
        ⟨d, ?_, hfin⟩, htest, ?_⟩
      · simp only [Live.step, Live.run, hact]
      · simp only [Live.note, Live.handed, hact, noteCall, List.append_nil]
      · show p.sess.consumeBody = _
        rw [hsess]
        rfl
      · show Doing i [.readLoop i] p.started (p.running.set 0 .loop)
        rw [hstarted, hrunning]
        exact .looping
  | lock len =>
      have hcw : (Call.writeDone i len false).writing i = true := by simp [Call.writing]
      rw [hw hcw] at hfin
      obtain ⟨data, rfl⟩ := hfin.of_one
      rw [if_pos hcw]
      exact ⟨p, .refl cfg p g, ⟨_, hsess, .one data len true⟩, htest, hdo⟩
  | done len =>
      have hcw : (Call.writeDone i len true).writing i = true := by simp [Call.writing]
      rw [hw hcw] at hfin
      obtain ⟨data, rfl⟩ := hfin.of_one
      have hdone : p.sess.sendDone = some (s.writeDone len) := by
        rw [hsess]
        show some (s.writeHandler len) = _
        rw [Session.writeHandler, if_neg (by simp [hs])]
      rw [if_pos hcw]
      refine ⟨p.withSess (s.writeDone len), .single (b := .sendDone) ?_ rfl,
        ⟨[], rfl, .nothing⟩, htest, hdo⟩
      simp only [Live.step, hdone, Option.map_some]

theorem Finishing.of_nil {d : List WriteOp} (h : Finishing i [] d) : d = [] := by
  cases h with
  | nothing => rfl

/-- **What happens to an operation is matched.**  One read and one write at most are outstanding or being
handled. -/
theorem Copies.complete (cfg : Config) (g : Traffic) {o : Obj} {b : SessionIo} {stack : List Call}
    (h : Copies i o.sess r w p) (hs : o.sess.stopped = false) (hreads : o.sess.reads.length + r.length ≤ 1)
    (hwrites : o.sess.writes.length + w.length ≤ 1)
    (hc : Server.complete i o b = some (s', stack)) :
    ∃ p', Goes cfg p g p' (noteIo o.sess g b) ∧
      Copies i s' (r ++ stack.filter (Call.reading i)) (w ++ stack.filter (Call.writing i)) p' := by
  obtain ⟨⟨d, hsess, hfin⟩, htest, hdo⟩ := h
  have hidle : ∀ op rest, o.sess.writes = op :: rest → w = [] ∧ d = [] ∧ p.sess = o.sess := by
    intro op rest hw
    rw [hw, List.length_cons] at hwrites
    obtain rfl : w = [] := List.length_eq_zero_iff.mp (by omega)
    obtain rfl := hfin.of_nil
    exact ⟨rfl, rfl, hsess⟩
  have hsilent : ∀ ec tail, tail = [] ∨ tail = [.guard i] → Aloof i (errorCallback i o ec ++ tail) :=
    fun ec tail htail => aloof_of_initial (initial_errorCallback i o ec htail) i
  cases b with
  | send k =>
      obtain ⟨⟨bytes, t⟩, hsend, hr⟩ := Option.map_eq_some_iff.mp hc
      cases hr
      obtain ⟨data, rest, hw, -⟩ := Session.send_eq hsend
      obtain ⟨rfl, rfl, hsame⟩ := hidle _ _ hw
      refine ⟨p.withSess t, .single (b := .send k) ?_ ?_, ⟨[], rfl, .nothing⟩, htest, ?_⟩
      · simp only [Live.step, hsame, hsend, Option.map_some]
      · simp only [Live.note, hsame, noteIo]
      · rw [List.filter_nil, List.append_nil]
        exact hdo
  | sendDone =>
      simp only [Server.complete] at hc
      split at hc
      · next data k rest hw =>
        rw [if_neg (by simp [hs])] at hc
        cases hc
        obtain ⟨rfl, rfl, hsame⟩ := hidle _ _ hw
        have hstack : [Call.writeDone i k false].filter (Call.writing i) = [.writeDone i k false] := by
          simp [Call.writing]
        rw [hstack]
        refine ⟨p, .refl cfg p g, ⟨[⟨data, some k⟩], ?_, .one data k false⟩, htest, ?_⟩
        · rw [hsame, Session.withDone, List.singleton_append, ← hw]
        · simpa [Call.reading] using hdo
      · cases hc
  | sendFail ec =>
      simp only [Server.complete] at hc
      have haloof := hsilent ec [.guard i] (Or.inr rfl)
      split at hc
      · next data rest hw =>
        rw [if_neg (by simp [hs])] at hc
        cases hc
        obtain ⟨rfl, rfl, hsame⟩ := hidle _ _ hw
        rw [haloof.1, haloof.2, List.append_nil]
        refine ⟨_, (Goes.refl cfg p g).enter (s := { o.sess with writes := rest }) hs
          (b := .sendFail ec) ?_ rfl, ⟨[], rfl, .nothing⟩, htest, hdo⟩
        simp only [Live.step, hsame, hw]
        rfl
      · cases hc
  | recv bytes =>
      obtain ⟨t, hrecv, hr⟩ := Option.map_eq_some_iff.mp hc
      cases hr
      have hrecv' : p.sess.recv bytes = some (s'.withDone d) := by
        rw [hsess]
        unfold Session.recv at hrecv ⊢
        simp only [Session.withDone]
        split at hrecv
        · next rest hreads =>
          split at hrecv
          · next hlen =>
            cases hrecv
            simp only [hlen, and_self, if_true]
          · cases hrecv
        · cases hrecv
      rw [List.filter_nil, List.append_nil, List.filter_nil, List.append_nil]
      refine ⟨p.withSess (s'.withDone d), .single (b := .recv bytes) ?_ rfl, ⟨d, rfl, hfin⟩, htest, hdo⟩
      simp only [Live.step, hrecv', Option.map_some]
  | recvDone =>
      simp only [Server.complete] at hc
      split at hc
      · next bytes rest hr =>
        rw [if_neg (show ¬ o.sess.stopped = true by simp [hs])] at hc
        cases hc
        rw [hr, List.length_cons] at hreads
        obtain rfl : r = [] := List.length_eq_zero_iff.mp (by omega)
        obtain ⟨hstarted, hrunning⟩ := hdo.of_nil
        have hstack : [Call.readLoop i].filter (Call.reading i) = [.readLoop i] := by
          simp [Call.reading]
        rw [hstack]
        have hpr : p.sess.reads = some bytes :: rest := by rw [hsess]; exact hr
        have hps : p.sess.stopped = false := by rw [hsess]; exact hs
        refine ⟨{ p with sess := ({ p.sess with reads := rest } : Session).commit bytes,
                         running := [.loop] }, .single (b := .recvDone) ?_ rfl, ⟨d, ?_, ?_⟩, htest, ?_⟩
        · simp [Live.step, hpr, hps, Live.enter, Session.commit, hrunning]
        · rw [hsess]
          rfl
        · simpa [Call.writing] using hfin
        · rw [hstarted]
          exact .looping
      · cases hc
  | recvFail ec =>
      simp only [Server.complete] at hc
      have haloof := hsilent ec [] (Or.inl rfl)
      rw [List.append_nil] at haloof
      split at hc
      · next rest hr =>
        rw [if_neg (by simp [hs])] at hc
        cases hc
        rw [haloof.1, haloof.2, List.append_nil, List.append_nil]
        have hpr : p.sess.reads = none :: rest := by rw [hsess]; exact hr
        have hps : p.sess.stopped = false := by rw [hsess]; exact hs
        refine ⟨_, (Goes.refl cfg p g).enter (s := { p.sess with reads := rest }) hps
          (b := .recvFail ec) ?_ rfl, ⟨d, ?_, hfin⟩, htest, hdo⟩
        · simp only [Live.step, hpr]
          rfl
        · show ({ p.sess with reads := rest } : Session) = _
          rw [hsess]
          rfl
      · cases hc

/-! ### Whole runs -/

/-- One read and one write at most of the session `i` are outstanding or being handled, and none of one
that does not exist. -/
structure Single (n : Server) (i : ℕ) : Prop where
  kept : n.Kept
  readers : n.readers i ≤ if i < n.sessions.length then 1 else 0
  writers : n.writes i + n.calls.countP (Call.writing i) ≤ (n.isWriting i).toNat

theorem Single.of_run {acts : List ServerAct} (h : Run (Server.step cfg) Anything create acts n)
    (i : ℕ) : n.Single i where
  kept := Kept.of_run h
  readers := by
    have hloop := (loops_of_run h).2 i
    omega
  writers := WriteLoop.of_run h i

theorem Single.aloof (h : n.Single i) (hi : n.sessions.length ≤ i) : Aloof i n.calls := by
  have hread := h.readers
  have hwrite := h.writers
  rw [if_neg (by omega), Server.readers] at hread
  have hnone : n.sessions[i]? = none := List.getElem?_eq_none hi
  simp only [isWriting, hnone, Option.any_none, Bool.toNat_false] at hwrite
  exact ⟨List.filter_eq_nil_iff.mpr (List.countP_eq_zero.mp (by omega)),
    List.filter_eq_nil_iff.mpr (List.countP_eq_zero.mp (by omega))⟩

theorem Single.one (h : n.Single i) {o : Obj} (ho : n.sessions[i]? = some o) :
    o.sess.reads.length + (n.calls.filter (Call.reading i)).length ≤ 1 ∧
      o.sess.writes.length + (n.calls.filter (Call.writing i)).length ≤ 1 := by
  have hlen : i < n.sessions.length := (List.getElem?_eq_some_iff.mp ho).1
  have hread := h.readers
  have hwrite := h.writers
  have hle := Bool.toNat_le (n.isWriting i)
  rw [if_pos hlen, Server.readers, reads_of_getElem? ho] at hread
  simp only [writes, ho, Option.map_some, Option.getD_some] at hwrite
  rw [← List.countP_eq_length_filter, ← List.countP_eq_length_filter]
  exact ⟨hread, by omega⟩

theorem Single.countP_reading_le (h : n.Single i) : n.calls.countP (Call.reading i) ≤ 1 := by
  have hread := h.readers
  rw [Server.readers] at hread
  split at hread <;> omega

/-- The calls of the read loop of one session are one call. -/
theorem Single.eq_of_reading (h : n.Single i) {c d : Call} (hc : c ∈ n.calls) (hd : d ∈ n.calls)
    (hcr : c.reading i = true) (hdr : d.reading i = true) : c = d :=
  Slots.eq_of_countP_le_one h.countP_reading_le hc hd hcr hdr

/-- A step that has nothing to do with the session `i`. -/
theorem Mirrors.congr (h : Mirrors n i p) (hs : n'.session i = n.session i) {stack : List Call}
    (hcalls : n'.calls = n.calls ++ stack) (hstack : Aloof i stack) : Mirrors n' i p := by
  cases h with
  | absent hnone hp => exact .absent (hs.trans hnone) hp
  | present hsome hcopy =>
      refine .present (hs.trans hsome) ?_
      rw [hcalls, List.filter_append, List.filter_append, hstack.1, hstack.2, List.append_nil,
        List.append_nil]
      exact hcopy

theorem Mirrors.accept (h : Mirrors n i p) (hone : n.Single i) (a : Addr) :
    Mirrors ((n.accept a).spawn [.accepted n.sessions.length .insert]) i p := by
  have hcalls : ((n.accept a).spawn [.accepted n.sessions.length .insert]).calls =
      n.calls ++ [.accepted n.sessions.length .insert] := calls_spawn _ _
  have hsession : ((n.accept a).spawn [.accepted n.sessions.length .insert]).session i =
      ((n.sessions ++ [Obj.create a])[i]?).map Obj.sess := rfl
  rcases Nat.lt_trichotomy i n.sessions.length with hlt | rfl | hgt
  · refine h.congr ?_ hcalls ?_
    · rw [hsession, List.getElem?_append_left hlt]; rfl
    · exact aloof_of_worksOn (by simp [Call.worksOn, (Nat.ne_of_lt hlt).symm])
  · have haloof := hone.aloof (Nat.le_refl _)
    have hnone : n.session n.sessions.length = none := by simp [session]
    cases h with
    | present hsome _ => rw [hnone] at hsome; cases hsome
    | absent _ hp =>
        subst hp
        refine .present (s := Session.create) (by rw [hsession]; simp [Obj.create]) ?_
        rw [hcalls, List.filter_append, List.filter_append, haloof.1, haloof.2]
        have hfilter : ([] : List Call) ++ [Call.accepted n.sessions.length .insert].filter
            (Call.reading n.sessions.length) = [.accepted n.sessions.length .insert] := by
          simp [Call.reading]
        rw [hfilter]
        exact ⟨⟨[], rfl, .nothing⟩, rfl, .preparing .insert (by simp)⟩
  · refine h.congr ?_ hcalls ?_
    · have hlen : (n.sessions ++ [Obj.create a]).length ≤ i := by simp; omega
      rw [hsession, List.getElem?_eq_none hlen, session,
        List.getElem?_eq_none (Nat.le_of_lt hgt)]
    · exact aloof_of_worksOn (by simp [Call.worksOn, Nat.ne_of_lt hgt])

theorem filter_calls_run {t : ℕ} {c : Call} {rest new : List Call}
    (hstack : n.threads[t]? = some (c :: rest)) (hthreads : m.threads = n.threads) {q : Call → Bool}
    (hq : (n.calls.filter q).length ≤ 1) (hnew : (new.filter q).length ≤ 1)
    (hc : q c = false → new.filter q = []) :
    (q c = true → n.calls.filter q = [c]) ∧
      (sweep { m with threads := m.threads.set t (new ++ rest) }).calls.filter q =
        if q c then new.filter q else n.calls.filter q := by
  have hperm := calls_run new hstack hthreads
  by_cases hqc : q c = true
  · have hmem : c ∈ n.calls.filter q := List.mem_filter.mpr ⟨mem_calls hstack, hqc⟩
    have hone := Slots.eq_singleton_of_mem hq hmem
    refine ⟨fun _ => hone, ?_⟩
    rw [if_pos hqc]
    exact Slots.eq_of_perm_of_length_le_one (Slots.filter_exchange_of_eq hperm hone) hnew
  · have hqf : q c = false := Bool.eq_false_iff.mpr hqc
    refine ⟨fun h => absurd h hqc, ?_⟩
    rw [if_neg hqc]
    have hfilter := Slots.filter_exchange hperm hqf
    rw [hc hqf, List.nil_append] at hfilter
    exact Slots.eq_of_perm_of_length_le_one hfilter hq

theorem Moves.length_le {s s' : Session} {c : Call} {r w : List Call} (h : Moves cfg i s c s' r w) :
    r.length ≤ 1 ∧ w.length ≤ 1 ∧ (c.reading i = false → r = []) ∧ (c.writing i = false → w = []) := by
  cases h with
  | prepare pc pc' hpc hpc' =>
      have hcr : (Call.accepted i pc).reading i = true := by cases pc <;> simp_all [Call.reading]
      exact ⟨Nat.le_refl _, Nat.zero_le _, fun hc => absurd (hcr.symm.trans hc) (by decide),
        fun _ => rfl⟩
  | _ => simp_all [Call.reading, Call.writing]

theorem Mirrors.step (h : Mirrors n i p) (hone : n.Single i) (hstep : Step cfg n a n') :
    ∃ p', Goes cfg p g p' (noteFor cfg i n g a) ∧ Mirrors n' i p' := by
  have hquiet : noteFor cfg i n g a = g → Mirrors n' i p →
      ∃ p', Goes cfg p g p' (noteFor cfg i n g a) ∧ Mirrors n' i p' := by
    intro hnote hm
    rw [hnote]
    exact ⟨p, .refl cfg p g, hm⟩
  cases hstep with
  | call c =>
      have haloof : Aloof i [c.toCall cfg] := aloof_of_initial (initial_prog cfg [c]) i
      exact hquiet (noteFor_plain nofun nofun) (h.congr rfl (calls_spawn _ _) haloof)
  | arrive _ _ =>
      exact hquiet (noteFor_plain nofun nofun) (h.congr rfl (List.append_nil _).symm ⟨rfl, rfl⟩)
  | acceptFail message _ =>
      exact hquiet (noteFor_plain nofun nofun) (h.congr rfl (calls_spawn _ _) ⟨rfl, rfl⟩)
  | @acceptDone a _ _ => exact hquiet (noteFor_plain nofun nofun) (h.accept hone a)
  | @io j b o s' stack ho hc =>
      have hstopped := (hone.kept j o ho).2.1
      by_cases hj : j = i
      · subst hj
        have hsome : n.session j = some o.sess := by simp [session, ho]
        have hnote : noteFor cfg j n g (.io j b) = noteIo o.sess g b := by
          rw [noteFor_io hsome, if_pos rfl]
        have hsess : ((n.onSess j fun _ => s').spawn stack).session j = some s' := by
          show (n.onSess j fun _ => s').session j = some s'
          rw [session_onSess, if_pos rfl, hsome]
          rfl
        rw [hnote]
        cases h with
        | absent hnone _ => rw [hnone] at hsome; cases hsome
        | @present s₀ hsome' hcopy =>
            obtain rfl : s₀ = o.sess := by simpa [hsome'] using hsome
            obtain ⟨hreads, hwrites⟩ := hone.one ho
            obtain ⟨p', hgoes, hcopy'⟩ := hcopy.complete cfg g hstopped hreads hwrites hc
            refine ⟨p', hgoes, .present hsess ?_⟩
            rw [calls_spawn, List.filter_append, List.filter_append]
            exact hcopy'
      · have hsess : (n.onSess j fun _ => s').session i = n.session i := by
          rw [session_onSess, if_neg hj]
        have hstack : Aloof i stack :=
          ⟨List.filter_eq_nil_iff.mpr (List.countP_eq_zero.mp ((complete_readers hc hstopped).2 i hj)),
            List.filter_eq_nil_iff.mpr (List.countP_eq_zero.mp ((complete_writes hc).2.2 i hj))⟩
        refine hquiet ?_ (h.congr hsess (calls_spawn _ _) hstack)
        cases hn : n.session i with
        | none => exact noteFor_none hn _
        | some s => rw [noteFor_io hn, if_neg hj]
  | @run t prog next c rest new m hstack hen hexec =>
      have hthreads := exec_threads hexec
      have hsweep := (hone.kept.exec hstack hexec).sweep
      have hsess : (sweep { m with threads := m.threads.set t (new ++ rest) }).session i =
          m.session i := by rw [hsweep]; rfl
      cases h with
      | absent hnone hp =>
          refine hquiet (noteFor_none hnone _) (.absent ?_ hp)
          rw [hsess]
          by_contra hne
          obtain ⟨o', ho'⟩ : ∃ o', m.sessions[i]? = some o' := by
            cases hm : m.sessions[i]? with
            | none => exact absurd (by simp [session, hm]) hne
            | some o' => exact ⟨o', rfl⟩
          obtain ⟨o, ho, -⟩ := exec_evolves hexec ho'
          simp [session, ho] at hnone
      | @present s hsome hcopy =>
          have hnote : noteFor cfg i n g (.run t prog next) = noteCall cfg i s g c :=
            noteFor_run hsome hstack
          obtain ⟨o, ho, rfl⟩ := Option.map_eq_some_iff.mp hsome
          obtain ⟨hreads, hwrites⟩ := hone.one ho
          obtain ⟨hs', hmoves, hr, hw⟩ := Moved.of_exec hexec hsome
          obtain ⟨hrlen, hwlen, hrnil, hwnil⟩ := hmoves.length_le
          subst hr hw
          obtain ⟨hrc, hr'⟩ := filter_calls_run hstack hthreads (by omega) hrlen hrnil
          obtain ⟨hwc, hw'⟩ := filter_calls_run hstack hthreads (by omega) hwlen hwnil
          obtain ⟨p', hgoes, hcopy'⟩ := hcopy.moves (g := g) ((hone.kept i o ho).2.1) hmoves hrc hwc
          rw [hnote]
          refine ⟨p', hgoes, .present (hsess.trans hs') ?_⟩
          rw [hr', hw']
          exact hcopy'

theorem mirrors_of_run {acts : List ServerAct} (h : Run (Server.step cfg) Anything create acts n)
    (i : ℕ) : ∃ p, Goes cfg Live.create Traffic.empty p (traffic cfg i acts) ∧ Mirrors n i p := by
  induction h with
  | refl => exact ⟨_, .refl cfg _ _, .absent rfl rfl⟩
  | @tail acts a n n' hrun _ hs ih =>
      obtain ⟨p, ⟨acts', hlive, htraffic⟩, hmirror⟩ := ih
      obtain ⟨p', ⟨bs, hrun', hnote⟩, hmirror'⟩ :=
        hmirror.step (g := traffic cfg i acts) (Single.of_run hrun i) (Step.of_step hs)
      refine ⟨p', ⟨acts' ++ bs, hlive.trans hrun', ?_⟩, hmirror'⟩
      rw [hlive.follow_append, htraffic, hnote, traffic_snoc hrun hs]

/-- **A session of a server is a session.**  For every run of a server and each of its sessions, there is
a run of `Live` that writes the same contents, takes and gets the same bytes and hands on the same
frames, and that ends where the session is. -/
theorem refines_live {acts : List ServerAct} (h : Run (Server.step cfg) Anything create acts n)
    (i : ℕ) : ∃ acts' p, Run (Live.step cfg mute) Anything Live.create acts' p ∧
      Live.traffic cfg mute acts' = traffic cfg i acts ∧ Mirrors n i p := by
  obtain ⟨p, ⟨acts', hlive, htraffic⟩, hmirror⟩ := mirrors_of_run h i
  exact ⟨acts', p, hlive, htraffic, hmirror⟩

/-- A client connects and sends a message; the user answers it, and the answer is on its way. -/
def clientAsks : List ServerAct :=
  clientConnects ++
    [.io 0 (.recv [1, 0, 0, 0, 0, 0, 0, 0, 5]), .io 0 .recvDone, .run 2 [] none, .run 2 [] none,
      .run 2 [.write 7 [6] []] none, .run 2 [] none, .run 2 [] none, .run 2 [] none, .run 2 [] none,
      .io 0 (.send 4), .io 0 .sendDone]

theorem refines_live_asks :
    ∃ n, Run (Server.step .shipped) Anything create clientAsks n ∧
      (traffic .shipped 0 clientAsks).written = [[6]] ∧
      (traffic .shipped 0 clientAsks).wire = [1, 0, 0, 0] ∧
      ∃ acts' p, Run (Live.step .shipped mute) Anything Live.create acts' p ∧
        Live.traffic .shipped mute acts' = traffic .shipped 0 clientAsks ∧ Mirrors n 0 p := by
  have h := Run.of_exec (Server.step .shipped) create clientAsks (by decide +kernel)
  exact ⟨_, h, by decide +kernel, by decide +kernel, refines_live h 0⟩

end Server

end AsioTcpFrame
