import AsioTcpFrame.Lib.TotalOrder
import AsioTcpFrame.Deadlock
import AsioTcpFrame.Handles

/-! # Broadcasts of a server

`ServerTCP::broadcast` writes to each session of the pool in turn and holds `sess_pool_mtx` all the
while; `ServerTCP::write` looks the session up under the mutex and writes without it, so its frames
come in between.  `Log` notes on the way what is broadcast and what is appended to which `send_buf`: a
`Board`, whose receivers are the sessions.

A step of a thread is a move of the board or none (`exec_turn`), and is one that is allowed: nobody
begins a broadcast while another is on its way, since there is one mutex (`Exclusive`), and no session
is in the pool twice (`Ordered`).  So the log of every run of the server is a run of the board
(`Tracks`), and what holds of boards holds of it: `broadcasts_agree`. -/

namespace AsioTcpFrame

open Transition TotalOrder
open scoped List

/-- The loop of a `broadcast`. -/
def Call.isBroadcasting : Call → Bool
  | broadcasting _ _ => true
  | _ => false

/-- The session that a write has found running. -/
def Call.target : Call → Option ℕ
  | sessionWrite i _ .lock | sessionWrite i _ .body => some i
  | _ => none

namespace Server

variable {cfg : Config} {n n' m : Server} {a : ServerAct} {i j : ℕ}

/-! ### The pool and its mutex -/

/-- The pool is in the order of the addresses. -/
def Ordered (n : Server) : Prop := n.pool.Pairwise fun e e' => e.1 < e'.1

theorem Ordered.poolInsert (h : n.Ordered) (a : Addr) (i : ℕ) : (n.poolInsert a i).Ordered := by
  have hlt : ∀ e ∈ n.pool.filter fun e => e.1 < a, e.1 < a := fun e he => by
    simpa using (List.mem_filter.mp he).2
  have hgt : ∀ e ∈ n.pool.filter fun e => a < e.1, a < e.1 := fun e he => by
    simpa using (List.mem_filter.mp he).2
  refine List.pairwise_append.mpr ⟨List.Pairwise.filter _ h, List.pairwise_cons.mpr
    ⟨fun e he => hgt e he, List.Pairwise.filter _ h⟩, fun e he e' he' => ?_⟩
  rcases List.mem_cons.mp he' with rfl | he'
  · exact hlt e he
  · exact (hlt e he).trans (hgt e' he')

theorem Ordered.exec (h : n.Ordered) {prog : List Api} {next : Option ℕ} {c : Call}
    {new : List Call} (hexec : n.exec cfg prog next c = some (m, new)) : m.Ordered := by
  cases Exec.of_exec hexec with
  | insert ho => exact h.poolInsert _ _
  | erase a i all => exact List.Pairwise.filter _ h
  | _ => exact h

theorem Ordered.step (h : n.Ordered) (hstep : Step cfg n a n') : n'.Ordered := by
  cases hstep with
  | run hstack hen hexec =>
      have hm := h.exec hexec
      exact hm
  | _ => exact h

theorem Ordered.nodup (h : n.Ordered) (haddr : n.Addressed) : (n.pool.map Prod.snd).Nodup := by
  have hkeys : ((n.pool.map Prod.snd).map fun i => n.addrs[i]?) = n.pool.map (some ∘ Prod.fst) := by
    rw [List.map_map]
    exact List.map_congr_left fun e he => haddr.pool e he
  apply List.Nodup.of_map fun i => n.addrs[i]?
  rw [hkeys]
  refine (List.pairwise_map.mpr (h.imp fun hlt => ?_))
  intro heq
  exact hlt.ne (Option.some.inj heq)

/-! ### Stacks -/

/-- No broadcast is in the stack. -/
def Plain (stack : List Call) : Prop := ∀ c ∈ stack, c.isBroadcasting = false

/-- A broadcast is on top of the stack, or below the `Session::write` that it has called. -/
inductive Shaped : List Call → Prop
  | plain {stack : List Call} : Plain stack → Shaped stack
  | top (todo : List ℕ) (bytes : List Byte) {rest : List Call} : Plain rest →
      Shaped (.broadcasting todo bytes :: rest)
  | above (i : ℕ) (pc : WritePc) (todo : List ℕ) (bytes : List Byte) {rest : List Call} :
      Plain rest → Shaped (.sessionWrite i bytes pc :: .broadcasting todo bytes :: rest)

/-- The broadcast that the stack is in: the sessions it has still to write to, and what. -/
def underway : List Call → List (List ℕ × List Byte)
  | .broadcasting todo bytes :: _ => [(todo, bytes)]
  | .sessionWrite i _ _ :: .broadcasting todo bytes :: _ => [(i :: todo, bytes)]
  | _ => []

/-- What the next step of a stack does to the board. -/
def moves (n : Server) : List Call → Option (Move ℕ (List Byte))
  | .broadcast bytes :: _ => some (.post (n.pool.map Prod.snd) bytes)
  | .broadcasting [] _ :: _ => some .finish
  | .sessionWrite i bytes .body :: rest =>
      some (if rest.head?.any Call.isBroadcasting then .deliver i bytes else .send i bytes)
  | _ => none

theorem plain_singleton {c : Call} (h : c.isBroadcasting = false) : Plain [c] := fun _ hd =>
  List.mem_singleton.mp hd ▸ h

theorem plain_append {stack rest : List Call} (h : Plain stack) (h' : Plain rest) :
    Plain (stack ++ rest) := fun c hc => (List.mem_append.mp hc).elim (h c) (h' c)

theorem Plain.underway {stack : List Call} (h : Plain stack) : underway stack = [] := by
  unfold Server.underway
  split
  · exact absurd (h _ List.mem_cons_self) (by simp [Call.isBroadcasting])
  · exact absurd (h _ (List.mem_cons_of_mem _ List.mem_cons_self)) (by simp [Call.isBroadcasting])
  · rfl

theorem plain_of_holds {stack : List Call} (h : ∀ c ∈ stack, c.holds = none) : Plain stack := by
  intro c hc
  have hnone := h c hc
  cases c with
  | broadcasting todo bytes => cases hnone
  | _ => rfl

theorem exec_plain {prog : List Api} {next : Option ℕ} {c : Call} {new : List Call}
    (hexec : n.exec cfg prog next c = some (m, new)) (hc : c.isBroadcasting = false)
    (hbegin : ∀ bytes, c ≠ .broadcast bytes) : Plain new := by
  have hprog : Plain (prog.map (Api.toCall cfg)) :=
    plain_of_holds fun d hd => (initial_prog cfg prog d hd).holds
  have hnil : Plain [] := fun d hd => by cases hd
  cases Exec.of_exec hexec with
  | broadcast bytes => exact absurd rfl (hbegin bytes)
  | broadcasted bytes => cases hc
  | broadcasting i todo bytes => cases hc
  | write a bytes => split; exacts [hnil, plain_singleton rfl]
  | close a => split; exacts [hnil, plain_singleton rfl]
  | closeAll => split; exacts [hnil, plain_singleton rfl]
  | advance => split; exacts [hnil, plain_singleton rfl]
  | disconnect a i all => exact plain_append hprog (plain_singleton rfl)
  | erase a i all => split; exacts [plain_singleton rfl, hnil]
  | connect i => exact plain_append hprog (plain_singleton rfl)
  | message i head length content => exact hprog
  | error i message => exact hprog
  | test bytes ho => split; exacts [hnil, plain_singleton rfl]
  | @loopBody i o f s ho hturn =>
      have hread : Plain (readCallback cfg i o f) :=
        plain_of_holds fun d hd => (initial_readCallback i o f d hd).holds
      exact plain_append hread (plain_singleton rfl)
  | rearm i => exact hnil
  | body i bytes => exact hnil
  | loopBreak ho hturn => exact hnil
  | done i len => exact hnil
  | guard i => exact hnil
  | _ => exact plain_singleton rfl

theorem head_plain {rest : List Call} (h : Plain rest) :
    rest.head?.any Call.isBroadcasting = false := by
  cases rest with
  | nil => rfl
  | cons c rest => exact h c List.mem_cons_self

/-- **What a step does to a stack** and to the board. -/
theorem exec_turn {prog : List Api} {next : Option ℕ} {c : Call} {rest new : List Call}
    (hkept : n.Kept) (hs : Shaped (c :: rest))
    (hexec : n.exec cfg prog next c = some (m, new)) :
    Shaped (new ++ rest) ∧
      Board.Turn (underway (c :: rest)) (n.moves (c :: rest)) (underway (new ++ rest)) := by
  cases hs with
  | plain hplain =>
      have hrest : Plain rest := fun d hd => hplain d (List.mem_cons_of_mem c hd)
      have hc : c.isBroadcasting = false := hplain c List.mem_cons_self
      rw [hplain.underway]
      by_cases hbegin : ∃ bytes, c = .broadcast bytes
      · obtain ⟨bytes, rfl⟩ := hbegin
        cases hexec
        exact ⟨.top _ _ hrest, .post _ _⟩
      · have hnew := exec_plain hexec hc fun bytes hb => hbegin ⟨bytes, hb⟩
        have happend := plain_append hnew hrest
        refine ⟨.plain happend, ?_⟩
        rw [happend.underway]
        cases c with
        | broadcast bytes => exact absurd ⟨bytes, rfl⟩ hbegin
        | broadcasting todo bytes => cases hc
        | sessionWrite i bytes pc =>
            cases pc with
            | body =>
                rw [moves, head_plain hrest]
                exact .send i bytes
            | _ => exact .quiet []
        | _ => exact .quiet []
  | top todo bytes hrest =>
      cases todo with
      | nil =>
          cases hexec
          rw [List.nil_append, hrest.underway]
          exact ⟨.plain hrest, .finish bytes⟩
      | cons i todo =>
          cases hexec
          exact ⟨.above i .test todo bytes hrest, .quiet _⟩
  | @above i pc todo bytes rest hrest =>
      cases Exec.of_exec hexec with
      | @test i o _ ho =>
          rw [(hkept i o ho).2.1]
          exact ⟨.above i .lock todo bytes hrest, .quiet _⟩
      | lock => exact ⟨.above i .body todo bytes hrest, .quiet _⟩
      | body => exact ⟨.top todo bytes hrest, .deliver i todo bytes⟩

/-- The stacks of all threads. -/
def AllShaped (n : Server) : Prop := ∀ stack ∈ n.threads, Shaped stack

/-- What the broadcasts of all threads have still to do. -/
def allUnderway (n : Server) : List (List ℕ × List Byte) := n.threads.flatMap underway

theorem allUnderway_eq (hfree : ∀ c ∈ n.calls, c.isBroadcasting = false) :
    n.allUnderway = [] := by
  refine List.flatMap_eq_nil_iff.mpr fun stack hstack => ?_
  exact Plain.underway fun c hc => hfree c (List.mem_flatten.mpr ⟨stack, hstack, hc⟩)

/-! ### The log -/

/-- The board, and the bytes that have left each `send_buf`. -/
structure Log where
  board : Board ℕ (List Byte)
  taken : ℕ → List Byte

def Log.empty : Log := ⟨Board.empty, fun _ => []⟩

/-- What is in the `send_buf` of the session `i`. -/
def buffered (n : Server) (i : ℕ) : List Byte :=
  ((n.sessions[i]?).map fun o => o.sess.sendBuf).getD []

/-- What leaves the `send_buf` of the session `j` in the next step of a stack. -/
def takes (n : Server) (j : ℕ) : List Call → List Byte
  | .writeDone i len true :: _ => if j = i then (n.buffered i).take len else []
  | _ => []

/-- What is noted of a step. -/
def note (n : Server) (g : Log) : ServerAct → Log
  | .run t _ _ =>
      match n.threads[t]? with
      | none => g
      | some stack => ⟨g.board.after (n.moves stack), fun j => g.taken j ++ n.takes j stack⟩
  | _ => g

/-- What was noted of a run. -/
def log (cfg : Config) (acts : List ServerAct) : Log :=
  follow (Server.step cfg) note create Log.empty acts

/-- The frames of the messages that the session `i` was given. -/
def Log.frames (cfg : Config) (g : Log) (i : ℕ) : List Byte :=
  ((g.board.inbox i).map Prod.snd).flatMap cfg.codec.frame

/-- What a move adds to the `send_buf` of the session `j`. -/
def gained (cfg : Config) (j : ℕ) (mv : Option (Move ℕ (List Byte))) : List Byte :=
  (Board.gets j mv).flatMap cfg.codec.frame

theorem frames_after (g : Log) (taken : ℕ → List Byte) (mv : Option (Move ℕ (List Byte))) (j : ℕ) :
    Log.frames cfg ⟨g.board.after mv, taken⟩ j = g.frames cfg j ++ gained cfg j mv := by
  rw [Log.frames, Board.contents_after, List.flatMap_append]
  rfl

theorem buffered_modify {f : Obj → Obj}
    (hf : ∀ o, n.sessions[i]? = some o → (f o).sess.sendBuf = o.sess.sendBuf) :
    (n.modify i f).buffered j = n.buffered j := by
  simp only [buffered, modify, List.getElem?_modify]
  cases hj : n.sessions[j]? with
  | none => rfl
  | some o =>
      by_cases hij : i = j
      · subst hij
        simp [hf o hj]
      · simp [hij]

/-- What a step appends to the buffers, and what leaves them. -/
theorem exec_buffered {prog : List Api} {next : Option ℕ} {c : Call} {rest new : List Call}
    (htarget : ∀ i ∈ c.target, i < n.sessions.length)
    (hexec : n.exec cfg prog next c = some (m, new)) (j : ℕ) :
    n.takes j (c :: rest) ++ m.buffered j = n.buffered j ++ gained cfg j (n.moves (c :: rest)) := by
  have hsame : ∀ i (f : Obj → Obj), (∀ o, n.sessions[i]? = some o →
      (f o).sess.sendBuf = o.sess.sendBuf) → (n.modify i f).buffered j = n.buffered j ++ [] :=
    fun i f hf => (buffered_modify hf).trans (List.append_nil _).symm
  cases Exec.of_exec hexec with
  | broadcasted bytes => exact (List.append_nil _).symm
  | setError i => exact hsame i _ fun _ _ => rfl
  | setRead i => exact hsame i _ fun _ _ => rfl
  | start i => exact hsame i _ fun o _ => Session.doRead_sendBuf o.sess
  | loopBreak ho hturn => exact hsame _ _ fun o _ => Session.doRead_sendBuf o.sess
  | loopHead ho hturn =>
      obtain ⟨-, -, -, rfl⟩ := Session.turn_eq_head hturn
      exact hsame _ _ fun p hp => by rw [ho] at hp; cases hp; rfl
  | loopBody ho hturn =>
      obtain ⟨-, -, -, -, rfl⟩ := Session.turn_eq_body hturn
      exact hsame _ _ fun p hp => by rw [ho] at hp; cases hp; rfl
  | consume i => exact hsame i _ fun _ _ => rfl
  | body i bytes =>
      have hmoves : gained cfg j (n.moves (.sessionWrite i bytes .body :: rest)) =
          if j = i then cfg.codec.frame bytes else [] := by
        rw [moves, gained]
        split <;> simp only [Board.gets] <;> split <;> simp
      rw [hmoves]
      show [] ++ buffered (n.onSess i fun s => s.writeLocked cfg bytes) j = _
      split
      · next hji =>
        subst hji
        obtain ⟨o, ho⟩ : ∃ o, n.sessions[j]? = some o :=
          ⟨_, List.getElem?_eq_getElem (htarget j rfl)⟩
        simp [buffered, onSess_getElem?_self _ _ _ ho, ho]
      · next hji => simp [buffered, onSess, modify_getElem?_ne _ _ _ hji]
  | done i len =>
      show n.takes j (.writeDone i len true :: rest) ++
        buffered (n.onSess i fun s => s.writeDone len) j = n.buffered j ++ []
      rw [takes, List.append_nil]
      split
      · next hji =>
        subst hji
        cases ho : n.sessions[j]? with
        | none => simp [buffered, onSess, modify, ho]
        | some o => simp [buffered, onSess_getElem?_self _ _ _ ho, ho]
      · next hji => simp [buffered, onSess, modify_getElem?_ne _ _ _ hji]
  | _ => exact (List.append_nil _).symm

/-! ### Every run -/

/-- The sessions that are written to exist. -/
def Aimed (n : Server) : Prop := ∀ c ∈ n.calls, ∀ i ∈ c.target, i < n.sessions.length

theorem target_of_initial {c : Call} (h : c.Initial) : c.target = none := by
  cases h <;> rfl

theorem not_target {d : Call} (h : d.target = none) : i ∉ d.target := by
  rw [h]
  exact fun hi => by cases hi

theorem exec_target {prog : List Api} {next : Option ℕ} {c d : Call} {new : List Call}
    (hexec : n.exec cfg prog next c = some (m, new)) (hd : d ∈ new) (hi : i ∈ d.target) :
    i ∈ c.target ∨ i < n.sessions.length := by
  have hinitial : ¬ d.Initial := fun hd => not_target (target_of_initial hd) hi
  have hone : ∀ e : Call, e.target = none → d ∉ [e] := fun e he hd =>
    not_target he (List.mem_singleton.mp hd ▸ hi)
  have hprog : d ∉ prog.map (Api.toCall cfg) := fun hd => hinitial (initial_prog cfg prog d hd)
  cases Exec.of_exec hexec with
  | @test j o bytes ho =>
      split at hd
      · cases hd
      · rw [List.mem_singleton.mp hd] at hi
        cases hi
        exact Or.inr (List.getElem?_eq_some_iff.mp ho).1
  | lock j bytes =>
      rw [List.mem_singleton.mp hd] at hi
      exact Or.inl hi
  | disconnect a j all => exact ((List.mem_append.mp hd).elim hprog (hone _ rfl)).elim
  | connect j => exact ((List.mem_append.mp hd).elim hprog (hone _ rfl)).elim
  | message j head length content => exact (hprog hd).elim
  | error j message => exact (hprog hd).elim
  | @loopBody j o f s ho hturn =>
      rcases List.mem_append.mp hd with hd | hd
      · exact (hinitial (initial_readCallback j o f d hd)).elim
      · exact (hone _ rfl hd).elim
  | broadcasting j todo bytes =>
      rcases List.mem_cons.mp hd with rfl | hd
      · exact (not_target rfl hi).elim
      · exact (hone _ rfl hd).elim
  | write a bytes => split at hd; exacts [(List.not_mem_nil hd).elim, (hone _ rfl hd).elim]
  | close a => split at hd; exacts [(List.not_mem_nil hd).elim, (hone _ rfl hd).elim]
  | closeAll => split at hd; exacts [(List.not_mem_nil hd).elim, (hone _ rfl hd).elim]
  | advance => split at hd; exacts [(List.not_mem_nil hd).elim, (hone _ rfl hd).elim]
  | erase a j all => split at hd; exacts [(hone _ rfl hd).elim, (List.not_mem_nil hd).elim]
  | broadcasted bytes => cases hd
  | rearm j => cases hd
  | body j bytes => cases hd
  | loopBreak ho hturn => cases hd
  | done j len => cases hd
  | guard j => cases hd
  | _ => exact (hone _ rfl hd).elim

theorem Aimed.spawn (h : n.Aimed) {stack : List Call} (hstack : ∀ c ∈ stack, c.target = none)
    (hcalls : m.calls = n.calls) (hlen : n.sessions.length ≤ m.sessions.length) :
    (m.spawn stack).Aimed := by
  intro c hc i hi
  rw [calls_spawn, hcalls] at hc
  rcases List.mem_append.mp hc with hc | hc
  · exact (h c hc i hi).trans_le hlen
  · rw [hstack c hc] at hi
    cases hi

theorem exec_length {prog : List Api} {next : Option ℕ} {c : Call} {new : List Call}
    (h : n.exec cfg prog next c = some (m, new)) : m.sessions.length = n.sessions.length := by
  have hlen := congrArg List.length (exec_addrs h)
  simpa only [addrs, List.length_map] using hlen

theorem Aimed.step (h : n.Aimed) (hstep : Step cfg n a n') : n'.Aimed := by
  cases hstep with
  | call c =>
      refine h.spawn (fun d hd => ?_) rfl le_rfl
      exact target_of_initial (initial_prog cfg [c] d hd)
  | arrive _ _ => exact h
  | acceptDone _ _ =>
      refine h.spawn (fun d hd => by rw [List.mem_singleton.mp hd]; rfl) rfl ?_
      exact (List.length_append ▸ Nat.le_add_right _ _ : n.sessions.length ≤ _)
  | acceptFail message _ =>
      exact h.spawn (fun d hd => by rw [List.mem_singleton.mp hd]; rfl) rfl le_rfl
  | @io i b o s stack ho hc =>
      refine h.spawn (fun d hd => ?_) rfl (by simp [onSess, modify])
      rcases initial_complete hc d hd with hd | ⟨k, rfl⟩ | rfl
      · exact target_of_initial hd
      · rfl
      · rfl
  | @run t prog next c rest new m hstack hen hexec =>
      have hcalls := calls_run new hstack (exec_threads hexec)
      have hc := mem_calls hstack
      intro d hd i hi
      have hlen : (sweep { m with threads := m.threads.set t (new ++ rest) }).sessions.length =
          n.sessions.length := by
        simpa [sweep] using exec_length hexec
      rw [hlen]
      rcases List.mem_append.mp (hcalls.mem_iff.mp (List.mem_cons_of_mem c hd)) with hd | hd
      · exact (exec_target hexec hd hi).elim (h c hc i) id
      · exact h d hd i hi

theorem complete_sendBuf {o : Obj} {b : SessionIo} {s : Session} {stack : List Call}
    (h : complete i o b = some (s, stack)) : s.sendBuf = o.sess.sendBuf := by
  cases b with
  | send k =>
      obtain ⟨⟨bytes, t⟩, hs, hr⟩ := Option.map_eq_some_iff.mp h
      cases hr
      obtain ⟨data, rest, -, -, -, -, rfl⟩ := Session.send_eq hs
      rfl
  | recv bytes =>
      obtain ⟨t, hs, hr⟩ := Option.map_eq_some_iff.mp h
      cases hr
      obtain ⟨rest, -, -, -, rfl⟩ := Session.recv_eq hs
      rfl
  | recvDone =>
      simp only [complete] at h
      split at h
      · rw [Option.some.injEq] at h
        split at h <;> cases h <;> rfl
      · cases h
  | _ =>
      simp only [complete] at h
      split at h <;> cases h
      rfl

/-- What holds in every run, whatever is broadcast. -/
structure Sound (n : Server) : Prop where
  kept : n.Kept
  addressed : n.Addressed
  ordered : n.Ordered
  exclusive : n.Exclusive .pool
  aimed : n.Aimed

theorem Sound.step (h : n.Sound) (hstep : Step cfg n a n') : n'.Sound where
  kept := h.kept.step hstep
  addressed := h.addressed.step h.kept hstep
  ordered := h.ordered.step hstep
  exclusive := h.exclusive.step hstep
  aimed := h.aimed.step hstep

/-- The log agrees with the server: it is a run of the board, the threads have to do what the board
says is left, the receivers of a broadcast that is on its way are the pool, and what was given to a
session has left its `send_buf` or is there. -/
structure Tracks (cfg : Config) (g : Log) (n : Server) : Prop where
  sound : n.Sound
  shaped : n.AllShaped
  board : ∃ ms, Run (fun B m => some (Board.move B m)) Board.Allowed Board.empty ms g.board
  left : n.allUnderway ~ g.board.left.toList
  pool : ∀ c ∈ g.board.left, ∃ posts p, g.board.posts = posts ++ [p] ∧
    p.receivers = n.pool.map Prod.snd
  stream : ∀ i, g.taken i ++ n.buffered i = g.frames cfg i

theorem holds_of_isBroadcasting {c : Call} (h : c.isBroadcasting = true) :
    c.holds = some .pool := by
  cases c with
  | broadcasting todo bytes => rfl
  | _ => cases h

/-- Who changes the pool locks it, or holds it and is not in the loop of a broadcast. -/
theorem exec_pool {prog : List Api} {next : Option ℕ} {c : Call} {new : List Call}
    (hexec : n.exec cfg prog next c = some (m, new)) :
    m.pool = n.pool ∨ c.wants = some .pool ∨
      (c.holds = some .pool ∧ c.isBroadcasting = false) := by
  cases Exec.of_exec hexec with
  | insert ho => exact Or.inr (Or.inl rfl)
  | erase a i all => exact Or.inr (Or.inr ⟨rfl, rfl⟩)
  | _ => exact Or.inl rfl

theorem moves_eq_post {c : Call} {rest : List Call} {receivers : List ℕ} {bytes : List Byte}
    (h : n.moves (c :: rest) = some (.post receivers bytes)) :
    c = .broadcast bytes ∧ receivers = n.pool.map Prod.snd := by
  cases c with
  | broadcast b => cases h; exact ⟨rfl, rfl⟩
  | broadcasting todo b => cases todo <;> cases h
  | sessionWrite i b pc =>
      cases pc with
      | body =>
          rw [moves] at h
          split at h <;> cases h
      | _ => cases h
  | _ => cases h

theorem exists_broadcasting (h : n.allUnderway ≠ []) :
    ∃ c ∈ n.calls, c.isBroadcasting = true := by
  by_contra hnone
  refine h (allUnderway_eq fun c hc => ?_)
  by_contra hb
  exact hnone ⟨c, hc, by simpa using hb⟩

variable {g : Log}

/-- While a broadcast is on its way nobody changes the pool. -/
theorem Tracks.pool_eq (h : Tracks cfg g n) {prog : List Api} {next : Option ℕ} {c : Call}
    {new : List Call} (hc : c ∈ n.calls) (hen : n.Enabled c)
    (hexec : n.exec cfg prog next c = some (m, new)) {x : List ℕ × List Byte}
    (hx : g.board.left = some x) : m.pool = n.pool := by
  have hsome : n.allUnderway ≠ [] := by
    intro hnil
    have hperm := h.left
    rw [hnil, hx] at hperm
    cases hperm.nil_eq
  obtain ⟨d, hd, hdb⟩ := exists_broadcasting hsome
  have hdh := holds_of_isBroadcasting hdb
  rcases exec_pool hexec with heq | hw | ⟨hh, hcb⟩
  · exact heq
  · exact absurd hdh (hen .pool hw d hd)
  · obtain rfl : c = d := Slots.eq_of_countP_le_one h.sound.exclusive hc hd (by simp [hh]) (by simp [hdh])
    rw [hdb] at hcb
    cases hcb

theorem Tracks.spawn (h : Tracks cfg g n) {stack : List Call} (hsound : (m.spawn stack).Sound)
    (hthreads : m.threads = n.threads) (hpool : m.pool = n.pool)
    (hbuf : ∀ i, (m.spawn stack).buffered i = n.buffered i) (hplain : Plain stack) :
    Tracks cfg g (m.spawn stack) where
  sound := hsound
  shaped s hs := by
    simp only [Server.spawn, hthreads] at hs
    rcases List.mem_append.mp hs with hs | hs
    · exact h.shaped s hs
    · rw [List.mem_singleton.mp hs]
      exact .plain hplain
  board := h.board
  left := by
    simp only [allUnderway, Server.spawn, hthreads, List.flatMap_append, List.flatMap_singleton,
      hplain.underway, List.append_nil]
    exact h.left
  pool c hc := by
    obtain ⟨posts, p, hposts, hreceivers⟩ := h.pool c hc
    exact ⟨posts, p, hposts, hreceivers.trans (congrArg (List.map Prod.snd) hpool.symm)⟩
  stream i := by
    rw [hbuf]
    exact h.stream i

theorem Tracks.run (h : Tracks cfg g n) {t : ℕ} {prog : List Api} {next : Option ℕ} {c : Call}
    {rest new : List Call} (hstack : n.threads[t]? = some (c :: rest)) (hen : n.Enabled c)
    (hexec : n.exec cfg prog next c = some (m, new))
    (hsound : Sound { m with threads := m.threads.set t (new ++ rest) }) :
    Tracks cfg (note n g (.run t prog next)) { m with threads := m.threads.set t (new ++ rest) } := by
  have hc := mem_calls hstack
  have hthreads := exec_threads hexec
  have hnote : note n g (.run t prog next) = ⟨g.board.after (n.moves (c :: rest)),
      fun j => g.taken j ++ n.takes j (c :: rest)⟩ := by
    simp only [note, hstack]
  obtain ⟨hshape, hturn⟩ := exec_turn h.sound.kept (h.shaped _ (List.mem_of_getElem? hstack)) hexec
  have hperm := Slots.flatMap_set_perm underway hstack (new ++ rest)
  obtain ⟨hallowed, hleft⟩ := hturn.allowed hperm h.left fun receivers bytes hpost => by
    obtain ⟨rfl, rfl⟩ := moves_eq_post hpost
    refine ⟨allUnderway_eq fun d hd => ?_, h.sound.ordered.nodup h.sound.addressed⟩
    by_contra hb
    exact hen .pool rfl d hd (holds_of_isBroadcasting (by simpa using hb))
  rw [hnote]
  refine ⟨hsound, fun s hs => ?_, ?_, ?_, fun x hx => ?_, fun j => ?_⟩
  · simp only [hthreads] at hs
    rcases List.mem_or_eq_of_mem_set hs with hs | rfl
    · exact h.shaped s hs
    · exact hshape
  · obtain ⟨ms, hrun⟩ := h.board
    cases hmv : n.moves (c :: rest) with
    | none => exact ⟨ms, hrun⟩
    | some mv => exact ⟨ms ++ [mv], hrun.tail (hallowed mv hmv) rfl⟩
  · simp only [allUnderway, hthreads]
    exact hleft
  · rcases Board.left_after hx with ⟨receivers, bytes, hmv⟩ | ⟨⟨y, hy⟩, hposts⟩
    · obtain ⟨rfl, rfl⟩ := moves_eq_post hmv
      cases hexec
      exact ⟨g.board.posts, ⟨_, bytes⟩, rfl, rfl⟩
    · obtain ⟨posts, p, hp, hreceivers⟩ := h.pool y hy
      exact ⟨posts, p, hposts.trans hp, by rw [hreceivers, ← h.pool_eq hc hen hexec hy]⟩
  · calc g.taken j ++ n.takes j (c :: rest) ++ m.buffered j
        _ = g.taken j ++ (n.takes j (c :: rest) ++ m.buffered j) := List.append_assoc ..
        _ = g.taken j ++ n.buffered j ++ gained cfg j (n.moves (c :: rest)) := by
          rw [exec_buffered (h.sound.aimed c hc) hexec j, List.append_assoc]
        _ = g.frames cfg j ++ gained cfg j (n.moves (c :: rest)) := by rw [h.stream j]
        _ = _ := (frames_after g _ _ j).symm

theorem Tracks.step (h : Tracks cfg g n) (hstep : Step cfg n a n') :
    Tracks cfg (note n g a) n' := by
  have hsound := h.sound.step hstep
  cases hstep with
  | call c =>
      exact h.spawn hsound rfl rfl (fun _ => rfl)
        (plain_of_holds fun d hd => (initial_prog cfg [c] d hd).holds)
  | arrive _ _ => exact ⟨hsound, h.shaped, h.board, h.left, h.pool, h.stream⟩
  | acceptFail message _ => exact h.spawn hsound rfl rfl (fun _ => rfl) (plain_singleton rfl)
  | @acceptDone b _ _ =>
      refine h.spawn hsound rfl rfl (fun i => ?_) (plain_singleton rfl)
      simp only [buffered, Server.spawn, accept, List.getElem?_append]
      split
      · rfl
      · next hi =>
        rw [List.getElem?_eq_none (not_lt.mp hi), List.getElem?_singleton]
        split <;> rfl
  | @io i b o s stack ho hc =>
      refine h.spawn hsound rfl rfl (fun j => ?_) (plain_of_holds (holds_complete hc))
      exact buffered_modify fun p hp => by
        rw [ho] at hp
        cases hp
        exact complete_sendBuf hc
  | run hstack hen hexec =>
      rw [(h.sound.kept.exec hstack hexec).sweep] at hsound ⊢
      exact h.run hstack hen hexec hsound

theorem sound_create : create.Sound where
  kept i o ho := by simp [create] at ho
  addressed := addressed_create
  ordered := .nil
  exclusive := Nat.zero_le 1
  aimed c hc := by cases hc

theorem tracks_create : Tracks cfg Log.empty create where
  sound := sound_create
  shaped s hs := by cases hs
  board := ⟨[], .refl⟩
  left := .nil
  pool c hc := by cases hc
  stream _ := rfl

/-- **The log of every run** agrees with the server. -/
theorem Tracks.of_run {acts : List ServerAct} (h : Run (Server.step cfg) Anything create acts n) :
    Tracks cfg (log cfg acts) n :=
  h.follow (I := Tracks cfg) tracks_create fun _ _ _ _ hI _ hstep => hI.step (.of_step hstep)

/-! ### What a broadcast does -/

/-- The thread `t` is in a broadcast, or in a `Session::write` that this has called. -/
def InBroadcast (n : Server) (t : ℕ) : Prop :=
  ∃ rest, (∃ bytes, n.threads[t]? = some (.broadcast bytes :: rest)) ∨
    (∃ todo bytes, n.threads[t]? = some (.broadcasting todo bytes :: rest)) ∨
    ∃ i bytes pc todo bytes', n.threads[t]? =
      some (.sessionWrite i bytes pc :: .broadcasting todo bytes' :: rest)

/-- What `broadcast` should do, in a state and after a run that led there: its packets are those of
`write`; what is appended to the `send_buf`s are the frames of the packets; a broadcast that has
returned has given its packet once to each session that was in the pool when it locked it, and one
that has not, at most once; until it returns these are the sessions of the pool; it leaves all others
as they are; and two sessions were given any two broadcasts in the same order. -/
structure Broadcasts (cfg : Config) (acts : List ServerAct) (n : Server) : Prop where
  packets : ∀ a head payload, ∃ bytes,
    (Api.broadcast head payload).toCall cfg = .broadcast bytes ∧
      (Api.write a head payload).toCall cfg = .write a bytes
  stream : ∀ i, (log cfg acts).taken i ++ n.buffered i = (log cfg acts).frames cfg i
  once : ∀ (k : ℕ) p, (log cfg acts).board.posts[k]? = some p →
    (k + 1 < (log cfg acts).board.posts.length ∨ ∀ c ∈ n.calls, c.isBroadcasting = false) →
      ∀ i, ((log cfg acts).board.inbox i).filter (fun m => m.1 = some k) =
        if i ∈ p.receivers then [(some k, p.content)] else []
  meanwhile : ∀ (k : ℕ) p, (log cfg acts).board.posts[k]? = some p →
    ∀ i, ((log cfg acts).board.inbox i).filter (fun m => m.1 = some k) = [] ∨
      i ∈ p.receivers ∧
        ((log cfg acts).board.inbox i).filter (fun m => m.1 = some k) = [(some k, p.content)]
  pool : (∃ c ∈ n.calls, c.isBroadcasting = true) → ∃ posts p,
    (log cfg acts).board.posts = posts ++ [p] ∧ p.receivers = n.pool.map Prod.snd
  others : ∀ t prog next n' j, n.InBroadcast t → n.step cfg (.run t prog next) = some n' →
    ¬ n.InPool j → n.Untouched n' j
  order : ∀ i j k l, [k, l] <+ (log cfg acts).board.order i → k ∈ (log cfg acts).board.order j →
    l ∈ (log cfg acts).board.order j → [k, l] <+ (log cfg acts).board.order j

theorem Tracks.steady (h : Tracks cfg g n) : g.board.Steady := by
  obtain ⟨ms, hrun⟩ := h.board
  exact Board.Steady.of_run hrun

/-- What a thread has still to do is what the board says is left. -/
theorem Tracks.left_eq (h : Tracks cfg g n) {stack : List Call} {x : List ℕ × List Byte}
    (hstack : stack ∈ n.threads) (hx : x ∈ underway stack) : g.board.left = some x :=
  Option.mem_toList.mp (h.left.mem_iff.mp (List.mem_flatMap.mpr ⟨stack, hstack, hx⟩))

theorem Tracks.inPool (h : Tracks cfg g n) {todo : List ℕ} {bytes : List Byte}
    (hleft : g.board.left = some (todo, bytes)) (hi : i ∈ todo) : n.InPool i := by
  obtain ⟨posts, p, done, hposts, hdone, -⟩ := h.steady.left _ hleft
  obtain ⟨posts', p', hposts', hpool⟩ := h.pool _ hleft
  obtain rfl := List.singleton_inj.mp (List.append_inj' (hposts.symm.trans hposts') rfl).2
  have hmem : i ∈ n.pool.map Prod.snd := by
    rw [← hpool, hdone]
    exact List.mem_append_right _ hi
  obtain ⟨e, he, rfl⟩ := List.mem_map.mp hmem
  exact ⟨e, he, rfl⟩

theorem Tracks.untouched (h : Tracks cfg g n) {t : ℕ} {prog : List Api} {next : Option ℕ}
    (hin : n.InBroadcast t) (hstep : n.step cfg (.run t prog next) = some n')
    (hj : ¬ n.InPool j) : n.Untouched n' j := by
  cases Step.of_step hstep with
  | @run _ _ _ c rest new m hstack hen hexec =>
      rw [(h.sound.kept.exec hstack hexec).sweep]
      obtain ⟨tail, ⟨bytes, hc⟩ | ⟨todo, bytes, hc⟩ | ⟨i, bytes, pc, todo, bytes', hc⟩⟩ := hin
      · cases hstack.symm.trans hc
        cases hexec
        exact ⟨rfl, Iff.rfl, rfl⟩
      · cases hstack.symm.trans hc
        cases todo <;> cases hexec <;> exact ⟨rfl, Iff.rfl, rfl⟩
      · cases hstack.symm.trans hc
        have hleft := h.left_eq (List.mem_of_getElem? hstack) List.mem_cons_self
        have hne : j ≠ i := fun hji => hj (hji ▸ h.inPool hleft List.mem_cons_self)
        cases Exec.of_exec hexec with
        | body => exact ⟨modify_getElem?_ne _ _ _ hne, Iff.rfl, rfl⟩
        | _ => exact ⟨rfl, Iff.rfl, rfl⟩

theorem Tracks.left_eq_none (h : Tracks cfg g n)
    (hfree : ∀ c ∈ n.calls, c.isBroadcasting = false) : g.board.left = none := by
  have hperm := h.left
  rw [allUnderway_eq hfree] at hperm
  cases hleft : g.board.left with
  | none => rfl
  | some x =>
      rw [hleft] at hperm
      cases hperm.nil_eq

theorem Tracks.pool_of_broadcasting (h : Tracks cfg g n)
    (hb : ∃ c ∈ n.calls, c.isBroadcasting = true) :
    ∃ posts p, g.board.posts = posts ++ [p] ∧ p.receivers = n.pool.map Prod.snd := by
  obtain ⟨c, hc, hcb⟩ := hb
  obtain ⟨stack, hstack, hmem⟩ := List.mem_flatten.mp hc
  obtain ⟨x, hx⟩ : ∃ x, x ∈ underway stack := by
    cases h.shaped stack hstack with
    | plain hplain => exact absurd (hplain c hmem) (by simp [hcb])
    | top todo bytes hrest => exact ⟨_, List.mem_cons_self⟩
    | above i pc todo bytes hrest => exact ⟨_, List.mem_cons_self⟩
  exact h.pool x (h.left_eq hstack hx)

/-- **Broadcasts agree with writes and come in one order**, in every run. -/
theorem broadcasts_agree {acts : List ServerAct}
    (h : Run (Server.step cfg) Anything create acts n) : Broadcasts cfg acts n := by
  have hT := Tracks.of_run h
  have hsteady := hT.steady
  refine ⟨fun a head payload => ⟨_, rfl, rfl⟩, hT.stream, fun k p hp hend i => ?_,
    fun k p hp i => ?_, hT.pool_of_broadcasting, fun t prog next n' j hin hstep hj =>
      hT.untouched hin hstep hj, fun i j k l hi hk hl => hsteady.agree hi hk hl⟩
  · exact hsteady.once hp (hend.imp id hT.left_eq_none) i
  · rw [hsteady.filter_inbox hp i]
    by_cases hk : k ∈ (log cfg acts).board.order i
    · refine Or.inr ⟨?_, if_pos hk⟩
      by_contra hi
      exact hsteady.not_mem_order hp hi hk
    · exact Or.inl (if_neg hk)

/-- Two clients connect. -/
def twoClients : List ServerAct :=
  clientConnects ++ [.arrive, .acceptDone 5, .run 1 [] none, .run 1 [] none, .run 1 [] none,
    .run 1 [] none, .run 1 [] none, .run 1 [] none]

/-- The server broadcasts twice, and between the two frames of the first broadcast it writes to the
client that the broadcast has still to reach. -/
def twoBroadcasts : List ServerAct :=
  twoClients ++ [.call (.broadcast [1] [10]), .call (.write 7 [2] [20]),
    .call (.broadcast [3] [30]), .run 3 [] none] ++
    List.replicate 5 (.run 2 [] none) ++ List.replicate 3 (.run 3 [] none) ++
    List.replicate 5 (.run 2 [] none) ++ List.replicate 10 (.run 4 [] none)

theorem broadcasts_agree_interleaved :
    ∃ n, Run (Server.step .shipped) Anything create twoBroadcasts n ∧ n.Quiescent ∧
      (log .shipped twoBroadcasts).board.inbox 0 =
        [(none, [2, 20]), (some 0, [1, 10]), (some 1, [3, 30])] ∧
      (log .shipped twoBroadcasts).board.inbox 1 = [(some 0, [1, 10]), (some 1, [3, 30])] ∧
      Broadcasts .shipped twoBroadcasts n := by
  have h := Run.of_exec (Server.step .shipped) create twoBroadcasts (by decide +kernel)
  exact ⟨_, h, by decide +kernel, by decide +kernel, by decide +kernel, broadcasts_agree h⟩

end Server

end AsioTcpFrame
