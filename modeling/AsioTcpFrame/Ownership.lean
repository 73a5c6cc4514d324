import AsioTcpFrame.Server

/-! # Who owns a session

A server closes a connection by dropping its `shared_ptr` from the pool: `~Session`, and with it
`stop`, is to run when the last owner goes.  But the two callbacks of a session capture a
`shared_ptr` to the session they belong to.  From the moment at which they are set the session
owns itself, and until then the handler of the accepted connection does (`Kept`).

So no session is ever destroyed, and none is ever stopped: a session that has left the pool goes
on reading, and being written to by those who still hold it.  `leavers_shut_down_iff` says that between
handlers the sessions that have left the pool are shut down only if there are none. -/

namespace AsioTcpFrame

open Transition
open scoped List

/-- The handler of the accepted connection `i`, before it sets the first callback. -/
def Call.prepares (i : ℕ) : Call → Prop
  | accepted j .insert | accepted j .setError => j = i
  | _ => False

namespace Server

variable {cfg : Config} {n n' m : Server} {a : ServerAct}

/-- Every session is alive and running, and is owned by its callbacks or by the handler that is
about to set them. -/
def Kept (n : Server) : Prop :=
  ∀ i o, n.sessions[i]? = some o → o.alive = true ∧ o.sess.stopped = false ∧
    (o.errorCallback = true ∨ ∃ c ∈ n.calls, c.prepares i)

theorem owns_of_prepares {i : ℕ} {c : Call} (h : c.prepares i) : c.owns = some i := by
  cases c with
  | accepted j pc => cases pc <;> first | exact congrArg some h | exact h.elim
  | _ => exact h.elim

theorem Kept.sweep (h : n.Kept) : n.sweep = n := by
  have hid : ∀ i o, n.sessions[i]? = some o → n.owned i o = true := by
    intro i o ho
    obtain ⟨-, -, hcb | ⟨c, hc, hp⟩⟩ := h i o ho
    · simp [owned, hcb]
    · have hany : (n.calls.any fun c => c.owns == some i) = true :=
        List.any_eq_true.mpr ⟨c, hc, by simp [owns_of_prepares hp]⟩
      simp [owned, hany]
  have hsessions : n.sweep.sessions = n.sessions := by
    apply List.ext_getElem?
    intro i
    simp only [Server.sweep, List.getElem?_mapIdx]
    cases ho : n.sessions[i]? with
    | none => rfl
    | some o => simp [hid i o ho]
  cases n
  simp only [Server.sweep, Server.mk.injEq, and_true] at hsessions ⊢
  exact hsessions

/-! ### What happens to an object -/

/-- An object is changed, but not its address, nor whether it is alive or stopped; and callbacks that
are set stay set. -/
structure Evolves (o o' : Obj) : Prop where
  addr : o'.addr = o.addr
  alive : o'.alive = o.alive
  stopped : o'.sess.stopped = o.sess.stopped
  errorCallback : o.errorCallback = true → o'.errorCallback = true

theorem Evolves.refl (o : Obj) : Evolves o o := ⟨rfl, rfl, rfl, id⟩

theorem modify_evolves {i j : ℕ} {f : Obj → Obj} {o' : Obj}
    (hf : ∀ o, n.sessions[i]? = some o → Evolves o (f o))
    (h : (n.modify i f).sessions[j]? = some o') :
    ∃ o, n.sessions[j]? = some o ∧ Evolves o o' ∧ (i = j → o' = f o) := by
  simp only [modify, List.getElem?_modify] at h
  obtain ⟨o, ho, rfl⟩ := Option.map_eq_some_iff.mp h
  split
  · next hij => subst hij; exact ⟨o, ho, hf o ho, fun _ => rfl⟩
  · next hij => exact ⟨o, ho, .refl o, fun h => absurd h hij⟩

theorem onSess_evolves {i j : ℕ} {f : Session → Session} {o' : Obj}
    (hf : ∀ o, n.sessions[i]? = some o → (f o.sess).stopped = o.sess.stopped)
    (h : (n.onSess i f).sessions[j]? = some o') :
    ∃ o, n.sessions[j]? = some o ∧ Evolves o o' := by
  obtain ⟨o, ho, he, -⟩ := modify_evolves (f := fun o => { o with sess := f o.sess })
    (fun o ho => ⟨rfl, rfl, hf o ho, id⟩) h
  exact ⟨o, ho, he⟩

theorem evolves_of_eq {j : ℕ} {o' : Obj} (hs : m.sessions = n.sessions)
    (h : m.sessions[j]? = some o') : ∃ o, n.sessions[j]? = some o ∧ Evolves o o' :=
  ⟨o', hs ▸ h, .refl o'⟩

/-- What a call does to the objects. -/
theorem exec_evolves {prog : List Api} {next : Option ℕ} {c : Call} {new : List Call} {j : ℕ}
    {o' : Obj} (h : n.exec cfg prog next c = some (m, new)) (hj : m.sessions[j]? = some o') :
    ∃ o, n.sessions[j]? = some o ∧ Evolves o o' := by
  cases Exec.of_exec h with
  | setError i =>
      obtain ⟨o, ho, he, -⟩ := modify_evolves (f := fun o => { o with errorCallback := true })
        (fun o _ => ⟨rfl, rfl, rfl, fun _ => rfl⟩) hj
      exact ⟨o, ho, he⟩
  | setRead i =>
      obtain ⟨o, ho, he, -⟩ := modify_evolves (f := fun o => { o with readCallback := true })
        (fun o _ => ⟨rfl, rfl, rfl, id⟩) hj
      exact ⟨o, ho, he⟩
  | start i => exact onSess_evolves (fun o _ => Session.doRead_stopped o.sess) hj
  | body i bytes => exact onSess_evolves (fun o _ => by simp) hj
  | loopBreak ho hturn => exact onSess_evolves (fun o _ => Session.doRead_stopped o.sess) hj
  | loopHead ho hturn =>
      obtain ⟨-, -, -, rfl⟩ := Session.turn_eq_head hturn
      exact onSess_evolves (fun p hp => by rw [ho] at hp; cases hp; rfl) hj
  | loopBody ho hturn =>
      obtain ⟨-, -, -, -, rfl⟩ := Session.turn_eq_body hturn
      exact onSess_evolves (fun p hp => by rw [ho] at hp; cases hp; rfl) hj
  | consume i => exact onSess_evolves (fun o _ => rfl) hj
  | done i len => exact onSess_evolves (fun o _ => by simp [Session.writeDone]) hj
  | _ => exact evolves_of_eq rfl hj

theorem exec_prepares {prog : List Api} {next : Option ℕ} {c : Call} {new : List Call} {i : ℕ}
    {o' : Obj} (h : n.exec cfg prog next c = some (m, new)) (hc : c.prepares i)
    (hi : m.sessions[i]? = some o') :
    o'.errorCallback = true ∨ ∃ d ∈ new, d ≠ c ∧ d.prepares i := by
  cases Exec.of_exec h with
  | @insert j o ho => exact Or.inr ⟨.accepted j .setError, by simp, by simp, hc⟩
  | setError j =>
      obtain ⟨o, ho, -, hset⟩ := modify_evolves (f := fun o => { o with errorCallback := true })
        (fun o _ => ⟨rfl, rfl, rfl, fun _ => rfl⟩) hi
      exact Or.inl (by rw [hset hc])
  | _ => exact hc.elim

/-- A step of a thread keeps the sessions. -/
theorem Kept.exec (h : n.Kept) {t : ℕ} {prog : List Api} {next : Option ℕ} {c : Call}
    {rest new : List Call} (hstack : n.threads[t]? = some (c :: rest))
    (hexec : n.exec cfg prog next c = some (m, new)) :
    Kept { m with threads := m.threads.set t (new ++ rest) } := by
  have hcalls := calls_run new hstack (exec_threads hexec)
  intro j o' hj
  obtain ⟨o, ho, he⟩ := exec_evolves hexec hj
  obtain ⟨halive, hstopped, howner⟩ := h j o ho
  refine ⟨he.alive.trans halive, he.stopped.trans hstopped, ?_⟩
  rcases howner with hset | ⟨d, hd, hp⟩
  · exact Or.inl (he.errorCallback hset)
  · have hmem : ∀ e, e ≠ c → e ∈ new ++ n.calls →
        e ∈ calls { m with threads := m.threads.set t (new ++ rest) } := fun e hne he =>
      (List.mem_cons.mp (hcalls.mem_iff.mpr he)).resolve_left hne
    by_cases hdc : d = c
    · subst hdc
      rcases exec_prepares hexec hp hj with hset | ⟨e, he, hne, hp⟩
      · exact Or.inl hset
      · exact Or.inr ⟨e, hmem e hne (List.mem_append_left _ he), hp⟩
    · exact Or.inr ⟨d, hmem d hdc (List.mem_append_right _ hd), hp⟩

theorem Kept.step (h : n.Kept) (hstep : Step cfg n a n') : n'.Kept := by
  have hspawn : ∀ (k : Server) stack, k.Kept → (k.spawn stack).Kept := by
    intro k stack hk i o ho
    obtain ⟨halive, hstopped, hset | ⟨c, hc, hp⟩⟩ := hk i o ho
    · exact ⟨halive, hstopped, Or.inl hset⟩
    · refine ⟨halive, hstopped, Or.inr ⟨c, ?_, hp⟩⟩
      rw [calls_spawn]
      exact List.mem_append_left _ hc
  cases hstep with
  | call c => exact hspawn n _ h
  | acceptFail message _ => exact hspawn n.acceptEnd _ h
  | arrive _ _ => exact h
  | acceptDone _ _ =>
      intro i o ho
      rw [calls_spawn]
      simp only [spawn, accept, List.getElem?_append] at ho
      split at ho
      · obtain ⟨halive, hstopped, hset | ⟨c, hc, hp⟩⟩ := h i o ho
        · exact ⟨halive, hstopped, Or.inl hset⟩
        · exact ⟨halive, hstopped, Or.inr ⟨c, List.mem_append_left _ hc, hp⟩⟩
      · next hi =>
        obtain ⟨hzero, rfl⟩ : i - n.sessions.length = 0 ∧ Obj.create _ = o := by
          simpa [List.getElem?_singleton] using ho
        refine ⟨rfl, rfl, Or.inr ⟨.accepted n.sessions.length .insert, by simp, ?_⟩⟩
        simp only [Call.prepares]
        omega
  | @io i b o s stack ho hc =>
      apply hspawn _ _
      intro j o' hj
      obtain ⟨p, hp, he⟩ := onSess_evolves
        (fun p hp => by rw [ho] at hp; cases hp; exact (complete_cases hc).1) hj
      obtain ⟨halive, hstopped, howner⟩ := h j p hp
      exact ⟨he.alive.trans halive, he.stopped.trans hstopped, howner.imp_left he.errorCallback⟩
  | @run t prog next c rest new m hstack hen hexec =>
      have hkept := h.exec hstack hexec
      rw [hkept.sweep]
      exact hkept

/-- **No session is destroyed or stopped**, in any run. -/
theorem Kept.of_run {acts : List ServerAct} (h : Run (Server.step cfg) Anything create acts n) :
    n.Kept :=
  h.invariant (I := Kept) (fun i o ho => by simp [create] at ho)
    fun _ _ _ hI _ hstep => hI.step (Step.of_step hstep)

/-! ### Sessions that have left the pool -/

/-- No handler and no call of the interface is running. -/
def Quiescent (n : Server) : Prop := n.calls = []

instance (n : Server) : Decidable n.Quiescent := by unfold Quiescent; infer_instance

/-- The session `i` is in the pool. -/
def InPool (n : Server) (i : ℕ) : Prop := ∃ e ∈ n.pool, e.2 = i

instance (n : Server) (i : ℕ) : Decidable (n.InPool i) := by unfold InPool; infer_instance

/-- The messages of the session `i` that the user was given. -/
def messages (n : Server) (i : ℕ) : List ServerEvent :=
  n.trace.filter fun e => match e with
    | .onMessage j _ _ _ => j == i
    | _ => false

/-- `stop` has taken effect on the session `i`: its socket is closed and nothing is outstanding, and
whatever happens later it hands on no message, and nothing is appended to its `send_buf`. -/
structure ShutDown (cfg : Config) (n : Server) (i : ℕ) : Prop where
  closed : ∃ o, n.sessions[i]? = some o ∧ o.sess.stopped = true ∧ o.sess.socketOpen = false ∧
    o.sess.reads = [] ∧ o.sess.writes = []
  quiet : ∀ acts n', Run (Server.step cfg) Anything n acts n' → n'.messages i = n.messages i ∧
    (n'.sessions[i]?).map (fun o => o.sess.sendBuf) = (n.sessions[i]?).map fun o => o.sess.sendBuf

/-- Between handlers, every session that was accepted and is not in the pool is shut down. -/
def LeaversShutDown (cfg : Config) (n : Server) : Prop :=
  n.Quiescent → ∀ i < n.sessions.length, ¬ n.InPool i → n.ShutDown cfg i

theorem Kept.not_shutDown (h : n.Kept) (i : ℕ) : ¬ n.ShutDown cfg i := by
  rintro ⟨⟨o, ho, hstopped, -⟩, -⟩
  rw [(h i o ho).2.1] at hstopped
  cases hstopped

/-- **When the sessions that have left the pool are shut down**: in a state of any run, exactly when
no session has left it. -/
theorem leavers_shut_down_iff {acts : List ServerAct}
    (h : Run (Server.step cfg) Anything create acts n) :
    n.LeaversShutDown cfg ↔ (n.Quiescent → ∀ i < n.sessions.length, n.InPool i) := by
  have hkept := Kept.of_run h
  constructor
  · intro hshut hq i hi
    by_contra hout
    exact hkept.not_shutDown i (hshut hq i hi hout)
  · intro hpool hq i hi hout
    exact absurd (hpool hq i hi) hout

/-- A client connects. -/
def clientConnects : List ServerAct :=
  [.arrive, .acceptDone 7, .run 0 [] none, .run 0 [] none, .run 0 [] none, .run 0 [] none,
    .run 0 [] none, .run 0 [] none]

theorem leavers_shut_down_connected :
    ∃ n, Run (Server.step .shipped) Anything create clientConnects n ∧ n.Quiescent ∧
      n.LeaversShutDown .shipped := by
  have h := Run.of_exec (Server.step .shipped) create clientConnects (by decide +kernel)
  exact ⟨_, h, by decide +kernel, (leavers_shut_down_iff h).mpr fun _ => by decide +kernel⟩

/-- The client is closed: its session leaves the pool, its socket stays open, and the read that is
outstanding delivers a message. -/
theorem not_leavers_shut_down :
    ∃ n, Run (Server.step .shipped) Anything create
        (clientConnects ++ [.call (.close 7), .run 1 [] none, .run 1 [] none, .run 1 [] none]) n ∧
      n.trace = [.onConnect 0, .onDisconnect 0] ∧ ¬ n.LeaversShutDown .shipped ∧
      ∃ n', Run (Server.step .shipped) Anything n
          [.io 0 (.recv [1, 0, 0, 0, 0, 0, 0, 0, 5]), .io 0 .recvDone, .run 3 [] none,
            .run 3 [] none, .run 3 [] none] n' ∧
        n'.trace = [.onConnect 0, .onDisconnect 0, .onMessage 0 [5] 0 1] := by
  have h := Run.of_exec (Server.step .shipped) create
    (clientConnects ++ [.call (.close 7), .run 1 [] none, .run 1 [] none, .run 1 [] none])
    (by decide +kernel)
  refine ⟨_, h, by decide +kernel, fun hshut => ?_, _, Run.of_exec (Server.step .shipped) _ _
    (by decide +kernel), by decide +kernel⟩
  exact (Kept.of_run h).not_shutDown 0
    (hshut (by decide +kernel) 0 (by decide +kernel) (by decide +kernel))

end Server

end AsioTcpFrame
