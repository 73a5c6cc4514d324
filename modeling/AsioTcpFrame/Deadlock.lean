import AsioTcpFrame.Lib.LockOrder
import AsioTcpFrame.Server

/-! # The locks of a server

Two kinds of mutex are locked by the calls of a server: `sess_pool_mtx`, and the `send_mtx` of each
session inside `Session::write` and the write handler.  `broadcast` writes to the sessions while
it holds the first, so the order is the pool before the sessions.

The user is called with no mutex held, except by `onDisconnect`, which `close` and `closeAll` call
with the pool locked.  Everything in the interface of the server locks the pool, so the locks are
taken in order exactly as long as no `onDisconnect` calls back into the server
(`QuietDisconnect`).  Then in every stack only `Session::write` runs on top of a call that holds
a mutex (`Disciplined`), and `LockOrder.no_wait_cycle` applies. -/

namespace AsioTcpFrame

open Transition

/-- The call of `onDisconnect`. -/
def Call.isDisconnect : Call → Bool
  | disconnect _ _ _ => true
  | _ => false

namespace Server

/-- The thread `t` has to lock `l` next. -/
def Wants (n : Server) (t : ℕ) (l : Mutex) : Prop :=
  ∃ c rest, n.threads[t]? = some (c :: rest) ∧ c.wants = some l

/-- The thread `t` has locked `l`. -/
def Holds (n : Server) (t : ℕ) (l : Mutex) : Prop :=
  ∃ stack, n.threads[t]? = some stack ∧ ∃ c ∈ stack, c.holds = some l

/-- No thread locks a mutex that it holds, and no threads wait for each other in a circle. -/
structure LocksInOrder (n : Server) : Prop where
  own : ∀ t l, n.Wants t l → ¬ n.Holds t l
  cycle : ∀ t, ¬ Relation.TransGen (LockOrder.WaitsFor n.Wants n.Holds) t t

/-- The user's `onDisconnect` makes no calls of the server. -/
def QuietDisconnect (n : Server) : ServerAct → Prop
  | .run t prog _ => (n.top t).any Call.isDisconnect = true → prog = []
  | _ => True

instance (n : Server) (a : ServerAct) : Decidable (QuietDisconnect n a) := by
  cases a <;> unfold QuietDisconnect <;> infer_instance

end Server

namespace Call

/-- A running `Session::write`. -/
def isSessionWrite : Call → Bool
  | sessionWrite _ _ _ => true
  | _ => false

/-- `c` may run on top of `d`: `d` holds no mutex, or it holds the pool and `c` writes to a
session. -/
def Over (c d : Call) : Prop :=
  d.holds = none ∨ (d.holds = some .pool ∧ c.isSessionWrite = true)

theorem wants_of_isSessionWrite {c : Call} {l : Mutex} (h : c.isSessionWrite = true)
    (hw : c.wants = some l) : ∃ i, l = .send i := by
  cases c with
  | sessionWrite i bytes pc => cases pc <;> simp [wants] at hw; exact ⟨i, hw.symm⟩
  | _ => simp [isSessionWrite] at h

theorem holds_of_wants {c : Call} {l : Mutex} (hw : c.wants = some l) : c.holds = none := by
  cases c with
  | sessionWrite i bytes pc => cases pc <;> simp [wants, holds] at hw ⊢
  | accepted i pc => rfl
  | writeDone i len locked => cases locked <;> simp [wants, holds] at hw ⊢
  | _ => simp [wants, holds] at hw ⊢

end Call

theorem Api.holds_toCall (cfg : Config) (c : Api) : (c.toCall cfg).holds = none := by
  cases c <;> rfl

namespace Server

variable {cfg : Config} {n n' m : Server} {a : ServerAct}

/-- In every stack, what runs on top of a call that holds a mutex is a write to a session, and the
mutex is the pool. -/
def Disciplined (n : Server) : Prop := ∀ stack ∈ n.threads, stack.Pairwise Call.Over

theorem pairwise_of_holds {stack : List Call} (h : ∀ c ∈ stack, c.holds = none) :
    stack.Pairwise Call.Over :=
  List.pairwise_of_forall_mem_list fun _ _ d hd => Or.inl (h d hd)

/-- What takes the place of a call may run on top of it, and is a write to a session if it was. -/
theorem exec_over {prog : List Api} {next : Option ℕ} {c : Call} {new : List Call}
    (hG : c.isDisconnect = true → prog = []) (h : n.exec cfg prog next c = some (m, new)) :
    new.Pairwise Call.Over ∧ (c.isSessionWrite = true → ∀ d ∈ new, d.isSessionWrite = true) := by
  cases Exec.of_exec h with
  | write a bytes => refine ⟨?_, fun hw => by cases hw⟩; split <;> simp
  | broadcasting i todo bytes =>
      exact ⟨by simp [Call.Over, Call.holds, Call.isSessionWrite], fun hw => by cases hw⟩
  | close a => refine ⟨?_, fun hw => by cases hw⟩; split <;> simp
  | closeAll => refine ⟨?_, fun hw => by cases hw⟩; split <;> simp
  | disconnect a i all =>
      rw [hG rfl]
      simp [Call.isSessionWrite]
  | erase a i all => refine ⟨?_, fun hw => by cases hw⟩; split <;> simp
  | advance => refine ⟨?_, fun hw => by cases hw⟩; split <;> simp
  | connect i =>
      refine ⟨pairwise_of_holds fun c hc => ?_, fun hw => by cases hw⟩
      rcases List.mem_append.mp hc with hc | hc
      · exact (initial_prog cfg prog c hc).holds
      · rw [List.mem_singleton.mp hc]; rfl
  | message i head length content =>
      exact ⟨pairwise_of_holds fun c hc => (initial_prog cfg prog c hc).holds, fun hw => by cases hw⟩
  | error i message =>
      exact ⟨pairwise_of_holds fun c hc => (initial_prog cfg prog c hc).holds, fun hw => by cases hw⟩
  | test bytes ho => split <;> simp [Call.isSessionWrite]
  | loopBody ho hturn =>
      refine ⟨pairwise_of_holds fun c hc => ?_, fun hw => by cases hw⟩
      rcases List.mem_append.mp hc with hc | hc
      · exact (initial_readCallback _ _ _ c hc).holds
      · rw [List.mem_singleton.mp hc]; rfl
  | _ => simp [Call.isSessionWrite]

theorem holds_complete {i : ℕ} {o : Obj} {b : SessionIo} {s : Session} {stack : List Call}
    (h : complete i o b = some (s, stack)) : ∀ c ∈ stack, c.holds = none := by
  intro c hc
  rcases initial_complete h c hc with hc | ⟨k, rfl⟩ | rfl
  · exact hc.holds
  · rfl
  · rfl

/-! ### One holder -/

/-- At most one call holds the mutex `l`. -/
def Exclusive (n : Server) (l : Mutex) : Prop := n.calls.countP (fun c => c.holds = some l) ≤ 1

theorem countP_holds {stack : List Call} (h : ∀ c ∈ stack, c.holds = none) (l : Mutex) :
    stack.countP (fun c => c.holds = some l) = 0 :=
  List.countP_eq_zero.mpr fun c hc => by simp [h c hc]

/-- What takes the place of a call holds `l` once if the call held it, or locked it, and else not. -/
theorem exec_holds {prog : List Api} {next : Option ℕ} {c : Call} {new : List Call}
    (h : n.exec cfg prog next c = some (m, new)) (l : Mutex) :
    new.countP (fun c => c.holds = some l) ≤
      [c].countP (fun c => c.holds = some l) + if c.wants = some l then 1 else 0 := by
  have hprog : (prog.map (Api.toCall cfg)).countP (fun c => c.holds = some l) = 0 :=
    countP_holds (fun c hc => (initial_prog cfg prog c hc).holds) l
  cases Exec.of_exec h with
  | write a bytes => split <;> simp [Call.holds]
  | broadcast bytes => simp [Call.holds, Call.wants, List.countP_cons]
  | broadcasting i todo bytes => simp [Call.holds, List.countP_cons]
  | close a => split <;> simp [Call.holds, Call.wants, List.countP_cons]
  | closeAll => split <;> simp [Call.holds, Call.wants, List.countP_cons]
  | disconnect a i all =>
      rw [List.countP_append, hprog]
      simp [Call.holds, List.countP_cons]
  | erase a i all => split <;> simp [Call.holds, List.countP_cons]
  | advance => split <;> simp [Call.holds, List.countP_cons]
  | connect i =>
      rw [List.countP_append, hprog]
      simp [Call.holds]
  | message i head length content => rw [hprog]; exact Nat.zero_le _
  | error i message => rw [hprog]; exact Nat.zero_le _
  | test bytes ho => split <;> simp [Call.holds]
  | lock i bytes => simp [Call.holds, Call.wants, List.countP_cons]
  | @loopBody i o f s ho hturn =>
      rw [List.countP_append, countP_holds (fun c hc => (initial_readCallback i o f c hc).holds) l]
      simp [Call.holds]
  | doneLock i len => simp [Call.holds, Call.wants, List.countP_cons]
  | _ => simp [Call.holds]

theorem Exclusive.step {l : Mutex} (h : n.Exclusive l) (hstep : Step cfg n a n') :
    n'.Exclusive l := by
  have hspawn : ∀ (k : Server) stack, k.Exclusive l → (∀ c ∈ stack, c.holds = none) →
      (k.spawn stack).Exclusive l := by
    intro k stack hk hstack
    have hnone := countP_holds hstack l
    simp only [Exclusive, calls_spawn, List.countP_append] at hk ⊢
    omega
  cases hstep with
  | call c => exact hspawn n _ h (by simpa using c.holds_toCall cfg)
  | arrive _ _ => exact h
  | acceptDone _ _ => exact hspawn _ _ h (by simp [Call.holds])
  | acceptFail message _ => exact hspawn _ _ h (by simp [Call.holds])
  | io ho hc => exact hspawn _ _ h (holds_complete hc)
  | @run t prog next c rest new m hstack hen hexec =>
      have hcount := countP_calls_run new hstack (exec_threads hexec) fun c => c.holds = some l
      have hnew := exec_holds hexec l
      have hold : n.calls.countP (fun c => c.holds = some l) ≤ 1 := h
      simp only [Exclusive]
      by_cases hw : c.wants = some l
      · have hfree : n.calls.countP (fun c => c.holds = some l) = 0 :=
          List.countP_eq_zero.mpr fun d hd => by simpa using hen l hw d hd
        rw [if_pos hw] at hnew
        omega
      · rw [if_neg hw] at hnew
        omega

/-- **No two calls hold one mutex**, in any run. -/
theorem Exclusive.of_run {acts : List ServerAct}
    (h : Run (Server.step cfg) Anything create acts n) (l : Mutex) : n.Exclusive l :=
  h.invariant (I := fun n => n.Exclusive l) (Nat.zero_le 1)
    fun _ _ _ hI _ hstep => hI.step (.of_step hstep)

/-! ### The order of the locks -/

theorem Disciplined.step (h : n.Disciplined) (hG : QuietDisconnect n a)
    (hstep : Step cfg n a n') : n'.Disciplined := by
  have hspawn : ∀ (k : Server) stack, k.threads = n.threads → (∀ c ∈ stack, c.holds = none) →
      (k.spawn stack).Disciplined := by
    intro k stack hk hstack s hs
    simp only [spawn, hk] at hs
    rcases List.mem_append.mp hs with hs | hs
    · exact h s hs
    · rw [List.mem_singleton.mp hs]; exact pairwise_of_holds hstack
  cases hstep with
  | call c => exact hspawn n _ rfl (by simpa using c.holds_toCall cfg)
  | arrive _ _ => exact h
  | acceptDone _ _ => exact hspawn _ _ rfl (by simp [Call.holds])
  | acceptFail message _ => exact hspawn _ _ rfl (by simp [Call.holds])
  | io ho hc => exact hspawn _ _ rfl (holds_complete hc)
  | @run t prog next c rest new m hstack hen hexec =>
      intro s hs
      simp only [sweep_threads, exec_threads hexec] at hs
      rcases List.mem_or_eq_of_mem_set hs with hs | rfl
      · exact h s hs
      · have hold : (c :: rest).Pairwise Call.Over := h _ (List.mem_of_getElem? hstack)
        obtain ⟨hc, hrest⟩ := List.pairwise_cons.mp hold
        have htop := top_eq hstack
        obtain ⟨hnew, hwrite⟩ := exec_over (fun hd => hG (by simpa [htop] using hd)) hexec
        refine List.pairwise_append.mpr ⟨hnew, hrest, ?_⟩
        intro x hx d hd
        rcases hc d hd with hnone | ⟨hpool, hw⟩
        · exact Or.inl hnone
        · exact Or.inr ⟨hpool, hwrite hw x hx⟩

/-- The mutexes in the order in which they are locked. -/
def rank : Mutex → ℕ
  | .pool => 0
  | .send _ => 1

/-- In disciplined stacks a mutex is locked only on top of those before it. -/
theorem Disciplined.rank_lt (h : n.Disciplined) {t : ℕ} {l l' : Mutex} (hw : n.Wants t l)
    (hh : n.Holds t l') : rank l' < rank l := by
  obtain ⟨c, rest, hstack, hc⟩ := hw
  obtain ⟨stack, hstack', d, hd, hl'⟩ := hh
  rw [hstack] at hstack'
  cases hstack'
  have hpair : (c :: rest).Pairwise Call.Over := h _ (List.mem_of_getElem? hstack)
  rcases List.mem_cons.mp hd with rfl | hd
  · rw [Call.holds_of_wants hc] at hl'; cases hl'
  · rcases (List.pairwise_cons.mp hpair).1 d hd with hnone | ⟨hpool, hwrite⟩
    · rw [hnone] at hl'; cases hl'
    · rw [hpool] at hl'
      cases hl'
      obtain ⟨i, rfl⟩ := Call.wants_of_isSessionWrite hwrite hc
      exact Nat.zero_lt_one

/-- **The locks are taken in order** in every run in which `onDisconnect` makes no calls of the
server: no thread locks a mutex that it holds, and none wait for each other in a circle. -/
theorem locks_in_order {acts : List ServerAct}
    (h : Run (Server.step cfg) QuietDisconnect create acts n) : n.LocksInOrder := by
  have hD : n.Disciplined := h.invariant (I := Disciplined) (fun s hs => by cases hs)
    fun _ _ _ hI hG hstep => hI.step hG (Step.of_step hstep)
  exact ⟨fun t l hw hh => lt_irrefl _ (hD.rank_lt hw hh),
    LockOrder.no_wait_cycle rank fun t l l' => hD.rank_lt⟩

/-- A client connects, and the server broadcasts to it while it is closed by another thread: the
closing thread waits for the pool, which the broadcasting one holds. -/
def broadcastAndClose : List ServerAct :=
  [.arrive, .acceptDone 7, .run 0 [] none, .run 0 [] none, .run 0 [] none, .run 0 [] none,
    .call (.broadcast [0] [9]), .run 1 [] none, .run 1 [] none, .run 1 [] none, .call (.close 7)]

theorem locks_in_order_broadcast :
    ∃ n, Run (Server.step .shipped) QuietDisconnect create broadcastAndClose n ∧
      n.Wants 2 .pool ∧ n.Holds 1 .pool ∧ n.LocksInOrder := by
  have h := Run.of_execWhen (Server.step .shipped) QuietDisconnect create broadcastAndClose
    (by decide +kernel)
  exact ⟨_, h, ⟨.close 7, [], by decide +kernel, rfl⟩,
    ⟨[.sessionWrite 0 [0, 9] .lock, .broadcasting [] [0, 9]], by decide +kernel,
      .broadcasting [] [0, 9], by simp, rfl⟩, locks_in_order h⟩

/-- A client connects and is closed, and `onDisconnect` broadcasts that it has left. -/
def broadcastLeft : List ServerAct :=
  [.arrive, .acceptDone 7, .run 0 [] none, .run 0 [] none, .run 0 [] none, .run 0 [] none,
    .call (.close 7), .run 1 [] none, .run 1 [.broadcast [0] [9]] none]

/-- The thread that closes the client waits for the pool, which it holds itself. -/
theorem not_locks_in_order :
    ∃ n, Run (Server.step .shipped) Anything create broadcastLeft n ∧
      n.threads[1]? = some [.broadcast [0, 9], .erase 7 0 false] ∧ ¬ n.LocksInOrder := by
  have h := Run.of_exec (Server.step .shipped) create broadcastLeft (by decide +kernel)
  have hstack : ∀ n : Server, n.threads[1]? = some [.broadcast [0, 9], .erase 7 0 false] →
      ¬ n.LocksInOrder := fun n hs hl =>
    hl.own 1 .pool ⟨_, _, hs, rfl⟩ ⟨_, hs, .erase 7 0 false, by simp, rfl⟩
  exact ⟨_, h, by decide +kernel, hstack _ (by decide +kernel)⟩

end Server

end AsioTcpFrame
