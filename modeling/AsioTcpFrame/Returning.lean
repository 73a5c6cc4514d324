import AsioTcpFrame.Deadlock
import AsioTcpFrame.Delivery
import AsioTcpFrame.Handles

/-! # The calls of a server return

`locks_in_order` says that no threads wait for each other in a circle.  Here is what a caller wants of
that: the handlers and the calls of a server that are running come to their end, in every schedule, as
soon as the user's callbacks make no further calls (`Returning`).

* *Somebody can go on* (`step_of_calls`).  Following those that a waiting thread waits for leads to a
  thread that waits for nobody (`LockOrder.exists_ready`), and its next step is defined, since the
  session that it is about exists (`Pointed`).
* *Not for ever* (`Sane.work_step`).  `Server.work` adds up the steps that the calls have still to take.
  What a `broadcast` has to do is bounded by the sessions that are in the pool or about to be put
  there, and what a read handler has to do by what its session has received. -/

namespace AsioTcpFrame

open Transition
open scoped List

namespace Call

/-- The sessions that a call looks up by their index. -/
def mentions : Call → List ℕ
  | broadcasting todo _ => todo
  | accepted i _ | sessionWrite i _ _ | readLoop i => [i]
  | readConsume i => [i]
  | _ => []

/-- The handler that is about to put its session into the pool. -/
def entering : Call → Bool
  | accepted _ .insert => true
  | _ => false

/-- The steps that a call has still to take, with those of the calls that it makes, when there are
at most `p` sessions in the pool and the user makes no calls. -/
def work (p : ℕ) : Call → ℕ
  | write _ _ => 4
  | broadcast _ => 4 * p + 2
  | broadcasting todo _ => 4 * todo.length + 1
  | close _ | closeAll => 4
  | stop => 5
  | disconnect _ _ _ => 3
  | erase _ _ _ => 2
  | advance => 1
  | accepted _ .insert => 6
  | accepted _ .setError => 5
  | accepted _ .setRead => 4
  | accepted _ .connect => 3
  | accepted _ .start => 2
  | accepted _ .rearm => 1
  | message _ _ _ _ | error _ _ => 1
  | sessionWrite _ _ .test => 3
  | sessionWrite _ _ .lock => 2
  | sessionWrite _ _ .body => 1
  | readLoop _ => 1
  | readConsume _ => 2
  | writeDone _ _ false => 2
  | writeDone _ _ true => 1
  | guard _ => 1

theorem work_mono {p q : ℕ} (h : p ≤ q) (c : Call) : c.work p ≤ c.work q := by
  cases c with
  | broadcast bytes =>
      show 4 * p + 2 ≤ 4 * q + 2
      omega
  | accepted i pc => cases pc <;> exact Nat.le_refl _
  | sessionWrite i bytes pc => cases pc <;> exact Nat.le_refl _
  | writeDone i len locked => cases locked <;> exact Nat.le_refl _
  | _ => exact Nat.le_refl _

theorem mentions_of_initial {c : Call} (h : c.Initial) : c.mentions = [] := by
  cases h <;> rfl

end Call

namespace Server

variable {cfg : Config} {n n' m : Server} {a : ServerAct} {acts : List ServerAct}

/-- A thread takes a step; a callback of the user that is called makes no calls, and an iterator that is
not valid ends its loop. -/
def Returning : Server → ServerAct → Prop
  | _, .run _ [] none => True
  | _, _ => False

/-! ### The sessions that the calls are about -/

/-- The sessions that the calls look up exist. -/
def Pointed (n : Server) : Prop := ∀ c ∈ n.calls, ∀ i ∈ c.mentions, i < n.sessions.length

theorem exec_mentions {prog : List Api} {next : Option ℕ} {c d : Call} {new : List Call} {i : ℕ}
    (hexec : n.exec cfg prog next c = some (m, new)) (hd : d ∈ new) (hi : i ∈ d.mentions) :
    i ∈ c.mentions ∨ i ∈ n.pool.map Prod.snd := by
  have hinitial : ¬ d.Initial := fun hd => by
    rw [Call.mentions_of_initial hd] at hi
    cases hi
  have hprog : d ∉ prog.map (Api.toCall cfg) := fun hd => hinitial (initial_prog cfg prog d hd)
  have hone : ∀ e : Call, e.mentions = [] → d ∉ [e] := by
    intro e he hd
    rw [List.mem_singleton.mp hd, he] at hi
    cases hi
  have hself : ∀ {e : Call} {l : List ℕ}, d ∈ [e] → e.mentions = l → i ∈ l := by
    intro e l hd he
    rw [← he, ← List.mem_singleton.mp hd]
    exact hi
  cases Exec.of_exec hexec with
  | write a bytes =>
      split at hd
      · cases hd
      · next j hj =>
        rw [List.mem_singleton.mp hd] at hi
        rw [List.mem_singleton.mp hi]
        exact Or.inr (List.mem_map.mpr ⟨_, find_mem hj, rfl⟩)
  | broadcast bytes =>
      rw [List.mem_singleton.mp hd] at hi
      exact Or.inr hi
  | broadcasted bytes => cases hd
  | broadcasting j todo bytes =>
      rcases List.mem_cons.mp hd with rfl | hd
      · rw [List.mem_singleton.mp hi]
        exact Or.inl List.mem_cons_self
      · rw [List.mem_singleton.mp hd] at hi
        exact Or.inl (List.mem_cons_of_mem j hi)
  | close a => split at hd; exacts [(List.not_mem_nil hd).elim, (hone _ rfl hd).elim]
  | closeAll => split at hd; exacts [(List.not_mem_nil hd).elim, (hone _ rfl hd).elim]
  | advance => split at hd; exacts [(List.not_mem_nil hd).elim, (hone _ rfl hd).elim]
  | erase a j all => split at hd; exacts [(hone _ rfl hd).elim, (List.not_mem_nil hd).elim]
  | stop => exact (hone _ rfl hd).elim
  | disconnect a j all => exact ((List.mem_append.mp hd).elim hprog (hone _ rfl)).elim
  | connect j =>
      refine Or.inl ((List.mem_append.mp hd).elim (fun hd => (hprog hd).elim) fun hd => ?_)
      exact hself hd rfl
  | message j head length content => exact (hprog hd).elim
  | error j message => exact (hprog hd).elim
  | test bytes ho => split at hd; exacts [(List.not_mem_nil hd).elim, Or.inl (hself hd rfl)]
  | @loopBody j o f s ho hturn =>
      rcases List.mem_append.mp hd with hd | hd
      · exact (hinitial (initial_readCallback j o f d hd)).elim
      · exact Or.inl (hself hd rfl)
  | rearm j => cases hd
  | body j bytes => cases hd
  | loopBreak ho hturn => cases hd
  | doneLock j len => exact (hone _ rfl hd).elim
  | done j len => cases hd
  | guard j => cases hd
  | _ => exact Or.inl (hself hd rfl)

theorem Addressed.lt_length (h : n.Addressed) {i : ℕ} (hi : i ∈ n.pool.map Prod.snd) :
    i < n.sessions.length := by
  obtain ⟨e, he, rfl⟩ := List.mem_map.mp hi
  obtain ⟨hlt, -⟩ := List.getElem?_eq_some_iff.mp (h.pool e he)
  simpa [addrs] using hlt

theorem Pointed.spawn (h : n.Pointed) {stack : List Call} (hcalls : m.calls = n.calls)
    (hlen : n.sessions.length ≤ m.sessions.length)
    (hstack : ∀ c ∈ stack, ∀ i ∈ c.mentions, i < m.sessions.length) : (m.spawn stack).Pointed := by
  intro c hc i hi
  rw [calls_spawn, hcalls] at hc
  rcases List.mem_append.mp hc with hc | hc
  · exact (h c hc i hi).trans_le hlen
  · exact hstack c hc i hi

theorem Pointed.step (h : n.Pointed) (haddr : n.Addressed) (hstep : Step cfg n a n') : n'.Pointed := by
  have hnone : ∀ {c : Call} {k i : ℕ}, c.mentions = [] → i ∈ c.mentions → i < k := by
    intro c k i hc hi
    rw [hc] at hi
    cases hi
  cases hstep with
  | call c =>
      refine h.spawn rfl le_rfl fun d hd i hi => hnone ?_ hi
      exact Call.mentions_of_initial (initial_prog cfg [c] d hd)
  | arrive _ _ => exact h
  | acceptDone _ _ =>
      refine h.spawn rfl (by simp [accept]) fun d hd i hi => ?_
      rw [List.mem_singleton.mp hd] at hi
      rw [List.mem_singleton.mp hi]
      simp [accept]
  | acceptFail message _ =>
      refine h.spawn rfl le_rfl fun d hd i hi => hnone ?_ hi
      rw [List.mem_singleton.mp hd]
      rfl
  | @io j b o s stack ho hc =>
      have hlen : (n.onSess j fun _ => s).sessions.length = n.sessions.length := by
        simp [onSess, modify]
      refine h.spawn rfl hlen.ge fun d hd i hi => ?_
      rcases initial_complete hc d hd with hd | ⟨k, rfl⟩ | rfl
      · exact hnone (Call.mentions_of_initial hd) hi
      · exact hnone rfl hi
      · rw [List.mem_singleton.mp hi, hlen]
        exact (List.getElem?_eq_some_iff.mp ho).1
  | @run t prog next c rest new m hstack hen hexec =>
      have hcalls := calls_run new hstack (exec_threads hexec)
      have hlen : (sweep { m with threads := m.threads.set t (new ++ rest) }).sessions.length =
          n.sessions.length := by
        have haddrs := congrArg List.length (exec_addrs hexec)
        simpa [sweep, addrs] using haddrs
      intro d hd i hi
      rw [hlen]
      rcases List.mem_append.mp (hcalls.mem_iff.mp (List.mem_cons_of_mem c hd)) with hd | hd
      · rcases exec_mentions hexec hd hi with hi | hi
        · exact h c (mem_calls hstack) i hi
        · exact haddr.lt_length hi
      · exact h d hd i hi

/-! ### How long it takes -/

/-- What the read handlers have still to work on. -/
def backlog (n : Server) : ℕ := (n.sessions.map fun o => o.sess.backlog).sum

/-- How many sessions the pool may come to have by the handlers that are running. -/
def room (n : Server) : ℕ := n.pool.length + n.calls.countP Call.entering

/-- The steps that the calls have still to take. -/
def work (n : Server) : ℕ := 4 * n.backlog + (n.calls.map (Call.work n.room)).sum

theorem backlog_onSess {i : ℕ} {o : Obj} (f : Session → Session) (ho : n.sessions[i]? = some o) :
    (n.onSess i f).backlog + o.sess.backlog = n.backlog + (f o.sess).backlog :=
  Slots.sum_modify ho (fun o => { o with sess := f o.sess }) fun o => o.sess.backlog

theorem backlog_onSess_le (i : ℕ) {f : Session → Session} (hf : ∀ s, (f s).backlog ≤ s.backlog) :
    (n.onSess i f).backlog ≤ n.backlog :=
  Slots.sum_modify_le n.sessions i (fun o => { o with sess := f o.sess }) (fun o => o.sess.backlog)
    fun o => hf o.sess

theorem backlog_modify_le (i : ℕ) {f : Obj → Obj} (hf : ∀ o, (f o).sess = o.sess) :
    (n.modify i f).backlog ≤ n.backlog :=
  Slots.sum_modify_le n.sessions i f (fun o => o.sess.backlog)
    fun o => (congrArg Session.backlog (hf o)).le

theorem length_poolInsert_le (a : Addr) (i : ℕ) : (n.poolInsert a i).pool.length ≤ n.pool.length + 1 := by
  have hlt : ∀ l : List (Addr × ℕ), (l.filter fun e => e.1 < a).length +
      (l.filter fun e => a < e.1).length ≤ l.length := by
    intro l
    induction l with
    | nil => exact Nat.zero_le _
    | cons e l ih =>
        simp only [List.filter_cons, List.length_cons, decide_eq_true_eq]
        split
        · next he =>
          rw [if_neg (Nat.lt_asymm he), List.length_cons]
          omega
        · split
          · rw [List.length_cons]
            omega
          · omega
  have hle := hlt n.pool
  simp only [poolInsert, List.length_append, List.length_cons]
  omega

theorem work_readCallback (p i : ℕ) (o : Obj) (f : Frame) :
    ((readCallback cfg i o f).map (Call.work p)).sum ≤ 2 := by
  unfold readCallback
  split
  · simp only [ServerTCP.readCallback, unpack, Callbacks.error, Callbacks.message]
    split <;> simp [Call.ofEffect, Call.work, Callbacks.both]
  · exact Nat.zero_le _

/-- No room is made by a step of a call. -/
theorem room_exec {c : Call} {new : List Call} (hexec : n.exec cfg [] none c = some (m, new)) :
    m.pool.length + new.countP Call.entering ≤ n.pool.length + [c].countP Call.entering := by
  have hnew : ∀ l : List Call, (∀ d ∈ l, d.Initial) → l.countP Call.entering = 0 := by
    intro l hl
    refine List.countP_eq_zero.mpr fun d hd => ?_
    cases hl d hd <;> simp [Call.entering]
  cases Exec.of_exec hexec with
  | write a bytes => split <;> simp [Call.entering]
  | close a => split <;> simp [Call.entering]
  | closeAll => split <;> simp [Call.entering]
  | advance => simp
  | test bytes ho => split <;> simp [Call.entering]
  | @insert i o ho =>
      have hle := length_poolInsert_le (n := n) o.addr i
      simpa [Call.entering] using hle
  | erase a i all =>
      have hle : (n.poolErase a).pool.length ≤ n.pool.length := List.length_filter_le _ _
      cases all <;> simpa [Call.entering] using hle
  | @loopBody i o f s ho hturn =>
      rw [List.countP_append, hnew _ (initial_readCallback i o f)]
      simp [Call.entering]
  | _ => simp [Call.entering]

/-- **One step of a call** takes one of its steps off. -/
theorem work_exec {c : Call} {new : List Call} {p : ℕ} (hp : n.pool.length ≤ p)
    (hexec : n.exec cfg [] none c = some (m, new)) :
    4 * m.backlog + (new.map (Call.work p)).sum < 4 * n.backlog + c.work p := by
  have hset : ∀ {i : ℕ} {o : Obj} {s : Session} {k : ℕ}, n.sessions[i]? = some o →
      s.backlog + k ≤ o.sess.backlog → (n.onSess i fun _ => s).backlog + k ≤ n.backlog := by
    intro i o s k ho hle
    have := backlog_onSess (fun _ => s) ho
    omega
  cases Exec.of_exec hexec with
  | write a bytes => split <;> simp [Call.work]
  | broadcast bytes =>
      simp only [Call.work, List.map_cons, List.map_nil, List.sum_cons, List.sum_nil,
        List.length_map]
      omega
  | broadcasting i todo bytes =>
      simp only [Call.work, List.map_cons, List.map_nil, List.sum_cons, List.sum_nil,
        List.length_cons]
      omega
  | close a => split <;> simp [Call.work]
  | closeAll => split <;> simp [Call.work]
  | test bytes ho => split <;> simp [Call.work]
  | erase a i all =>
      have hle : (n.poolErase a).backlog = n.backlog := rfl
      cases all <;> simp [Call.work, hle]
  | setError i =>
      have hle := backlog_modify_le (n := n) i (f := fun o => { o with errorCallback := true })
        fun _ => rfl
      simp only [Call.work, List.map_cons, List.map_nil, List.sum_cons, List.sum_nil]
      omega
  | setRead i =>
      have hle := backlog_modify_le (n := n) i (f := fun o => { o with readCallback := true })
        fun _ => rfl
      simp only [Call.work, List.map_cons, List.map_nil, List.sum_cons, List.sum_nil]
      omega
  | start i =>
      have hle := backlog_onSess_le (n := n) i (f := Session.start) fun s => s.backlog_doRead.le
      simp only [Call.work, List.map_cons, List.map_nil, List.sum_cons, List.sum_nil]
      omega
  | body i bytes =>
      have hle := backlog_onSess_le (n := n) i (f := fun s => s.writeLocked cfg bytes)
        fun s => (Session.backlog_congr (Session.writeLocked_input cfg s bytes)).le
      simp only [Call.work, List.map_nil, List.sum_nil]
      omega
  | @loopBreak i o ho hturn =>
      have hle := backlog_onSess_le (n := n) i (f := Session.doRead) fun s => s.backlog_doRead.le
      simp only [Call.work, List.map_nil, List.sum_nil]
      omega
  | @loopHead i o s ho hturn =>
      have hle := hset (k := 1) ho (Session.backlog_head hturn)
      simp only [Call.work, List.map_cons, List.map_nil, List.sum_cons, List.sum_nil]
      omega
  | @loopBody i o f s ho hturn =>
      have hle := hset (k := 1) ho (Session.backlog_body hturn).le
      have hread : ((readCallback cfg i o f).map (Call.work p)).sum ≤ 2 := work_readCallback p i o f
      simp only [Call.work, List.map_append, List.sum_append, List.map_cons, List.map_nil,
        List.sum_cons, List.sum_nil]
      omega
  | consume i =>
      have hle := backlog_onSess_le (n := n) i (f := Session.consumeBody)
        fun s => s.backlog_consumeBody
      simp only [Call.work, List.map_cons, List.map_nil, List.sum_cons, List.sum_nil]
      omega
  | done i len =>
      have hle := backlog_onSess_le (n := n) i (f := fun s => s.writeDone len) fun s =>
        (Session.backlog_congr ((Session.doWrite_input _).trans rfl)).le
      simp only [Call.work, List.map_nil, List.sum_nil]
      omega
  | _ => simp [Call.work, backlog, poolInsert, see]

/-! ### Somebody can go on -/

/-- A call whose sessions exist can take its next step. -/
theorem exists_exec (hcfg : cfg.pakSize ≤ cfg.sizeT) {c : Call}
    (hc : ∀ i ∈ c.mentions, i < n.sessions.length) : ∃ r, n.exec cfg [] none c = some r := by
  have hget : ∀ i, i ∈ c.mentions → ∃ o, n.sessions[i]? = some o := fun i hi =>
    ⟨_, List.getElem?_eq_getElem (hc i hi)⟩
  cases c with
  | broadcasting todo bytes => cases todo <;> exact ⟨_, rfl⟩
  | accepted i pc =>
      cases pc with
      | insert =>
          obtain ⟨o, ho⟩ := hget i (List.mem_singleton_self i)
          simp only [exec, ho, Option.map_some]
          exact ⟨_, rfl⟩
      | _ => exact ⟨_, rfl⟩
  | sessionWrite i bytes pc =>
      cases pc with
      | test =>
          obtain ⟨o, ho⟩ := hget i (List.mem_singleton_self i)
          simp only [exec, ho, Option.map_some]
          exact ⟨_, rfl⟩
      | _ => exact ⟨_, rfl⟩
  | readLoop i =>
      obtain ⟨o, ho⟩ := hget i (List.mem_singleton_self i)
      simp only [exec, ho, Option.bind_some]
      cases hturn : o.sess.turn cfg with
      | overread => exact absurd hturn (Session.not_overread hcfg _)
      | _ => exact ⟨_, rfl⟩
  | writeDone i len locked => cases locked <;> exact ⟨_, rfl⟩
  | _ => exact ⟨_, rfl⟩

/-- A thread whose call waits for nobody may take it further. -/
theorem enabled_of_ready {t : ℕ} {c : Call} {rest : List Call} (hstack : n.threads[t]? = some (c :: rest))
    (hready : ∀ u, ¬ LockOrder.WaitsFor n.Wants n.Holds t u) : n.Enabled c := by
  intro l hl d hd hholds
  obtain ⟨stack, hmem, hd⟩ := List.mem_flatten.mp hd
  obtain ⟨u, hu⟩ := List.mem_iff_getElem?.mp hmem
  exact hready u ⟨l, ⟨c, rest, hstack, hl⟩, stack, hu, d, hd, hholds⟩

/-- What the calls of a server rely on. -/
structure Sane (n : Server) : Prop where
  kept : n.Kept
  addressed : n.Addressed
  pointed : n.Pointed
  disciplined : n.Disciplined

theorem Sane.step (h : n.Sane) (hG : QuietDisconnect n a) (hstep : Step cfg n a n') : n'.Sane where
  kept := h.kept.step hstep
  addressed := h.addressed.step h.kept hstep
  pointed := h.pointed.step h.addressed hstep
  disciplined := h.disciplined.step hG hstep

theorem Sane.of_run (h : Run (Server.step cfg) QuietDisconnect create acts n) : n.Sane := by
  have h₀ : create.Sane := ⟨fun i o ho => by simp [create] at ho, addressed_create,
    fun c hc => by simp [calls, create] at hc, fun stack hs => by simp [create] at hs⟩
  exact h.invariant h₀ fun _ _ _ hI hG hstep => hI.step hG (Step.of_step hstep)

/-- **Somebody can go on**: while calls are running, a thread can take a step. -/
theorem Sane.step_of_calls (h : n.Sane) (hcfg : cfg.pakSize ≤ cfg.sizeT) (hcalls : n.calls ≠ []) :
    ∃ t n', n.step cfg (.run t [] none) = some n' := by
  obtain ⟨d, hd⟩ := List.exists_mem_of_ne_nil _ hcalls
  obtain ⟨stack, hmem, hd⟩ := List.mem_flatten.mp hd
  obtain ⟨t, ht⟩ := List.mem_iff_getElem?.mp hmem
  have hrank : ∀ l, rank l ≤ 1 := by
    intro l
    cases l <;> simp [rank]
  have horder : ∀ t l l', n.Wants t l → n.Holds t l' → rank l' < rank l :=
    fun t l l' => h.disciplined.rank_lt
  obtain ⟨u, hreach, hready⟩ := LockOrder.exists_ready hrank horder t
  have hstack : ∃ c rest, n.threads[u]? = some (c :: rest) := by
    have hne : ∀ {v : ℕ} {st : List Call} {e : Call}, n.threads[v]? = some st → e ∈ st →
        ∃ c rest, n.threads[v]? = some (c :: rest) := by
      intro v st e hst he
      cases st with
      | nil => cases he
      | cons c rest => exact ⟨c, rest, hst⟩
    rcases Relation.ReflTransGen.cases_tail hreach with rfl | ⟨w, -, l, -, st, hst, e, he, -⟩
    · exact hne ht hd
    · exact hne hst he
  obtain ⟨c, rest, hstack⟩ := hstack
  obtain ⟨r, hr⟩ := exists_exec hcfg (h.pointed c (mem_calls hstack))
  refine ⟨u, sweep { r.1 with threads := r.1.threads.set u (r.2 ++ rest) }, ?_⟩
  simp only [Server.step, hstack, if_pos (enabled_of_ready hstack hready), hr, Option.map_some]

/-! ### Not for ever -/

/-- A step of a thread takes one of the steps off. -/
theorem Sane.work_step (h : n.Sane) (hG : Returning n a) (hstep : Step cfg n a n') :
    n'.work < n.work := by
  cases hstep with
  | @run t prog next c rest new m hstack hen hexec =>
      obtain ⟨rfl, rfl⟩ : prog = [] ∧ next = none := by
        cases prog with
        | nil =>
            cases next with
            | none => exact ⟨rfl, rfl⟩
            | some k => exact hG.elim
        | cons api prog => exact hG.elim
      have hpool : n.pool.length ≤ n.room := Nat.le_add_right _ _
      have hroom := room_exec hexec
      have hwork := work_exec hpool hexec
      have hcalls := calls_run new hstack (exec_threads hexec)
      have hcount := countP_calls_run new hstack (exec_threads hexec) Call.entering
      have hsum := Slots.sum_exchange hcalls (Call.work n.room)
      rw [(h.kept.exec hstack hexec).sweep] at hcount hsum ⊢
      set n' : Server := { m with threads := m.threads.set t (new ++ rest) } with hn'
      have hle : n'.room ≤ n.room := by
        show m.pool.length + n'.calls.countP Call.entering ≤ n.room
        unfold room
        omega
      have hmono : (n'.calls.map (Call.work n'.room)).sum ≤ (n'.calls.map (Call.work n.room)).sum :=
        List.sum_le_sum fun d _ => Call.work_mono hle d
      show 4 * m.backlog + (n'.calls.map (Call.work n'.room)).sum < n.work
      unfold work
      omega
  | _ => exact hG.elim

/-- **The calls return.**  From every state of a run whose `onDisconnect`s make no calls of the server:
when the user's callbacks make no further calls, the handlers and the calls that are running come to
their end, after at most `n.work` steps, whatever the schedule. -/
theorem calls_return (hcfg : cfg.pakSize ≤ cfg.sizeT)
    (h : Run (Server.step cfg) QuietDisconnect create acts n) :
    Ends (Server.step cfg) Returning Quiescent n n.work := by
  apply Ends.of_measure (I := Sane) work (Sane.of_run h)
  · intro m b m' hm hG hstep
    have hquiet : QuietDisconnect m b := by
      cases b with
      | run t prog next =>
          intro _
          cases prog with
          | nil => rfl
          | cons api prog => exact hG.elim
      | _ => exact hG.elim
    exact ⟨hm.step hquiet (Step.of_step hstep), hm.work_step hG (Step.of_step hstep)⟩
  · intro m hm hstuck
    by_contra hcalls
    obtain ⟨t, m', hstep⟩ := hm.step_of_calls hcfg hcalls
    rw [hstuck (.run t [] none) trivial] at hstep
    cases hstep

/-- A broadcast to one client waits for no one while another thread waits for it to close the client. -/
theorem calls_return_broadcast :
    ∃ n, Run (Server.step .shipped) QuietDisconnect create broadcastAndClose n ∧ ¬ n.Quiescent ∧
      Ends (Server.step .shipped) Returning Quiescent n n.work := by
  have h := Run.of_execWhen (Server.step .shipped) QuietDisconnect create broadcastAndClose
    (by decide +kernel)
  exact ⟨_, h, by decide +kernel, calls_return (by decide) h⟩

end Server

end AsioTcpFrame
