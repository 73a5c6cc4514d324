import AsioTcpFrame.Ownership

/-! # `closeAll`

`ServerTCP::closeAll` walks over `session_pool` in a range-`for` and erases the element it is at.
The destructor and `stop` call it.  To see what it makes of a pool, one thread is run by itself
(`Alone`), with a `onDisconnect` that makes no calls of the server: it should report each session
of the pool once, leave the pool empty, and not advance an iterator whose element was erased
(`ClosesAll`).

It always advances one after the first session: the next element is looked up from the one that was
erased.  So `closesAll_iff`: it does what it should when there is no session to close, and only
then. -/

namespace AsioTcpFrame

open Transition

namespace Server

variable {cfg : Config} {n n' m : Server} {a : ServerAct} {ts : List (List Call)}
  {stack : List Call}

/-- A step of the thread `t`, in which the user's code makes no calls of the server. -/
def Alone (t : ℕ) (_ : Server) : ServerAct → Prop
  | .run t' prog _ => t' = t ∧ prog = []
  | _ => False

/-- Nobody holds `sess_pool_mtx`. -/
def PoolFree (n : Server) : Prop := ∀ d ∈ n.calls, d.holds ≠ some .pool

instance (n : Server) : Decidable n.PoolFree := by unfold PoolFree; infer_instance

/-- The call `c` is run by a thread of its own: the iterator stays valid; the thread is never stuck,
and gets to the end of the call; and then every session that was in the pool was reported once, in
the order of the pool, and no other, the pool is empty, and to close everything again reports
nothing. -/
structure ClosesAll (cfg : Config) (n : Server) (c : Call) : Prop where
  valid : ∀ acts n', Run (Server.step cfg) (Alone n.threads.length) (n.spawn [c]) acts n' →
    n'.ub = false
  runs : ∀ acts n', Run (Server.step cfg) (Alone n.threads.length) (n.spawn [c]) acts n' →
    n'.threads[n.threads.length]? = some [] ∨
      ∃ a n'', Alone n.threads.length n' a ∧ n'.step cfg a = some n''
  ends : ∃ k, ∀ acts n', Run (Server.step cfg) (Alone n.threads.length) (n.spawn [c]) acts n' →
    acts.length ≤ k
  closes : ∀ acts n', Run (Server.step cfg) (Alone n.threads.length) (n.spawn [c]) acts n' →
    n'.threads[n.threads.length]? = some [] →
      n'.pool = [] ∧ n'.trace = n.trace ++ n.pool.map fun e => .onDisconnect e.2
  again : ∀ acts n', Run (Server.step cfg) (Alone n.threads.length) (n.spawn [c]) acts n' →
    n'.threads[n.threads.length]? = some [] →
      ∀ d acts' n'', d = .closeAll ∨ d = .stop →
        Run (Server.step cfg) (Alone n'.threads.length) (n'.spawn [d]) acts' n'' →
          n''.trace = n'.trace

/-! ### One thread by itself -/

theorem step_alone {c : Call} {rest new : List Call} (hts : n.threads = ts ++ [c :: rest])
    (hen : n.Enabled c) {next : Option ℕ} (hexec : n.exec cfg [] next c = some (m, new)) :
    n.step cfg (.run ts.length [] next) = some (sweep { m with threads := ts ++ [new ++ rest] }) := by
  have hstack : n.threads[ts.length]? = some (c :: rest) := by simp [hts]
  have hset : m.threads.set ts.length (new ++ rest) = ts ++ [new ++ rest] := by
    rw [exec_threads hexec, hts, List.set_append_right _ _ le_rfl, Nat.sub_self]
    rfl
  simp only [step, hstack, if_pos hen, hexec, Option.map_some, hset]

/-- Every step of the last thread is one of the call on top of its stack. -/
theorem Alone.step_cases (hts : n.threads = ts ++ [stack]) (ha : Alone ts.length n a)
    (hstep : n.step cfg a = some n') :
    ∃ c rest m new next, stack = c :: rest ∧ n.exec cfg [] next c = some (m, new) ∧
      n' = sweep { m with threads := ts ++ [new ++ rest] } := by
  cases Step.of_step hstep with
  | @run _ _ next c rest new m hstack hen hexec =>
      obtain ⟨rfl, rfl⟩ := ha
      have hc : stack = c :: rest := by simpa [hts] using hstack
      subst hc
      have heq := step_alone hts hen hexec
      exact ⟨c, rest, m, new, next, rfl, hexec, Option.some.inj (hstep.symm.trans heq)⟩
  | _ => exact ha.elim

theorem poolFree_concat (hts : n.threads = ts ++ [stack]) (hfree : ∀ d ∈ ts.flatten, d.holds ≠ some .pool)
    (hstack : ∀ d ∈ stack, d.holds ≠ some .pool) : n.PoolFree := by
  intro d hd
  rw [calls, hts, List.flatten_append, List.flatten_singleton] at hd
  rcases List.mem_append.mp hd with hd | hd
  · exact hfree d hd
  · exact hstack d hd

/-! ### An empty pool -/

/-- What the thread of `closeAll` has still to do, when the pool is empty. -/
inductive Closing (k : ℕ) : List Call → Prop
  | stop : k = 0 → Closing k [.stop]
  | closeAll : k ≤ 1 → Closing k [.closeAll]
  | done : k ≤ 2 → Closing k []

/-- Nothing happens but that the thread comes to its end. -/
structure Idles (n : Server) (acts : List ServerAct) (n' : Server) : Prop where
  stack : ∃ stack, n'.threads = n.threads ++ [stack] ∧ Closing acts.length stack
  pool : n'.pool = []
  trace : n'.trace = n.trace
  ub : n'.ub = n.ub

theorem Idles.step {acts : List ServerAct} (h : Idles n acts m) (ha : Alone n.threads.length m a)
    (hstep : m.step cfg a = some n') : Idles n (acts ++ [a]) n' := by
  obtain ⟨⟨stack, hts, hclosing⟩, hpool, htrace, hub⟩ := h
  obtain ⟨c, rest, k, new, next, rfl, hexec, rfl⟩ := ha.step_cases hts hstep
  have hlen : (acts ++ [a]).length = acts.length + 1 := List.length_append
  cases hclosing with
  | stop hk =>
      cases hexec
      exact ⟨⟨_, rfl, .closeAll (by omega)⟩, hpool, htrace, hub⟩
  | closeAll hk =>
      cases hexec
      refine ⟨⟨_, rfl, ?_⟩, hpool, htrace, hub⟩
      rw [hpool]
      exact .done (by omega)

theorem Idles.of_run {acts : List ServerAct} {c : Call} (hpool : n.pool = [])
    (hc : c = .closeAll ∨ c = .stop)
    (h : Run (Server.step cfg) (Alone n.threads.length) (n.spawn [c]) acts n') : Idles n acts n' := by
  refine h.history (I := Idles n) ⟨⟨[c], rfl, ?_⟩, hpool, rfl, rfl⟩ fun _ _ _ _ hI ha hstep =>
    hI.step ha hstep
  rcases hc with rfl | rfl
  · exact .closeAll (Nat.zero_le _)
  · exact .stop rfl

theorem Idles.runs {acts : List ServerAct} (h : Idles n acts n') (hfree : n.PoolFree) :
    n'.threads[n.threads.length]? = some [] ∨
      ∃ a n'', Alone n.threads.length n' a ∧ n'.step cfg a = some n'' := by
  obtain ⟨⟨stack, hts, hclosing⟩, -, -, -⟩ := h
  cases hclosing with
  | stop hk =>
      have hen : n'.Enabled .stop := fun l hl => by cases hl
      exact Or.inr ⟨.run n.threads.length [] none, _, ⟨rfl, rfl⟩, step_alone hts hen rfl⟩
  | closeAll hk =>
      have hfree' : n'.PoolFree := poolFree_concat hts hfree (by simp [Call.holds])
      have hen : n'.Enabled .closeAll := fun l hl => by cases hl; exact hfree'
      exact Or.inr ⟨.run n.threads.length [] none, _, ⟨rfl, rfl⟩, step_alone hts hen rfl⟩
  | done hk => exact Or.inl (by simp [hts])

theorem closesAll_of_nil {c : Call} (hc : c = .closeAll ∨ c = .stop) (hfree : n.PoolFree)
    (hub : n.ub = false) (hpool : n.pool = []) : ClosesAll cfg n c where
  valid acts n' h := (Idles.of_run hpool hc h).ub.trans hub
  runs acts n' h := (Idles.of_run hpool hc h).runs hfree
  ends := by
    refine ⟨2, fun acts n' h => ?_⟩
    obtain ⟨stack, -, hclosing⟩ := (Idles.of_run hpool hc h).stack
    cases hclosing <;> omega
  closes acts n' h _ := by
    have hidle := Idles.of_run hpool hc h
    exact ⟨hidle.pool, by rw [hidle.trace, hpool, List.map_nil, List.append_nil]⟩
  again acts n' h _ d acts' n'' hd h' := (Idles.of_run (Idles.of_run hpool hc h).pool hd h').trace

/-! ### A pool with a session -/

/-- `closeAll` comes to the iterator that it has made invalid. -/
theorem closeAll_advances {e : Addr × ℕ} {tail : List (Addr × ℕ)}
    (hts : n.threads = ts ++ [[.closeAll]]) (hfree : n.PoolFree) (hpool : n.pool = e :: tail) :
    ∃ acts n', Run (Server.step cfg) (Alone ts.length) n acts n' ∧ n'.ub = true := by
  have hstep : ∀ {k k' : Server} {c : Call} {new : List Call}, k.threads = ts ++ [[c]] →
      k.Enabled c → k.exec cfg [] none c = some (k', new) → Run (Server.step cfg) (Alone ts.length) k
        [.run ts.length [] none] (sweep { k' with threads := ts ++ [new ++ []] }) :=
    fun hk hen hexec => .single ⟨rfl, rfl⟩ (step_alone hk hen hexec)
  have hen : n.Enabled .closeAll := fun l hl => by cases hl; exact hfree
  have hfree' : ∀ (k : Server) (c : Call), c.wants = none → k.Enabled c :=
    fun k c hc l hl => by rw [hc] at hl; cases hl
  have hfirst : n.exec cfg [] none .closeAll = some (n, [.disconnect e.1 e.2 true]) := by
    simp only [exec, hpool]
  refine ⟨_, _, ((hstep hts hen hfirst).trans (hstep rfl (hfree' _ _ rfl) rfl)).trans
    ((hstep rfl (hfree' _ _ rfl) rfl).trans (hstep rfl (hfree' _ _ rfl) rfl)), rfl⟩

theorem not_closesAll_of_cons {c : Call} {e : Addr × ℕ} {tail : List (Addr × ℕ)}
    (hc : c = .closeAll ∨ c = .stop) (hfree : n.PoolFree) (hpool : n.pool = e :: tail) :
    ¬ ClosesAll cfg n c := by
  intro h
  have hspawn : (n.spawn [.closeAll]).PoolFree := poolFree_concat rfl hfree (by simp [Call.holds])
  rcases hc with rfl | rfl
  · obtain ⟨acts, n', hrun, htrue⟩ : ∃ acts n', Run (Server.step cfg) (Alone n.threads.length)
        (n.spawn [.closeAll]) acts n' ∧ n'.ub = true := closeAll_advances rfl hspawn hpool
    exact absurd (h.valid acts n' hrun) (by rw [htrue]; decide)
  · have hstop : (n.spawn [.stop]).step cfg (.run n.threads.length [] none) =
        some (sweep { n with acceptorOpen := false, threads := n.threads ++ [[.closeAll]] }) :=
      step_alone (n := n.spawn [.stop]) rfl (fun l hl => by cases hl) rfl
    obtain ⟨acts, n', hrun, htrue⟩ : ∃ acts n', Run (Server.step cfg) (Alone n.threads.length)
        (sweep { n with acceptorOpen := false, threads := n.threads ++ [[.closeAll]] }) acts n' ∧
          n'.ub = true := closeAll_advances rfl hspawn hpool
    have hrun' := (Run.single ⟨rfl, rfl⟩ hstop).trans hrun
    exact absurd (h.valid _ n' hrun') (by rw [htrue]; decide)

/-- **When `closeAll` closes everything.**  Called by itself or by `stop` (so by the destructor) while
nobody holds `sess_pool_mtx`, `closeAll` does what it should exactly when the pool is empty. -/
theorem closesAll_iff {c : Call} (hc : c = .closeAll ∨ c = .stop) (hfree : n.PoolFree)
    (hub : n.ub = false) : ClosesAll cfg n c ↔ n.pool = [] := by
  constructor
  · intro h
    cases hpool : n.pool with
    | nil => rfl
    | cons e tail => exact absurd h (not_closesAll_of_cons hc hfree hpool)
  · exact closesAll_of_nil hc hfree hub

theorem closesAll_create : ClosesAll .shipped create .stop :=
  (closesAll_iff (Or.inr rfl) (by decide) rfl).mpr rfl

/-- With one client connected, the iterator is advanced although its element was erased. -/
theorem not_closesAll :
    ∃ n, Run (Server.step .shipped) Anything create clientConnects n ∧ n.pool = [(7, 0)] ∧
      ¬ ClosesAll .shipped n .closeAll := by
  have h := Run.of_exec (Server.step .shipped) create clientConnects (by decide +kernel)
  exact ⟨_, h, by decide +kernel, not_closesAll_of_cons (Or.inl rfl) (by decide +kernel)
    (show _ = [(7, 0)] by decide +kernel)⟩

end Server

end AsioTcpFrame
