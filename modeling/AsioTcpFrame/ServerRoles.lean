import AsioTcpFrame.Ownership

/-! # What the calls of a server have still to do

What is still to come for a session is in the stacks: `Call.role` says which of the running calls
will call the user about which session, and `Change` says what a step does to the roles, to the
pool and to the trace.

A session that is closed is not stopped, and it is in the pool before `onConnect` is called.  So
`Change` is about the steps that keep handlers and calls of `close` apart (`Orderly`):
`onDisconnect` is called only after `onConnect` and while no message or error of the session is
on its way; a frame is handed on, and a failure reported, only between the two (`Open`); and
`closeAll` never goes on from the element it has erased, which is not defined. -/

namespace AsioTcpFrame

open Transition
open scoped List

/-- What a call has still to do with a session: put it into the pool and report it; report it; call
`onDisconnect` and erase it; erase it; report a message or an error of it.  `advancing` goes on
with any session. -/
inductive Role where
  | inserting (i : ℕ)
  | connecting (i : ℕ)
  | disconnecting (a : Addr) (i : ℕ)
  | erasing (a : Addr) (i : ℕ)
  | advancing
  | reporting (i : ℕ)
deriving DecidableEq, Repr

namespace Role

/-- The session `i` is still to be put into the pool. -/
def inserts (i : ℕ) : Role → Bool
  | inserting j => j == i
  | _ => false

/-- `onConnect` is still to be called for the session `i`. -/
def joins (i : ℕ) : Role → Bool
  | inserting j | connecting j => j == i
  | _ => false

/-- `onDisconnect` was called for the session `i`, which is still to be erased. -/
def erases (i : ℕ) : Role → Bool
  | erasing _ j => j == i
  | _ => false

/-- A message or an error of the session `i` is on its way. -/
def reports (i : ℕ) : Role → Bool
  | reporting j => j == i
  | _ => false

/-- A session is being closed. -/
def closing : Role → Bool
  | disconnecting _ _ | erasing _ _ | advancing => true
  | _ => false

theorem joins_of_inserts {i : ℕ} {r : Role} (h : r.inserts i = true) : r.joins i = true := by
  cases r <;> first | exact h | cases h

theorem closing_of_erases {i : ℕ} {r : Role} (h : r.erases i = true) : r.closing = true := by
  cases r <;> first | rfl | cases h

end Role

/-- The role of a call. -/
def Call.role : Call → Option Role
  | accepted i .insert => some (.inserting i)
  | accepted i .setError | accepted i .setRead | accepted i .connect => some (.connecting i)
  | disconnect a i _ => some (.disconnecting a i)
  | erase a i _ => some (.erasing a i)
  | advance => some .advancing
  | message i _ _ _ => some (.reporting i)
  | error (some i) _ => some (.reporting i)
  | _ => none

theorem Call.holds_of_closing {c : Call} {r : Role} (h : c.role = some r) (hr : r.closing = true) :
    c.holds = some .pool := by
  cases c with
  | accepted i pc => cases pc <;> simp [role] at h <;> subst h <;> cases hr
  | error i message => cases i <;> simp [role] at h; subst h; cases hr
  | message i head length content => simp [role] at h; subst h; cases hr
  | _ => first | rfl | simp [role] at h

namespace Server

/-- What the running calls have still to do. -/
def roles (n : Server) : List Role := n.calls.filterMap Call.role

/-- The addresses of all sessions. -/
def addrs (n : Server) : List Addr := n.sessions.map Obj.addr

/-- `onConnect` was called for the session `i`, which is in the pool, and `onDisconnect` was
not. -/
def Open (n : Server) (i : ℕ) : Prop :=
  n.InPool i ∧ ∀ r ∈ n.roles, r.joins i = false ∧ r.erases i = false

instance (n : Server) (i : ℕ) : Decidable (n.Open i) := by unfold Open; infer_instance

/-- The call `c` takes a step that keeps the order. -/
def Calm (n : Server) : Call → Prop
  | .disconnect _ i _ => ∀ r ∈ n.roles, r.joins i = false ∧ r.reports i = false
  | .advance => False
  | .readLoop i => ∀ o ∈ n.sessions[i]?, o.sess.isReadingHead = false →
      o.sess.bodylen ≤ o.sess.recvBuf.length → n.Open i
  | _ => True

instance (n : Server) (c : Call) : Decidable (n.Calm c) := by
  cases c <;> unfold Calm <;> infer_instance

/-- The step keeps the order. -/
def Orderly (n : Server) : ServerAct → Prop
  | .run t _ _ => ∀ c ∈ n.top t, n.Calm c
  | .io i (.sendFail ec) | .io i (.recvFail ec) =>
      ec ≠ .eof → ∀ o ∈ n.sessions[i]?, o.errorCallback = true → n.Open i
  | _ => True

instance (n : Server) : ∀ a, Decidable (n.Orderly a)
  | .run t _ _ => inferInstanceAs (Decidable (∀ c ∈ n.top t, n.Calm c))
  | .io i (.sendFail ec) | .io i (.recvFail ec) => inferInstanceAs
      (Decidable (ec ≠ .eof → ∀ o ∈ n.sessions[i]?, o.errorCallback = true → n.Open i))
  | .io _ (.send _) | .io _ .sendDone | .io _ (.recv _) | .io _ .recvDone => isTrue trivial
  | .call _ | .arrive | .acceptDone _ | .acceptFail _ => isTrue trivial

/-! ### What a step does -/

/-- What an orderly step does to the addresses, the roles, the pool and the trace. -/
inductive Change (n n' : Server) : Prop
  | quiet : n'.addrs = n.addrs → n'.pool = n.pool → n'.trace = n.trace → n'.roles ~ n.roles →
      Change n n'
  | accept (a : Addr) : a ∉ n.addrs → n'.addrs = n.addrs ++ [a] → n'.pool = n.pool →
      n'.trace = n.trace → n'.roles ~ .inserting n.addrs.length :: n.roles → Change n n'
  | insert (a : Addr) (i : ℕ) : n.addrs[i]? = some a → n'.addrs = n.addrs →
      n'.pool = (n.poolInsert a i).pool → n'.trace = n.trace →
      .inserting i :: n'.roles ~ .connecting i :: n.roles → Change n n'
  | connect (i : ℕ) : n'.addrs = n.addrs → n'.pool = n.pool →
      n'.trace = n.trace ++ [.onConnect i] → .connecting i :: n'.roles ~ n.roles → Change n n'
  | close (a : Addr) (i : ℕ) : (a, i) ∈ n.pool → (∀ r ∈ n.roles, r.closing = false) →
      n'.addrs = n.addrs → n'.pool = n.pool → n'.trace = n.trace →
      n'.roles ~ .disconnecting a i :: n.roles → Change n n'
  | disconnect (a : Addr) (i : ℕ) : (∀ r ∈ n.roles, r.joins i = false ∧ r.reports i = false) →
      n'.addrs = n.addrs → n'.pool = n.pool → n'.trace = n.trace ++ [.onDisconnect i] →
      .disconnecting a i :: n'.roles ~ .erasing a i :: n.roles → Change n n'
  | erase (a : Addr) (i : ℕ) {next : List Role} : (next = [] ∨ next = [.advancing]) →
      n'.addrs = n.addrs → n'.pool = (n.poolErase a).pool → n'.trace = n.trace →
      .erasing a i :: n'.roles ~ next ++ n.roles → Change n n'
  | enter (i k : ℕ) : n.Open i → n'.addrs = n.addrs → n'.pool = n.pool → n'.trace = n.trace →
      n'.roles ~ List.replicate k (.reporting i) ++ n.roles → Change n n'
  | report (i : ℕ) (e : ServerEvent) : e.session = some i → e ≠ .onConnect i →
      e ≠ .onDisconnect i → n'.addrs = n.addrs → n'.pool = n.pool → n'.trace = n.trace ++ [e] →
      .reporting i :: n'.roles ~ n.roles → Change n n'
  | plain (e : ServerEvent) : e.session = none → n'.addrs = n.addrs → n'.pool = n.pool →
      n'.trace = n.trace ++ [e] → n'.roles ~ n.roles → Change n n'

section frame
variable {cfg : Config} (n : Server) (i : ℕ) (g : Session → Session) (stack : List Call)

theorem modify_addrs {f : Obj → Obj} (hf : ∀ o, (f o).addr = o.addr) :
    (n.modify i f).addrs = n.addrs := by
  apply List.ext_getElem?
  intro j
  simp only [addrs, modify, List.getElem?_map, List.getElem?_modify]
  cases n.sessions[j]? with
  | none => rfl
  | some o => by_cases hij : i = j <;> simp [hij, hf]

@[simp] theorem onSess_addrs : (n.onSess i g).addrs = n.addrs := modify_addrs n i fun _ => rfl

@[simp] theorem sweep_addrs : n.sweep.addrs = n.addrs := by
  apply List.ext_getElem?
  intro j
  simp only [addrs, sweep, List.getElem?_map, List.getElem?_mapIdx]
  cases n.sessions[j]? with
  | none => rfl
  | some o => simp only [Option.map_some]; split <;> rfl

@[simp] theorem spawn_addrs : (n.spawn stack).addrs = n.addrs := rfl

theorem roles_spawn : (n.spawn stack).roles ~ stack.filterMap Call.role ++ n.roles := by
  rw [roles, calls_spawn, List.filterMap_append]
  exact List.perm_append_comm

@[simp] theorem roles_onSess : (n.onSess i g).roles = n.roles := rfl

theorem roles_prog (prog : List Api) :
    (prog.map (Api.toCall cfg)).filterMap Call.role = [] := by
  apply List.filterMap_eq_nil_iff.mpr
  intro c hc
  obtain ⟨api, -, rfl⟩ := List.mem_map.mp hc
  cases api <;> rfl

end frame

variable {cfg : Config} {n n' m : Server} {a : ServerAct}

theorem accept_addrs (n : Server) (a : Addr) : (n.accept a).addrs = n.addrs ++ [a] := List.map_append

theorem Kept.not_mem_addrs (h : n.Kept) {a : Addr} (hfresh : n.Fresh a) : a ∉ n.addrs := by
  intro ha
  obtain ⟨o, ho, rfl⟩ := List.mem_map.mp ha
  obtain ⟨i, hi⟩ := List.mem_iff_getElem?.mp ho
  exact hfresh o ho (h i o hi).1 rfl

/-- What is still to be done, when `new` takes the place of `c`. -/
theorem roles_run {t : ℕ} {c : Call} {rest : List Call} (new : List Call)
    (hstack : n.threads[t]? = some (c :: rest)) (hthreads : m.threads = n.threads) :
    c.role.toList ++ (sweep { m with threads := m.threads.set t (new ++ rest) }).roles ~
      new.filterMap Call.role ++ n.roles := by
  have h := (calls_run new hstack hthreads).filterMap Call.role
  rw [List.filterMap_append, List.filterMap_cons] at h
  cases hc : c.role with
  | none => simpa [hc, roles] using h
  | some r => simpa [hc, roles] using h

theorem roles_readCallback (cfg : Config) (i : ℕ) (o : Obj) (f : Frame) :
    ∃ k, (readCallback cfg i o f).filterMap Call.role = List.replicate k (.reporting i) := by
  refine ⟨_, List.eq_replicate_iff.mpr ⟨rfl, fun r hr => ?_⟩⟩
  obtain ⟨c, hc, hrole⟩ := List.mem_filterMap.mp hr
  simp only [readCallback] at hc
  split at hc
  · obtain ⟨e, -, he⟩ := List.mem_flatMap.mp hc
    cases e <;> simp [Call.ofEffect] at he <;> subst he <;> cases hrole <;> rfl
  · cases hc

theorem find_mem {a : Addr} {i : ℕ} (h : n.find a = some i) : (a, i) ∈ n.pool := by
  obtain ⟨e, he, rfl⟩ := Option.map_eq_some_iff.mp h
  obtain rfl : e.1 = a := by simpa using List.find?_some he
  exact List.mem_of_find?_eq_some he

theorem Enabled.not_closing {c : Call} (h : n.Enabled c) (hc : c.wants = some .pool) :
    ∀ r ∈ n.roles, r.closing = false := by
  intro r hr
  obtain ⟨d, hd, hrole⟩ := List.mem_filterMap.mp hr
  by_contra hclosing
  exact h .pool hc d hd (Call.holds_of_closing hrole (by simpa using hclosing))

/-- What an orderly step of a thread does. -/
theorem Change.of_exec {t : ℕ} {prog : List Api} {next : Option ℕ} {c : Call}
    {rest new : List Call} (hstack : n.threads[t]? = some (c :: rest)) (hen : n.Enabled c)
    (hG : n.Calm c) (h : n.exec cfg prog next c = some (m, new)) :
    Change n (sweep { m with threads := m.threads.set t (new ++ rest) }) := by
  have hroles := roles_run new hstack (exec_threads h)
  generalize hn' : sweep { m with threads := m.threads.set t (new ++ rest) } = n' at hroles ⊢
  have haddrs : n'.addrs = m.addrs := by rw [← hn', sweep_addrs]; rfl
  have hpool : n'.pool = m.pool := by rw [← hn']; rfl
  have htrace : n'.trace = m.trace := by rw [← hn']; rfl
  clear hn'
  cases Exec.of_exec h with
  | write a bytes =>
      refine .quiet haddrs hpool htrace ?_
      cases hfind : n.find a <;> rw [hfind] at hroles <;> exact hroles
  | close a =>
      cases hfind : n.find a with
      | none => rw [hfind] at hroles; exact .quiet haddrs hpool htrace hroles
      | some i =>
        rw [hfind] at hroles
        exact .close a i (find_mem hfind) (hen.not_closing rfl) haddrs hpool htrace hroles
  | closeAll =>
      cases hp : n.pool with
      | nil => rw [hp] at hroles; exact .quiet haddrs hpool htrace hroles
      | cons e tail =>
        rw [hp] at hroles
        exact .close e.1 e.2 (by simp [hp]) (hen.not_closing rfl) haddrs hpool htrace hroles
  | disconnect a i all =>
      rw [List.filterMap_append, roles_prog] at hroles
      exact .disconnect a i hG haddrs hpool htrace hroles
  | erase a i all =>
      cases all with
      | false => exact .erase a i (Or.inl rfl) haddrs hpool htrace hroles
      | true => exact .erase a i (Or.inr rfl) haddrs hpool htrace hroles
  | advance => exact hG.elim
  | @insert i o ho => exact .insert o.addr i (by simp [addrs, ho]) haddrs hpool htrace hroles
  | setError i =>
      exact .quiet (haddrs.trans (modify_addrs n i fun _ => rfl)) hpool htrace
        (List.perm_cons _ |>.mp hroles)
  | setRead i =>
      exact .quiet (haddrs.trans (modify_addrs n i fun _ => rfl)) hpool htrace
        (List.perm_cons _ |>.mp hroles)
  | connect i =>
      rw [List.filterMap_append, roles_prog] at hroles
      exact .connect i haddrs hpool htrace hroles
  | start i => exact .quiet (haddrs.trans (onSess_addrs n i _)) hpool htrace hroles
  | message i head length content =>
      rw [roles_prog] at hroles
      exact .report i _ rfl (by simp) (by simp) haddrs hpool htrace hroles
  | error i message =>
      rw [roles_prog] at hroles
      cases i with
      | none => exact .plain _ rfl haddrs hpool htrace hroles
      | some i => exact .report i _ rfl (by simp) (by simp) haddrs hpool htrace hroles
  | test bytes ho =>
      refine .quiet haddrs hpool htrace ?_
      split at hroles <;> exact hroles
  | body i bytes => exact .quiet (haddrs.trans (onSess_addrs n i _)) hpool htrace hroles
  | loopBreak ho hturn => exact .quiet (haddrs.trans (onSess_addrs n _ _)) hpool htrace hroles
  | loopHead ho hturn => exact .quiet (haddrs.trans (onSess_addrs n _ _)) hpool htrace hroles
  | @loopBody i o f s ho hturn =>
      obtain ⟨hhead, hlen, -⟩ := Session.turn_eq_body hturn
      obtain ⟨k, hk⟩ := roles_readCallback cfg i o f
      rw [List.filterMap_append, hk, List.append_assoc] at hroles
      exact .enter i k (hG o ho hhead hlen) (haddrs.trans (onSess_addrs n i _)) hpool htrace hroles
  | consume i => exact .quiet (haddrs.trans (onSess_addrs n i _)) hpool htrace hroles
  | done i len => exact .quiet (haddrs.trans (onSess_addrs n i _)) hpool htrace hroles
  | _ => exact .quiet haddrs hpool htrace hroles

/-- **What an orderly step does.** -/
theorem Change.of_step (hkept : n.Kept) (hG : n.Orderly a) (hstep : Step cfg n a n') :
    Change n n' := by
  cases hstep with
  | call c =>
      refine .quiet rfl rfl rfl ((roles_spawn n _).trans ?_)
      cases c <;> rfl
  | arrive _ _ => exact .quiet rfl rfl rfl (.refl _)
  | acceptFail message _ => exact .quiet rfl rfl rfl (roles_spawn n.acceptEnd _)
  | @acceptDone a _ hfresh =>
      have hlen : n.addrs.length = n.sessions.length := List.length_map _
      refine .accept a (hkept.not_mem_addrs hfresh) (accept_addrs n a) rfl rfl ?_
      rw [hlen]
      exact roles_spawn (n.accept a) _
  | @io i b o s stack ho hc =>
      have hroles := roles_spawn (n.onSess i fun _ => s) stack
      rw [roles_onSess] at hroles
      obtain ⟨-, rfl | ⟨k, rfl⟩ | rfl | ⟨ec, tail, hb, -, htail, rfl⟩⟩ := complete_cases hc
      · exact .quiet (by simp) rfl rfl hroles
      · exact .quiet (by simp) rfl rfl hroles
      · exact .quiet (by simp) rfl rfl hroles
      · have hnone : tail.filterMap Call.role = [] := by rcases htail with rfl | rfl <;> rfl
        rw [List.filterMap_append, hnone, List.append_nil] at hroles
        by_cases hreport : o.errorCallback = true ∧ ec ≠ .eof
        · obtain ⟨hset, hec⟩ := hreport
          have hopen : n.Open i := by
            rcases hb with rfl | rfl <;> exact hG hec o ho hset
          rw [errorCallback, if_pos hset, if_neg hec] at hroles
          refine .enter i 1 hopen (by simp) rfl rfl ?_
          rw [errorCallback, if_pos hset, if_neg hec]
          exact hroles
        · have hquiet : (errorCallback i o ec).filterMap Call.role = [] := by
            by_cases hset : o.errorCallback = true
            · have hec : ec = .eof := by simpa [hset] using hreport
              simp [errorCallback, hec, Call.role]
            · simp [errorCallback, hset]
          rw [hquiet] at hroles
          exact .quiet (by simp) rfl rfl hroles
  | @run t prog next c rest new m hstack hen hexec =>
      exact .of_exec hstack hen (hG c (top_eq hstack)) hexec

end Server

end AsioTcpFrame
