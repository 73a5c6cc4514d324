import AsioTcpFrame.ServerRoles
import Mathlib.Data.List.Nodup

/-! # Handles of sessions

The user knows a session by its address, which `onConnect` hands out, and `ServerTCP::write` and
`ServerTCP::close` look the address up in `session_pool`.  A new session may be made at any address
at which no session lives.  But no session that was accepted is ever destroyed (`Kept`), so no
address is given out twice, and an address in the pool is that of the session it was made for
(`Addressed`).

Hence a call with a handle finds the session of the handle or none, and so does everything that
the call turns into (`Becomes`): it stays with one session (`Confined`), and leaves the others as
they are (`Untouched`), however long ago the connection was closed. -/

namespace AsioTcpFrame

open Transition
open scoped List

/-- The call uses the handle `a`, which is that of the session `i`, or works on that session. -/
def Call.Confined (a : Addr) (i : ℕ) : Call → Prop
  | write b _ | close b => b = a
  | disconnect b j false | erase b j false => b = a ∧ j = i
  | sessionWrite j _ _ => j = i
  | _ => False

namespace Server

variable {cfg : Config} {n n' m k : Server} {b : ServerAct} {a : Addr} {i j : ℕ}

/-- What a call of the interface made in the state `n`, at first `c₀`, is at some later time: that
call, or one that took its place.  What a callback of the user does on the way are calls of their
own. -/
inductive Becomes (cfg : Config) (n : Server) (c₀ : Call) : Call → Prop
  | self : Becomes cfg n c₀ c₀
  | next {c d : Call} {acts : List ServerAct} {k m : Server} {iterator : Option ℕ}
      {new : List Call} : Becomes cfg n c₀ c → Run (Server.step cfg) Anything n acts k →
        k.exec cfg [] iterator c = some (m, new) → d ∈ new → Becomes cfg n c₀ d

/-- How often the user was told that the session `j` is gone. -/
def disconnects (n : Server) (j : ℕ) : ℕ := n.trace.count (.onDisconnect j)

/-- The session `j` is as it was: nothing was appended to its buffer, it is in the pool if it was,
and nobody was told that it is gone. -/
structure Untouched (n n' : Server) (j : ℕ) : Prop where
  session : n'.sessions[j]? = n.sessions[j]?
  pool : n'.InPool j ↔ n.InPool j
  disconnects : n'.disconnects j = n.disconnects j

/-! ### Addresses -/

/-- No two sessions have one address, and the pool knows them by theirs. -/
structure Addressed (n : Server) : Prop where
  nodup : n.addrs.Nodup
  pool : ∀ e ∈ n.pool, n.addrs[e.2]? = some e.1

theorem addressed_create : create.Addressed := ⟨.nil, fun e he => by cases he⟩

theorem exec_addrs {prog : List Api} {next : Option ℕ} {c : Call} {new : List Call}
    (h : n.exec cfg prog next c = some (m, new)) : m.addrs = n.addrs := by
  cases Exec.of_exec h with
  | setError i => exact modify_addrs n i fun _ => rfl
  | setRead i => exact modify_addrs n i fun _ => rfl
  | start i => exact onSess_addrs n i _
  | body i bytes => exact onSess_addrs n i _
  | loopBreak ho hturn => exact onSess_addrs n _ _
  | loopHead ho hturn => exact onSess_addrs n _ _
  | loopBody ho hturn => exact onSess_addrs n _ _
  | consume i => exact onSess_addrs n i _
  | done i len => exact onSess_addrs n i _
  | _ => rfl

theorem mem_poolInsert {e : Addr × ℕ} (h : e ∈ (n.poolInsert a i).pool) :
    e = (a, i) ∨ e ∈ n.pool := by
  rcases List.mem_append.mp h with h | h
  · exact Or.inr (List.mem_of_mem_filter h)
  · rcases List.mem_cons.mp h with h | h
    · exact Or.inl h
    · exact Or.inr (List.mem_of_mem_filter h)

theorem exec_mem_pool {prog : List Api} {next : Option ℕ} {c : Call} {new : List Call}
    (h : n.exec cfg prog next c = some (m, new)) {e : Addr × ℕ} (he : e ∈ m.pool) :
    e ∈ n.pool ∨ n.addrs[e.2]? = some e.1 := by
  cases Exec.of_exec h with
  | @insert i o ho =>
      rcases mem_poolInsert he with rfl | he
      · exact Or.inr (by simp [addrs, ho])
      · exact Or.inl he
  | erase a i all => exact Or.inl (List.mem_of_mem_filter he)
  | _ => exact Or.inl he

theorem Addressed.step (h : n.Addressed) (hkept : n.Kept) (hstep : Step cfg n b n') :
    n'.Addressed := by
  cases hstep with
  | call c => exact ⟨h.nodup, h.pool⟩
  | arrive _ _ => exact ⟨h.nodup, h.pool⟩
  | acceptFail message _ => exact ⟨h.nodup, h.pool⟩
  | io ho hc =>
      constructor
      · rw [spawn_addrs, onSess_addrs]; exact h.nodup
      · rw [spawn_addrs, onSess_addrs]; exact h.pool
  | @acceptDone a _ hfresh =>
      have haddrs := accept_addrs n a
      have hnew := hkept.not_mem_addrs hfresh
      constructor
      · rw [spawn_addrs, haddrs]
        exact List.nodup_append.mpr ⟨h.nodup, List.nodup_singleton a,
          fun x hx y hy hxy => hnew (List.mem_singleton.mp hy ▸ hxy ▸ hx)⟩
      · intro e he
        rw [spawn_addrs, haddrs, List.getElem?_append_left]
        · exact h.pool e he
        · exact (List.getElem?_eq_some_iff.mp (h.pool e he)).1
  | @run t prog next c rest new m hstack hen hexec =>
      have haddrs := exec_addrs hexec
      constructor
      · rw [sweep_addrs]
        exact haddrs ▸ h.nodup
      · intro e he
        rw [sweep_addrs]
        show m.addrs[e.2]? = some e.1
        rw [haddrs]
        exact (exec_mem_pool hexec he).elim (h.pool e) id

theorem Addressed.of_run {acts : List ServerAct} (h : Run (Server.step cfg) Anything create acts n) :
    n.Kept ∧ n.Addressed :=
  h.invariant (I := fun n => n.Kept ∧ n.Addressed)
    ⟨fun i o ho => by simp [create] at ho, addressed_create⟩
    fun _ _ _ hI _ hstep => ⟨hI.1.step (.of_step hstep), hI.2.step hI.1 (.of_step hstep)⟩

theorem addrs_of_run {acts : List ServerAct} (h : Run (Server.step cfg) Anything n acts k)
    (ha : n.addrs[i]? = some a) : k.addrs[i]? = some a := by
  refine h.invariant (I := fun k => k.addrs[i]? = some a) ha fun k b k' hI _ hstep => ?_
  cases Step.of_step hstep with
  | call c => exact hI
  | arrive _ _ => exact hI
  | acceptFail message _ => exact hI
  | io ho hc => rw [spawn_addrs, onSess_addrs]; exact hI
  | @acceptDone b _ _ =>
      rw [spawn_addrs, accept_addrs, List.getElem?_append_left (List.getElem?_eq_some_iff.mp hI).1]
      exact hI
  | run hstack hen hexec =>
      rw [sweep_addrs]
      exact (congrArg (·[i]?) (exec_addrs hexec)).trans hI

/-- What is at an address is the session that the address was given to. -/
theorem Addressed.eq_of_mem (h : n.Addressed) (ha : n.addrs[i]? = some a) (hj : (a, j) ∈ n.pool) :
    j = i := by
  have hj := h.pool _ hj
  obtain ⟨hi', hi⟩ := List.getElem?_eq_some_iff.mp ha
  obtain ⟨hj', hj⟩ := List.getElem?_eq_some_iff.mp hj
  exact (h.nodup.getElem_inj_iff).mp (hj.trans hi.symm)

/-! ### Calls that are confined -/

/-- A call that is confined becomes calls that are. -/
theorem exec_confined {next : Option ℕ} {c d : Call} {new : List Call} (h : n.Addressed)
    (ha : n.addrs[i]? = some a) (hc : c.Confined a i)
    (hexec : n.exec cfg [] next c = some (m, new)) (hd : d ∈ new) : d.Confined a i := by
  cases Exec.of_exec hexec with
  | write b bytes =>
      obtain rfl : b = a := hc
      split at hd
      · cases hd
      · next j hfind =>
        rw [List.mem_singleton.mp hd]
        exact h.eq_of_mem ha (find_mem hfind)
  | close b =>
      obtain rfl : b = a := hc
      split at hd
      · cases hd
      · next j hfind =>
        rw [List.mem_singleton.mp hd]
        exact ⟨rfl, h.eq_of_mem ha (find_mem hfind)⟩
  | disconnect b j all =>
      cases all with
      | true => exact hc.elim
      | false =>
          rw [List.mem_singleton.mp hd]
          exact hc
  | erase b j all =>
      cases all with
      | true => exact hc.elim
      | false => cases hd
  | test bytes ho =>
      split at hd
      · cases hd
      · rw [List.mem_singleton.mp hd]; exact hc
  | lock j bytes => rw [List.mem_singleton.mp hd]; exact hc
  | body j bytes => cases hd
  | _ => exact hc.elim

/-- **A call that is confined** leaves the other sessions alone. -/
theorem exec_untouched {prog : List Api} {next : Option ℕ} {c : Call} {new : List Call}
    (h : n.Addressed) (ha : n.addrs[i]? = some a) (hc : c.Confined a i)
    (hexec : n.exec cfg prog next c = some (m, new)) (hj : j ≠ i) : n.Untouched m j := by
  cases Exec.of_exec hexec with
  | write b bytes => exact ⟨rfl, Iff.rfl, rfl⟩
  | close b => exact ⟨rfl, Iff.rfl, rfl⟩
  | disconnect b l all =>
      cases all with
      | true => exact hc.elim
      | false =>
          have hne : ServerEvent.onDisconnect l ≠ .onDisconnect j := by
            rw [hc.2]
            intro heq
            cases heq
            exact hj rfl
          refine ⟨rfl, Iff.rfl, ?_⟩
          simp only [disconnects, see, List.count_append, List.count_singleton, beq_iff_eq, hne,
            if_false, Nat.add_zero]
  | erase b l all =>
      cases all with
      | true => exact hc.elim
      | false =>
          obtain ⟨rfl, -⟩ := hc
          refine ⟨rfl, ?_, rfl⟩
          constructor
          · rintro ⟨e, he, hej⟩
            exact ⟨e, List.mem_of_mem_filter he, hej⟩
          · rintro ⟨e, he, hej⟩
            refine ⟨e, List.mem_filter.mpr ⟨he, ?_⟩, hej⟩
            simp only [ne_eq, decide_not, Bool.not_eq_true', decide_eq_false_iff_not]
            intro hb
            exact hj (hej.symm.trans (h.eq_of_mem ha (hb ▸ he)))
  | test bytes ho => exact ⟨rfl, Iff.rfl, rfl⟩
  | lock l bytes => exact ⟨rfl, Iff.rfl, rfl⟩
  | body l bytes =>
      obtain rfl : l = i := hc
      exact ⟨modify_getElem?_ne _ _ _ hj, Iff.rfl, rfl⟩
  | _ => exact hc.elim

theorem Becomes.confined {c₀ c : Call} (h : Becomes cfg n c₀ c) (hkept : n.Kept)
    (haddr : n.Addressed) (ha : n.addrs[i]? = some a) (hc₀ : c₀.Confined a i) : c.Confined a i := by
  induction h with
  | self => exact hc₀
  | next _ hrun hexec hd ih =>
      have hk := hrun.invariant (I := fun n => n.Kept ∧ n.Addressed) ⟨hkept, haddr⟩
        fun _ _ _ hI _ hstep => ⟨hI.1.step (.of_step hstep), hI.2.step hI.1 (.of_step hstep)⟩
      exact exec_confined hk.2 (addrs_of_run hrun ha) ih hexec hd

/-- **A handle reaches no other session.**  Let the handle `a` have been given to the session `i` in some
run.  Then whatever a `write` or a `close` with that handle becomes, at whatever later time it takes a
step, this leaves every other session as it was. -/
theorem handle_confined {acts : List ServerAct} (h : Run (Server.step cfg) Anything create acts n)
    (ha : n.addrs[i]? = some a) (head payload : List Byte) (api : Api)
    (hapi : api = .write a head payload ∨ api = .close a) {c : Call}
    (hc : Becomes cfg n (api.toCall cfg) c) {acts' : List ServerAct}
    (hk : Run (Server.step cfg) Anything n acts' k) (t : ℕ) (prog : List Api) (next : Option ℕ)
    {k' : Server} (htop : k.top t = some c) (hstep : k.step cfg (.run t prog next) = some k')
    (hj : j ≠ i) : k.Untouched k' j := by
  obtain ⟨hkept, haddr⟩ := Addressed.of_run h
  obtain ⟨hkeptk, haddrk⟩ := Addressed.of_run (h.trans hk)
  have hc₀ : (api.toCall cfg).Confined a i := by rcases hapi with rfl | rfl <;> rfl
  have hconf := hc.confined hkept haddr ha hc₀
  cases Step.of_step hstep with
  | @run _ _ _ d rest new m hstack hen hexec =>
      obtain rfl : d = c := by simpa [top, hstack] using htop
      rw [(hkeptk.exec hstack hexec).sweep]
      have hm := exec_untouched haddrk (addrs_of_run hk ha) hconf hexec hj
      exact ⟨hm.session, hm.pool, hm.disconnects⟩

/-- A client connects and is closed, and another one connects. -/
def reconnects : List ServerAct :=
  clientConnects ++ [.call (.close 7), .run 1 [] none, .run 1 [] none, .run 1 [] none, .arrive,
    .acceptDone 8, .run 2 [] none, .run 2 [] none, .run 2 [] none, .run 2 [] none, .run 2 [] none,
    .run 2 [] none]

/-- The first one is closed again. -/
theorem handle_confined_stale :
    ∃ n k k', Run (Server.step .shipped) Anything create reconnects n ∧ n.pool = [(8, 1)] ∧
      Run (Server.step .shipped) Anything n [.call (.close 7)] k ∧
      k.step .shipped (.run 3 [] none) = some k' ∧ k.Untouched k' 1 := by
  have h := Run.of_exec (Server.step .shipped) create reconnects (by decide +kernel)
  have hcall : ∀ n : Server, Run (Server.step .shipped) Anything n [.call (.close 7)]
      (n.spawn [.close 7]) := fun n => .single trivial rfl
  exact ⟨_, _, _, h, by decide +kernel, hcall _, rfl,
    handle_confined (i := 0) h (by decide +kernel) [] [] (.close 7) (Or.inr rfl) .self (hcall _) 3 []
      none (by decide +kernel) rfl (by decide)⟩

end Server

end AsioTcpFrame
