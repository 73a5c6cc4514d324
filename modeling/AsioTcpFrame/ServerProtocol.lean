import AsioTcpFrame.Lib.Trace
import AsioTcpFrame.ServerRoles

/-! # The order of a server's callbacks

For each session the user should see one `onConnect`, then messages and errors, and at the end
one `onDisconnect` (`InOrder`).  In orderly runs the user does: `callbacks_in_order`.

The invariant is a ledger (`Ledger`): each accepted session is about to be inserted, or in the
pool, or `onDisconnect` was called for it; from that call to the `erase` after it, it is counted
twice.  `Placed` is what it needs of the pool: addresses are different, and at most one session
is being closed at a time. -/

namespace AsioTcpFrame

open Transition Trace
open scoped List

namespace Server

/-- The session `i` was put into the pool, and is no longer in it. -/
def HasLeft (n : Server) (i : ℕ) : Prop :=
  i < n.sessions.length ∧ .inserting i ∉ n.roles ∧ ¬ n.InPool i

/-- The callbacks of the session `i` were called in their order: `onConnect` once and first, and
nothing after `onDisconnect`, which was called once if the session has left the pool. -/
structure InOrder (n : Server) (i : ℕ) : Prop where
  connectOnce : n.trace.count (.onConnect i) ≤ 1
  connectFirst : Preceded (· = .onConnect i)
    (fun e => e.session = some i ∧ e ≠ .onConnect i) n.trace
  disconnectOnce : n.trace.count (.onDisconnect i) ≤ 1
  last : NeverAfter (· = .onDisconnect i) (fun e => e.session = some i) n.trace
  left : n.HasLeft i → n.trace.count (.onDisconnect i) = 1

variable {cfg : Config} {n n' m : Server} {a : ServerAct}

/-! ### The pool -/

/-- How many entries of the pool are of the session `i`. -/
def pooled (n : Server) (i : ℕ) : ℕ := n.pool.countP fun e => e.2 == i

theorem pooled_pos {i : ℕ} : n.pooled i ≠ 0 ↔ n.InPool i := by
  simp [pooled, InPool, List.countP_eq_zero]

/-- Sessions have different addresses, the pool holds each of them at most once and at its address,
and at most one of them is being closed, one that is in the pool. -/
structure Placed (n : Server) : Prop where
  addrs : n.addrs.Nodup
  keys : ∀ e ∈ n.pool, n.addrs[e.2]? = some e.1
  nodup : n.pool.Nodup
  one : n.roles.countP Role.closing ≤ 1
  closing : ∀ a i, .disconnecting a i ∈ n.roles ∨ .erasing a i ∈ n.roles → (a, i) ∈ n.pool

theorem Placed.erase_eq (h : n.Placed) {a : Addr} {i : ℕ} (ha : n.addrs[i]? = some a) :
    (n.poolErase a).pool = n.pool.erase (a, i) := by
  rw [h.nodup.erase_eq_filter]
  apply List.filter_congr
  intro e he
  have hiff : e.1 = a ↔ e = (a, i) := by
    constructor
    · intro hea
      have hkey := h.keys e he
      rw [hea, ← ha] at hkey
      have hlt := (List.getElem?_eq_some_iff.mp ha).1
      exact Prod.ext hea ((List.getElem?_inj hlt h.addrs).mp hkey.symm).symm
    · intro hea
      rw [hea]
  by_cases hea : e = (a, i) <;> simp [hiff, hea]

theorem poolInsert_perm (n : Server) (a : Addr) (i : ℕ) :
    (n.poolInsert a i).pool ~ (a, i) :: (n.poolErase a).pool := by
  apply List.perm_middle.trans
  apply List.Perm.cons
  have hsplit := List.filter_append_perm (fun e : Addr × ℕ => decide (e.1 < a)) (n.poolErase a).pool
  simp only [poolErase, List.filter_filter] at hsplit
  have hlt : ∀ e : Addr × ℕ, (decide (e.1 < a) && decide (e.1 ≠ a)) = decide (e.1 < a) := by
    intro e
    rw [← Bool.decide_and, decide_eq_decide]
    exact and_iff_left_of_imp fun hlt => hlt.ne
  have hgt : ∀ e : Addr × ℕ, (!decide (e.1 < a) && decide (e.1 ≠ a)) = decide (a < e.1) := by
    intro e
    rw [← decide_not, ← Bool.decide_and, decide_eq_decide]
    constructor
    · rintro ⟨hle, hne⟩
      exact lt_of_le_of_ne (not_lt.mp hle) hne.symm
    · intro hlt
      exact ⟨hlt.not_gt, hlt.ne'⟩
  simp only [hlt, hgt] at hsplit
  exact hsplit

theorem Placed.insert_perm (h : n.Placed) {a : Addr} {i : ℕ} (ha : n.addrs[i]? = some a)
    (hout : ¬ n.InPool i) : (n.poolInsert a i).pool ~ (a, i) :: n.pool := by
  apply (poolInsert_perm n a i).trans
  apply List.Perm.cons
  rw [h.erase_eq ha, List.erase_of_not_mem fun hmem => hout ⟨(a, i), hmem, rfl⟩]

theorem Placed.erase_perm (h : n.Placed) {a : Addr} {i : ℕ} (hmem : (a, i) ∈ n.pool) :
    n.pool ~ (a, i) :: (n.poolErase a).pool := by
  rw [h.erase_eq (h.keys _ hmem)]
  exact List.perm_cons_erase hmem

theorem Placed.of_le (h : n.Placed) (haddrs : n'.addrs = n.addrs) (hpool : n'.pool = n.pool)
    (hone : n'.roles.countP Role.closing ≤ 1)
    (hmem : ∀ r ∈ n'.roles, r.closing = true → r ∈ n.roles) : n'.Placed where
  addrs := haddrs ▸ h.addrs
  keys := by rw [haddrs, hpool]; exact h.keys
  nodup := hpool ▸ h.nodup
  one := hone
  closing := fun a i hr => by
    rw [hpool]
    exact h.closing a i (hr.imp (fun hr => hmem _ hr rfl) fun hr => hmem _ hr rfl)

/-! ### The ledger -/

/-- `1` if the session `i` was accepted. -/
def accepted (n : Server) (i : ℕ) : ℕ := if i < n.addrs.length then 1 else 0

def inserting (n : Server) (i : ℕ) : ℕ := n.roles.countP (Role.inserts i)

def joining (n : Server) (i : ℕ) : ℕ := n.roles.countP (Role.joins i)

def erasing (n : Server) (i : ℕ) : ℕ := n.roles.countP (Role.erases i)

def reporting (n : Server) (i : ℕ) : ℕ := n.roles.countP (Role.reports i)

/-- Where the session `i` is: each accepted session is to be reported or was; it is to be inserted,
or in the pool, or was disconnected; and one that was disconnected and is still to be erased is
in the pool. -/
structure Ledger (n : Server) (i : ℕ) : Prop where
  connect : n.joining i + n.trace.count (.onConnect i) = n.accepted i
  flow : n.inserting i + n.pooled i + n.trace.count (.onDisconnect i) = n.accepted i + n.erasing i
  once : n.pooled i ≤ n.accepted i
  erases : n.erasing i ≤ n.pooled i
  joins : n.joining i ≤ n.inserting i + n.pooled i
  joined : n.erasing i ≠ 0 → n.joining i = 0
  reports : n.reporting i ≠ 0 → n.pooled i ≠ 0 ∧ n.joining i = 0 ∧ n.erasing i = 0

theorem accepted_le (n : Server) (i : ℕ) : n.accepted i ≤ 1 := by
  unfold accepted
  split <;> omega

theorem inserting_le (n : Server) (i : ℕ) : n.inserting i ≤ n.joining i :=
  List.countP_mono_left fun _ _ => Role.joins_of_inserts

theorem Ledger.out {i : ℕ} (h : n.Ledger i) (hmem : .inserting i ∈ n.roles) : ¬ n.InPool i := by
  have hins : n.inserting i ≠ 0 := by
    intro hzero
    exact List.countP_eq_zero.mp hzero _ hmem (by simp [Role.inserts])
  have hle := n.inserting_le i
  have hone := n.accepted_le i
  have hflow := h.flow
  have hjoined := h.joined
  rw [← pooled_pos]
  omega

theorem closing_change {r s : List Role} (h : r ++ n'.roles ~ s ++ n.roles) :
    r.countP Role.closing + n'.roles.countP Role.closing =
      s.countP Role.closing + n.roles.countP Role.closing := Slots.countP_exchange h _

/-- The sessions being closed were, before a step that adds only roles of another kind. -/
theorem Placed.old_closing (h : n.Placed) {r s : List Role} (hroles : r ++ n'.roles ~ s ++ n.roles)
    (hs : ∀ x ∈ s, x.closing = false) :
    n'.roles.countP Role.closing ≤ 1 ∧ ∀ x ∈ n'.roles, x.closing = true → x ∈ n.roles := by
  have hone := h.one
  have hcount := closing_change hroles
  have hzero : s.countP Role.closing = 0 := List.countP_eq_zero.mpr fun x hx => by simp [hs x hx]
  refine ⟨by omega, ?_⟩
  intro x hx hclosing
  rcases List.mem_append.mp (hroles.mem_iff.mp (List.mem_append_right _ hx)) with hxs | hxn
  · rw [hs x hxs] at hclosing
    cases hclosing
  · exact hxn

theorem Placed.step (h : n.Placed) (hl : ∀ i, n.Ledger i) (hc : Change n n') : n'.Placed := by
  have hone := h.one
  cases hc with
  | quiet haddrs hpool _ hroles =>
      obtain ⟨hle, hmem⟩ := h.old_closing (r := []) (s := []) hroles (by simp)
      exact h.of_le haddrs hpool hle hmem
  | connect i haddrs hpool _ hroles =>
      obtain ⟨hle, hmem⟩ := h.old_closing (r := [.connecting i]) (s := []) hroles (by simp)
      exact h.of_le haddrs hpool hle hmem
  | enter i k _ haddrs hpool _ hroles =>
      obtain ⟨hle, hmem⟩ := h.old_closing (r := []) hroles
        (fun x hx => by rw [List.eq_of_mem_replicate hx]; rfl)
      exact h.of_le haddrs hpool hle hmem
  | report i e _ _ _ haddrs hpool _ hroles =>
      obtain ⟨hle, hmem⟩ := h.old_closing (r := [.reporting i]) (s := []) hroles (by simp)
      exact h.of_le haddrs hpool hle hmem
  | plain e _ haddrs hpool _ hroles =>
      obtain ⟨hle, hmem⟩ := h.old_closing (r := []) (s := []) hroles (by simp)
      exact h.of_le haddrs hpool hle hmem
  | accept a hfresh haddrs hpool _ hroles =>
      obtain ⟨hle, hmem⟩ := h.old_closing (r := []) (s := [_]) hroles (by simp [Role.closing])
      refine ⟨?_, ?_, hpool ▸ h.nodup, hle, fun a i hr => ?_⟩
      · rw [haddrs]
        exact (List.perm_append_singleton a _).nodup_iff.mpr (List.nodup_cons.mpr ⟨hfresh, h.addrs⟩)
      · rw [haddrs, hpool]
        intro e he
        have hkey := h.keys e he
        rw [List.getElem?_append_left (List.getElem?_eq_some_iff.mp hkey).1, hkey]
      · rw [hpool]
        exact h.closing a i (hr.imp (fun hr => hmem _ hr rfl) fun hr => hmem _ hr rfl)
  | insert a i ha haddrs hpool _ hroles =>
      obtain ⟨hle, hmem⟩ := h.old_closing (r := [_]) (s := [_]) hroles (by simp [Role.closing])
      have hout := (hl i).out (Slots.mem_of_exchange hroles (by simp))
      have hperm := h.insert_perm ha hout
      refine ⟨haddrs ▸ h.addrs, ?_, ?_, hle, fun b j hr => ?_⟩
      · rw [haddrs, hpool]
        intro e he
        rcases List.mem_cons.mp (hperm.mem_iff.mp he) with rfl | he
        · exact ha
        · exact h.keys e he
      · rw [hpool, hperm.nodup_iff]
        exact List.nodup_cons.mpr ⟨fun hmem => hout ⟨_, hmem, rfl⟩, h.nodup⟩
      · rw [hpool]
        refine hperm.mem_iff.mpr (List.mem_cons_of_mem _ ?_)
        exact h.closing b j (hr.imp (fun hr => hmem _ hr rfl) fun hr => hmem _ hr rfl)
  | close a i hin hnone haddrs hpool _ hroles =>
      have hzero : n.roles.countP Role.closing = 0 :=
        List.countP_eq_zero.mpr fun x hx => by simp [hnone x hx]
      have hcount := closing_change (r := []) (s := [_]) hroles
      simp only [List.countP_nil, List.countP_singleton, Role.closing, if_true] at hcount
      have hmem : ∀ x ∈ n'.roles, x.closing = true → x = .disconnecting a i := by
        intro x hx hclosing
        rcases List.mem_cons.mp (hroles.mem_iff.mp hx) with rfl | hx
        · rfl
        · rw [hnone x hx] at hclosing
          cases hclosing
      refine ⟨haddrs ▸ h.addrs, by rw [haddrs, hpool]; exact h.keys, hpool ▸ h.nodup, by omega, ?_⟩
      intro b j hr
      rw [hpool]
      rcases hr with hr | hr
      · cases hmem _ hr rfl; exact hin
      · cases hmem _ hr rfl
  | disconnect a i _ haddrs hpool _ hroles =>
      have hcount := closing_change (r := [_]) (s := [_]) hroles
      simp only [List.countP_singleton, Role.closing, if_true] at hcount
      have hin : (a, i) ∈ n.pool :=
        h.closing a i (Or.inl (Slots.mem_of_exchange hroles (by simp)))
      have hmem : ∀ x ∈ n'.roles, x = .erasing a i ∨ x ∈ n.roles := fun x hx =>
        List.mem_cons.mp (hroles.mem_iff.mp (List.mem_cons_of_mem _ hx))
      refine ⟨haddrs ▸ h.addrs, by rw [haddrs, hpool]; exact h.keys, hpool ▸ h.nodup, by omega, ?_⟩
      intro b j hr
      rw [hpool]
      rcases hr with hr | hr
      · rcases hmem _ hr with he | hr
        · cases he
        · exact h.closing b j (Or.inl hr)
      · rcases hmem _ hr with he | hr
        · cases he
          exact hin
        · exact h.closing b j (Or.inr hr)
  | @erase a i next hnext haddrs hpool _ hroles =>
      have hcount := closing_change (r := [_]) hroles
      have hle : next.countP Role.closing ≤ 1 := by rcases hnext with rfl | rfl <;> decide
      simp only [List.countP_singleton, Role.closing, if_true] at hcount
      have hsub : ∀ e ∈ n'.pool, e ∈ n.pool := by
        intro e he
        rw [hpool] at he
        exact List.mem_of_mem_filter he
      have hmem : ∀ x ∈ n'.roles, x.closing = true → x = .advancing := by
        intro x hx hclosing
        rcases hnext with rfl | rfl
        · have hzero : n'.roles.countP Role.closing = 0 := by
            rw [List.countP_nil] at hcount
            omega
          exact absurd hclosing (List.countP_eq_zero.mp hzero x hx)
        · have hadv := hroles.mem_iff.mpr (List.mem_cons_self ..)
          exact Slots.eq_of_countP_le_one (by omega) hx
            ((List.mem_cons.mp hadv).resolve_left (by simp)) hclosing rfl
      refine ⟨haddrs ▸ h.addrs, ?_, by rw [hpool]; exact h.nodup.filter _, by omega, ?_⟩
      · intro e he
        rw [haddrs]
        exact h.keys e (hsub e he)
      · rintro b j (hr | hr) <;> cases hmem _ hr rfl

theorem Placed.erasing_eq_zero (h : n.Placed) {a : Addr} {i : ℕ}
    (hmem : .disconnecting a i ∈ n.roles) (j : ℕ) : n.erasing j = 0 := by
  apply List.countP_eq_zero.mpr
  intro r hr herases
  cases Slots.eq_of_countP_le_one h.one hmem hr rfl (Role.closing_of_erases herases)
  cases herases

/-- The guard of `onDisconnect`, as counts. -/
theorem counts_of_calm {i : ℕ} (h : ∀ r ∈ n.roles, r.joins i = false ∧ r.reports i = false) :
    n.joining i = 0 ∧ n.reporting i = 0 :=
  ⟨List.countP_eq_zero.mpr fun r hr => by simp [(h r hr).1],
    List.countP_eq_zero.mpr fun r hr => by simp [(h r hr).2]⟩

theorem Open.counts {i : ℕ} (h : n.Open i) :
    n.pooled i ≠ 0 ∧ n.joining i = 0 ∧ n.erasing i = 0 :=
  ⟨pooled_pos.mpr h.1, List.countP_eq_zero.mpr fun r hr => by simp [(h.2 r hr).1],
    List.countP_eq_zero.mpr fun r hr => by simp [(h.2 r hr).2]⟩

theorem counts_change {r s : List Role} (h : r ++ n'.roles ~ s ++ n.roles) (j : ℕ) :
    r.countP (Role.inserts j) + n'.inserting j = s.countP (Role.inserts j) + n.inserting j ∧
    r.countP (Role.joins j) + n'.joining j = s.countP (Role.joins j) + n.joining j ∧
    r.countP (Role.erases j) + n'.erasing j = s.countP (Role.erases j) + n.erasing j ∧
    r.countP (Role.reports j) + n'.reporting j = s.countP (Role.reports j) + n.reporting j :=
  ⟨Slots.countP_exchange h _, Slots.countP_exchange h _,
    Slots.countP_exchange h _, Slots.countP_exchange h _⟩

theorem count_see {e : ServerEvent} (h : n'.trace = n.trace ++ [e]) (j : ℕ) :
    n'.trace.count (.onConnect j) =
      n.trace.count (.onConnect j) + (if e = .onConnect j then 1 else 0) ∧
    n'.trace.count (.onDisconnect j) =
      n.trace.count (.onDisconnect j) + if e = .onDisconnect j then 1 else 0 := by
  simp [h, List.count_singleton]

theorem Ledger.step (h : ∀ i, n.Ledger i) (hp : n.Placed) (hc : Change n n') (j : ℕ) :
    n'.Ledger j := by
  obtain ⟨hconnect, hflow, honce, herases, hjoins, hjoined, hreports⟩ := h j
  have hle := n.inserting_le j
  have hle' := n'.inserting_le j
  have hone := n.accepted_le j
  have hacc : n'.addrs = n.addrs → n'.accepted j = n.accepted j := fun e => by simp [accepted, e]
  have hpooled : n'.pool = n.pool → n'.pooled j = n.pooled j := fun e => by simp [pooled, e]
  cases hc with
  | quiet haddrs hpool htrace hroles =>
      obtain ⟨hI, hJ, hE, hR⟩ := counts_change (r := []) (s := []) hroles j
      have hA := hacc haddrs
      have hP := hpooled hpool
      rw [← htrace] at hconnect hflow
      simp only [List.countP_nil] at hI hJ hE hR
      constructor <;> omega
  | accept a hfresh haddrs hpool htrace hroles =>
      obtain ⟨hI, hJ, hE, hR⟩ := counts_change (r := []) (s := [_]) hroles j
      have hA : n'.accepted j = n.accepted j + if n.addrs.length = j then 1 else 0 := by
        simp only [accepted, haddrs, List.length_append, List.length_singleton]
        split <;> split <;> split <;> omega
      have hA' := n'.accepted_le j
      have hP := hpooled hpool
      rw [← htrace] at hconnect hflow
      by_cases hij : n.addrs.length = j <;>
        simp [Role.inserts, Role.joins, Role.erases, Role.reports, hij] at hI hJ hE hR hA <;>
        constructor <;> omega
  | insert a i ha haddrs hpool htrace hroles =>
      obtain ⟨hI, hJ, hE, hR⟩ := counts_change (r := [_]) (s := [_]) hroles j
      have hA := hacc haddrs
      have hout := (h i).out (Slots.mem_of_exchange hroles (by simp))
      have hP : n'.pooled j = n.pooled j + if i = j then 1 else 0 := by
        simp [pooled, hpool, (hp.insert_perm ha hout).countP_eq, List.countP_cons]
      rw [← htrace] at hconnect hflow
      by_cases hij : i = j <;>
        simp [Role.inserts, Role.joins, Role.erases, Role.reports, hij] at hI hJ hE hR hP <;>
        constructor <;> omega
  | connect i haddrs hpool htrace hroles =>
      obtain ⟨hI, hJ, hE, hR⟩ := counts_change (r := [_]) (s := []) hroles j
      obtain ⟨hX, hD⟩ := count_see htrace j
      have hA := hacc haddrs
      have hP := hpooled hpool
      by_cases hij : i = j <;>
        simp [Role.inserts, Role.joins, Role.erases, Role.reports, hij] at hI hJ hE hR hX hD <;>
        constructor <;> omega
  | close a i _ _ haddrs hpool htrace hroles =>
      obtain ⟨hI, hJ, hE, hR⟩ := counts_change (r := []) (s := [_]) hroles j
      have hA := hacc haddrs
      have hP := hpooled hpool
      rw [← htrace] at hconnect hflow
      simp [Role.inserts, Role.joins, Role.erases, Role.reports] at hI hJ hE hR
      constructor <;> omega
  | disconnect a i hG haddrs hpool htrace hroles =>
      obtain ⟨hI, hJ, hE, hR⟩ := counts_change (r := [_]) (s := [_]) hroles j
      obtain ⟨hX, hD⟩ := count_see htrace j
      have hA := hacc haddrs
      have hP := hpooled hpool
      have hmem : .disconnecting a i ∈ n.roles := Slots.mem_of_exchange hroles (by simp)
      have hzero := hp.erasing_eq_zero hmem j
      have hin : n.pooled i ≠ 0 := pooled_pos.mpr ⟨_, hp.closing a i (Or.inl hmem), rfl⟩
      obtain ⟨hjoin, hreport⟩ := counts_of_calm hG
      by_cases hij : i = j
      · subst hij
        simp [Role.inserts, Role.joins, Role.erases, Role.reports] at hI hJ hE hR hX hD
        constructor <;> omega
      · simp [Role.inserts, Role.joins, Role.erases, Role.reports, hij] at hI hJ hE hR hX hD
        constructor <;> omega
  | @erase a i next hnext haddrs hpool htrace hroles =>
      obtain ⟨hI, hJ, hE, hR⟩ := counts_change (r := [_]) hroles j
      have hA := hacc haddrs
      have hmem : .erasing a i ∈ n.roles := by
        apply (List.mem_append.mp (hroles.mem_iff.mp (List.mem_cons_self ..))).resolve_left
        rcases hnext with rfl | rfl <;> simp
      have hP : n.pooled j = n'.pooled j + if i = j then 1 else 0 := by
        simp [pooled, hpool, (hp.erase_perm (hp.closing a i (Or.inr hmem))).countP_eq,
          List.countP_cons]
      rw [← htrace] at hconnect hflow
      by_cases hij : i = j <;> rcases hnext with rfl | rfl <;>
        simp [Role.inserts, Role.joins, Role.erases, Role.reports, hij] at hI hJ hE hR hP <;>
        constructor <;> omega
  | enter i k hopen haddrs hpool htrace hroles =>
      obtain ⟨hI, hJ, hE, hR⟩ := counts_change (r := []) hroles j
      have hA := hacc haddrs
      have hP := hpooled hpool
      rw [← htrace] at hconnect hflow
      obtain ⟨hin, hjoin, herase⟩ := hopen.counts
      by_cases hij : i = j
      · subst hij
        simp [Role.inserts, Role.joins, Role.erases, List.countP_replicate] at hI hJ hE
        constructor <;> omega
      · simp [Role.inserts, Role.joins, Role.erases, Role.reports, List.countP_replicate, hij]
          at hI hJ hE hR
        constructor <;> omega
  | report i e hsession hconn hdisc haddrs hpool htrace hroles =>
      obtain ⟨hI, hJ, hE, hR⟩ := counts_change (r := [_]) (s := []) hroles j
      obtain ⟨hX, hD⟩ := count_see htrace j
      have hA := hacc haddrs
      have hP := hpooled hpool
      have hne : e ≠ .onConnect j ∧ e ≠ .onDisconnect j := by
        constructor <;> rintro rfl <;> cases hsession <;> contradiction
      simp [Role.inserts, Role.joins, Role.erases, hne] at hI hJ hE hX hD
      rw [List.countP_nil] at hR
      constructor <;> omega
  | plain e hsession haddrs hpool htrace hroles =>
      obtain ⟨hI, hJ, hE, hR⟩ := counts_change (r := []) (s := []) hroles j
      obtain ⟨hX, hD⟩ := count_see htrace j
      have hA := hacc haddrs
      have hP := hpooled hpool
      have hne : e ≠ .onConnect j ∧ e ≠ .onDisconnect j := by
        constructor <;> rintro rfl <;> cases hsession
      simp [hne] at hI hJ hE hR hX hD
      constructor <;> omega

/-! ### The order of the events -/

/-- The orders of the callbacks of the session `i`. -/
structure Sorted (n : Server) (i : ℕ) : Prop where
  connectFirst : Preceded (· = .onConnect i)
    (fun e => e.session = some i ∧ e ≠ .onConnect i) n.trace
  last : NeverAfter (· = .onDisconnect i) (fun e => e.session = some i) n.trace

theorem Sorted.of_eq {i : ℕ} (h : n.Sorted i) (htrace : n'.trace = n.trace) : n'.Sorted i := by
  constructor <;> rw [htrace]
  · exact h.connectFirst
  · exact h.last

/-- An event of the session `i` comes after its `onConnect`, and not after its `onDisconnect`. -/
theorem Sorted.see {i : ℕ} (h : n.Sorted i) {e : ServerEvent} (htrace : n'.trace = n.trace ++ [e])
    (he : e.session = some i → (e ≠ .onConnect i → n.trace.count (.onConnect i) ≠ 0) ∧
      n.trace.count (.onDisconnect i) = 0) : n'.Sorted i := by
  constructor <;> rw [htrace]
  · refine preceded_snoc.mpr ⟨h.connectFirst, ?_⟩
    rintro ⟨hi, hne⟩
    exact ⟨_, List.count_pos_iff.mp (Nat.pos_of_ne_zero ((he hi).1 hne)), rfl⟩
  · refine neverAfter_snoc.mpr ⟨h.last, ?_⟩
    intro hi y hy hd
    exact List.count_eq_zero.mp (he hi).2 (hd ▸ hy)

theorem Sorted.step {j : ℕ} (h : n.Sorted j) (hl : n.Ledger j) (hp : n.Placed)
    (hc : Change n n') : n'.Sorted j := by
  obtain ⟨hconnect, hflow, honce, herases, hjoins, hjoined, hreports⟩ := hl
  have hone := n.accepted_le j
  have hle' := n'.inserting_le j
  cases hc with
  | quiet _ _ htrace _ => exact h.of_eq htrace
  | accept _ _ _ _ htrace _ => exact h.of_eq htrace
  | insert _ _ _ _ _ htrace _ => exact h.of_eq htrace
  | close _ _ _ _ _ _ htrace _ => exact h.of_eq htrace
  | erase _ _ _ _ _ htrace _ => exact h.of_eq htrace
  | enter _ _ _ _ _ htrace _ => exact h.of_eq htrace
  | plain e hsession _ _ htrace _ =>
      exact h.see htrace fun he => by rw [hsession] at he; cases he
  | connect i _ _ htrace hroles =>
      apply h.see htrace
      intro he
      obtain rfl : i = j := Option.some.inj he
      obtain ⟨hI, hJ, -, -⟩ := counts_change (r := [_]) (s := []) hroles i
      simp [Role.inserts, Role.joins] at hI hJ
      exact ⟨fun hne => absurd rfl hne, by omega⟩
  | disconnect a i hG _ _ htrace hroles =>
      apply h.see htrace
      intro he
      obtain rfl : i = j := Option.some.inj he
      have hmem : .disconnecting a i ∈ n.roles := Slots.mem_of_exchange hroles (by simp)
      have hzero := hp.erasing_eq_zero hmem i
      have hin : n.pooled i ≠ 0 := pooled_pos.mpr ⟨_, hp.closing a i (Or.inl hmem), rfl⟩
      obtain ⟨hjoin, -⟩ := counts_of_calm hG
      exact ⟨fun _ => by omega, by omega⟩
  | report i e hsession _ _ _ _ htrace hroles =>
      apply h.see htrace
      intro he
      obtain rfl : i = j := Option.some.inj (hsession.symm.trans he)
      obtain ⟨-, -, -, hR⟩ := counts_change (r := [_]) (s := []) hroles i
      simp [Role.reports] at hR
      exact ⟨fun _ => by omega, by omega⟩

/-- What holds in every state of an orderly run. -/
structure Inv (n : Server) : Prop where
  placed : n.Placed
  ledger : ∀ i, n.Ledger i
  sorted : ∀ i, n.Sorted i

theorem inv_create : create.Inv where
  placed := ⟨List.nodup_nil, by simp [create], List.nodup_nil, Nat.zero_le 1,
    by simp [create, roles, calls]⟩
  ledger i := by
    constructor <;>
      simp [joining, inserting, erasing, reporting, pooled, accepted, create, addrs, roles, calls]
  sorted _ := ⟨preceded_nil, neverAfter_nil⟩

theorem Inv.step (h : n.Inv) (hc : Change n n') : n'.Inv :=
  ⟨h.placed.step h.ledger hc, Ledger.step h.ledger h.placed hc,
    fun i => (h.sorted i).step (h.ledger i) h.placed hc⟩

theorem Inv.inOrder (h : n.Inv) (i : ℕ) : n.InOrder i := by
  obtain ⟨hconnect, hflow, honce, herases, hjoins, hjoined, hreports⟩ := h.ledger i
  have hone := n.accepted_le i
  refine ⟨by omega, (h.sorted i).connectFirst, by omega, (h.sorted i).last, ?_⟩
  rintro ⟨hi, hnot, hout⟩
  have hacc : n.accepted i = 1 := if_pos (by simpa [addrs] using hi)
  have hins : n.inserting i = 0 := by
    apply List.countP_eq_zero.mpr
    intro r hr hr'
    cases r <;> simp [Role.inserts] at hr'
    exact hnot (hr' ▸ hr)
  have hpool : n.pooled i = 0 := not_not.mp (pooled_pos.not.mpr hout)
  omega

/-- **The callbacks of every session come in order** in every orderly run. -/
theorem callbacks_in_order {acts : List ServerAct}
    (h : Run (Server.step cfg) Orderly create acts n) (i : ℕ) : n.InOrder i := by
  have hI := h.invariant (I := fun n => n.Kept ∧ n.Inv)
    ⟨fun i o ho => by simp [create] at ho, inv_create⟩
    fun _ _ _ ⟨hkept, hI⟩ hG hstep =>
      ⟨hkept.step (Step.of_step hstep), hI.step (.of_step hkept hG (Step.of_step hstep))⟩
  exact hI.2.inOrder i

/-- A client connects, sends a packet of one byte of header, and closes the connection. -/
def packetThenEof : List ServerAct :=
  clientConnects ++ [.io 0 (.recv [1, 0, 0, 0, 0, 0, 0, 0, 5]), .io 0 .recvDone, .run 2 [] none,
    .run 2 [] none, .run 2 [] none, .run 2 [] none, .run 2 [] none, .io 0 (.recvFail .eof),
    .run 3 [] none, .run 3 [] none, .run 3 [] none]

theorem callbacks_in_order_packet :
    ∃ n, Run (Server.step .shipped) Orderly create packetThenEof n ∧
      n.trace = [.onConnect 0, .onMessage 0 [5] 0 1, .onDisconnect 0] ∧ n.HasLeft 0 ∧
      n.InOrder 0 := by
  have h := Run.of_execWhen (Server.step .shipped) Orderly create packetThenEof (by decide +kernel)
  exact ⟨_, h, by decide +kernel, by unfold HasLeft; decide +kernel, callbacks_in_order h 0⟩

/-- Two packets arrive in one chunk, and `onMessage` closes the session when it gets the first. -/
def closeInMessage : List ServerAct :=
  clientConnects ++ [.io 0 (.recv [1, 0, 0, 0, 0, 0, 0, 0, 5, 1, 0, 0, 0, 0, 0, 0, 0, 6]),
    .io 0 .recvDone, .run 2 [] none, .run 2 [] none, .run 2 [.close 7] none, .run 2 [] none,
    .run 2 [] none, .run 2 [] none, .run 2 [] none, .run 2 [] none, .run 2 [] none, .run 2 [] none]

/-- Another thread closes the session after it was put into the pool, before it is reported. -/
def closeBeforeConnect : List ServerAct :=
  [.arrive, .acceptDone 7, .run 0 [] none, .call (.close 7), .run 1 [] none, .run 1 [] none,
    .run 1 [] none, .run 0 [] none, .run 0 [] none, .run 0 [] none]

/-- The read fails after the session was closed. -/
def failAfterClose : List ServerAct :=
  clientConnects ++ [.call (.close 7), .run 1 [] none, .run 1 [] none, .run 1 [] none,
    .io 0 (.recvFail (.other "Connection reset by peer")), .run 2 [] none]

theorem not_callbacks_in_order :
    (∃ n, Run (Server.step .shipped) Anything create closeInMessage n ∧
      n.trace = [.onConnect 0, .onMessage 0 [5] 0 1, .onDisconnect 0, .onMessage 0 [6] 0 1] ∧
      ¬ n.InOrder 0) ∧
    (∃ n, Run (Server.step .shipped) Anything create closeBeforeConnect n ∧
      n.trace = [.onDisconnect 0, .onConnect 0] ∧ ¬ n.InOrder 0) ∧
    (∃ n, Run (Server.step .shipped) Anything create failAfterClose n ∧
      n.trace = [.onConnect 0, .onDisconnect 0, .onError (some 0) "Connection reset by peer"] ∧
      ¬ n.InOrder 0) := by
  have hlast : ∀ tr (n : Server), ¬ NeverAfter (· = .onDisconnect 0) (·.session = some 0) tr →
      n.trace = tr → n.trace = tr ∧ ¬ n.InOrder 0 :=
    fun tr n hne htrace => ⟨htrace, fun ho => hne (htrace ▸ ho.last)⟩
  refine ⟨?_, ?_, ?_⟩
  · have h := Run.of_exec (Server.step .shipped) create closeInMessage (by decide +kernel)
    exact ⟨_, h, hlast _ _ (by unfold NeverAfter; decide) (by decide +kernel)⟩
  · have h := Run.of_exec (Server.step .shipped) create closeBeforeConnect (by decide +kernel)
    exact ⟨_, h, hlast _ _ (by unfold NeverAfter; decide) (by decide +kernel)⟩
  · have h := Run.of_exec (Server.step .shipped) create failAfterClose (by decide +kernel)
    exact ⟨_, h, hlast _ _ (by unfold NeverAfter; decide) (by decide +kernel)⟩

end Server

end AsioTcpFrame
