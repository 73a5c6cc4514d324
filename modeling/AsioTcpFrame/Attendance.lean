import AsioTcpFrame.Broadcast
import AsioTcpFrame.ServerProtocol

/-! # Who is connected

The order of a server's callbacks is kept only in orderly runs (`ServerProtocol`).  What is left of it in
every run, whatever the user calls from whichever thread, as long as `closeAll` does not go on from
the element that it has erased, which is not defined (`Defined`): a session goes through the stages
`unknown`, `arriving`, `inside`, `leaving` and `left` in this order and skips none (`Stage.Next`), and
`session_pool` and the calls of `onDisconnect` say in which stage it is (`At`).

`Passing` is what a step does to the addresses, to the pool, to the calls of `onConnect` and
`onDisconnect` and to those calls that have still to do with them.  The pool is locked from before a call
of `onDisconnect` until the session is erased, so the session stays in the pool meanwhile (`Claimed`). -/

namespace AsioTcpFrame

open Transition
open scoped List

/-- What a call has still to do with the pool or with `onConnect`. -/
def Call.duty : Call → Option Role
  | accepted i .insert => some (.inserting i)
  | accepted i .setError | accepted i .setRead | accepted i .connect => some (.connecting i)
  | disconnect a i _ => some (.disconnecting a i)
  | erase a i _ => some (.erasing a i)
  | advance => some .advancing
  | _ => none

/-- A call of `onConnect` or of `onDisconnect`. -/
def ServerEvent.isMark : ServerEvent → Bool
  | onConnect _ | onDisconnect _ => true
  | _ => false

theorem Call.duty_of_initial {c : Call} (h : c.Initial) : c.duty = none := by
  cases h <;> rfl

theorem Call.holds_of_duty {c : Call} {r : Role} (h : c.duty = some r) (hr : r.closing = true) :
    c.holds = some .pool := by
  cases c with
  | accepted i pc => cases pc <;> simp [duty] at h <;> subst h <;> cases hr
  | _ => first | rfl | simp [duty] at h

namespace Server

/-- What the running calls have still to do with the pool or with `onConnect`. -/
def duties (n : Server) : List Role := n.calls.filterMap Call.duty

/-- The calls of `onConnect` and of `onDisconnect`. -/
def marks (n : Server) : List ServerEvent := n.trace.filter ServerEvent.isMark

/-- `closeAll` does not go on from the element it has erased. -/
def Defined (n : Server) : ServerAct → Prop
  | .run t _ _ => n.top t ≠ some .advance
  | _ => True

instance (n : Server) : ∀ a, Decidable (n.Defined a)
  | .run t _ _ => inferInstanceAs (Decidable (n.top t ≠ some .advance))
  | .io _ _ | .call _ | .arrive | .acceptDone _ | .acceptFail _ => isTrue trivial

/-- What a step does to the pool and to the calls of `onConnect` and `onDisconnect`. -/
inductive Passing (n n' : Server) : Prop
  | quiet : n'.addrs = n.addrs → n'.pool = n.pool → n'.marks = n.marks → n'.duties ~ n.duties →
      Passing n n'
  | accept (a : Addr) : n'.addrs = n.addrs ++ [a] → n'.pool = n.pool → n'.marks = n.marks →
      n'.duties ~ .inserting n.addrs.length :: n.duties → Passing n n'
  | insert (a : Addr) (i : ℕ) : n.addrs[i]? = some a → (∀ r ∈ n.duties, r.closing = false) →
      n'.addrs = n.addrs → n'.pool = (n.poolInsert a i).pool → n'.marks = n.marks →
      .inserting i :: n'.duties ~ .connecting i :: n.duties → Passing n n'
  | connect (i : ℕ) : n'.addrs = n.addrs → n'.pool = n.pool →
      n'.marks = n.marks ++ [.onConnect i] → .connecting i :: n'.duties ~ n.duties → Passing n n'
  | close (a : Addr) (i : ℕ) : (a, i) ∈ n.pool → (∀ r ∈ n.duties, r.closing = false) →
      n'.addrs = n.addrs → n'.pool = n.pool → n'.marks = n.marks →
      n'.duties ~ .disconnecting a i :: n.duties → Passing n n'
  | disconnect (a : Addr) (i : ℕ) : n'.addrs = n.addrs → n'.pool = n.pool →
      n'.marks = n.marks ++ [.onDisconnect i] →
      .disconnecting a i :: n'.duties ~ .erasing a i :: n.duties → Passing n n'
  | erase (a : Addr) (i : ℕ) {next : List Role} : (next = [] ∨ next = [.advancing]) →
      n'.addrs = n.addrs → n'.pool = (n.poolErase a).pool → n'.marks = n.marks →
      .erasing a i :: n'.duties ~ next ++ n.duties → Passing n n'

variable {cfg : Config} {n n' m : Server} {a : ServerAct} {i : ℕ}

theorem marks_see (e : ServerEvent) : (n.see e).marks = n.marks ++ [e].filter ServerEvent.isMark :=
  List.filter_append _ _

theorem duties_spawn (n : Server) (stack : List Call) :
    (n.spawn stack).duties ~ stack.filterMap Call.duty ++ n.duties := by
  rw [duties, calls_spawn, List.filterMap_append]
  exact List.perm_append_comm

theorem duty_initial {stack : List Call} (h : ∀ c ∈ stack, c.Initial) :
    stack.filterMap Call.duty = [] :=
  List.filterMap_eq_nil_iff.mpr fun c hc => Call.duty_of_initial (h c hc)

/-- What is still to be done, when `new` takes the place of `c`. -/
theorem duties_run {t : ℕ} {c : Call} {rest : List Call} (new : List Call)
    (hstack : n.threads[t]? = some (c :: rest)) (hthreads : m.threads = n.threads) :
    c.duty.toList ++ (sweep { m with threads := m.threads.set t (new ++ rest) }).duties ~
      new.filterMap Call.duty ++ n.duties := by
  have h := (calls_run new hstack hthreads).filterMap Call.duty
  rw [List.filterMap_append, List.filterMap_cons] at h
  cases hc : c.duty with
  | none => simpa [hc, duties] using h
  | some r => simpa [hc, duties] using h

theorem Enabled.no_closing {c : Call} (h : n.Enabled c) (hc : c.wants = some .pool) :
    ∀ r ∈ n.duties, r.closing = false := by
  intro r hr
  obtain ⟨d, hd, hduty⟩ := List.mem_filterMap.mp hr
  by_contra hclosing
  exact h .pool hc d hd (Call.holds_of_duty hduty (by simpa using hclosing))

/-- What a step of a thread does. -/
theorem Passing.of_exec {t : ℕ} {prog : List Api} {next : Option ℕ} {c : Call} {rest new : List Call}
    (hstack : n.threads[t]? = some (c :: rest)) (hen : n.Enabled c) (hG : c ≠ .advance)
    (h : n.exec cfg prog next c = some (m, new)) :
    Passing n (sweep { m with threads := m.threads.set t (new ++ rest) }) := by
  have hduties := duties_run new hstack (exec_threads h)
  have hprog := duty_initial (initial_prog cfg prog)
  generalize hn' : sweep { m with threads := m.threads.set t (new ++ rest) } = n' at hduties ⊢
  have haddrs : n'.addrs = n.addrs := by
    rw [← hn']
    rw [sweep_addrs]
    exact (exec_addrs h : m.addrs = n.addrs)
  have hpool : n'.pool = m.pool := by rw [← hn']; rfl
  have hmarks : n'.marks = m.marks := by rw [← hn']; rfl
  clear hn'
  cases Exec.of_exec h with
  | write a bytes =>
      refine .quiet haddrs hpool hmarks ?_
      cases hfind : n.find a <;> rw [hfind] at hduties <;> exact hduties
  | close a =>
      cases hfind : n.find a with
      | none => rw [hfind] at hduties; exact .quiet haddrs hpool hmarks hduties
      | some i =>
        rw [hfind] at hduties
        exact .close a i (find_mem hfind) (hen.no_closing rfl) haddrs hpool hmarks hduties
  | closeAll =>
      cases hp : n.pool with
      | nil => rw [hp] at hduties; exact .quiet haddrs hpool hmarks hduties
      | cons e tail =>
        rw [hp] at hduties
        exact .close e.1 e.2 (by simp [hp]) (hen.no_closing rfl) haddrs hpool hmarks hduties
  | disconnect a i all =>
      rw [List.filterMap_append, hprog] at hduties
      exact .disconnect a i haddrs hpool (hmarks.trans (marks_see _)) hduties
  | erase a i all =>
      cases all with
      | false => exact .erase a i (Or.inl rfl) haddrs hpool hmarks hduties
      | true => exact .erase a i (Or.inr rfl) haddrs hpool hmarks hduties
  | advance => exact absurd rfl hG
  | @insert i o ho =>
      exact .insert o.addr i (by simp [addrs, ho]) (hen.no_closing rfl) haddrs hpool hmarks hduties
  | setError i => exact .quiet haddrs hpool hmarks ((List.perm_cons _).mp hduties)
  | setRead i => exact .quiet haddrs hpool hmarks ((List.perm_cons _).mp hduties)
  | connect i =>
      rw [List.filterMap_append, hprog] at hduties
      exact .connect i haddrs hpool (hmarks.trans (marks_see _)) hduties
  | message i head length content =>
      rw [hprog] at hduties
      refine .quiet haddrs hpool (hmarks.trans ((marks_see _).trans ?_)) hduties
      exact List.append_nil _
  | error i message =>
      rw [hprog] at hduties
      refine .quiet haddrs hpool (hmarks.trans ((marks_see _).trans ?_)) hduties
      exact List.append_nil _
  | test bytes ho =>
      refine .quiet haddrs hpool hmarks ?_
      split at hduties <;> exact hduties
  | @loopBody i o f s ho hturn =>
      rw [List.filterMap_append, duty_initial (initial_readCallback i o f)] at hduties
      exact .quiet haddrs hpool hmarks hduties
  | _ => exact .quiet haddrs hpool hmarks hduties

/-- **What a step does.** -/
theorem Passing.of_step (hG : n.Defined a) (hstep : Step cfg n a n') : Passing n n' := by
  cases hstep with
  | call c =>
      have hnone : [c.toCall cfg].filterMap Call.duty = [] := duty_initial (initial_prog cfg [c])
      refine .quiet rfl rfl rfl ((duties_spawn n _).trans ?_)
      rw [hnone]
      exact .refl _
  | arrive _ _ => exact .quiet rfl rfl rfl (.refl _)
  | acceptFail message _ => exact .quiet rfl rfl rfl (duties_spawn n.acceptEnd _)
  | @acceptDone a _ hfresh =>
      have hlen : n.addrs.length = n.sessions.length := List.length_map _
      refine .accept a (accept_addrs n a) rfl rfl ?_
      rw [hlen]
      exact duties_spawn (n.accept a) _
  | @io i b o s stack ho hc =>
      refine .quiet (by simp) rfl rfl ((duties_spawn (n.onSess i fun _ => s) stack).trans ?_)
      have hnone : stack.filterMap Call.duty = [] := by
        refine List.filterMap_eq_nil_iff.mpr fun d hd => ?_
        rcases initial_complete hc d hd with hd | ⟨k, rfl⟩ | rfl
        · exact Call.duty_of_initial hd
        · rfl
        · rfl
      rw [hnone]
      exact .refl _
  | @run t prog next c rest new m hstack hen hexec =>
      refine Passing.of_exec hstack hen ?_ hexec
      rintro rfl
      exact hG (top_eq hstack)

/-! ### The pool -/

/-- A session that is being closed is in the pool, and at most one is. -/
structure Claimed (n : Server) : Prop where
  addressed : n.Addressed
  one : n.duties.countP Role.closing ≤ 1
  claimed : ∀ a i, .disconnecting a i ∈ n.duties ∨ .erasing a i ∈ n.duties → (a, i) ∈ n.pool

theorem Addressed.pooled_erase (h : n.Addressed) {a : Addr} (ha : n.addrs[i]? = some a) (j : ℕ) :
    (n.poolErase a).pooled j = if i = j then 0 else n.pooled j := by
  simp only [pooled, poolErase, List.countP_filter]
  split
  · next hij =>
    subst hij
    refine List.countP_eq_zero.mpr fun e he hboth => ?_
    obtain ⟨hi, hne⟩ := Bool.and_eq_true_iff.mp hboth
    obtain rfl := beq_iff_eq.mp hi
    exact of_decide_eq_true hne (Option.some.inj ((h.pool e he).symm.trans ha))
  · next hij =>
    refine List.countP_congr fun e he => ?_
    rw [Bool.and_eq_true_iff]
    refine ⟨fun hboth => hboth.1, fun hj => ⟨hj, decide_eq_true ?_⟩⟩
    rintro rfl
    obtain rfl := beq_iff_eq.mp hj
    have hlt := (List.getElem?_eq_some_iff.mp ha).1
    exact hij ((List.getElem?_inj hlt h.nodup).mp (ha.trans (h.pool e he).symm))

theorem Addressed.pooled_insert (h : n.Addressed) {a : Addr} (ha : n.addrs[i]? = some a) (j : ℕ) :
    (n.poolInsert a i).pooled j = if i = j then 1 else n.pooled j := by
  have hperm := (poolInsert_perm n a i).countP_eq fun e => e.2 == j
  have herase : (n.poolErase a).pool.countP (fun e => e.2 == j) = _ := h.pooled_erase ha j
  rw [List.countP_cons, herase] at hperm
  refine hperm.trans ?_
  by_cases hij : i = j <;> simp [hij]

theorem duties_change {r s : List Role} (h : r ++ n'.duties ~ s ++ n.duties) (p : Role → Bool) :
    r.countP p + n'.duties.countP p = s.countP p + n.duties.countP p := Slots.countP_exchange h p

theorem Claimed.of_quiet (h : n.Claimed) (haddressed : n'.Addressed) (hpool : n'.pool = n.pool)
    {r s : List Role} (hduties : r ++ n'.duties ~ s ++ n.duties)
    (hs : ∀ x ∈ s, x.closing = false) : n'.Claimed := by
  have hone := h.one
  have hcount := duties_change hduties Role.closing
  have hzero : s.countP Role.closing = 0 := List.countP_eq_zero.mpr fun x hx => by simp [hs x hx]
  refine ⟨haddressed, by omega, fun a i hr => ?_⟩
  have hmem : ∀ x, x.closing = true → x ∈ n'.duties → x ∈ n.duties := by
    intro x hx hxn
    rcases List.mem_append.mp (hduties.mem_iff.mp (List.mem_append_right _ hxn)) with hxs | hxn
    · rw [hs x hxs] at hx
      cases hx
    · exact hxn
  rw [hpool]
  exact h.claimed a i (hr.imp (hmem _ rfl) (hmem _ rfl))

theorem Claimed.step (h : n.Claimed) (haddressed : n'.Addressed) (hc : Passing n n') :
    n'.Claimed := by
  have hone := h.one
  cases hc with
  | quiet _ hpool _ hduties =>
      exact h.of_quiet haddressed hpool (r := []) (s := []) hduties (by simp)
  | accept a _ hpool _ hduties =>
      exact h.of_quiet haddressed hpool (r := []) (s := [_]) hduties (by simp [Role.closing])
  | connect i _ hpool _ hduties =>
      exact h.of_quiet haddressed hpool (r := [_]) (s := []) hduties (by simp)
  | insert a i _ hnone _ _ _ hduties =>
      have hnone' : ∀ x ∈ n'.duties, x.closing = false := by
        intro x hx
        rcases List.mem_cons.mp (hduties.mem_iff.mp (List.mem_cons_of_mem _ hx)) with rfl | hx
        · rfl
        · exact hnone x hx
      have hzero : n'.duties.countP Role.closing = 0 :=
        List.countP_eq_zero.mpr fun x hx => by simp [hnone' x hx]
      refine ⟨haddressed, by omega, fun b j hr => ?_⟩
      rcases hr with hr | hr
      · cases hnone' _ hr
      · cases hnone' _ hr
  | close a i hin hnone _ hpool _ hduties =>
      have hzero : n.duties.countP Role.closing = 0 :=
        List.countP_eq_zero.mpr fun x hx => by simp [hnone x hx]
      have hcount := duties_change (r := []) (s := [_]) hduties Role.closing
      simp only [List.countP_nil, List.countP_singleton, Role.closing, if_true] at hcount
      refine ⟨haddressed, by omega, fun b j hr => ?_⟩
      rw [hpool]
      have hmem : ∀ x, x.closing = true → x ∈ n'.duties → x = .disconnecting a i := by
        intro x hx hxn
        rcases List.mem_cons.mp (hduties.mem_iff.mp hxn) with rfl | hxn
        · rfl
        · rw [hnone x hxn] at hx
          cases hx
      rcases hr with hr | hr
      · cases hmem _ rfl hr; exact hin
      · cases hmem _ rfl hr
  | disconnect a i _ hpool _ hduties =>
      have hcount := duties_change (r := [_]) (s := [_]) hduties Role.closing
      simp only [List.countP_singleton, Role.closing, if_true] at hcount
      have hin : (a, i) ∈ n.pool :=
        h.claimed a i (Or.inl (Slots.mem_of_exchange hduties (by simp)))
      refine ⟨haddressed, by omega, fun b j hr => ?_⟩
      rw [hpool]
      have hmem : ∀ x ∈ n'.duties, x = .erasing a i ∨ x ∈ n.duties := fun x hx =>
        List.mem_cons.mp (hduties.mem_iff.mp (List.mem_cons_of_mem _ hx))
      rcases hr with hr | hr
      · rcases hmem _ hr with he | hr
        · cases he
        · exact h.claimed b j (Or.inl hr)
      · rcases hmem _ hr with he | hr
        · cases he; exact hin
        · exact h.claimed b j (Or.inr hr)
  | @erase a i next hnext _ hpool _ hduties =>
      have hcount := duties_change (r := [_]) hduties Role.closing
      have hle : next.countP Role.closing ≤ 1 := by rcases hnext with rfl | rfl <;> decide
      simp only [List.countP_singleton, Role.closing, if_true] at hcount
      refine ⟨haddressed, by omega, fun b j hr => ?_⟩
      have hmem : ∀ x, x.closing = true → x ∈ n'.duties → x = .advancing := by
        intro x hx hxn
        rcases hnext with rfl | rfl
        · have hzero : n'.duties.countP Role.closing = 0 := by
            rw [List.countP_nil] at hcount
            omega
          exact absurd hx (List.countP_eq_zero.mp hzero x hxn)
        · have hadv := hduties.mem_iff.mpr (List.mem_cons_self ..)
          exact Slots.eq_of_countP_le_one (by omega) hxn
            ((List.mem_cons.mp hadv).resolve_left (by simp)) hx rfl
      rcases hr with hr | hr
      · cases hmem _ rfl hr
      · cases hmem _ rfl hr

end Server

/-! ### The stages -/

/-- Where a session is: it does not exist; it was accepted; it is in the pool; `onDisconnect` was called
for it, and it is still to be erased; it was erased. -/
inductive Stage where
  | unknown
  | arriving
  | inside
  | leaving
  | left
deriving DecidableEq, Repr

namespace Stage

/-- The stage that comes next. -/
inductive Next : Stage → Stage → Prop
  | accept : Next unknown arriving
  | insert : Next arriving inside
  | disconnect : Next inside leaving
  | erase : Next leaving left

def accepted : Stage → ℕ
  | unknown => 0
  | _ => 1

def inserting : Stage → ℕ
  | arriving => 1
  | _ => 0

def pooled : Stage → ℕ
  | inside | leaving => 1
  | _ => 0

def erasing : Stage → ℕ
  | leaving => 1
  | _ => 0

def disconnected : Stage → ℕ
  | leaving | left => 1
  | _ => 0

end Stage

namespace Server

variable {cfg : Config} {n n' m : Server} {a : ServerAct} {i j : ℕ} {s : Stage}

/-- The session `i` is at the stage `s`; and `onConnect` was called for it once, or a call is about to. -/
structure At (n : Server) (i : ℕ) (s : Stage) : Prop where
  accepted : n.accepted i = s.accepted
  inserting : n.duties.countP (Role.inserts i) = s.inserting
  pooled : n.pooled i = s.pooled
  erasing : n.duties.countP (Role.erases i) = s.erasing
  disconnected : n.marks.count (.onDisconnect i) = s.disconnected
  connect : n.duties.countP (Role.joins i) + n.marks.count (.onConnect i) = s.accepted

theorem duties_counts {r s : List Role} (h : r ++ n'.duties ~ s ++ n.duties) (i : ℕ) :
    r.countP (Role.inserts i) + n'.duties.countP (Role.inserts i) =
      s.countP (Role.inserts i) + n.duties.countP (Role.inserts i) ∧
    r.countP (Role.joins i) + n'.duties.countP (Role.joins i) =
      s.countP (Role.joins i) + n.duties.countP (Role.joins i) ∧
    r.countP (Role.erases i) + n'.duties.countP (Role.erases i) =
      s.countP (Role.erases i) + n.duties.countP (Role.erases i) :=
  ⟨duties_change h _, duties_change h _, duties_change h _⟩

theorem marks_count {e : ServerEvent} (h : n'.marks = n.marks ++ [e]) (i : ℕ) :
    n'.marks.count (.onConnect i) =
      n.marks.count (.onConnect i) + (if e = .onConnect i then 1 else 0) ∧
    n'.marks.count (.onDisconnect i) =
      n.marks.count (.onDisconnect i) + if e = .onDisconnect i then 1 else 0 := by
  simp [h, List.count_singleton]

/-- **One step** leaves a session at its stage or takes it to the next one. -/
theorem At.step (h : n.At i s) (hcl : n.Claimed) (hc : Passing n n') :
    ∃ s', (s' = s ∨ Stage.Next s s') ∧ n'.At i s' := by
  obtain ⟨hacc, hins, hpooled, herase, hdisc, hconn⟩ := h
  have hsame : n'.addrs = n.addrs → n'.accepted i = n.accepted i := fun e => by
    simp [Server.accepted, e]
  have hpool : n'.pool = n.pool → n'.pooled i = n.pooled i := fun e => by
    simp [Server.pooled, e]
  cases hc with
  | quiet haddrs hp hmarks hduties =>
      obtain ⟨hI, hJ, hE⟩ := duties_counts (r := []) (s := []) hduties i
      have hA := hsame haddrs
      have hP := hpool hp
      rw [← hmarks] at hdisc hconn
      simp only [List.countP_nil, Nat.zero_add] at hI hJ hE
      refine ⟨s, Or.inl rfl, ?_⟩
      constructor <;> omega
  | accept a haddrs hp hmarks hduties =>
      obtain ⟨hI, hJ, hE⟩ := duties_counts (r := []) (s := [_]) hduties i
      have hA : n'.accepted i = n.accepted i + if n.addrs.length = i then 1 else 0 := by
        simp only [Server.accepted, haddrs, List.length_append, List.length_singleton]
        split <;> split <;> split <;> omega
      have hA' := n'.accepted_le i
      have hP := hpool hp
      rw [← hmarks] at hdisc hconn
      by_cases hi : n.addrs.length = i
      · simp [Role.inserts, Role.joins, Role.erases, hi] at hI hJ hE hA
        obtain rfl : s = .unknown := by
          cases s <;> simp only [Stage.accepted] at hacc <;> first | rfl | omega
        refine ⟨.arriving, Or.inr .accept, ?_⟩
        simp only [Stage.accepted, Stage.inserting, Stage.pooled, Stage.erasing,
          Stage.disconnected] at hacc hins hpooled herase hdisc hconn
        constructor <;> simp only [Stage.accepted, Stage.inserting, Stage.pooled, Stage.erasing,
          Stage.disconnected] <;>
          omega
      · simp [Role.inserts, Role.joins, Role.erases, hi] at hI hJ hE hA
        refine ⟨s, Or.inl rfl, ?_⟩
        constructor <;> omega
  | insert a j ha _ haddrs hp hmarks hduties =>
      obtain ⟨hI, hJ, hE⟩ := duties_counts (r := [_]) (s := [_]) hduties i
      have hA := hsame haddrs
      have hP : n'.pooled i = if j = i then 1 else n.pooled i := by
        rw [← hcl.addressed.pooled_insert ha i]
        simp [Server.pooled, hp]
      rw [← hmarks] at hdisc hconn
      by_cases hi : j = i
      · simp [Role.inserts, Role.joins, Role.erases, hi] at hI hJ hE hP
        obtain rfl : s = .arriving := by
          cases s <;> simp only [Stage.inserting] at hins <;> first | rfl | omega
        refine ⟨.inside, Or.inr .insert, ?_⟩
        simp only [Stage.accepted, Stage.inserting, Stage.pooled, Stage.erasing,
          Stage.disconnected] at hacc hins hpooled herase hdisc hconn
        constructor <;> simp only [Stage.accepted, Stage.inserting, Stage.pooled, Stage.erasing,
          Stage.disconnected] <;>
          omega
      · simp [Role.inserts, Role.joins, Role.erases, hi] at hI hJ hE hP
        refine ⟨s, Or.inl rfl, ?_⟩
        constructor <;> omega
  | connect j haddrs hp hmarks hduties =>
      obtain ⟨hI, hJ, hE⟩ := duties_counts (r := [_]) (s := []) hduties i
      have hA := hsame haddrs
      have hP := hpool hp
      obtain ⟨hX, hD⟩ := marks_count hmarks i
      refine ⟨s, Or.inl rfl, ?_⟩
      by_cases hi : j = i <;> simp [Role.inserts, Role.joins, Role.erases, hi] at hI hJ hE hX hD <;>
        constructor <;> omega
  | close a j _ _ haddrs hp hmarks hduties =>
      obtain ⟨hI, hJ, hE⟩ := duties_counts (r := []) (s := [_]) hduties i
      have hA := hsame haddrs
      have hP := hpool hp
      rw [← hmarks] at hdisc hconn
      simp [Role.inserts, Role.joins, Role.erases] at hI hJ hE
      refine ⟨s, Or.inl rfl, ?_⟩
      constructor <;> omega
  | disconnect a j haddrs hp hmarks hduties =>
      obtain ⟨hI, hJ, hE⟩ := duties_counts (r := [_]) (s := [_]) hduties i
      have hA := hsame haddrs
      have hP := hpool hp
      obtain ⟨hX, hD⟩ := marks_count hmarks i
      have hmem : .disconnecting a j ∈ n.duties := Slots.mem_of_exchange hduties (by simp)
      by_cases hi : j = i
      · subst hi
        have hin : n.pooled j ≠ 0 := pooled_pos.mpr ⟨_, hcl.claimed a j (Or.inl hmem), rfl⟩
        have hzero : n.duties.countP (Role.erases j) = 0 := by
          refine List.countP_eq_zero.mpr fun r hr herases => ?_
          cases Slots.eq_of_countP_le_one hcl.one hmem hr rfl (Role.closing_of_erases herases)
          cases herases
        simp [Role.inserts, Role.joins, Role.erases] at hI hJ hE hX hD
        obtain rfl : s = .inside := by
          cases s <;> simp only [Stage.pooled, Stage.erasing] at hpooled herase <;> first | rfl | omega
        refine ⟨.leaving, Or.inr .disconnect, ?_⟩
        simp only [Stage.accepted, Stage.inserting, Stage.pooled, Stage.erasing,
          Stage.disconnected] at hacc hins hpooled herase hdisc hconn
        constructor <;> simp only [Stage.accepted, Stage.inserting, Stage.pooled, Stage.erasing,
          Stage.disconnected] <;> omega
      · simp [Role.inserts, Role.joins, Role.erases, hi] at hI hJ hE hX hD
        refine ⟨s, Or.inl rfl, ?_⟩
        constructor <;> omega
  | @erase a j next hnext haddrs hp hmarks hduties =>
      obtain ⟨hI, hJ, hE⟩ := duties_counts (r := [_]) hduties i
      have hA := hsame haddrs
      have hmem : .erasing a j ∈ n.duties := by
        apply (List.mem_append.mp (hduties.mem_iff.mp (List.mem_cons_self ..))).resolve_left
        rcases hnext with rfl | rfl <;> simp
      have ha : n.addrs[j]? = some a := hcl.addressed.pool _ (hcl.claimed a j (Or.inr hmem))
      have hP : n'.pooled i = if j = i then 0 else n.pooled i := by
        rw [← hcl.addressed.pooled_erase ha i]
        simp [Server.pooled, hp]
      have hnone : ∀ p : Role → Bool, p .advancing = false → next.countP p = 0 := by
        intro p hp
        rcases hnext with rfl | rfl <;> simp [hp]
      rw [← hmarks] at hdisc hconn
      rw [hnone _ rfl] at hI hJ hE
      by_cases hi : j = i
      · simp [Role.inserts, Role.joins, Role.erases, hi] at hI hJ hE hP
        obtain rfl : s = .leaving := by
          cases s <;> simp only [Stage.erasing] at herase <;> first | rfl | omega
        refine ⟨.left, Or.inr .erase, ?_⟩
        simp only [Stage.accepted, Stage.inserting, Stage.pooled, Stage.erasing,
          Stage.disconnected] at hacc hins hpooled herase hdisc hconn
        constructor <;> simp only [Stage.accepted, Stage.inserting, Stage.pooled, Stage.erasing,
          Stage.disconnected] <;>
          omega
      · simp [Role.inserts, Role.joins, Role.erases, hi] at hI hJ hE hP
        refine ⟨s, Or.inl rfl, ?_⟩
        constructor <;> omega

/-! ### Whole runs -/

/-- Every session is at a stage. -/
structure Attends (n : Server) : Prop where
  kept : n.Kept
  claimed : n.Claimed
  stages : ∀ i, ∃ s, n.At i s

theorem Attends.step (h : n.Attends) (hG : n.Defined a) (hstep : Step cfg n a n') : n'.Attends := by
  have hpassing := Passing.of_step hG hstep
  have haddressed := h.claimed.addressed.step h.kept hstep
  refine ⟨h.kept.step hstep, h.claimed.step haddressed hpassing, fun i => ?_⟩
  obtain ⟨s, hs⟩ := h.stages i
  obtain ⟨s', -, hs'⟩ := hs.step h.claimed hpassing
  exact ⟨s', hs'⟩

theorem attends_create : create.Attends where
  kept i o ho := by simp [create] at ho
  claimed := ⟨addressed_create, Nat.zero_le 1, by simp [create, duties, calls]⟩
  stages i := by
    refine ⟨.unknown, ?_⟩
    constructor <;> simp [Server.accepted, Server.pooled, create, addrs, duties, calls, marks,
      Stage.accepted, Stage.inserting, Stage.pooled, Stage.erasing, Stage.disconnected]

theorem Attends.of_run {acts : List ServerAct} (h : Run (Server.step cfg) Defined create acts n) :
    n.Attends :=
  h.invariant attends_create fun _ _ _ hI hG hstep => hI.step hG (Step.of_step hstep)

/-- What the calls of `onConnect` and `onDisconnect` for the session `i` say: each is made at most once,
the second when the session has left the pool; and when nothing is running the first was made, and the
second was made exactly if the session is not in the pool. -/
structure Attended (n : Server) (i : ℕ) : Prop where
  connectOnce : n.trace.count (.onConnect i) ≤ 1
  disconnectOnce : n.trace.count (.onDisconnect i) ≤ 1
  left : n.HasLeft i → n.trace.count (.onDisconnect i) = 1
  settled : n.Quiescent → i < n.sessions.length →
    n.trace.count (.onConnect i) = 1 ∧ (n.InPool i ↔ n.trace.count (.onDisconnect i) = 0)

theorem At.attended (h : n.At i s) : n.Attended i := by
  obtain ⟨hacc, hins, hpooled, herase, hdisc, hconn⟩ := h
  rw [marks, List.count_filter rfl] at hdisc hconn
  have hone := n.accepted_le i
  have hin : n.InPool i ↔ s.pooled ≠ 0 := by rw [← hpooled, pooled_pos]
  have hthere : i < n.sessions.length → s.accepted = 1 := by
    intro hi
    rw [← hacc]
    exact if_pos (by simpa [addrs] using hi)
  refine ⟨by omega, ?_, ?_, ?_⟩
  · rw [hdisc]
    cases s <;> simp [Stage.disconnected]
  · rintro ⟨hi, hnot, hout⟩
    have hzero : s.inserting = 0 := by
      rw [← hins]
      refine List.countP_eq_zero.mpr fun r hr hr' => hnot ?_
      obtain ⟨c, hc, hduty⟩ := List.mem_filterMap.mp hr
      cases r with
      | inserting j =>
          obtain rfl : j = i := beq_iff_eq.mp hr'
          refine List.mem_filterMap.mpr ⟨c, hc, ?_⟩
          cases c with
          | accepted k pc => cases pc <;> exact hduty
          | _ => cases hduty
      | _ => cases hr'
    have hpool : s.pooled = 0 := not_not.mp (hin.not.mp hout)
    have haccepted := hthere hi
    rw [hdisc]
    cases s <;> simp [Stage.inserting, Stage.pooled, Stage.accepted, Stage.disconnected] at *
  · intro hquiet hi
    have hnil : n.duties = [] := by
      rw [duties, show n.calls = [] from hquiet]
      rfl
    have haccepted := hthere hi
    simp only [hnil, List.countP_nil, Nat.zero_add] at hins herase hconn
    refine ⟨hconn.trans haccepted, ?_⟩
    rw [hin, hdisc]
    cases s <;> simp [Stage.inserting, Stage.pooled, Stage.accepted, Stage.erasing,
      Stage.disconnected] at *

/-- **Every session is connected and disconnected at most once**, in every run in which `closeAll` does not
go on from the element it has erased. -/
theorem attended_once {acts : List ServerAct} (h : Run (Server.step cfg) Defined create acts n)
    (i : ℕ) : n.Attended i := by
  obtain ⟨s, hs⟩ := (Attends.of_run h).stages i
  exact hs.attended

/-- The user closes the session in the middle of a message, and again when it is told of that. -/
def closeWhileTold : List ServerAct :=
  clientConnects ++ [.io 0 (.recv [1, 0, 0, 0, 0, 0, 0, 0, 5, 1, 0, 0, 0, 0, 0, 0, 0, 6]),
    .io 0 .recvDone, .run 2 [] none, .run 2 [] none, .run 2 [.close 7] none, .run 2 [] none,
    .call (.close 7), .run 2 [] none, .run 2 [] none, .run 3 [] none, .run 2 [] none,
    .run 2 [] none, .run 2 [] none, .run 2 [.close 7] none, .run 2 [] none, .run 2 [] none,
    .run 2 [] none]

theorem attended_once_closed :
    ∃ n, Run (Server.step .shipped) Defined create closeWhileTold n ∧ n.Quiescent ∧
      n.trace = [.onConnect 0, .onMessage 0 [5] 0 1, .onDisconnect 0, .onMessage 0 [6] 0 1] ∧
      n.Attended 0 := by
  have h := Run.of_execWhen (Server.step .shipped) Defined create closeWhileTold (by decide +kernel)
  exact ⟨_, h, by decide +kernel, by decide +kernel, attended_once h 0⟩

end Server

end AsioTcpFrame
