import AsioTcpFrame.Handles
import AsioTcpFrame.ServerMessages

/-! # A user that answers

The user of a server writes in its callbacks.  A `Responder` is such a user: it greets a session when it
connects, and answers every message of a session with one message to the same session; the example
program `server_tcp.cpp` is the one that echoes (`Responder.echo`).  `Responds` is the condition on the
steps of a server that its callbacks are those of this user.

While a session is greeted or answered, one call serves it, directly above the call that waits for it
(`Tended`): the handler of the accepted connection, or the read loop.  What a step is for the answers to
one session is `Serves`, unless it hands a frame on (`Hands`). -/

namespace AsioTcpFrame

open Transition Framing

open scoped List

/-- What a user does who answers. -/
structure Responder where
  greeting : List Byte
  reply : List Byte → List Byte

/-- `src/example/server_tcp.cpp`: `info`, and then what the client has sent. -/
def Responder.echo (info : List Byte) : Responder := ⟨info, id⟩

namespace Call

/-- The call gives a message of the session `i`, whose address is `a`, to the user, or writes to the
session. -/
def serves (a : Option Addr) (i : ℕ) : Call → Bool
  | message j _ _ _ | sessionWrite j _ _ => j == i
  | write b _ => a == some b
  | _ => false

/-- The call waits for one that serves the session `i`. -/
def waits (i : ℕ) : Call → Bool
  | readConsume j | accepted j .start => j == i
  | _ => false

/-- The handler of the accepted connection `i`, before it has called `onConnect`. -/
def begins (i : ℕ) : Call → Bool
  | accepted j .insert | accepted j .setError | accepted j .setRead | accepted j .connect => j == i
  | _ => false

/-- The call is none of `broadcast`, and what it writes is for one of the sessions at `addrs`. -/
def Modest (addrs : List Addr) : Call → Prop
  | broadcast _ | broadcasting _ _ => False
  | write b _ => b ∈ addrs
  | _ => True

end Call

namespace Server

variable {cfg : Config} {u : Responder} {n n' m : Server} {i j : ℕ} {ao : Option Addr} {g : Traffic}
  {acts : List ServerAct}

/-- What `onMessage` is shown of the session `i`. -/
def shown (n : Server) (i length content : ℕ) : List Byte :=
  ((n.session i).map fun s => (s.recvBuf.drop content).take length).getD []

/-- The program writes `payload` to the session `i`. -/
def Writes (cfg : Config) (n : Server) (i : ℕ) (payload : List Byte) : List Api → Prop
  | [.write a head content] => n.addrs[i]? = some a ∧ head.length = cfg.hdLen ∧ content = payload
  | _ => False

/-- The program of `u` in the callback that is called, if one is. -/
def Program (cfg : Config) (u : Responder) (n : Server) (prog : List Api) : Call → Prop
  | .accepted i .connect => n.Writes cfg i u.greeting prog
  | .message i _ length content => n.Writes cfg i (u.reply (n.shown i length content)) prog
  | _ => prog = []

/-- The callbacks of the server are those of `u`, and nothing else calls it. -/
def Responds (cfg : Config) (u : Responder) (n : Server) : ServerAct → Prop
  | .call _ => False
  | .run t prog _ => ∀ c ∈ n.top t, n.Program cfg u prog c
  | _ => True

instance (payload : List Byte) : ∀ prog, Decidable (n.Writes cfg i payload prog)
  | [.write _ _ _] => inferInstanceAs (Decidable (_ ∧ _ ∧ _))
  | [] | .write _ _ _ :: _ :: _ | .broadcast _ _ :: _ | .close _ :: _ | .closeAll :: _ | .stop :: _ =>
      isFalse id

instance (prog : List Api) : ∀ c, Decidable (n.Program cfg u prog c)
  | .accepted i .connect => inferInstanceAs (Decidable (n.Writes cfg i u.greeting prog))
  | .message i _ length content =>
      inferInstanceAs (Decidable (n.Writes cfg i (u.reply (n.shown i length content)) prog))
  | .accepted _ .insert | .accepted _ .setError | .accepted _ .setRead | .accepted _ .start
  | .accepted _ .rearm | .write _ _ | .broadcast _ | .broadcasting _ _ | .close _ | .closeAll | .stop
  | .disconnect _ _ _ | .erase _ _ _ | .advance | .error _ _ | .sessionWrite _ _ _ | .readLoop _
  | .readConsume _ | .writeDone _ _ _ | .guard _ => inferInstanceAs (Decidable (prog = []))

instance (n : Server) : ∀ a, Decidable (n.Responds cfg u a)
  | .call _ => isFalse id
  | .run t prog _ => inferInstanceAs (Decidable (∀ c ∈ n.top t, n.Program cfg u prog c))
  | .arrive | .acceptDone _ | .acceptFail _ | .io _ _ => isTrue trivial

/-- The greeting, when the session `i` has connected. -/
def greeted (u : Responder) (n : Server) (i : ℕ) : List (List Byte) :=
  if .onConnect i ∈ n.trace then [u.greeting] else []

/-- Directly below a call that serves the session `i` is the one that waits for it. -/
def Tended (ao : Option Addr) (i : ℕ) : List Call → Prop
  | [] => True
  | c :: rest =>
      (c.serves ao i = true → ∃ d ∈ rest.head?, d.waits i = true ∧
        (c.messaging i = true → d = .readConsume i)) ∧ Tended ao i rest

/-! ### Stacks -/

theorem tended_append {stack rest : List Call} (h : ∀ c ∈ stack, c.serves ao i = false)
    (hrest : Tended ao i rest) : Tended ao i (stack ++ rest) := by
  induction stack with
  | nil => exact hrest
  | cons c stack ih =>
      have hc := h c List.mem_cons_self
      exact ⟨fun h' => absurd (hc.symm.trans h') (by decide),
        ih fun d hd => h d (List.mem_cons_of_mem c hd)⟩

theorem Tended.congr {ao' : Option Addr} {stack : List Call} (h : Tended ao i stack)
    (hsame : ∀ c ∈ stack, c.serves ao' i = c.serves ao i) : Tended ao' i stack := by
  induction stack with
  | nil => exact trivial
  | cons c rest ih =>
      refine ⟨fun hc => h.1 ((hsame c List.mem_cons_self).symm.trans hc), ih h.2 fun d hd => ?_⟩
      exact hsame d (List.mem_cons_of_mem c hd)

theorem tended_run {t : ℕ} {c : Call} {rest new : List Call}
    (h : ∀ stack ∈ n.threads, Tended ao i stack) (hstack : n.threads[t]? = some (c :: rest))
    (hnew : Tended ao i (c :: rest) → Tended ao i (new ++ rest)) :
    ∀ stack ∈ n.threads.set t (new ++ rest), Tended ao i stack := by
  intro stack hmem
  rcases List.mem_or_eq_of_mem_set hmem with hmem | rfl
  · exact h stack hmem
  · exact hnew (h _ (List.mem_of_getElem? hstack))

theorem not_serves_of_waits {c : Call} (h : c.waits i = true) : c.serves ao i = false := by
  cases c <;> first | rfl | cases h

theorem Tended.countP_le {stack : List Call} (h : Tended ao i stack) :
    stack.countP (Call.serves ao i) + (stack.head?.any (Call.waits i)).toNat ≤
      stack.countP (Call.waits i) := by
  induction stack with
  | nil => exact Nat.le_refl _
  | cons c rest ih =>
      have hle := ih h.2
      rw [List.countP_cons, List.countP_cons, List.head?_cons, Option.any_some]
      by_cases hs : c.serves ao i = true
      · obtain ⟨d, hd, hw, -⟩ := h.1 hs
        have hnot : c.waits i = false := by
          by_contra hc
          rw [not_serves_of_waits (Bool.not_eq_false _ ▸ hc)] at hs
          cases hs
        rw [hd, Option.any_some, hw] at hle
        simp only [hs, hnot, if_true, Bool.false_eq_true, if_false, Bool.toNat_false, Bool.toNat_true]
          at hle ⊢
        omega
      · cases hw : c.waits i <;> simp [hs] <;> omega

/-- As many calls serve the session as wait for it, at most. -/
theorem countP_serves_le (h : ∀ stack ∈ n.threads, Tended ao i stack) :
    n.calls.countP (Call.serves ao i) ≤ n.calls.countP (Call.waits i) := by
  rw [calls, List.countP_flatten, List.countP_flatten]
  apply List.sum_le_sum
  intro stack hstack
  have := (h stack hstack).countP_le
  omega

theorem Tended.exists_waits {stack : List Call} (h : Tended ao i stack) {c : Call} (hc : c ∈ stack)
    (hs : c.serves ao i = true) :
    ∃ d ∈ stack, d.waits i = true ∧ (c.messaging i = true → d = .readConsume i) := by
  induction stack with
  | nil => cases hc
  | cons e rest ih =>
      rcases List.mem_cons.mp hc with rfl | hc
      · obtain ⟨d, hd, hw⟩ := h.1 hs
        exact ⟨d, List.mem_cons_of_mem _ (List.mem_of_mem_head? hd), hw⟩
      · obtain ⟨d, hd, hw⟩ := ih h.2 hc
        exact ⟨d, List.mem_cons_of_mem _ hd, hw⟩

theorem reading_of_waits {c : Call} (h : c.waits i = true) : c.reading i = true := by
  cases c with
  | accepted j pc => cases pc <;> first | exact h | cases h
  | readConsume j => exact h
  | _ => cases h

theorem reading_of_begins {c : Call} (h : c.begins i = true) : c.reading i = true := by
  cases c with
  | accepted j pc => cases pc <;> first | exact h | cases h
  | _ => cases h

/-! ### What a step is for a session -/

theorem Writes.toCall {payload : List Byte} {prog : List Api} (h : n.Writes cfg i payload prog) :
    ∃ b bytes, n.addrs[i]? = some b ∧ bytes.drop cfg.hdLen = payload ∧
      prog.map (Api.toCall cfg) = [.write b bytes] := by
  match prog, h with
  | [.write b head content], h =>
      obtain ⟨hb, hhead, rfl⟩ := h
      refine ⟨b, head ++ content, hb, ?_, rfl⟩
      rw [← hhead]
      exact List.drop_left

theorem Addressed.getElem?_ne {b : Addr} (h : n.Addressed) (hj : n.addrs[j]? = some b) (hne : j ≠ i) :
    n.addrs[i]? ≠ some b := by
  intro hi
  have hlt : j < n.addrs.length := (List.getElem?_eq_some_iff.mp hj).1
  exact hne ((List.getElem?_inj hlt h.nodup).mp (hj.trans hi.symm))

variable (cfg) in
theorem readCallback_eq {o : Obj} (ho : o.readCallback = true) (f : Frame) (j : ℕ) :
    ∃ errors, readCallback cfg j o f = errors ++ [messageCall cfg j f.content] ∧
      ∀ c ∈ errors, ∃ text, c = .error (some j) text := by
  have hlen : f.length = f.content.length := f.content_length.symm
  simp only [readCallback, ho, if_true, ServerTCP.readCallback, unpack, Callbacks.error,
    Callbacks.message, Callbacks.both, hlen]
  by_cases hneg : bodyLength cfg.hdLen f.content.length < 0
  · exact ⟨[.error (some j) "read failed: content is too short"], by
      simp [hneg, Call.ofEffect, messageCall], by simp⟩
  · exact ⟨[], by simp [hneg, Call.ofEffect, messageCall], by simp⟩

/-- What a step of a call is for the answers to the session `i`, unless it hands a frame on: the call has
nothing to do with them; the session is greeted or answered; or an answer is on its way. -/
inductive Serves (cfg : Config) (u : Responder) (n : Server) (i : ℕ) : Call → List Call → Prop
  | aside {c : Call} {new : List Call} : c.serves n.addrs[i]? i = false →
      (∀ d ∈ new, d.serves n.addrs[i]? i = false ∧ d ≠ .readConsume i ∧
        (d.begins i = true → c.begins i = true)) →
      c ≠ .accepted i .connect →
      (∀ s g, n.session i = some s → noteCall cfg i s g c = g) → Serves cfg u n i c new
  | greet {b : Addr} {bytes : List Byte} : n.addrs[i]? = some b →
      bytes.drop cfg.hdLen = u.greeting →
        Serves cfg u n i (.accepted i .connect) [.write b bytes, .accepted i .start]
  | answer {head bytes : List Byte} {length content : ℕ} {b : Addr} : n.addrs[i]? = some b →
      bytes.drop cfg.hdLen = u.reply (n.shown i length content) →
        Serves cfg u n i (.message i head length content) [.write b bytes]
  | find {b : Addr} {bytes : List Byte} : n.addrs[i]? = some b → n.InPool i →
      Serves cfg u n i (.write b bytes) [.sessionWrite i bytes .test]
  | miss {b : Addr} {bytes : List Byte} : n.addrs[i]? = some b → ¬ n.InPool i →
      Serves cfg u n i (.write b bytes) []
  | move {bytes : List Byte} {pc pc' : WritePc} : pc ≠ .body →
      Serves cfg u n i (.sessionWrite i bytes pc) [.sessionWrite i bytes pc']
  | done {bytes : List Byte} : Serves cfg u n i (.sessionWrite i bytes .body) []

/-- A frame of the session `i` is handed on. -/
inductive Hands (cfg : Config) (n : Server) (i : ℕ) (m : Server) : Call → List Call → Prop
  | intro {o : Obj} {f : Frame} {s : Session} : n.sessions[i]? = some o → o.sess.turn cfg = .body f s →
      m.session i = some s →
        Hands cfg n i m (.readLoop i) (readCallback cfg i o f ++ [.readConsume i])

theorem InPool.of_find {a : Addr} (h : n.find a = none) (haddr : n.Addressed)
    (ha : n.addrs[i]? = some a) : ¬ n.InPool i := by
  rintro ⟨⟨b, k⟩, he, rfl⟩
  obtain rfl : b = a := Option.some.inj ((haddr.pool _ he).symm.trans ha)
  have hnone := List.find?_eq_none.mp (Option.map_eq_none_iff.mp h) _ he
  simp at hnone

/-- **What a call is for the answers.** -/
theorem Serves.of_exec {prog : List Api} {next : Option ℕ} {c : Call} {new : List Call}
    (haddr : n.Addressed) (hkept : n.Kept) (hmodest : c.Modest n.addrs)
    (hprog : n.Program cfg u prog c) (h : n.exec cfg prog next c = some (m, new)) :
    Hands cfg n i m c new ∨ Serves cfg u n i c new := by
  cases Exec.of_exec h with
  | write b bytes =>
      right
      by_cases hb : n.addrs[i]? = some b
      · split
        · next hnone => exact .miss hb (InPool.of_find hnone haddr hb)
        · next k hfind =>
          obtain rfl : k = i := haddr.eq_of_mem hb (find_mem hfind)
          exact .find hb ⟨_, find_mem hfind, rfl⟩
      · refine .aside (by simpa [Call.serves] using hb) ?_ (by simp) fun _ _ _ => rfl
        split
        · simp
        · next k hfind =>
          have hk : n.addrs[k]? = some b := haddr.pool _ (find_mem hfind)
          have hne : k ≠ i := by
            rintro rfl
            exact hb hk
          simp [Call.serves, Call.begins, hne]
  | broadcast _ | broadcasted _ | broadcasting _ _ _ => exact hmodest.elim
  | disconnect b k all =>
      obtain rfl : prog = [] := hprog
      exact .inr (.aside rfl (by simp [Call.serves, Call.begins]) (by simp) fun _ _ _ => rfl)
  | close _ | closeAll | advance | erase _ _ _ =>
      refine .inr (.aside rfl ?_ (by simp) fun _ _ _ => rfl)
      split <;> simp [Call.serves, Call.begins]
  | error k message =>
      obtain rfl : prog = [] := hprog
      exact .inr (.aside rfl (by simp) (by simp) fun _ _ _ => rfl)
  | connect k =>
      obtain ⟨b, bytes, hb, hbytes, hcall⟩ := Writes.toCall hprog
      rw [hcall]
      by_cases hk : k = i
      · subst hk
        exact .inr (.greet hb hbytes)
      · have hne := haddr.getElem?_ne (i := i) hb hk
        exact .inr (.aside rfl (by simp [Call.serves, Call.begins, hne]) (by simp [hk])
          fun _ _ _ => rfl)
  | message k head length content =>
      obtain ⟨b, bytes, hb, hbytes, hcall⟩ := Writes.toCall hprog
      rw [hcall]
      by_cases hk : k = i
      · subst hk
        exact .inr (.answer hb hbytes)
      · have hne := haddr.getElem?_ne (i := i) hb hk
        exact .inr (.aside (by simp [Call.serves, hk]) (by simp [Call.serves, Call.begins, hne])
          (by simp) fun _ _ _ => rfl)
  | @test k o bytes ho =>
      have hrunning : o.sess.stopped = false := (hkept k o ho).2.1
      simp only [hrunning, Bool.false_eq_true, if_false]
      by_cases hk : k = i
      · subst hk
        exact .inr (.move (by simp))
      · exact .inr (.aside (by simp [Call.serves, hk]) (by simp [Call.serves, Call.begins, hk])
          (by simp) fun _ _ _ => rfl)
  | lock k bytes =>
      by_cases hk : k = i
      · subst hk
        exact .inr (.move (by simp))
      · exact .inr (.aside (by simp [Call.serves, hk]) (by simp [Call.serves, Call.begins, hk])
          (by simp) fun _ _ _ => rfl)
  | body k bytes =>
      by_cases hk : k = i
      · subst hk
        exact .inr .done
      · refine .inr (.aside (by simp [Call.serves, hk]) (by simp) (by simp) fun s g _ => ?_)
        exact noteCall_quiet rfl (by simp [hk])
  | @loopBreak k o ho hturn =>
      refine .inr (.aside rfl (by simp) (by simp) fun s g hs => ?_)
      by_cases hk : k = i
      · subst hk
        obtain rfl : o.sess = s := by simpa [session, ho] using hs
        simp only [noteCall, hturn]
      · exact noteCall_quiet (by simp [Call.reading, hk]) (by simp)
  | @loopHead k o s' ho hturn =>
      refine .inr (.aside rfl (by simp [Call.serves, Call.begins]) (by simp) fun s g hs => ?_)
      by_cases hk : k = i
      · subst hk
        obtain rfl : o.sess = s := by simpa [session, ho] using hs
        simp only [noteCall, hturn]
      · exact noteCall_quiet (by simp [Call.reading, hk]) (by simp)
  | @loopBody k o f s' ho hturn =>
      by_cases hk : k = i
      · subst hk
        refine .inl (.intro ho hturn ?_)
        rw [session_onSess, if_pos rfl, session, ho]
        rfl
      · refine .inr (.aside rfl ?_ (by simp) fun s g _ => ?_)
        · intro d hd
          rcases List.mem_append.mp hd with hd | hd
          · cases hset : o.readCallback with
            | false => simp [readCallback, hset] at hd
            | true =>
                obtain ⟨errors, hcalls, herrors⟩ := readCallback_eq cfg hset f k
                rw [hcalls] at hd
                rcases List.mem_append.mp hd with hd | hd
                · obtain ⟨text, rfl⟩ := herrors d hd
                  exact ⟨rfl, by simp, fun hb => by cases hb⟩
                · rw [List.mem_singleton.mp hd]
                  exact ⟨by simp [messageCall, Call.serves, hk], by simp [messageCall],
                    fun hb => by cases hb⟩
          · rw [List.mem_singleton.mp hd]
            exact ⟨rfl, by simp [hk], fun hb => by cases hb⟩
        · exact noteCall_quiet (by simp [Call.reading, hk]) (by simp)
  | _ => exact .inr (.aside rfl (by simp [Call.serves, Call.begins]) (by simp) fun _ _ _ => rfl)

theorem Serves.quiet {c d : Call} {new : List Call} (h : Serves cfg u n i c new) (hd : d ∈ new) :
    d ≠ .readConsume i ∧ d.messaging i = false ∧ (d.begins i = true → c.begins i = true) := by
  cases h with
  | aside hc hnew hne hnote =>
      obtain ⟨hserves, hcons, hbegins⟩ := hnew d hd
      refine ⟨hcons, ?_, hbegins⟩
      cases d with
      | message j head length content => exact hserves
      | _ => rfl
  | greet hb hbytes =>
      rcases List.mem_cons.mp hd with rfl | hd
      · exact ⟨by simp, rfl, fun h => by cases h⟩
      · rw [List.mem_singleton.mp hd]
        exact ⟨by simp, rfl, fun h => by cases h⟩
  | answer hb hbytes =>
      rw [List.mem_singleton.mp hd]
      exact ⟨by simp, rfl, fun h => by cases h⟩
  | find hb hpool =>
      rw [List.mem_singleton.mp hd]
      exact ⟨by simp, rfl, fun h => by cases h⟩
  | miss hb hpool => cases hd
  | move hpc =>
      rw [List.mem_singleton.mp hd]
      exact ⟨by simp, rfl, fun h => by cases h⟩
  | done => cases hd

theorem Serves.tended {c : Call} {new rest : List Call} (h : Serves cfg u n i c new)
    (ht : Tended n.addrs[i]? i (c :: rest)) : Tended n.addrs[i]? i (new ++ rest) := by
  have hgo : ∀ d : Call, c.serves n.addrs[i]? i = true → d.messaging i = false →
      Tended n.addrs[i]? i (d :: rest) := by
    intro d hc hd
    obtain ⟨e, he, hw, -⟩ := ht.1 hc
    exact ⟨fun _ => ⟨e, he, hw, fun h => absurd (hd.symm.trans h) (by decide)⟩, ht.2⟩
  cases h with
  | aside hc hnew hne hnote => exact tended_append (fun d hd => (hnew d hd).1) ht.2
  | greet hb hbytes =>
      refine ⟨fun _ => ⟨.accepted i .start, rfl, ?_, fun h => by cases h⟩, ⟨fun h => (by cases h), ht.2⟩⟩
      simp [Call.waits]
  | answer hb hbytes => exact hgo _ (by simp [Call.serves]) rfl
  | find hb hpool => exact hgo _ (by simp [Call.serves, hb]) rfl
  | miss hb hpool => exact ht.2
  | move hpc => exact hgo _ (by simp [Call.serves]) rfl
  | done => exact ht.2

/-- The new calls of a frame that is handed on are those of `onError` and `onMessage`, above the read
loop. -/
theorem tended_hands {o : Obj} (ho : o.readCallback = true) (f : Frame) {rest : List Call}
    (hrest : Tended ao i rest) :
    Tended ao i ((readCallback cfg i o f ++ [.readConsume i]) ++ rest) := by
  obtain ⟨errors, hcalls, herrors⟩ := readCallback_eq cfg ho f i
  rw [hcalls, List.append_assoc, List.append_assoc]
  apply tended_append
  · intro c hc
    obtain ⟨text, rfl⟩ := herrors c hc
    rfl
  · refine ⟨fun _ => ⟨.readConsume i, rfl, ?_, fun _ => rfl⟩, ⟨fun h => (by cases h), hrest⟩⟩
    simp [Call.waits]

theorem serves_readCallback {o : Obj} (ho : o.readCallback = true) (f : Frame) :
    (readCallback cfg i o f ++ [Call.readConsume i]).filter (Call.serves ao i) =
      [messageCall cfg i f.content] := by
  obtain ⟨errors, hcalls, herrors⟩ := readCallback_eq cfg ho f i
  have hnil : errors.filter (Call.serves ao i) = [] := by
    apply List.filter_eq_nil_iff.mpr
    intro c hc
    obtain ⟨text, rfl⟩ := herrors c hc
    exact Bool.false_ne_true
  rw [hcalls, List.filter_append, List.filter_append, hnil]
  simp [messageCall, Call.serves]

theorem Serves.note {t : ℕ} {prog : List Api} {next : Option ℕ} {c : Call} {rest new : List Call}
    (h : Serves cfg u n i c new) (hstack : n.threads[t]? = some (c :: rest))
    (hc : ∀ bytes, c ≠ .sessionWrite i bytes .body) :
    noteFor cfg i n g (.run t prog next) = g := by
  cases hs : n.session i with
  | none => exact noteFor_none hs _
  | some s =>
      rw [noteFor_run hs hstack]
      cases h with
      | aside _ _ _ hnote => exact hnote s g hs
      | @move bytes pc pc' hpc => cases pc <;> first | rfl | exact absurd rfl hpc
      | done => exact absurd rfl (hc _)
      | _ => rfl

theorem noteCall_frames {s : Session} {c : Call} (hr : c.reading i = false) :
    (noteCall cfg i s g c).frames = g.frames := by
  unfold noteCall
  split
  · split <;> rfl
  · next j =>
    have hj : j ≠ i := by simpa [Call.reading] using hr
    split
    · exact congrArg Traffic.frames (if_neg hj)
    · rfl
  · rfl

theorem Serves.frames {t : ℕ} {prog : List Api} {next : Option ℕ} {c : Call} {rest new : List Call}
    (h : Serves cfg u n i c new) (hstack : n.threads[t]? = some (c :: rest)) :
    (noteFor cfg i n g (.run t prog next)).frames = g.frames := by
  by_cases hc : ∃ bytes, c = .sessionWrite i bytes .body
  · obtain ⟨bytes, rfl⟩ := hc
    cases hs : n.session i with
    | none => rw [noteFor_none hs]
    | some s => rw [noteFor_run hs hstack, noteCall_frames rfl]
  · rw [h.note hstack fun bytes heq => hc ⟨bytes, heq⟩]

/-! ### What a step changes -/

theorem exec_modest {prog : List Api} {next : Option ℕ} {c d : Call} {new : List Call}
    (hc : c.Modest n.addrs) (hprog : n.Program cfg u prog c)
    (h : n.exec cfg prog next c = some (m, new)) (hd : d ∈ new) : d.Modest n.addrs := by
  have hwrites : ∀ {k payload}, n.Writes cfg k payload prog →
      ∀ e ∈ prog.map (Api.toCall cfg), e.Modest n.addrs := by
    intro k payload hw e he
    obtain ⟨b, bytes, hb, -, hcall⟩ := Writes.toCall hw
    rw [hcall] at he
    rw [List.mem_singleton.mp he]
    exact List.mem_of_getElem? hb
  cases Exec.of_exec h with
  | write _ _ | close _ | closeAll | advance | test _ _ =>
      split at hd
      · cases hd
      · rw [List.mem_singleton.mp hd]
        trivial
  | broadcast _ | broadcasted _ | broadcasting _ _ _ => exact hc.elim
  | disconnect b k all =>
      obtain rfl : prog = [] := hprog
      rw [List.mem_singleton.mp hd]
      trivial
  | erase b k all =>
      split at hd
      · rw [List.mem_singleton.mp hd]
        trivial
      · cases hd
  | error k message =>
      obtain rfl : prog = [] := hprog
      cases hd
  | connect k =>
      rcases List.mem_append.mp hd with hd | hd
      · exact hwrites hprog d hd
      · rw [List.mem_singleton.mp hd]
        trivial
  | message k head length content => exact hwrites hprog d hd
  | @loopBody k o f s ho hturn =>
      rcases List.mem_append.mp hd with hd | hd
      · rcases mem_readCallback hd with ⟨k, text, rfl⟩ | ⟨head, length, content, rfl⟩ <;> trivial
      · rw [List.mem_singleton.mp hd]
        trivial
  | _ =>
      first
        | (rw [List.mem_singleton.mp hd]; trivial)
        | cases hd

theorem exec_greeted {prog : List Api} {next : Option ℕ} {c : Call} {new : List Call}
    (h : n.exec cfg prog next c = some (m, new)) (htrace : n'.trace = m.trace) :
    greeted u n' i = if c = .accepted i .connect then [u.greeting] else greeted u n i := by
  rw [greeted, htrace]
  cases Exec.of_exec h with
  | connect k =>
      by_cases hk : k = i
      · subst hk
        simp [see]
      · simp [greeted, see, hk, Ne.symm hk]
  | disconnect b k all => simp [greeted, see]
  | message k head length content => simp [greeted, see]
  | error k message => simp [greeted, see]
  | _ => exact (if_neg (by simp)).symm

theorem exec_inPool {prog : List Api} {next : Option ℕ} {c : Call} {new : List Call}
    (h : n.exec cfg prog next c = some (m, new)) (hpool : n'.pool = m.pool) (hp : n'.InPool i) :
    n.InPool i ∨ c = .accepted i .insert := by
  obtain ⟨e, he, hei⟩ := hp
  rw [hpool] at he
  cases Exec.of_exec h with
  | @insert k o ho =>
      rcases mem_poolInsert he with rfl | he
      · exact .inr (by rw [← hei])
      · exact .inl ⟨e, he, hei⟩
  | erase b k all => exact .inl ⟨e, List.mem_of_mem_filter he, hei⟩
  | _ => exact .inl ⟨e, he, hei⟩

theorem Moves.recvBuf {s s' : Session} {c : Call} {r w : List Call} (h : Moves cfg i s c s' r w)
    (hr : c.reading i = false) : s'.recvBuf = s.recvBuf := by
  have hinput : s'.input = s.input → s'.recvBuf = s.recvBuf := congrArg Session.Input.recvBuf
  cases h with
  | quiet _ _ _ => rfl
  | prepare _ _ _ _ => rfl
  | start => simp [Call.reading] at hr
  | write bytes => exact hinput (Session.writeLocked_input ..)
  | brk _ => simp [Call.reading] at hr
  | head _ => simp [Call.reading] at hr
  | body _ => simp [Call.reading] at hr
  | consume => simp [Call.reading] at hr
  | lock len => rfl
  | done len => exact hinput (Session.doWrite_input ..)

/-! ### Steps of which no call is one -/

theorem modest_of_subset {c : Call} {addrs addrs' : List Addr} (h : c.Modest addrs)
    (hsub : ∀ b ∈ addrs, b ∈ addrs') : c.Modest addrs' := by
  cases c with
  | write b bytes => exact hsub b h
  | broadcast bytes => exact h
  | broadcasting todo bytes => exact h
  | _ => exact trivial

theorem serves_accept {a : Addr} {addrs : List Addr} {c : Call} (hc : c.Modest addrs)
    (hnew : a ∉ addrs) : c.serves (addrs ++ [a])[i]? i = c.serves addrs[i]? i := by
  cases c with
  | write b bytes =>
      have hne : a ≠ b := by
        rintro rfl
        exact hnew hc
      simp only [Call.serves]
      rw [List.getElem?_append]
      split
      · rfl
      · next hi =>
        have hnone : addrs[i]? = none := List.getElem?_eq_none (by omega)
        rw [hnone, List.getElem?_singleton]
        split <;> simp [hne]
  | _ => rfl

theorem complete_recvBuf {o : Obj} {b : SessionIo} {s : Session} {stack : List Call}
    (h : complete j o b = some (s, stack)) (hreads : o.sess.reads = []) :
    s.recvBuf = o.sess.recvBuf := by
  cases b with
  | send k =>
      obtain ⟨⟨bytes, s'⟩, hsend, hr⟩ := Option.map_eq_some_iff.mp h
      cases hr
      obtain ⟨data, rest, -, -, -, -, rfl⟩ := Session.send_eq hsend
      rfl
  | sendDone =>
      simp only [complete] at h
      split at h <;> cases h
      rfl
  | sendFail ec =>
      simp only [complete] at h
      split at h <;> cases h
      rfl
  | recv bytes =>
      obtain ⟨s', hrecv, hr⟩ := Option.map_eq_some_iff.mp h
      obtain ⟨rest, hnone, -⟩ := Session.recv_eq hrecv
      rw [hreads] at hnone
      cases hnone
  | recvDone => simp [complete, hreads] at h
  | recvFail ec => simp [complete, hreads] at h

/-! ### The first thing the user is told -/

/-- The user is told of a session before anything else happens to it. -/
def Introduced (n : Server) (i : ℕ) : Prop :=
  i < n.sessions.length → .onConnect i ∈ n.trace ∨ ∃ c ∈ n.calls, c.begins i = true

theorem exec_introduced {prog : List Api} {next : Option ℕ} {c : Call} {new : List Call}
    (h : n.exec cfg prog next c = some (m, new)) :
    n.trace <+: m.trace ∧ m.sessions.length = n.sessions.length ∧
      (c.begins i = true → .onConnect i ∈ m.trace ∨ ∃ d ∈ new, d ≠ c ∧ d.begins i = true) := by
  have hlen := congrArg List.length (exec_addrs h)
  rw [addrs, addrs, List.length_map, List.length_map] at hlen
  refine ⟨?_, hlen, fun hc => ?_⟩
  · cases Exec.of_exec h <;> first | exact List.prefix_rfl | exact List.prefix_append _ _
  · cases Exec.of_exec h with
    | insert ho => exact .inr ⟨_, List.mem_singleton_self _, by simp, hc⟩
    | setError k => exact .inr ⟨_, List.mem_singleton_self _, by simp, hc⟩
    | setRead k => exact .inr ⟨_, List.mem_singleton_self _, by simp, hc⟩
    | connect k =>
        obtain rfl : k = i := by simpa [Call.begins] using hc
        exact .inl (List.mem_append_right _ (List.mem_singleton_self _))
    | _ => cases hc

theorem Introduced.step {b : ServerAct} (h : n.Introduced i) (hkept : n.Kept)
    (hstep : Step cfg n b n') : n'.Introduced i := by
  have hspawn : ∀ stack, .onConnect i ∈ n.trace ∨ (∃ c ∈ n.calls, c.begins i = true) →
      .onConnect i ∈ n.trace ∨ ∃ c ∈ n.calls ++ stack, c.begins i = true := by
    rintro stack (ht | ⟨c, hc, hb⟩)
    · exact .inl ht
    · exact .inr ⟨c, List.mem_append_left _ hc, hb⟩
  intro hi
  cases hstep with
  | call c =>
      rw [calls_spawn]
      exact hspawn _ (h hi)
  | arrive _ _ => exact h hi
  | acceptFail message _ =>
      rw [calls_spawn]
      exact hspawn _ (h hi)
  | @acceptDone a _ _ =>
      rw [calls_spawn]
      by_cases hlt : i < n.sessions.length
      · exact hspawn _ (h hlt)
      · have hlen : (n.sessions ++ [Obj.create a]).length = n.sessions.length + 1 := by simp
        have hi : i < (n.sessions ++ [Obj.create a]).length := hi
        refine .inr ⟨_, List.mem_append_right _ (List.mem_singleton_self _), beq_iff_eq.mpr ?_⟩
        omega
  | @io j io o s stack ho hc =>
      rw [calls_spawn]
      apply hspawn _ (h _)
      exact Nat.lt_of_lt_of_eq hi (List.length_modify ..)
  | @run t prog next c rest new m hstack hen hexec =>
      have hperm := calls_run new hstack (exec_threads hexec)
      rw [(hkept.exec hstack hexec).sweep] at hperm hi ⊢
      obtain ⟨htrace, hlen, hbegins⟩ := exec_introduced (i := i) hexec
      have hmem : ∀ d, d ≠ c → d ∈ new ++ n.calls →
          d ∈ calls { m with threads := m.threads.set t (new ++ rest) } := fun d hne hd =>
        (List.mem_cons.mp (hperm.mem_iff.mpr hd)).resolve_left hne
      rcases h (Nat.lt_of_lt_of_eq hi hlen) with ht | ⟨d, hd, hb⟩
      · exact .inl (htrace.subset ht)
      · by_cases hdc : d = c
        · subst hdc
          refine (hbegins hb).imp_right ?_
          rintro ⟨e, he, hne, hb⟩
          exact ⟨e, hmem e hne (List.mem_append_left _ he), hb⟩
        · exact .inr ⟨d, hmem d hdc (List.mem_append_right _ hd), hb⟩

theorem Introduced.of_run (h : Run (Server.step cfg) Anything create acts n) (i : ℕ) :
    n.Introduced i := by
  have hI := h.invariant (I := fun n => n.Kept ∧ n.Introduced i)
    ⟨fun j o ho => by simp [create] at ho, fun hi => absurd hi (Nat.not_lt_zero i)⟩
    fun _ _ _ hI _ hstep => ⟨hI.1.step (.of_step hstep), hI.2.step hI.1 (.of_step hstep)⟩
  exact hI.2

end Server

end AsioTcpFrame
