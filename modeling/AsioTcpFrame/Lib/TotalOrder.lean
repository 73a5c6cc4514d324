import Mathlib.Data.List.Sort
import Mathlib.Logic.Function.Basic
import AsioTcpFrame.Lib.Transition

/-! # Broadcasts in one order

Receivers are given messages of their own, and broadcasts.  A broadcast is for the receivers that are
there when it begins (`post`); it reaches one after the other (`deliver`), and ends when none is left
(`finish`).  In between any receiver may be given a message of its own (`send`).

A `Board` keeps the broadcasts and what each receiver was given.  Only one broadcast is on its way at
a time (`Allowed`), and so in every run (`Steady`)

* each receiver of a broadcast that has ended was given it once, and nobody else was: `Steady.once`;
* two receivers were given two broadcasts in the same order: `Steady.agree`. -/

namespace TotalOrder

open Transition
open scoped List

/-- A broadcast. -/
structure Post (ι β : Type*) where
  receivers : List ι
  content : β
deriving DecidableEq, Repr

/-- `left` are the receivers that the last broadcast has still to reach, and its content, while it is
on its way.  A message of a broadcast carries its number. -/
structure Board (ι β : Type*) where
  posts : List (Post ι β)
  left : Option (List ι × β)
  inbox : ι → List (Option ℕ × β)

inductive Move (ι β : Type*) where
  | post (receivers : List ι) (content : β)
  | deliver (i : ι) (content : β)
  | finish
  | send (i : ι) (content : β)

theorem filter_number {β : Type*} {l : List (Option ℕ × β)} {k : ℕ} {content : β}
    (hnodup : (l.filterMap Prod.fst).Nodup) (hk : ∀ b, (some k, b) ∈ l → b = content) :
    l.filter (fun m => m.1 = some k) =
      if k ∈ l.filterMap Prod.fst then [(some k, content)] else [] := by
  induction l with
  | nil => rfl
  | cons m l ih =>
      obtain ⟨number, b⟩ := m
      have hk' : ∀ b, (some k, b) ∈ l → b = content := fun b hb => hk b (List.mem_cons_of_mem _ hb)
      cases number with
      | none =>
          have hskip : ((none, b) :: l).filterMap Prod.fst = l.filterMap Prod.fst := rfl
          rw [hskip] at hnodup ⊢
          simpa using ih hnodup hk'
      | some k' =>
          have hcons : ((some k', b) :: l).filterMap Prod.fst = k' :: l.filterMap Prod.fst := rfl
          rw [hcons, List.nodup_cons] at hnodup
          rw [hcons]
          by_cases hkk : k' = k
          · subst hkk
            obtain rfl := hk b List.mem_cons_self
            have hrest := ih hnodup.2 hk'
            rw [if_neg hnodup.1] at hrest
            simp [hrest]
          · have hmem : k ∈ k' :: l.filterMap Prod.fst ↔ k ∈ l.filterMap Prod.fst :=
              List.mem_cons.trans (or_iff_right fun h => hkk h.symm)
            have hhead : ((some k', b) :: l).filter (fun m => m.1 = some k) =
                l.filter (fun m => m.1 = some k) := List.filter_cons_of_neg (by simpa using hkk)
            rw [if_congr hmem rfl rfl, hhead]
            exact ih hnodup.2 hk'

namespace Board

variable {ι β : Type*} [DecidableEq ι] {B : Board ι β} {i j : ι} {k l : ℕ} {p : Post ι β}
  {receivers rest : List ι} {content : β}

def empty : Board ι β := ⟨[], none, fun _ => []⟩

/-- The receiver `i` is given a message. -/
def give (B : Board ι β) (i : ι) (m : Option ℕ × β) : Board ι β :=
  { B with inbox := Function.update B.inbox i (B.inbox i ++ [m]) }

def move (B : Board ι β) : Move ι β → Board ι β
  | .post receivers content =>
      { B with posts := B.posts ++ [⟨receivers, content⟩], left := some (receivers, content) }
  | .deliver i content =>
      { B.give i (some (B.posts.length - 1), content) with
        left := B.left.map fun c => (c.1.tail, c.2) }
  | .finish => { B with left := none }
  | .send i content => B.give i (none, content)

/-- One broadcast at a time. -/
def Allowed (B : Board ι β) : Move ι β → Prop
  | .post receivers _ => B.left = none ∧ receivers.Nodup
  | .deliver i content => ∃ rest, B.left = some (i :: rest, content)
  | .finish => ∃ content, B.left = some ([], content)
  | .send _ _ => True

/-- The numbers of the broadcasts that `i` was given, in order. -/
def order (B : Board ι β) (i : ι) : List ℕ := (B.inbox i).filterMap Prod.fst

/-- The broadcast `k` has still to reach `i`. -/
def Awaits (B : Board ι β) (k : ℕ) (i : ι) : Prop :=
  k + 1 = B.posts.length ∧ ∃ c ∈ B.left, i ∈ c.1

/-- What holds in every run. -/
structure Steady (B : Board ι β) : Prop where
  nodup : ∀ p ∈ B.posts, p.receivers.Nodup
  left : ∀ c ∈ B.left, ∃ posts p done, B.posts = posts ++ [p] ∧ p.receivers = done ++ c.1 ∧
    p.content = c.2
  given : ∀ i k content, (some k, content) ∈ B.inbox i → ∃ p, B.posts[k]? = some p ∧
    p.content = content ∧ i ∈ p.receivers
  increasing : ∀ i, (B.order i).Pairwise (· < ·)
  reached : ∀ k p, B.posts[k]? = some p → ∀ i ∈ p.receivers, (k ∈ B.order i ↔ ¬ B.Awaits k i)

theorem inbox_give (B : Board ι β) (i j : ι) (m : Option ℕ × β) :
    (B.give i m).inbox j = if j = i then B.inbox j ++ [m] else B.inbox j := by
  simp only [give, Function.update_apply]
  split
  · next h => rw [h]
  · rfl

theorem order_give (B : Board ι β) (i j : ι) (m : Option ℕ × β) :
    (B.give i m).order j = if j = i then B.order j ++ m.1.toList else B.order j := by
  simp only [order, inbox_give]
  split
  · rw [List.filterMap_append]
    obtain ⟨number, b⟩ := m
    cases number <;> rfl
  · rfl

omit [DecidableEq ι] in
theorem steady_empty : (empty : Board ι β).Steady where
  nodup p hp := by cases hp
  left c h := by cases h
  given i k content h := by cases h
  increasing i := .nil
  reached k p h := by cases h

omit [DecidableEq ι] in
theorem Steady.lt_of_mem (h : B.Steady) (hk : k ∈ B.order i) : k < B.posts.length := by
  obtain ⟨⟨number, content⟩, hm, hnumber⟩ := List.mem_filterMap.mp hk
  obtain rfl : number = some k := hnumber
  obtain ⟨p, hp, -⟩ := h.given i k content hm
  exact (List.getElem?_eq_some_iff.mp hp).1

omit [DecidableEq ι] in
theorem Steady.post (h : B.Steady) (hleft : B.left = none) (hnodup : receivers.Nodup)
    (content : β) : Steady ⟨B.posts ++ [⟨receivers, content⟩], some (receivers, content), B.inbox⟩ where
  nodup p hp := by
    rcases List.mem_append.mp hp with hp | hp
    · exact h.nodup p hp
    · rw [List.mem_singleton.mp hp]
      exact hnodup
  left c hc := by
    cases hc
    exact ⟨B.posts, _, [], rfl, rfl, rfl⟩
  given i k b hm := by
    obtain ⟨p, hp, hrest⟩ := h.given i k b hm
    refine ⟨p, ?_, hrest⟩
    rw [List.getElem?_append_left (List.getElem?_eq_some_iff.mp hp).1]
    exact hp
  increasing := h.increasing
  reached k p hp i hi := by
    have hlen : (B.posts ++ [(⟨receivers, content⟩ : Post ι β)]).length = B.posts.length + 1 :=
      List.length_append
    rw [List.getElem?_append] at hp
    split at hp
    · next hk =>
      have hold : k ∈ B.order i := (h.reached k p hp i hi).mpr fun ⟨_, c, hc, _⟩ => by
        rw [hleft] at hc
        cases hc
      refine ⟨fun _ hawaits => ?_, fun _ => hold⟩
      have hlast : k + 1 = (B.posts ++ [(⟨receivers, content⟩ : Post ι β)]).length := hawaits.1
      omega
    · next hk =>
      obtain ⟨hzero, rfl⟩ : k - B.posts.length = 0 ∧ ⟨receivers, content⟩ = p := by
        simpa [List.getElem?_singleton] using hp
      refine ⟨fun hmem => absurd (h.lt_of_mem hmem) hk, fun hawaits => absurd ?_ hawaits⟩
      exact ⟨by rw [hlen]; omega, _, rfl, hi⟩

theorem Steady.send (h : B.Steady) (i : ι) (content : β) : (B.give i (none, content)).Steady := by
  have horder : ∀ j, (B.give i (none, content)).order j = B.order j := by
    intro j
    rw [order_give]
    split
    · exact List.append_nil _
    · rfl
  refine ⟨h.nodup, h.left, fun j k b hm => ?_, fun j => by rw [horder]; exact h.increasing j,
    fun k p hp j hj => by rw [horder]; exact h.reached k p hp j hj⟩
  rw [inbox_give] at hm
  split at hm
  · exact h.given j k b ((List.mem_append.mp hm).resolve_right (by simp))
  · exact h.given j k b hm

omit [DecidableEq ι] in
/-- Only the last broadcast is awaited, by the receivers that are left. -/
theorem awaits_iff {posts : List (Post ι β)} (hposts : B.posts = posts ++ [p])
    (hleft : B.left = some (receivers, content)) :
    B.Awaits k i ↔ k = posts.length ∧ i ∈ receivers := by
  have hlen : B.posts.length = posts.length + 1 := by rw [hposts, List.length_append]; rfl
  constructor
  · rintro ⟨hk, c, hc, hi⟩
    cases hleft.symm.trans hc
    exact ⟨Nat.succ.inj (hk.trans hlen), hi⟩
  · rintro ⟨rfl, hi⟩
    exact ⟨hlen.symm, _, hleft, hi⟩

theorem Steady.deliver (h : B.Steady) (hleft : B.left = some (i :: rest, content)) :
    Steady { B.give i (some (B.posts.length - 1), content) with left := some (rest, content) } := by
  obtain ⟨posts, p, done, hposts, hdone, rfl⟩ := h.left _ hleft
  have hlen : B.posts.length = posts.length + 1 := by rw [hposts, List.length_append]; rfl
  have hlast : B.posts[posts.length]? = some p := by simp [hposts]
  have hi : i ∈ p.receivers := by rw [hdone]; exact List.mem_append_right _ List.mem_cons_self
  have hnodup : (i :: rest).Nodup :=
    (List.nodup_append.mp (hdone ▸ h.nodup p (by rw [hposts]; simp))).2.1
  have hnew : posts.length ∉ B.order i := fun hmem =>
    (h.reached _ _ hlast i hi).mp hmem ⟨hlen.symm, _, hleft, List.mem_cons_self⟩
  have horder : ∀ j, ({ B.give i (some (B.posts.length - 1), p.content) with
      left := some (rest, p.content) } : Board ι β).order j =
        if j = i then B.order j ++ [posts.length] else B.order j := by
    intro j
    have hnumber : B.posts.length - 1 = posts.length := by omega
    rw [← hnumber]
    exact order_give B i j _
  refine ⟨h.nodup, fun _ hc => ?_, fun j k b hm => ?_, fun j => ?_, fun k q hq j hj => ?_⟩
  · cases hc
    exact ⟨posts, p, done ++ [i], hposts, by rw [hdone, List.append_assoc]; rfl, rfl⟩
  · have hm' : (some k, b) ∈ if j = i then B.inbox j ++ [(some (B.posts.length - 1), p.content)]
        else B.inbox j := inbox_give B i j _ ▸ hm
    split at hm'
    · next hji =>
      rcases List.mem_append.mp hm' with hm' | hm'
      · exact h.given j k b hm'
      · cases List.mem_singleton.mp hm'
        refine ⟨p, ?_, rfl, hji ▸ hi⟩
        rw [hlen]
        exact hlast
    · exact h.given j k b hm'
  · rw [horder]
    split
    · next hji =>
      refine List.pairwise_append.mpr ⟨h.increasing j, List.pairwise_singleton _ _, ?_⟩
      intro k hk l hl
      obtain rfl := List.mem_singleton.mp hl
      have hne : k ≠ posts.length := fun heq => hnew (hji ▸ heq ▸ hk)
      have hlt := h.lt_of_mem hk
      omega
    · exact h.increasing j
  · have hold := h.reached k q hq j hj
    have hawaits : Awaits { B.give i (some (B.posts.length - 1), p.content) with
        left := some (rest, p.content) } k j ↔ k = posts.length ∧ j ∈ rest := awaits_iff hposts rfl
    rw [awaits_iff hposts hleft, List.mem_cons] at hold
    rw [horder, hawaits]
    by_cases hji : j = i
    · subst hji
      have hirest : j ∉ rest := (List.nodup_cons.mp hnodup).1
      rw [if_pos rfl, List.mem_append, List.mem_singleton, hold]
      by_cases hk : k = posts.length <;> simp [hk, hirest]
    · rw [if_neg hji, hold, or_iff_right hji]

theorem Steady.move (h : B.Steady) {m : Move ι β} (hm : B.Allowed m) : (B.move m).Steady := by
  cases m with
  | post receivers content => exact h.post hm.1 hm.2 content
  | deliver i content =>
      obtain ⟨rest, hleft⟩ := hm
      have hd := h.deliver hleft
      simp only [Board.move, hleft, Option.map_some, List.tail_cons]
      exact hd
  | finish =>
      obtain ⟨content, hleft⟩ := hm
      refine ⟨h.nodup, fun c hc => (nomatch hc), h.given, h.increasing,
        fun k p hp i hi => ?_⟩
      refine (h.reached k p hp i hi).trans (not_congr ⟨?_, ?_⟩)
      · rintro ⟨-, c, hc, hmem⟩
        cases hleft.symm.trans hc
        cases hmem
      · rintro ⟨-, c, hc, -⟩
        cases hc
  | send i content => exact h.send i content

/-- **In every run.** -/
theorem Steady.of_run {moves : List (Move ι β)}
    (h : Run (fun B m => some (Board.move B m)) Allowed empty moves B) : B.Steady :=
  h.invariant (I := Steady) steady_empty fun _ _ _ hI hG hs => Option.some.inj hs ▸ hI.move hG

omit [DecidableEq ι] in
theorem Steady.filter_inbox (h : B.Steady) (hp : B.posts[k]? = some p) (i : ι) :
    (B.inbox i).filter (fun m => m.1 = some k) =
      if k ∈ B.order i then [(some k, p.content)] else [] := by
  refine filter_number ((h.increasing i).imp fun hlt => Nat.ne_of_lt hlt) fun b hb => ?_
  obtain ⟨q, hq, hcontent, -⟩ := h.given i k b hb
  cases hp.symm.trans hq
  exact hcontent.symm

omit [DecidableEq ι] in
theorem Steady.not_mem_order (h : B.Steady) (hp : B.posts[k]? = some p) (hi : i ∉ p.receivers) :
    k ∉ B.order i := by
  intro hk
  obtain ⟨⟨number, content⟩, hm, hnumber⟩ := List.mem_filterMap.mp hk
  obtain rfl : number = some k := hnumber
  obtain ⟨q, hq, -, hmem⟩ := h.given i k content hm
  cases hp.symm.trans hq
  exact hi hmem

omit [DecidableEq ι] in
/-- **Once**: a broadcast that has ended was given to each of its receivers once, and to nobody
else. -/
theorem Steady.once (h : B.Steady) (hp : B.posts[k]? = some p)
    (hend : k + 1 < B.posts.length ∨ B.left = none) (i : ι) [Decidable (i ∈ p.receivers)] :
    (B.inbox i).filter (fun m => m.1 = some k) =
      if i ∈ p.receivers then [(some k, p.content)] else [] := by
  rw [h.filter_inbox hp i]
  by_cases hi : i ∈ p.receivers
  · rw [if_pos hi]
    refine if_pos ((h.reached k p hp i hi).mpr ?_)
    rintro ⟨hk, c, hc, -⟩
    rcases hend with hend | hend
    · omega
    · cases hend.symm.trans hc
  · rw [if_neg hi]
    exact if_neg (h.not_mem_order hp hi)

omit [DecidableEq ι] in
/-- **In one order**: two receivers were given any two broadcasts in the same order. -/
theorem Steady.agree (h : B.Steady) (hi : [k, l] <+ B.order i) (hk : k ∈ B.order j)
    (hl : l ∈ B.order j) : [k, l] <+ B.order j := by
  have hpair : [k, l].Pairwise (· < ·) := (h.increasing i).sublist hi
  have hlt : k < l := (List.pairwise_cons.mp hpair).1 l (List.mem_singleton.mpr rfl)
  have hnodup : [k, l].Nodup := by simpa using hlt.ne
  have hsub : [k, l] ⊆ B.order j := by
    intro x hx
    rcases List.mem_cons.mp hx with rfl | hx
    · exact hk
    · rw [List.mem_singleton.mp hx]; exact hl
  exact List.sublist_of_subperm_of_pairwise (List.subperm_of_subset hnodup hsub) hpair
    (h.increasing j)

/-! ### Threads that broadcast

Each thread may be in a broadcast: `u` is what it has still to do, one broadcast or none, before its
turn, and `u'` after it. -/

/-- The board after a move, if there is one. -/
def after (B : Board ι β) (m : Option (Move ι β)) : Board ι β := m.elim B B.move

/-- What `j` is given by a move. -/
def gets (j : ι) : Option (Move ι β) → List β
  | some (.deliver i content) | some (.send i content) => if j = i then [content] else []
  | _ => []

theorem contents_after (B : Board ι β) (m : Option (Move ι β)) (j : ι) :
    ((B.after m).inbox j).map Prod.snd = (B.inbox j).map Prod.snd ++ gets j m := by
  have hgive : ∀ i number content, ((B.give i (number, content)).inbox j).map Prod.snd =
      (B.inbox j).map Prod.snd ++ if j = i then [content] else [] := by
    intro i number content
    rw [inbox_give]
    split
    · exact List.map_append
    · exact (List.append_nil _).symm
  cases m with
  | none => exact (List.append_nil _).symm
  | some m =>
      cases m with
      | post receivers content => exact (List.append_nil _).symm
      | deliver i content => exact hgive i _ content
      | finish => exact (List.append_nil _).symm
      | send i content => exact hgive i _ content

/-- A broadcast that is on its way after a move begins with it, or was on its way before. -/
theorem left_after {m : Option (Move ι β)} {c : List ι × β} (h : c ∈ (B.after m).left) :
    (∃ receivers content, m = some (.post receivers content)) ∨
      (∃ d, B.left = some d) ∧ (B.after m).posts = B.posts := by
  cases m with
  | none => exact Or.inr ⟨⟨c, h⟩, rfl⟩
  | some m =>
      cases m with
      | post receivers content => exact Or.inl ⟨receivers, content, rfl⟩
      | deliver i content =>
          obtain ⟨d, hd, -⟩ := Option.map_eq_some_iff.mp h
          exact Or.inr ⟨⟨d, hd⟩, rfl⟩
      | finish => cases h
      | send i content => exact Or.inr ⟨⟨c, h⟩, rfl⟩

/-- What a thread may do in its turn. -/
inductive Turn : List (List ι × β) → Option (Move ι β) → List (List ι × β) → Prop
  | quiet (u : List (List ι × β)) : Turn u none u
  | send (i : ι) (content : β) : Turn [] (some (.send i content)) []
  | post (receivers : List ι) (content : β) :
      Turn [] (some (.post receivers content)) [(receivers, content)]
  | deliver (i : ι) (rest : List ι) (content : β) :
      Turn [(i :: rest, content)] (some (.deliver i content)) [(rest, content)]
  | finish (content : β) : Turn [([], content)] (some .finish) []

/-- **One turn.**  The threads together have to do what the board says is left. -/
theorem Turn.allowed {u u' all all' : List (List ι × β)} {m : Option (Move ι β)} (ht : Turn u m u')
    (hturn : u ++ all' ~ u' ++ all) (hleft : all ~ B.left.toList)
    (hpost : ∀ receivers content, m = some (.post receivers content) →
      all = [] ∧ receivers.Nodup) :
    (∀ x ∈ m, B.Allowed x) ∧ all' ~ (B.after m).left.toList := by
  have hone : ∀ c ∈ all, B.left = some c := by
    intro c hc
    have hmem := hleft.mem_iff.mp hc
    exact Option.mem_toList.mp hmem
  cases ht with
  | quiet u =>
      refine ⟨fun x hx => (nomatch hx), ?_⟩
      exact ((List.perm_append_left_iff u).mp hturn).trans hleft
  | send i content =>
      refine ⟨fun x hx => by cases hx; trivial, ?_⟩
      exact (show all' ~ all from hturn).trans hleft
  | post receivers content =>
      obtain ⟨rfl, hnodup⟩ := hpost receivers content rfl
      have hnone : B.left = none := by
        cases hB : B.left with
        | none => rfl
        | some c =>
            rw [hB] at hleft
            cases hleft.nil_eq
      refine ⟨fun x hx => by cases hx; exact ⟨hnone, hnodup⟩, ?_⟩
      exact hturn
  | deliver i rest content =>
      have hmem : (i :: rest, content) ∈ all := by
        refine (List.mem_cons.mp (hturn.mem_iff.mp List.mem_cons_self)).resolve_left fun heq => ?_
        have hlen := congrArg (fun c : List ι × β => c.1.length) heq
        simp at hlen
      have hB := hone _ hmem
      refine ⟨fun x hx => by cases hx; exact ⟨rest, hB⟩, ?_⟩
      rw [hB] at hleft
      have hswap : (i :: rest, content) :: all' ~ (i :: rest, content) :: [(rest, content)] :=
        (hturn.trans (hleft.cons _)).trans (List.Perm.swap ..)
      have hnew : (B.after (some (.deliver i content))).left = some (rest, content) := by
        simp only [after, Option.elim_some, move, hB, Option.map_some, List.tail_cons]
      rw [hnew]
      exact hswap.cons_inv
  | finish content =>
      have hB := hone _ (hturn.mem_iff.mp List.mem_cons_self)
      refine ⟨fun x hx => by cases hx; exact ⟨content, hB⟩, ?_⟩
      rw [hB] at hleft
      exact (hturn.trans hleft).cons_inv

end Board

end TotalOrder
