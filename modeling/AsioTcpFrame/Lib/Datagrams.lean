import Mathlib.Data.List.Perm.Subperm
import Mathlib.Tactic.Common

/-! # An unreliable datagram service

Packets are handed over one by one and arrive in any order.  On the way a packet may be lost or
duplicated, but it is not changed, and none is made up.  A `Service` keeps the account of all of them:
what is on the wire, lost or has arrived is what was sent and what was duplicated (`Accounted`).  The
two consequences are about any `f` that picks the packets of interest: what arrives is no more than was
sent (`Accounted.subperm`), and it is all of it when nothing was lost and nothing is on the wire
(`Accounted.perm`). -/

namespace Datagrams

open scoped List

variable {π β : Type*}

structure Service (π : Type*) where
  sent : List π
  wire : List π
  lost : List π
  duplicated : List π
  arrived : List π

def Service.empty : Service π := ⟨[], [], [], [], []⟩

/-- A packet is handed over; it is refused; one on the wire is lost, duplicated, or arrives. -/
inductive Act (π : Type*) where
  | send (p : π)
  | refuse (p : π)
  | lose (p : π)
  | duplicate (p : π)
  | arrive (p : π)
deriving DecidableEq

/-- What is handed over by an action. -/
def Act.given : Act π → List π
  | .send p | .refuse p => [p]
  | _ => []

/-- What arrives by an action. -/
def Act.taken : Act π → List π
  | .arrive p => [p]
  | _ => []

namespace Service

/-- Every packet is accounted for, and what is duplicated was sent. -/
structure Accounted (s : Service π) : Prop where
  balance : s.wire ++ (s.lost ++ s.arrived) ~ s.sent ++ s.duplicated
  genuine : ∀ p ∈ s.duplicated, p ∈ s.sent

theorem accounted_empty : (empty : Service π).Accounted := ⟨.refl _, fun _ hp => hp⟩

variable {s s' : Service π} {p : π} {f : π → Option β}

theorem Accounted.mem_sent (h : s.Accounted) (hp : p ∈ s.wire ++ (s.lost ++ s.arrived)) :
    p ∈ s.sent := by
  rcases List.mem_append.mp (h.balance.mem_iff.mp hp) with hp | hp
  · exact hp
  · exact h.genuine p hp

theorem Accounted.picked (h : s.Accounted) (hdup : ∀ p ∈ s.duplicated, f p = none) :
    s.wire.filterMap f ++ (s.lost.filterMap f ++ s.arrived.filterMap f) ~ s.sent.filterMap f := by
  have hnil : s.duplicated.filterMap f = [] := List.filterMap_eq_nil_iff.mpr hdup
  have hpick := h.balance.filterMap f
  rwa [List.filterMap_append, List.filterMap_append, List.filterMap_append, hnil,
    List.append_nil] at hpick

/-- **No more arrives than was sent.** -/
theorem Accounted.subperm (h : s.Accounted) (hdup : ∀ p ∈ s.duplicated, f p = none) :
    s.arrived.filterMap f <+~ s.sent.filterMap f := by
  have hsub : s.arrived.filterMap f <+
      s.wire.filterMap f ++ (s.lost.filterMap f ++ s.arrived.filterMap f) :=
    (List.sublist_append_right _ _).trans (List.sublist_append_right _ _)
  exact hsub.subperm.trans (h.picked hdup).subperm

/-- **All of it arrives** that is not lost or on the wire. -/
theorem Accounted.perm (h : s.Accounted) (hdup : ∀ p ∈ s.duplicated, f p = none)
    (hlost : ∀ p ∈ s.lost, f p = none) (hwire : ∀ p ∈ s.wire, f p = none) :
    s.arrived.filterMap f ~ s.sent.filterMap f := by
  have hpick := h.picked hdup
  rwa [List.filterMap_eq_nil_iff.mpr hlost, List.filterMap_eq_nil_iff.mpr hwire, List.nil_append,
    List.nil_append] at hpick

variable [DecidableEq π]

def step (s : Service π) : Act π → Option (Service π)
  | .send p => some { s with sent := s.sent ++ [p], wire := s.wire ++ [p] }
  | .refuse p => some { s with sent := s.sent ++ [p], lost := s.lost ++ [p] }
  | .lose p =>
      if p ∈ s.wire then some { s with wire := s.wire.erase p, lost := s.lost ++ [p] } else none
  | .duplicate p =>
      if p ∈ s.wire then some { s with wire := s.wire ++ [p], duplicated := s.duplicated ++ [p] }
      else none
  | .arrive p =>
      if p ∈ s.wire then some { s with wire := s.wire.erase p, arrived := s.arrived ++ [p] } else none

theorem step_ends {a : Act π} (hs : s.step a = some s') :
    s'.sent = s.sent ++ a.given ∧ s'.arrived = s.arrived ++ a.taken := by
  cases a with
  | send p => cases hs; exact ⟨rfl, (List.append_nil _).symm⟩
  | refuse p => cases hs; exact ⟨rfl, (List.append_nil _).symm⟩
  | lose p =>
      obtain ⟨-, ⟨⟩⟩ := Option.ite_none_right_eq_some.mp hs
      exact ⟨(List.append_nil _).symm, (List.append_nil _).symm⟩
  | duplicate p =>
      obtain ⟨-, ⟨⟩⟩ := Option.ite_none_right_eq_some.mp hs
      exact ⟨(List.append_nil _).symm, (List.append_nil _).symm⟩
  | arrive p =>
      obtain ⟨-, ⟨⟩⟩ := Option.ite_none_right_eq_some.mp hs
      exact ⟨(List.append_nil _).symm, rfl⟩

/-- A packet that leaves the wire is accounted for elsewhere. -/
theorem perm_moved (hp : p ∈ s.wire) (rest : List π) :
    s.wire.erase p ++ (p :: rest) ~ s.wire ++ rest :=
  calc s.wire.erase p ++ (p :: rest)
      _ ~ p :: (s.wire.erase p ++ rest) := List.perm_middle
      _ ~ s.wire ++ rest := ((List.perm_cons_erase hp).symm.append_right rest)

theorem Accounted.step {a : Act π} (h : s.Accounted) (hs : s.step a = some s') : s'.Accounted := by
  cases a with
  | send p =>
      cases hs
      refine ⟨?_, fun q hq => List.mem_append_left _ (h.genuine q hq)⟩
      have hcons : p :: (s.wire ++ (s.lost ++ s.arrived)) ~ p :: (s.sent ++ s.duplicated) :=
        h.balance.cons p
      simp only [List.append_assoc, List.singleton_append]
      exact (List.perm_middle.trans hcons).trans List.perm_middle.symm
  | refuse p =>
      cases hs
      refine ⟨?_, fun q hq => List.mem_append_left _ (h.genuine q hq)⟩
      have hcons : p :: (s.wire ++ (s.lost ++ s.arrived)) ~ p :: (s.sent ++ s.duplicated) :=
        h.balance.cons p
      have hleft : s.wire ++ (s.lost ++ p :: s.arrived) ~ p :: (s.wire ++ (s.lost ++ s.arrived)) :=
        (List.perm_middle.append_left s.wire).trans List.perm_middle
      simp only [List.append_assoc, List.singleton_append]
      exact (hleft.trans hcons).trans List.perm_middle.symm
  | lose p =>
      rw [Service.step] at hs
      split at hs
      · next hp =>
        cases hs
        refine ⟨?_, h.genuine⟩
        have hmid : s.lost ++ (p :: s.arrived) ~ p :: (s.lost ++ s.arrived) := List.perm_middle
        simp only [List.append_assoc, List.singleton_append]
        exact ((hmid.append_left _).trans (perm_moved hp _)).trans h.balance
      · cases hs
  | duplicate p =>
      rw [Service.step] at hs
      split at hs
      · next hp =>
        cases hs
        have hsent : p ∈ s.sent := h.mem_sent (List.mem_append_left _ hp)
        constructor
        · have hcons : p :: (s.wire ++ (s.lost ++ s.arrived)) ~ p :: (s.sent ++ s.duplicated) :=
            h.balance.cons p
          have hright : s.sent ++ (s.duplicated ++ [p]) ~ p :: (s.sent ++ s.duplicated) := by
            rw [← List.append_assoc]
            exact List.perm_append_singleton p _
          simp only [List.append_assoc, List.singleton_append]
          exact (List.perm_middle.trans hcons).trans hright.symm
        · intro q hq
          rcases List.mem_append.mp hq with hq | hq
          · exact h.genuine q hq
          · rw [List.mem_singleton.mp hq]
            exact hsent
      · cases hs
  | arrive p =>
      rw [Service.step] at hs
      split at hs
      · next hp =>
        cases hs
        refine ⟨?_, h.genuine⟩
        have hmid : s.lost ++ (s.arrived ++ [p]) ~ p :: (s.lost ++ s.arrived) := by
          rw [← List.append_assoc]
          exact List.perm_append_singleton p _
        exact ((hmid.append_left _).trans (perm_moved hp _)).trans h.balance
      · cases hs

end Service

end Datagrams
