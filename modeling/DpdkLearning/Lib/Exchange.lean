import DpdkLearning.Lib.Machine
import Mathlib.Data.List.Perm.Basic

/-!
This module contains what a ring of slots is for: slots go round between a sender, who fills a free one and
offers it, and a receiver, who empties what is offered in order and hands the slots back.
-/

namespace Lib

/--
Where the slots are. `filling` is the one that the sender is filling, `emptied` are those that the receiver has
not yet handed back, `returned` those that it has and the sender has not yet put to the free ones.
-/
structure Exchange (ι π : Type) where
  free : List ι
  filling : Option (ι × π)
  offered : List (ι × π)
  emptied : List ι
  returned : List ι

namespace Exchange

variable {ι π : Type}

inductive Op (π : Type) where
  | take (p : π)
  | offer
  | deliver
  | lose
  | handBack
  | reclaim

/--
What is seen of a move from outside.
-/
inductive Seen (π : Type) where
  | accepted (p : π)
  | delivered (p : π)
  | lost

/--
An operation that has nothing to work on cannot be done.
-/
def step (s : Exchange ι π) : Op π → Except Unit (Exchange ι π × List (Seen π))
  | .take p =>
    match s.filling, s.free with
    | none, i :: free => .ok ({ s with free, filling := some (i, p) }, [])
    | _, _ => .error ()
  | .offer =>
    match s.filling with
    | some (i, p) => .ok ({ s with filling := none, offered := s.offered ++ [(i, p)] }, [.accepted p])
    | none => .error ()
  | .deliver =>
    match s.offered with
    | (i, p) :: offered => .ok ({ s with offered, emptied := s.emptied ++ [i] }, [.delivered p])
    | [] => .error ()
  | .lose =>
    match s.offered with
    | (i, _) :: offered => .ok ({ s with offered, emptied := s.emptied ++ [i] }, [.lost])
    | [] => .error ()
  | .handBack => .ok ({ s with emptied := [], returned := s.returned ++ s.emptied }, [])
  | .reclaim =>
    match s.returned with
    | i :: returned => .ok ({ s with free := i :: s.free, returned }, [])
    | [] => .error ()

def machine (ι π : Type) : Machine (Exchange ι π) (Op π) (List (Seen π)) Unit where
  step := step

/--
All slots are free, and nothing is under way.
-/
def fresh (free : List ι) : Exchange ι π where
  free
  filling := none
  offered := []
  emptied := []
  returned := []

/--
The slots, wherever they are.
-/
def slots (s : Exchange ι π) : List ι :=
  s.free ++ s.filling.toList.map Prod.fst ++ s.returned ++ s.emptied ++ s.offered.map Prod.fst

def accepted (seen : List (Seen π)) : List π :=
  seen.filterMap (fun | .accepted p => some p | _ => none)

def delivered (seen : List (Seen π)) : List π :=
  seen.filterMap (fun | .delivered p => some p | _ => none)

def lost (seen : List (Seen π)) : Nat :=
  seen.countP (fun | .lost => true | _ => false)

@[simp]
theorem accepted_append (l l' : List (Seen π)) : accepted (l ++ l') = accepted l ++ accepted l' := by
  apply List.filterMap_append

@[simp]
theorem delivered_append (l l' : List (Seen π)) : delivered (l ++ l') = delivered l ++ delivered l' := by
  apply List.filterMap_append

@[simp]
theorem lost_append (l l' : List (Seen π)) : lost (l ++ l') = lost l + lost l' := by
  apply List.countP_append

variable {s t : Exchange ι π} {op : Op π} {seen : List (Seen π)}

/-- What an operation needs, and what it does. -/
theorem step_cases (h : s.step op = .ok (t, seen))
    : (∃ p i free, op = .take p ∧ s.filling = none ∧ s.free = i :: free
        ∧ t = { s with free, filling := some (i, p) } ∧ seen = [])
      ∨ (∃ i p, op = .offer ∧ s.filling = some (i, p)
        ∧ t = { s with filling := none, offered := s.offered ++ [(i, p)] } ∧ seen = [.accepted p])
      ∨ (∃ i p offered o, s.offered = (i, p) :: offered
        ∧ t = { s with offered, emptied := s.emptied ++ [i] } ∧ seen = [o] ∧ (o = .delivered p ∨ o = .lost))
      ∨ (op = .handBack ∧ t = { s with emptied := [], returned := s.returned ++ s.emptied } ∧ seen = [])
      ∨ (∃ i returned, op = .reclaim ∧ s.returned = i :: returned
        ∧ t = { s with free := i :: s.free, returned } ∧ seen = []) := by
  cases op with
  | take p =>
    dsimp only [step] at h
    split at h
    . next i free hfilling hfree =>
      cases h
      exact .inl ⟨p, i, free, rfl, hfilling, hfree, rfl, rfl⟩
    . contradiction
  | offer =>
    dsimp only [step] at h
    split at h
    . next i p hfilling =>
      cases h
      exact .inr (.inl ⟨i, p, rfl, hfilling, rfl, rfl⟩)
    . contradiction
  | deliver =>
    dsimp only [step] at h
    split at h
    . next i p offered hoffered =>
      cases h
      exact .inr (.inr (.inl ⟨i, p, offered, .delivered p, hoffered, rfl, rfl, .inl rfl⟩))
    . contradiction
  | lose =>
    dsimp only [step] at h
    split at h
    . next i p offered hoffered =>
      cases h
      exact .inr (.inr (.inl ⟨i, p, offered, .lost, hoffered, rfl, rfl, .inr rfl⟩))
    . contradiction
  | handBack =>
    cases h
    exact .inr (.inr (.inr (.inl ⟨rfl, rfl, rfl⟩)))
  | reclaim =>
    dsimp only [step] at h
    split at h
    . next i returned hreturned =>
      cases h
      exact .inr (.inr (.inr (.inr ⟨i, returned, rfl, hreturned, rfl, rfl⟩)))
    . contradiction

/-- No operation loses a slot or makes one up. -/
theorem slots_perm_of_step (h : s.step op = .ok (t, seen)) : t.slots.Perm s.slots := by
  rcases step_cases h with ⟨p, i, free, _, hfilling, hfree, rfl, _⟩ | ⟨i, p, _, hfilling, rfl, _⟩
    | ⟨i, p, offered, _, hoffered, rfl, _, _⟩ | ⟨_, rfl, _⟩ | ⟨i, returned, _, hreturned, rfl, _⟩
  . simp only [slots, hfilling, hfree, Option.toList_some, Option.toList_none, List.map_cons, List.map_nil,
      List.append_nil, List.append_assoc]
    exact List.perm_middle
  . simp only [slots, hfilling, Option.toList_some, Option.toList_none, List.map_cons, List.map_nil,
      List.map_append, List.append_nil, List.append_assoc]
    apply List.Perm.append_left
    rw [← List.append_assoc, ← List.append_assoc, ← List.append_assoc s.returned]
    apply List.perm_append_comm
  . simp [slots, hoffered]
  . simp [slots]
  . simp only [slots, hreturned, List.append_assoc, List.cons_append]
    rw [← List.append_assoc s.free, ← List.append_assoc s.free]
    exact List.perm_middle.symm
/-- What has been accepted was delivered, was lost or is still offered: in order, and nothing else comes out. -/
theorem Run.delivered_sublist {tr : List (Edge (Exchange ι π) (Op π) (List (Seen π)))}
    (h : Machine.Run (machine ι π) s tr t) (h0 : s.offered = [])
    : (delivered (tr.flatMap Edge.out) ++ t.offered.map Prod.snd).Sublist (accepted (tr.flatMap Edge.out))
      ∧ (delivered (tr.flatMap Edge.out)).length + lost (tr.flatMap Edge.out) + t.offered.length
        = (accepted (tr.flatMap Edge.out)).length := by
  refine h.history (P := fun tr t =>
    (delivered (tr.flatMap Edge.out) ++ t.offered.map Prod.snd).Sublist (accepted (tr.flatMap Edge.out))
      ∧ (delivered (tr.flatMap Edge.out)).length + lost (tr.flatMap Edge.out) + t.offered.length
        = (accepted (tr.flatMap Edge.out)).length) (by simp [h0, delivered, accepted, lost]) ?_
  rintro tr t op seen u _ ⟨hsub, hlen⟩ hstep
  rw [List.flatMap_append, List.flatMap_singleton, delivered_append, accepted_append, lost_append]
  rcases step_cases hstep with ⟨p, i, free, _, _, _, rfl, rfl⟩ | ⟨i, p, _, _, rfl, rfl⟩
    | ⟨i, p, offered, o, hoffered, rfl, rfl, rfl | rfl⟩ | ⟨_, rfl, rfl⟩ | ⟨i, returned, _, _, rfl, rfl⟩
  . simpa [delivered, accepted, lost] using ⟨hsub, hlen⟩
  . constructor
    . simpa [delivered, accepted] using hsub.append_right [p]
    . simp [delivered, accepted, lost] at hlen ⊢
      omega
  . rw [hoffered] at hsub hlen
    constructor
    . simpa [delivered, accepted] using hsub
    . simp [delivered, accepted, lost] at hlen ⊢
      omega
  . rw [hoffered] at hsub hlen
    constructor
    . refine List.Sublist.trans ?_ (by simpa [delivered, accepted] using hsub)
      simp [delivered]
    . simp [delivered, accepted, lost] at hlen ⊢
      omega
  . simpa [delivered, accepted, lost] using ⟨hsub, hlen⟩
  . simpa [delivered, accepted, lost] using ⟨hsub, hlen⟩

/-- Where nothing was lost, the sublist is all of it. -/
theorem Run.delivered_eq {tr : List (Edge (Exchange ι π) (Op π) (List (Seen π)))}
    (h : Machine.Run (machine ι π) s tr t) (h0 : s.offered = []) (hlost : lost (tr.flatMap Edge.out) = 0)
    : delivered (tr.flatMap Edge.out) ++ t.offered.map Prod.snd = accepted (tr.flatMap Edge.out) := by
  rcases Run.delivered_sublist h h0 with ⟨hsub, hlen⟩
  apply hsub.eq_of_length
  rw [List.length_append, List.length_map]
  omega

end Exchange

end Lib
