import DpdkLearning.VhostUser.Lemmas.Sound

/-!
This module contains where a step of either side of a ring leads to in its calls, and what it does to the
counters.
-/

open Lib

namespace VhostUser

/--
Where a step of the putting side leads to.
-/
inductive PutMove (call : PutCall) : PutPc → PutPc → Event → Prop where
  | refuse (buf : List UInt8) (h : call = .putVring buf) : PutMove call .idle .idle .refused
  | take (aIdx : UInt16) (destBuf : Nat) (buf : List UInt8) (h : call = .putVring buf)
    : PutMove call .idle (.copy aIdx destBuf buf) .quiet
  | copy (aIdx : UInt16) (destBuf : Nat) (buf : List UInt8)
    : PutMove call (.copy aIdx destBuf buf) (.describe aIdx buf) .quiet
  | describe (aIdx : UInt16) (buf : List UInt8) : PutMove call (.describe aIdx buf) (.offer aIdx buf) .quiet
  | offer (aIdx : UInt16) (buf : List UInt8) : PutMove call (.offer aIdx buf) (.publish aIdx buf) .quiet
  | publish (aIdx : UInt16) (buf : List UInt8) : PutMove call (.publish aIdx buf) .idle (.accepted aIdx buf)
  | begin (uIdx : UInt16) (h : call = .processUsedVring) : PutMove call .idle (.reclaim uIdx) .quiet
  | next (uIdx uIdx' : UInt16) : PutMove call (.reclaim uIdx) (.reclaim uIdx') .quiet
  | finish (uIdx : UInt16) : PutMove call (.reclaim uIdx) .idle .reclaimed

/--
Where a step of the taking side leads to.
-/
inductive GetMove : GetPc → GetPc → Event → Prop where
  | begin (aIdx : UInt16) : GetMove .idle (.scan aIdx 0) .quiet
  | take (aIdx : UInt16) (count : UInt32) (dIdx : UInt16)
    : GetMove (.scan aIdx count) (.chain aIdx count dIdx dIdx []) .quiet
  | next (aIdx : UInt16) (count : UInt32) (dIdx i i' : UInt16) (buf buf' : List UInt8)
    : GetMove (.chain aIdx count dIdx i buf) (.chain aIdx count dIdx i' buf') .quiet
  | copy (aIdx : UInt16) (count : UInt32) (dIdx i : UInt16) (buf buf' : List UInt8)
    : GetMove (.chain aIdx count dIdx i buf) (.record aIdx count dIdx buf') .quiet
  | drop (aIdx aIdx' : UInt16) (count : UInt32) (dIdx : UInt16)
    : GetMove (.record aIdx count dIdx []) (.scan aIdx' (count + 1)) .dropped
  | handle (aIdx aIdx' : UInt16) (count : UInt32) (dIdx : UInt16) (all : List UInt8) (size : UInt64)
    : GetMove (.record aIdx count dIdx all) (.scan aIdx' (count + 1)) (.handled dIdx (all.drop hdrLen) size)
  | stop (aIdx : UInt16) (count : UInt32) : GetMove (.scan aIdx count) (.finish count) .quiet
  | finish (count : UInt32) : GetMove (.finish count) .idle (.processed count)

variable {map : UInt64 → Option Nat} {v v' : VhostVring} {p p' : PutSide} {g g' : GetSide} {e : Event}
  {call : PutCall}

/-- What a step of the putting side does. The available index counts the packets that are accepted. -/
theorem putStep_cases (h : putStep map call v p = .ok (v', p', e))
    : PutMove call p.pc p'.pc e ∧ v'.usedIdx = v.usedIdx
      ∧ ((∀ aIdx buf, e ≠ .accepted aIdx buf) ∧ v'.availIdx = v.availIdx
        ∨ (∃ aIdx buf, p.pc = .publish aIdx buf ∧ e = .accepted aIdx buf) ∧ v'.availIdx = v.availIdx + 1)
      ∧ (p'.vring.lastUsedIdx = p.vring.lastUsedIdx ∨ e = .reclaimed) := by
  unfold putStep at h
  split at h
  . next hpc =>
    rw [hpc]
    split at h
    . next buf =>
      unfold putVring at h
      dsimp only at h
      split at h
      . contradiction
      . next hput =>
        cases h
        split at hput
        . split at hput
          . cases hput
            exact ⟨.refuse buf rfl, rfl, .inl ⟨nofun, rfl⟩, .inl rfl⟩
          . split at hput
            . contradiction
            . cases hput
              exact ⟨.take _ _ buf rfl, rfl, .inl ⟨nofun, rfl⟩, .inl rfl⟩
        . contradiction
    . cases h
      exact ⟨.begin _ rfl, rfl, .inl ⟨nofun, rfl⟩, .inl rfl⟩
  . next aIdx destBuf buf hpc =>
    cases h
    rw [hpc]
    exact ⟨.copy aIdx destBuf buf, rfl, .inl ⟨nofun, rfl⟩, .inl rfl⟩
  . next aIdx buf hpc =>
    cases h
    rw [hpc]
    exact ⟨.describe aIdx buf, rfl, .inl ⟨nofun, rfl⟩, .inl rfl⟩
  . next aIdx buf hpc =>
    rw [hpc]
    split at h
    . contradiction
    . cases h
      exact ⟨.offer aIdx buf, rfl, .inl ⟨nofun, rfl⟩, .inl rfl⟩
  . next aIdx buf hpc =>
    cases h
    rw [hpc]
    exact ⟨.publish aIdx buf, rfl, .inr ⟨⟨aIdx, buf, rfl, rfl⟩, rfl⟩, .inl rfl⟩
  . next uIdx hpc =>
    rw [hpc]
    split at h
    . split at h
      . split at h
        . contradiction
        . next hfree =>
          unfold freeVring at hfree
          dsimp only at hfree
          split at hfree
          . cases hfree
            split at h
            . contradiction
            . cases h
              exact ⟨.next _ _, rfl, .inl ⟨nofun, rfl⟩, .inl rfl⟩
          . contradiction
      . contradiction
    . cases h
      exact ⟨.finish _, rfl, .inl ⟨nofun, rfl⟩, .inr rfl⟩

/-- What a step of the taking side does. It only leaves its loop where it has counted all packets on offer. -/
theorem getStep_cases (h : getStep map v g = .ok (v', g', e))
    : GetMove g.pc g'.pc e ∧ v'.availIdx = v.availIdx
      ∧ ((∃ count, g'.pc = .finish count) → g'.vring.lastAvailIdx = v'.availIdx)
      ∧ ((∃ count, e = .processed count) → g'.vring = g.vring ∧ ∃ count, g.pc = .finish count) := by
  unfold getStep at h
  split at h
  . next hpc =>
    rw [hpc]
    split at h
    . contradiction
    . cases h
      exact ⟨.begin _, rfl, nofun, nofun⟩
  . next aIdx count hpc =>
    rw [hpc]
    split at h
    . next hend =>
      cases h
      exact ⟨.stop aIdx count, rfl, fun _ => hend, nofun⟩
    . split at h
      . cases h
        exact ⟨.take aIdx count _, rfl, nofun, nofun⟩
      . contradiction
  . next aIdx count dIdx i buf hpc =>
    rw [hpc]
    split at h
    . contradiction
    . cases h
      exact ⟨.next aIdx count dIdx i _ buf _, rfl, nofun, nofun⟩
    . cases h
      exact ⟨.copy aIdx count dIdx i buf _, rfl, nofun, nofun⟩
  . next aIdx count dIdx buf hpc =>
    rw [hpc]
    unfold processDescEnd at h
    split at h
    . contradiction
    . contradiction
    . dsimp only at h
      split at h
      . next hempty =>
        cases h
        rw [List.isEmpty_iff.mp hempty]
        exact ⟨.drop aIdx _ count dIdx, rfl, nofun, nofun⟩
      . cases h
        exact ⟨.handle aIdx _ count dIdx buf _, rfl, nofun, nofun⟩
  . next count hpc =>
    cases h
    rw [hpc]
    exact ⟨.finish count, rfl, nofun, fun _ => ⟨rfl, count, rfl⟩⟩

namespace PutMove

variable {pc pc' : PutPc}

theorem delivered (h : PutMove call pc pc' e) : Exchange.delivered e.seen = [] := by
  cases h with
  | publish => rfl
  | _ => rfl

theorem accepted (h : PutMove call pc pc' e) (hne : ∀ aIdx buf, e ≠ .accepted aIdx buf)
    : Exchange.accepted e.seen = [] := by
  cases h with
  | publish => exact absurd rfl (hne _ _)
  | _ => rfl

theorem ne_handled (h : PutMove call pc pc' e) (dIdx : UInt16) (buf : List UInt8) (size : UInt64)
    : e ≠ .handled dIdx buf size := by
  rintro rfl
  cases h

theorem ne_processed (h : PutMove call pc pc' e) (count : UInt32) : e ≠ .processed count := by
  rintro rfl
  cases h

end PutMove

namespace GetMove

variable {pc pc' : GetPc}

theorem accepted (h : GetMove pc pc' e) : Exchange.accepted e.seen = [] := by
  cases h with
  | drop => rfl
  | handle => rfl
  | _ => rfl

theorem ne_reclaimed (h : GetMove pc pc' e) : e ≠ .reclaimed := by
  rintro rfl
  cases h

theorem of_handled {dIdx : UInt16} {buf : List UInt8} {size : UInt64} (h : GetMove pc pc' (.handled dIdx buf size))
    : ∃ aIdx count all, pc = .record aIdx count dIdx all := by
  cases h with
  | handle aIdx _ count _ all => exact ⟨aIdx, count, all, rfl⟩

theorem of_processed {count : UInt32} (h : GetMove pc pc' (.processed count)) : pc' = .idle := by
  cases h with
  | finish => rfl

end GetMove

end VhostUser
