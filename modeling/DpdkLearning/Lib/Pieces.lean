import Mathlib.Data.List.Forall2
import Mathlib.Data.List.Nodup

/-!
This module contains a queue whose entries may be given out in pieces: what is left of an entry goes back
behind the others. Every entry has a number, the place at which it was put in, and the queue carries the
proof that the pieces given out for an entry and the piece left of it make up the entry.
-/

namespace Lib

variable {α : Type}

/--
The pieces of the entry `k`, put together.
-/
def ofEntry (k : Nat) (pieces : List (Nat × List α)) : List α :=
  (pieces.filter (fun p => p.1 == k)).flatMap Prod.snd

@[simp]
theorem ofEntry_nil (k : Nat) : ofEntry k ([] : List (Nat × List α)) = [] := by
  rfl

@[simp]
theorem ofEntry_cons (k : Nat) (p : Nat × List α) (pieces : List (Nat × List α))
    : ofEntry k (p :: pieces) = (if p.1 = k then p.2 else []) ++ ofEntry k pieces := by
  unfold ofEntry
  rw [List.filter_cons]
  split <;> simp_all

@[simp]
theorem ofEntry_append (k : Nat) (p q : List (Nat × List α))
    : ofEntry k (p ++ q) = ofEntry k p ++ ofEntry k q := by
  simp [ofEntry]

theorem ofEntry_eq_nil {k : Nat} {pieces : List (Nat × List α)} (h : k ∉ pieces.map Prod.fst)
    : ofEntry k pieces = [] := by
  have : pieces.filter (fun p => p.1 == k) = [] := by
    rw [List.filter_eq_nil_iff]
    intro p hp heq
    rw [beq_iff_eq] at heq
    apply h
    rw [← heq]
    exact List.mem_map_of_mem hp
  rw [ofEntry, this, List.flatMap_nil]

structure Pieces (α : Type) where
  entries : List (List α)
  queue : List (Nat × List α)
  given : List (Nat × List α)
  nodup : (queue.map Prod.fst).Nodup
  queued : ∀ k ∈ queue.map Prod.fst, k < entries.length
  handed : ∀ k ∈ given.map Prod.fst, k < entries.length
  whole : ∀ k (hk : k < entries.length), ofEntry k given ++ ofEntry k queue = entries[k]

namespace Pieces

def empty : Pieces α where
  entries := []
  queue := []
  given := []
  nodup := by simp
  queued := by simp
  handed := by simp
  whole := by simp

def put (q : Pieces α) (x : List α) : Pieces α where
  entries := q.entries ++ [x]
  queue := q.queue ++ [(q.entries.length, x)]
  given := q.given
  nodup := by
    rw [List.map_append, List.nodup_append]
    refine ⟨q.nodup, by simp, ?_⟩
    intro k hk l hl
    have := q.queued k hk
    simp only [List.map_cons, List.map_nil, List.mem_singleton] at hl
    omega
  queued := by
    intro k hk
    rw [List.map_append, List.mem_append] at hk
    rw [List.length_append, List.length_singleton]
    cases hk with
    | inl hk =>
      have := q.queued k hk
      omega
    | inr hk =>
      simp only [List.map_cons, List.map_nil, List.mem_singleton] at hk
      omega
  handed := by
    intro k hk
    have := q.handed k hk
    rw [List.length_append]
    omega
  whole := by
    intro k hk
    rw [List.length_append, List.length_singleton] at hk
    rw [ofEntry_append, ← List.append_assoc]
    by_cases hlast : k = q.entries.length
    . have hgiven : ofEntry k q.given = [] := by
        apply ofEntry_eq_nil
        intro hk
        have := q.handed k hk
        omega
      have hqueue : ofEntry k q.queue = [] := by
        apply ofEntry_eq_nil
        intro hk
        have := q.queued k hk
        omega
      subst hlast
      simp [hgiven, hqueue]
    . have hlt : k < q.entries.length := by omega
      rw [q.whole k hlt, List.getElem_append_left hlt]
      simp only [ofEntry_cons, ofEntry_nil]
      rw [if_neg (by omega)]
      simp

/--
What is left of the first entry after `n` of its elements.
-/
def rest (n : Nat) (p : Nat × List α) : List (Nat × List α) :=
  if n < p.2.length then [(p.1, p.2.drop n)] else []

theorem ofEntry_rest (k n : Nat) (p : Nat × List α)
    : (if p.1 = k then p.2.take n else []) ++ ofEntry k (rest n p)
        = if p.1 = k then p.2 else [] := by
  unfold rest
  split
  . next heq =>
    split
    . simp [heq]
    . next hlen => simp [List.take_of_length_le (Nat.le_of_not_lt hlen)]
  . next hne =>
    split <;> simp [hne]

theorem sublist_rest (n : Nat) (p : Nat × List α)
    : ((rest n p).map Prod.fst).Sublist [p.1] := by
  unfold rest
  split <;> simp

/--
Give out the first `n` elements of the first entry, or all of it.
-/
def take (q : Pieces α) (n : Nat) : Pieces α :=
  match h : q.queue with
  | [] => q
  | p :: ps => {
      entries := q.entries
      queue := ps ++ rest n p
      given := q.given ++ [(p.1, p.2.take n)]
      nodup := by
        have hnodup := q.nodup
        rw [h, List.map_cons] at hnodup
        rw [List.map_append]
        refine ((sublist_rest n p).append_left _).nodup ?_
        exact (List.perm_append_singleton p.1 _).nodup_iff.mpr hnodup
      queued := by
        intro k hk
        apply q.queued
        rw [List.map_append, List.mem_append] at hk
        rw [h, List.map_cons, List.mem_cons]
        cases hk with
        | inl hk => exact .inr hk
        | inr hk => exact .inl (List.mem_singleton.mp ((sublist_rest n p).subset hk))
      handed := by
        intro k hk
        rw [List.map_append, List.mem_append] at hk
        cases hk with
        | inl hk => exact q.handed k hk
        | inr hk =>
          apply q.queued
          rw [h, List.map_cons, List.mem_cons]
          exact .inl (by simpa using hk)
      whole := by
        intro k hk
        have hwhole := q.whole k hk
        have hnodup := q.nodup
        rw [h, List.map_cons, List.nodup_cons] at hnodup
        rw [h, ofEntry_cons] at hwhole
        rw [← hwhole, ← ofEntry_rest k n p]
        by_cases heq : p.1 = k
        . have : ofEntry k ps = [] := by
            apply ofEntry_eq_nil
            rw [← heq]
            exact hnodup.1
          simp [this]
        . have : ofEntry k (rest n p) = [] := by
            apply ofEntry_eq_nil
            intro hmem
            have := List.mem_singleton.mp ((sublist_rest n p).subset hmem)
            exact heq this.symm
          simp [this, heq] }

theorem take_of_queue {q : Pieces α} {p : Nat × List α} {ps : List (Nat × List α)}
    (h : q.queue = p :: ps) (n : Nat)
    : (q.take n).entries = q.entries ∧ (q.take n).queue = ps ++ rest n p
        ∧ (q.take n).given = q.given ++ [(p.1, p.2.take n)] := by
  unfold take
  split
  . next hnil =>
    rw [h] at hnil
    contradiction
  . next p' ps' hcons =>
    rw [h, List.cons.injEq] at hcons
    rcases hcons with ⟨rfl, rfl⟩
    exact ⟨rfl, rfl, rfl⟩

/-- An entry of which nothing is left has been given out whole. -/
theorem ofEntry_given {q : Pieces α} {k : Nat} {x : List α} (hx : q.entries[k]? = some x)
    (hdone : k ∉ q.queue.map Prod.fst) : ofEntry k q.given = x := by
  rw [List.getElem?_eq_some_iff] at hx
  rcases hx with ⟨hk, rfl⟩
  have := q.whole k hk
  rw [ofEntry_eq_nil hdone, List.append_nil] at this
  exact this

end Pieces

/--
The elements that stand where `pieces` has pieces of the entry `k`.
-/
def besideEntry {β : Type} (k : Nat) (pieces : List (Nat × List α)) (l : List β) : List β :=
  ((pieces.zip l).filter (fun p => p.1.1 == k)).map Prod.snd

theorem besideEntry_append {β : Type} (k : Nat) {p1 : List (Nat × List α)} {l1 : List β}
    (h : p1.length = l1.length) (p2 : List (Nat × List α)) (l2 : List β)
    : besideEntry k (p1 ++ p2) (l1 ++ l2) = besideEntry k p1 l1 ++ besideEntry k p2 l2 := by
  simp [besideEntry, List.zip_append h]

theorem of_mem_besideEntry {β : Type} {R : Nat × List α → β → Prop} {k : Nat}
    {pieces : List (Nat × List α)} {l : List β} {b : β} (h : List.Forall₂ R pieces l)
    (hb : b ∈ besideEntry k pieces l) : ∃ p, p.1 = k ∧ R p b := by
  unfold besideEntry at hb
  rw [List.mem_map] at hb
  rcases hb with ⟨⟨p, b'⟩, hmem, rfl⟩
  rw [List.mem_filter, beq_iff_eq] at hmem
  exact ⟨p, hmem.2, (List.forall₂_iff_zip.mp h).2 hmem.1⟩

/-- Something stands beside every piece. -/
theorem besideEntry_eq_nil_iff {β : Type} {k : Nat} {pieces : List (Nat × List α)} {l : List β}
    (h : pieces.length = l.length) : besideEntry k pieces l = [] ↔ k ∉ pieces.map Prod.fst := by
  have hmem : pieces.map Prod.fst = (pieces.zip l).map (fun p => p.1.1) := by
    conv_lhs => rw [← List.map_fst_zip (Nat.le_of_eq h), List.map_map]
    rfl
  rw [besideEntry, List.map_eq_nil_iff, List.filter_eq_nil_iff, hmem]
  simp only [beq_iff_eq, List.mem_map, not_exists, not_and]

/--
A list agrees with what is known of it.
-/
def Agrees (known : List (Option α)) (l : List α) : Prop :=
  List.Forall₂ (fun o x => o = none ∨ o = some x) known l

namespace Agrees

variable {known known' : List (Option α)} {l l' : List α}

theorem length_eq (h : Agrees known l) : known.length = l.length :=
  List.Forall₂.length_eq h

theorem append (h : Agrees known l) (h' : Agrees known' l') : Agrees (known ++ known') (l ++ l') :=
  List.rel_append h h'

theorem take (h : Agrees known l) (n : Nat) : Agrees (known.take n) (l.take n) :=
  List.forall₂_take n h

theorem drop (h : Agrees known l) (n : Nat) : Agrees (known.drop n) (l.drop n) :=
  List.forall₂_drop n h

@[simp]
theorem map_some_iff (x l : List α) : Agrees (x.map some) l ↔ x = l := by
  rw [Agrees, List.forall₂_map_left_iff]
  simp only [reduceCtorEq, Option.some.injEq, false_or]
  rw [List.forall₂_eq_eq_eq]

theorem replicate_none (l : List α) : Agrees (List.replicate l.length none) l := by
  induction l with
  | nil => exact .nil
  | cons x l ih => exact .cons (.inl rfl) ih

/-- If what stands beside a piece agrees with it, so does what stands beside an entry, put together. -/
theorem besideEntry {β : Type} {f : β → List α} {pieces : List (Nat × List (Option α))} {bs : List β}
    (h : List.Forall₂ (fun p b => Agrees p.2 (f b)) pieces bs) (k : Nat)
    : Agrees (ofEntry k pieces) ((Lib.besideEntry k pieces bs).flatMap f) := by
  induction h with
  | nil => exact .nil
  | @cons p b pieces bs hfirst _ ih =>
    rw [ofEntry_cons]
    by_cases heq : p.1 = k
    . simpa [Lib.besideEntry, heq] using hfirst.append ih
    . simpa [Lib.besideEntry, heq] using ih

/-- What is known comes first. -/
theorem eq_take {x : List α} {n : Nat} (h : Agrees (x.map some ++ List.replicate n none) l)
    : l.length = x.length + n ∧ l.take x.length = x := by
  have hlen := h.length_eq
  have htake := h.take x.length
  rw [← List.length_map (f := some), List.take_left, List.length_map, map_some_iff] at htake
  simp only [List.length_append, List.length_map, List.length_replicate] at hlen
  exact ⟨hlen.symm, htake.symm⟩

end Agrees

end Lib
