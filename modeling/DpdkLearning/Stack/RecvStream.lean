import DpdkLearning.Stack.Lemmas.Nrecv
import Mathlib.Algebra.Order.Ring.Int

/-!
This module contains the byte stream a sequence of `nrecv` calls reports. The fragments of the receive
buffer are seen as a queue of byte lists, of which every call takes the first one or a part of it.
-/

open Lib

namespace NgStack

structure RecvCall where
  len : Nat
  buf : Nat → UInt8

/--
The bytes that a sequence of calls reports, and the state it leaves. A call on an empty receive buffer
does not come back, so it is the last one.
-/
def nrecvRun (s : Stack) (sockfd : Int) : List RecvCall → List UInt8 × Stack
  | [] => ([], s)
  | c :: cs =>
    match nrecv s sockfd c.buf c.len with
    | .error _ => ([], s)
    | .ok (ret, buf, s) =>
      let (out, s) := nrecvRun s sockfd cs
      ((List.range ret.toNat).map buf ++ out, s)

/--
What a call reports of a fragment it does not read to the end: as many bytes as it leaves behind.
-/
def splitChunk (d : List UInt8) (c : RecvCall) : List UInt8 :=
  (List.range (d.length - c.len)).map (fun i => if i < c.len then d.getD i 0 else c.buf i)

def readRun : List (List UInt8) → List RecvCall → List UInt8 × List (List UInt8)
  | q, [] => ([], q)
  | [], _ :: _ => ([], [])
  | d :: q, c :: cs =>
    if c.len < d.length then
      let (out, rest) := readRun (q ++ [d.drop c.len]) cs
      (splitChunk d c ++ out, rest)
    else
      let (out, rest) := readRun q cs
      (d ++ out, rest)

theorem map_rteMemcpy_split {f : NgTcpFragment} (hf : f.Stored) {c : RecvCall}
    (hlt : c.len < f.length.toNat)
    : (List.range (f.length.toNat - c.len)).map (rteMemcpy c.buf (f.data.getD []) c.len)
        = splitChunk f.bytes c := by
  unfold splitChunk
  rw [NgTcpFragment.length_bytes hf]
  apply List.map_congr_left
  intro i _
  unfold rteMemcpy NgTcpFragment.bytes
  split
  . rw [List.getD_eq_getElem?_getD, List.getD_eq_getElem?_getD, List.getElem?_take, if_pos (by omega)]
  . rfl

theorem map_rteMemcpy_whole {f : NgTcpFragment} (hf : f.Stored) (buf : Nat → UInt8)
    : (List.range f.length.toNat).map (rteMemcpy buf (f.data.getD []) f.length.toNat)
        = f.bytes := by
  unfold NgTcpFragment.Stored at hf
  apply List.ext_getElem
  . simp [NgTcpFragment.bytes, hf]
  . intro i h1 h2
    simp only [List.length_map, List.length_range] at h1
    simp only [List.getElem_map, List.getElem_range, rteMemcpy, h1, ↓reduceIte,
      NgTcpFragment.bytes, List.getElem_take]
    rw [List.getD_eq_getElem?_getD, List.getElem?_eq_getElem (by omega)]
    rfl

/-- The calls do with the fragments what `readRun` does with their bytes. -/
theorem nrecvRun_eq_readRun {s : Stack} {sockfd : Int} {frs : List NgTcpFragment}
    {calls : List RecvCall} (h : Waiting s sockfd frs)
    (hfrs : ∀ f ∈ frs, f.Stored ∧ 0 < f.length.toNat) (hcalls : ∀ c ∈ calls, 0 < c.len)
    : ∃ s' frs',
        nrecvRun s sockfd calls = ((readRun (frs.map NgTcpFragment.bytes) calls).1, s')
          ∧ Waiting s' sockfd frs'
          ∧ frs'.map NgTcpFragment.bytes = (readRun (frs.map NgTcpFragment.bytes) calls).2 := by
  -- The first call blocks, splits the fragment at the head or takes it whole.
  induction calls generalizing s frs with
  | nil => exact ⟨s, frs, by simp [nrecvRun, readRun], h, by simp [readRun]⟩
  | cons c cs ih =>
    rw [List.forall_mem_cons] at hcalls
    cases frs with
    | nil =>
      have hblocked := nrecv_blocked h c.buf c.len
      exact ⟨s, [], by simp [nrecvRun, readRun, hblocked], h, by simp [readRun]⟩
    | cons f frs =>
      rw [List.forall_mem_cons] at hfrs
      rcases hfrs with ⟨⟨hf, hpos⟩, hfrs⟩
      have hlen := NgTcpFragment.length_bytes hf
      by_cases hlt : c.len < f.length.toNat
      . rcases nrecv_split h hf c.buf hlt with ⟨t, hrecv, ht⟩
        have hrest : ∀ g ∈ frs ++ [f.rest c.len], g.Stored ∧ 0 < g.length.toNat := by
          intro g hg
          rw [List.mem_append, List.mem_singleton] at hg
          cases hg with
          | inl hg => exact hfrs g hg
          | inr hg =>
            subst hg
            have := f.toNat_length_rest c.len
            exact ⟨NgTcpFragment.stored_rest hf c.len, by omega⟩
        rcases ih ht hrest hcalls.2 with ⟨s', frs', hrun, hs', hbytes⟩
        rw [List.map_append, List.map_singleton, NgTcpFragment.bytes_rest hf hcalls.1 hlt]
          at hrun hbytes
        refine ⟨s', frs', ?_, hs', ?_⟩
        . have hchunk := map_rteMemcpy_split hf hlt
          simp only [nrecvRun, hrecv, hrun, Int.toNat_natCast, hchunk, List.map_cons, readRun, hlen,
            hlt, ↓reduceIte]
        . simp only [List.map_cons, readRun, hlen, hlt, ↓reduceIte, hbytes]
      . rcases nrecv_whole h hf hpos c.buf (Nat.not_lt.mp hlt) with ⟨t, hrecv, ht⟩
        rcases ih ht hfrs hcalls.2 with ⟨s', frs', hrun, hs', hbytes⟩
        refine ⟨s', frs', ?_, hs', ?_⟩
        . have hchunk := map_rteMemcpy_whole hf c.buf
          simp only [nrecvRun, hrecv, hrun, Int.toNat_natCast, hchunk, List.map_cons, readRun, hlen,
            hlt, ↓reduceIte]
        . simp only [List.map_cons, readRun, hlen, hlt, ↓reduceIte, hbytes]

/--
What was reported is a prefix of the bytes that were queued, and all of them once the queue is empty.
-/
def Delivers (q : List (List UInt8)) (calls : List RecvCall) : Prop :=
  (readRun q calls).1 <+: q.flatten
    ∧ ((readRun q calls).2 = [] → (readRun q calls).1 = q.flatten)

/--
The fragment sizes and read sizes for which no byte is lost, repeated or reordered. Either every call
gets room for the fragment at the head of the queue; or a call gets too little room, but for at least
half of that fragment, and is the last call; or it gets room for exactly half of the last fragment
there is.
-/
def ReadsExact : List Nat → List Nat → Prop
  | _, [] => True
  | [], _ :: _ => True
  | n :: ns, l :: ls =>
    if n ≤ l then
      ReadsExact ns ls
    else
      n ≤ 2 * l ∧ (ls = [] ∨ (ns = [] ∧ n = 2 * l ∧ ReadsExact [l] ls))

theorem splitChunk_eq_take {d : List UInt8} {c : RecvCall} (hlt : c.len < d.length)
    (hhalf : d.length ≤ 2 * c.len) : splitChunk d c = d.take (d.length - c.len) := by
  apply List.ext_getElem
  . simp [splitChunk]
  . intro i h1 h2
    simp only [splitChunk, List.length_map, List.length_range] at h1
    simp only [splitChunk, List.getElem_map, List.getElem_range, List.getElem_take]
    rw [if_pos (by omega), List.getD_eq_getElem?_getD, List.getElem?_eq_getElem (by omega)]
    rfl

theorem delivers_whole_iff {d : List UInt8} {q : List (List UInt8)} {c : RecvCall}
    {cs : List RecvCall} (hle : d.length ≤ c.len) : Delivers (d :: q) (c :: cs) ↔ Delivers q cs := by
  simp only [Delivers, readRun, Nat.not_lt.mpr hle, ↓reduceIte, List.flatten_cons,
    List.prefix_append_right_inj, List.append_cancel_left_eq]

theorem delivers_half_iff {d : List UInt8} {c : RecvCall} {cs : List RecvCall}
    (hlt : c.len < d.length) (hsize : d.length = 2 * c.len)
    : Delivers [d] (c :: cs) ↔ Delivers [d.drop c.len] cs := by
  have hchunk : splitChunk d c = d.take c.len := by
    rw [splitChunk_eq_take hlt (by omega), show d.length - c.len = c.len by omega]
  have hsplit : [d].flatten = d.take c.len ++ [d.drop c.len].flatten := by simp
  simp only [Delivers, readRun, hlt, ↓reduceIte, List.nil_append, hchunk, hsplit,
    List.prefix_append_right_inj, List.append_cancel_left_eq]

theorem delivers_of_readsExact {q : List (List UInt8)} {calls : List RecvCall}
    (h : ReadsExact (q.map List.length) (calls.map RecvCall.len)) : Delivers q calls := by
  induction calls generalizing q with
  | nil =>
    constructor
    . simp [readRun]
    . intro hrest
      simp only [readRun] at hrest ⊢
      rw [hrest, List.flatten_nil]
  | cons c cs ih =>
    cases q with
    | nil => simp [Delivers, readRun]
    | cons d q =>
      simp only [List.map_cons, ReadsExact] at h
      by_cases hle : d.length ≤ c.len
      . rw [if_pos hle] at h
        rw [delivers_whole_iff hle]
        exact ih h
      . rw [if_neg hle] at h
        have hlt : c.len < d.length := Nat.not_le.mp hle
        rcases h with ⟨hhalf, hend | ⟨hq, hsize, hnext⟩⟩
        -- The last call: what it leaves behind stays in the queue.
        . rw [List.map_eq_nil_iff] at hend
          subst hend
          simp only [Delivers, readRun, hlt, ↓reduceIte, List.append_nil, List.flatten_cons,
            splitChunk_eq_take hlt hhalf]
          constructor
          . exact List.IsPrefix.trans (List.take_prefix _ _) (List.prefix_append _ _)
          . intro hrest
            simp at hrest
        -- The last fragment: its second half is alone in the queue.
        . rw [List.map_eq_nil_iff] at hq
          subst hq
          rw [delivers_half_iff hlt hsize]
          apply ih
          rw [List.map_singleton, List.length_drop, show d.length - c.len = c.len by omega]
          exact hnext

theorem head?_readRun {d : List UInt8} (q : List (List UInt8)) {c : RecvCall} (cs : List RecvCall)
    (hd : d ≠ []) (hc : 0 < c.len) : (readRun (d :: q) (c :: cs)).1.head? = d.head? := by
  cases d with
  | nil => contradiction
  | cons x d =>
    simp only [readRun]
    split
    . next hlt =>
      have : (splitChunk (x :: d) c).head? = some x := by
        rw [List.head?_eq_getElem?, splitChunk, List.getElem?_map, List.getElem?_range (by omega)]
        simp [hc]
      rw [List.head?_append, this]
      rfl
    . rfl

/-- More than half of a fragment is reported: the report runs into bytes nobody wrote. -/
theorem not_delivers_of_stale {n l : Nat} (ns ls : List Nat) (hlt : 2 * l < n)
    : ¬Delivers (List.replicate n 0 :: ns.map (List.replicate · 0))
        (⟨l, fun _ => 1⟩ :: ls.map (⟨·, fun _ => 0⟩)) := by
  intro h
  have hpre := h.1
  simp only [readRun, List.length_replicate, show l < n by omega, ↓reduceIte] at hpre
  have hmem : (1 : UInt8) ∈ splitChunk (List.replicate n 0) ⟨l, fun _ => 1⟩ := by
    simp only [splitChunk, List.length_replicate, List.mem_map, List.mem_range]
    exact ⟨l, by omega, by simp⟩
  have hzero : ∀ x ∈ (List.replicate n 0 :: ns.map (List.replicate · (0 : UInt8))).flatten,
      x = 0 := by
    intro x hx
    rw [← List.map_cons (f := (List.replicate · (0 : UInt8))), List.mem_flatten] at hx
    rcases hx with ⟨d, hd, hx⟩
    rw [List.mem_map] at hd
    rcases hd with ⟨k, _, rfl⟩
    exact List.eq_of_mem_replicate hx
  have := hzero 1 (hpre.subset (List.mem_append_left _ hmem))
  contradiction

/--
The next call reports the first byte of the next fragment, but the first byte that was not reported
yet is `d[d.length - l]`.
-/
theorem not_delivers_of_skip {d : List UInt8} {q : List (List UInt8)} {c c' : RecvCall}
    {cs : List RecvCall} (hlt : c.len < d.length) (hhalf : d.length ≤ 2 * c.len) (hc : 0 < c'.len)
    {e : List UInt8} {q' : List (List UInt8)} (hnext : q ++ [d.drop c.len] = e :: q') (he : e ≠ [])
    (hbyte : e.head? ≠ d[d.length - c.len]?) : ¬Delivers (d :: q) (c :: c' :: cs) := by
  intro h
  have hpre := h.1
  rw [readRun] at hpre
  simp only [hlt, ↓reduceIte, hnext, splitChunk_eq_take hlt hhalf, List.flatten_cons] at hpre
  have hhead := head?_readRun q' cs he hc
  cases hout : (readRun (e :: q') (c' :: cs)).1 with
  | nil =>
    rw [hout] at hhead
    rw [List.head?_nil, eq_comm, List.head?_eq_none_iff] at hhead
    contradiction
  | cons x out =>
    rw [hout] at hhead hpre
    rcases hpre with ⟨t, heq⟩
    have hat := congrArg (·[d.length - c.len]?) heq
    rw [List.append_assoc, List.getElem?_append_right (by simp)] at hat
    have hlt : d.length - c.len < d.length := by omega
    rw [List.getElem?_append_left hlt] at hat
    rw [← hhead, ← hat] at hbyte
    simp at hbyte

/--
A fragment of zeros but for the byte at `k`.
-/
def marked (n k : Nat) : List UInt8 :=
  (List.replicate n 0).set k 1

@[simp]
theorem length_marked (n k : Nat) : (marked n k).length = n := by
  simp [marked]

theorem getElem?_marked_self {n k : Nat} (h : k < n) : (marked n k)[k]? = some 1 := by
  simp [marked, h]

theorem getElem?_marked_of_ne {n k i : Nat} (h : i < n) (hne : k ≠ i)
    : (marked n k)[i]? = some 0 := by
  simp [marked, h, hne]

/-- More fragments wait behind the one that is split. -/
theorem not_delivers_of_more {n n' l l' : Nat} (ns ls : List Nat) (hlt : l < n) (hhalf : n ≤ 2 * l)
    (hn' : 0 < n') (hl' : 0 < l')
    : ¬Delivers (marked n (n - l) :: (n' :: ns).map (List.replicate · 0))
        (⟨l, fun _ => 0⟩ :: ⟨l', fun _ => 0⟩ :: ls.map (⟨·, fun _ => 0⟩)) := by
  have hnext : (n' :: ns).map (List.replicate · 0) ++ [(marked n (n - l)).drop l]
      = List.replicate n' 0 :: (ns.map (List.replicate · 0) ++ [(marked n (n - l)).drop l]) := by
    rfl
  refine not_delivers_of_skip ?_ ?_ hl' hnext ?_ ?_
  . simp [hlt]
  . simp [hhalf]
  . simp
    omega
  . rw [length_marked, getElem?_marked_self (by omega), List.head?_replicate,
      if_neg (by omega)]
    simp

/-- The fragment that is split is the only one, but it is not read in halves. -/
theorem not_delivers_of_uneven {n l l' : Nat} (ls : List Nat) (hlt : l < n) (hhalf : n ≤ 2 * l)
    (hne : n ≠ 2 * l) (hl' : 0 < l')
    : ¬Delivers [marked n (n - l)]
        (⟨l, fun _ => 0⟩ :: ⟨l', fun _ => 0⟩ :: ls.map (⟨·, fun _ => 0⟩)) := by
  have hnext : [] ++ [(marked n (n - l)).drop l] = (marked n (n - l)).drop l :: [] := by
    rfl
  refine not_delivers_of_skip ?_ ?_ hl' hnext ?_ ?_
  . simp [hlt]
  . simp [hhalf]
  . intro hnil
    have := congrArg List.length hnil
    simp only [List.length_drop, length_marked, List.length_nil] at this
    omega
  . rw [length_marked, getElem?_marked_self (by omega), List.head?_drop,
      getElem?_marked_of_ne hlt (by omega)]
    simp

theorem exists_not_delivers {sizes lens : List Nat} (h : ¬ReadsExact sizes lens)
    (hsizes : ∀ n ∈ sizes, 0 < n) (hlens : ∀ l ∈ lens, 0 < l)
    : ∃ q calls, q.map List.length = sizes ∧ calls.map RecvCall.len = lens ∧ ¬Delivers q calls := by
  induction lens generalizing sizes with
  | nil => simp [ReadsExact] at h
  | cons l ls ih =>
    cases sizes with
    | nil => simp [ReadsExact] at h
    | cons n ns =>
      rw [List.forall_mem_cons] at hsizes hlens
      rw [ReadsExact] at h
      by_cases hle : n ≤ l
      . rw [if_pos hle] at h
        rcases ih h hsizes.2 hlens.2 with ⟨q, calls, hq, hcalls, hnot⟩
        refine ⟨List.replicate n 0 :: q, ⟨l, fun _ => 0⟩ :: calls, by simp [hq], by simp [hcalls], ?_⟩
        rw [delivers_whole_iff (by simpa using hle)]
        exact hnot
      . rw [if_neg hle] at h
        -- A split that leaves more than it reads reports bytes that nobody wrote.
        by_cases hhalf : n ≤ 2 * l
        . cases ls with
          | nil => simp [hhalf] at h
          | cons l' ls =>
            have hl' : 0 < l' := hlens.2 l' (by simp)
            cases ns with
            | cons n' ns =>
              have hn' : 0 < n' := hsizes.2 n' (by simp)
              have hnot := not_delivers_of_more ns ls (Nat.not_le.mp hle) hhalf hn' hl'
              exact ⟨_, _, by simp [Function.comp_def], by simp [Function.comp_def], hnot⟩
            | nil =>
              -- Of these splits, only one into halves leaves the right bytes to the next call.
              by_cases hsize : n = 2 * l
              . have hnext : ¬ReadsExact [l] (l' :: ls) := by simpa [hhalf, hsize] using h
                rcases ih hnext (by simpa using hlens.1) hlens.2 with ⟨q, calls, hq, hcalls, hnot⟩
                rw [List.map_eq_singleton_iff] at hq
                rcases hq with ⟨g, rfl, hg⟩
                have hlen : (List.replicate l 0 ++ g).length = 2 * l := by
                  rw [List.length_append, List.length_replicate, hg]
                  omega
                refine ⟨[List.replicate l 0 ++ g], ⟨l, fun _ => 0⟩ :: calls, ?_, by simp [hcalls], ?_⟩
                . rw [List.map_singleton, hlen, hsize]
                . rw [delivers_half_iff (by dsimp; omega) hlen]
                  simpa using hnot
              . have hnot := not_delivers_of_uneven ls (Nat.not_le.mp hle) hhalf hsize hl'
                exact ⟨_, _, by simp, by simp [Function.comp_def], hnot⟩
        . have hnot := not_delivers_of_stale ns ls (Nat.not_le.mp hhalf)
          exact ⟨_, _, by simp [Function.comp_def], by simp [Function.comp_def], hnot⟩

/--
The claim about a run of calls: what they report is a prefix of the bytes that wait, and all of them
when nothing waits any more.
-/
def Delivered (s : Stack) (sockfd : Int) (frs : List NgTcpFragment) (calls : List RecvCall) : Prop :=
  (nrecvRun s sockfd calls).1 <+: frs.flatMap NgTcpFragment.bytes
    ∧ (Waiting (nrecvRun s sockfd calls).2 sockfd []
        → (nrecvRun s sockfd calls).1 = frs.flatMap NgTcpFragment.bytes)

theorem delivered_iff_delivers {s : Stack} {sockfd : Int} {frs : List NgTcpFragment}
    {calls : List RecvCall} (h : Waiting s sockfd frs)
    (hfrs : ∀ f ∈ frs, f.Stored ∧ 0 < f.length.toNat) (hcalls : ∀ c ∈ calls, 0 < c.len)
    : Delivered s sockfd frs calls ↔ Delivers (frs.map NgTcpFragment.bytes) calls := by
  rcases nrecvRun_eq_readRun h hfrs hcalls with ⟨s', frs', hrun, hs', hrest⟩
  have hdrained : Waiting s' sockfd [] ↔ (readRun (frs.map NgTcpFragment.bytes) calls).2 = [] := by
    rw [← hrest, List.map_eq_nil_iff]
    constructor
    . intro hnil
      exact hs'.unique hnil
    . rintro rfl
      exact hs'
  simp only [Delivered, Delivers, hrun, hdrained, List.flatMap_def]

def NgTcpFragment.ofBytes (d : List UInt8) : NgTcpFragment :=
  { NgTcpFragment.zero with data := some d, length := UInt32.ofNat d.length }

theorem NgTcpFragment.toNat_length_ofBytes {d : List UInt8} (h : d.length < 2 ^ 32)
    : (NgTcpFragment.ofBytes d).length.toNat = d.length := by
  simp only [NgTcpFragment.ofBytes, UInt32.toNat_ofNat']
  exact Nat.mod_eq_of_lt h

theorem NgTcpFragment.stored_ofBytes {d : List UInt8} (h : d.length < 2 ^ 32)
    : (NgTcpFragment.ofBytes d).Stored := by
  unfold NgTcpFragment.Stored
  rw [NgTcpFragment.toNat_length_ofBytes h]
  exact Nat.le_refl _

theorem NgTcpFragment.bytes_ofBytes {d : List UInt8} (h : d.length < 2 ^ 32)
    : (NgTcpFragment.ofBytes d).bytes = d := by
  unfold NgTcpFragment.bytes
  rw [NgTcpFragment.toNat_length_ofBytes h]
  exact List.take_length

/--
A stack with one TCP socket, number 3, whose receive buffer holds the given fragments.
-/
def Stack.receiver (frs : List NgTcpFragment) (h : frs.length ≤ ringSize - 1) : Stack :=
  { Stack.init with table.tcbSet := ObjList.empty.add {
      fd := 3
      dip := 0
      localmac := .replicate 6 0
      dport := 0
      protocol := ipprotoTcp
      sport := 0
      sip := 0
      sndNxt := 0
      rcvNxt := 0
      status := .established
      sndbuf := none
      rcvbuf := some ⟨[], ⟨frs, h⟩⟩ } }

theorem waiting_receiver (frs : List NgTcpFragment) (h : frs.length ≤ ringSize - 1)
    : Waiting (Stack.receiver frs h) 3 frs :=
  ⟨0, _, _, rfl, rfl, rfl, rfl⟩

theorem nrecv_delivers_iff (sizes lens : List Nat) (hring : sizes.length ≤ ringSize - 1)
    (hsizes : ∀ n ∈ sizes, 0 < n ∧ n < 2 ^ 32) (hlens : ∀ l ∈ lens, 0 < l)
    : (∀ s sockfd frs calls, Waiting s sockfd frs → (∀ f ∈ frs, f.Stored)
          → frs.map (·.length.toNat) = sizes → calls.map RecvCall.len = lens
          → Delivered s sockfd frs calls)
        ↔ ReadsExact sizes lens := by
  constructor
  . intro hall
    by_contra hnot
    rcases exists_not_delivers hnot (fun n hn => (hsizes n hn).1) hlens
      with ⟨q, calls, rfl, rfl, hq⟩
    have hlen : ∀ d ∈ q, d.length < 2 ^ 32 := by
      intro d hd
      exact (hsizes d.length (List.mem_map_of_mem hd)).2
    have hstored : ∀ f ∈ q.map NgTcpFragment.ofBytes, f.Stored ∧ 0 < f.length.toNat := by
      intro f hf
      rw [List.mem_map] at hf
      rcases hf with ⟨d, hd, rfl⟩
      rw [NgTcpFragment.toNat_length_ofBytes (hlen d hd)]
      exact ⟨NgTcpFragment.stored_ofBytes (hlen d hd), (hsizes d.length (List.mem_map_of_mem hd)).1⟩
    have hbytes : (q.map NgTcpFragment.ofBytes).map NgTcpFragment.bytes = q := by
      rw [List.map_map]
      refine (List.map_congr_left ?_).trans (List.map_id q)
      intro d hd
      exact NgTcpFragment.bytes_ofBytes (hlen d hd)
    have hlengths : (q.map NgTcpFragment.ofBytes).map (·.length.toNat) = q.map List.length := by
      rw [List.map_map]
      apply List.map_congr_left
      intro d hd
      exact NgTcpFragment.toNat_length_ofBytes (hlen d hd)
    -- The contents that fail are put into the receive buffer of a socket.
    have hwait := waiting_receiver (q.map NgTcpFragment.ofBytes) (by simpa using hring)
    have hcalls : ∀ c ∈ calls, 0 < c.len := by
      intro c hc
      exact hlens c.len (List.mem_map_of_mem hc)
    have hdel := hall _ _ _ calls hwait (fun f hf => (hstored f hf).1) hlengths rfl
    rw [delivered_iff_delivers hwait hstored hcalls, hbytes] at hdel
    exact hq hdel
  . rintro h s sockfd frs calls hwait hstored rfl rfl
    have hfrs : ∀ f ∈ frs, f.Stored ∧ 0 < f.length.toNat := by
      intro f hf
      exact ⟨hstored f hf, (hsizes f.length.toNat (List.mem_map_of_mem hf)).1⟩
    have hcalls : ∀ c ∈ calls, 0 < c.len := by
      intro c hc
      exact hlens c.len (List.mem_map_of_mem hc)
    rw [delivered_iff_delivers hwait hfrs hcalls]
    apply delivers_of_readsExact
    have : (frs.map NgTcpFragment.bytes).map List.length = frs.map (·.length.toNat) := by
      rw [List.map_map]
      apply List.map_congr_left
      intro f hf
      exact NgTcpFragment.length_bytes (hstored f hf)
    rw [this]
    exact h

/-- Two fragments, the first read to its end by a call with room for more. -/
theorem nrecv_delivers_two
    : (∀ s sockfd frs calls, Waiting s sockfd frs → (∀ f ∈ frs, f.Stored)
          → frs.map (·.length.toNat) = [3, 4] → calls.map RecvCall.len = [1024, 2, 2]
          → Delivered s sockfd frs calls)
        ↔ ReadsExact [3, 4] [1024, 2, 2] :=
  nrecv_delivers_iff [3, 4] [1024, 2, 2] (by decide) (by decide) (by decide)

example : ReadsExact [3, 4] [1024, 2, 2] := by
  simp [ReadsExact]

/-- One byte read of a fragment of three: the call reports two, and the second is not the peer's. -/
theorem nrecv_not_delivered
    : let f := NgTcpFragment.ofBytes [1, 2, 3]
      let s := Stack.receiver [f] (by decide)
      Waiting s 3 [f] ∧ f.Stored ∧ 0 < f.length.toNat
        ∧ (nrecvRun s 3 [⟨1, fun _ => 0⟩]).1 = [1, 0]
        ∧ ¬Delivered s 3 [f] [⟨1, fun _ => 0⟩] := by
  have hrun : (nrecvRun (Stack.receiver [NgTcpFragment.ofBytes [1, 2, 3]] (by decide)) 3
      [⟨1, fun _ => 0⟩]).1 = [1, 0] := by
    decide
  refine ⟨waiting_receiver _ _, NgTcpFragment.stored_ofBytes (by decide), by decide, hrun, ?_⟩
  intro hdel
  have := hdel.1
  rw [hrun] at this
  revert this
  decide

end NgStack
