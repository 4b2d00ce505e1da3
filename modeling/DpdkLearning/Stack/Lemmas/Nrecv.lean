import DpdkLearning.Stack.Impl.Socket
import DpdkLearning.Stack.Lemmas.Ring
import DpdkLearning.Stack.Lemmas.Tables

/-!
This module contains the effect of one `nrecv` on the fragments waiting in the receive buffer.
-/

open Lib

namespace NgStack

/--
The length of the fragment does not go past its data.
-/
def NgTcpFragment.Stored (f : NgTcpFragment) : Prop :=
  f.length.toNat ≤ (f.data.getD []).length

theorem NgTcpFragment.length_bytes {f : NgTcpFragment} (h : f.Stored)
    : f.bytes.length = f.length.toNat := by
  unfold NgTcpFragment.bytes
  rw [List.length_take]
  exact Nat.min_eq_left h

theorem NgTcpFragment.Stored.data_eq {f : NgTcpFragment} (h : f.Stored) (hlen : 0 < f.length.toNat)
    : ∃ data, f.data = some data ∧ f.length.toNat ≤ data.length := by
  unfold NgTcpFragment.Stored at h
  cases hdata : f.data with
  | none =>
    rw [hdata] at h
    simp at h
    omega
  | some data =>
    rw [hdata] at h
    exact ⟨data, rfl, h⟩

@[simp]
theorem length_nrecvShift (data : List UInt8) (len n : Nat)
    : (nrecvShift data len n).length = data.length := by
  induction n with
  | zero => rfl
  | succ n ih => simp [nrecvShift, ih]

/-- The loop reads ahead of what it writes, so it moves every byte it reaches by `len`. -/
theorem getElem?_nrecvShift (data : List UInt8) {len : Nat} (hlen : 0 < len) (n i : Nat)
    (hn : len + n ≤ data.length)
    : (nrecvShift data len n)[i]? = if i < n then data[len + i]? else data[i]? := by
  induction n generalizing i with
  | zero => simp [nrecvShift]
  | succ n ih =>
    unfold nrecvShift
    dsimp
    have hsrc : (nrecvShift data len n)[len + n]? = data[len + n]? := by
      rw [ih (len + n) (by omega), if_neg (by omega)]
    rw [List.getElem?_set, length_nrecvShift, List.getD_eq_getElem?_getD, hsrc]
    by_cases hi : n = i
    . subst hi
      rw [if_pos rfl, if_pos (by omega), if_pos (by omega)]
      rw [List.getElem?_eq_getElem (by omega)]
      rfl
    . rw [if_neg hi, ih i (by omega)]
      by_cases hlt : i < n
      . rw [if_pos hlt, if_pos (by omega)]
      . rw [if_neg hlt, if_neg (by omega)]

/--
What `nrecv` puts back after it took the first `len` bytes of a longer fragment.
-/
def NgTcpFragment.rest (f : NgTcpFragment) (len : Nat) : NgTcpFragment :=
  let length := f.length.toNat - len
  { f with
    data := some (nrecvShift (f.data.getD []) len length)
    length := UInt32.ofNat length }

theorem NgTcpFragment.toNat_length_rest (f : NgTcpFragment) (len : Nat)
    : (f.rest len).length.toNat = f.length.toNat - len := by
  have := f.length.toNat_lt
  simp only [NgTcpFragment.rest, UInt32.toNat_ofNat']
  rw [Nat.mod_eq_of_lt (by omega)]

theorem NgTcpFragment.stored_rest {f : NgTcpFragment} (h : f.Stored) (len : Nat)
    : (f.rest len).Stored := by
  unfold NgTcpFragment.Stored at *
  rw [NgTcpFragment.toNat_length_rest]
  simp only [NgTcpFragment.rest, Option.getD_some, length_nrecvShift]
  omega

theorem NgTcpFragment.bytes_rest {f : NgTcpFragment} (h : f.Stored) {len : Nat} (hlen : 0 < len)
    (hlt : len < f.length.toNat) : (f.rest len).bytes = f.bytes.drop len := by
  unfold NgTcpFragment.Stored at h
  unfold NgTcpFragment.bytes
  rw [NgTcpFragment.toNat_length_rest]
  apply List.ext_getElem?
  intro i
  simp only [NgTcpFragment.rest, Option.getD_some, List.getElem?_take, List.getElem?_drop]
  rw [getElem?_nrecvShift _ hlen _ _ (by omega)]
  by_cases hi : i < f.length.toNat - len
  . rw [if_pos hi, if_pos hi, if_pos (by omega)]
  . rw [if_neg hi, if_neg (by omega)]

/--
The descriptor denotes a TCP stream and the fragments wait in its receive buffer.
-/
def Waiting (s : Stack) (sockfd : Int) (frs : List NgTcpFragment) : Prop :=
  ∃ a st rcvbuf, getHostinfoFromfd s sockfd = some (.stream a st) ∧ st.protocol = ipprotoTcp
    ∧ st.rcvbuf = some rcvbuf ∧ rcvbuf.items = frs

theorem Waiting.unique {s : Stack} {sockfd : Int} {frs frs' : List NgTcpFragment}
    (h : Waiting s sockfd frs) (h' : Waiting s sockfd frs') : frs = frs' := by
  rcases h with ⟨a, st, rcvbuf, hinfo, _, hrcv, rfl⟩
  rcases h' with ⟨a', st', rcvbuf', hinfo', _, hrcv', rfl⟩
  rw [hinfo] at hinfo'
  simp only [Option.some.injEq, Hostinfo.stream.injEq] at hinfo'
  rcases hinfo' with ⟨rfl, rfl⟩
  rw [hrcv] at hrcv'
  rw [Option.some.inj hrcv']

theorem waiting_modifyStream {s : Stack} {sockfd : Int} {a : Addr} {st : NgTcpStream}
    (hinfo : getHostinfoFromfd s sockfd = some (.stream a st)) (hproto : st.protocol = ipprotoTcp)
    (r : RteRing NgTcpFragment)
    : Waiting (s.modifyStream a (fun st => { st with rcvbuf := some r })) sockfd r.items :=
  ⟨a, { st with rcvbuf := some r }, r, getHostinfoFromfd_modifyStream hinfo rfl, hproto, rfl, rfl⟩

theorem nrecv_blocked {s : Stack} {sockfd : Int} (h : Waiting s sockfd []) (buf : Nat → UInt8)
    (len : Nat) : nrecv s sockfd buf len = .error .blocked := by
  rcases h with ⟨a, st, rcvbuf, hinfo, hproto, hrcv, hitems⟩
  have hdeq := (rteRingMcDequeue_eq_none_iff rcvbuf).mpr hitems
  simp [nrecv, hinfo, Hostinfo.protocol, hproto, Hostinfo.asStream, hrcv, hdeq]

theorem nrecv_split {s : Stack} {sockfd : Int} {f : NgTcpFragment} {frs : List NgTcpFragment}
    (h : Waiting s sockfd (f :: frs)) (hf : f.Stored) (buf : Nat → UInt8) {len : Nat}
    (hlt : len < f.length.toNat)
    : ∃ s', nrecv s sockfd buf len
          = .ok ((f.length.toNat - len : Nat), rteMemcpy buf (f.data.getD []) len, s')
        ∧ Waiting s' sockfd (frs ++ [f.rest len]) := by
  rcases h with ⟨a, st, rcvbuf, hinfo, hproto, hrcv, hitems⟩
  rcases exists_dequeue hitems with ⟨q, hdeq, rfl⟩
  rcases hf.data_eq (by omega) with ⟨data, hdata, _⟩
  rw [← items_enqueue_of_dequeue hdeq (f.rest len)]
  refine ⟨_, ?_, waiting_modifyStream hinfo hproto _⟩
  simp [nrecv, hinfo, Hostinfo.protocol, hproto, Hostinfo.asStream, hrcv, hdeq, hlt, hdata,
    NgTcpFragment.rest]

theorem nrecv_whole {s : Stack} {sockfd : Int} {f : NgTcpFragment} {frs : List NgTcpFragment}
    (h : Waiting s sockfd (f :: frs)) (hf : f.Stored) (hpos : 0 < f.length.toNat)
    (buf : Nat → UInt8) {len : Nat} (hle : f.length.toNat ≤ len)
    : ∃ s', nrecv s sockfd buf len
          = .ok (f.length.toNat, rteMemcpy buf (f.data.getD []) f.length.toNat, s')
        ∧ Waiting s' sockfd frs := by
  rcases h with ⟨a, st, rcvbuf, hinfo, hproto, hrcv, hitems⟩
  rcases exists_dequeue hitems with ⟨q, hdeq, rfl⟩
  rcases hf.data_eq hpos with ⟨data, hdata, _⟩
  have hne : f.length ≠ 0 := by
    intro h
    rw [h] at hpos
    contradiction
  refine ⟨_, ?_, waiting_modifyStream hinfo hproto q⟩
  simp [nrecv, hinfo, Hostinfo.protocol, hproto, Hostinfo.asStream, hrcv, hdeq,
    Nat.not_lt.mpr hle, hdata, hne]

end NgStack
