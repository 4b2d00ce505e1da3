import DpdkLearning.Lib.Pieces
import DpdkLearning.Stack.Lemmas.Descriptors
import DpdkLearning.Stack.Lemmas.Host
import Mathlib.Algebra.Order.Ring.Int

/-!
This module contains the receive path of a datagram socket: which bytes the calls of `nrecvfrom` return
for the datagrams that `udp_process` stored.
-/

open Lib

namespace NgStack

def dgramLen (m : Mbuf) : Nat :=
  (ntohs m.udp.dgramLen).toNat

/--
The payload of a datagram, whose length counts the UDP header.
-/
def dgramPayload (m : Mbuf) : List UInt8 :=
  (List.range (dgramLen m - 8)).map (fun i => m.l4 (8 + i))

/--
The packet that a step stores for the socket at `a`: it is for this socket, its length is that of a header
and a payload, there is memory and the ring is not full.
-/
def storedAt (a : Addr) (e : Step) : Option Mbuf :=
  match e.act with
  | .udpProcess env m =>
    match udpTaken env e.pre m with
    | none => none
    | some (b, host, _) =>
      if b = a ∧ host.rcvItems.length < ringSize - 1 then some m else none
  | _ => none

/--
The length with which a step reads from the socket at `a`.
-/
def readFrom (a : Addr) (e : Step) : Option Nat :=
  match e.act with
  | .nrecvfrom _ sockfd _ len =>
    match getHostinfoFromfd e.pre sockfd with
    | some (.host b _) => if b = a then some len else none
    | _ => none
  | _ => none

/--
What is known of the bytes behind a datagram on the ring. Its length counts the UDP header, so there are
eight more than its payload has.
-/
def storedBytes (m : Mbuf) : List (Option UInt8) :=
  (dgramPayload m).map some ++ List.replicate 8 none

def logStep (a : Addr) (log : Pieces (Option UInt8)) (e : Step) : Pieces (Option UInt8) :=
  match storedAt a e with
  | some m => log.put (storedBytes m)
  | none =>
    match readFrom a e with
    | some len => log.take len
    | none => log

/--
The datagrams of the socket at `a`, what of them is on the ring and what has been read.
-/
def rcvLog (a : Addr) (tr : List Step) : Pieces (Option UInt8) :=
  tr.foldl (logStep a) .empty

def datagrams (a : Addr) (tr : List Step) : List Mbuf :=
  tr.filterMap (storedAt a)

def reads (a : Addr) (tr : List Step) : List Step :=
  tr.filter (fun e => (readFrom a e).isSome)

/--
The reads that returned bytes of datagram `k`.
-/
def chunksOf (a : Addr) (tr : List Step) (k : Nat) : List Step :=
  besideEntry k (rcvLog a tr).given (reads a tr)

/--
Nothing is left of datagram `k` on the ring.
-/
def readWhole (a : Addr) (tr : List Step) (k : Nat) : Prop :=
  k ∉ (rcvLog a tr).queue.map Prod.fst

/--
The bytes a read returned.
-/
def returnedBytes (e : Step) : List UInt8 :=
  (List.range e.out.ret.toNat).map e.out.buf

/--
A read copies bytes from behind the data of its datagram: it copies `length` bytes, to the caller or to
what it puts back.
-/
def readsPast (e : Step) : Bool :=
  match e.act with
  | .nrecvfrom _ sockfd _ _ =>
    match getHostinfoFromfd e.pre sockfd with
    | some (.host _ host) =>
      host.rcvItems.head?.any (fun ol => decide (ol.data.length < ol.length.toNat))
    | _ => false
  | _ => false

/--
The chunks returned for datagram `k` are what its sender sent.
-/
structure ReadExactly (a : Addr) (tr : List Step) (k : Nat) (m : Mbuf) : Prop where
  sender : ∀ e ∈ chunksOf a tr k, e.out.peer = some (m.udp.srcPort, m.ip.srcAddr)
  bytes : readWhole a tr k → (chunksOf a tr k).flatMap returnedBytes = dgramPayload m
  total : readWhole a tr k
    → ((chunksOf a tr k).map (fun e => e.out.ret)).sum = (dgramLen m - 8 : Nat)
  inside : ∀ e ∈ chunksOf a tr k, readsPast e = false

/--
A datagram on the ring is from the sender of `m` and holds the bytes that are known.
-/
structure Holds (m : Mbuf) (known : List (Option UInt8)) (ol : Offload) : Prop where
  sport : ol.sport = m.udp.srcPort
  sip : ol.sip = m.ip.srcAddr
  bytes : ∀ heap, Agrees known ((List.range ol.length.toNat).map (ol.byte heap))

namespace Holds

variable {m : Mbuf} {known : List (Option UInt8)} {ol : Offload}

theorem length_eq (h : Holds m known ol) : known.length = ol.length.toNat := by
  have := (h.bytes (fun _ => 0)).length_eq
  rw [List.length_map, List.length_range] at this
  exact this

theorem left (h : Holds m known ol) (heap : Nat → UInt8) (len : Nat)
    : List.Forall₂ (Holds m) (if len < known.length then [known.drop len] else []) (ol.left heap len) := by
  rw [h.length_eq, Offload.left]
  split
  . next hlt =>
    refine .cons ⟨h.sport, h.sip, ?_⟩ .nil
    intro heap'
    have hbound := ol.length.toNat_lt
    have hlen : (UInt16.ofNat (ol.length.toNat - len)).toNat = ol.length.toNat - len :=
      UInt16.toNat_ofNat_of_lt' (Nat.lt_of_le_of_lt (Nat.sub_le _ _) hbound)
    have hdrop := (h.bytes heap).drop len
    rw [show ol.length.toNat = len + (ol.length.toNat - len) by omega, List.range_add, List.map_append,
      List.drop_left' (by simp), List.map_map] at hdrop
    dsimp only
    rw [hlen]
    -- What is put back has the bytes of the heap that it was copied from.
    have heq : (List.range (ol.length.toNat - len)).map (ol.byte heap ∘ (len + ·))
        = (List.range (ol.length.toNat - len)).map (Offload.byte { ol with
            length := UInt16.ofNat (ol.length.toNat - len)
            data := (List.range (ol.length.toNat - len)).map (fun i => ol.byte heap (len + i)) } heap') := by
      apply List.map_congr_left
      intro i hi
      rw [List.mem_range] at hi
      simp [Offload.byte, hi]
    rw [← heq]
    exact hdrop
  . exact .nil

theorem read (h : Holds m known ol) {heap buf : Nat → UInt8} {len : Nat} {e : Step}
    (hout : e.out = ol.readOut heap buf len) : Agrees (known.take len) (returnedBytes e) := by
  have htake := (h.bytes heap).take len
  rw [← List.map_take, List.take_range] at htake
  have heq : returnedBytes e = (List.range (min len ol.length.toNat)).map (ol.byte heap) := by
    rw [returnedBytes, hout]
    apply List.map_congr_left
    intro i hi
    have hi : i < min len ol.length.toNat := by simpa [Offload.readOut] using hi
    simp only [Offload.readOut]
    rw [if_pos hi]
  rw [heq]
  exact htake

end Holds

theorem holds_stored {env : Env} {s : Stack} {m : Mbuf} {a : Addr} {host : Localhost}
    {data : List UInt8} (h : udpTaken env s m = some (a, host, data))
    : Holds m (storedBytes m) (rcvOffload m data)
        ∧ (rcvOffload m data).data.length < (rcvOffload m data).length.toNat := by
  have hdata : data = dgramPayload m ∧ 8 < dgramLen m := by
    unfold udpTaken at h
    split at h
    . contradiction
    . split at h
      . rw [Option.map_eq_some_iff] at h
        rcases h with ⟨data', hdata, heq⟩
        cases heq
        unfold udpPayload at hdata
        dsimp only at hdata
        split at hdata
        . next hok =>
          cases hdata
          simp only [Bool.and_eq_true, decide_eq_true_eq] at hok
          exact ⟨rfl, hok.2⟩
        . contradiction
      . contradiction
  rcases hdata with ⟨rfl, hlen⟩
  have hpayload : (dgramPayload m).length = dgramLen m - 8 := by
    simp [dgramPayload]
  constructor
  . refine ⟨rfl, rfl, ?_⟩
    intro heap
    -- The length counts the UDP header, whose 8 bytes the stored payload lacks.
    have hsplit : (rcvOffload m (dgramPayload m)).length.toNat = (dgramPayload m).length + 8 := by
      rw [hpayload]
      simp only [rcvOffload, dgramLen] at hlen ⊢
      omega
    rw [hsplit, List.range_add, List.map_append, storedBytes]
    apply Agrees.append
    . rw [Agrees.map_some_iff]
      apply List.ext_getElem
      . simp
      . intro i h1 h2
        simp [Offload.byte, rcvOffload, h1]
    . exact Agrees.replicate_none (((List.range 8).map _).map _)
  . have : (rcvOffload m (dgramPayload m)).length.toNat = dgramLen m := by
      rfl
    rw [this]
    dsimp [rcvOffload]
    omega

theorem storedAt_of_act {a : Addr} {e : Step} (h : ∀ env m, e.act ≠ .udpProcess env m)
    : storedAt a e = none := by
  unfold storedAt
  split
  . next hact => exact absurd hact (h _ _)
  . rfl

theorem readFrom_of_act {a : Addr} {e : Step}
    (h : ∀ env sockfd buf len, e.act ≠ .nrecvfrom env sockfd buf len)
    : readFrom a e = none := by
  unfold readFrom
  split
  . next hact => exact absurd hact (h _ _ _ _)
  . rfl

/--
What a step does to the receive ring of the socket at `a`, told by what goes in and what is read.
-/
inductive RcvStep (a : Addr) (e : Step) : Prop where
  | same (hstored : storedAt a e = none) (hread : readFrom a e = none)
    (h : ∀ host', e.post.lhost.get? a = some host' →
      ∃ host, e.pre.lhost.get? a = some host ∧ host'.rcvItems = host.rcvItems)
  | opened {host : Localhost} (hstored : storedAt a e = none) (hread : readFrom a e = none)
    (hnew : e.pre.lhost.next ≤ a) (hpost : e.post.lhost.get? a = some host)
    (hrcv : host.rcvItems = [])
  | stored {m : Mbuf} {host host' : Localhost} {ol : Offload} (hstored : storedAt a e = some m)
    (hread : readFrom a e = none) (hpre : e.pre.lhost.get? a = some host)
    (hpost : e.post.lhost.get? a = some host') (hrcv : host'.rcvItems = host.rcvItems ++ [ol])
    (hol : Holds m (storedBytes m) ol) (hpast : ol.data.length < ol.length.toNat)
  | received {len : Nat} {heap buf : Nat → UInt8} {host host' : Localhost} {ol : Offload}
    {rest : List Offload} (hstored : storedAt a e = none) (hread : readFrom a e = some len)
    (hpre : e.pre.lhost.get? a = some host) (hpost : e.post.lhost.get? a = some host')
    (hitems : host.rcvItems = ol :: rest) (hrcv : host'.rcvItems = rest ++ ol.left heap len)
    (hout : e.out = ol.readOut heap buf len)
    (hpast : readsPast e = decide (ol.data.length < ol.length.toNat))

theorem rcvStep_of_step {e : Step} (hstep : machine.step e.pre e.act = .ok (e.post, e.out)) (a : Addr)
    : RcvStep a e := by
  have h := hostStep_of_step hstep a
  generalize hout : e.out = out at h
  generalize hpre : e.pre.lhost.get? a = pre at h
  generalize hpost : e.post.lhost.get? a = post at h
  cases h with
  | same _ hstore hread =>
    refine .same ?_ ?_ (fun host' hhost' => ⟨host', ?_, rfl⟩)
    . unfold storedAt
      split
      . next env m hact =>
        split
        . rfl
        . next b host data htaken =>
          rw [if_neg]
          rintro ⟨rfl, _⟩
          exact hstore env m host data hact htaken
      . rfl
    . unfold readFrom
      split
      . next env sockfd buf len hact =>
        split
        . next b host hinfo =>
          rw [if_neg]
          rintro rfl
          exact hread env sockfd buf len host hact hinfo
        . rfl
      . rfl
    . rw [hpre, ← hpost]
      exact hhost'
  | opened hact hnew hrcv _ =>
    apply RcvStep.opened (storedAt_of_act _) (readFrom_of_act _) (Nat.le_of_eq hnew.symm) hpost hrcv
    . simp [hact]
    . simp [hact]
  | bound hact | sent hact | out hact =>
    refine .same (storedAt_of_act ?_) (readFrom_of_act ?_) ?_
    . simp [hact]
    . simp [hact]
    . intro host' hhost'
      rw [hpost] at hhost'
      cases hhost'
      exact ⟨_, hpre, rfl⟩
  | removed hact =>
    refine .same (storedAt_of_act ?_) (readFrom_of_act ?_) ?_
    . simp [hact]
    . simp [hact]
    . intro host' hhost'
      rw [hpost] at hhost'
      contradiction
  | @stored env m host data rcvbuf hact htaken hrcv =>
    have hread : readFrom a e = none := readFrom_of_act (by simp [hact])
    rcases holds_stored htaken with ⟨hol, hpast⟩
    -- A datagram that finds the ring full is not stored.
    by_cases hroom : host.rcvItems.length < ringSize - 1
    . rw [if_pos hroom] at hrcv
      refine .stored ?_ hread hpre hpost hrcv hol hpast
      simp [storedAt, hact, htaken, hroom]
    . rw [if_neg hroom, List.append_nil] at hrcv
      refine .same ?_ hread ?_
      . simp [storedAt, hact, htaken, hroom]
      . intro host' hhost'
        rw [hpost] at hhost'
        cases hhost'
        exact ⟨host, hpre, hrcv⟩
  | received hact hinfo hitems hrcv =>
    refine .received (storedAt_of_act ?_) ?_ hpre hpost hitems hrcv hout ?_
    . simp [hact]
    . simp [readFrom, hact, hinfo]
    . simp [readsPast, hact, hinfo, hitems]

@[simp]
theorem rcvLog_concat (a : Addr) (tr : List Step) (e : Step)
    : rcvLog a (tr ++ [e]) = logStep a (rcvLog a tr) e := by
  simp [rcvLog]

@[simp]
theorem datagrams_concat (a : Addr) (tr : List Step) (e : Step)
    : datagrams a (tr ++ [e]) = datagrams a tr ++ (storedAt a e).toList := by
  cases h : storedAt a e <;> simp [datagrams, h]

@[simp]
theorem reads_concat (a : Addr) (tr : List Step) (e : Step)
    : reads a (tr ++ [e]) = reads a tr ++ if (readFrom a e).isSome then [e] else [] := by
  cases h : readFrom a e <;> simp [reads, h]

/--
A datagram on the ring and the piece the log has of it. Of one that was never read the payload is still
shorter than its length says.
-/
def Queued (ms : List Mbuf) (given : List (Nat × List (Option UInt8)))
    (p : Nat × List (Option UInt8)) (ol : Offload) : Prop :=
  ∃ m, ms[p.1]? = some m ∧ Holds m p.2 ol
    ∧ (p.1 ∉ given.map Prod.fst → ol.data.length < ol.length.toNat)

/--
A read and the piece the log gave out for it.
-/
def Chunk (ms : List Mbuf) (p : Nat × List (Option UInt8)) (e : Step) : Prop :=
  ∃ m, ms[p.1]? = some m ∧ e.out.peer = some (m.udp.srcPort, m.ip.srcAddr) ∧ 0 ≤ e.out.ret
    ∧ Agrees p.2 (returnedBytes e)

theorem Queued.append {ms : List Mbuf} {given : List (Nat × List (Option UInt8))}
    {p : Nat × List (Option UInt8)} {ol : Offload} (h : Queued ms given p ol) (ms' : List Mbuf)
    : Queued (ms ++ ms') given p ol := by
  rcases h with ⟨m, hm, hholds, hpast⟩
  exact ⟨m, List.getElem?_append_left (List.getElem?_eq_some_iff.mp hm).1 ▸ hm, hholds, hpast⟩

theorem Queued.given {ms : List Mbuf} {given : List (Nat × List (Option UInt8))}
    {p : Nat × List (Option UInt8)} {ol : Offload} (h : Queued ms given p ol)
    (given' : List (Nat × List (Option UInt8))) : Queued ms (given ++ given') p ol := by
  rcases h with ⟨m, hm, hholds, hpast⟩
  refine ⟨m, hm, hholds, ?_⟩
  intro hnew
  apply hpast
  rw [List.map_append, List.mem_append, not_or] at hnew
  exact hnew.1

theorem Chunk.append {ms : List Mbuf} {p : Nat × List (Option UInt8)} {e : Step} (h : Chunk ms p e)
    (ms' : List Mbuf) : Chunk (ms ++ ms') p e := by
  rcases h with ⟨m, hm, hrest⟩
  exact ⟨m, List.getElem?_append_left (List.getElem?_eq_some_iff.mp hm).1 ▸ hm, hrest⟩

/--
The log tells what is on the ring and what was read.
-/
structure Logged (a : Addr) (tr : List Step) (s : Stack) : Prop where
  fresh : s.lhost.next ≤ a → (rcvLog a tr).queue = []
  entries : (rcvLog a tr).entries = (datagrams a tr).map storedBytes
  ring : ∀ host, s.lhost.get? a = some host →
    List.Forall₂ (Queued (datagrams a tr) (rcvLog a tr).given) (rcvLog a tr).queue host.rcvItems
  chunks : List.Forall₂ (Chunk (datagrams a tr)) (rcvLog a tr).given (reads a tr)
  past : ∀ k ∈ (rcvLog a tr).given.map Prod.fst, ∃ e ∈ chunksOf a tr k, readsPast e = true

theorem logged_init (a : Addr) : Logged a [] .init where
  fresh _ := rfl
  entries := rfl
  ring _ h := by contradiction
  chunks := .nil
  past _ h := by contradiction

namespace Logged

variable {a : Addr} {tr : List Step} {e : Step}

theorem fresh_step (h : Logged a tr e.pre) (hstep : machine.step e.pre e.act = .ok (e.post, e.out))
    (hnext : e.post.lhost.next ≤ a) : (rcvLog a tr).queue = [] := by
  apply h.fresh
  apply Nat.le_of_not_lt
  intro hlt
  have : e.post.known (.host a) := known_of_stepped (stepped_of_step hstep) (o := .host a) hlt
  exact Nat.not_lt.mpr hnext this

theorem same (h : Logged a tr e.pre) (hstep : machine.step e.pre e.act = .ok (e.post, e.out))
    (hstored : storedAt a e = none) (hread : readFrom a e = none)
    (hring : ∀ host', e.post.lhost.get? a = some host' →
      List.Forall₂ (Queued (datagrams a tr) (rcvLog a tr).given) (rcvLog a tr).queue host'.rcvItems)
    : Logged a (tr ++ [e]) e.post := by
  have hlog : rcvLog a (tr ++ [e]) = rcvLog a tr := by
    rw [rcvLog_concat, logStep, hstored, hread]
  have hdatagrams : datagrams a (tr ++ [e]) = datagrams a tr := by
    simp [hstored]
  have hreads : reads a (tr ++ [e]) = reads a tr := by
    simp [hread]
  constructor
  . rw [hlog]
    exact h.fresh_step hstep
  . rw [hlog, hdatagrams]
    exact h.entries
  . rw [hlog, hdatagrams]
    exact hring
  . rw [hlog, hdatagrams, hreads]
    exact h.chunks
  . rw [hlog]
    simp only [chunksOf, hlog, hreads]
    exact h.past

theorem stored {m : Mbuf} {host host' : Localhost} {ol : Offload} (h : Logged a tr e.pre)
    (hstored : storedAt a e = some m) (hread : readFrom a e = none)
    (hpre : e.pre.lhost.get? a = some host) (hpost : e.post.lhost.get? a = some host')
    (hrcv : host'.rcvItems = host.rcvItems ++ [ol])
    (hol : Holds m (storedBytes m) ol) (hpast : ol.data.length < ol.length.toNat)
    : Logged a (tr ++ [e]) e.post := by
  have hlog : rcvLog a (tr ++ [e]) = (rcvLog a tr).put (storedBytes m) := by
    rw [rcvLog_concat, logStep, hstored]
  have hdatagrams : datagrams a (tr ++ [e]) = datagrams a tr ++ [m] := by
    simp [hstored]
  have hreads : reads a (tr ++ [e]) = reads a tr := by
    simp [hread]
  have hlen : (rcvLog a tr).entries.length = (datagrams a tr).length := by
    rw [h.entries, List.length_map]
  constructor
  . intro hnext
    have := ObjList.lt_next_of_get? hpost
    omega
  . rw [hlog, hdatagrams, List.map_append, ← h.entries]
    rfl
  . intro host1 hhost1
    rw [hpost] at hhost1
    cases hhost1
    rw [hlog, hdatagrams, hrcv]
    apply List.rel_append
    . exact (h.ring host hpre).imp (fun p ol h => h.append [m])
    . refine .cons ⟨m, ?_, hol, fun _ => hpast⟩ .nil
      rw [hlen]
      simp
  . rw [hlog, hdatagrams, hreads]
    exact h.chunks.imp (fun p e h => h.append [m])
  . rw [hlog]
    simp only [chunksOf, hlog, hreads]
    exact h.past

theorem received {len : Nat} {heap buf : Nat → UInt8} {host host' : Localhost} {ol : Offload}
    {rest : List Offload} (h : Logged a tr e.pre) (hstored : storedAt a e = none)
    (hread : readFrom a e = some len) (hpre : e.pre.lhost.get? a = some host)
    (hpost : e.post.lhost.get? a = some host') (hitems : host.rcvItems = ol :: rest)
    (hrcv : host'.rcvItems = rest ++ ol.left heap len) (hout : e.out = ol.readOut heap buf len)
    (hpast : readsPast e = decide (ol.data.length < ol.length.toNat))
    : Logged a (tr ++ [e]) e.post := by
  have hring := h.ring host hpre
  rw [hitems] at hring
  -- The ring and the queue of the log have the same datagrams in the same order.
  cases hqueue : (rcvLog a tr).queue with
  | nil =>
    rw [hqueue] at hring
    contradiction
  | cons p ps =>
    rw [hqueue] at hring
    cases hring with
    | cons hfirst hrest =>
      rcases hfirst with ⟨m, hm, hholds, hfresh⟩
      rcases Pieces.take_of_queue hqueue len with ⟨hentries, hqueue', hgiven⟩
      have hlog : rcvLog a (tr ++ [e]) = (rcvLog a tr).take len := by
        rw [rcvLog_concat, logStep, hstored, hread]
      have hdatagrams : datagrams a (tr ++ [e]) = datagrams a tr := by
        simp [hstored]
      have hreads : reads a (tr ++ [e]) = reads a tr ++ [e] := by
        simp [hread]
      have hchunks (k : Nat) : chunksOf a (tr ++ [e]) k
          = chunksOf a tr k ++ if p.1 = k then [e] else [] := by
        rw [chunksOf, hlog, hreads, hgiven, besideEntry_append k (List.Forall₂.length_eq h.chunks)]
        by_cases heq : p.1 = k <;> simp [chunksOf, besideEntry, heq]
      constructor
      . intro hnext
        have := ObjList.lt_next_of_get? hpost
        omega
      . rw [hlog, hdatagrams, hentries]
        exact h.entries
      . intro host1 hhost1
        rw [hpost] at hhost1
        cases hhost1
        rw [hlog, hdatagrams, hgiven, hqueue', hrcv]
        apply List.rel_append
        . exact hrest.imp (fun q ol h => h.given _)
        . have hleft := hholds.left heap len
          unfold Pieces.rest
          split
          . next hlt =>
            rw [if_pos hlt] at hleft
            generalize ol.left heap len = left at hleft ⊢
            cases hleft with
            | cons hleft hnil =>
              cases hnil
              refine .cons ⟨m, hm, hleft, ?_⟩ .nil
              simp
          . next hge =>
            rw [if_neg hge] at hleft
            generalize ol.left heap len = left at hleft ⊢
            cases hleft
            exact .nil
      . rw [hlog, hdatagrams, hreads, hgiven]
        apply List.rel_append h.chunks
        refine .cons ⟨m, hm, ?_, ?_, hholds.read hout⟩ .nil
        . rw [hout, ← hholds.sport, ← hholds.sip]
          rfl
        . rw [hout]
          exact Int.natCast_nonneg _
      . rw [hlog, hgiven]
        intro k hk
        rw [hchunks]
        -- A datagram is read past its end by the first call that gets a piece of it.
        by_cases hold : k ∈ (rcvLog a tr).given.map Prod.fst
        . rcases h.past k hold with ⟨e', he', hpast'⟩
          exact ⟨e', List.mem_append_left _ he', hpast'⟩
        . have heq : p.1 = k := by
            rw [List.map_append, List.mem_append] at hk
            rcases hk with hk | hk
            . exact absurd hk hold
            . rw [List.map_singleton, List.mem_singleton] at hk
              exact hk.symm
          subst heq
          refine ⟨e, by simp, ?_⟩
          rw [hpast, decide_eq_true_eq]
          exact hfresh hold

end Logged

theorem logged_of_run {tr : List Step} {s : Stack} (hrun : Run .init tr s) (a : Addr)
    : Logged a tr s := by
  apply hrun.history (logged_init a)
  intro tr t act out u _ hlogged hstep
  cases rcvStep_of_step (e := ⟨t, act, out, u⟩) hstep a with
  | same hstored hread h =>
    apply hlogged.same hstep hstored hread
    intro host' hpost
    rcases h host' hpost with ⟨host, hpre, hrcv⟩
    rw [hrcv]
    exact hlogged.ring host hpre
  | opened hstored hread hnew hpost hrcv =>
    apply hlogged.same hstep hstored hread
    intro host' hpost'
    rw [hpost] at hpost'
    cases hpost'
    rw [hrcv, hlogged.fresh hnew]
    exact .nil
  | stored hstored hread hpre hpost hrcv hol hpast =>
    exact hlogged.stored hstored hread hpre hpost hrcv hol hpast
  | received hstored hread hpre hpost hitems hrcv hout hpast =>
    exact hlogged.received hstored hread hpre hpost hitems hrcv hout hpast

theorem sum_ret {es : List Step} (h : ∀ e ∈ es, 0 ≤ e.out.ret)
    : (es.map (fun e => e.out.ret)).sum = (es.flatMap returnedBytes).length := by
  induction es with
  | nil => rfl
  | cons e es ih =>
    have := h e (by simp)
    rw [List.map_cons, List.sum_cons, ih (fun e he => h e (by simp [he])), List.flatMap_cons,
      List.length_append, returnedBytes, List.length_map, List.length_range]
    omega

/-- Every chunk names the sender of its datagram, but there are eight bytes too many of each datagram and
the first read of it copies them from behind its payload. So a datagram is read as the sender sent it only
as long as it is not read at all. -/
theorem nrecvfrom_readExactly_iff {tr : List Step} {s : Stack} (hrun : Run .init tr s) (a : Addr)
    {k : Nat} {m : Mbuf} (hm : (datagrams a tr)[k]? = some m)
    : (∀ e ∈ chunksOf a tr k, e.out.peer = some (m.udp.srcPort, m.ip.srcAddr))
        ∧ (readWhole a tr k →
          ((chunksOf a tr k).flatMap returnedBytes).take (dgramLen m - 8) = dgramPayload m
            ∧ ((chunksOf a tr k).map (fun e => e.out.ret)).sum = (dgramLen m - 8 : Nat) + 8)
        ∧ (ReadExactly a tr k m ↔ chunksOf a tr k = []) := by
  have hlogged := logged_of_run hrun a
  have hpayload : (dgramPayload m).length = dgramLen m - 8 := by
    simp [dgramPayload]
  have hchunk {e : Step} (he : e ∈ chunksOf a tr k)
      : e.out.peer = some (m.udp.srcPort, m.ip.srcAddr) ∧ 0 ≤ e.out.ret := by
    rcases of_mem_besideEntry hlogged.chunks he with ⟨p, rfl, m', hm', hpeer, hret, _⟩
    rw [hm] at hm'
    cases hm'
    exact ⟨hpeer, hret⟩
  have hwhole (hwhole : readWhole a tr k)
      : ((chunksOf a tr k).flatMap returnedBytes).length = dgramLen m - 8 + 8
        ∧ ((chunksOf a tr k).flatMap returnedBytes).take (dgramLen m - 8) = dgramPayload m := by
    have hentry : (rcvLog a tr).entries[k]? = some (storedBytes m) := by
      rw [hlogged.entries, List.getElem?_map, hm]
      rfl
    have hagrees := Agrees.besideEntry (f := returnedBytes)
      (hlogged.chunks.imp (fun p e h => h.choose_spec.2.2.2)) k
    rw [Pieces.ofEntry_given hentry hwhole] at hagrees
    rw [← hpayload]
    exact hagrees.eq_take
  refine ⟨fun e he => (hchunk he).1, ?_, ?_⟩
  . intro hread
    rcases hwhole hread with ⟨hlen, htake⟩
    refine ⟨htake, ?_⟩
    rw [sum_ret (fun e he => (hchunk he).2), hlen]
    omega
  . constructor
    . intro hexact
      rw [chunksOf, besideEntry_eq_nil_iff (List.Forall₂.length_eq hlogged.chunks)]
      intro hk
      rcases hlogged.past k hk with ⟨e, he, hpast⟩
      rw [hexact.inside e he] at hpast
      contradiction
    -- A datagram that no call has touched has not been read whole.
    . intro hnil
      have hleft : ¬ readWhole a tr k := by
        intro hread
        have := (hwhole hread).1
        rw [hnil] at this
        contradiction
      refine ⟨fun e he => (hchunk he).1, fun h => absurd h hleft, fun h => absurd h hleft, ?_⟩
      simp [hnil]

/--
A datagram with payload `data` from port `sport` of host 7 to port 9999 of host 8.
-/
def Mbuf.datagram (sport : UInt16) (data : List UInt8) : Mbuf :=
  { Mbuf.segment sport 0 0 0 [] with
    ip.nextProtoId := ipprotoUdp
    udp := {
      srcPort := htons sport
      dstPort := htons 9999
      dgramLen := htons (UInt16.ofNat (8 + data.length))
    }
    l4 := fun i => data.getD (i - 8) 0 }

/--
The calls that bring up a datagram socket on port 9999. It gets the descriptor 3.
-/
def datagramSocket : List Act :=
  [.nsocket .granting sockDgram, .nbind 3 (htons 9999) 8]

/-- Of two datagrams the first is read in two chunks, the second of them after the other datagram. -/
theorem nrecvfrom_readExactly_iff_two
    : ∃ tr s m, Run .init tr s
        ∧ tr.map Edge.act = datagramSocket ++ [
          .udpProcess .granting (.datagram 5 [1, 2, 3]), .udpProcess .granting (.datagram 6 [4]),
          .nrecvfrom .granting 3 (fun _ => 0) 2, .nrecvfrom .granting 3 (fun _ => 0) 9,
          .nrecvfrom .granting 3 (fun _ => 0) 9]
        ∧ (datagrams 0 tr)[0]? = some m ∧ (chunksOf 0 tr 0).length = 2 ∧ ¬ ReadExactly 0 tr 0 m := by
  have hcheck : machine.check .init (datagramSocket ++ [
      .udpProcess .granting (.datagram 5 [1, 2, 3]), .udpProcess .granting (.datagram 6 [4]),
      .nrecvfrom .granting 3 (fun _ => 0) 2, .nrecvfrom .granting 3 (fun _ => 0) 9,
      .nrecvfrom .granting 3 (fun _ => 0) 9])
      (fun tr _ => (datagrams 0 tr)[0]?.isSome && (chunksOf 0 tr 0).length == 2) = true := by
    decide +kernel
  rcases Machine.exists_run_of_check hcheck with ⟨tr, s, hrun, hacts, htest⟩
  rw [Bool.and_eq_true, Option.isSome_iff_exists, beq_iff_eq] at htest
  rcases htest with ⟨⟨m, hm⟩, hlen⟩
  refine ⟨tr, s, m, hrun, hacts, hm, hlen, ?_⟩
  rw [(nrecvfrom_readExactly_iff hrun 0 hm).2.2]
  intro hnil
  rw [hnil] at hlen
  contradiction

/-- One datagram of three bytes, read with room for all of it, comes out as eleven bytes. -/
theorem not_nrecvfrom_readExactly
    : ¬∀ tr s a k m, Run .init tr s → (datagrams a tr)[k]? = some m → ReadExactly a tr k m := by
  have hcheck : machine.check .init (datagramSocket ++ [
      .udpProcess .granting (.datagram 5 [1, 2, 3]), .nrecvfrom .granting 3 (fun _ => 0) 64])
      (fun tr _ => (datagrams 0 tr)[0]?.any (fun m => dgramLen m == 11) && (rcvLog 0 tr).queue.isEmpty
        && ((chunksOf 0 tr 0).map (fun e => e.out.ret)).sum == 11) = true := by
    decide +kernel
  rcases Machine.exists_run_of_check hcheck with ⟨tr, s, hrun, _, htest⟩
  intro hall
  rw [Bool.and_eq_true, Bool.and_eq_true, Option.any_eq_true, List.isEmpty_iff, beq_iff_eq] at htest
  rcases htest with ⟨⟨⟨m, hm, hlen⟩, hqueue⟩, hsum⟩
  rw [beq_iff_eq] at hlen
  have htotal := (hall tr s 0 0 m hrun hm).total (by simp [readWhole, hqueue])
  rw [hsum, hlen] at htotal
  contradiction

end NgStack
