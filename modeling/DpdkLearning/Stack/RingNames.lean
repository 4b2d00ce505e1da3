import DpdkLearning.Stack.Lemmas.System

/-!
This module contains the names under which the rings of sockets and streams are registered, and which calls
ask for a name that is taken.
-/

open Lib

namespace NgStack

/--
What a pair of rings is created for: a socket of `nsocket`, or a stream with a peer.
-/
inductive Maker where
  | dgram
  | stream
  | peer (sip : UInt32) (sport : UInt16)

/--
The names of the two rings.
-/
def Maker.names : Maker → List RingName
  | .dgram => ["recv buffer".toList, "send buffer".toList]
  | .stream => ["tcp recv buffer".toList, "tcp send buffer".toList]
  | .peer sip sport => [ngTcpRingName "sndbuf" sip sport, ngTcpRingName "bufname" sip sport]

/--
The address of `b` goes on behind the one of `a` with digits that the port of `a` starts with, and the rest
of this port is the one of `b`.
-/
def readsOn (a : UInt32) (p : UInt16) (b : UInt32) (q : UInt16) : Prop :=
  ∃ d, Nat.toDigits 16 b.toNat = Nat.toDigits 16 a.toNat ++ d
    ∧ Nat.toDigits 10 p.toNat = d ++ Nat.toDigits 10 q.toNat

/--
Two sockets of one type, or two peers whose address and port run into each other.
-/
def Maker.clash : Maker → Maker → Prop
  | .dgram, .dgram => True
  | .stream, .stream => True
  | .peer a p, .peer b q => readsOn a p b q ∨ readsOn b q a p
  | _, _ => False

/--
What a call asks for rings for.
-/
def Stack.maker (s : Stack) : Act → Option Maker
  | .nsocket env type =>
    if !env.rteMalloc 0 then none
    else if type = sockDgram then some .dgram
    else if type = sockStream then some .stream
    else none
  | .ngTcpProcess env m =>
    if cksumOk env m && (ngTcpStreamOf s m).any (fun found => found.2.status == .listen)
        && hasFlag m.tcp.tcpFlags rteTcpSynFlag && env.rteMalloc 0 then
      some (.peer m.ip.srcAddr m.tcp.srcPort)
    else
      none
  | _ => none

/--
The names a call asks for are not taken.
-/
def Stack.unused (s : Stack) (act : Act) : Prop :=
  ∀ m, s.maker act = some m → ∀ name ∈ m.names, name ∉ s.ringNames

def Localhost.hasRings (host : Localhost) : Bool :=
  host.sndbuf.isSome && host.rcvbuf.isSome

structure Stack.RingsThere (s : Stack) : Prop where
  streams : ∀ a st, s.stream? a = some st → st.hasRings = true
  hosts : ∀ a host, s.lhost.get? a = some host → host.hasRings = true

/--
The calls of `nsocket`, the segments that create a stream with a new 4-tuple, and the calls that set up a
listener for them. A ring is refused for its name only.
-/
def Stack.permits (s : Stack) : Act → Bool
  | .nsocket env _ => env.rteRingCreate 0 && env.rteRingCreate 1
  | .nbind _ _ _ => true
  | .nlisten _ => true
  | .ngTcpProcess env m =>
    (env.rteRingCreate 0 && env.rteRingCreate 1) && hasFlag m.tcp.tcpFlags rteTcpSynFlag
      && (s.table.tcbSet.find? (fun st => st.sip == m.ip.srcAddr && st.dip == m.ip.dstAddr
        && st.sport == m.tcp.srcPort && st.dport == m.tcp.dstPort)).isNone
  | _ => false

/--
What has been asked for so far.
-/
def makers (tr : List Step) : List Maker :=
  tr.filterMap (fun e => e.pre.maker e.act)

/--
No call of the run, and not the next one either, asks for a name that is taken, and all sockets and streams
have their rings.
-/
structure CollisionFree (tr : List Step) (s : Stack) (act : Act) : Prop where
  past : ∀ e ∈ tr, e.pre.unused e.act
  now : s.unused act
  rings : s.RingsThere

section Names

variable {m m' : Maker} {name : RingName}

theorem ngTcpRingName_eq_iff (kind : String) (a b : UInt32) (p q : UInt16)
    : ngTcpRingName kind a p = ngTcpRingName kind b q ↔ readsOn a p b q ∨ readsOn b q a p := by
  unfold ngTcpRingName
  rw [List.append_assoc, List.append_assoc, List.append_cancel_left_eq, List.append_eq_append_iff]
  unfold readsOn
  constructor
  . rintro (⟨d, hb, hp⟩ | ⟨d, ha, hq⟩)
    . exact .inl ⟨d, hb, hp⟩
    . exact .inr ⟨d, ha, hq⟩
  . rintro (⟨d, hb, hp⟩ | ⟨d, ha, hq⟩)
    . exact .inl ⟨d, hb, hp⟩
    . exact .inr ⟨d, ha, hq⟩

theorem exists_name (m : Maker) : ∃ name, name ∈ m.names := by
  cases m <;> exact ⟨_, List.mem_cons_self⟩

theorem names_of_clash (h : m.clash m') : m.names = m'.names := by
  cases m with
  | dgram =>
    cases m' with
    | dgram => rfl
    | _ => contradiction
  | stream =>
    cases m' with
    | stream => rfl
    | _ => contradiction
  | peer a p =>
    cases m' with
    | peer b q =>
      change readsOn a p b q ∨ readsOn b q a p at h
      change [_, _] = [_, _]
      rw [(ngTcpRingName_eq_iff "sndbuf" a b p q).mpr h, (ngTcpRingName_eq_iff "bufname" a b p q).mpr h]
    | _ => contradiction

/--
How the names start.
-/
def Maker.marks : Maker → List (List Char)
  | .dgram => ["recv ".toList, "send ".toList]
  | .stream => ["tcp r".toList, "tcp s".toList]
  | .peer _ _ => ["sndbu".toList, "bufna".toList]

theorem mark_of_mem (h : name ∈ m.names) : name.take 5 ∈ m.marks := by
  cases m with
  | dgram | stream =>
    revert name
    decide
  | peer sip sport =>
    change name ∈ [_, _] at h
    change _ ∈ [_, _]
    simp only [List.mem_cons, List.not_mem_nil, or_false, ngTcpRingName] at h ⊢
    rcases h with rfl | rfl
    . exact .inl rfl
    . exact .inr rfl

theorem readsOn_of_mem {a b : UInt32} {p q : UInt16} (h : name ∈ (Maker.peer a p).names)
    (h' : name ∈ (Maker.peer b q).names) : readsOn a p b q ∨ readsOn b q a p := by
  change name ∈ [_, _] at h h'
  simp only [List.mem_cons, List.not_mem_nil, or_false] at h h'
  rcases h with rfl | rfl
  . rcases h' with heq | heq
    . exact (ngTcpRingName_eq_iff "sndbuf" a b p q).mp heq
    . simp [ngTcpRingName] at heq
  . rcases h' with heq | heq
    . simp [ngTcpRingName] at heq
    . exact (ngTcpRingName_eq_iff "bufname" a b p q).mp heq

/-- A name tells what the ring is for, up to a clash. -/
theorem clash_of_mem (h : name ∈ m.names) (h' : name ∈ m'.names) : m.clash m' := by
  have hmark := mark_of_mem h
  have hmark' := mark_of_mem h'
  generalize name.take 5 = mark at hmark hmark'
  -- names of different kinds start in different ways
  cases m with
  | dgram =>
    cases m' with
    | dgram => trivial
    | stream | peer =>
      revert mark
      change ∀ mark ∈ [_, _], mark ∈ [_, _] → False
      decide
  | stream =>
    cases m' with
    | stream => trivial
    | dgram | peer =>
      revert mark
      change ∀ mark ∈ [_, _], mark ∈ [_, _] → False
      decide
  | peer a p =>
    cases m' with
    | dgram | stream =>
      revert mark
      change ∀ mark ∈ [_, _], mark ∈ [_, _] → False
      decide
    | peer b q => exact readsOn_of_mem h h'

end Names

section Create

variable {env : Env} {s s' : Stack} {act : Act} {out : Out}

theorem rteRingCreate_taken {α : Type} {ok : Bool} {names : List RingName} {name : RingName}
    (h : name ∈ names) : rteRingCreate (α := α) ok names name = (none, names) := by
  rw [rteRingCreate, if_neg]
  simp [h]

theorem rteRingCreate_free {α : Type} {names : List RingName} {name : RingName} (h : name ∉ names)
    : rteRingCreate (α := α) true names name = (some ⟨name, .empty⟩, name :: names) := by
  rw [rteRingCreate, if_pos]
  simp [h]

/--
What a call does to the names and the rings: it registers what it asks for, and if that is free, it gets its
rings.
-/
structure Registers (s : Stack) (act : Act) (s' : Stack) : Prop where
  names : ∀ name, name ∈ s'.ringNames ↔ name ∈ s.ringNames ∨ ∃ m, s.maker act = some m ∧ name ∈ m.names
  rings : s.unused act → s.RingsThere → s'.RingsThere

/--
Names are taken in pairs.
-/
def Stack.Paired (s : Stack) : Prop :=
  ∀ m : Maker, ∀ x ∈ m.names, ∀ y ∈ m.names, x ∈ s.ringNames → y ∈ s.ringNames

theorem Registers.of_none (hmaker : s.maker act = none) (hnames : s'.ringNames = s.ringNames)
    (hrings : s.RingsThere → s'.RingsThere) : Registers s act s' where
  names := by simp [hmaker, hnames]
  rings _ := hrings

theorem Registers.of_taken {m : Maker} {name : RingName} (hmaker : s.maker act = some m)
    (hpaired : s.Paired) (hname : name ∈ m.names) (htaken : name ∈ s.ringNames)
    (hnames : s'.ringNames = s.ringNames) : Registers s act s' where
  names name' := by
    rw [hnames]
    constructor
    . exact .inl
    . rintro (hold | ⟨m', hm', hname'⟩)
      . exact hold
      . rw [hmaker, Option.some_inj] at hm'
        subst hm'
        exact hpaired m name hname name' hname' htaken
  rings hunused := absurd htaken (hunused m hmaker name hname)

theorem Registers.of_free {m : Maker} {x y : RingName} (hmaker : s.maker act = some m)
    (hm : m.names = [x, y]) (hnames : s'.ringNames = y :: x :: s.ringNames)
    (hrings : s.RingsThere → s'.RingsThere) : Registers s act s' where
  names name := by
    have hnew : (∃ m', s.maker act = some m' ∧ name ∈ m'.names) ↔ name ∈ [x, y] := by
      simp [hmaker, hm]
    rw [hnew, hnames, List.mem_cons, List.mem_cons, List.mem_pair]
    constructor
    . rintro (rfl | rfl | hold)
      . exact .inr (.inr rfl)
      . exact .inr (.inl rfl)
      . exact .inl hold
    . rintro (hold | rfl | rfl)
      . exact .inr (.inr hold)
      . exact .inr (.inl rfl)
      . exact .inl rfl
  rings _ := hrings

theorem ringsThere_modifyStream {a : Addr} {f : NgTcpStream → NgTcpStream} (h : s.RingsThere)
    (hf : ∀ st, st.hasRings = true → (f st).hasRings = true) : (s.modifyStream a f).RingsThere where
  streams b st hst := by
    rw [stream?_modifyStream] at hst
    split at hst
    . rw [Option.map_eq_some_iff] at hst
      rcases hst with ⟨st', hst', rfl⟩
      exact hf st' (h.streams b st' hst')
    . exact h.streams b st hst
  hosts := h.hosts

theorem ringsThere_addStream {st : NgTcpStream} (h : s.RingsThere) (hst : st.hasRings = true)
    (names : List RingName)
    : Stack.RingsThere { s with ringNames := names, table.tcbSet := s.table.tcbSet.add st } where
  streams a st' hst' := by
    change (s.table.tcbSet.add st).get? a = some st' at hst'
    rw [ObjList.get?_add] at hst'
    split at hst'
    . cases hst'
      exact hst
    . exact h.streams a st' hst'
  hosts := h.hosts

theorem registers_nbind {sockfd r : Int} {sinPort : UInt16} {sAddr : UInt32}
    (h : nbind s sockfd sinPort sAddr = .ok (r, s')) : Registers s (.nbind sockfd sinPort sAddr) s' := by
  unfold nbind at h
  split at h
  . cases h
    exact .of_none rfl rfl id
  . split at h
    . split at h
      . contradiction
      . next a host _ =>
        cases h
        refine .of_none rfl rfl ?_
        intro hrings
        refine ⟨hrings.streams, ?_⟩
        intro b host' hhost'
        dsimp only at hhost'
        rw [ObjList.get?_modify] at hhost'
        split at hhost'
        . rw [Option.map_eq_some_iff] at hhost'
          rcases hhost' with ⟨old, hold, rfl⟩
          exact hrings.hosts b old hold
        . exact hrings.hosts b host' hhost'
    . split at h
      . split at h
        . contradiction
        . cases h
          exact .of_none rfl rfl (fun hrings => ringsThere_modifyStream hrings (fun _ hst => hst))
      . cases h
        exact .of_none rfl rfl id

theorem registers_nlisten {sockfd r : Int} (h : nlisten s sockfd = .ok (r, s'))
    : Registers s (.nlisten sockfd) s' := by
  rcases nlisten_cases h with rfl | ⟨a, st, _, rfl⟩
  . exact .of_none rfl rfl id
  . exact .of_none rfl rfl (fun hrings => ringsThere_modifyStream hrings (fun _ hst => hst))

theorem free_of_paired {m : Maker} {x y : RingName} (hpaired : s.Paired) (hm : m.names = [x, y])
    (hxy : y ≠ x) (hfree : x ∉ s.ringNames) : y ∉ x :: s.ringNames := by
  rw [List.mem_cons, not_or]
  refine ⟨hxy, ?_⟩
  intro hy
  exact hfree (hpaired m y (by simp [hm]) x (by simp [hm]) hy)

theorem ringsThere_addHost {host : Localhost} {names : List RingName} {fdTable : FdTable}
    (h : s.RingsThere) (hhost : host.hasRings = true)
    : Stack.RingsThere { s with fdTable, ringNames := names, lhost := s.lhost.add host } where
  streams := h.streams
  hosts a host' hhost' := by
    dsimp only at hhost'
    rw [ObjList.get?_add] at hhost'
    split at hhost'
    . cases hhost'
      exact hhost
    . exact h.hosts a host' hhost'

theorem registers_nsocket (hok : (env.rteRingCreate 0 && env.rteRingCreate 1) = true) (hpaired : s.Paired) (type : Int)
    : Registers s (.nsocket env type) (nsocket env s type).2 := by
  unfold nsocket
  dsimp only [-String.reduceToList]
  rw [Bool.and_eq_true] at hok
  rw [hok.1, hok.2]
  by_cases hdgram : type = sockDgram
  . rw [if_pos hdgram]
    cases hmalloc : env.rteMalloc 0 with
    | false =>
      have hmaker : s.maker (.nsocket env type) = none := by simp [Stack.maker, hmalloc]
      exact .of_none hmaker rfl (fun hrings => ⟨hrings.streams, hrings.hosts⟩)
    | true =>
      have hmaker : s.maker (.nsocket env type) = some .dgram := by simp [Stack.maker, hmalloc, hdgram]
      by_cases htaken : "recv buffer".toList ∈ s.ringNames
      . rw [rteRingCreate_taken htaken]
        exact .of_taken hmaker hpaired List.mem_cons_self htaken rfl
      -- Names are taken in pairs, so that the second ring is created with the first one.
      . rw [rteRingCreate_free htaken]
        dsimp only [-String.reduceToList]
        rw [rteRingCreate_free (free_of_paired hpaired (m := .dgram) rfl (by decide) htaken)]
        exact .of_free hmaker rfl rfl (fun hrings => ringsThere_addHost hrings rfl)
  . rw [if_neg hdgram]
    by_cases hstream : type = sockStream
    . rw [if_pos hstream]
      cases hmalloc : env.rteMalloc 0 with
      | false =>
        have hmaker : s.maker (.nsocket env type) = none := by simp [Stack.maker, hmalloc]
        exact .of_none hmaker rfl (fun hrings => ⟨hrings.streams, hrings.hosts⟩)
      | true =>
        have hdiffer : sockStream ≠ sockDgram := by decide
        have hmaker : s.maker (.nsocket env type) = some .stream := by
          simp [Stack.maker, hmalloc, hstream, hdiffer]
        by_cases htaken : "tcp recv buffer".toList ∈ s.ringNames
        . rw [rteRingCreate_taken htaken]
          exact .of_taken hmaker hpaired List.mem_cons_self htaken rfl
        . rw [rteRingCreate_free htaken]
          dsimp only [-String.reduceToList]
          rw [rteRingCreate_free (free_of_paired hpaired (m := .stream) rfl (by decide) htaken)]
          refine .of_free hmaker rfl rfl ?_
          intro hrings
          exact ringsThere_addStream (s := { s with fdTable := (getFdFrombitmap s.fdTable).2 })
            ⟨hrings.streams, hrings.hosts⟩ rfl _
    . rw [if_neg hstream]
      have hmaker : s.maker (.nsocket env type) = none := by simp [Stack.maker, hdgram, hstream]
      exact .of_none hmaker rfl (fun hrings => ⟨hrings.streams, hrings.hosts⟩)

theorem ngTcpStreamCreate_rings (hok : (env.rteRingCreate 0 && env.rteRingCreate 1) = true) (hpaired : s.Paired)
    (hmalloc : env.rteMalloc 0 = true) (sip dip : UInt32) (sport dport : UInt16)
    : ∃ syn, (ngTcpStreamCreate env s sip dip sport dport).1 = some syn
        ∧ (ngTcpRingName "sndbuf" sip sport ∈ s.ringNames
            ∧ (ngTcpStreamCreate env s sip dip sport dport).2 = s.ringNames
          ∨ ngTcpRingName "sndbuf" sip sport ∉ s.ringNames
            ∧ (ngTcpStreamCreate env s sip dip sport dport).2
              = ngTcpRingName "bufname" sip sport :: ngTcpRingName "sndbuf" sip sport :: s.ringNames
            ∧ syn.hasRings = true) := by
  unfold ngTcpStreamCreate
  rw [Bool.and_eq_true] at hok
  rw [hmalloc, hok.1, hok.2]
  by_cases htaken : ngTcpRingName "sndbuf" sip sport ∈ s.ringNames
  . have htaken' : ngTcpRingName "bufname" sip sport ∈ s.ringNames :=
      hpaired (.peer sip sport) _ (by simp [Maker.names]) _ (by simp [Maker.names]) htaken
    rw [rteRingCreate_taken htaken]
    dsimp only
    rw [rteRingCreate_taken htaken']
    exact ⟨_, rfl, .inl ⟨htaken, rfl⟩⟩
  . have hdiffer : ngTcpRingName "bufname" sip sport ≠ ngTcpRingName "sndbuf" sip sport := by
      simp [ngTcpRingName]
    rw [rteRingCreate_free htaken]
    dsimp only
    rw [rteRingCreate_free (free_of_paired hpaired (m := .peer sip sport) rfl hdiffer htaken)]
    exact ⟨_, rfl, .inr ⟨htaken, rfl, rfl⟩⟩

theorem registers_ngTcpProcess {m : Mbuf} {r : Int} (hpermits : s.permits (.ngTcpProcess env m) = true)
    (hpaired : s.Paired) (h : ngTcpProcess env s m = .ok (r, s'))
    : Registers s (.ngTcpProcess env m) s' := by
  unfold Stack.permits at hpermits
  rw [Bool.and_eq_true, Bool.and_eq_true, Option.isNone_iff_eq_none] at hpermits
  rcases hpermits with ⟨⟨hok, hsyn⟩, hnew⟩
  unfold ngTcpProcess at h
  cases hcksum : cksumOk env m with
  | false =>
    rw [hcksum] at h
    cases h
    exact .of_none (by simp [Stack.maker, hcksum]) rfl (fun hrings => ⟨hrings.streams, hrings.hosts⟩)
  | true =>
    rw [hcksum] at h
    cases hfind : ngTcpStreamOf s m with
    | none =>
      rw [hfind] at h
      cases h
      exact .of_none (by simp [Stack.maker, hfind]) rfl (fun hrings => ⟨hrings.streams, hrings.hosts⟩)
    | some found =>
      rcases found with ⟨a, stream⟩
      -- A segment of a new peer is for a listener.
      have hlisten : stream.status = .listen := by
        rw [ngTcpStreamOf, ngTcpStreamSearch, hnew] at hfind
        have := ObjList.find?_some hfind
        rw [Bool.and_eq_true, beq_iff_eq, beq_iff_eq] at this
        exact this.2
      rw [hfind] at h
      dsimp only [Bool.not_true] at h
      rw [if_neg (by decide), ngTcpDispatch, hlisten] at h
      dsimp only [ngTcpHandleListen] at h
      rw [if_pos hsyn, if_pos hlisten] at h
      cases hmalloc : env.rteMalloc 0 with
      | false =>
        have hnone : ngTcpStreamCreate env s m.ip.srcAddr m.ip.dstAddr m.tcp.srcPort m.tcp.dstPort
            = (none, s.ringNames) := by
          simp [ngTcpStreamCreate, hmalloc]
        rw [hnone] at h
        contradiction
      | true =>
        have hmaker : s.maker (.ngTcpProcess env m) = some (.peer m.ip.srcAddr m.tcp.srcPort) := by
          simp [Stack.maker, hcksum, hfind, hlisten, hsyn, hmalloc]
        rcases ngTcpStreamCreate_rings hok hpaired hmalloc m.ip.srcAddr m.ip.dstAddr m.tcp.srcPort
          m.tcp.dstPort with ⟨syn, hcreated, hrings⟩
        generalize ngTcpStreamCreate env s m.ip.srcAddr m.ip.dstAddr m.tcp.srcPort m.tcp.dstPort = created
          at h hcreated hrings
        rcases created with ⟨first, names⟩
        dsimp only at hcreated hrings
        subst hcreated
        -- Whatever comes behind `ng_tcp_stream_create` leaves the names alone.
        have hdone : ∀ t : Stack, t.ringNames = names → (s.RingsThere → syn.hasRings = true → t.RingsThere)
            → Registers s (.ngTcpProcess env m) t := by
          intro t hnames hthere
          rcases hrings with ⟨htaken, rfl⟩ | ⟨_, rfl, hsynrings⟩
          . exact .of_taken hmaker hpaired List.mem_cons_self htaken hnames
          . exact .of_free hmaker rfl hnames (fun h => hthere h hsynrings)
        dsimp only at h
        cases hmalloc1 : env.rteMalloc 1 with
        | false =>
          rw [hmalloc1] at h
          cases h
          refine hdone _ rfl ?_
          intro hthere hsynrings
          have hadd := ringsThere_addStream hthere hsynrings names
          exact ⟨hadd.streams, hadd.hosts⟩
        | true =>
          rw [hmalloc1] at h
          rw [if_neg (by decide)] at h
          cases hsnd : syn.sndbuf with
          | none =>
            rw [hsnd] at h
            contradiction
          | some sndbuf =>
            rw [hsnd] at h
            cases h
            refine hdone _ rfl ?_
            intro hthere hsynrings
            have hadd := ringsThere_addStream hthere hsynrings names
            refine ⟨(ringsThere_modifyStream hadd ?_).streams, hadd.hosts⟩
            intro st hst
            rw [NgTcpStream.hasRings, Bool.and_eq_true] at hst
            exact hst.2

theorem registers_of_step (hpermits : s.permits act = true) (hpaired : s.Paired)
    (h : machine.step s act = .ok (s', out)) : Registers s act s' := by
  change s.step act = .ok (s', out) at h
  cases act with
  | nsocket env type =>
    cases h
    exact registers_nsocket hpermits hpaired type
  | nbind sockfd sinPort sAddr =>
    rcases map_eq_ok h with ⟨⟨r, t⟩, hcall, hout⟩
    cases hout
    exact registers_nbind hcall
  | nlisten sockfd =>
    rcases map_eq_ok h with ⟨⟨r, t⟩, hcall, hout⟩
    cases hout
    exact registers_nlisten hcall
  | ngTcpProcess env m =>
    rcases map_eq_ok h with ⟨⟨r, t⟩, hcall, hout⟩
    cases hout
    exact registers_ngTcpProcess hpermits hpaired hcall
  | _ => contradiction

end Create

/--
The calls that bring up a server on port 9999 and a datagram socket.
-/
def listenerUp : List Act := [
  .nsocket .granting sockDgram,
  .nsocket .granting sockStream,
  .nbind 4 (htons 9999) 0,
  .nlisten 4
]

/--
The segment with which a peer asks the server for a connection.
-/
def synOf (srcAddr : UInt32) (srcPort : UInt16) : Mbuf :=
  let m := Mbuf.segment 0 rteTcpSynFlag 100 0 []
  { m with ip.srcAddr := srcAddr, tcp.srcPort := srcPort }

section Runs

variable {tr : List Step} {s : Stack} {act : Act}

theorem makers_append (e : Step) : makers (tr ++ [e]) = makers tr ++ (e.pre.maker e.act).toList := by
  rw [makers, List.filterMap_append, makers]
  cases hmaker : e.pre.maker e.act <;> simp [hmaker]

/--
The names that are taken are the ones that have been asked for.
-/
def NamesKept (tr : List Step) (s : Stack) : Prop :=
  ∀ name, name ∈ s.ringNames ↔ ∃ m ∈ makers tr, name ∈ m.names

theorem NamesKept.paired (h : NamesKept tr s) : s.Paired := by
  intro m x hx y hy htaken
  rw [h] at htaken ⊢
  rcases htaken with ⟨m', hm', hx'⟩
  refine ⟨m', hm', ?_⟩
  rw [← names_of_clash (clash_of_mem hx hx')]
  exact hy

theorem namesKept_of_run (h : Run .init tr s) (hpermits : ∀ e ∈ tr, e.pre.permits e.act = true)
    : NamesKept tr s := by
  refine h.history_of_guard (P := NamesKept) (C := fun s act => s.permits act = true) ?_ hpermits ?_
  . intro name
    simp [Stack.init, makers]
  . intro tr s act out s' _ hkept hpermits hstep name
    rw [(registers_of_step hpermits hkept.paired hstep).names, hkept, makers_append]
    simp [or_and_right, exists_or]

theorem pairwise_append_toList {α : Type} {R : α → α → Prop} {l : List α} {o : Option α}
    : (l ++ o.toList).Pairwise R ↔ l.Pairwise R ∧ ∀ x ∈ l, ∀ y ∈ o.toList, R x y := by
  rw [List.pairwise_append]
  cases o <;> simp

theorem unused_iff (h : NamesKept tr s)
    : s.unused act ↔ ∀ m ∈ makers tr, ∀ m' ∈ (s.maker act).toList, ¬m.clash m' := by
  constructor
  . intro hunused m hm m' hm' hclash
    rw [Option.mem_toList] at hm'
    rcases exists_name m with ⟨name, hname⟩
    refine hunused m' hm' name ?_ ?_
    . rw [← names_of_clash hclash]
      exact hname
    . rw [h]
      exact ⟨m, hm, hname⟩
  . intro hnone m' hm' name hname htaken
    rw [h] at htaken
    rcases htaken with ⟨m, hm, hname'⟩
    exact hnone m hm m' (by simpa using hm') (clash_of_mem hname' hname)

/-- All calls of a run find their names free exactly when no two of them clash. -/
theorem past_unused_iff (h : Run .init tr s) (hpermits : ∀ e ∈ tr, e.pre.permits e.act = true)
    : (∀ e ∈ tr, e.pre.unused e.act) ↔ (makers tr).Pairwise (fun m m' => ¬m.clash m') := by
  induction h with
  | nil => simp [makers]
  | @snoc tr s s' act out h hstep ih =>
    rw [List.forall_mem_append, List.forall_mem_singleton] at hpermits
    rw [List.forall_mem_append, List.forall_mem_singleton, ih hpermits.1,
      unused_iff (namesKept_of_run h hpermits.1), makers_append, pairwise_append_toList]

theorem ringsThere_of_run (h : Run .init tr s) (hpermits : ∀ e ∈ tr, e.pre.permits e.act = true)
    (hunused : ∀ e ∈ tr, e.pre.unused e.act) : s.RingsThere := by
  induction h with
  | nil => exact ⟨by simp [Stack.init, Stack.stream?], by simp [Stack.init]⟩
  | @snoc tr s s' act out h hstep ih =>
    rw [List.forall_mem_append, List.forall_mem_singleton] at hpermits hunused
    exact (registers_of_step hpermits.2 (namesKept_of_run h hpermits.1).paired hstep).rings hunused.2
      (ih hpermits.1 hunused.1)

/--
The calls find the names of their rings free exactly when `nsocket` makes at most one socket of a type and
no address and port of a peer read on as those of another one.
-/
theorem collisionFree_iff (h : Run .init tr s) (hpermits : ∀ e ∈ tr, e.pre.permits e.act = true)
    (act : Act)
    : CollisionFree tr s act
        ↔ (makers tr ++ (s.maker act).toList).Pairwise (fun m m' => ¬m.clash m') := by
  rw [pairwise_append_toList, ← past_unused_iff h hpermits, ← unused_iff (namesKept_of_run h hpermits)]
  constructor
  . intro hfree
    exact ⟨hfree.past, hfree.now⟩
  . rintro ⟨hpast, hnow⟩
    exact ⟨hpast, hnow, ringsThere_of_run h hpermits hpast⟩

/-- A datagram socket, a listener and a client there is, and another client comes. -/
theorem collisionFree_iff_two
    : ∃ tr t, Run .init tr t
        ∧ tr.map Edge.act = listenerUp ++ [.ngTcpProcess .granting (.segment 5 rteTcpSynFlag 100 0 [])]
        ∧ CollisionFree tr t (.ngTcpProcess .granting (.segment 6 rteTcpSynFlag 100 0 [])) := by
  have hcheck : machine.check .init
      (listenerUp ++ [.ngTcpProcess .granting (.segment 5 rteTcpSynFlag 100 0 [])]) (fun tr t =>
        tr.all (fun e => e.pre.permits e.act)
          && decide ((makers tr ++ (t.maker (.ngTcpProcess .granting
            (.segment 6 rteTcpSynFlag 100 0 []))).toList).Pairwise (fun m m' => m.names ≠ m'.names)))
      = true := by
    decide +kernel
  rcases Machine.exists_run_of_check hcheck with ⟨tr, t, hrun, hacts, htest⟩
  rw [Bool.and_eq_true, List.all_eq_true, decide_eq_true_iff] at htest
  refine ⟨tr, t, hrun, hacts, (collisionFree_iff hrun htest.1 _).mpr ?_⟩
  refine htest.2.imp ?_
  intro m m' hnames hclash
  exact hnames (names_of_clash hclash)

/-- The rings of port 14640 of 192.168.1.7 have the names of those of port 10505 of 1.140.26.112: in hexadecimal
the one address is `701a8c0` and the other `701a8c01`, and the ports are printed as 12345 and 2345. -/
theorem not_collisionFree
    : ∃ tr t, Run .init tr t
        ∧ tr.map Edge.act = listenerUp ++ [.ngTcpProcess .granting (synOf 0x0701a8c0 12345)]
        ∧ (∀ e ∈ tr, e.pre.permits e.act = true)
        ∧ t.permits (.ngTcpProcess .granting (synOf 0x701a8c01 2345)) = true
        ∧ ¬CollisionFree tr t (.ngTcpProcess .granting (synOf 0x701a8c01 2345)) := by
  have hcheck : machine.check .init
      (listenerUp ++ [.ngTcpProcess .granting (synOf 0x0701a8c0 12345)]) (fun tr t =>
        tr.all (fun e => e.pre.permits e.act)
          && (t.permits (.ngTcpProcess .granting (synOf 0x701a8c01 2345))
          && (t.maker (.ngTcpProcess .granting (synOf 0x701a8c01 2345))).any (fun m =>
            m.names.any (fun name => t.ringNames.contains name)))) = true := by
    decide +kernel
  rcases Machine.exists_run_of_check hcheck with ⟨tr, t, hrun, hacts, htest⟩
  rw [Bool.and_eq_true, Bool.and_eq_true, List.all_eq_true, Option.any_eq_true] at htest
  rcases htest with ⟨hpermits, hpermits', m, hmaker, htaken⟩
  refine ⟨tr, t, hrun, hacts, hpermits, hpermits', ?_⟩
  rw [List.any_eq_true] at htaken
  rcases htaken with ⟨name, hname, htaken⟩
  rw [List.contains_iff_mem] at htaken
  intro hfree
  exact hfree.now m hmaker name hname htaken

end Runs

end NgStack
