import DpdkLearning.Stack.SendSequence
import DpdkLearning.Stack.Lemmas.TcpPkt

/-!
This module contains the fragments on the send buffers: who builds them, and what their header length
and their options say about the frame that `ng_tcp_pkt` makes of them.
-/

open Lib

namespace NgStack

/--
The fragments that the stack puts on a send buffer.
-/
inductive Built : NgTcpFragment → Prop where
  | nsend (stream : NgTcpStream) (buf : List UInt8) : Built (stream.sndFragment buf)
  | nclose (stream : NgTcpStream) (stale : NgTcpFragment) : Built (stream.finFragment stale)
  | handleListen (syn : NgTcpStream) (tcphdr : RteTcpHdr) : Built (synAckFragment syn tcphdr)
  | sendAckpkt (stream : NgTcpStream) (tcphdr : RteTcpHdr) : Built (ackFragment stream tcphdr)

/--
The options fill the header up to its length, there is no urgent pointer, and no data means no length.
-/
structure NgTcpFragment.WellFormed (f : NgTcpFragment) : Prop where
  hdrlen : 20 + 4 * f.optlen = 4 * ((f.hdrlenOff >>> 4).toNat : Int)
  tcpUrp : f.tcpUrp = 0
  data : f.data = none → f.length = 0

/--
The lengths of the frame and of its IP packet are those of the headers without options and the payload.
-/
def NgTcpFragment.LengthsExact (f : NgTcpFragment) : Prop :=
  ∀ cksum mbuf sip dip srcmac dstmac pkt, ngTcpPkt cksum mbuf sip dip srcmac dstmac f = .ok pkt →
    pkt.pktLen.toNat = 54 + f.length.toNat
      ∧ (ntohs (Mbuf.ofFrame pkt.addr pkt.data).ip.totalLength).toNat = 40 + f.length.toNat

/--
A call that queues a fragment gets clean memory for its options and its urgent pointer, and its data fits
into an IP packet.
-/
def queuesSound : Act → Bool
  | .nsend _ _ buf => decide (40 + (UInt32.ofNat buf.length).toNat < 65536)
  | .nclose env _ => env.staleFragment.optlen == 0 && env.staleFragment.tcpUrp == 0
  | _ => true

theorem Built.plain {f : NgTcpFragment} (h : Built f) : f.Plain := by
  cases h with
  | nsend => exact .inr rfl
  | nclose | handleListen | sendAckpkt => exact .inl rfl

theorem Built.hdrlenOff {f : NgTcpFragment} (h : Built f) : f.hdrlenOff = 0x50 := by
  cases h <;> rfl

theorem Built.data {f : NgTcpFragment} (h : Built f) (hdata : f.data = none) : f.length = 0 := by
  cases h with
  | nsend => simp [NgTcpStream.sndFragment] at hdata
  | nclose | handleListen | sendAckpkt => rfl

theorem Built.wellFormed_iff {f : NgTcpFragment} (h : Built f)
    : f.WellFormed ↔ f.optlen = 0 ∧ f.tcpUrp = 0 := by
  have hoff : (f.hdrlenOff >>> 4).toNat = 5 := by
    rw [h.hdrlenOff]
    rfl
  constructor
  . rintro ⟨hlen, hurp, _⟩
    rw [hoff] at hlen
    exact ⟨by omega, hurp⟩
  . rintro ⟨hopt, hurp⟩
    refine ⟨?_, hurp, h.data⟩
    rw [hoff, hopt]
    rfl

theorem totalLen_toNat {f : NgTcpFragment} (h : f.optlen = 0)
    : (totalLen f).toNat = (54 + f.length.toNat) % 4294967296 := by
  have hopt : UInt64.ofInt f.optlen * 4 = 0 := by
    rw [h]
    rfl
  have := f.length.toNat_lt
  simp only [totalLen, hopt]
  simp
  omega

theorem ipTotalLength_toNat (f : NgTcpFragment)
    : (((totalLen f).toUInt64 - 14).toUInt16.toNat : Int)
        = (40 + 4 * f.optlen + f.length.toNat) % 65536 := by
  have := f.length.toNat_lt
  have hopt : (UInt64.ofInt f.optlen).toNat = (f.optlen % 2 ^ 64).toNat % 2 ^ 64 := by
    rw [UInt64.ofInt, UInt64.toNat_ofNat']
  simp only [totalLen, UInt64.toNat_toUInt16, UInt64.toNat_sub, UInt32.toNat_toUInt64,
    UInt64.toNat_toUInt32, UInt64.toNat_add, UInt64.toNat_mul, hopt]
  simp
  omega

theorem Built.lengthsExact_iff {f : NgTcpFragment} (h : Built f) (hopt : f.optlen = 0)
    : f.LengthsExact ↔ 40 + f.length.toNat < 65536 := by
  have htotal := totalLen_toNat hopt
  have hip := ipTotalLength_toNat f
  rw [hopt] at hip
  have hfield (cksum : CksumLib) (addr : Addr) (msg : Memory) (sip dip : UInt32)
      (srcmac dstmac : MacAddr) :
      ntohs (Mbuf.ofFrame addr (ngEncodeTcpApppkt cksum addr msg sip dip srcmac dstmac f)).ip.totalLength
        = ((totalLen f).toUInt64 - 14).toUInt16 := by
    rw [Mbuf.ofFrame, (ngEncodeTcpApppkt_ipHdrAt h.plain).totalLength, ntohs_htons]
  constructor
  . intro hexact
    rcases hexact ⟨fun _ => 0, fun _ => 0⟩ (some (0, fun _ => 0)) 0 0 (.replicate 6 0) (.replicate 6 0) _ rfl
      with ⟨_, hlen⟩
    rw [hfield] at hlen
    omega
  . intro hlt cksum mbuf sip dip srcmac dstmac pkt hpkt
    unfold ngTcpPkt at hpkt
    cases mbuf with
    | none => contradiction
    | some mbuf =>
      cases hpkt
      rw [htotal, hfield]
      omega

theorem Built.sound_iff {f : NgTcpFragment} (h : Built f)
    : f.WellFormed ∧ f.LengthsExact
        ↔ f.optlen = 0 ∧ f.tcpUrp = 0 ∧ 40 + f.length.toNat < 65536 := by
  constructor
  . rintro ⟨hwf, hexact⟩
    rcases h.wellFormed_iff.mp hwf with ⟨hopt, hurp⟩
    exact ⟨hopt, hurp, (h.lengthsExact_iff hopt).mp hexact⟩
  . rintro ⟨hopt, hurp, hlen⟩
    exact ⟨h.wellFormed_iff.mpr ⟨hopt, hurp⟩, (h.lengthsExact_iff hopt).mpr hlen⟩

theorem built_queuedFragment {a : Addr} {s : Stack} {act : Act} (st : NgTcpStream)
    (h : queues a s act = true)
    : Built (st.queuedFragment act)
        ∧ ((st.queuedFragment act).WellFormed ∧ (st.queuedFragment act).LengthsExact
            ↔ queuesSound act = true) := by
  unfold queues at h
  cases hst : s.stream? a with
  | none => simp [hst] at h
  | some st1 =>
    rw [hst] at h
    cases act with
    | nsend env sockfd buf =>
      have hbuilt := Built.nsend st buf
      refine ⟨hbuilt, ?_⟩
      rw [NgTcpStream.queuedFragment, hbuilt.sound_iff]
      simp [NgTcpStream.sndFragment, NgTcpFragment.zero, queuesSound]
    | nclose env fd =>
      have hbuilt := Built.nclose st env.staleFragment
      refine ⟨hbuilt, ?_⟩
      rw [NgTcpStream.queuedFragment, hbuilt.sound_iff]
      simp [NgTcpStream.finFragment, queuesSound]
    | _ => simp at h

/--
What a step puts on the send buffer of the stream at `a`.
-/
inductive PutOn (a : Addr) (s : Stack) (act : Act) : NgTcpFragment → Prop where
  | queued {st : NgTcpStream} (hst : s.stream? a = some st) (hq : queues a s act = true)
    : PutOn a s act (st.queuedFragment act)
  | synAck (syn : NgTcpStream) (tcphdr : RteTcpHdr) : PutOn a s act (synAckFragment syn tcphdr)
  | ack (st : NgTcpStream) (tcphdr : RteTcpHdr) : PutOn a s act (ackFragment st tcphdr)

/--
The fragment is on the send buffer of the stream at `a`.
-/
def OnSndbuf (s : Stack) (a : Addr) (f : NgTcpFragment) : Prop :=
  ∃ st, s.stream? a = some st ∧ f ∈ st.sndItems

theorem putOn_of_sndAdded {s s' : Stack} {act : Act} {out : Out} {a : Addr} {st : NgTcpStream}
    {f : NgTcpFragment} (hstep : machine.step s act = .ok (s', out)) (hst : s.stream? a = some st)
    (hf : f ∈ sndAdded (some st) (s'.stream? a)) : PutOn a s act f := by
  rw [putsNext_of_step hstep hst] at hf
  split at hf
  . next hq =>
    rw [List.mem_singleton.mp hf]
    exact .queued hst hq
  . contradiction

theorem mem_sndAdded {st st' : NgTcpStream} {f g : NgTcpFragment} {n : Nat}
    (h : st'.sndItems = st.sndItems ++ enqueued n g) (hg : carriesSeq g = true)
    (hf : f ∈ st'.sndItems) : f ∈ st.sndItems ∨ f ∈ sndAdded (some st) (some st') := by
  rw [sndAdded_append h, List.mem_filter]
  rw [h, List.mem_append] at hf
  rcases hf with hf | hf
  . exact .inl hf
  . have : f = g := by
      unfold enqueued at hf
      split at hf
      . exact List.mem_singleton.mp hf
      . contradiction
    subst this
    exact .inr ⟨hf, hg⟩

/-- A fragment on a send buffer was there before the step, or the step has put it there. -/
theorem onSndbuf_of_step {s s' : Stack} {act : Act} {out : Out} {a : Addr} {f : NgTcpFragment}
    (hstep : machine.step s act = .ok (s', out)) (hf : OnSndbuf s' a f)
    : OnSndbuf s a f ∨ PutOn a s act f := by
  rcases hf with ⟨st', hst', hf⟩
  have hput := @putOn_of_sndAdded s s' act out a
  have h := streamStep_of_step hstep a
  unfold OnSndbuf
  rw [hst'] at h hput
  generalize framesOf a out.tcpFrames = frames at h
  generalize s.stream? a = o at h hput ⊢
  generalize hnew : some st' = new at h
  cases h with
  | same => exact .inl ⟨st', hnew.symm, hf⟩
  | opened _ _ _ _ hsnd =>
    cases hnew
    rw [hsnd] at hf
    contradiction
  | halfOpen _ hcreate =>
    cases hnew
    rw [hcreate.sndItems] at hf
    contradiction
  | synAck _ _ hsnd =>
    cases hnew
    rw [NgTcpStream.sndItems, Option.map_some, Option.getD_some, hsnd] at hf
    rw [List.mem_singleton.mp hf]
    exact .inr (.synAck _ _)
  | bound | listened | accepted | read | handshake =>
    cases hnew
    exact .inl ⟨_, rfl, hf⟩
  -- New fragments come from `nsend`, from `nclose`, or from the acknowledgements of a segment.
  | @sent env sockfd buf st sndbuf hact hfd hsnd =>
    cases hnew
    have hitems : NgTcpStream.sndItems { st with sndbuf := some sndbuf }
        = st.sndItems ++ enqueued st.sndItems.length (st.sndFragment buf) := hsnd
    rcases mem_sndAdded hitems (carriesSeq_sndFragment st buf) hf with hf | hf
    . exact .inl ⟨st, rfl, hf⟩
    . exact .inr (hput hstep rfl hf)
  | @fin env fd st sndbuf hact hfd hinfo hproto hstatus hmalloc hsnd =>
    cases hnew
    have hitems : NgTcpStream.sndItems { st with sndbuf := some sndbuf, status := .lastAck }
        = st.sndItems ++ enqueued st.sndItems.length (st.finFragment env.staleFragment) := hsnd
    rcases mem_sndAdded hitems (carriesSeq_finFragment st env.staleFragment) hf with hf | hf
    . exact .inl ⟨st, rfl, hf⟩
    . exact .inr (hput hstep rfl hf)
  | segment _ _ _ _ h =>
    cases hnew
    rcases h.acks with ⟨acks, hitems, _, hacks⟩
    rw [hitems, List.mem_append] at hf
    rcases hf with hf | hf
    . exact .inl ⟨_, rfl, hf⟩
    . rcases hacks f hf with ⟨st1, rfl⟩
      exact .inr (.ack st1 _)
  | out _ h =>
    cases hnew
    exact .inl ⟨_, rfl, h.mem_sndItems hf⟩
  | removed | lastAck => contradiction

theorem onSndbuf_of_queues {s s' : Stack} {act : Act} {out : Out} {a : Addr} {st : NgTcpStream}
    (hstep : machine.step s act = .ok (s', out)) (hst : s.stream? a = some st)
    (hq : queues a s act = true) : OnSndbuf s' a (st.queuedFragment act) := by
  have hput := putsNext_of_step hstep hst
  rw [PutsNext, hq, if_pos rfl] at hput
  unfold OnSndbuf
  cases hst' : s'.stream? a with
  | none => simp [hst', sndAdded] at hput
  | some st' =>
    have hmem : st.queuedFragment act ∈ sndAdded (some st) (s'.stream? a) := by
      rw [hput]
      exact List.mem_singleton_self _
    rw [hst', sndAdded] at hmem
    exact ⟨st', rfl, List.mem_of_mem_drop (List.mem_filter.mp hmem).1⟩

/--
Every fragment that a step of the run leaves on a send buffer is well formed and its frame has the lengths
of its headers and its payload.
-/
def SndbufsSound (tr : List Step) : Prop :=
  ∀ e ∈ tr, ∀ a f, OnSndbuf e.post a f → f.WellFormed ∧ f.LengthsExact

theorem sound_of_putOn {a : Addr} {s : Stack} {act : Act} {f : NgTcpFragment} (h : PutOn a s act f)
    (hsound : queues a s act = true → queuesSound act = true) : f.WellFormed ∧ f.LengthsExact := by
  cases h with
  | queued hst hq => exact (built_queuedFragment _ hq).2.mpr (hsound hq)
  | synAck syn tcphdr => exact (Built.handleListen syn tcphdr).sound_iff.mpr ⟨rfl, rfl, by simp [synAckFragment]⟩
  | ack st tcphdr => exact (Built.sendAckpkt st tcphdr).sound_iff.mpr ⟨rfl, rfl, by simp [ackFragment]⟩

theorem sound_of_run {tr : List Step} {s : Stack} (h : Run .init tr s)
    (hsound : ∀ e ∈ tr, ∀ a, queues a e.pre e.act = true → queuesSound e.act = true)
    : SndbufsSound tr ∧ ∀ a f, OnSndbuf s a f → f.WellFormed ∧ f.LengthsExact := by
  induction h with
  | nil =>
    constructor
    . intro e he
      contradiction
    . rintro a f ⟨st, hst, _⟩
      contradiction
  | @snoc tr t u act out h hstep ih =>
    rcases ih (fun e he => hsound e (by simp [he])) with ⟨hpast, hnow⟩
    have hnext : ∀ a f, OnSndbuf u a f → f.WellFormed ∧ f.LengthsExact := by
      intro a f hf
      rcases onSndbuf_of_step hstep hf with hf | hput
      . apply hnow a f hf
      . apply sound_of_putOn hput
        apply hsound ⟨t, act, out, u⟩ (by simp)
    constructor
    . intro e he
      rw [List.mem_append, List.mem_singleton] at he
      rcases he with he | rfl
      . apply hpast e he
      . exact hnext
    . exact hnext

/--
All fragments of a run are sound if and only if the calls that queue one are.
-/
theorem sndbufsSound_iff {tr : List Step} {s : Stack} (h : Run .init tr s)
    : SndbufsSound tr
        ↔ ∀ e ∈ tr, ∀ a, queues a e.pre e.act = true → queuesSound e.act = true := by
  constructor
  . intro hsound e he a hq
    rcases List.append_of_mem he with ⟨tr1, tr2, rfl⟩
    rcases h.at_edge with ⟨_, hstep, _⟩
    cases hst : e.pre.stream? a with
    | none => simp [queues, hst] at hq
    | some st =>
      rw [← (built_queuedFragment st hq).2]
      apply hsound e he a
      apply onSndbuf_of_queues hstep hst hq
  . intro hsound
    apply (sound_of_run h hsound).1

/-- A client connects, gets some bytes and is closed. -/
theorem sndbufsSound_iff_served
    : ∃ tr t, Run .init tr t
        ∧ tr.map Edge.act
          = serverUp ++ connect 5 ++ [.naccept 3, .nsend .granting 5 [1, 2, 3], .nclose .granting 5]
        ∧ SndbufsSound tr := by
  have hcheck : machine.check .init
      (serverUp ++ connect 5 ++ [.naccept 3, .nsend .granting 5 [1, 2, 3], .nclose .granting 5])
      (fun tr _ => tr.all (fun e => queuesSound e.act)) = true := by
    decide +kernel
  rcases Machine.exists_run_of_check hcheck with ⟨tr, t, hrun, hacts, htest⟩
  rw [List.all_eq_true] at htest
  refine ⟨tr, t, hrun, hacts, (sndbufsSound_iff hrun).mpr ?_⟩
  intro e he a _
  apply htest e he

/--
What `rte_malloc` gives out held an option before.
-/
def Env.recycling : Env :=
  { Env.granting with staleFragment := { NgTcpFragment.zero with optlen := 1 } }

/-- The FIN that `nclose` builds in such memory has no room for the option it claims to have. -/
theorem not_sndbufsSound : ¬∀ tr t, Run .init tr t → SndbufsSound tr := by
  have hcheck : machine.check .init (serverUp ++ connect 5 ++ [.naccept 3, .nclose .recycling 5])
      (fun tr _ => tr.any (fun e => (e.post.stream? 1).any (fun st =>
        st.sndItems.any (fun f => f.optlen == 1 && f.hdrlenOff == 0x50)))) = true := by
    decide +kernel
  rcases Machine.exists_run_of_check hcheck with ⟨tr, t, hrun, _, htest⟩
  intro hall
  rw [List.any_eq_true] at htest
  rcases htest with ⟨e, he, hstream⟩
  rw [Option.any_eq_true] at hstream
  rcases hstream with ⟨st, hst, hitem⟩
  rw [List.any_eq_true] at hitem
  rcases hitem with ⟨f, hf, hfields⟩
  rw [Bool.and_eq_true, beq_iff_eq, beq_iff_eq] at hfields
  have hlen := (hall tr t hrun e he 1 f ⟨st, hst, hf⟩).1.hdrlen
  rw [hfields.1, hfields.2] at hlen
  contradiction

end NgStack
