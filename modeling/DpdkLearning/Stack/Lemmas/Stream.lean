import DpdkLearning.Stack.Lemmas.System

/-!
This module contains what one step of the machine can do to the stream at a given address.
-/

open Lib

namespace NgStack

/--
What a step does to the stream at `a`, and the fragments it sends for it.
-/
inductive StreamStep (s : Stack) (a : Addr) (act : Act)
    : List NgTcpFragment → Option NgTcpStream → Option NgTcpStream → Prop where
  | same (st : Option NgTcpStream) : StreamStep s a act [] st st
  | opened {env : Env} {type : Int} {st : NgTcpStream} (hact : act = .nsocket env type)
    (hproto : st.protocol = ipprotoTcp) (hstatus : st.status = .closed) (hrcv : st.rcvItems = [])
    (hsnd : st.sndItems = []) (hfd : st.fd = (getFdFrombitmap s.fdTable).1)
    (hnew : a = s.table.tcbSet.next) (hsip : st.sip = 0) (hrings : st.hasRings = true)
    : StreamStep s a act [] none (some st)
  | halfOpen {env : Env} {m : Mbuf} {syn : NgTcpStream} (hact : act = .ngTcpProcess env m)
    (hcreate : Created env s m syn) (hnew : a = s.table.tcbSet.next) {l : Addr}
    {listener : NgTcpStream} (hcksum : cksumOk env m = true)
    (hfind : ngTcpStreamOf s m = some (l, listener)) (hlisten : listener.status = .listen)
    (hsyn : hasFlag m.tcp.tcpFlags rteTcpSynFlag = true) (hmalloc : env.rteMalloc 1 = false)
    : StreamStep s a act [] none (some syn)
  | synAck {env : Env} {m : Mbuf} {syn : NgTcpStream} {sndbuf : RteRing NgTcpFragment}
    (hact : act = .ngTcpProcess env m) (hcreate : Created env s m syn)
    (hsnd : sndbuf.items = [synAckFragment syn m.tcp]) (hnew : a = s.table.tcbSet.next) {l : Addr}
    {listener : NgTcpStream} (hcksum : cksumOk env m = true)
    (hfind : ngTcpStreamOf s m = some (l, listener)) (hlisten : listener.status = .listen)
    (hsyn : hasFlag m.tcp.tcpFlags rteTcpSynFlag = true)
    : StreamStep s a act [] none (some { syn with
        rcvNxt := (synAckFragment syn m.tcp).acknum
        sndbuf := some sndbuf
        status := .synRcvd })
  | bound {sockfd : Int} {sinPort : UInt16} {sAddr : UInt32} {mac : MacAddr}
    {st : NgTcpStream} (hact : act = .nbind sockfd sinPort sAddr) (hfd : st.fd = sockfd)
    (hinfo : getHostinfoFromfd s sockfd = some (.stream a st))
    : StreamStep s a act [] (some st) (some { st with
        dport := sinPort, dip := sAddr, localmac := mac, status := .closed })
  | listened {sockfd : Int} {st : NgTcpStream} (hact : act = .nlisten sockfd)
    (hfd : st.fd = sockfd) (hinfo : getHostinfoFromfd s sockfd = some (.stream a st))
    : StreamStep s a act [] (some st) (some { st with status := .listen })
  | accepted {sockfd : Int} {l : Addr} {listener st : NgTcpStream} (hact : act = .naccept sockfd)
    (hinfo : getHostinfoFromfd s sockfd = some (.stream l listener))
    (hfind : getAcceptTcb s listener.dport = some (a, st))
    : StreamStep s a act [] (some st) (some { st with fd := (getFdFrombitmap s.fdTable).1 })
  | sent {env : Env} {sockfd : Int} {buf : List UInt8} {st : NgTcpStream}
    {sndbuf : RteRing NgTcpFragment} (hact : act = .nsend env sockfd buf) (hfd : st.fd = sockfd)
    (hsnd : sndbuf.items = st.sndItems ++ enqueued st.sndItems.length (st.sndFragment buf))
    : StreamStep s a act [] (some st) (some { st with sndbuf := some sndbuf })
  | read {sockfd : Int} {buf : Nat → UInt8} {len : Nat} {st : NgTcpStream}
    {rcvbuf : RteRing NgTcpFragment} (hact : act = .nrecv sockfd buf len) (hfd : st.fd = sockfd)
    (hrcv : rcvbuf.items.length ≤ st.rcvItems.length)
    : StreamStep s a act [] (some st) (some { st with rcvbuf := some rcvbuf })
  | fin {env : Env} {fd : Int} {st : NgTcpStream} {sndbuf : RteRing NgTcpFragment}
    (hact : act = .nclose env fd) (hfd : st.fd = fd)
    (hinfo : getHostinfoFromfd s fd = some (.stream a st)) (hproto : st.protocol = ipprotoTcp)
    (hstatus : st.status ≠ .listen) (hmalloc : env.rteMalloc 0 = true)
    (hsnd : sndbuf.items
      = st.sndItems ++ enqueued st.sndItems.length (st.finFragment env.staleFragment))
    : StreamStep s a act [] (some st) (some { st with sndbuf := some sndbuf, status := .lastAck })
  | removed {env : Env} {fd : Int} {st : NgTcpStream} (hact : act = .nclose env fd)
    (hfd : st.fd = fd) (hstatus : st.status = .listen)
    (hinfo : getHostinfoFromfd s fd = some (.stream a st)) : StreamStep s a act [] (some st) none
  | handshake {env : Env} {m : Mbuf} {st : NgTcpStream} (hact : act = .ngTcpProcess env m)
    (hcksum : cksumOk env m = true) (hfind : ngTcpStreamOf s m = some (a, st))
    (hstatus : st.status = .synRcvd) (hack : hasFlag m.tcp.tcpFlags rteTcpAckFlag = true)
    : StreamStep s a act [] (some st) (some { st with status := .established })
  | segment {env : Env} {m : Mbuf} {st st' : NgTcpStream} {ep' : Option Eventpoll}
    (hact : act = .ngTcpProcess env m) (hcksum : cksumOk env m = true)
    (hfind : ngTcpStreamOf s m = some (a, st)) (hstatus : st.status = .established)
    (h : SegmentHandled env m st s.table.ep st' ep')
    : StreamStep s a act [] (some st) (some st')
  | lastAck {env : Env} {m : Mbuf} {st : NgTcpStream} (hact : act = .ngTcpProcess env m)
    (hcksum : cksumOk env m = true) (hfind : ngTcpStreamOf s m = some (a, st))
    (hstatus : st.status = .lastAck) (hack : hasFlag m.tcp.tcpFlags rteTcpAckFlag = true)
    : StreamStep s a act [] (some st) none
  | out {env : Env} {frames : List NgTcpFragment} {st st' : NgTcpStream}
    (hact : act = .ngTcpOut env) (h : StreamOut s.arpt st frames st')
    : StreamStep s a act frames (some st) (some st')

theorem stream?_congr {s s' : Stack} (h : s'.table = s.table) (a : Addr)
    : s'.stream? a = s.stream? a := by
  rw [Stack.stream?, h, Stack.stream?]

theorem stream?_afterSegment {s : Stack} {a : Addr} {st st' : NgTcpStream} (ep : Option Eventpoll)
    (h : s.stream? a = some st) (b : Addr)
    : (s.afterSegment a st' ep).stream? b = if b = a then some st' else s.stream? b := by
  unfold Stack.afterSegment Stack.stream?
  dsimp
  rw [ObjList.get?_modify]
  split
  . next heq =>
    subst heq
    rw [Stack.stream?] at h
    rw [h]
    rfl
  . rfl

theorem StreamStep.of_modifyStream {s : Stack} {act : Act} {b : Addr} {st : NgTcpStream}
    {f : NgTcpStream → NgTcpStream} (hst : s.stream? b = some st)
    (h : StreamStep s b act [] (some st) (some (f st))) (a : Addr)
    : StreamStep s a act [] (s.stream? a) ((s.modifyStream b f).stream? a) := by
  rw [stream?_modifyStream]
  split
  . next heq =>
    subst heq
    rw [hst]
    exact h
  . exact .same (s.stream? a)

theorem StreamStep.of_afterSegment {s : Stack} {act : Act} {b : Addr} {st st' : NgTcpStream}
    (ep : Option Eventpoll) (hst : s.stream? b = some st)
    (h : StreamStep s b act [] (some st) (some st')) (a : Addr)
    : StreamStep s a act [] (s.stream? a) ((s.afterSegment b st' ep).stream? a) := by
  rw [stream?_afterSegment ep hst]
  split
  . next heq =>
    subst heq
    rw [hst]
    exact h
  . exact .same (s.stream? a)

theorem StreamStep.of_add {s s' : Stack} {act : Act} {st : NgTcpStream}
    (hs' : s'.table.tcbSet = s.table.tcbSet.add st)
    (h : StreamStep s s.table.tcbSet.next act [] none (some st)) (a : Addr)
    : StreamStep s a act [] (s.stream? a) (s'.stream? a) := by
  rw [Stack.stream?, Stack.stream?, hs', ObjList.get?_add]
  split
  . next heq =>
    subst heq
    rw [ObjList.get?_next]
    exact h
  . exact .same _

theorem StreamStep.of_remove {s s' : Stack} {act : Act} {b : Addr} {st : NgTcpStream}
    (hs' : s'.table.tcbSet = s.table.tcbSet.remove b) (hst : s.stream? b = some st)
    (h : StreamStep s b act [] (some st) none) (a : Addr)
    : StreamStep s a act [] (s.stream? a) (s'.stream? a) := by
  have hget : s'.stream? a = if a = b then none else s.stream? a := by
    unfold Stack.stream?
    rw [hs', ObjList.get?_remove]
  rw [hget]
  split
  . next heq =>
    subst heq
    rw [hst]
    exact h
  . exact .same (s.stream? a)

theorem streamStep_of_segmentProcessed {env : Env} {s s' : Stack} {m : Mbuf}
    (h : SegmentProcessed env s m s') (a : Addr)
    : StreamStep s a (.ngTcpProcess env m) [] (s.stream? a) (s'.stream? a) := by
  cases h with
  | ignored _ => exact .same (s.stream? a)
  | halfOpen hcksum hfind hstatus hsyn hmalloc hcreate =>
    exact .of_add rfl (.halfOpen rfl hcreate rfl hcksum hfind hstatus hsyn hmalloc) a
  | @synAck b st syn _ sndbuf hcksum hfind hstatus hsyn _ hcreate hsnd =>
    refine .of_add rfl (.synAck rfl hcreate ?_ rfl hcksum hfind hstatus hsyn) a
    have hitems := hcreate.sndItems
    rw [NgTcpStream.sndItems, hsnd, Option.map_some, Option.getD_some] at hitems
    rw [items_enqueue, hitems]
    rfl
  | handshake hcksum hfind hstatus hack _ _ _ =>
    exact .of_afterSegment _ (stream?_of_ngTcpStreamOf hfind)
      (.handshake rfl hcksum hfind hstatus hack) a
  | segment hcksum hfind hstatus h =>
    exact .of_afterSegment _ (stream?_of_ngTcpStreamOf hfind)
      (.segment rfl hcksum hfind hstatus h) a
  | lastAck hcksum hfind hstatus hack =>
    exact .of_remove rfl (stream?_of_ngTcpStreamOf hfind) (.lastAck rfl hcksum hfind hstatus hack) a

theorem streamStep_of_stepped {s s' : Stack} {act : Act} {out : Out} (h : Stepped s act out s')
    (a : Addr) : StreamStep s a act (framesOf a out.tcpFrames) (s.stream? a) (s'.stream? a) := by
  cases h with
  | nsocket h =>
    cases h with
    | stream _ hfd hproto hstatus hrcv hsnd hsip hrings =>
      exact .of_add rfl (.opened rfl hproto hstatus hrcv hsnd hfd rfl hsip hrings) a
    | failed | host => exact .same (s.stream? a)
  | nbind h =>
    cases h with
    | same => exact .same (s.stream? a)
    | host h =>
      rw [stream?_congr h.table_eq]
      exact .same (s.stream? a)
    | stream hinfo =>
      rcases getHostinfoFromfd_stream hinfo with ⟨hst, hfd⟩
      exact .of_modifyStream hst (.bound rfl hfd hinfo) a
  | nlisten h =>
    rcases h with rfl | ⟨b, st, hinfo, rfl⟩
    . exact .same _
    . rcases getHostinfoFromfd_stream hinfo with ⟨hst, hfd⟩
      exact .of_modifyStream hst (.listened rfl hfd hinfo) a
  | naccept h =>
    cases h with
    | failed => exact .same (s.stream? a)
    | accepted hinfo hfind =>
      exact .of_modifyStream (getAcceptTcb_some hfind).1 (.accepted rfl hinfo hfind) a
  | nsend h =>
    cases h with
    | same => exact .same (s.stream? a)
    | sent hinfo _ _ hsnd =>
      rcases getHostinfoFromfd_stream hinfo with ⟨hst, hfd⟩
      exact .of_modifyStream hst (.sent rfl hfd hsnd) a
  | nrecv h =>
    rcases nrecv_cases h with ⟨rfl, _⟩ | ⟨b, st, rcvbuf, f, rest, hinfo, hitems, hread, rfl⟩
    . exact .same _
    . rcases getHostinfoFromfd_stream hinfo with ⟨hst, hfd⟩
      refine .of_modifyStream hst (.read rfl hfd ?_) a
      rw [hitems, List.length_cons]
      rcases hread with ⟨_, hlen⟩ | ⟨_, hrest, _⟩
      . omega
      . rw [hrest]
        omega
  | nclose h =>
    cases h with
    | same _ => exact .same (s.stream? a)
    | host _ => exact .same (s.stream? a)
    | fin hinfo hproto hstatus hmalloc hsnd =>
      rcases getHostinfoFromfd_stream hinfo with ⟨hst, hfd⟩
      exact .of_modifyStream hst (.fin rfl hfd hinfo hproto hstatus hmalloc hsnd) a
    | listen hinfo hstatus =>
      rcases getHostinfoFromfd_stream hinfo with ⟨hst, hfd⟩
      exact .of_remove rfl hst (.removed rfl hfd hstatus hinfo) a
  | nepollCreate h => cases h <;> exact .same (s.stream? a)
  | nepollCtl h => cases h <;> exact .same (s.stream? a)
  | nepollWait h =>
    rcases h with ⟨rfl, _⟩ | ⟨_, _, _, _, _, rfl⟩ <;> exact .same _
  | epollEventCallback _ _ => exact .same (s.stream? a)
  | ngArpEntryInsert => exact .same (s.stream? a)
  | ngTcpProcess h => exact streamStep_of_segmentProcessed h a
  | ngTcpOut h =>
    rcases h.stream? a with ⟨hst, hst', hframes⟩ | ⟨st, st', hst, hst', hout⟩
    . rw [hst, hst', hframes]
      exact .same none
    . rw [hst, hst']
      exact .out rfl hout
  | nsendto h | nrecvfrom h | udpProcess h | udpOut h =>
    rw [stream?_congr h.table_eq]
    exact .same (s.stream? a)

theorem streamStep_of_step {s s' : Stack} {act : Act} {out : Out}
    (h : machine.step s act = .ok (s', out)) (a : Addr)
    : StreamStep s a act (framesOf a out.tcpFrames) (s.stream? a) (s'.stream? a) :=
  streamStep_of_stepped (stepped_of_step h) a

theorem SegmentHandled.stream {env : Env} {m : Mbuf} {st st' : NgTcpStream}
    {ep ep' : Option Eventpoll} (h : SegmentHandled env m st ep st' ep')
    : ∃ sndNxt rcvNxt status sndbuf rcvbuf,
        st' = { st with sndNxt, rcvNxt, status, sndbuf, rcvbuf } := by
  cases h with
  | neither => exact ⟨_, _, _, _, _, rfl⟩
  | psh _ _ h _ _ =>
    rcases h.stream with ⟨_, _, rfl⟩
    exact ⟨_, _, _, _, _, rfl⟩
  | fin _ _ h _ _ =>
    rcases h.stream with ⟨_, _, rfl⟩
    exact ⟨_, _, _, _, _, rfl⟩
  | both _ _ h1 h2 _ _ _ =>
    rcases h1.stream with ⟨_, _, rfl⟩
    rcases h2.stream with ⟨_, _, rfl⟩
    exact ⟨_, _, _, _, _, rfl⟩

theorem SegmentHandled.fd_eq {env : Env} {m : Mbuf} {st st' : NgTcpStream}
    {ep ep' : Option Eventpoll} (h : SegmentHandled env m st ep st' ep')
    : st'.fd = st.fd := by
  rcases h.stream with ⟨_, _, _, _, _, rfl⟩
  rfl

theorem SegmentHandled.status {env : Env} {m : Mbuf} {st st' : NgTcpStream}
    {ep ep' : Option Eventpoll} (h : SegmentHandled env m st ep st' ep')
    : st'.status = st.status ∨ st'.status = .closeWait := by
  cases h with
  | neither => exact .inl rfl
  | psh _ _ h _ _ =>
    rcases h.stream with ⟨_, _, rfl⟩
    exact .inl rfl
  | fin _ _ h _ _ =>
    rcases h.stream with ⟨_, _, rfl⟩
    exact .inr rfl
  | both _ _ _ h2 _ _ _ =>
    rcases h2.stream with ⟨_, _, rfl⟩
    exact .inr rfl

theorem StreamOut.fd_eq {arpt : ArpTable Int} {st st' : NgTcpStream} {frames : List NgTcpFragment}
    (h : StreamOut arpt st frames st') : st'.fd = st.fd := by
  cases h <;> rfl

theorem StreamOut.length_sndItems_le {arpt : ArpTable Int} {st st' : NgTcpStream} {frames : List NgTcpFragment}
    (h : StreamOut arpt st frames st') : st'.sndItems.length ≤ st.sndItems.length := by
  cases h with
  | idle => exact Nat.le_refl _
  | requeued h h' =>
    rw [h]
    simp [NgTcpStream.sndItems, h']
  | sent h =>
    rw [h]
    simp [NgTcpStream.sndItems]

theorem StreamOut.mem_sndItems {arpt : ArpTable Int} {st st' : NgTcpStream} {frames : List NgTcpFragment}
    {f : NgTcpFragment} (h : StreamOut arpt st frames st') (hf : f ∈ st'.sndItems) : f ∈ st.sndItems := by
  cases h with
  | idle => exact hf
  | requeued h h' =>
    rw [h]
    simp only [NgTcpStream.sndItems, Option.map_some, Option.getD_some, h', List.mem_append,
      List.mem_singleton] at hf
    simpa [or_comm] using hf
  | sent h =>
    rw [h]
    exact List.mem_cons_of_mem _ hf

/--
The segment the step hands to the stream at `a`.
-/
def segmentFor (a : Addr) (e : Step) : Option Mbuf :=
  match e.act with
  | .ngTcpProcess env m =>
    if cksumOk env m && (ngTcpStreamOf e.pre m).any (fun found => found.1 == a) then some m else none
  | _ => none

def segmentsFor (a : Addr) (tr : List Step) : List Mbuf :=
  tr.filterMap (segmentFor a)

theorem segmentFor_eq_some_iff {a : Addr} {e : Step} {m : Mbuf}
    : segmentFor a e = some m
        ↔ ∃ env st, e.act = .ngTcpProcess env m ∧ cksumOk env m = true
          ∧ ngTcpStreamOf e.pre m = some (a, st) := by
  unfold segmentFor
  split
  . next env m' hact =>
    rw [hact]
    simp only [Option.ite_none_right_eq_some, Bool.and_eq_true, Option.any_eq_true, beq_iff_eq,
      Option.some.injEq, Act.ngTcpProcess.injEq]
    constructor
    . rintro ⟨⟨hcksum, ⟨b, st⟩, hfind, heq⟩, rfl⟩
      dsimp at heq
      subst heq
      exact ⟨env, st, ⟨rfl, rfl⟩, hcksum, hfind⟩
    . rintro ⟨_, st, ⟨rfl, rfl⟩, hcksum, hfind⟩
      exact ⟨⟨hcksum, (a, st), hfind, rfl⟩, rfl⟩
  . next hact =>
    constructor
    . intro h
      contradiction
    . rintro ⟨env, _, heq, _⟩
      exact absurd heq (hact env m)

theorem segmentProcessed_of_step {e : Step} {env : Env} {m : Mbuf}
    (hstep : machine.step e.pre e.act = .ok (e.post, e.out)) (hact : e.act = .ngTcpProcess env m)
    : ∃ t, SegmentProcessed env e.pre m t ∧ ∀ a, e.post.stream? a = t.stream? a := by
  have hstepped := stepped_of_step hstep
  rw [hact] at hstepped
  generalize e.out = out at hstepped
  generalize e.post = post at hstepped ⊢
  cases hstepped with
  | @ngTcpProcess _ _ _ t h => exact ⟨t, h, fun _ => rfl⟩

theorem handled_of_step {a : Addr} {e : Step} {env : Env} {m : Mbuf} {st : NgTcpStream}
    (hstep : machine.step e.pre e.act = .ok (e.post, e.out)) (hact : e.act = .ngTcpProcess env m)
    (hcksum : cksumOk env m = true) (hfind : ngTcpStreamOf e.pre m = some (a, st))
    (hstatus : st.status = .established)
    : ∃ st' ep', SegmentHandled env m st e.pre.table.ep st' ep' ∧ e.post.stream? a = some st' := by
  rcases segmentProcessed_of_step hstep hact with ⟨t, h, hpost⟩
  rw [hpost]
  cases h with
  | ignored h =>
    have := h hcksum a st hfind
    rw [hstatus] at this
    contradiction
  | halfOpen _ hfind' hstatus' | synAck _ hfind' hstatus' | handshake _ hfind' hstatus'
  | lastAck _ hfind' hstatus' =>
    rw [hfind] at hfind'
    cases hfind'
    rw [hstatus] at hstatus'
    contradiction
  | @segment _ _ st' ep' _ hfind' _ h =>
    rw [hfind] at hfind'
    cases hfind'
    refine ⟨st', ep', h, ?_⟩
    rw [stream?_afterSegment ep' (stream?_of_ngTcpStreamOf hfind), if_pos rfl]

/--
A step that leaves the counters of a stream alone and appends nothing to its receive buffer.
-/
structure Quiet (st st' : NgTcpStream) : Prop where
  rcvNxt : st'.rcvNxt = st.rcvNxt
  sndNxt : st'.sndNxt = st.sndNxt
  rcvItems : st'.rcvItems.length ≤ st.rcvItems.length

theorem quiet_of_step {a : Addr} {e : Step} {st st' : NgTcpStream}
    (hstep : machine.step e.pre e.act = .ok (e.post, e.out)) (hseg : segmentFor a e = none)
    (hst : e.pre.stream? a = some st) (hst' : e.post.stream? a = some st')
    : Quiet st st' := by
  have hnone : ∀ env m st, e.act = .ngTcpProcess env m → cksumOk env m = true
      → ngTcpStreamOf e.pre m ≠ some (a, st) := by
    intro env m st hact hcksum hfind
    have : segmentFor a e = some m := segmentFor_eq_some_iff.mpr ⟨env, st, hact, hcksum, hfind⟩
    rw [hseg] at this
    contradiction
  have h := streamStep_of_step hstep a
  rw [hst, hst'] at h
  generalize framesOf a e.out.tcpFrames = frames at h
  cases h with
  | same | bound _ _ | listened _ _ | accepted _ _ _ | sent _ _ _
  | fin _ _ _ _ _ _ _ =>
    exact ⟨rfl, rfl, Nat.le_refl _⟩
  | read _ _ hrcv => exact ⟨rfl, rfl, hrcv⟩
  | handshake hact hcksum hfind _ _ => exact absurd hfind (hnone _ _ _ hact hcksum)
  | segment hact hcksum hfind _ _ => exact absurd hfind (hnone _ _ _ hact hcksum)
  | out _ h => cases h <;> exact ⟨rfl, rfl, Nat.le_refl _⟩

end NgStack
