import DpdkLearning.Stack.Impl.Tables

open Lib

namespace NgStack

namespace Hostinfo

@[simp]
theorem asHost_eq_ok_iff (i : Hostinfo) (a : Addr) (h : Localhost)
    : i.asHost = .ok (a, h) ↔ i = .host a h := by
  cases i <;> simp [asHost]

@[simp]
theorem asStream_eq_ok_iff (i : Hostinfo) (a : Addr) (st : NgTcpStream)
    : i.asStream = .ok (a, st) ↔ i = .stream a st := by
  cases i <;> simp [asStream]

@[simp]
theorem asEp_eq_ok_iff (i : Hostinfo) (ep : Eventpoll)
    : i.asEp = .ok ep ↔ i = .ep ep := by
  cases i <;> simp [asEp]

end Hostinfo

@[simp]
theorem stream?_modifyStream_self (s : Stack) (a : Addr) (f : NgTcpStream → NgTcpStream)
    : (s.modifyStream a f).stream? a = (s.stream? a).map f := by
  simp [Stack.stream?, Stack.modifyStream]

theorem stream?_modifyStream (s : Stack) (a b : Addr) (f : NgTcpStream → NgTcpStream)
    : (s.modifyStream a f).stream? b = if b = a then (s.stream? b).map f else s.stream? b := by
  simp [Stack.stream?, Stack.modifyStream, ObjList.get?_modify]

theorem stream?_modifyStream_of_some {s : Stack} {a : Addr} {st : NgTcpStream}
    {f : NgTcpStream → NgTcpStream} (h : s.stream? a = some st) (b : Addr)
    : (s.modifyStream a f).stream? b = if b = a then some (f st) else s.stream? b := by
  rw [stream?_modifyStream]
  split
  . next heq => rw [heq, h, Option.map_some]
  . rfl

theorem getHostinfoFromfd_host {s : Stack} {sockfd : Int} {a : Addr} {h : Localhost}
    (hinfo : getHostinfoFromfd s sockfd = some (.host a h))
    : s.lhost.get? a = some h ∧ h.fd = sockfd := by
  unfold getHostinfoFromfd at hinfo
  split at hinfo
  . next b g hfind =>
    simp only [Option.some.injEq, Hostinfo.host.injEq] at hinfo
    rcases hinfo with ⟨rfl, rfl⟩
    have := ObjList.find?_some hfind
    rw [beq_iff_eq] at this
    exact ⟨ObjList.get?_of_find? hfind, this.symm⟩
  . split at hinfo
    . simp at hinfo
    . split at hinfo
      . contradiction
      . split at hinfo <;> simp at hinfo

theorem getHostinfoFromfd_stream {s : Stack} {sockfd : Int} {a : Addr} {st : NgTcpStream}
    (hinfo : getHostinfoFromfd s sockfd = some (.stream a st))
    : s.stream? a = some st ∧ st.fd = sockfd := by
  unfold getHostinfoFromfd at hinfo
  split at hinfo
  . simp at hinfo
  . split at hinfo
    . next b g hfind =>
      simp only [Option.some.injEq, Hostinfo.stream.injEq] at hinfo
      rcases hinfo with ⟨rfl, rfl⟩
      have := ObjList.find?_some hfind
      rw [beq_iff_eq] at this
      exact ⟨ObjList.get?_of_find? hfind, this.symm⟩
    . split at hinfo
      . contradiction
      . split at hinfo <;> simp at hinfo

theorem getHostinfoFromfd_ep {s : Stack} {sockfd : Int} {ep : Eventpoll}
    (hinfo : getHostinfoFromfd s sockfd = some (.ep ep))
    : s.table.ep = some ep ∧ ep.fd = sockfd := by
  unfold getHostinfoFromfd at hinfo
  split at hinfo
  . simp at hinfo
  . split at hinfo
    . simp at hinfo
    . split at hinfo
      . contradiction
      . next e he =>
        split at hinfo
        . next hfd =>
          simp only [Option.some.injEq, Hostinfo.ep.injEq] at hinfo
          rw [beq_iff_eq] at hfd
          rw [he, ← hinfo]
          exact ⟨rfl, hfd⟩
        . contradiction

theorem getHostinfoFromfd_setEp {s : Stack} {sockfd : Int} {ep ep' : Eventpoll}
    (hinfo : getHostinfoFromfd s sockfd = some (.ep ep)) (hfd : ep'.fd = ep.fd)
    : getHostinfoFromfd (s.setEp ep') sockfd = some (.ep ep') := by
  have hep := (getHostinfoFromfd_ep hinfo).2
  unfold getHostinfoFromfd at hinfo ⊢
  dsimp only [Stack.setEp]
  split at hinfo
  . simp at hinfo
  . split at hinfo
    . simp at hinfo
    . simp [hfd, hep]

theorem exists_getHostinfoFromfd_stream {s : Stack} {a : Addr} {st : NgTcpStream}
    (hhost : ∀ a, s.lhost.get? a = none) (hst : s.stream? a = some st)
    : ∃ b st', getHostinfoFromfd s st.fd = some (.stream b st') := by
  unfold getHostinfoFromfd
  split
  . next b host hfind =>
    have := ObjList.get?_of_find? hfind
    rw [hhost b] at this
    contradiction
  . split
    . next b st' _ => exact ⟨b, st', rfl⟩
    . next hnone =>
      rw [ObjList.find?_eq_none_iff] at hnone
      have := hnone a st hst
      simp at this

theorem getHostinfoFromfd_modifyStream {s : Stack} {sockfd : Int} {a : Addr} {st : NgTcpStream}
    {f : NgTcpStream → NgTcpStream} (hinfo : getHostinfoFromfd s sockfd = some (.stream a st))
    (hf : (f st).fd = st.fd)
    : getHostinfoFromfd (s.modifyStream a f) sockfd = some (.stream a (f st)) := by
  have hst := (getHostinfoFromfd_stream hinfo).1
  have hfind : (s.table.tcbSet.modify a f).find? (fun stream => sockfd == stream.fd)
      = (s.table.tcbSet.find? (fun stream => sockfd == stream.fd)).map
          (fun c => if c.1 = a then (c.1, f c.2) else c) := by
    apply ObjList.find?_modify
    intro x hx
    have : x = st := by
      rw [Stack.stream?] at hst
      rw [hst] at hx
      exact (Option.some.inj hx).symm
    rw [this, hf]
  unfold getHostinfoFromfd at hinfo ⊢
  dsimp [Stack.modifyStream] at hinfo ⊢
  rw [hfind]
  split at hinfo
  . simp at hinfo
  . next hhost =>
    split at hinfo
    . next b g hstream =>
      simp only [Option.some.injEq, Hostinfo.stream.injEq] at hinfo
      rcases hinfo with ⟨rfl, rfl⟩
      simp [hstream]
    . split at hinfo
      . contradiction
      . split at hinfo <;> simp at hinfo

theorem ngTcpStreamSearch_modifyStream {s : Stack} {a : Addr} {st : NgTcpStream}
    {f : NgTcpStream → NgTcpStream} (hst : s.stream? a = some st)
    (hids : (f st).sip = st.sip ∧ (f st).dip = st.dip ∧ (f st).sport = st.sport
      ∧ (f st).dport = st.dport)
    (hstatus : ((f st).status == .listen) = (st.status == .listen)) (sip dip : UInt32)
    (sport dport : UInt16)
    : ngTcpStreamSearch (s.modifyStream a f) sip dip sport dport
        = (ngTcpStreamSearch s sip dip sport dport).map
            (fun c => if c.1 = a then (c.1, f c.2) else c) := by
  have hfind (p : NgTcpStream → Bool) (hp : p (f st) = p st)
      : (s.table.tcbSet.modify a f).find? p
          = (s.table.tcbSet.find? p).map (fun c => if c.1 = a then (c.1, f c.2) else c) := by
    apply ObjList.find?_modify
    intro x hx
    rw [Stack.stream?, hx] at hst
    rw [Option.some.inj hst, hp]
  rcases hids with ⟨hsip, hdip, hsport, hdport⟩
  unfold ngTcpStreamSearch
  dsimp only [Stack.modifyStream]
  rw [hfind _ (by rw [hsip, hdip, hsport, hdport]), hfind _ (by rw [hdport, hstatus])]
  split
  . next h =>
    rw [Option.map_eq_some_iff] at h
    rcases h with ⟨c, hc, rfl⟩
    rw [hc]
    rfl
  . next h =>
    rw [Option.map_eq_none_iff] at h
    rw [h]

/--
The greatest `int`.
-/
def intMax : Nat := 2147483647

/--
The counter of the table is the number of its entries, so that a search sees all of them.
-/
def ArpTable.Counted (arpt : ArpTable Int) : Prop :=
  arpt.count = arpt.entries.length

namespace ArpTable

variable {arpt : ArpTable Int} {malloc : Bool} {ip dip : UInt32} {mac : MacAddr}

theorem ngGetDstMacaddr_cons (h : arpt.Counted) (entry : ArpEntry) (dip : UInt32)
    : ngGetDstMacaddr { entries := entry :: arpt.entries, count := arpt.count + 1 } dip
        = if dip == entry.ip then some entry.hwaddr else ngGetDstMacaddr arpt dip := by
  have hne : arpt.count + 1 ≠ 0 := by
    rw [h]
    omega
  rw [ngGetDstMacaddr, ngGetDstMacaddr, ngGetDstMacaddr.go, if_neg hne, Int.add_sub_cancel]

theorem Counted.scan (h : arpt.Counted) (dip : UInt32)
    : ngGetDstMacaddr arpt dip
        = (arpt.entries.find? (fun entry => dip == entry.ip)).map ArpEntry.hwaddr := by
  rcases arpt with ⟨entries, count⟩
  obtain rfl : count = entries.length := h
  induction entries with
  | nil => rfl
  | cons entry entries ih =>
    have hcons := ngGetDstMacaddr_cons (rfl : ArpTable.Counted ⟨entries, entries.length⟩) entry dip
    dsimp only at hcons ih ⊢
    rw [List.length_cons, Int.natCast_succ, hcons, ih, List.find?_cons]
    cases dip == entry.ip <;> rfl

theorem Counted.isSome_iff (h : arpt.Counted) (dip : UInt32)
    : (ngGetDstMacaddr arpt dip).isSome ↔ ∃ entry ∈ arpt.entries, dip = entry.ip := by
  simp [h.scan]

theorem Counted.insert (h : arpt.Counted) : (ngArpEntryInsert malloc arpt ip mac).2.Counted := by
  unfold ngArpEntryInsert
  split
  . split
    . simpa [Counted] using h
    . exact h
  . exact h

end ArpTable

end NgStack
