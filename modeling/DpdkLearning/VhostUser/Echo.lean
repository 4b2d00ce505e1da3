import DpdkLearning.VhostUser.Lemmas.Calls

/-!
This module contains the proof of what comes back to the client: the server has one buffer, so that of the
packets that one call of `process_avail_vring` takes it sends back only the last.
-/

open Lib

namespace VhostUser

/--
What is to be sent back of the packets that the handler was called with, and what it keeps of those that a call
of `process_avail_vring` has taken so far.
-/
structure Batches where
  answers : List (List UInt8)
  kept : List UInt8

/--
Where a call comes back, its last packet is to be sent back, unless it is empty.
-/
def Batches.next (b : Batches) : Event → Batches
  | .handled _ buf _ => { b with kept := buf }
  | .processed _ => { answers := if b.kept = [] then b.answers else b.answers ++ [b.kept], kept := [] }
  | _ => b

def Trace.batches (tr : Trace) : Batches := tr.onTx.foldl Batches.next { answers := [], kept := [] }

namespace System

/--
The packet that the server has taken and not yet put.
-/
def due (s : System) : List (List UInt8) :=
  match s.serverPc with
  | .kicked _ _ => []
  | .polling => []
  | .kick => []
  | .clear => []
  | _ => if s.bufferSize = 0 then [] else [s.kept]

end System

/--
What the server has in its buffer, given what was to be sent back of what it took and what was.
-/
structure Echo (b : Batches) (answered : List (List UInt8)) (s : System) : Prop where
  length : s.buffer.length = bufferSize
  size : s.bufferSize.toNat ≤ bufferSize
  before : s.serverPc.before = true → s.bufferSize = 0
  placed : ∀ idx ready, s.serverPc = .kicked idx ready → kickNode < idx
  putting : s.serverPc = .putVring → s.bufferSize ≠ 0
  kept : s.serverPc.taking = true → b.kept = s.kept
  nothing : s.serverPc.taking = false → b.kept = []
  answers : b.answers = answered ++ s.due
  lastUsedIdx : s.rx.put.vring.lastUsedIdx = 0

variable {env : Env} {shm : Nat → VhostVring} {s t : System} {out : Out} {e : Event} {tr : Trace} {act : SystemAct}
  {b : Batches} {answered : List (List UInt8)} {a : Places}

theorem Trace.batches_concat
    : Trace.batches (tr ++ [⟨s, act, out, t⟩]) = out.onTx.toList.foldl Batches.next tr.batches := by
  rw [Trace.batches, Trace.onTx_concat, List.foldl_append]
  rfl

theorem Batches.next_of_ne (h : ∀ dIdx buf size, e ≠ .handled dIdx buf size) (hne : ∀ count, e ≠ .processed count)
    : b.next e = b := by
  cases e with
  | handled dIdx buf size => exact absurd rfl (h dIdx buf size)
  | processed count => exact absurd rfl (hne count)
  | _ => rfl

/-- What is kept is one more of the packets that the handler was called with. -/
theorem Batches.sublist_next {l : List (List UInt8)} (h : b.answers.Sublist l)
    (hkept : b.kept ≠ [] → (b.answers ++ [b.kept]).Sublist l) (e : Event)
    : (b.next e).answers.Sublist (l ++ Exchange.delivered e.seen)
      ∧ ((b.next e).kept ≠ [] → ((b.next e).answers ++ [(b.next e).kept]).Sublist (l ++ Exchange.delivered e.seen)) := by
  cases e with
  | handled dIdx buf size => exact ⟨h.trans (List.sublist_append_left _ _), fun _ => h.append_right [buf]⟩
  | processed count =>
    refine ⟨?_, fun hne => absurd rfl hne⟩
    have hnone : Exchange.delivered (Event.processed count).seen = [] := rfl
    rw [hnone, List.append_nil]
    unfold Batches.next
    dsimp only
    split
    . exact h
    . next hne => exact hkept hne
  | _ => simpa [Batches.next, Event.seen, Exchange.delivered] using ⟨h, hkept⟩

/-- Only packets that the handler was called with are sent back, each at most once and in their order. -/
theorem Trace.answers_sublist : tr.batches.answers.Sublist tr.arrived := by
  rw [Trace.batches, Trace.arrived]
  generalize tr.onTx = evs
  have hboth : (evs.foldl Batches.next { answers := [], kept := [] }).answers.Sublist
        (Exchange.delivered (evs.flatMap Event.seen))
      ∧ ((evs.foldl Batches.next { answers := [], kept := [] }).kept ≠ []
        → ((evs.foldl Batches.next { answers := [], kept := [] }).answers
          ++ [(evs.foldl Batches.next { answers := [], kept := [] }).kept]).Sublist
            (Exchange.delivered (evs.flatMap Event.seen))) := by
    induction evs using List.reverseRecOn with
    | nil => exact ⟨.slnil, fun hne => absurd rfl hne⟩
    | append_singleton evs e ih =>
      rw [List.foldl_concat, List.flatMap_append, Exchange.delivered_append, List.flatMap_singleton]
      exact Batches.sublist_next ih.1 ih.2 e
  exact hboth.1

theorem due_of_early (hs : s.serverPc.early = true) : s.due = if s.bufferSize = 0 then [] else [s.kept] := by
  unfold System.due
  split
  . next heq =>
    rw [heq] at hs
    cases hs
  . next heq =>
    rw [heq] at hs
    cases hs
  . next heq =>
    rw [heq] at hs
    cases hs
  . next heq =>
    rw [heq] at hs
    cases hs
  . rfl

theorem due_of_taking (hs : s.serverPc.taking = true) : s.due = [] := by
  cases hpc : s.serverPc with
  | kicked _ _ => rw [System.due, hpc]
  | polling => rw [System.due, hpc]
  | _ =>
    rw [hpc] at hs
    cases hs

namespace Echo

theorem kept_eq_nil_iff (h : Echo b answered s) : s.kept = [] ↔ s.bufferSize = 0 := by
  have hlength := h.length
  have hsize := h.size
  rw [System.kept, ← List.length_eq_zero_iff, List.length_take, Nat.min_eq_left (by omega), ← UInt32.toNat_inj,
    UInt32.toNat_zero]

theorem length_kept (h : Echo b answered s) : s.kept.length ≤ bufferSize := by
  rw [System.kept, List.length_take, h.length]
  exact Nat.min_le_right _ _

/-- What the client does is nothing to the buffer of the server. -/
theorem congr (h : Echo b answered s) (hpc : t.serverPc = s.serverPc) (hbuffer : t.buffer = s.buffer)
    (hsize : t.bufferSize = s.bufferSize) (hput : t.rx.put = s.rx.put) : Echo b answered t where
  length := by rw [hbuffer, h.length]
  size := by
    rw [hsize]
    exact h.size
  before := by
    rw [hpc, hsize]
    exact h.before
  placed := by
    rw [hpc]
    exact h.placed
  putting := by
    rw [hpc, hsize]
    exact h.putting
  kept := by
    rw [System.kept, hpc, hbuffer, hsize]
    exact h.kept
  nothing := by
    rw [hpc]
    exact h.nothing
  answers := by
    rw [System.due, System.kept, hpc, hbuffer, hsize]
    exact h.answers
  lastUsedIdx := by
    rw [hput]
    exact h.lastUsedIdx

/-- The server goes on in its loop, with what is due. -/
theorem walk (h : Echo b answered s) (hs : s.serverPc.early = true) (hpc : t.serverPc.early = true)
    (hback : t.serverPc.before = true → s.serverPc.before = true ∨ s.bufferSize = 0) (hbuffer : t.buffer = s.buffer)
    (hsize : t.bufferSize = s.bufferSize) (hrx : t.rx = s.rx) : Echo b answered t where
  length := by rw [hbuffer, h.length]
  size := by
    rw [hsize]
    exact h.size
  before := by
    intro hbefore
    rw [hsize]
    rcases hback hbefore with hbefore | hzero
    . exact h.before hbefore
    . exact hzero
  placed := by
    intro idx ready hkicked
    rw [hkicked] at hpc
    cases hpc
  putting := by
    intro hput
    rw [hput] at hpc
    cases hpc
  kept := by
    intro htaking
    rw [ServerPc.not_taking hpc] at htaking
    cases htaking
  nothing _ := h.nothing (ServerPc.not_taking hs)
  answers := by
    rw [h.answers, due_of_early hs, due_of_early hpc, System.kept, System.kept, hbuffer, hsize]
  lastUsedIdx := by
    rw [hrx]
    exact h.lastUsedIdx

/-- The server takes packets. What a call has kept is due when it comes back. -/
theorem get (hok : env.Ok) (hl : Late env s.server) (h : Echo b answered s) (hs : s.serverPc.taking = true)
    (hstep : s.serverGetStep env = .ok (t, e)) {pc : ServerPc}
    (hpc : (pc.early = true ∧ (pc.before = true → ∃ idx ready, s.serverPc = .kicked idx ready ∧ idx ≤ kickNode)
        ∧ ∃ count, e = .processed count)
      ∨ (pc = s.serverPc ∧ ∀ count, e ≠ .processed count))
    : Echo (b.next e) answered (t.setServerPc pc) := by
  have hkept := h.kept hs
  have hanswers := h.answers
  have hlastUsedIdx : (t.setServerPc pc).rx.put.vring.lastUsedIdx = 0 := by
    have hsame := (projects_serverGet hok hl hstep).2.1
    exact (congrArg (fun r => r.put.vring.lastUsedIdx) hsame).trans h.lastUsedIdx
  rw [due_of_taking hs, List.append_nil] at hanswers
  have hbuffer : (∃ dIdx buf n, e = .handled dIdx buf n ∧ n.toNat = buf.length ∧ n.toNat ≤ bufferSize
        ∧ t.buffer = buf ++ s.buffer.drop n.toNat ∧ t.bufferSize = n.toUInt32)
      ∨ ((∀ dIdx buf n, e ≠ .handled dIdx buf n) ∧ t.buffer = s.buffer ∧ t.bufferSize = s.bufferSize) := by
    rcases serverGetStep_cases hok hl hstep with ⟨v, g, buffer, size, _, rfl, hbuffer⟩
    exact hbuffer
  rcases hpc with ⟨hearly, hback, count, rfl⟩ | ⟨rfl, hne⟩
  . rcases hbuffer with ⟨_, _, _, heq, _⟩ | ⟨_, hbuffer, hsize⟩
    . cases heq
    have hdue : (t.setServerPc pc).due = if t.bufferSize = 0 then [] else [t.kept] := due_of_early hearly
    exact {
      length := hbuffer ▸ h.length
      size := hsize ▸ h.size
      before := by
        intro hbefore
        rcases hback hbefore with ⟨idx, ready, hkicked, hidx⟩
        exact absurd (h.placed idx ready hkicked) (Nat.not_lt.mpr hidx)
      placed := by
        rintro idx ready rfl
        cases hearly
      putting := by
        rintro rfl
        cases hearly
      kept := by
        intro htaking
        exact absurd (htaking.symm.trans (ServerPc.not_taking hearly)) Bool.noConfusion
      nothing _ := rfl
      answers := by
        have hzero := h.kept_eq_nil_iff
        have hsame : t.kept = s.kept := by rw [System.kept, System.kept, hbuffer, hsize]
        rw [hdue, Batches.next]
        dsimp only
        rw [hkept, hanswers, hsize, hsame]
        by_cases hnone : s.bufferSize = 0
        . rw [if_pos hnone, if_pos (hzero.mpr hnone), List.append_nil]
        . rw [if_neg hnone, if_neg (mt hzero.mp hnone)]
      lastUsedIdx := hlastUsedIdx }
  . rcases ServerPc.not_early hs with ⟨hearly, hnotPut⟩
    have hbefore : (t.setServerPc s.serverPc).serverPc.before = true → (t.setServerPc s.serverPc).bufferSize = 0 := by
      intro hbefore
      exact absurd ((ServerPc.early_of_before hbefore).symm.trans hearly) Bool.noConfusion
    have htaking : (t.setServerPc s.serverPc).serverPc.taking ≠ false :=
      fun hnot => absurd (hs.symm.trans hnot) Bool.noConfusion
    have hdue : (t.setServerPc s.serverPc).due = [] := due_of_taking hs
    rcases hbuffer with ⟨dIdx, buf, n, rfl, hlen, hle, hbuffer, hsize⟩ | ⟨hnot, hbuffer, hsize⟩
    . have hmax : bufferSize = 1528 := rfl
      have hn : t.bufferSize.toNat = n.toNat := by
        rw [hsize, UInt64.toNat_toUInt32]
        omega
      exact {
        length := by
          have := h.length
          dsimp only [System.setServerPc]
          rw [hbuffer, List.length_append, List.length_drop]
          omega
        size := by
          dsimp only [System.setServerPc]
          omega
        before := hbefore
        placed := h.placed
        putting := fun hput => absurd hput hnotPut
        kept := by
          intro _
          rw [System.kept]
          dsimp only [System.setServerPc, Batches.next]
          rw [hn, hbuffer, hlen, List.take_left]
        nothing := fun hnot => absurd hnot htaking
        answers := by
          rw [hdue, List.append_nil]
          exact hanswers
        lastUsedIdx := hlastUsedIdx }
    . rw [Batches.next_of_ne hnot hne]
      exact {
        length := hbuffer ▸ h.length
        size := hsize ▸ h.size
        before := hbefore
        placed := h.placed
        putting := fun hput => absurd hput hnotPut
        kept := by
          intro _
          rw [hkept, System.kept, System.kept]
          dsimp only [System.setServerPc]
          rw [hbuffer, hsize]
        nothing := fun hnot => absurd hnot htaking
        answers := by
          rw [hdue, List.append_nil]
          exact hanswers
        lastUsedIdx := hlastUsedIdx }

/-- The server puts what is due. -/
theorem put (hok : env.Ok) (hl : Late env s.server) (h : Echo b answered s) (hs : s.serverPc = .putVring)
    (hputs : s.serverPut.Puts s.kept)
    (hsound : Sound (env.mapHandler env.serverMemory vhostClientVringIdxRx) (env.clientMap vhostClientVringIdxRx) a s.rx)
    (hstep : s.serverPutStep env = .ok (t, e)) {pc : ServerPc}
    (hpc : (pc = .kick ∧ ((∃ aIdx buf, e = .accepted aIdx buf) ∨ e = .refused))
      ∨ (pc = .putVring ∧ (∀ aIdx buf, e ≠ .accepted aIdx buf) ∧ e ≠ .refused))
    : Echo b (answered ++ Exchange.accepted e.seen) (t.setServerPc pc) := by
  have hnothing : b.kept = [] := by
    apply h.nothing
    rw [hs]
    rfl
  have hanswers := h.answers
  have hlastUsedIdx := h.lastUsedIdx
  have hzero := h.putting hs
  rw [System.due, hs] at hanswers
  dsimp only at hanswers
  rw [if_neg hzero] at hanswers
  have hlate := (projects_serverPut hok hl hstep).1
  have hputs' : ∃ v p, putStep (env.mapHandler env.serverMemory vhostClientVringIdxRx) (.putVring s.kept) s.rx.shm s.rx.put
        = .ok (v, p, e)
      ∧ s.rx.put.pc = s.serverPut ∧ t.rx.put = p ∧ t.buffer = s.buffer ∧ t.bufferSize = s.bufferSize := by
    rcases serverPutStep_cases hok hl hstep with ⟨v, p, hput, rfl⟩
    have hrx : s.rx.put = { vring := (s.server.vring vhostClientVringIdxRx).vring, pc := s.serverPut } := by
      simp [System.rx, hl.ready hok]
    refine ⟨v, p, ?_, ?_, ?_, rfl, rfl⟩
    . rw [hrx]
      exact hput
    . rw [hrx]
    . simp [System.rx, hlate.ready hok]
  rcases hputs' with ⟨v, p, hput, hpc', rfl, hbuffer, hsize⟩
  rcases putStep_cases hput with ⟨hmove, _, _, hused⟩
  have hsame : t.kept = s.kept := by rw [System.kept, System.kept, hbuffer, hsize]
  have hlastUsedIdx' : (t.setServerPc pc).rx.put.vring.lastUsedIdx = 0 := by
    rcases hused with hused | rfl
    . exact hused.trans hlastUsedIdx
    . rcases hmove.puts (hpc' ▸ hputs) with ⟨heq, _⟩ | ⟨heq, _⟩ | ⟨⟨_, heq⟩, _⟩
      . cases heq
      . cases heq
      . cases heq
  have hplace : pc.before = false ∧ pc.taking = false ∧ ∀ idx ready, pc ≠ .kicked idx ready := by
    rcases hpc with ⟨rfl, _⟩ | ⟨rfl, _⟩
    . exact ⟨rfl, rfl, by simp⟩
    . exact ⟨rfl, rfl, by simp⟩
  have hanswered : b.answers = answered ++ Exchange.accepted e.seen ++ (t.setServerPc pc).due := by
    rcases hmove.puts (hpc' ▸ hputs) with ⟨rfl, _⟩ | ⟨rfl, hidle, _⟩ | ⟨⟨aIdx, rfl⟩, _⟩
    . rcases hpc with ⟨_, ⟨_, _, heq⟩ | heq⟩ | ⟨rfl, _⟩
      . cases heq
      . cases heq
      have hdue : (t.setServerPc .putVring).due = if t.bufferSize = 0 then [] else [t.kept] := rfl
      rw [hdue, hsize, if_neg hzero, hsame, hanswers]
      exact congrArg (· ++ [s.kept]) (List.append_nil answered).symm
    . -- The buffers of the ring have room for all that the buffer of the server has.
      by_cases hfree : a.free = []
      . rw [hsound.put_exhausted hidle hfree] at hput
        cases hput
      . rw [(hsound.put_take hidle hfree h.length_kept).1] at hput
        have hevent := congrArg (fun r => r.2.2) (Except.ok.inj hput)
        cases hevent
    . rcases hpc with ⟨rfl, _⟩ | ⟨_, hne, _⟩
      . rw [hanswers]
        exact (List.append_nil _).symm
      . exact absurd rfl (hne _ _)
  exact {
    length := hbuffer ▸ h.length
    size := hsize ▸ h.size
    before := fun hbefore => absurd (hbefore.symm.trans hplace.1) Bool.noConfusion
    placed := fun idx ready hkicked => absurd hkicked (hplace.2.2 idx ready)
    putting := fun _ => hsize ▸ hzero
    kept := fun htaking => absurd (htaking.symm.trans hplace.2.1) Bool.noConfusion
    nothing := fun _ => hnothing
    answers := hanswered
    lastUsedIdx := hlastUsedIdx' }

/-- A step that shows nothing of the rings. -/
theorem silent (htx : out.onTx = none) (hrx : out.onRx = none) (h : Echo b answered t)
    : Echo (out.onTx.toList.foldl Batches.next b)
        (answered ++ Exchange.accepted (out.onRx.toList.flatMap Event.seen)) t := by
  simpa [htx, hrx, Exchange.accepted] using h

theorem of_server (hok : env.Ok) (hcontrol : Control env s) (hcalls : Calls s) (h : Echo b answered s)
    (hsound : s.serverPc = .putVring → Sound (env.mapHandler env.serverMemory vhostClientVringIdxRx)
      (env.clientMap vhostClientVringIdxRx) a s.rx)
    (hmove : ServerMove env s t out) (hproj : Projects env s t out)
    : Echo (out.onTx.toList.foldl Batches.next b)
        (answered ++ Exchange.accepted (out.onRx.toList.flatMap Event.seen)) t := by
  cases hmove with
  | walk pc hs hpc hback =>
    apply silent rfl rfl
    exact h.walk hs hpc hback rfl rfl hproj.2
  | receive stack pc t out hs hpc hback hstep =>
    rcases receiveSock_frame hstep with ⟨⟨toServer, toClient, server, serverPc, rfl, hserverPc⟩, htx, hrx⟩
    apply silent htx hrx
    have hrx' : System.rx { s with toServer, toClient, server, serverPc } = s.rx := by
      cases out with
      | tx _ => cases htx
      | rx _ => cases hrx
      | _ => exact hproj.2
    rcases hserverPc with rfl | rfl
    . exact h.walk hs hs (fun hbefore => .inl hbefore) rfl rfl hrx'
    . exact h.walk hs hpc (fun hbefore => .inl (hback hbefore)) rfl rfl hrx'
  | ignore pc hs hpc hback _ =>
    apply silent rfl rfl
    exact h.walk hs hpc (fun hbefore => .inl (hback hbefore)) rfl rfl hproj.2
  | read idx ready hs hidx _ =>
    have hearly := ServerPc.early_of_before hs
    have hzero := h.before hs
    have hanswers := h.answers
    rw [due_of_early hearly, if_pos hzero] at hanswers
    apply silent rfl rfl
    exact {
      length := h.length
      size := h.size
      before := by rintro ⟨⟩
      placed := by
        rintro idx' ready' hkicked
        cases hkicked
        exact hidx
      putting := by rintro ⟨⟩
      kept := fun _ => (h.nothing (ServerPc.not_taking hearly)).trans (h.kept_eq_nil_iff.mpr hzero).symm
      nothing := by rintro ⟨⟩
      answers := hanswers
      lastUsedIdx := hproj.2 ▸ h.lastUsedIdx }
  | get u e pc hs hstep hpc =>
    have hecho := h.get hok (hcontrol.late (ServerPc.not_early hs).1) hs hstep hpc
    simpa [Out.onTx, Out.onRx, Exchange.accepted] using hecho
  | answer hs hbuf =>
    have hanswers := h.answers
    rw [due_of_early (by rw [hs]; rfl)] at hanswers
    apply silent rfl rfl
    exact {
      length := h.length
      size := h.size
      before := by rintro ⟨⟩
      placed := by rintro _ _ ⟨⟩
      putting := fun _ => hbuf
      kept := by rintro ⟨⟩
      nothing := fun _ => h.nothing (by rw [hs]; rfl)
      answers := hanswers
      lastUsedIdx := hproj.2 ▸ h.lastUsedIdx }
  | put u e pc hs hstep hpc =>
    have hecho := h.put hok (hcontrol.late (by rw [hs]; rfl)) hs hcalls.puts (hsound hs) hstep hpc
    simpa [Out.onTx, Out.onRx] using hecho
  | kick hs =>
    have hanswers := h.answers
    rw [System.due, hs] at hanswers
    apply silent rfl rfl
    exact {
      length := h.length
      size := h.size
      before := by rintro ⟨⟩
      placed := by rintro _ _ ⟨⟩
      putting := by rintro ⟨⟩
      kept := by rintro ⟨⟩
      nothing := fun _ => h.nothing (by rw [hs]; rfl)
      answers := hanswers
      lastUsedIdx := hproj.2 ▸ h.lastUsedIdx }
  | clear hs =>
    have hanswers := h.answers
    rw [System.due, hs] at hanswers
    apply silent rfl rfl
    exact {
      length := h.length
      size := Nat.zero_le _
      before := fun _ => rfl
      placed := by rintro _ _ ⟨⟩
      putting := by rintro ⟨⟩
      kept := by rintro ⟨⟩
      nothing := fun _ => h.nothing (by rw [hs]; rfl)
      answers := hanswers
      lastUsedIdx := hproj.2 ▸ h.lastUsedIdx }

theorem of_client (h : Echo b answered s) (hmove : ClientMove env s t out) (hproj : Projects env s t out)
    : Echo (out.onTx.toList.foldl Batches.next b)
        (answered ++ Exchange.accepted (out.onRx.toList.flatMap Event.seen)) t := by
  have hsent : ∀ {call : PutCall} {u : System} {e : Event}, s.clientPut env call = .ok (u, e) → b.next e = b
      ∧ u.serverPc = s.serverPc ∧ u.buffer = s.buffer ∧ u.bufferSize = s.bufferSize := by
    intro call u e hstep
    rcases clientPut_cases hstep with ⟨v, p, hput, rfl⟩
    have hmove := (putStep_cases hput).1
    exact ⟨Batches.next_of_ne hmove.ne_handled hmove.ne_processed, rfl, rfl, rfl⟩
  cases hmove with
  | send io todo msg fds _ _ => exact silent rfl rfl (h.congr rfl rfl rfl (congrArg Ring.put hproj.2))
  | reply todo io msg t out _ hstep =>
    rcases clientReply_frame hstep with ⟨rfl, toClient, pc, features, rfl, _⟩
    exact silent rfl rfl (h.congr rfl rfl rfl (congrArg Ring.put hproj.2))
  | begin _ => exact silent rfl rfl (h.congr rfl rfl rfl (congrArg Ring.put hproj.2))
  | walk pc _ _ _ _ => exact silent rfl rfl (h.congr rfl rfl rfl (congrArg Ring.put hproj.2))
  | read _ _ => exact silent rfl rfl (h.congr rfl rfl rfl (congrArg Ring.put hproj.2))
  | get u e pc _ hstep _ =>
    have hgot : Exchange.accepted e.seen = [] ∧ u.serverPc = s.serverPc ∧ u.buffer = s.buffer
        ∧ u.bufferSize = s.bufferSize ∧ u.rx.put = s.rx.put := by
      rcases clientGet_cases hstep with ⟨v, g, hget, rfl⟩
      exact ⟨(getStep_cases hget).1.accepted, rfl, rfl, rfl, rfl⟩
    rcases hgot with ⟨haccepted, hpc, hbuffer, hsize, hput⟩
    have hecho : Echo b answered (u.setClientPc pc) := h.congr hpc hbuffer hsize hput
    simpa [Out.onTx, Out.onRx, haccepted] using hecho
  | used u e pc _ hstep _ =>
    rcases hsent hstep with ⟨hnext, hpc, hbuffer, hsize⟩
    have hecho : Echo b answered (u.setClientPc pc) := h.congr hpc hbuffer hsize (congrArg Ring.put hproj.1)
    simpa [Out.onTx, Out.onRx, hnext, Exchange.accepted] using hecho
  | put p u e pc _ hstep _ =>
    rcases hsent hstep with ⟨hnext, hpc, hbuffer, hsize⟩
    have hecho : Echo b answered (u.setClientPc pc) := h.congr hpc hbuffer hsize (congrArg Ring.put hproj.1)
    simpa [Out.onTx, Out.onRx, hnext, Exchange.accepted] using hecho
  | kick _ => exact silent rfl rfl (h.congr rfl rfl rfl (congrArg Ring.put hproj.2))

theorem init (hok : env.Ok) : Echo { answers := [], kept := [] } [] (System.init env shm) where
  length := List.length_replicate
  size := Nat.zero_le _
  before _ := rfl
  placed := nofun
  putting := nofun
  kept := nofun
  nothing _ := rfl
  answers := rfl
  lastUsedIdx := by
    rw [rx_init hok]
    rfl

end Echo

theorem Trace.answered_sublist (h : Echo tr.batches tr.answered s) : tr.answered.Sublist tr.arrived := by
  have hanswers := h.answers
  apply List.Sublist.trans _ Trace.answers_sublist
  rw [hanswers]
  exact List.sublist_append_left _ _

/-- The two rings, as long as the packets are not too long. -/
theorem arrived_sublist (hok : env.Ok) (h : Machine.Run (system env) (.init env shm) tr t)
    (hshort : ∀ p ∈ tr.sent, p.length ≤ maxPacket) : tr.arrived.Sublist tr.sent := by
  rcases tx_of_run hok h with ⟨tr', hrun, _, haccepted, hdelivered⟩
  rw [← haccepted] at hshort
  rw [← haccepted, ← hdelivered]
  exact (ring_delivers (hok.aligned _ (by decide)) (Env.finds_clientMap hok (by decide))
    (Env.finds_mapHandler hok (by decide)) hrun hshort).1

theorem rx_sound (hok : env.Ok) (h : Machine.Run (system env) (.init env shm) tr t) (hcalls : Calls t)
    (hshort : ∀ p ∈ tr.answered, p.length ≤ maxPacket)
    : ∃ a, Sound (env.mapHandler env.serverMemory vhostClientVringIdxRx) (env.clientMap vhostClientVringIdxRx) a t.rx := by
  have hbase := hok.aligned vhostClientVringIdxRx (by decide)
  have hput := Env.finds_mapHandler hok (show vhostClientVringIdxRx < vhostClientVringNum by decide)
  have hget := Env.finds_clientMap hok (show vhostClientVringIdxRx < vhostClientVringNum by decide)
  rcases rx_of_run hok h with ⟨tr', hrun, _, haccepted, _⟩
  rw [← haccepted] at hshort
  rcases reach_of_run (reach_init hbase hput hget) hrun (dropped_of_short hbase hput hget hrun hshort)
    with ⟨_, a, _, _, hreach⟩
  exact ⟨a, sound_of_not_stuck hreach hcalls.rx_not_stuck⟩

/-- What the server has sent back, and what it has still to send. -/
theorem echo_of_run (hok : env.Ok) (h : Machine.Run (system env) (.init env shm) tr t)
    (hshort : ∀ p ∈ tr.sent, p.length ≤ maxPacket) : Echo tr.batches tr.answered t := by
  refine h.history_of_past_guard (P := fun (tr : Trace) t => Echo tr.batches tr.answered t)
    (C := fun (tr : Trace) _ => ∀ p ∈ tr.sent, p.length ≤ maxPacket) (.init hok) ?_ ?_
  . rintro tr1 ⟨u, act, out, v⟩ tr2 rfl p hp
    apply hshort p
    rw [Trace.sent, Trace.onTx, List.map_append, List.filterMap_append, List.flatMap_append, Exchange.accepted_append]
    exact List.mem_append_left _ hp
  . intro tr s act out t hrun hecho hshort hstep
    have hcontrol := control_of_run hok hrun
    have hcalls := calls_of_run hok hrun
    rcases control_step hok hcontrol hstep with ⟨hmove, _, hproj⟩
    rw [Trace.batches_concat, Trace.answered_concat]
    rcases hmove with hmove | hmove
    . rcases rx_sound hok hrun hcalls (fun p hp => hshort p
        ((Trace.answered_sublist hecho).trans (arrived_sublist hok hrun hshort) |>.subset hp)) with ⟨a, hsound⟩
      exact hecho.of_server hok hcontrol hcalls (fun _ => hsound) hmove hproj
    . exact hecho.of_client hmove hproj

theorem answered_short (hok : env.Ok) (h : Machine.Run (system env) (.init env shm) tr t)
    (hshort : ∀ p ∈ tr.sent, p.length ≤ maxPacket) : ∀ p ∈ tr.answered, p.length ≤ maxPacket := by
  intro p hp
  apply hshort
  exact ((Trace.answered_sublist (echo_of_run hok h hshort)).trans (arrived_sublist hok h hshort)).subset hp

/--
In every run of the two processes, with their handshake and whichever of them goes on when, in which the client
sends packets of at most 1507 bytes, it gets back packets that it has sent, in the order it has sent them and each
at most once. What the server sends back are, of the packets that each call of `process_avail_vring` takes, the
last ones: at most one of them has still to be sent, and none where the server waits.
-/
theorem echoes (hok : env.Ok) (h : Machine.Run (system env) (.init env shm) tr t)
    (hshort : ∀ p ∈ tr.sent, p.length ≤ maxPacket)
    : tr.got.Sublist tr.answered ∧ tr.batches.answers = tr.answered ++ t.due
      ∧ (t.serverPc = .traverse → t.due = []) ∧ tr.batches.answers.Sublist tr.arrived
      ∧ tr.arrived.Sublist tr.sent := by
  have hecho := echo_of_run hok h hshort
  have hback := answered_short hok h hshort
  refine ⟨?_, hecho.answers, ?_, Trace.answers_sublist, arrived_sublist hok h hshort⟩
  . rcases rx_of_run hok h with ⟨tr', hrun, _, haccepted, hdelivered⟩
    rw [← haccepted] at hback
    rw [← haccepted, ← hdelivered]
    exact (ring_delivers (hok.aligned _ (by decide)) (Env.finds_mapHandler hok (by decide))
      (Env.finds_clientMap hok (by decide)) hrun hback).1
  . intro hpc
    rw [due_of_early (by rw [hpc]; rfl), if_pos (hecho.before (by rw [hpc]; rfl))]

/-- A packet is sent and comes back. -/
theorem echoes_one
    : ∃ tr t, Machine.Run (system plainEnv) (.init plainEnv (fun _ => blankShm)) tr t
      ∧ Trace.sent tr = [[1, 2]] ∧ (Trace.batches tr).answers = [[1, 2]] ∧ (Trace.got tr).Sublist [[1, 2]] := by
  rcases exists_plain_run with ⟨tr, t, hrun, hsent, hanswered, _, _, _, _, hpc, _⟩
  have hshort : ∀ p ∈ Trace.sent tr, p.length ≤ maxPacket := by
    rw [hsent]
    decide
  rcases echoes plainEnv_ok hrun hshort with ⟨hgot, hanswers, hdue, _, _⟩
  rw [hanswered] at hgot hanswers
  rw [hdue hpc] at hanswers
  exact ⟨tr, t, hrun, hsent, hanswers, hgot⟩

end VhostUser
