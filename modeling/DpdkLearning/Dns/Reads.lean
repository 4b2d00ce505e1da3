import DpdkLearning.Dns.Questions
import DpdkLearning.Lib.Reading

/-!
This module contains `decode_msg` as a program that reads the datagram byte by byte, and for which datagrams
it reads nothing behind them.
-/

open Lib

namespace Dns

def readDomainNameLoop (pos i : Nat) : Nat → Reading (Option (List UInt8 × Nat))
  | 0 => pure none
  | n + 1 => do
    let c ← Reading.byte (pos + i)
    if c = 0 then
      pure (some ([], i))
    else
      match ← readDomainNameLoop pos (i + 1) n with
      | none => pure none
      | some (domain, last) => pure (some ((if c ≤ 63 then dot else c) :: domain, last))

def readDomainName (pos len : Nat) : Reading (Option (List UInt8) × Nat) := do
  match ← readDomainNameLoop pos 1 (min 256 len - 1) with
  | none => pure (none, pos)
  | some (domain, i) => pure (some domain, pos + i + 1)

def readHeader (msg : Message) (pos : Nat) : Reading Message := do
  let id ← Reading.get16Be pos
  let fields ← Reading.get16Be (pos + 2)
  let fields := fields.toUInt32
  let qdCount ← Reading.get16Be (pos + 4)
  let anCount ← Reading.get16Be (pos + 6)
  let nsCount ← Reading.get16Be (pos + 8)
  let arCount ← Reading.get16Be (pos + 10)
  pure { msg with
    id
    qr := ((fields &&& qrMask) >>> 15).toUInt16
    opcode := ((fields &&& opcodeMask) >>> 11).toUInt16
    aa := ((fields &&& aaMask) >>> 10).toUInt16
    tc := ((fields &&& tcMask) >>> 9).toUInt16
    rd := ((fields &&& rdMask) >>> 8).toUInt16
    ra := ((fields &&& raMask) >>> 7).toUInt16
    rcode := ((fields &&& rcodeMask) >>> 0).toUInt16
    qdCount
    anCount
    nsCount
    arCount }

def readMsgLoop (msg : Message) (pos size : Nat) : Nat → Reading (Message × Int)
  | 0 => pure (msg, 0)
  | n + 1 => do
    let (qName, pos) ← readDomainName pos size
    let qType ← Reading.get16Be pos
    let qClass ← Reading.get16Be (pos + 2)
    match qName with
    | none => pure (msg, -1)
    | some qName =>
      readMsgLoop { msg with questions := { qName, qType, qClass } :: msg.questions } (pos + 4) size n

/--
`decode_msg` with its reads.
-/
def readMsg (msg : Message) (size : Nat) : Reading (Message × Int) := do
  let msg ← readHeader msg 0
  if msg.anCount ≠ 0 ∨ msg.nsCount ≠ 0 then
    pure (msg, -1)
  else
    readMsgLoop msg 12 size msg.qdCount.toNat

/--
The questions from `pos` on lie in the first `size` bytes. The name of each goes up to the first zero byte
behind its first byte, and 4 bytes follow it.
-/
def QuestionsWithin (buf : Memory) (size pos : Nat) : Nat → Prop
  | 0 => pos ≤ size
  | n + 1 =>
    ∃ i > 0, buf (pos + i) = 0 ∧ (∀ j > 0, j < i → buf (pos + j) ≠ 0)
      ∧ QuestionsWithin buf size (pos + i + 5) n

/--
The header and as many questions as it counts lie in the first `size` bytes.
-/
def MessageWithin (buf : Memory) (size : Nat) : Prop :=
  QuestionsWithin buf size 12 (buf.load16Be 4).toNat

/--
Decoding a datagram of `size` bytes reads nothing behind it, and refuses a message that goes on behind it.
-/
structure StaysWithin (buf : Memory) (size : Nat) : Prop where
  reads : ∀ msg, ∀ i ∈ (readMsg msg size).reads buf, i < size
  refused : ¬MessageWithin buf size → ∀ msg, (decodeMsg msg buf size).2 = -1

/--
Each question that is reached has its name and the 4 bytes behind it in the datagram, or its name does not
end in reach and there is as much left of the datagram as is searched for the end.
-/
def searchesFit (buf : Memory) (size pos : Nat) : Nat → Bool
  | 0 => true
  | n + 1 =>
    match nameEnd buf pos size with
    | none => pos + min 256 size ≤ size
    | some i => pos + i + 5 ≤ size && searchesFit buf size (pos + i + 5) n

variable {buf : Memory} {pos i last size n : Nat} {msg : Message}

section Run

theorem run_readDomainNameLoop
    : (readDomainNameLoop pos i n).run buf = decodeDomainNameLoop buf pos i n := by
  induction n generalizing i with
  | zero => rfl
  | succ n ih =>
    unfold readDomainNameLoop decodeDomainNameLoop
    dsimp only
    rw [Reading.run_bind, Reading.run_byte]
    split
    . rfl
    . rw [Reading.run_bind, ih]
      cases decodeDomainNameLoop buf pos (i + 1) n <;> rfl

theorem run_readDomainName (pos len : Nat)
    : (readDomainName pos len).run buf = decodeDomainName buf pos len := by
  unfold readDomainName decodeDomainName
  rw [Reading.run_bind, run_readDomainNameLoop]
  cases decodeDomainNameLoop buf pos 1 (min 256 len - 1) <;> rfl

theorem run_readHeader (msg : Message) (pos : Nat)
    : (readHeader msg pos).run buf = decodeHeader msg buf pos := by
  simp only [readHeader, Reading.run_bind, Reading.run_get16Be, Reading.run_pure]
  rfl

theorem run_readMsgLoop
    : (readMsgLoop msg pos size n).run buf = decodeMsgLoop msg buf pos size n := by
  induction n generalizing msg pos with
  | zero => rfl
  | succ n ih =>
    unfold readMsgLoop decodeMsgLoop
    rw [Reading.run_bind, run_readDomainName]
    rcases decodeDomainName buf pos size with ⟨qName, pos'⟩
    dsimp only
    rw [Reading.run_bind, Reading.run_bind, Reading.run_get16Be, Reading.run_get16Be]
    cases qName with
    | none => rfl
    | some qName => exact ih

/-- The program with its reads is `decode_msg`. -/
theorem run_readMsg (msg : Message) (size : Nat)
    : (readMsg msg size).run buf = decodeMsg msg buf size := by
  unfold readMsg decodeMsg
  rw [Reading.run_bind, run_readHeader]
  dsimp only
  split
  . rfl
  . exact run_readMsgLoop

end Run

section Reads

theorem reads_readDomainNameLoop_none (h : (List.range' i n).find? (fun i => buf (pos + i) == 0) = none)
    : (readDomainNameLoop pos i n).reads buf = List.range' (pos + i) n := by
  induction n generalizing i with
  | zero => rfl
  | succ n ih =>
    rw [List.range'_succ, List.find?_cons] at h
    split at h
    . contradiction
    . next hne =>
      have hne : buf (pos + i) ≠ 0 := by simpa using hne
      unfold readDomainNameLoop
      rw [Reading.reads_bind, Reading.reads_byte, Reading.run_byte, if_neg hne, Reading.reads_bind, ih h,
        List.range'_succ, List.singleton_append, List.cons_inj_right]
      split <;> exact List.append_nil _

theorem reads_readDomainNameLoop_some
    (h : (List.range' i n).find? (fun i => buf (pos + i) == 0) = some last)
    : (readDomainNameLoop pos i n).reads buf = List.range' (pos + i) (last + 1 - i) := by
  induction n generalizing i with
  | zero => contradiction
  | succ n ih =>
    have hle : i ≤ last := (List.mem_range'_1.mp (List.mem_of_find?_eq_some h)).1
    rw [List.range'_succ, List.find?_cons] at h
    unfold readDomainNameLoop
    rw [Reading.reads_bind, Reading.reads_byte, Reading.run_byte]
    split at h
    . next hzero =>
      cases h
      have hzero : buf (pos + last) = 0 := by simpa using hzero
      rw [if_pos hzero, Nat.add_sub_cancel_left]
      rfl
    . next hne =>
      have hne : buf (pos + i) ≠ 0 := by simpa using hne
      have hlt : i + 1 ≤ last := (List.mem_range'_1.mp (List.mem_of_find?_eq_some h)).1
      rw [if_neg hne, Reading.reads_bind, ih h, show last + 1 - i = last + 1 - (i + 1) + 1 by omega,
        List.range'_succ, List.singleton_append, List.cons_inj_right]
      split <;> exact List.append_nil _

theorem reads_readDomainName (pos len : Nat)
    : (readDomainName pos len).reads buf = (readDomainNameLoop pos 1 (min 256 len - 1)).reads buf := by
  unfold readDomainName
  rw [Reading.reads_bind]
  split <;> exact List.append_nil _

theorem reads_readHeader (msg : Message) : (readHeader msg 0).reads buf = List.range 12 := by
  simp only [readHeader, Reading.reads_bind, Reading.reads_get16Be, Reading.reads_pure]
  rfl

theorem reads_question (buf : Memory) (hsize : 12 ≤ size) (pos : Nat)
    : (∀ a ∈ (readDomainName pos size).reads buf
        ++ ([(decodeDomainName buf pos size).2, (decodeDomainName buf pos size).2 + 1]
          ++ [(decodeDomainName buf pos size).2 + 2, (decodeDomainName buf pos size).2 + 2 + 1]), a < size)
      ↔ match nameEnd buf pos size with
        | none => pos + min 256 size ≤ size
        | some i => pos + i + 5 ≤ size := by
  rw [reads_readDomainName]
  cases hend : nameEnd buf pos size with
  | none =>
    rw [decodeDomainName_none hend, reads_readDomainNameLoop_none hend]
    simp only [List.forall_mem_append, List.forall_mem_cons, List.mem_range'_1]
    constructor
    . rintro ⟨hname, _⟩
      -- Without a zero byte the search looks at every byte in its reach.
      have := hname (pos + min 256 size - 1) (by omega)
      omega
    . intro hfit
      refine ⟨?_, ?_, ?_⟩
      . intro a ha
        omega
      . simp
        omega
      . simp
        omega
  | some i =>
    rcases decodeDomainName_some hend with ⟨domain, hname⟩
    rw [hname, reads_readDomainNameLoop_some hend]
    simp only [List.forall_mem_append, List.forall_mem_cons, List.mem_range'_1]
    constructor
    . rintro ⟨_, _, _, hlast, _⟩
      omega
    . intro hfit
      refine ⟨?_, ?_, ?_⟩
      . intro a ha
        omega
      . simp
        omega
      . simp
        omega

theorem reads_readMsgLoop (hsize : 12 ≤ size)
    : (∀ a ∈ (readMsgLoop msg pos size n).reads buf, a < size) ↔ searchesFit buf size pos n = true := by
  induction n generalizing msg pos with
  | zero => simp [readMsgLoop, searchesFit]
  | succ n ih =>
    have hquestion := reads_question buf hsize pos
    unfold readMsgLoop searchesFit
    rw [Reading.reads_bind, run_readDomainName]
    dsimp only
    rw [Reading.reads_bind, Reading.reads_bind, Reading.reads_get16Be, Reading.reads_get16Be,
      ← List.append_assoc [_, _], ← List.append_assoc, List.forall_mem_append, hquestion]
    cases hend : nameEnd buf pos size with
    | none =>
      rw [decodeDomainName_none hend]
      simp
    | some i =>
      rcases decodeDomainName_some hend with ⟨domain, hname⟩
      rw [hname]
      dsimp only
      rw [Bool.and_eq_true, decide_eq_true_eq, ← ih]

theorem reads_readMsg (msg : Message)
    : (readMsg msg size).reads buf = List.range 12
        ++ if buf.load16Be 6 ≠ 0 ∨ buf.load16Be 8 ≠ 0 then []
          else (readMsgLoop (decodeHeader msg buf 0) 12 size (buf.load16Be 4).toNat).reads buf := by
  unfold readMsg
  rw [Reading.reads_bind, run_readHeader, reads_readHeader]
  congr 1
  exact apply_ite (Reading.reads buf) _ _ _

end Reads

theorem nameEnd_some (h : nameEnd buf pos size = some i)
    : i > 0 ∧ buf (pos + i) = 0 ∧ ∀ j > 0, j < i → buf (pos + j) ≠ 0 := by
  unfold nameEnd at h
  have hmem := List.mem_range'_1.mp (List.mem_of_find?_eq_some h)
  have hzero := List.find?_some h
  refine ⟨by omega, by simpa using hzero, ?_⟩
  intro j hpos hlt hj
  rw [List.find?_range'_eq_some] at h
  have := h.2.2 j (by omega) hlt
  simp [hj] at this

theorem refused_or_within (hpos : pos ≤ size) (h : searchesFit buf size pos n = true)
    : (decodeMsgLoop msg buf pos size n).2 = -1 ∨ QuestionsWithin buf size pos n := by
  induction n generalizing msg pos with
  | zero => exact .inr hpos
  | succ n ih =>
    unfold searchesFit at h
    unfold decodeMsgLoop
    cases hend : nameEnd buf pos size with
    | none =>
      rw [decodeDomainName_none hend]
      exact .inl rfl
    | some i =>
      rw [hend] at h
      dsimp only at h
      rw [Bool.and_eq_true, decide_eq_true_eq] at h
      rcases decodeDomainName_some hend with ⟨domain, hname⟩
      rcases nameEnd_some hend with ⟨hlow, hzero, hfirst⟩
      rw [hname]
      dsimp only
      rcases ih h.1 h.2 with hret | hwithin
      . exact .inl hret
      . exact .inr ⟨i, hlow, hzero, hfirst, hwithin⟩

/--
Decoding stays within a datagram exactly when the datagram has a header, and the header counts records or
every question that is reached fits together with the search for the end of its name.
-/
theorem staysWithin_iff (buf : Memory) (size : Nat)
    : StaysWithin buf size
        ↔ 12 ≤ size ∧ (buf.load16Be 6 ≠ 0 ∨ buf.load16Be 8 ≠ 0
          ∨ searchesFit buf size 12 (buf.load16Be 4).toNat = true) := by
  -- A query with records is refused as soon as its header is read.
  by_cases hrecords : buf.load16Be 6 ≠ 0 ∨ buf.load16Be 8 ≠ 0
  . have hrefused : ∀ msg, (decodeMsg msg buf size).2 = -1 := by
      intro msg
      rw [decodeMsg_of_records hrecords]
    rw [← or_assoc, eq_true hrecords, true_or, and_true]
    constructor
    . intro h
      have := h.reads .zero 11
      rw [reads_readMsg, if_pos hrecords] at this
      exact this (by decide)
    . intro hsize
      refine ⟨?_, fun _ => hrefused⟩
      intro msg i hi
      rw [reads_readMsg, if_pos hrecords, List.append_nil, List.mem_range] at hi
      omega
  . rw [← or_assoc, eq_false hrecords, false_or]
    constructor
    . intro h
      have hall := h.reads .zero
      rw [reads_readMsg, if_neg hrecords, List.forall_mem_append] at hall
      have hsize : 12 ≤ size := hall.1 11 (by decide)
      exact ⟨hsize, (reads_readMsgLoop hsize).mp hall.2⟩
    . rintro ⟨hsize, hfit⟩
      refine ⟨?_, ?_⟩
      . intro msg i hi
        rw [reads_readMsg, if_neg hrecords, List.mem_append, List.mem_range] at hi
        rcases hi with hi | hi
        . omega
        . exact (reads_readMsgLoop hsize).mpr hfit i hi
      . intro hpast msg
        rw [decodeMsg_of_questions hrecords]
        exact (refused_or_within hsize hfit).resolve_right hpast

theorem StaysWithin.decodeMsg_eq {buf buf' : Memory} {size : Nat} (h : StaysWithin buf size)
    (hsame : ∀ i < size, buf i = buf' i) (msg : Message) : decodeMsg msg buf size = decodeMsg msg buf' size := by
  rw [← run_readMsg, ← run_readMsg]
  apply And.left
  apply Reading.run_congr
  intro i hi
  exact hsame i (h.reads msg i hi)

/-- The type and the class are read behind the datagram, and the query is decoded. -/
theorem not_staysWithin : ∃ buf size, ¬StaysWithin buf size := by
  refine ⟨standardQuery [⟨fooBarComName, 1, 1⟩], 25, ?_⟩
  intro h
  have hread : 28 ∈ (readMsg .zero 25).reads (standardQuery [⟨fooBarComName, 1, 1⟩]) := by
    decide +kernel
  have := h.reads .zero 28 hread
  contradiction

end Dns
