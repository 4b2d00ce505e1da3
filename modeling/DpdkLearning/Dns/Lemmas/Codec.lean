import DpdkLearning.Dns.Impl.Server

/-!
This module contains what the encoders write: each of them puts the bytes of what it encodes at the cursor
and touches nothing else.
-/

open Lib

namespace Dns

variable {buf : Cursor} {beg : List UInt8} {n : Nat}

section Names

theorem strchr_none (h : strchr beg dot = none) : beg.splitOn dot = [beg] := by
  rw [strchr, List.idxOf?_eq_none_iff] at h
  exact List.splitOn_eq_singleton h

theorem strchr_some {len : Nat} (h : strchr beg dot = some len)
    : beg.splitOn dot = beg.take len :: (beg.drop (len + 1)).splitOn dot ∧ (beg.take len).length = len
        ∧ (beg.drop (len + 1)).length < beg.length := by
  rw [strchr, List.idxOf?_eq_some_iff] at h
  rcases h with ⟨hlt, hdot, hfirst⟩
  have hbeg : beg = beg.take len ++ dot :: beg.drop (len + 1) := by
    rw [← hdot, List.getElem_cons_drop, List.take_append_drop]
  have hnew : dot ∉ beg.take len := by
    rw [List.mem_take_iff_getElem]
    rintro ⟨j, hj, heq⟩
    exact hfirst j (by omega) heq
  refine ⟨?_, ?_, ?_⟩
  . conv => lhs; rw [hbeg]
    exact List.splitOn_append_cons_self_of_not_mem hnew _
  . rw [List.length_take]
    omega
  . rw [List.length_drop]
    omega

/-- The loop writes all labels but the last one. -/
theorem encodeDomainNameLoop_eq (buf : Cursor) (h : beg.length ≤ n)
    : ∃ ls last, beg.splitOn dot = ls ++ [last]
        ∧ encodeDomainNameLoop buf beg n
          = (buf.put (ls.flatMap (fun l => l.length.toUInt8 :: l)), last) := by
  induction n generalizing buf beg with
  | zero =>
    rw [Nat.le_zero, List.length_eq_zero_iff] at h
    subst h
    exact ⟨[], [], rfl, by simp [encodeDomainNameLoop]⟩
  | succ n ih =>
    unfold encodeDomainNameLoop
    cases hchr : strchr beg dot with
    | none => exact ⟨[], beg, strchr_none hchr, by simp⟩
    | some len =>
      rcases strchr_some hchr with ⟨hsplit, hlen, hrest⟩
      dsimp only
      have hshorter : (beg.drop (len + 1)).length ≤ n := by omega
      rcases ih ((buf.put [len.toUInt8]).put (beg.take len)) hshorter with ⟨ls, last, hls, hloop⟩
      refine ⟨beg.take len :: ls, last, ?_, ?_⟩
      . rw [hsplit, hls, List.cons_append]
      . rw [hloop, Cursor.put_put, Cursor.put_put, List.flatMap_cons, hlen]
        rfl

theorem encodeDomainName_eq (buf : Cursor) (domain : List UInt8)
    : encodeDomainName buf domain = buf.put (wire (domain.splitOn dot)) := by
  rcases encodeDomainNameLoop_eq buf (Nat.le_refl domain.length) with ⟨ls, last, hls, hloop⟩
  rw [encodeDomainName, hloop, hls]
  dsimp only
  rw [Cursor.put_put, Cursor.put_put, Cursor.put_put]
  simp [wire]

theorem length_wire_dotted {labels : List (List UInt8)} (hne : labels ≠ []) : (wire labels).length = (dotted labels).length + 2 := by
  cases labels with
  | nil => contradiction
  | cons l ls =>
    clear hne
    rw [wire_cons, dotted_cons]
    induction ls generalizing l with
    | nil => simp
    | cons m ls ih =>
      specialize ih m
      rw [wire_cons, List.flatMap_cons]
      simp only [List.length_append, List.length_cons] at ih ⊢
      omega

theorem length_wire_splitOn (domain : List UInt8) : (wire (domain.splitOn dot)).length = domain.length + 2 := by
  rw [length_wire_dotted (List.splitOn_ne_nil _ _), dotted, List.intercalate_splitOn]

end Names

/--
The bytes of a header.
-/
def headerBytes (msg : Message) : List UInt8 :=
  let fields := ((msg.qr.toUInt32 <<< 15) &&& qrMask) ||| ((msg.rcode.toUInt32 <<< 0) &&& rcodeMask)
  Memory.ofUInt16Be msg.id ++ Memory.ofUInt16Be fields.toUInt16 ++ Memory.ofUInt16Be msg.qdCount
    ++ Memory.ofUInt16Be msg.anCount ++ Memory.ofUInt16Be msg.nsCount ++ Memory.ofUInt16Be msg.arCount

@[simp]
theorem length_headerBytes (msg : Message) : (headerBytes msg).length = 12 := by
  simp [headerBytes]

theorem encodeHeader_eq (msg : Message) (buf : Cursor) : encodeHeader msg buf = buf.put (headerBytes msg) := by
  simp only [encodeHeader, put16bits, Cursor.put_put, headerBytes]

def Question.bytes (q : Question) : List UInt8 :=
  wire (q.qName.splitOn dot) ++ Memory.ofUInt16Be q.qType ++ Memory.ofUInt16Be q.qClass

theorem length_question (q : Question) : q.bytes.length = q.qName.length + 6 := by
  simp [Question.bytes, length_wire_splitOn]

theorem encodeQuestions_eq (buf : Cursor) (written : Nat) (qs : List Question)
    : encodeQuestions buf written qs = (buf.put (qs.flatMap Question.bytes), written + qs.length) := by
  induction qs generalizing buf written with
  | nil => simp [encodeQuestions]
  | cons q qs ih =>
    unfold encodeQuestions
    dsimp only
    rw [ih, encodeDomainName_eq, put16bits, put16bits, Cursor.put_put, Cursor.put_put, Cursor.put_put,
      List.flatMap_cons, List.length_cons, Nat.add_assoc, Nat.add_comm 1]
    simp only [Question.bytes, List.append_assoc]

/--
The types of records that the server has data for.
-/
def answerable (type : UInt16) : Bool :=
  decide (type = aResourceRecordType ∨ type = aaaaResourceRecordType ∨ type = txtResourceRecordType)

def rdataBytes (rr : ResourceRecord) : List UInt8 :=
  if rr.type = aResourceRecordType then
    rr.rdData.aAddr.toList
  else if rr.type = aaaaResourceRecordType then
    rr.rdData.aaaaAddr.toList
  else
    rr.rdData.txtDataLen :: (List.range rr.rdData.txtDataLen.toNat).map (fun i => rr.rdData.txtData.getD i 0)

theorem foldl_put8bits {α : Type} (buf : Cursor) (f : α → UInt8) (xs : List α)
    : xs.foldl (fun buf x => put8bits buf (f x)) buf = buf.put (xs.map f) := by
  simp only [put8bits]
  rw [Cursor.put_flatMap (fun x => [f x]), List.map_eq_flatMap]

theorem encodeRdata_eq {rr : ResourceRecord} (h : answerable rr.type = true)
    : encodeRdata rr buf = some (buf.put (rdataBytes rr)) := by
  have hbytes : ∀ xs : List UInt8, xs.foldl put8bits buf = buf.put xs := by
    intro xs
    have := foldl_put8bits buf id xs
    rwa [List.map_id] at this
  unfold encodeRdata rdataBytes
  split
  . rw [hbytes]
  . split
    . rw [hbytes]
    . next hA hAAAA =>
      have hTXT : rr.type = txtResourceRecordType := by
        simpa [answerable, hA, hAAAA] using h
      rw [if_pos hTXT]
      dsimp only
      rw [foldl_put8bits, put8bits, Cursor.put_put]
      rfl

def ResourceRecord.bytes (rr : ResourceRecord) : List UInt8 :=
  wire (rr.name.splitOn dot) ++ Memory.ofUInt16Be rr.type ++ Memory.ofUInt16Be rr.class'
    ++ Memory.ofUInt32Be rr.ttl ++ Memory.ofUInt16Be rr.rdLength ++ rdataBytes rr

theorem encodeResourceRecords_eq {rrs : List ResourceRecord} (h : ∀ rr ∈ rrs, answerable rr.type = true)
    (buf : Cursor) (written : Nat)
    : encodeResourceRecords buf written rrs
        = ⟨0, written + rrs.length, buf.put (rrs.flatMap ResourceRecord.bytes)⟩ := by
  induction rrs generalizing buf written with
  | nil => simp [encodeResourceRecords]
  | cons rr rrs ih =>
    rw [List.forall_mem_cons] at h
    unfold encodeResourceRecords
    dsimp only
    rw [encodeRdata_eq h.1]
    dsimp only
    rw [ih h.2, encodeDomainName_eq, put16bits, put16bits, put16bits, put32bits, Cursor.put_put,
      Cursor.put_put, Cursor.put_put, Cursor.put_put, Cursor.put_put, Cursor.put_put,
      List.flatMap_cons, List.length_cons, Nat.add_assoc, Nat.add_comm 1]
    simp only [ResourceRecord.bytes, List.append_assoc]

/--
All bytes of a message.
-/
def Message.bytes (msg : Message) : List UInt8 :=
  headerBytes msg ++ msg.questions.flatMap Question.bytes ++ msg.answers.flatMap ResourceRecord.bytes
    ++ msg.authorities.flatMap ResourceRecord.bytes ++ msg.additionals.flatMap ResourceRecord.bytes

/--
The encoder has data for all records of the message.
-/
def Message.Answerable (msg : Message) : Prop :=
  ∀ rr ∈ msg.answers ++ msg.authorities ++ msg.additionals, answerable rr.type = true

theorem encodeMsg_eq {msg : Message} (h : msg.Answerable) (buf : Cursor)
    : encodeMsg msg buf =
        { rc := 0
          questions := msg.questions.length
          answers := msg.answers.length
          authorities := msg.authorities.length
          additionals := msg.additionals.length
          buffer := buf.put msg.bytes } := by
  simp only [Message.Answerable, List.mem_append, or_imp, forall_and] at h
  unfold encodeMsg
  dsimp only
  rw [encodeHeader_eq, encodeQuestions_eq, encodeResourceRecords_eq h.1.1, encodeResourceRecords_eq h.1.2,
    encodeResourceRecords_eq h.2]
  simp only [Cursor.put_put, Nat.zero_add, Nat.or_self, Message.bytes]

end Dns
