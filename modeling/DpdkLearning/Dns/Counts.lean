import DpdkLearning.Dns.Lemmas.Query

/-!
This module contains which datagrams get a response whose header counts what is in it.
-/

open Lib

namespace Dns

/--
The count of a section in the header of a message.
-/
def countAt (data : List UInt8) (off : Nat) : Nat :=
  (Memory.toUInt16Be (data.drop off)).toNat

/--
The header of the response counts the entries that have been written behind it.
-/
structure SelfConsistent (r : Response) : Prop where
  questions : countAt r.data 4 = r.encoded.questions
  answers : countAt r.data 6 = r.encoded.answers
  authorities : countAt r.data 8 = r.encoded.authorities
  additionals : countAt r.data 10 = r.encoded.additionals

/--
The query has no questions, or it has questions only and their names end in reach.
-/
def wellFormed (data : Memory) (nbytes : Nat) : Bool :=
  data.load16Be 4 == 0
    || data.load16Be 6 == 0 && data.load16Be 8 == 0
      && questionsFit data nbytes 12 (data.load16Be 4).toNat

variable {data : Memory} {msg : Message} {dgramLen : UInt16}

theorem toUInt16Be_append (v : UInt16) (bytes : List UInt8)
    : Memory.toUInt16Be (Memory.ofUInt16Be v ++ bytes) = v :=
  Memory.toUInt16Be_ofUInt16Be v

theorem countAt_bytes (msg : Message)
    : countAt msg.bytes 4 = msg.qdCount.toNat ∧ countAt msg.bytes 6 = msg.anCount.toNat
        ∧ countAt msg.bytes 8 = msg.nsCount.toNat ∧ countAt msg.bytes 10 = msg.arCount.toNat := by
  unfold countAt Message.bytes headerBytes
  simp only [List.append_assoc]
  refine ⟨?_, ?_, ?_, ?_⟩
  . exact congrArg UInt16.toNat (toUInt16Be_append msg.qdCount _)
  . exact congrArg UInt16.toNat (toUInt16Be_append msg.anCount _)
  . exact congrArg UInt16.toNat (toUInt16Be_append msg.nsCount _)
  . exact congrArg UInt16.toNat (toUInt16Be_append msg.arCount _)

theorem decodeMsg_questions (data : Memory) (nbytes : Nat)
    : ∃ qs, (decodeMsg .zero data nbytes).1 = { decodeHeader .zero data 0 with questions := qs }
        ∧ (qs.length = (data.load16Be 4).toNat ↔ wellFormed data nbytes = true)
        ∧ qs.length ≤ (data.load16Be 4).toNat := by
  have hzero : (data.load16Be 4).toNat = 0 ↔ data.load16Be 4 = 0 := by
    rw [← UInt16.toNat_inj]
    rfl
  by_cases hsections : data.load16Be 6 ≠ 0 ∨ data.load16Be 8 ≠ 0
  . rw [decodeMsg_of_records hsections]
    refine ⟨[], rfl, ?_, Nat.zero_le _⟩
    have hfalse : (data.load16Be 6 == 0 && data.load16Be 8 == 0) = false := by
      rw [Bool.and_eq_false_iff, beq_eq_false_iff_ne, beq_eq_false_iff_ne]
      exact hsections
    rw [List.length_nil, eq_comm, hzero, wellFormed, hfalse, Bool.false_and, Bool.or_false, beq_iff_eq]
  . rw [decodeMsg_of_questions hsections]
    rcases decodeMsgLoop_questions (decodeHeader .zero data 0) data 12 nbytes (data.load16Be 4).toNat
      with ⟨qs, hmsg, hfit, hle⟩
    rw [not_or, not_not, not_not] at hsections
    refine ⟨qs, ?_, ?_, hle⟩
    . rw [← List.append_nil qs]
      exact hmsg
    . rw [hfit, wellFormed, hsections.1, hsections.2]
      by_cases hnone : data.load16Be 4 = 0
      . rw [hnone]
        rfl
      . simp [hnone]

theorem data_of_answerable (h : msg.Answerable)
    : (encodeMsg msg ⟨data, 0⟩).buffer.mem.load 0 (encodeMsg msg ⟨data, 0⟩).buffer.pos = msg.bytes := by
  rw [encodeMsg_eq h]
  dsimp only
  rw [Cursor.pos_put, Nat.zero_add]
  exact Cursor.load_put _ _

/--
The header of a response counts its entries exactly when the query is well formed.
-/
theorem selfConsistent_iff (data : Memory) (dgramLen : UInt16)
    : SelfConsistent (dnsBranch data dgramLen) ↔ wellFormed data (dgramLen - 8).toNat = true := by
  rcases decodeMsg_questions data (dgramLen - 8).toNat with ⟨qs, hmsg, hfit, hle⟩
  have hanswerable := answerable_resolveQuery (decodeHeader .zero data 0) qs rfl rfl rfl
  have hbranch : dnsBranch data dgramLen =
      { encoded := encodeMsg (resolveQuery { decodeHeader .zero data 0 with questions := qs }) ⟨data, 0⟩
        data := (resolveQuery { decodeHeader .zero data 0 with questions := qs }).bytes } := by
    rw [dnsBranch, hmsg, ← data_of_answerable hanswerable]
  rcases countAt_bytes (resolveQuery { decodeHeader .zero data 0 with questions := qs })
    with ⟨hqd, han, hns, har⟩
  rw [← hfit, hbranch, encodeMsg_eq hanswerable]
  rw [resolveQuery_eq] at hqd han hns har ⊢
  constructor
  . rintro ⟨hquestions, _, _, _⟩
    dsimp only at hquestions
    rw [← hquestions, hqd]
    rfl
  . intro hquestions
    have hlt := (data.load16Be 4).toNat_lt
    -- There are no more answers than questions, so their count does not wrap.
    have hanswers : (qs.filterMap answer).length ≤ qs.length := List.length_filterMap_le _ _
    constructor
    . dsimp only
      rw [hqd, hquestions]
      rfl
    . dsimp only
      rw [han]
      dsimp only [decodeHeader, Message.zero]
      rw [List.append_nil, List.length_reverse]
      simp
      omega
    . dsimp only
      rw [hns]
      rfl
    . dsimp only
      rw [har]
      rfl

/--
A query for the address of `www` whose header counts an answer as well.
-/
def queryWithAnswer : Memory :=
  Memory.store (fun _ => 0) 0
    [0x12, 0x34, 0x01, 0x00, 0, 1, 0, 1, 0, 0, 0, 0, 3, 119, 119, 119, 0, 0, 1, 0, 1]

/-- The query is not decoded, and the response counts the question that it does not have. -/
theorem not_selfConsistent : ∃ data dgramLen, ¬SelfConsistent (dnsBranch data dgramLen) := by
  have hcounts : countAt (dnsBranch queryWithAnswer 29).data 4 = 1
      ∧ (dnsBranch queryWithAnswer 29).encoded.questions = 0 := by
    decide +kernel
  refine ⟨queryWithAnswer, 29, ?_⟩
  intro h
  have := h.questions
  rw [hcounts.1, hcounts.2] at this
  contradiction

end Dns
