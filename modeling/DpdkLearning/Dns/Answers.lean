import Mathlib.Algebra.GroupWithZero.Nat
import Mathlib.Data.List.Forall2
import DpdkLearning.Dns.Questions

/-!
This module contains the answers to a query that was decoded: which questions get one, in which order the
answers are, and what the response says about them.
-/

open Lib

namespace Dns

/--
The questions of a query from `pos` on, as they stand there.
-/
def readQuestions (buf : Memory) (pos size : Nat) : Nat → Option (List Question)
  | 0 => some []
  | n + 1 =>
    match decodeDomainName buf pos size with
    | (none, _) => none
    | (some qName, pos) =>
      (readQuestions buf (pos + 4) size n).map
        (⟨qName, get16bits buf pos, get16bits buf (pos + 2)⟩ :: ·)

def requestQuestions (data : Memory) (size : Nat) : Option (List Question) :=
  readQuestions data 12 size (data.load16Be 4).toNat

/--
The question is of a supported type, and there is a record for its name.
-/
def found (q : Question) : Bool :=
  decide (q.qType = aResourceRecordType) && (getARecord q.qName).isSome
    || decide (q.qType = aaaaResourceRecordType) && (getAAAARecord q.qName).isSome
    || decide (q.qType = txtResourceRecordType) && (getTXTRecord q.qName).isSome

/--
The record is about what the question asks for.
-/
def answersTo (rr : ResourceRecord) (q : Question) : Prop :=
  rr.name = q.qName ∧ rr.type = q.qType ∧ rr.class' = q.qClass

/--
The data of the record has the length that the record says it has.
-/
def Sized (rr : ResourceRecord) : Prop :=
  (rdataBytes rr).length = rr.rdLength.toNat

/--
The records stand in memory from `pos` to `stop`: of each one the name, the type, the class, the time to live and
`rd_length`, and then its data, which are as many bytes as the field `rd_length` says.
-/
def Recorded (mem : Memory) (stop : Nat) : Nat → List ResourceRecord → Prop
  | pos, [] => pos = stop
  | pos, rr :: rrs =>
    let fields := pos + (rr.name.length + 2)
    let rdLength := (mem.load16Be (fields + 8)).toNat
    mem.load pos (rr.name.length + 2) = wire (rr.name.splitOn dot)
      ∧ mem.load16Be fields = rr.type
      ∧ mem.load16Be (fields + 2) = rr.class'
      ∧ mem.load (fields + 4) 4 = Memory.ofUInt32Be rr.ttl
      ∧ mem.load (fields + 10) rdLength = rdataBytes rr
      ∧ Recorded mem stop (fields + 10 + rdLength) rrs

/--
Where the answers stand in what `encode_msg` writes at `pos`.
-/
def Message.answersAt (msg : Message) (pos : Nat) : Nat :=
  pos + 12 + (msg.questions.map (fun q => q.qName.length + 6)).sum

/--
The message answers the questions.
-/
structure Answers (qs : List Question) (msg : Message) : Prop where
  encoded : ∀ buffer, (encodeMsg msg buffer).rc = 0
  recorded : ∀ buffer, Recorded (encodeMsg msg buffer).buffer.mem (encodeMsg msg buffer).buffer.pos
    (msg.answersAt buffer.pos) msg.answers
  listed : msg.anCount.toNat = msg.answers.length
  counted : msg.anCount.toNat = qs.countP found
  ordered : List.Forall₂ answersTo msg.answers (qs.filter found)
  rcode : msg.rcode = notImplementedResponseType ↔ ∃ q ∈ qs, answerable q.qType = false

variable {data : Memory} {pos size n : Nat} {msg : Message} {q : Question} {qs : List Question}

theorem decodeMsgLoop_of_zero (h : (decodeMsgLoop msg data pos size n).2 = 0)
    : ∃ qs, readQuestions data pos size n = some qs ∧ qs.length = n
        ∧ (decodeMsgLoop msg data pos size n).1 = { msg with questions := qs.reverse ++ msg.questions } := by
  induction n generalizing msg pos with
  | zero => exact ⟨[], rfl, rfl, rfl⟩
  | succ n ih =>
    unfold decodeMsgLoop at h ⊢
    unfold readQuestions
    rcases hname : decodeDomainName data pos size with ⟨_ | qName, pos'⟩
    . rw [hname] at h
      contradiction
    . rw [hname] at h
      dsimp only at h ⊢
      rcases ih h with ⟨qs, hread, hlen, hmsg⟩
      rw [hread]
      refine ⟨_, rfl, ?_, ?_⟩
      . rw [List.length_cons, hlen]
      . rw [hmsg, List.reverse_cons, List.append_assoc, List.singleton_append]

theorem decodeMsg_of_zero (h : (decodeMsg .zero data size).2 = 0)
    : ∃ qs, requestQuestions data size = some qs ∧ qs.length = (data.load16Be 4).toNat
        ∧ (decodeMsg .zero data size).1 = { decodeHeader .zero data 0 with questions := qs.reverse } := by
  by_cases hsections : data.load16Be 6 ≠ 0 ∨ data.load16Be 8 ≠ 0
  . rw [decodeMsg_of_records hsections] at h
    contradiction
  . rw [decodeMsg_of_questions hsections] at h ⊢
    rcases decodeMsgLoop_of_zero h with ⟨qs, hread, hlen, hmsg⟩
    refine ⟨qs, hread, hlen, ?_⟩
    rw [hmsg]
    dsimp only [decodeHeader, Message.zero]
    rw [List.append_nil]

section Resolve

theorem answer_of_not_found (h : found q = false) : answer q = none := by
  simp only [found, Bool.or_eq_false_iff, Bool.and_eq_false_imp, decide_eq_true_eq,
    Option.isSome_eq_false_iff, Option.isNone_iff_eq_none] at h
  rcases h with ⟨⟨hA, hAAAA⟩, hTXT⟩
  unfold answer resolve
  dsimp only
  split
  . next rr hresolve =>
    split at hresolve
    . next htype =>
      rw [hA htype] at hresolve
      contradiction
    . split at hresolve
      . next htype =>
        rw [hAAAA htype] at hresolve
        contradiction
      . split at hresolve
        . next htype =>
          rw [hTXT htype] at hresolve
          contradiction
        . contradiction
  . rfl

/--
The length of the data that the server has for a question of a supported type.
-/
def rdataSize (q : Question) : Nat :=
  if q.qType = aResourceRecordType then 4 else if q.qType = aaaaResourceRecordType then 16 else 8

theorem length_getTXTRecord {txtData : List UInt8} (h : getTXTRecord q.qName = some txtData)
    : txtData.length = 7 := by
  unfold getTXTRecord at h
  split at h
  . cases h
    rfl
  . contradiction

theorem answer_of_found (h : found q = true)
    : ∃ rr, answer q = some rr ∧ answersTo rr q ∧ Sized rr ∧ rr.rdLength.toNat = rdataSize q := by
  simp only [found, Bool.or_eq_true, Bool.and_eq_true, decide_eq_true_eq, Option.isSome_iff_exists] at h
  -- The three types in the order of the `switch`.
  rcases h with (⟨htype, addr, haddr⟩ | ⟨htype, addr, haddr⟩) | ⟨htype, txtData, htxt⟩
  . let rr := { q.record with rdLength := 4, rdData := { q.record.rdData with aAddr := addr } }
    refine ⟨rr, ?_, ⟨rfl, rfl, rfl⟩, ?_, ?_⟩
    . rw [answer, resolve, if_pos htype, haddr]
    . rw [Sized, rdataBytes, if_pos (show rr.type = _ from htype), Vector.length_toList]
      rfl
    . rw [rdataSize, if_pos htype]
      rfl
  . let rr := { q.record with rdLength := 16, rdData := { q.record.rdData with aaaaAddr := addr } }
    have hA : q.qType ≠ aResourceRecordType := by
      rw [htype]
      decide
    refine ⟨rr, ?_, ⟨rfl, rfl, rfl⟩, ?_, ?_⟩
    . rw [answer, resolve, if_neg hA, if_pos htype, haddr]
    . rw [Sized, rdataBytes, if_neg (show rr.type ≠ _ from hA), if_pos (show rr.type = _ from htype),
        Vector.length_toList]
      rfl
    . rw [rdataSize, if_neg hA, if_pos htype]
      rfl
  . let rr := { q.record with
      rdLength := (txtData.length + 1).toUInt16
      rdData := { q.record.rdData with txtDataLen := txtData.length.toUInt8, txtData } }
    have hA : q.qType ≠ aResourceRecordType := by
      rw [htype]
      decide
    have hAAAA : q.qType ≠ aaaaResourceRecordType := by
      rw [htype]
      decide
    have hlen := length_getTXTRecord htxt
    refine ⟨rr, ?_, ⟨rfl, rfl, rfl⟩, ?_, ?_⟩
    . rw [answer, resolve, if_neg hA, if_neg hAAAA, if_pos htype, htxt]
    . rw [Sized, rdataBytes, if_neg (show rr.type ≠ _ from hA), if_neg (show rr.type ≠ _ from hAAAA)]
      simp [rr, hlen]
    . rw [rdataSize, if_neg hA, if_neg hAAAA]
      simp [rr, hlen]

theorem unsupported_iff : unsupported q = true ↔ answerable q.qType = false := by
  unfold unsupported resolve answerable
  dsimp only
  by_cases hA : q.qType = aResourceRecordType
  . rw [if_pos hA]
    cases getARecord q.qName <;> simp [hA]
  . rw [if_neg hA]
    by_cases hAAAA : q.qType = aaaaResourceRecordType
    . rw [if_pos hAAAA]
      cases getAAAARecord q.qName <;> simp [hAAAA]
    . rw [if_neg hAAAA]
      by_cases hTXT : q.qType = txtResourceRecordType
      . rw [if_pos hTXT]
        cases getTXTRecord q.qName <;> simp [hTXT]
      . rw [if_neg hTXT]
        simp [hA, hAAAA, hTXT]

theorem filterMap_answer (qs : List Question)
    : List.Forall₂ answersTo (qs.filterMap answer) (qs.filter found)
        ∧ ∀ rr ∈ qs.filterMap answer, Sized rr := by
  induction qs with
  | nil => exact ⟨.nil, by simp⟩
  | cons q qs ih =>
    cases hfound : found q with
    | false =>
      rw [List.filterMap_cons_none (answer_of_not_found hfound), List.filter_cons_of_neg (by simp [hfound])]
      exact ih
    | true =>
      rcases answer_of_found hfound with ⟨rr, hanswer, hto, hsized, _⟩
      rw [List.filterMap_cons_some hanswer, List.filter_cons_of_pos hfound]
      exact ⟨.cons hto ih.1, List.forall_mem_cons.mpr ⟨hsized, ih.2⟩⟩

end Resolve

section Section

variable {mem : Memory} {stop : Nat} {rrs : List ResourceRecord}

theorem load16Be_of_load {v : UInt16} (h : mem.load pos 2 = Memory.ofUInt16Be v) : mem.load16Be pos = v := by
  rw [Memory.load16Be, h, Memory.toUInt16Be_ofUInt16Be]

/-- Records whose data have the right length are found again where their bytes are. -/
theorem recorded_of_load (hsized : ∀ rr ∈ rrs, Sized rr)
    (h : mem.load pos (rrs.flatMap ResourceRecord.bytes).length = rrs.flatMap ResourceRecord.bytes)
    : Recorded mem (pos + (rrs.flatMap ResourceRecord.bytes).length) pos rrs := by
  induction rrs generalizing pos with
  | nil => rfl
  | cons rr rrs ih =>
    rw [List.forall_mem_cons] at hsized
    rw [List.flatMap_cons] at h ⊢
    rcases load_of_append h with ⟨hrr, hrest⟩
    -- The fields of the record, from the last to the first.
    rcases load_of_append hrr with ⟨hrr, hrdata⟩
    rcases load_of_append hrr with ⟨hrr, hrdLength⟩
    rcases load_of_append hrr with ⟨hrr, httl⟩
    rcases load_of_append hrr with ⟨hrr, hclass⟩
    rcases load_of_append hrr with ⟨hname, htype⟩
    simp only [List.length_append, length_wire_splitOn, Memory.length_ofUInt16Be, Memory.length_ofUInt32Be,
      ← Nat.add_assoc] at hname htype hclass httl hrdLength hrdata
    have hlen : rr.bytes.length = rr.name.length + 2 + 10 + rr.rdLength.toNat := by
      rw [ResourceRecord.bytes, List.length_append, show (rdataBytes rr).length = _ from hsized.1]
      simp only [List.length_append, length_wire_splitOn, Memory.length_ofUInt16Be, Memory.length_ofUInt32Be]
    have hfield : mem.load16Be (pos + (rr.name.length + 2) + 8) = rr.rdLength := load16Be_of_load hrdLength
    unfold Recorded
    dsimp only
    rw [hfield]
    refine ⟨hname, load16Be_of_load htype, load16Be_of_load hclass, httl, ?_, ?_⟩
    . rw [← show (rdataBytes rr).length = _ from hsized.1]
      exact hrdata
    . have hnext := ih hsized.2 hrest
      rw [hlen] at hnext
      rw [List.length_append, hlen]
      simpa only [Nat.add_assoc] using hnext

/-- What `encode_msg` writes of a message without other records has the answers after the questions. -/
theorem recorded_encodeMsg (hanswerable : msg.Answerable) (hsized : ∀ rr ∈ msg.answers, Sized rr)
    (hauthorities : msg.authorities = []) (hadditionals : msg.additionals = []) (buffer : Cursor)
    : Recorded (encodeMsg msg buffer).buffer.mem (encodeMsg msg buffer).buffer.pos
        (msg.answersAt buffer.pos) msg.answers := by
  have hquestions : (headerBytes msg ++ msg.questions.flatMap Question.bytes).length
      = 12 + (msg.questions.map (fun q => q.qName.length + 6)).sum := by
    rw [List.length_append, length_headerBytes, List.length_flatMap]
    simp only [length_question]
  have hbytes : msg.bytes
      = headerBytes msg ++ msg.questions.flatMap Question.bytes ++ msg.answers.flatMap ResourceRecord.bytes := by
    rw [Message.bytes, hauthorities, hadditionals, List.flatMap_nil, List.append_nil, List.append_nil]
  have hload := Cursor.load_put_append (c := buffer) (a := headerBytes msg ++ msg.questions.flatMap Question.bytes)
    (b := msg.answers.flatMap ResourceRecord.bytes) (d := [])
  rw [List.append_nil, ← hbytes] at hload
  have hrecorded := recorded_of_load hsized hload
  rw [encodeMsg_eq hanswerable]
  dsimp only
  rw [Cursor.pos_put, hbytes, List.length_append, Message.answersAt, ← hbytes]
  rw [hquestions] at hrecorded ⊢
  simpa only [Nat.add_assoc] using hrecorded

end Section

/--
A query that is decoded gets its answers: those of all questions that the server knows the answer to, in the
order of the request. In what is encoded each answer has as many bytes of data as its `rd_length` says.
-/
theorem answers_of_decoded (h : (decodeMsg .zero data size).2 = 0)
    : ∃ qs, requestQuestions data size = some qs
        ∧ Answers qs (resolveQuery (decodeMsg .zero data size).1) := by
  rcases decodeMsg_of_zero h with ⟨qs, hread, hlen, hmsg⟩
  have hanswerable := answerable_resolveQuery (decodeHeader .zero data 0) qs.reverse rfl rfl rfl
  have hlt := (data.load16Be 4).toNat_lt
  rcases filterMap_answer qs with ⟨hordered, hsized⟩
  have hcount := hordered.length_eq
  rw [← List.countP_eq_length_filter] at hcount
  have hle : qs.countP found ≤ qs.length := List.countP_le_length
  -- Questions and answers are each put in front of the ones before them, which reverses them twice.
  have hanswers : (qs.reverse.filterMap answer).reverse ++ [] = qs.filterMap answer := by
    rw [List.filterMap_reverse, List.reverse_reverse, List.append_nil]
  have han : (resolveQuery { decodeHeader .zero data 0 with questions := qs.reverse }).anCount.toNat
      = (qs.filterMap answer).length := by
    rw [resolveQuery_eq]
    dsimp only
    rw [List.filterMap_reverse, List.length_reverse]
    exact Nat.mod_eq_of_lt (by omega)
  have hlist : (resolveQuery { decodeHeader .zero data 0 with questions := qs.reverse }).answers
      = qs.filterMap answer := by
    rw [resolveQuery_eq]
    exact hanswers
  refine ⟨qs, hread, ?_⟩
  rw [hmsg]
  constructor
  . intro buffer
    rw [encodeMsg_eq hanswerable]
  . refine recorded_encodeMsg hanswerable (by rwa [hlist]) ?_ ?_
    . rw [resolveQuery_eq]
      rfl
    . rw [resolveQuery_eq]
      rfl
  . rw [han, hlist]
  . rw [han, hcount]
  . rw [hlist]
    exact hordered
  . rw [resolveQuery_eq]
    simp only [List.any_reverse, List.any_eq_true, unsupported_iff]
    split
    . next hother => simpa using hother
    . next hnone =>
      constructor
      . intro hok
        contradiction
      . intro hother
        exact absurd hother hnone

/-- Questions of all kinds that get an answer, and one of a kind that is not supported. -/
theorem answers_of_decoded_mixed
    : ∃ qs : List Asked, qs.length = 4 ∧ (decodeMsg .zero (standardQuery qs) 80).2 = 0
        ∧ ∃ qs', requestQuestions (standardQuery qs) 80 = some qs'
          ∧ Answers qs' (resolveQuery (decodeMsg .zero (standardQuery qs) 80).1) := by
  let qs : List Asked :=
    [⟨fooBarComName, 1, 1⟩, ⟨fooBarComName, 15, 1⟩, ⟨fooBarComName, 28, 1⟩, ⟨fooBarComName, 16, 1⟩]
  have hzero : (decodeMsg .zero (standardQuery qs) 80).2 = 0 := by
    decide +kernel
  exact ⟨qs, rfl, hzero, answers_of_decoded hzero⟩

end Dns
