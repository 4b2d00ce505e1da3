import DpdkLearning.Dns.Answers
import DpdkLearning.Dns.Encoding

/-!
This module contains how long the response to a query is: its question section is as long as that of the
query, and every answer adds to it.
-/

open Lib

namespace Dns

/--
`RTE_MBUF_DEFAULT_BUF_SIZE` and `RTE_PKTMBUF_HEADROOM`
-/
def rteMbufDefaultBufSize : Nat := 2048 + 128

def rtePktmbufHeadroom : Nat := 128

/--
The room for a payload behind the headers of Ethernet, IPv4 and UDP.
-/
def payloadRoom : Nat :=
  rteMbufDefaultBufSize - rtePktmbufHeadroom - 42

/--
Where the question section of a query ends, read from `pos` on.
-/
def questionsEnd (buf : Memory) (size pos : Nat) : Nat → Nat
  | 0 => pos
  | n + 1 =>
    match decodeDomainName buf pos size with
    | (none, _) => pos
    | (some _, pos) => questionsEnd buf size (pos + 4) n

/--
What the answer to a question adds: the name of 13 bytes, 10 bytes, and the data.
-/
def answerSize (q : Question) : Nat :=
  if found q then 23 + rdataSize q else 0

/--
Where the question section of a query ends, moved on by what the answers to its questions add.
-/
def responseEnd (data : Memory) (size : Nat) : Nat :=
  questionsEnd data size 12 (data.load16Be 4).toNat
    + (((requestQuestions data size).getD []).map answerSize).sum

variable {data : Memory} {pos size n : Nat} {msg : Message} {q : Question} {qs : List Question}

theorem decodeDomainNameLoop_last {buf : Memory} {i last : Nat} {domain : List UInt8}
    (h : decodeDomainNameLoop buf pos i n = some (domain, last)) : last = i + domain.length := by
  induction n generalizing i domain with
  | zero => contradiction
  | succ n ih =>
    unfold decodeDomainNameLoop at h
    dsimp only at h
    split at h
    . cases h
      rfl
    . split at h
      . contradiction
      . next domain' last' hloop =>
        cases h
        rw [ih hloop, List.length_cons]
        omega

theorem decodeDomainName_pos {buf : Memory} {len pos' : Nat} {domain : List UInt8}
    (h : decodeDomainName buf pos len = (some domain, pos')) : pos' = pos + (domain.length + 2) := by
  unfold decodeDomainName at h
  split at h
  . simp at h
  . next domain' i hloop =>
    simp only [Prod.mk.injEq, Option.some.injEq] at h
    rcases h with ⟨rfl, rfl⟩
    rw [decodeDomainNameLoop_last hloop]
    omega

theorem length_questions (h : readQuestions data pos size n = some qs)
    : pos + (qs.flatMap Question.bytes).length = questionsEnd data size pos n := by
  induction n generalizing pos qs with
  | zero =>
    cases h
    rfl
  | succ n ih =>
    unfold readQuestions at h
    unfold questionsEnd
    rcases hname : decodeDomainName data pos size with ⟨_ | qName, pos'⟩
    . rw [hname] at h
      contradiction
    . rw [hname] at h
      dsimp only at h ⊢
      rw [Option.map_eq_some_iff] at h
      rcases h with ⟨qs, hread, rfl⟩
      rw [← ih hread, List.flatMap_cons, List.length_append, length_question, decodeDomainName_pos hname]
      dsimp only
      omega

theorem name_of_found (h : found q = true) : q.qName = fooBarCom := by
  simp only [found, Bool.or_eq_true, Bool.and_eq_true, Option.isSome_iff_exists] at h
  rcases h with (⟨_, _, h⟩ | ⟨_, _, h⟩) | ⟨_, _, h⟩
  . unfold getARecord at h
    split at h
    . assumption
    . contradiction
  . unfold getAAAARecord at h
    split at h
    . assumption
    . contradiction
  . unfold getTXTRecord at h
    split at h
    . assumption
    . contradiction

theorem length_answers (qs : List Question)
    : ((qs.filterMap answer).flatMap ResourceRecord.bytes).length = (qs.map answerSize).sum := by
  induction qs with
  | nil => rfl
  | cons q qs ih =>
    rw [List.map_cons, List.sum_cons]
    cases hfound : found q with
    | false =>
      rw [List.filterMap_cons_none (answer_of_not_found hfound), ih]
      simp [answerSize, hfound]
    | true =>
      rcases answer_of_found hfound with ⟨rr, hanswer, hto, hsized, hrd⟩
      rw [List.filterMap_cons_some hanswer, List.flatMap_cons, List.length_append, ih]
      congr 1
      have hdata : (rdataBytes rr).length = rr.rdLength.toNat := hsized
      simp only [ResourceRecord.bytes, List.length_append, hdata, hrd, hto.1, name_of_found hfound,
        length_wire_splitOn, answerSize, hfound, Memory.length_ofUInt16Be, Memory.length_ofUInt32Be, if_pos]
      rfl

theorem pos_response (h : (decodeMsg .zero data size).2 = 0) (buffer : Cursor)
    : (encodeMsg (resolveQuery (decodeMsg .zero data size).1) buffer).buffer.pos
        = buffer.pos + responseEnd data size := by
  rcases decodeMsg_of_zero h with ⟨qs, hread, _, hmsg⟩
  have hanswerable := answerable_resolveQuery (decodeHeader .zero data 0) qs.reverse rfl rfl rfl
  have hquestions : (qs.reverse.flatMap Question.bytes).length = (qs.flatMap Question.bytes).length := by
    apply List.Perm.length_eq
    exact (List.reverse_perm qs).flatMap_right _
  have hanswers : (qs.reverse.filterMap answer).reverse ++ [] = qs.filterMap answer := by
    rw [List.filterMap_reverse, List.reverse_reverse, List.append_nil]
  have hsection := length_questions hread
  rw [responseEnd, hread, Option.getD_some, hmsg, encodeMsg_eq hanswerable]
  dsimp only
  rw [Cursor.pos_put, Message.bytes, List.length_append, List.length_append, List.length_append,
    List.length_append, length_headerBytes]
  rw [resolveQuery_eq]
  dsimp only [decodeHeader, Message.zero]
  rw [hanswers, length_answers, hquestions]
  simp only [List.flatMap_nil, List.length_nil]
  omega

/--
The response to a query fits the room for a payload exactly when the question section of the query and what
its answers add do.
-/
theorem response_fits_iff (h : (decodeMsg .zero data size).2 = 0)
    : (encodeMsg (resolveQuery (decodeMsg .zero data size).1) ⟨data, 0⟩).buffer.pos ≤ payloadRoom
        ↔ responseEnd data size ≤ payloadRoom := by
  rw [pos_response h, Nat.zero_add]

/-- One question of each kind. -/
theorem response_fits_iff_three
    : ∃ qs : List Asked, qs.length = 3 ∧ (decodeMsg .zero (standardQuery qs) 63).2 = 0
        ∧ (encodeMsg (resolveQuery (decodeMsg .zero (standardQuery qs) 63).1) ⟨standardQuery qs, 0⟩).buffer.pos
          ≤ payloadRoom := by
  let qs : List Asked := [⟨fooBarComName, 1, 1⟩, ⟨fooBarComName, 28, 1⟩, ⟨fooBarComName, 16, 1⟩]
  have hzero : (decodeMsg .zero (standardQuery qs) 63).2 = 0 := by
    decide +kernel
  refine ⟨qs, rfl, hzero, (response_fits_iff hzero).mpr ?_⟩
  decide +kernel

theorem load_standardQuery (qs : List Asked) {a b d : List UInt8}
    (h : [0x12, 0x34, 0x01, 0x00] ++ Memory.ofUInt16Be qs.length.toUInt16 ++ [0, 0, 0, 0, 0, 0]
      ++ questionSection qs = a ++ b ++ d)
    : (standardQuery qs).load a.length b.length = b := by
  have hload := Cursor.load_put_append (c := ⟨fun _ => 0, 0⟩) (a := a) (b := b) (d := d)
  rw [← h, Nat.zero_add] at hload
  exact hload

theorem isQuery_standardQuery {qs : List Asked} (hasks : qs ≠ [])
    (hnamed : ∀ q ∈ qs, q.name.labels ≠ [] ∧ q.name.Over isLetter) (hlen : qs.length < 2 ^ 16)
    : IsQuery (standardQuery qs) (12 + (questionSection qs).length) qs := by
  have hcount := load_standardQuery qs (a := [0x12, 0x34, 0x01, 0x00])
    (b := Memory.ofUInt16Be qs.length.toUInt16) (d := [0, 0, 0, 0, 0, 0] ++ questionSection qs) (by simp)
  have hzeros := load_standardQuery qs (b := [0, 0, 0, 0, 0, 0]) (d := questionSection qs) rfl
  rw [show ([0, 0, 0, 0, 0, 0] : List UInt8) = [0, 0] ++ ([0, 0] ++ [0, 0]) from rfl] at hzeros
  rcases load_of_append hzeros with ⟨han, hrest⟩
  rcases load_of_append hrest with ⟨hns, _⟩
  rw [Memory.length_ofUInt16Be] at hcount
  constructor
  . exact hasks
  . exact hnamed
  . rw [Memory.load16Be]
    dsimp only [List.length_cons, List.length_nil, Nat.zero_add, Nat.reduceAdd] at hcount
    rw [hcount, Memory.toUInt16Be_ofUInt16Be, UInt16.toNat_ofNat_of_lt' hlen]
  . have hzero : (standardQuery qs).load 6 2 = [0, 0] := han
    rw [Memory.load16Be, hzero]
    rfl
  . have hzero : (standardQuery qs).load 8 2 = [0, 0] := hns
    rw [Memory.load16Be, hzero]
    rfl
  . exact load_standardQuery qs (d := []) (List.append_nil _).symm
  . exact Nat.le_refl _

/-- The response to 36 questions for an IPv6 address is too long. -/
theorem not_response_fits
    : ∃ data size, size ≤ 1472 ∧ (decodeMsg .zero data size).2 = 0
        ∧ payloadRoom < (encodeMsg (resolveQuery (decodeMsg .zero data size).1) ⟨data, 0⟩).buffer.pos := by
  let qs : List Asked := List.replicate 36 ⟨fooBarComName, 28, 1⟩
  have hquery : IsQuery (standardQuery qs) (12 + (questionSection qs).length) qs := by
    apply isQuery_standardQuery
    . decide
    . intro q hq
      rw [List.eq_of_mem_replicate hq]
      exact named_fooBarCom
    . decide
  have hanswerable := answerable_resolveQuery (decodeHeader .zero (standardQuery qs) 0)
    (qs.map Asked.question).reverse rfl rfl rfl
  refine ⟨standardQuery qs, 12 + (questionSection qs).length, ?_, ?_, ?_⟩
  . decide +kernel
  . rw [decodeMsg_query hquery]
  . rw [decodeMsg_query hquery, encodeMsg_eq hanswerable, Cursor.pos_put]
    decide +kernel

end Dns
