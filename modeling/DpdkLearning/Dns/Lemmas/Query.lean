import DpdkLearning.Dns.Lemmas.Codec

/-!
This module contains what decoding and resolving make of a message.
-/

open Lib

namespace Dns

variable {buf : Memory} {pos i len size n : Nat} {msg : Message} {q : Question} {qs : List Question}

section Decode

/--
Where the first zero byte behind the first byte of a name is, if it is in reach.
-/
def nameEnd (buf : Memory) (pos len : Nat) : Option Nat :=
  (List.range' 1 (min 256 len - 1)).find? (fun i => buf (pos + i) == 0)

/--
The questions that are left have the zero bytes of their names in reach.
-/
def questionsFit (buf : Memory) (size : Nat) (pos : Nat) : Nat → Bool
  | 0 => true
  | n + 1 =>
    match nameEnd buf pos size with
    | none => false
    | some i => questionsFit buf size (pos + i + 5) n

theorem snd_decodeDomainNameLoop
    : (decodeDomainNameLoop buf pos i n).map Prod.snd
        = (List.range' i n).find? (fun i => buf (pos + i) == 0) := by
  induction n generalizing i with
  | zero => rfl
  | succ n ih =>
    unfold decodeDomainNameLoop
    dsimp only
    rw [List.range'_succ, List.find?_cons]
    by_cases hzero : buf (pos + i) = 0
    . simp [hzero]
    . have hne : (buf (pos + i) == 0) = false := by simpa
      rw [if_neg hzero, hne, ← ih]
      cases decodeDomainNameLoop buf pos (i + 1) n <;> rfl

theorem decodeDomainName_none (h : nameEnd buf pos len = none)
    : decodeDomainName buf pos len = (none, pos) := by
  rw [nameEnd, ← snd_decodeDomainNameLoop, Option.map_eq_none_iff] at h
  rw [decodeDomainName, h]

theorem decodeDomainName_some (h : nameEnd buf pos len = some i)
    : ∃ domain, decodeDomainName buf pos len = (some domain, pos + i + 1) := by
  rw [nameEnd, ← snd_decodeDomainNameLoop, Option.map_eq_some_iff] at h
  rcases h with ⟨⟨domain, last⟩, hloop, rfl⟩
  exact ⟨domain, by rw [decodeDomainName, hloop]⟩

theorem decodeMsgLoop_questions (msg : Message) (buf : Memory) (pos size n : Nat)
    : ∃ qs, (decodeMsgLoop msg buf pos size n).1 = { msg with questions := qs ++ msg.questions }
        ∧ (qs.length = n ↔ questionsFit buf size pos n = true) ∧ qs.length ≤ n := by
  induction n generalizing msg pos with
  | zero => exact ⟨[], rfl, by simp [questionsFit], Nat.le_refl 0⟩
  | succ n ih =>
    unfold decodeMsgLoop questionsFit
    cases hend : nameEnd buf pos size with
    | none =>
      rw [decodeDomainName_none hend]
      exact ⟨[], rfl, by simp, by simp⟩
    | some i =>
      rcases decodeDomainName_some hend with ⟨domain, hname⟩
      rw [hname]
      dsimp only
      rcases ih { msg with
          questions := ⟨domain, get16bits buf (pos + i + 1), get16bits buf (pos + i + 1 + 2)⟩
            :: msg.questions } (pos + i + 1 + 4)
        with ⟨qs, hmsg, hfit, hle⟩
      refine ⟨qs ++ [⟨domain, get16bits buf (pos + i + 1), get16bits buf (pos + i + 1 + 2)⟩], ?_, ?_, ?_⟩
      . rw [hmsg, List.append_assoc, List.singleton_append]
      . rw [List.length_append, List.length_singleton, Nat.add_right_cancel_iff]
        exact hfit
      . rw [List.length_append, List.length_singleton]
        omega

theorem decodeMsg_of_records (h : buf.load16Be 6 ≠ 0 ∨ buf.load16Be 8 ≠ 0)
    : decodeMsg msg buf size = (decodeHeader msg buf 0, -1) :=
  if_pos h

theorem decodeMsg_of_questions (h : ¬(buf.load16Be 6 ≠ 0 ∨ buf.load16Be 8 ≠ 0))
    : decodeMsg msg buf size
        = decodeMsgLoop (decodeHeader msg buf 0) buf 12 size (buf.load16Be 4).toNat :=
  if_neg h

end Decode

section Resolve

/--
The record that a question is answered with.
-/
def answer (q : Question) : Option ResourceRecord :=
  match resolve q with
  | .answered rr => some rr
  | _ => none

/--
The server does not know the type of the question.
-/
def unsupported (q : Question) : Bool :=
  match resolve q with
  | .notImplemented => true
  | _ => false

theorem type_of_answer {rr : ResourceRecord} (h : answer q = some rr) : answerable rr.type = true := by
  unfold answer at h
  split at h
  . next rr' hresolve =>
    cases h
    unfold resolve at hresolve
    dsimp only at hresolve
    split at hresolve
    . next htype =>
      split at hresolve
      . contradiction
      . cases hresolve
        simp [answerable, Question.record, htype]
    . split at hresolve
      . next htype =>
        split at hresolve
        . contradiction
        . cases hresolve
          simp [answerable, Question.record, htype]
      . split at hresolve
        . next htype =>
          split at hresolve
          . contradiction
          . cases hresolve
            simp [answerable, Question.record, htype]
        . contradiction
  . contradiction

theorem resolveQueryLoop_eq (msg : Message) (qs : List Question)
    : resolveQueryLoop msg qs =
        { msg with
          rcode := if qs.any unsupported then notImplementedResponseType else msg.rcode
          anCount := msg.anCount + (qs.filterMap answer).length.toUInt16
          answers := (qs.filterMap answer).reverse ++ msg.answers } := by
  induction qs generalizing msg with
  | nil => simp [resolveQueryLoop]
  | cons q qs ih =>
    unfold resolveQueryLoop
    cases hresolve : resolve q with
    | answered rr =>
      have hanswer : answer q = some rr := by rw [answer, hresolve]
      have hsupported : unsupported q = false := by rw [unsupported, hresolve]
      -- The counter wraps at 16 bits, and so does the number that is added to it.
      have hcount : msg.anCount + 1 + (qs.filterMap answer).length.toUInt16
          = msg.anCount + ((qs.filterMap answer).length + 1).toUInt16 := by
        generalize (qs.filterMap answer).length = k
        change msg.anCount + 1 + UInt16.ofNat k = msg.anCount + UInt16.ofNat (k + 1)
        rw [UInt16.ofNat_add, UInt16.add_assoc, UInt16.add_comm 1]
        rfl
      dsimp only
      rw [ih, List.filterMap_cons_some hanswer, List.any_cons, hsupported, List.reverse_cons,
        List.append_assoc, List.length_cons, hcount]
      rfl
    | omitted =>
      have hanswer : answer q = none := by rw [answer, hresolve]
      have hsupported : unsupported q = false := by rw [unsupported, hresolve]
      dsimp only
      rw [ih, List.filterMap_cons_none hanswer, List.any_cons, hsupported, Bool.false_or]
    | notImplemented =>
      have hanswer : answer q = none := by rw [answer, hresolve]
      have hsupported : unsupported q = true := by rw [unsupported, hresolve]
      dsimp only
      rw [ih, List.filterMap_cons_none hanswer, List.any_cons, hsupported, Bool.true_or, ite_self, if_pos rfl]

theorem resolveQuery_eq (msg : Message)
    : resolveQuery msg =
        { msg with
          qr := 1
          aa := 1
          ra := 0
          rcode := if msg.questions.any unsupported then notImplementedResponseType else okResponseType
          anCount := (msg.questions.filterMap answer).length.toUInt16
          nsCount := 0
          arCount := 0
          answers := (msg.questions.filterMap answer).reverse ++ msg.answers } := by
  rw [resolveQuery, resolveQueryLoop_eq]
  simp

theorem answerable_resolveQuery (hdr : Message) (qs : List Question) (hans : hdr.answers = [])
    (hauth : hdr.authorities = []) (hadd : hdr.additionals = [])
    : (resolveQuery { hdr with questions := qs }).Answerable := by
  rw [resolveQuery_eq]
  intro rr hrr
  dsimp only at hrr
  rw [hans, hauth, hadd, List.append_nil, List.append_nil, List.append_nil, List.mem_reverse,
    List.mem_filterMap] at hrr
  rcases hrr with ⟨q, _, hanswer⟩
  exact type_of_answer hanswer

end Resolve

end Dns
