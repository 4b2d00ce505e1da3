import DpdkLearning.Dns.Names

/-!
This module contains how the questions of a query come back in its response: `decode_msg` puts each of them
in front of those before it, so that they come back in the opposite order.
-/

open Lib

namespace Dns

/--
A question of a query.
-/
structure Asked where
  name : DomainName
  qType : UInt16
  qClass : UInt16

def Asked.wire (q : Asked) : List UInt8 :=
  q.name.wire ++ (Memory.ofUInt16Be q.qType ++ Memory.ofUInt16Be q.qClass)

def questionSection (qs : List Asked) : List UInt8 :=
  qs.flatMap Asked.wire

/--
The payload of `size` bytes is a query with the given questions, whose names consist of letters, and with no
answers and authorities.
-/
structure IsQuery (data : Memory) (size : Nat) (qs : List Asked) : Prop where
  asks : qs ≠ []
  named : ∀ q ∈ qs, q.name.labels ≠ [] ∧ q.name.Over isLetter
  qdCount : (data.load16Be 4).toNat = qs.length
  anCount : data.load16Be 6 = 0
  nsCount : data.load16Be 8 = 0
  content : data.load 12 (questionSection qs).length = questionSection qs
  fits : 12 + (questionSection qs).length ≤ size

/--
The query is decoded, and its response has the same question section.
-/
def CopiesQuestions (data : Memory) (size : Nat) (qs : List Asked) : Prop :=
  (decodeMsg .zero data size).2 = 0
    ∧ (encodeMsg (resolveQuery (decodeMsg .zero data size).1) ⟨data, 0⟩).buffer.mem.load 12
        (questionSection qs).length = questionSection qs

variable {data : Memory} {pos size : Nat} {msg : Message} {q : Asked} {qs : List Asked}

/--
The question as it is decoded.
-/
def Asked.question (q : Asked) : Question where
  qName := q.name.dotted
  qType := q.qType
  qClass := q.qClass

theorem prefixCode_asked : PrefixCode Asked.wire := by
  apply prefixCode_wire.append (n := 4)
  . intro q
    simp
  . intro q q' hname hrest
    rcases List.append_inj hrest (by simp) with ⟨htype, hclass⟩
    cases q
    cases q'
    dsimp only at hname htype hclass
    rw [hname, Memory.ofUInt16Be_inj.mp htype, Memory.ofUInt16Be_inj.mp hclass]

theorem splitOn_dotted {name : DomainName} (hroot : name.labels ≠ []) (h : name.Over isLetter)
    : name.dotted.splitOn dot = name.labels := by
  apply List.splitOn_intercalate
  . intro l hl hdot
    have := h l hl dot hdot
    contradiction
  . exact hroot

theorem bytes_question (hroot : q.name.labels ≠ []) (h : q.name.Over isLetter) : q.question.bytes = q.wire := by
  rw [Question.bytes, Asked.wire, List.append_assoc]
  dsimp only [Asked.question]
  rw [splitOn_dotted hroot h]
  rfl

theorem load_of_append {a b : List UInt8} (h : data.load pos (a ++ b).length = a ++ b)
    : data.load pos a.length = a ∧ data.load (pos + a.length) b.length = b := by
  rw [List.length_append, Memory.load_add] at h
  exact List.append_inj h (by simp)

theorem decodeMsgLoop_question (hroot : q.name.labels ≠ []) (h : q.name.Over isLetter)
    (hmem : data.load pos q.wire.length = q.wire) (hsize : q.wire.length ≤ size) (n : Nat)
    : decodeMsgLoop msg data pos size (n + 1)
        = decodeMsgLoop { msg with questions := q.question :: msg.questions } data (pos + q.wire.length)
            size n := by
  rcases load_of_append hmem with ⟨hname, hrest⟩
  rcases load_of_append hrest with ⟨htype, hclass⟩
  rw [Memory.length_ofUInt16Be] at htype
  rw [Memory.length_ofUInt16Be, Memory.length_ofUInt16Be] at hclass
  have hlen : q.wire.length = q.name.wire.length + 4 := by
    simp [Asked.wire]
  have htype' : get16bits data (pos + q.name.wire.length) = q.qType := by
    rw [get16bits, Memory.load16Be, htype, Memory.toUInt16Be_ofUInt16Be]
  have hclass' : get16bits data (pos + q.name.wire.length + 2) = q.qClass := by
    rw [get16bits, Memory.load16Be, hclass, Memory.toUInt16Be_ofUInt16Be]
  rw [decodeMsgLoop, decodeDomainName_letters hroot h hname (by omega)]
  dsimp only
  rw [htype', hclass', hlen]
  rfl

theorem decodeMsgLoop_section (hnamed : ∀ q ∈ qs, q.name.labels ≠ [] ∧ q.name.Over isLetter)
    (hmem : data.load pos (questionSection qs).length = questionSection qs)
    (hsize : (questionSection qs).length ≤ size)
    : decodeMsgLoop msg data pos size qs.length
        = ({ msg with questions := (qs.map Asked.question).reverse ++ msg.questions }, 0) := by
  induction qs generalizing msg pos with
  | nil => rfl
  | cons q qs ih =>
    rw [List.forall_mem_cons] at hnamed
    have hcons : questionSection (q :: qs) = q.wire ++ questionSection qs := List.flatMap_cons
    rw [hcons] at hmem hsize
    rw [List.length_append] at hsize
    rcases load_of_append hmem with ⟨hfirst, hrest⟩
    rw [List.length_cons, decodeMsgLoop_question hnamed.1.1 hnamed.1.2 hfirst (by omega),
      ih hnamed.2 hrest (by omega), List.map_cons, List.reverse_cons, List.append_assoc,
      List.singleton_append]

theorem decodeMsg_query (h : IsQuery data size qs)
    : decodeMsg .zero data size
        = ({ decodeHeader .zero data 0 with questions := (qs.map Asked.question).reverse }, 0) := by
  have hsections : ¬(data.load16Be 6 ≠ 0 ∨ data.load16Be 8 ≠ 0) := by
    simp [h.anCount, h.nsCount]
  have hfits := h.fits
  rw [decodeMsg_of_questions hsections, h.qdCount, decodeMsgLoop_section h.named h.content (by omega)]
  dsimp only [decodeHeader, Message.zero]
  rw [List.append_nil]

theorem section_of_response (h : IsQuery data size qs)
    : (encodeMsg (resolveQuery (decodeMsg .zero data size).1) ⟨data, 0⟩).buffer.mem.load 12
        (questionSection qs).length = questionSection qs.reverse := by
  have hanswerable := answerable_resolveQuery (decodeHeader .zero data 0) (qs.map Asked.question).reverse
    rfl rfl rfl
  have hbytes : (qs.map Asked.question).reverse.flatMap Question.bytes = questionSection qs.reverse := by
    rw [← List.map_reverse, List.flatMap_map]
    apply List.flatMap_congr
    intro q hq
    rw [List.mem_reverse] at hq
    exact bytes_question (h.named q hq).1 (h.named q hq).2
  have hlen : (questionSection qs).length = (questionSection qs.reverse).length := by
    apply List.Perm.length_eq
    exact (List.reverse_perm qs).symm.flatMap_right _
  rw [decodeMsg_query h, encodeMsg_eq hanswerable, hlen]
  dsimp only
  generalize hmsg : resolveQuery _ = msg
  have hquestions : msg.questions.flatMap Question.bytes = questionSection qs.reverse := by
    rw [← hmsg, resolveQuery_eq, ← hbytes]
  rw [Message.bytes, hquestions, List.append_assoc, List.append_assoc]
  have hload : (12 : Nat) = 0 + (headerBytes msg).length := by
    rw [length_headerBytes]
  rw [hload]
  exact Cursor.load_put_append

/--
The questions of a query are copied exactly when they read the same in both directions.
-/
theorem copiesQuestions_iff (h : IsQuery data size qs)
    : CopiesQuestions data size qs ↔ qs.reverse = qs := by
  rw [CopiesQuestions, section_of_response h, decodeMsg_query h]
  constructor
  . rintro ⟨_, hsection⟩
    exact prefixCode_asked.flatMap_inj hsection
  . intro hreverse
    rw [hreverse]
    exact ⟨rfl, rfl⟩

/--
A standard query with the given questions.
-/
def standardQuery (qs : List Asked) : Memory :=
  Memory.store (fun _ => 0) 0
    ([0x12, 0x34, 0x01, 0x00] ++ Memory.ofUInt16Be qs.length.toUInt16 ++ [0, 0, 0, 0, 0, 0] ++ questionSection qs)

theorem named_fooBarCom : fooBarComName.labels ≠ [] ∧ fooBarComName.Over isLetter := by
  unfold DomainName.Over
  decide +kernel

/-- Addresses of both kinds and then one kind again. -/
theorem copiesQuestions_iff_fooBarCom
    : ∃ qs : List Asked, qs.length = 3 ∧ IsQuery (standardQuery qs) 63 qs
        ∧ CopiesQuestions (standardQuery qs) 63 qs := by
  let qs : List Asked := [⟨fooBarComName, 1, 1⟩, ⟨fooBarComName, 28, 1⟩, ⟨fooBarComName, 1, 1⟩]
  have hquery : IsQuery (standardQuery qs) 63 qs := by
    constructor
    . simp [qs]
    . simp [qs, named_fooBarCom]
    . decide
    . decide
    . decide
    . decide +kernel
    . decide
  exact ⟨qs, rfl, hquery, (copiesQuestions_iff hquery).mpr rfl⟩

/-- Two questions change places. -/
theorem not_copiesQuestions
    : ∃ data size qs, IsQuery data size qs ∧ ¬CopiesQuestions data size qs := by
  let qs : List Asked := [⟨fooBarComName, 1, 1⟩, ⟨fooBarComName, 28, 1⟩]
  have hquery : IsQuery (standardQuery qs) 46 qs := by
    constructor
    . simp [qs]
    . simp [qs, named_fooBarCom]
    . decide
    . decide
    . decide
    . decide +kernel
    . decide
  refine ⟨standardQuery qs, 46, qs, hquery, ?_⟩
  rintro ⟨_, hsection⟩
  rw [section_of_response hquery] at hsection
  have hdiffer : questionSection qs.reverse ≠ questionSection qs := by
    decide
  exact hdiffer hsection

end Dns
