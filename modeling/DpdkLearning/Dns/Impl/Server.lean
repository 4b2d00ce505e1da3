import DpdkLearning.Dns.Impl.Codec

/-!
This module contains how a query is decoded, resolved and encoded as its response, and the branch of
`dpdk_kni.c` that answers a datagram.
-/

open Lib

namespace Dns

/--
The loop of `decode_msg` over the questions that are left, and its result.
-/
def decodeMsgLoop (msg : Message) (buffer : Memory) (pos size : Nat) : Nat → Message × Int
  | 0 => (msg, 0)
  | n + 1 =>
    let (qName, pos) := decodeDomainName buffer pos size
    let qType := get16bits buffer pos
    let qClass := get16bits buffer (pos + 2)
    match qName with
    | none => (msg, -1)
    | some qName =>
      decodeMsgLoop { msg with questions := { qName, qType, qClass } :: msg.questions } buffer (pos + 4) size n

def decodeMsg (msg : Message) (buffer : Memory) (size : Nat) : Message × Int :=
  let msg := decodeHeader msg buffer 0
  if msg.anCount ≠ 0 ∨ msg.nsCount ≠ 0 then
    (msg, -1)
  else
    decodeMsgLoop msg buffer 12 size msg.qdCount.toNat

/--
`"foo.bar.com"`
-/
def fooBarCom : List UInt8 :=
  [102, 111, 111, 46, 98, 97, 114, 46, 99, 111, 109]

def getARecord (domainName : List UInt8) : Option (Vector UInt8 4) :=
  if domainName = fooBarCom then some #v[192, 168, 232, 133] else none

def getAAAARecord (domainName : List UInt8) : Option (Vector UInt8 16) :=
  if domainName = fooBarCom then
    some #v[0xfe, 0x80, 0x00, 0x00, 0x00, 0x00, 0x00, 0x00, 0x00, 0x00, 0x00, 0x00, 0x00, 0x00, 0x00, 0x01]
  else
    none

/--
`"abcdefg"`
-/
def getTXTRecord (domainName : List UInt8) : Option (List UInt8) :=
  if domainName = fooBarCom then some [97, 98, 99, 100, 101, 102, 103] else none

def ResourceData.zero : ResourceData where
  txtDataLen := 0
  txtData := []
  aAddr := .replicate 4 0
  aaaaAddr := .replicate 16 0

/--
The record before its data is filled in.
-/
def Question.record (q : Question) : ResourceRecord where
  name := q.qName
  type := q.qType
  class' := q.qClass
  ttl := 60 * 60
  rdLength := 0
  rdData := .zero

/--
What becomes of a question: a record, no record because there is none for the name, or no record because of
the type.
-/
inductive Resolved where
  | answered (rr : ResourceRecord)
  | omitted
  | notImplemented

/--
The body of the loop in `resolve_query` up to the end of its `switch`.
-/
def resolve (q : Question) : Resolved :=
  let rr := q.record
  if q.qType = aResourceRecordType then
    match getARecord q.qName with
    | none => .omitted
    | some addr => .answered { rr with rdLength := 4, rdData := { rr.rdData with aAddr := addr } }
  else if q.qType = aaaaResourceRecordType then
    match getAAAARecord q.qName with
    | none => .omitted
    | some addr => .answered { rr with rdLength := 16, rdData := { rr.rdData with aaaaAddr := addr } }
  else if q.qType = txtResourceRecordType then
    match getTXTRecord q.qName with
    | none => .omitted
    | some txtData =>
      .answered { rr with
        rdLength := (txtData.length + 1).toUInt16
        rdData := { rr.rdData with txtDataLen := txtData.length.toUInt8, txtData } }
  else
    .notImplemented

/--
The loop of `resolve_query` from a question on.
-/
def resolveQueryLoop (msg : Message) : List Question → Message
  | [] => msg
  | q :: qs =>
    match resolve q with
    | .answered rr =>
      resolveQueryLoop { msg with anCount := msg.anCount + 1, answers := rr :: msg.answers } qs
    | .omitted => resolveQueryLoop msg qs
    | .notImplemented => resolveQueryLoop { msg with rcode := notImplementedResponseType } qs

def resolveQuery (msg : Message) : Message :=
  resolveQueryLoop
    { msg with
      qr := 1
      aa := 1
      ra := 0
      rcode := okResponseType
      anCount := 0
      nsCount := 0
      arCount := 0 }
    msg.questions

/--
The data of a record, as the `switch` over its type in `encode_resource_records` has it. There is none for
an unknown type.
-/
def encodeRdata (rr : ResourceRecord) (buffer : Cursor) : Option Cursor :=
  if rr.type = aResourceRecordType then
    some (rr.rdData.aAddr.toList.foldl put8bits buffer)
  else if rr.type = aaaaResourceRecordType then
    some (rr.rdData.aaaaAddr.toList.foldl put8bits buffer)
  else if rr.type = txtResourceRecordType then
    let buffer := put8bits buffer rr.rdData.txtDataLen
    some ((List.range rr.rdData.txtDataLen.toNat).foldl
      (fun buffer i => put8bits buffer (rr.rdData.txtData.getD i 0)) buffer)
  else
    none

/--
The records that are written to the end are counted.
-/
structure EncodedRecords where
  rc : Nat
  written : Nat
  buffer : Cursor

def encodeResourceRecords (buffer : Cursor) (written : Nat) : List ResourceRecord → EncodedRecords
  | [] => ⟨0, written, buffer⟩
  | rr :: rrs =>
    let buffer := encodeDomainName buffer rr.name
    let buffer := put16bits buffer rr.type
    let buffer := put16bits buffer rr.class'
    let buffer := put32bits buffer rr.ttl
    let buffer := put16bits buffer rr.rdLength
    match encodeRdata rr buffer with
    | none => ⟨1, written, buffer⟩
    | some buffer => encodeResourceRecords buffer (written + 1) rrs

/--
The loop of `encode_msg` over the questions.
-/
def encodeQuestions (buffer : Cursor) (written : Nat) : List Question → Cursor × Nat
  | [] => (buffer, written)
  | q :: qs =>
    let buffer := encodeDomainName buffer q.qName
    let buffer := put16bits buffer q.qType
    let buffer := put16bits buffer q.qClass
    encodeQuestions buffer (written + 1) qs

/--
The result of `encode_msg`, with the number of entries that it has written into each section.
-/
structure Encoded where
  rc : Nat
  questions : Nat
  answers : Nat
  authorities : Nat
  additionals : Nat
  buffer : Cursor

def encodeMsg (msg : Message) (buffer : Cursor) : Encoded :=
  let buffer := encodeHeader msg buffer
  let (buffer, questions) := encodeQuestions buffer 0 msg.questions
  let answers := encodeResourceRecords buffer 0 msg.answers
  let authorities := encodeResourceRecords answers.buffer 0 msg.authorities
  let additionals := encodeResourceRecords authorities.buffer 0 msg.additionals
  { rc := answers.rc ||| authorities.rc ||| additionals.rc
    questions
    answers := answers.written
    authorities := authorities.written
    additionals := additionals.written
    buffer := additionals.buffer }

/--
The datagram that goes to `do_send_udp`, with what `encode_msg` has reported.
-/
structure Response where
  encoded : Encoded
  data : List UInt8

/--
The branch of `main` for a datagram to `UDP_PORT`, whose payload is at address 0 of the memory. The message
of the datagram before it is freed and zeroed. Neither result is looked at.
-/
def dnsBranch (data : Memory) (dgramLen : UInt16) : Response :=
  let nbytes := dgramLen - 8
  let msg := (decodeMsg .zero data nbytes.toNat).1
  let msg := resolveQuery msg
  let encoded := encodeMsg msg ⟨data, 0⟩
  { encoded
    data := encoded.buffer.mem.load 0 encoded.buffer.pos }

end Dns
