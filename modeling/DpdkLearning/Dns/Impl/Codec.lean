import DpdkLearning.Lib.Cursor
import DpdkLearning.Lib.DomainName

/-!
This module contains the messages of `dns.h` and how `dns.c` reads names and headers from a buffer and
writes them into one.
-/

open Lib

namespace Dns

def okResponseType : UInt16 := 0

def notImplementedResponseType : UInt16 := 4

def aResourceRecordType : UInt16 := 1

def txtResourceRecordType : UInt16 := 16

def aaaaResourceRecordType : UInt16 := 28

/--
A question. Its name is the string without the zero byte.
-/
structure Question where
  qName : List UInt8
  qType : UInt16
  qClass : UInt16
  deriving DecidableEq, Repr

/--
The members of `union ResourceData`. A record uses the one of its type, so that they may lie beside each
other here.
-/
structure ResourceData where
  txtDataLen : UInt8
  txtData : List UInt8
  aAddr : Vector UInt8 4
  aaaaAddr : Vector UInt8 16
  deriving DecidableEq, Repr

structure ResourceRecord where
  name : List UInt8
  type : UInt16
  class' : UInt16
  ttl : UInt32
  rdLength : UInt16
  rdData : ResourceData
  deriving DecidableEq, Repr

structure Message where
  id : UInt16
  qr : UInt16
  opcode : UInt16
  aa : UInt16
  tc : UInt16
  rd : UInt16
  ra : UInt16
  rcode : UInt16
  qdCount : UInt16
  anCount : UInt16
  nsCount : UInt16
  arCount : UInt16
  questions : List Question
  answers : List ResourceRecord
  authorities : List ResourceRecord
  additionals : List ResourceRecord
  deriving DecidableEq, Repr

/--
A message after `memset`.
-/
def Message.zero : Message where
  id := 0
  qr := 0
  opcode := 0
  aa := 0
  tc := 0
  rd := 0
  ra := 0
  rcode := 0
  qdCount := 0
  anCount := 0
  nsCount := 0
  arCount := 0
  questions := []
  answers := []
  authorities := []
  additionals := []

def qrMask : UInt32 := 0x8000

def opcodeMask : UInt32 := 0x7800

def aaMask : UInt32 := 0x0400

def tcMask : UInt32 := 0x0200

def rdMask : UInt32 := 0x0100

def raMask : UInt32 := 0x8000

def rcodeMask : UInt32 := 0x000F

/--
The value at the cursor. The cursor is an address in the buffer, from which the caller goes on two bytes
later.
-/
def get16bits (buffer : Memory) (pos : Nat) : UInt16 :=
  buffer.load16Be pos

def put8bits (buffer : Cursor) (value : UInt8) : Cursor :=
  buffer.put [value]

def put16bits (buffer : Cursor) (value : UInt16) : Cursor :=
  buffer.put (Memory.ofUInt16Be value)

def put32bits (buffer : Cursor) (value : UInt32) : Cursor :=
  buffer.put (Memory.ofUInt32Be value)

/--
The loop of `decode_domain_name` from `i` on, `n` rounds at most: the rest of the name, and where its zero
byte is.
-/
def decodeDomainNameLoop (buf : Memory) (pos i : Nat) : Nat → Option (List UInt8 × Nat)
  | 0 => none
  | n + 1 =>
    let c := buf (pos + i)
    if c = 0 then
      some ([], i)
    else
      match decodeDomainNameLoop buf pos (i + 1) n with
      | none => none
      | some (domain, last) => some ((if c ≤ 63 then dot else c) :: domain, last)

/--
The name and the cursor behind it. Without a name the cursor stays where it is.
-/
def decodeDomainName (buf : Memory) (pos len : Nat) : Option (List UInt8) × Nat :=
  match decodeDomainNameLoop buf pos 1 (min 256 len - 1) with
  | none => (none, pos)
  | some (domain, i) => (some domain, pos + i + 1)

def strchr (s : List UInt8) (c : UInt8) : Option Nat :=
  s.idxOf? c

/--
The loop of `encode_domain_name`: the buffer and what is left of the name behind its last dot. Each round
takes a dot off the name, so that it has no more rounds than the name has bytes.
-/
def encodeDomainNameLoop (buf : Cursor) (beg : List UInt8) : Nat → Cursor × List UInt8
  | 0 => (buf, beg)
  | n + 1 =>
    match strchr beg dot with
    | none => (buf, beg)
    | some len =>
      let buf := buf.put [len.toUInt8]
      let buf := buf.put (beg.take len)
      encodeDomainNameLoop buf (beg.drop (len + 1)) n

def encodeDomainName (buffer : Cursor) (domain : List UInt8) : Cursor :=
  let (buf, beg) := encodeDomainNameLoop buffer domain domain.length
  let buf := buf.put [beg.length.toUInt8]
  let buf := buf.put beg
  buf.put [0]

def decodeHeader (msg : Message) (buffer : Memory) (pos : Nat) : Message :=
  let fields := (get16bits buffer (pos + 2)).toUInt32
  { msg with
    id := get16bits buffer pos
    qr := ((fields &&& qrMask) >>> 15).toUInt16
    opcode := ((fields &&& opcodeMask) >>> 11).toUInt16
    aa := ((fields &&& aaMask) >>> 10).toUInt16
    tc := ((fields &&& tcMask) >>> 9).toUInt16
    rd := ((fields &&& rdMask) >>> 8).toUInt16
    ra := ((fields &&& raMask) >>> 7).toUInt16
    rcode := ((fields &&& rcodeMask) >>> 0).toUInt16
    qdCount := get16bits buffer (pos + 4)
    anCount := get16bits buffer (pos + 6)
    nsCount := get16bits buffer (pos + 8)
    arCount := get16bits buffer (pos + 10) }

def encodeHeader (msg : Message) (buffer : Cursor) : Cursor :=
  let buffer := put16bits buffer msg.id
  let fields := ((msg.qr.toUInt32 <<< 15) &&& qrMask) ||| ((msg.rcode.toUInt32 <<< 0) &&& rcodeMask)
  let buffer := put16bits buffer fields.toUInt16
  let buffer := put16bits buffer msg.qdCount
  let buffer := put16bits buffer msg.anCount
  let buffer := put16bits buffer msg.nsCount
  put16bits buffer msg.arCount

end Dns
