import Mathlib.Data.Nat.Bitwise
import DpdkLearning.Dns.Names

/-!
This module contains what the encoders make of a name with dots and of a header that was decoded: a name
gets its wire form back, a header only two of its seven flags.
-/

open Lib

namespace Dns

section Names

variable {buf : Cursor} {labels : List (List UInt8)}

/--
A sequence of 1 to 63 bytes that are neither zero nor a dot.
-/
structure IsLabel (l : List UInt8) : Prop where
  sized : 0 < l.length ∧ l.length ≤ 63
  plain : ∀ b ∈ l, b ≠ 0 ∧ b ≠ dot

theorem splitOn_dotted_labels (hne : labels ≠ []) (h : ∀ l ∈ labels, IsLabel l)
    : (dotted labels).splitOn dot = labels := by
  apply List.splitOn_intercalate
  . intro l hl hdot
    exact ((h l hl).plain dot hdot).2 rfl
  . exact hne

/--
A name of any number of labels is encoded to its wire form, which is two bytes longer, and nothing else is
written.
-/
theorem encodeDomainName_dotted (buf : Cursor) (hne : labels ≠ []) (h : ∀ l ∈ labels, IsLabel l)
    : (encodeDomainName buf (dotted labels)).pos = buf.pos + ((dotted labels).length + 2)
        ∧ (encodeDomainName buf (dotted labels)).mem.load buf.pos ((dotted labels).length + 2) = wire labels
        ∧ ∀ i, i < buf.pos ∨ buf.pos + ((dotted labels).length + 2) ≤ i
          → (encodeDomainName buf (dotted labels)).mem i = buf.mem i := by
  rw [encodeDomainName_eq, splitOn_dotted_labels hne h, ← length_wire_dotted hne]
  refine ⟨rfl, Cursor.load_put buf _, ?_⟩
  intro i hi
  exact Memory.store_apart hi

/-- The name that the server knows. -/
theorem encodeDomainName_dotted_fooBarCom
    : (encodeDomainName ⟨fun _ => 0xff, 12⟩ fooBarCom).pos = 12 + 13
        ∧ (encodeDomainName ⟨fun _ => 0xff, 12⟩ fooBarCom).mem.load 12 13 = fooBarComName.wire
        ∧ ∀ i, i < 12 ∨ 12 + 13 ≤ i → (encodeDomainName ⟨fun _ => 0xff, 12⟩ fooBarCom).mem i = 0xff := by
  have hplain : ∀ l ∈ fooBarComName.labels, ∀ b ∈ l, b ≠ 0 ∧ b ≠ dot := by
    decide +kernel
  have hlabels : ∀ l ∈ fooBarComName.labels, IsLabel l := fun l hl => ⟨fooBarComName.sized l hl, hplain l hl⟩
  have hne : fooBarComName.labels ≠ [] := by decide
  have hencoded := encodeDomainName_dotted ⟨fun _ => 0xff, 12⟩ hne hlabels
  exact hencoded

end Names

section Header

variable {buf : Memory} {pos : Nat} {msg : Message} {out : Cursor}

/--
The bits of a 16-bit word from `pos` on, as a number.
-/
def bitsAt (fields : UInt16) (pos width : Nat) : Nat :=
  fields.toNat / 2 ^ pos % 2 ^ width

/--
Each flag is what the word has at the position of the flag.
-/
structure FlagsOf (msg : Message) (fields : UInt16) : Prop where
  qr : msg.qr.toNat = bitsAt fields 15 1
  opcode : msg.opcode.toNat = bitsAt fields 11 4
  aa : msg.aa.toNat = bitsAt fields 10 1
  tc : msg.tc.toNat = bitsAt fields 9 1
  rd : msg.rd.toNat = bitsAt fields 8 1
  ra : msg.ra.toNat = bitsAt fields 7 1
  rcode : msg.rcode.toNat = bitsAt fields 0 4

/--
The word of the flags in the header at `pos`.
-/
def flagsAt (buf : Memory) (pos : Nat) : UInt16 :=
  buf.load16Be (pos + 2)

theorem toNat_masked (fields : UInt16) (mask shift : UInt32) (width : Nat)
    (hmask : mask.toNat >>> (shift.toNat % 32) = 2 ^ width - 1)
    : (((fields.toUInt32 &&& mask) >>> shift).toUInt16).toNat
        = fields.toNat / 2 ^ (shift.toNat % 32) % 2 ^ width % 2 ^ 16 := by
  rw [UInt32.toNat_toUInt16, UInt32.toNat_shiftRight, UInt32.toNat_and, Nat.shiftRight_and_distrib, hmask,
    Nat.and_two_pow_sub_one_eq_mod, Nat.shiftRight_eq_div_pow]
  rfl

theorem toNat_masked_ra (fields : UInt16)
    : (((fields.toUInt32 &&& raMask) >>> 7).toUInt16).toNat = bitsAt fields 15 1 * 256 := by
  have hlt := fields.toNat_lt
  have hbit : fields.toNat &&& 2 ^ 15 = bitsAt fields 15 1 * 2 ^ 15 := by
    rw [Nat.and_two_pow, Nat.toNat_testBit]
    rfl
  rw [UInt32.toNat_toUInt16, UInt32.toNat_shiftRight, UInt32.toNat_and, UInt16.toNat_toUInt32]
  change (fields.toNat &&& 2 ^ 15) >>> 7 % 2 ^ 16 = _
  rw [hbit, Nat.shiftRight_eq_div_pow, bitsAt]
  omega

theorem toNat_written (qr rcode : UInt16) (hqr : qr.toNat < 2) (hrcode : rcode.toNat < 16)
    : ((((qr.toUInt32 <<< 15) &&& qrMask) ||| ((rcode.toUInt32 <<< 0) &&& rcodeMask)).toUInt16).toNat
        = qr.toNat * 2 ^ 15 + rcode.toNat := by
  have hall : ∀ q : Fin 2, ∀ r : Fin 16,
      (((((UInt16.ofNat q).toUInt32 <<< 15) &&& qrMask)
        ||| (((UInt16.ofNat r).toUInt32 <<< 0) &&& rcodeMask)).toUInt16).toNat = q.val * 2 ^ 15 + r.val := by
    decide +kernel
  have := hall ⟨qr.toNat, hqr⟩ ⟨rcode.toNat, hrcode⟩
  simpa using this

theorem flags_decodeHeader (msg : Message) (buf : Memory) (pos : Nat)
    : (decodeHeader msg buf pos).qr.toNat = bitsAt (flagsAt buf pos) 15 1
        ∧ (decodeHeader msg buf pos).opcode.toNat = bitsAt (flagsAt buf pos) 11 4
        ∧ (decodeHeader msg buf pos).aa.toNat = bitsAt (flagsAt buf pos) 10 1
        ∧ (decodeHeader msg buf pos).tc.toNat = bitsAt (flagsAt buf pos) 9 1
        ∧ (decodeHeader msg buf pos).rd.toNat = bitsAt (flagsAt buf pos) 8 1
        ∧ (decodeHeader msg buf pos).ra.toNat = bitsAt (flagsAt buf pos) 15 1 * 256
        ∧ (decodeHeader msg buf pos).rcode.toNat = bitsAt (flagsAt buf pos) 0 4 := by
  have hbits : ∀ mask shift width, width ≤ 4 → mask.toNat >>> (shift.toNat % 32) = 2 ^ width - 1
      → ((((flagsAt buf pos).toUInt32 &&& mask) >>> shift).toUInt16).toNat
        = bitsAt (flagsAt buf pos) (shift.toNat % 32) width := by
    intro mask shift width hwidth hmask
    rw [toNat_masked _ _ _ width hmask]
    apply Nat.mod_eq_of_lt
    apply Nat.lt_of_lt_of_le (Nat.mod_lt _ (Nat.two_pow_pos width))
    exact Nat.pow_le_pow_right (by decide) (by omega)
  refine ⟨?_, ?_, ?_, ?_, ?_, toNat_masked_ra _, ?_⟩
  . exact hbits qrMask 15 1 (by decide) (by decide)
  . exact hbits opcodeMask 11 4 (by decide) (by decide)
  . exact hbits aaMask 10 1 (by decide) (by decide)
  . exact hbits tcMask 9 1 (by decide) (by decide)
  . exact hbits rdMask 8 1 (by decide) (by decide)
  . exact hbits rcodeMask 0 4 (by decide) (by decide)

theorem headerBytes_decodeHeader_iff
    : headerBytes (decodeHeader msg buf pos) = buf.load pos 12
        ↔ (decodeHeader msg buf pos).qr.toNat * 2 ^ 15 + (decodeHeader msg buf pos).rcode.toNat
            = (flagsAt buf pos).toNat := by
  rcases flags_decodeHeader msg buf pos with ⟨hqr, _, _, _, _, _, hrcode⟩
  have hqr' : (decodeHeader msg buf pos).qr.toNat < 2 := by
    rw [hqr]
    exact Nat.mod_lt _ (by decide)
  have hrcode' : (decodeHeader msg buf pos).rcode.toNat < 16 := by
    rw [hrcode]
    exact Nat.mod_lt _ (by decide)
  -- All other words are kept as they are, so it comes down to the one of the flags.
  have hload : buf.load pos 12 = buf.load pos 2 ++ Memory.ofUInt16Be (flagsAt buf pos) ++ buf.load (pos + 4) 2
      ++ buf.load (pos + 6) 2 ++ buf.load (pos + 8) 2 ++ buf.load (pos + 10) 2 := by
    rw [flagsAt, Memory.ofUInt16Be_load16Be]
    simp only [← Memory.load_add]
  rw [← toNat_written _ _ hqr' hrcode', UInt16.toNat_inj, hload, ← Memory.ofUInt16Be_inj]
  unfold headerBytes
  dsimp only
  have hid : Memory.ofUInt16Be (decodeHeader msg buf pos).id = buf.load pos 2 := Memory.ofUInt16Be_load16Be ..
  have hqd : Memory.ofUInt16Be (decodeHeader msg buf pos).qdCount = buf.load (pos + 4) 2 :=
    Memory.ofUInt16Be_load16Be ..
  have han : Memory.ofUInt16Be (decodeHeader msg buf pos).anCount = buf.load (pos + 6) 2 :=
    Memory.ofUInt16Be_load16Be ..
  have hns : Memory.ofUInt16Be (decodeHeader msg buf pos).nsCount = buf.load (pos + 8) 2 :=
    Memory.ofUInt16Be_load16Be ..
  have har : Memory.ofUInt16Be (decodeHeader msg buf pos).arCount = buf.load (pos + 10) 2 :=
    Memory.ofUInt16Be_load16Be ..
  rw [hid, hqd, han, hns, har]
  simp only [List.append_cancel_right_eq, List.append_cancel_left_eq]

/--
A header without reserved bits is written back as it was read exactly when no flag but QR and RCODE is set,
and all flags are read from their own positions exactly when neither QR nor RA is set.
-/
theorem headerCodec_iff (msg : Message) (buf : Memory) (pos : Nat) (out : Cursor)
    (hz : bitsAt (flagsAt buf pos) 4 3 = 0)
    : ((encodeHeader (decodeHeader msg buf pos) out).mem.load out.pos 12 = buf.load pos 12
          ↔ bitsAt (flagsAt buf pos) 11 4 = 0 ∧ bitsAt (flagsAt buf pos) 10 1 = 0
            ∧ bitsAt (flagsAt buf pos) 9 1 = 0 ∧ bitsAt (flagsAt buf pos) 8 1 = 0
            ∧ bitsAt (flagsAt buf pos) 7 1 = 0)
        ∧ (FlagsOf (decodeHeader msg buf pos) (flagsAt buf pos)
          ↔ bitsAt (flagsAt buf pos) 15 1 = 0 ∧ bitsAt (flagsAt buf pos) 7 1 = 0) := by
  rcases flags_decodeHeader msg buf pos with ⟨hqr, hopcode, haa, htc, hrd, hra, hrcode⟩
  constructor
  . have hwritten : (encodeHeader (decodeHeader msg buf pos) out).mem.load out.pos 12
        = headerBytes (decodeHeader msg buf pos) := by
      rw [encodeHeader_eq, ← length_headerBytes (decodeHeader msg buf pos)]
      exact Cursor.load_put out _
    have hlt := (flagsAt buf pos).toNat_lt
    rw [hwritten, headerBytes_decodeHeader_iff, hqr, hrcode]
    unfold bitsAt at *
    omega
  . constructor
    . intro h
      have hself := h.ra
      rw [hra] at hself
      unfold bitsAt at *
      omega
    . rintro ⟨hqr0, hra0⟩
      exact ⟨hqr, hopcode, haa, htc, hrd, by rw [hra, hqr0, hra0], hrcode⟩

/-- The header of a response without an error. -/
theorem headerCodec_iff_response
    : ∃ buf : Memory, bitsAt (flagsAt buf 0) 4 3 = 0
        ∧ (encodeHeader (decodeHeader .zero buf 0) ⟨fun _ => 0, 0⟩).mem.load 0 12 = buf.load 0 12 := by
  let buf : Memory := Memory.store (fun _ => 0) 0 [0x12, 0x34, 0x80, 0x00, 0, 1, 0, 1, 0, 0, 0, 0]
  have hz : bitsAt (flagsAt buf 0) 4 3 = 0 := by
    decide +kernel
  refine ⟨buf, hz, (headerCodec_iff .zero buf 0 ⟨fun _ => 0, 0⟩ hz).1.mpr ?_⟩
  decide +kernel

/-- The wish for recursion is not written back. -/
theorem not_headerCodec
    : ∃ buf : Memory, bitsAt (flagsAt buf 0) 4 3 = 0
        ∧ (encodeHeader (decodeHeader .zero buf 0) ⟨fun _ => 0, 0⟩).mem.load 0 12 ≠ buf.load 0 12 := by
  refine ⟨Memory.store (fun _ => 0) 0 [0x12, 0x34, 0x01, 0x00, 0, 1, 0, 0, 0, 0, 0, 0], ?_, ?_⟩
  . decide +kernel
  . decide +kernel

end Header

end Dns
