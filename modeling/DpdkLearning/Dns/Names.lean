import DpdkLearning.Dns.Lemmas.Query

/-!
This module contains which names `decode_domain_name` reads right. It looks at no length byte: whatever is
at most 63 is a dot for it.
-/

open Lib

namespace Dns

variable {buf : Memory} {pos i len n : Nat} {content l : List UInt8} {ls labels : List (List UInt8)}

/--
What a byte of a name becomes.
-/
def decodeByte (c : UInt8) : UInt8 :=
  if c ≤ 63 then dot else c

/-- The loop goes on to the first zero byte. -/
theorem decodeDomainNameLoop_eq (hmem : buf.load (pos + i) (content.length + 1) = content ++ [0])
    (hne : ∀ c ∈ content, c ≠ 0) (hn : content.length < n)
    : decodeDomainNameLoop buf pos i n = some (content.map decodeByte, i + content.length) := by
  induction content generalizing i n with
  | nil =>
    have hzero : buf (pos + i) = 0 := Memory.apply_of_load (i := 0) hmem (by simp)
    cases n with
    | zero => exact absurd hn (Nat.not_lt_zero _)
    | succ n => simp [decodeDomainNameLoop, hzero]
  | cons c content ih =>
    have hfirst : buf (pos + i) = c := Memory.apply_of_load (i := 0) hmem (by simp)
    have hrest : buf.load (pos + (i + 1)) (content.length + 1) = content ++ [0] := by
      rw [List.length_cons, Nat.add_comm _ 1, Memory.load_add] at hmem
      change _ = [c] ++ (content ++ [0]) at hmem
      exact (List.append_inj hmem (by simp)).2
    rw [List.forall_mem_cons] at hne
    rw [List.length_cons] at hn
    cases n with
    | zero => exact absurd hn (Nat.not_lt_zero _)
    | succ n =>
      unfold decodeDomainNameLoop
      dsimp only
      rw [hfirst, if_neg hne.1, ih hrest hne.2 (by omega), List.map_cons, List.length_cons]
      dsimp only
      rw [Nat.add_assoc, Nat.add_comm 1]
      rfl

theorem decodeDomainName_eq {first : UInt8}
    (hmem : buf.load pos (content.length + 2) = first :: content ++ [0]) (hne : ∀ c ∈ content, c ≠ 0)
    (hshort : content.length + 2 ≤ 256) (hlen : content.length + 2 ≤ len)
    : decodeDomainName buf pos len = (some (content.map decodeByte), pos + (content.length + 2)) := by
  have hrest : buf.load (pos + 1) (content.length + 1) = content ++ [0] := by
    rw [show content.length + 2 = 1 + (content.length + 1) by omega, Memory.load_add] at hmem
    change _ = [first] ++ (content ++ [0]) at hmem
    exact (List.append_inj hmem (by simp)).2
  rw [decodeDomainName, decodeDomainNameLoop_eq hrest hne (by omega)]
  dsimp only
  congr 1
  omega

theorem pos_decodeDomainName {domain : List UInt8} {last : Nat}
    (h : decodeDomainName buf pos len = (some domain, last)) : pos + 2 ≤ last := by
  cases hend : nameEnd buf pos len with
  | none =>
    rw [decodeDomainName_none hend] at h
    simp at h
  | some i =>
    rcases decodeDomainName_some hend with ⟨domain', hname⟩
    have hmem := List.mem_of_find?_eq_some hend
    rw [List.mem_range'_1] at hmem
    rw [hname, Prod.mk.injEq] at h
    omega

/--
The wire form without its first byte and the zero byte.
-/
def inside (l : List UInt8) (ls : List (List UInt8)) : List UInt8 :=
  l ++ ls.flatMap (fun l => l.length.toUInt8 :: l)

theorem wire_eq_inside : wire (l :: ls) = l.length.toUInt8 :: inside l ls ++ [0] := by
  simp [wire, inside]

theorem ne_zero_of_isLdh {b : UInt8} (h : isLdh b = true) : b ≠ 0 := by
  rintro rfl
  contradiction

theorem inside_ne_zero (h : ∀ m ∈ l :: ls, 0 < m.length ∧ m.length ≤ 63)
    (hldh : ∀ m ∈ l :: ls, ∀ b ∈ m, isLdh b = true) : ∀ c ∈ inside l ls, c ≠ 0 := by
  intro c hc
  rw [inside, List.mem_append, List.mem_flatMap] at hc
  rw [List.forall_mem_cons] at h hldh
  rcases hc with hc | ⟨l', hl', hc⟩
  . exact ne_zero_of_isLdh (hldh.1 c hc)
  . rw [List.mem_cons] at hc
    rcases hc with rfl | hc
    . exact length_byte_ne_zero (h.2 l' hl')
    . exact ne_zero_of_isLdh (hldh.2 l' hl' c hc)

theorem decodeByte_length (h : l.length ≤ 63) : decodeByte l.length.toUInt8 = dot := by
  apply if_pos
  rw [UInt8.le_iff_toNat_le, toNat_length h]
  exact h

theorem decodeByte_iff {b : UInt8} (h : isLdh b = true) : decodeByte b = b ↔ isLetter b = true := by
  simp only [isLdh, isLetter, Bool.or_eq_true, decide_eq_true_eq, UInt8.le_iff_toNat_le,
    ← UInt8.toNat_inj, decodeByte, dot] at h ⊢
  split <;> simp at * <;> omega

theorem map_eq_self_iff {f : UInt8 → UInt8} : l.map f = l ↔ ∀ b ∈ l, f b = b := by
  conv => lhs; rhs; rw [← List.map_id l]
  exact List.map_inj_left

theorem map_dotted_iff {f : UInt8 → UInt8}
    : l.map f ++ ls.flatMap (fun l => dot :: l.map f) = l ++ ls.flatMap (fun l => dot :: l)
        ↔ ∀ m ∈ l :: ls, ∀ b ∈ m, f b = b := by
  induction ls generalizing l with
  | nil => simp [map_eq_self_iff]
  | cons m ls ih =>
    rw [List.flatMap_cons, List.flatMap_cons, List.forall_mem_cons, ← ih, ← map_eq_self_iff]
    constructor
    . intro heq
      rcases List.append_inj heq (List.length_map f) with ⟨hfirst, hrest⟩
      rw [List.cons_append, List.cons_append, List.cons.injEq] at hrest
      exact ⟨hfirst, hrest.2⟩
    . rintro ⟨hfirst, hrest⟩
      rw [hfirst, List.cons_append, List.cons_append, hrest]

theorem decode_inside_iff (h : ∀ m ∈ l :: ls, 0 < m.length ∧ m.length ≤ 63)
    (hldh : ∀ m ∈ l :: ls, ∀ b ∈ m, isLdh b = true)
    : (inside l ls).map decodeByte = dotted (l :: ls) ↔ ∀ m ∈ l :: ls, ∀ b ∈ m, isLetter b = true := by
  have hmap : (inside l ls).map decodeByte
      = l.map decodeByte ++ ls.flatMap (fun l => dot :: l.map decodeByte) := by
    rw [inside, List.map_append, List.map_flatMap]
    congr 1
    apply List.flatMap_congr
    intro l' hl'
    rw [List.map_cons, decodeByte_length (h l' (List.mem_cons_of_mem _ hl')).2]
  rw [hmap, dotted_cons, map_dotted_iff]
  exact forall₂_congr fun l' hl' => forall₂_congr fun b hb => decodeByte_iff (hldh l' hl' b hb)

theorem decodeDomainName_labels {name : DomainName} (hlabels : name.labels = l :: ls)
    (hldh : name.Over isLdh) (hmem : buf.load pos name.wire.length = name.wire)
    (hlen : name.wire.length ≤ len)
    : decodeDomainName buf pos len = (some ((inside l ls).map decodeByte), pos + name.wire.length) := by
  have hsized := name.sized
  have hfits := name.fits
  unfold DomainName.Over at hldh
  unfold DomainName.wire at *
  rw [hlabels] at *
  have hcount : (wire (l :: ls)).length = (inside l ls).length + 2 := by
    rw [wire_eq_inside]
    simp
  rw [hcount, wire_eq_inside] at hmem
  rw [hcount] at hfits hlen ⊢
  exact decodeDomainName_eq hmem (inside_ne_zero hsized hldh) (by omega) hlen

theorem ldh_of_letters {name : DomainName} (h : name.Over isLetter) : name.Over isLdh := by
  intro l hl b hb
  rw [isLdh, h l hl b hb, Bool.true_or]

theorem decodeDomainName_letters {name : DomainName} (hroot : name.labels ≠ []) (h : name.Over isLetter)
    (hmem : buf.load pos name.wire.length = name.wire) (hlen : name.wire.length ≤ len)
    : decodeDomainName buf pos len = (some name.dotted, pos + name.wire.length) := by
  rcases List.exists_cons_of_ne_nil hroot with ⟨l, ls, hlabels⟩
  rw [decodeDomainName_labels hlabels (ldh_of_letters h) hmem hlen]
  have hsized := name.sized
  have hldh := ldh_of_letters h
  unfold DomainName.Over at h hldh
  rw [hlabels] at hsized h hldh
  rw [(decode_inside_iff hsized hldh).mpr h, DomainName.dotted, hlabels]

/--
A name is decoded to its form with dots exactly when it is not the root and consists of letters.
-/
theorem decodeDomainName_iff (buf : Memory) (pos len : Nat) (name : DomainName) (hldh : name.Over isLdh)
    (hmem : buf.load pos name.wire.length = name.wire) (hlen : name.wire.length ≤ len)
    : decodeDomainName buf pos len = (some name.dotted, pos + name.wire.length)
        ↔ name.labels ≠ [] ∧ name.Over isLetter := by
  constructor
  . intro hname
    cases hlabels : name.labels with
    | nil =>
      have hwire : name.wire.length = 1 := by
        rw [DomainName.wire, hlabels]
        rfl
      have := pos_decodeDomainName hname
      omega
    | cons l ls =>
      rw [decodeDomainName_labels hlabels hldh hmem hlen, Prod.mk.injEq, Option.some_inj,
        DomainName.dotted, hlabels] at hname
      have hsized := name.sized
      unfold DomainName.Over at hldh ⊢
      rw [hlabels] at hsized hldh ⊢
      exact ⟨List.cons_ne_nil l ls, (decode_inside_iff hsized hldh).mp hname.1⟩
  . rintro ⟨hroot, hletters⟩
    exact decodeDomainName_letters hroot hletters hmem hlen

/--
`foo.bar.com`
-/
def fooBarComName : DomainName where
  labels := [[102, 111, 111], [98, 97, 114], [99, 111, 109]]
  sized := by decide
  fits := by decide

/-- The name in the comment of `decode_domain_name`. -/
theorem decodeDomainName_iff_fooBarCom
    : fooBarComName.Over isLdh
        ∧ decodeDomainName (Memory.store (fun _ => 0) 12 fooBarComName.wire) 12 29 = (some fooBarCom, 25) := by
  have hldh : fooBarComName.Over isLdh := by
    unfold DomainName.Over
    decide +kernel
  have hletters : fooBarComName.Over isLetter := by
    unfold DomainName.Over
    decide +kernel
  exact ⟨hldh, (decodeDomainName_iff _ 12 29 fooBarComName hldh (Memory.load_store rfl) (by decide)).mpr
    ⟨by decide, hletters⟩⟩

/--
`ns1`
-/
def ns1Name : DomainName where
  labels := [[110, 115, 49]]
  sized := by decide
  fits := by decide

/-- A digit is decoded as a dot. -/
theorem not_decodeDomainName
    : ∃ buf pos len, ∃ name : DomainName, name.Over isLdh ∧ buf.load pos name.wire.length = name.wire
        ∧ name.wire.length ≤ len
        ∧ decodeDomainName buf pos len ≠ (some name.dotted, pos + name.wire.length) := by
  have hldh : ns1Name.Over isLdh := by
    unfold DomainName.Over
    decide +kernel
  refine ⟨Memory.store (fun _ => 0) 0 ns1Name.wire, 0, 5, ns1Name, hldh, Memory.load_store rfl, ?_, ?_⟩
  . decide
  . decide

end Dns
