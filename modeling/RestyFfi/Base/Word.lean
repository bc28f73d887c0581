import Mathlib.Data.UInt

/-!
# Words in memory

A 32-bit word as four bytes, in either byte order, and a size rounded up to a multiple of a power
of two.
-/

/-- A byte order: how a word is laid out, and how it is read from where it starts. -/
structure ByteOrder where
  encode : UInt32 → List UInt8
  decode : List UInt8 → UInt32
  length_encode : ∀ w, (encode w).length = 4
  decode_encode_append : ∀ w rest, decode (encode w ++ rest) = w

namespace ByteOrder

/-- The value of the bytes of a word, the least significant first. -/
def ofBytes (a b c d : UInt8) : UInt32 :=
  .ofNat (a.toNat + 2 ^ 8 * b.toNat + 2 ^ 16 * c.toNat + 2 ^ 24 * d.toNat)

def byte (w : UInt32) (i : Nat) : UInt8 := .ofNat (w.toNat / 2 ^ (8 * i))

theorem ofBytes_byte (w : UInt32) : ofBytes (byte w 0) (byte w 1) (byte w 2) (byte w 3) = w := by
  have hw : w.toNat < 2 ^ 32 := w.toNat_lt
  apply UInt32.toNat_inj.mp
  simp only [ofBytes, byte, UInt32.toNat_ofNat', UInt8.toNat_ofNat']
  omega

def little : ByteOrder where
  encode w := [byte w 0, byte w 1, byte w 2, byte w 3]
  decode
    | a :: b :: c :: d :: _ => ofBytes a b c d
    | _ => 0
  length_encode _ := rfl
  decode_encode_append w _ := ofBytes_byte w

def big : ByteOrder where
  encode w := [byte w 3, byte w 2, byte w 1, byte w 0]
  decode
    | d :: c :: b :: a :: _ => ofBytes a b c d
    | _ => 0
  length_encode _ := rfl
  decode_encode_append w _ := ofBytes_byte w

theorem big_encode_decode {bs : List UInt8} (h : bs.length = 4) :
    big.encode (big.decode bs) = bs := by
  match bs, h with
  | [d, c, b, a], _ =>
    have ha := a.toNat_lt
    have hb := b.toNat_lt
    have hc := c.toNat_lt
    have hd := d.toNat_lt
    simp only [big, ofBytes, byte, List.cons.injEq, and_true, ← UInt8.toNat_inj,
      UInt8.toNat_ofNat', UInt32.toNat_ofNat']
    omega

/-- The lowest byte. -/
theorem toUInt8_and_255 (w : UInt32) : (w &&& 255).toUInt8 = byte w 0 := by
  apply UInt8.toNat_inj.mp
  have h255 : (255 : UInt32).toNat = 2 ^ 8 - 1 := rfl
  simp only [byte, UInt8.toNat_ofNat', UInt32.toNat_toUInt8, UInt32.toNat_and, h255,
    Nat.and_two_pow_sub_one_eq_mod]
  omega

theorem byte_shiftRight (w : UInt32) (i : Nat) : byte (w >>> 8) i = byte w (i + 1) := by
  have h8 : (8 : UInt32).toNat % 32 = 8 := rfl
  have hexp : 8 + 8 * i = 8 * (i + 1) := by omega
  simp only [byte, UInt32.toNat_shiftRight, h8, Nat.shiftRight_eq_div_pow,
    Nat.div_div_eq_div_mul, ← Nat.pow_add, hexp]

variable (o : ByteOrder) (w : UInt32) (rest : List UInt8)

theorem drop_encode_append : (o.encode w ++ rest).drop 4 = rest := by
  rw [← o.length_encode w, List.drop_left]

variable {o w rest} {w' : UInt32} {rest' : List UInt8}

theorem encode_append_inj (h : o.encode w ++ rest = o.encode w' ++ rest') :
    w = w' ∧ rest = rest' := by
  refine ⟨?_, ?_⟩
  · rw [← o.decode_encode_append w rest, h, o.decode_encode_append]
  · rw [← o.drop_encode_append w rest, h, o.drop_encode_append]

theorem encode_append_ne_nil : o.encode w ++ rest ≠ [] := by
  intro h
  have hlen := congrArg List.length h
  simp [o.length_encode] at hlen

end ByteOrder

/-- `ALIGN(val, 4)` of a 32-bit value. -/
def align4 (val : UInt32) : UInt32 := (val + 4 - 1) &&& ~~~((4 : UInt32) - 1)

theorem align4_eq (val : UInt32) : align4 val = (val + 3) >>> 2 <<< 2 := by
  have hval : val + 4 - 1 = val + 3 := by
    rw [add_sub_assoc]
    rfl
  rw [align4, hval]
  apply UInt32.toBitVec_inj.mp
  simp only [UInt32.toBitVec_and, UInt32.toBitVec_shiftLeft, UInt32.toBitVec_shiftRight]
  have htwo : (UInt32.toBitVec 2 % 32).toNat = 2 := rfl
  rw [BitVec.ushiftRight_eq', BitVec.shiftLeft_eq', htwo, BitVec.shiftLeft_ushiftRight]
  rfl

theorem toNat_align4 {val : UInt32} (h : val.toNat + 3 < 2 ^ 32) :
    (align4 val).toNat = (val.toNat + 3) / 4 * 4 := by
  rw [align4_eq, UInt32.toNat_shiftLeft, UInt32.toNat_shiftRight, UInt32.toNat_add]
  simp only [Nat.shiftLeft_eq, Nat.shiftRight_eq_div_pow]
  have h3 : (3 : UInt32).toNat = 3 := rfl
  have h2 : (2 : UInt32).toNat % 32 = 2 := rfl
  rw [h2, h3]
  omega
