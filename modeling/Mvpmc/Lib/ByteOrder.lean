import Mathlib.Tactic

/-! Words of 32 bits in memory, in either byte order. -/
namespace Mvpmc.Lib

inductive ByteOrder where
  | big | little

/-- The value of bytes in network order. -/
def ofNetwork (bytes : List UInt8) : UInt32 := bytes.foldl (fun x b => x * 256 + b.toUInt32) 0

/-- The bytes of a word in network order. -/
def toNetwork (x : UInt32) : List UInt8 :=
  [UInt8.ofNat (x.toNat / 2 ^ 24), UInt8.ofNat (x.toNat / 2 ^ 16), UInt8.ofNat (x.toNat / 2 ^ 8), UInt8.ofNat x.toNat]

namespace ByteOrder

/-- The value of a word read from memory. -/
def load (order : ByteOrder) (bytes : List UInt8) : UInt32 :=
  match order with
  | .big => ofNetwork bytes
  | .little => ofNetwork bytes.reverse

/-- The bytes of a word written to memory. -/
def store (order : ByteOrder) (x : UInt32) : List UInt8 :=
  match order with
  | .big => toNetwork x
  | .little => (toNetwork x).reverse

/-- `ntohl` and `htonl`. -/
def ntohl (order : ByteOrder) (x : UInt32) : UInt32 :=
  match order with
  | .big => x
  | .little => ofNetwork (toNetwork x).reverse

end ByteOrder

theorem ofNetwork_toNetwork (x : UInt32) : ofNetwork (toNetwork x) = x := by
  apply UInt32.toNat_inj.mp
  have hx := x.toNat_lt
  unfold ofNetwork toNetwork
  simp only [List.foldl_cons, List.foldl_nil, UInt32.toNat_add, UInt32.toNat_mul, UInt8.toNat_toUInt32,
    UInt8.toNat_ofNat', UInt32.reduceToNat]
  omega

theorem toNetwork_ofNetwork (a b c d : UInt8) : toNetwork (ofNetwork [a, b, c, d]) = [a, b, c, d] := by
  have ha := a.toNat_lt
  have hb := b.toNat_lt
  have hc := c.toNat_lt
  have hd := d.toNat_lt
  have hvalue : (ofNetwork [a, b, c, d]).toNat = ((a.toNat * 256 + b.toNat) * 256 + c.toNat) * 256 + d.toNat := by
    unfold ofNetwork
    simp only [List.foldl_cons, List.foldl_nil, UInt32.toNat_add, UInt32.toNat_mul, UInt8.toNat_toUInt32,
      UInt32.reduceToNat]
    omega
  have hbyte (x : UInt8) (n : Nat) (h : n % 256 = x.toNat) : UInt8.ofNat n = x :=
    UInt8.toNat_inj.mp (by rw [UInt8.toNat_ofNat']; exact h)
  unfold toNetwork
  rw [hvalue, hbyte a _ (by omega), hbyte b _ (by omega), hbyte c _ (by omega), hbyte d _ (by omega)]

namespace ByteOrder
variable (order : ByteOrder)

/-- A word converted before it is written is written in network order. -/
theorem store_ntohl (x : UInt32) : order.store (order.ntohl x) = toNetwork x := by
  cases order with
  | big => rfl
  | little =>
    unfold store ntohl
    dsimp only
    have hbytes : (toNetwork x).reverse = [UInt8.ofNat x.toNat, UInt8.ofNat (x.toNat / 2 ^ 8),
        UInt8.ofNat (x.toNat / 2 ^ 16), UInt8.ofNat (x.toNat / 2 ^ 24)] := rfl
    rw [hbytes, toNetwork_ofNetwork]
    rfl

/-- A word converted after it is read is read in network order. -/
theorem ntohl_load {bytes : List UInt8} (h : bytes.length = 4) : order.ntohl (order.load bytes) = ofNetwork bytes := by
  cases order with
  | big => rfl
  | little =>
    obtain ⟨a, b, c, d, rfl⟩ : ∃ a b c d, bytes = [a, b, c, d] := by
      match bytes, h with
      | [a, b, c, d], _ => exact ⟨a, b, c, d, rfl⟩
    have hreverse : [a, b, c, d].reverse = [d, c, b, a] := rfl
    unfold load ntohl
    dsimp only
    rw [hreverse, toNetwork_ofNetwork]
    rfl

end ByteOrder
end Mvpmc.Lib
