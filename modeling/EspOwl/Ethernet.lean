import EspOwl.ByteCodec

namespace EspOwl
open ByteCodec

-- struct ether_addr: the six octets in transmission order.
structure EtherAddr where
  octet0 : UInt8
  octet1 : UInt8
  octet2 : UInt8
  octet3 : UInt8
  octet4 : UInt8
  octet5 : UInt8
deriving DecidableEq, Repr, Inhabited

namespace EtherAddr

def bytes (a : EtherAddr) : List UInt8 := [a.octet0,a.octet1,a.octet2,a.octet3,a.octet4,a.octet5]

def ofBytes (bytes : List UInt8) : EtherAddr :=
  ⟨bytes.getD 0 0,bytes.getD 1 0,bytes.getD 2 0,bytes.getD 3 0,bytes.getD 4 0,bytes.getD 5 0⟩

@[simp] theorem bytes_length (a : EtherAddr) : a.bytes.length = 6 := rfl

@[simp] theorem ofBytes_bytes (a : EtherAddr) : ofBytes a.bytes = a := rfl

theorem bytes_injective {a b : EtherAddr} (same : a.bytes = b.bytes) : a = b := by
  rw [← ofBytes_bytes a,← ofBytes_bytes b,same]

-- The order of compare_ether_addr, as the big-endian value of the octets.
def value (a : EtherAddr) : Nat := beValue a.bytes

theorem value_injective : Function.Injective value := by
  intro a b same
  exact bytes_injective (beValue_injective (by simp) same)

instance : LinearOrder EtherAddr := LinearOrder.lift' value value_injective

-- The group bit of an address (multicast and broadcast).
def isGroup (a : EtherAddr) : Bool := a.octet0 &&& 0x01 ≠ 0

end EtherAddr

def etherAddrLen : Nat := 6
def etherMaxLen : Nat := 1518
def ethPIpv6 : UInt16 := 0x86DD

-- memcmp over two objects of one size: the sign of the first difference.
def memcmp : List UInt8 → List UInt8 → Int
  | a :: left,b :: right => if a = b then memcmp left right else if a < b then -1 else 1
  | _,_ => 0

-- The first byte that differs decides, whatever stands behind it.
theorem beValue_first {a b : UInt8} {left right : List UInt8} (less : a < b) (width : left.length = right.length) :
    beValue (a :: left) < beValue (b :: right) := by
  have small := beValue_lt left
  have step : (a.toNat + 1) * 256 ^ right.length ≤ b.toNat * 256 ^ right.length :=
    Nat.mul_le_mul_right _ (UInt8.lt_iff_toNat_lt.mp less)
  rw [width] at small
  rw [beValue_cons,beValue_cons,width]
  rw [Nat.succ_mul] at step
  omega

theorem memcmp_value {left right : List UInt8} (same : left.length = right.length) :
    (memcmp left right < 0 ↔ beValue left < beValue right) ∧
      (0 < memcmp left right ↔ beValue right < beValue left) := by
  induction left generalizing right with
  | nil => cases right <;> simp_all [memcmp]
  | cons a left ih =>
    cases right with
    | nil => simp at same
    | cons b right =>
      have width : left.length = right.length := by simpa using same
      by_cases equal : a = b
      · subst equal
        rw [memcmp,if_pos rfl,beValue_cons,beValue_cons,width]
        simpa using ih width
      · rw [memcmp,if_neg equal]
        by_cases less : a < b
        · have first := beValue_first less width
          rw [if_pos less]
          exact ⟨iff_of_true (by decide) first,iff_of_false (by decide) first.not_gt⟩
        · have more : b < a := UInt8.lt_of_le_of_ne (UInt8.not_lt.mp less) (Ne.symm equal)
          have first := beValue_first more width.symm
          rw [if_neg less]
          exact ⟨iff_of_false (by decide) first.not_gt,iff_of_true (by decide) first⟩

def compareEtherAddr (a b : EtherAddr) : Int := memcmp a.bytes b.bytes

theorem compareEtherAddr_pos (a b : EtherAddr) : 0 < compareEtherAddr a b ↔ b < a :=
  (memcmp_value (by simp)).2

theorem compareEtherAddr_zero (a b : EtherAddr) : compareEtherAddr a b = 0 ↔ a = b := by
  have width : a.bytes.length = b.bytes.length := rfl
  have sign := memcmp_value width
  constructor
  · intro zero
    unfold compareEtherAddr at zero
    apply EtherAddr.value_injective
    unfold EtherAddr.value
    omega
  · rintro rfl
    unfold compareEtherAddr
    omega

end EspOwl
