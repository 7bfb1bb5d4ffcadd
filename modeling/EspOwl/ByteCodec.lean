import Mathlib

namespace EspOwl.ByteCodec

-- Fixed-width words as digit strings in base 256. The two byte orders share one
-- digit function; nothing below fixes a width or a message layout.
def leBytes : Nat → Nat → List UInt8
  | 0,_ => []
  | n+1,x => UInt8.ofNat x :: leBytes n (x / 256)

def leValue : List UInt8 → Nat
  | [] => 0
  | b :: rest => b.toNat + 256 * leValue rest

def beBytes (n x : Nat) : List UInt8 := (leBytes n x).reverse

def beValue (bytes : List UInt8) : Nat := leValue bytes.reverse

@[simp] theorem leBytes_length (n x : Nat) : (leBytes n x).length = n := by
  induction n generalizing x with
  | zero => rfl
  | succ n ih => simp [leBytes,ih]

@[simp] theorem beBytes_length (n x : Nat) : (beBytes n x).length = n := by simp [beBytes]

theorem leValue_leBytes (n x : Nat) : leValue (leBytes n x) = x % 256 ^ n := by
  induction n generalizing x with
  | zero => simp [leBytes,leValue,Nat.mod_one]
  | succ n ih =>
    have split : x % (256 * 256 ^ n) = x % 256 + 256 * (x / 256 % 256 ^ n) := Nat.mod_mul
    rw [leBytes,leValue,ih,Nat.pow_succ,Nat.mul_comm (256 ^ n) 256,split]
    simp

theorem leValue_lt (bytes : List UInt8) : leValue bytes < 256 ^ bytes.length := by
  induction bytes with
  | nil => simp [leValue]
  | cons b rest ih =>
    have small := b.toNat_lt
    rw [leValue,List.length_cons,Nat.pow_succ]
    omega

theorem leBytes_leValue (bytes : List UInt8) : leBytes bytes.length (leValue bytes) = bytes := by
  induction bytes with
  | nil => rfl
  | cons b rest ih =>
    have small := b.toNat_lt
    have quotient : (b.toNat + 256 * leValue rest) / 256 = leValue rest := by omega
    have digit : UInt8.ofNat (b.toNat + 256 * leValue rest) = b := by
      apply UInt8.toNat.inj
      rw [UInt8.toNat_ofNat']
      omega
    simp only [List.length_cons,leValue,leBytes,quotient,ih,digit]

theorem leValue_injective {left right : List UInt8} (width : left.length = right.length)
    (same : leValue left = leValue right) : left = right := by
  rw [← leBytes_leValue left,← leBytes_leValue right,width,same]

theorem beValue_beBytes (n x : Nat) : beValue (beBytes n x) = x % 256 ^ n := by
  simp [beValue,beBytes,leValue_leBytes]

theorem beValue_injective {left right : List UInt8} (width : left.length = right.length)
    (same : beValue left = beValue right) : left = right :=
  List.reverse_injective (leValue_injective (by simpa using width) same)

theorem beValue_cons (b : UInt8) (rest : List UInt8) :
    beValue (b :: rest) = b.toNat * 256 ^ rest.length + beValue rest := by
  have append : ∀ left right : List UInt8,
      leValue (left ++ right) = leValue left + 256 ^ left.length * leValue right := by
    intro left right
    induction left with
    | nil => simp [leValue]
    | cons a left ih => simp only [List.cons_append,leValue,ih,List.length_cons,Nat.pow_succ]; ring
  rw [beValue,List.reverse_cons,append,leValue,leValue,List.length_reverse,beValue]
  ring

theorem beValue_lt (bytes : List UInt8) : beValue bytes < 256 ^ bytes.length := by
  simpa [beValue] using leValue_lt bytes.reverse

-- A window into a byte string.
def slice (offset length : Nat) (bytes : List α) : List α := (bytes.drop offset).take length

theorem slice_length {bytes : List α} (fits : offset + length ≤ bytes.length) :
    (slice offset length bytes).length = length := by
  simp only [slice,List.length_take,List.length_drop]
  omega

theorem slice_skip (left right : List α) (offset length : Nat) :
    slice (left.length + offset) length (left ++ right) = slice offset length right := by
  simp [slice,← List.drop_drop]

theorem slice_zero_append {left right : List α} (exact : left.length = length) :
    slice 0 length (left ++ right) = left := by
  subst exact; simp [slice]

-- Equal-width pieces laid end to end are found again by position.
theorem slice_flatMap (piece : α → List β) (width : Nat) (same : ∀ a, (piece a).length = width)
    (items : List α) (tail : List β) (i : Nat) (inside : i < items.length) :
    slice (i * width) width (items.flatMap piece ++ tail) = piece items[i] := by
  induction items generalizing i with
  | nil => simp at inside
  | cons a rest ih =>
    cases i with
    | zero => simpa using slice_zero_append (same a)
    | succ i =>
      have offset : (i + 1) * width = (piece a).length + i * width := by rw [same]; ring
      rw [List.flatMap_cons,List.append_assoc,offset,slice_skip]
      simpa using ih i (by simpa using inside)

theorem flatMap_length (piece : α → List β) (width : Nat) (same : ∀ a, (piece a).length = width)
    (items : List α) : (items.flatMap piece).length = items.length * width := by
  simp [List.length_flatMap,same]

end EspOwl.ByteCodec
