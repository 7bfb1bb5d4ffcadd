import Mathlib

namespace EspOwl

-- char[n] with its contents, also those behind the terminator.
structure CharArray (n : Nat) where
  bytes : List UInt8
  size : bytes.length = n
deriving DecidableEq, Repr

namespace CharArray

def replicate (n : Nat) (b : UInt8) : CharArray n := ⟨List.replicate n b,List.length_replicate⟩

instance : Inhabited (CharArray n) := ⟨replicate n 0⟩

-- Bytes written from the start of the array. A write past its end would leave the
-- object; no call site below does that.
def overwrite (a : CharArray n) (written : List UInt8) : CharArray n :=
  ⟨(written ++ a.bytes.drop written.length).take n,by
    simp only [List.length_take,List.length_append,List.length_drop,a.size]; omega⟩

def overwriteAt (a : CharArray n) (offset : Nat) (written : List UInt8) : CharArray n :=
  ⟨(a.bytes.take offset ++ written ++ a.bytes.drop (offset + written.length)).take n,by
    simp only [List.length_take,List.length_append,List.length_drop,a.size]; omega⟩

-- The string that strlen and %s see.
def text (a : CharArray n) : List UInt8 := a.bytes.takeWhile (· ≠ 0)

def strlen (a : CharArray n) : Nat := a.text.length

theorem text_clean (a : CharArray n) : ∀ b ∈ a.text, b ≠ 0 := by
  intro b member
  simpa using List.mem_takeWhile_imp member

theorem overwrite_bytes (a : CharArray n) {written : List UInt8} (fits : written.length ≤ n) :
    (a.overwrite written).bytes = written ++ a.bytes.drop written.length := by
  apply List.take_of_length_le
  rw [List.length_append,List.length_drop,a.size]
  omega

theorem text_overwrite (a : CharArray n) {string : List UInt8} (fits : string.length < n)
    (clean : ∀ b ∈ string, b ≠ 0) : (a.overwrite (string ++ [0])).text = string := by
  have laid : (a.overwrite (string ++ [0])).bytes = string ++ 0 :: a.bytes.drop (string ++ [0]).length := by
    rw [a.overwrite_bytes (by simpa using fits),List.append_assoc]
    rfl
  rw [text,laid,List.takeWhile_append_of_pos (by simpa using clean)]
  simp

theorem strlen_le (a : CharArray n) : a.strlen ≤ n := by
  have prefixed : a.text <+: a.bytes := List.takeWhile_prefix _
  have short := prefixed.length_le
  rwa [a.size] at short

-- A terminator inside the array is what keeps the string shorter than the array.
theorem strlen_lt (a : CharArray n) (terminated : 0 ∈ a.bytes) : a.strlen < n := by
  have other : a.text ≠ a.bytes := by
    intro same
    have clean := List.mem_takeWhile_imp (same ▸ terminated : (0 : UInt8) ∈ a.text)
    simp at clean
  have prefixed : a.text <+: a.bytes := List.takeWhile_prefix _
  refine Nat.lt_of_le_of_ne a.strlen_le ?_
  intro equal
  exact other (prefixed.eq_of_length (equal.trans a.size.symm))

end CharArray
end EspOwl
