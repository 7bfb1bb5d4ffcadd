import Mathlib.Data.Nat.Digits.Defs
import Mathlib.Data.List.Basic

-- SipHash with c compression and d finalisation rounds, over lanes of 64 bits.
namespace EspOwl.SipSpec

structure Lanes where
  a : BitVec 64
  b : BitVec 64
  c : BitVec 64
  d : BitVec 64
deriving DecidableEq, Repr

def arx (r : Nat) (x y : BitVec 64) : BitVec 64 × BitVec 64 := (x + y,y.rotateLeft r ^^^ (x + y))

def round (v : Lanes) : Lanes :=
  let (a,b) := arx 13 v.a v.b
  let (c,d) := arx 16 v.c v.d
  let (e,f) := arx 17 c b
  let (g,h) := arx 21 (a.rotateLeft 32) d
  ⟨g,f,e.rotateLeft 32,h⟩

def compress (c : Nat) (v : Lanes) (m : BitVec 64) : Lanes :=
  let v := round^[c] {v with d := v.d ^^^ m}
  {v with a := v.a ^^^ m}

def finish (d : Nat) (v : Lanes) : BitVec 64 :=
  let v := round^[d] {v with c := v.c ^^^ 0xff}
  v.a ^^^ v.b ^^^ v.c ^^^ v.d

-- The words of a number, the lowest first.
def word (n i : Nat) : BitVec 64 := BitVec.ofNat 64 (n / 2 ^ (64 * i))

def number (bytes : List Nat) : Nat := Nat.ofDigits 256 bytes

def ascii (text : String) : BitVec 64 := BitVec.ofNat 64 (Nat.ofDigits 256 (text.toList.reverse.map Char.toNat))

def start (key : Nat) : Lanes :=
  ⟨ascii "somepseu" ^^^ word key 0,ascii "dorandom" ^^^ word key 1,ascii "lygenera" ^^^ word key 0,
    ascii "tedbytes" ^^^ word key 1⟩

-- The message fills whole words, and its length mod 256 is the highest byte of the last one.
def padded (message : List Nat) : Nat :=
  number message + message.length % 256 * 2 ^ (64 * (message.length / 8) + 56)

def sipHash (c d : Nat) (key message : List Nat) : BitVec 64 :=
  let words := (List.range (message.length / 8 + 1)).map (word (padded message))
  finish d (words.foldl (compress c) (start (number key)))

-- The published test vector for fifteen bytes.
example : sipHash 2 4 (List.range 16) (List.range 15) = 0xa129ca6149be45e5 := by decide +kernel

end EspOwl.SipSpec
