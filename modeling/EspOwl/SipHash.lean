import EspOwl.ByteCodec
import EspOwl.Peers
import EspOwl.SipSpec

namespace EspOwl.SipHash
open ByteCodec SipSpec
open Hashmap (hashmapHashInt)

def load64Le (src : List UInt8) : UInt64 := UInt64.ofNat (leValue (src.take 8))

def rotl64 (x : UInt64) (b : UInt64) : UInt64 := (x <<< b) ||| (x >>> (64 - b))

structure SipState where
  v0 : UInt64
  v1 : UInt64
  v2 : UInt64
  v3 : UInt64
deriving DecidableEq, Repr

def sipround (s : SipState) : SipState :=
  let s := {s with v0 := s.v0 + s.v1}
  let s := {s with v1 := rotl64 s.v1 13}
  let s := {s with v1 := s.v1 ^^^ s.v0}
  let s := {s with v0 := rotl64 s.v0 32}
  let s := {s with v2 := s.v2 + s.v3}
  let s := {s with v3 := rotl64 s.v3 16}
  let s := {s with v3 := s.v3 ^^^ s.v2}
  let s := {s with v0 := s.v0 + s.v3}
  let s := {s with v3 := rotl64 s.v3 21}
  let s := {s with v3 := s.v3 ^^^ s.v0}
  let s := {s with v2 := s.v2 + s.v1}
  let s := {s with v1 := rotl64 s.v1 17}
  let s := {s with v1 := s.v1 ^^^ s.v2}
  {s with v2 := rotl64 s.v2 32}

-- "somepseudorandomlygeneratedbytes"
def sipInit (k : List UInt8) : SipState :=
  let k0 := load64Le k
  let k1 := load64Le (k.drop 8)
  ⟨0x736f6d6570736575 ^^^ k0,0x646f72616e646f6d ^^^ k1,0x6c7967656e657261 ^^^ k0,0x7465646279746573 ^^^ k1⟩

def sipBlock (s : SipState) (m : UInt64) : SipState :=
  let s := sipround (sipround {s with v3 := s.v3 ^^^ m})
  {s with v0 := s.v0 ^^^ m}

-- The loop, from `in` to `end`.
def sipBlocks : Nat → List UInt8 → SipState → List UInt8 × SipState
  | 0,bytes,s => (bytes,s)
  | n + 1,bytes,s => sipBlocks n (bytes.drop 8) (sipBlock s (load64Le bytes))

-- The switch: case `left` sets byte left - 1 and falls through to the next.
def sipTail : Nat → List UInt8 → UInt64 → UInt64
  | 0,_,b => b
  | left + 1,bytes,b => sipTail left bytes (b ||| (bytes.getD left 0).toUInt64 <<< UInt64.ofNat (8 * left))

def sipFinish (s : SipState) : UInt64 :=
  let s := sipround (sipround (sipround (sipround {s with v2 := s.v2 ^^^ 0xff})))
  s.v0 ^^^ s.v1 ^^^ s.v2 ^^^ s.v3

def siphash24 (bytes k : List UInt8) : UInt64 :=
  let b := UInt64.ofNat bytes.length <<< 56
  let (rest,s) := sipBlocks (bytes.length / 8) bytes (sipInit k)
  sipFinish (sipBlock s (sipTail (bytes.length % 8) rest b))

section Padding

-- The message is padded to whole words, the last byte being its length.
def sipPad (bytes : List UInt8) : List UInt8 :=
  bytes ++ List.replicate (7 - bytes.length % 8) 0 ++ [UInt8.ofNat bytes.length]

def sipWords (bytes : List UInt8) : List UInt64 :=
  (List.range (bytes.length / 8)).map fun i => load64Le (bytes.drop (8 * i))

theorem leValue_append (before after : List UInt8) :
    leValue (before ++ after) = leValue before + 256 ^ before.length * leValue after := by
  induction before with
  | nil => simp [leValue]
  | cons b rest ih =>
    rw [List.cons_append,leValue,leValue,ih,List.length_cons,pow_succ]
    ring

theorem leValue_zeros (n : Nat) : leValue (List.replicate n 0) = 0 := by
  induction n with
  | zero => rfl
  | succ n ih => simp [List.replicate_succ,leValue,ih]

-- What the cases of the switch put below the length.
theorem tail_value (n : Nat) (bytes : List UInt8) (c : Nat) (b : UInt64) (free : b.toNat = c * 2 ^ (8 * n))
    (seven : n ≤ 7) (long : n ≤ bytes.length) :
    (sipTail n bytes b).toNat = c * 2 ^ (8 * n) + leValue (bytes.take n) := by
  induction n generalizing b c with
  | zero =>
    rw [sipTail,free]
    rfl
  | succ n ih =>
    have small := (bytes.getD n 0).toNat_lt
    have room : 2 ^ (8 * n) * 2 ^ 8 ≤ 2 ^ 64 := by
      rw [← pow_add]
      exact Nat.pow_le_pow_right (by decide) (by omega)
    have below : (bytes.getD n 0).toNat * 2 ^ (8 * n) < 2 ^ (8 * (n + 1)) := by
      rw [show 8 * (n + 1) = 8 + 8 * n by omega,pow_add]
      exact Nat.mul_lt_mul_of_pos_right small (Nat.two_pow_pos _)
    have set : (b ||| (bytes.getD n 0).toUInt64 <<< UInt64.ofNat (8 * n)).toNat =
        (c * 256 + (bytes.getD n 0).toNat) * 2 ^ (8 * n) := by
      have count : (UInt64.ofNat (8 * n)).toNat % 64 = 8 * n := by
        rw [UInt64.toNat_ofNat']
        omega
      have whole : (bytes.getD n 0).toNat * 2 ^ (8 * n) < 2 ^ 64 := by
        rw [show 8 * (n + 1) = 8 * n + 8 by omega,pow_add] at below
        omega
      rw [UInt64.toNat_or,UInt64.toNat_shiftLeft,count,UInt8.toNat_toUInt64,Nat.shiftLeft_eq,Nat.mod_eq_of_lt whole,free,
        ← Nat.shiftLeft_eq c,← Nat.shiftLeft_add_eq_or_of_lt below,Nat.shiftLeft_eq,
        show 8 * (n + 1) = 8 + 8 * n by omega,pow_add]
      ring
    have last : bytes.take (n + 1) = bytes.take n ++ [bytes.getD n 0] := by
      rw [List.take_add_one,List.getElem?_eq_getElem long,List.getD_eq_getElem _ _ long]
      rfl
    rw [sipTail,ih _ _ set (by omega) (by omega),last,leValue_append,List.length_take,Nat.min_eq_left (by omega)]
    have power : 256 ^ n = 2 ^ (8 * n) := by
      rw [pow_mul]
      norm_num
    rw [power,show 8 * (n + 1) = 8 + 8 * n by omega,pow_add]
    simp only [leValue]
    ring

theorem blocks_fold (n : Nat) (bytes : List UInt8) (s : SipState) : sipBlocks n bytes s =
    (bytes.drop (8 * n),((List.range n).map fun i => load64Le (bytes.drop (8 * i))).foldl sipBlock s) := by
  induction n generalizing bytes s with
  | zero => rfl
  | succ n ih =>
    rw [sipBlocks,ih,List.range_succ_eq_map,List.map_cons,List.foldl_cons,List.map_map,List.drop_drop]
    refine congrArg₂ Prod.mk (congrArg (bytes.drop ·) (by omega)) ?_
    congr 1
    refine List.map_congr_left fun i _ => ?_
    rw [List.drop_drop,Function.comp_apply]
    congr 2
    omega

-- The last word, with the length in its highest byte.
theorem tail_padded (bytes : List UInt8) :
    sipTail (bytes.length % 8) (bytes.drop (8 * (bytes.length / 8))) (UInt64.ofNat bytes.length <<< 56) =
      load64Le ((sipPad bytes).drop (8 * (bytes.length / 8))) := by
  have left : (bytes.drop (8 * (bytes.length / 8))).length = bytes.length % 8 := by
    rw [List.length_drop]
    omega
  rw [sipPad,List.append_assoc,List.drop_append_of_le_length (by omega)]
  generalize bytes.drop (8 * (bytes.length / 8)) = rest at left
  have seven : rest.length ≤ 7 := by omega
  have top : (UInt64.ofNat bytes.length <<< 56).toNat = bytes.length % 256 * 2 ^ 56 := by
    have count : (56 : UInt64).toNat % 64 = 56 := rfl
    rw [UInt64.toNat_shiftLeft,UInt64.toNat_ofNat',count,Nat.shiftLeft_eq]
    omega
  have above : 2 ^ (56 - 8 * rest.length) * 2 ^ (8 * rest.length) = 2 ^ 56 := by
    rw [← pow_add,show 56 - 8 * rest.length + 8 * rest.length = 56 by omega]
  have value := tail_value rest.length rest (bytes.length % 256 * 2 ^ (56 - 8 * rest.length))
    (UInt64.ofNat bytes.length <<< 56) (by rw [top,Nat.mul_assoc,above]) seven le_rfl
  have word : leValue (rest ++ (List.replicate (7 - rest.length) 0 ++ [UInt8.ofNat bytes.length])) =
      bytes.length % 256 * 2 ^ 56 + leValue rest := by
    rw [leValue_append,leValue_append,leValue_zeros,List.length_replicate,Nat.zero_add,← Nat.mul_assoc,← pow_add,
      Nat.add_sub_cancel' seven]
    simp only [leValue,UInt8.toNat_ofNat']
    omega
  have fits := leValue_lt (rest ++ (List.replicate (7 - rest.length) 0 ++ [UInt8.ofNat bytes.length]))
  have eight : (rest ++ (List.replicate (7 - rest.length) 0 ++ [UInt8.ofNat bytes.length])).length = 8 := by
    simp only [List.length_append,List.length_replicate,List.length_singleton]
    omega
  rw [eight,show 256 ^ 8 = 2 ^ 64 by norm_num] at fits
  rw [← left]
  refine UInt64.toNat.inj ?_
  rw [value,List.take_of_length_le le_rfl,Nat.mul_assoc,above,load64Le,List.take_of_length_le eight.le,UInt64.toNat_ofNat',
    Nat.mod_eq_of_lt fits,word]

-- The loop and the switch hash the words of the padded message.
theorem siphash24_padded (bytes k : List UInt8) :
    siphash24 bytes k = sipFinish ((sipWords (sipPad bytes)).foldl sipBlock (sipInit k)) := by
  have total : (sipPad bytes).length / 8 = bytes.length / 8 + 1 := by
    simp only [sipPad,List.length_append,List.length_replicate,List.length_singleton]
    omega
  have whole : ∀ i ∈ List.range (bytes.length / 8), load64Le ((sipPad bytes).drop (8 * i)) = load64Le (bytes.drop (8 * i)) := by
    intro i inside
    have low := List.mem_range.mp inside
    rw [load64Le,load64Le,sipPad,List.append_assoc,List.drop_append_of_le_length (by omega),
      List.take_append_of_le_length (by rw [List.length_drop]; omega)]
  rw [sipWords,total,List.range_succ,List.map_append,List.foldl_append,List.map_congr_left whole,siphash24,blocks_fold]
  dsimp only
  rw [tail_padded]
  rfl

end Padding

section Lanes

def SipState.lanes (s : SipState) : Lanes := ⟨s.v0.toBitVec,s.v1.toBitVec,s.v2.toBitVec,s.v3.toBitVec⟩

theorem rotl64_rotates (x : UInt64) (n : Nat) (positive : 0 < n) (small : n < 64) :
    (rotl64 x (UInt64.ofNat n)).toBitVec = x.toBitVec.rotateLeft n := by
  have up : (UInt64.ofNat n).toBitVec % 64 = BitVec.ofNat 64 n := by
    apply BitVec.eq_of_toNat_eq
    simp
    omega
  have down : (64 - UInt64.ofNat n).toBitVec % 64 = BitVec.ofNat 64 (64 - n) := by
    apply BitVec.eq_of_toNat_eq
    simp
    omega
  rw [rotl64,UInt64.toBitVec_or,UInt64.toBitVec_shiftLeft,UInt64.toBitVec_shiftRight,up,down,BitVec.rotateLeft_def,
    BitVec.shiftLeft_eq',BitVec.ushiftRight_eq',BitVec.toNat_ofNat,BitVec.toNat_ofNat,Nat.mod_eq_of_lt small,
    Nat.mod_eq_of_lt (show n < 2 ^ 64 by omega),Nat.mod_eq_of_lt (show 64 - n < 2 ^ 64 by omega)]

theorem sipround_lanes (s : SipState) : (sipround s).lanes = SipSpec.round s.lanes := by
  have r13 := fun x => rotl64_rotates x 13 (by decide) (by decide)
  have r16 := fun x => rotl64_rotates x 16 (by decide) (by decide)
  have r17 := fun x => rotl64_rotates x 17 (by decide) (by decide)
  have r21 := fun x => rotl64_rotates x 21 (by decide) (by decide)
  have r32 := fun x => rotl64_rotates x 32 (by decide) (by decide)
  simp only [UInt64.reduceOfNat] at r13 r16 r17 r21 r32
  simp only [sipround,SipState.lanes,SipSpec.round,arx,UInt64.toBitVec_add,UInt64.toBitVec_xor,r13,r16,r17,r21,r32]

theorem sipBlock_lanes (s : SipState) (m : UInt64) : (sipBlock s m).lanes = compress 2 s.lanes m.toBitVec := by
  have twice : (sipround (sipround {s with v3 := s.v3 ^^^ m})).lanes =
      SipSpec.round^[2] {s.lanes with d := s.lanes.d ^^^ m.toBitVec} := by
    rw [sipround_lanes,sipround_lanes]
    rfl
  rw [compress,← twice]
  rfl

theorem sipFinish_lanes (s : SipState) : (sipFinish s).toBitVec = finish 4 s.lanes := by
  have rounds : (sipround (sipround (sipround (sipround {s with v2 := s.v2 ^^^ 0xff})))).lanes =
      SipSpec.round^[4] {s.lanes with c := s.lanes.c ^^^ 0xff} := by
    rw [sipround_lanes,sipround_lanes,sipround_lanes,sipround_lanes]
    rfl
  rw [finish,← rounds]
  rfl

theorem blocks_lanes (words : List UInt64) (s : SipState) :
    (words.foldl sipBlock s).lanes = (words.map UInt64.toBitVec).foldl (compress 2) s.lanes := by
  induction words generalizing s with
  | nil => rfl
  | cons m rest ih => rw [List.foldl_cons,ih,sipBlock_lanes,List.map_cons,List.foldl_cons]

end Lanes

section Words

theorem leValue_number (bytes : List UInt8) : leValue bytes = number (bytes.map UInt8.toNat) := by
  induction bytes with
  | nil => rfl
  | cons b rest ih =>
    rw [leValue,ih,number,number,List.map_cons,Nat.ofDigits_cons]

theorem leValue_split (n : Nat) (bytes : List UInt8) :
    leValue (bytes.take n) = leValue bytes % 256 ^ n ∧ leValue (bytes.drop n) = leValue bytes / 256 ^ n := by
  have low := leValue_lt (bytes.take n)
  by_cases inside : n ≤ bytes.length
  · have whole := leValue_append (bytes.take n) (bytes.drop n)
    rw [List.take_append_drop,List.length_take_of_le inside] at whole
    rw [List.length_take_of_le inside] at low
    rw [whole,Nat.add_mul_mod_self_left,Nat.mod_eq_of_lt low,Nat.add_mul_div_left _ _ (by positivity),
      Nat.div_eq_of_lt low,Nat.zero_add]
    exact ⟨rfl,rfl⟩
  · have small : leValue bytes < 256 ^ n :=
      (leValue_lt bytes).trans_le (Nat.pow_le_pow_right (by decide) (by omega))
    rw [List.take_of_length_le (by omega),List.drop_of_length_le (by omega),Nat.mod_eq_of_lt small,Nat.div_eq_of_lt small]
    exact ⟨rfl,rfl⟩

theorem load64Le_word (bytes : List UInt8) (i : Nat) :
    (load64Le (bytes.drop (8 * i))).toBitVec = word (leValue bytes) i := by
  apply BitVec.eq_of_toNat_eq
  have power : 256 ^ (8 * i) = 2 ^ (64 * i) := by
    rw [show 256 = 2 ^ 8 by norm_num,← pow_mul]
    congr 1
    omega
  rw [load64Le,(leValue_split 8 _).1,(leValue_split (8 * i) bytes).2,power,UInt64.toNat_toBitVec,UInt64.toNat_ofNat',word,
    BitVec.toNat_ofNat]
  norm_num

theorem sipPad_number (bytes : List UInt8) : leValue (sipPad bytes) = padded (bytes.map UInt8.toNat) := by
  have power : 256 ^ (bytes.length + (7 - bytes.length % 8)) = 2 ^ (64 * (bytes.length / 8) + 56) := by
    rw [show 256 = 2 ^ 8 by norm_num,← pow_mul]
    congr 1
    omega
  rw [sipPad,leValue_append,leValue_append,leValue_zeros,List.length_append,List.length_replicate,power,padded,
    ← leValue_number,List.length_map,Nat.mul_zero,Nat.add_zero]
  simp only [leValue,UInt8.toNat_ofNat']
  ring

theorem sipInit_lanes (k : List UInt8) : (sipInit k).lanes = start (number (k.map UInt8.toNat)) := by
  have low := load64Le_word k 0
  have high := load64Le_word k 1
  rw [leValue_number] at low high
  rw [start,← low,← high]
  rfl

end Words

theorem siphash24_published (bytes k : List UInt8) :
    (siphash24 bytes k).toBitVec = sipHash 2 4 (k.map UInt8.toNat) (bytes.map UInt8.toNat) := by
  have count : (sipPad bytes).length / 8 = (bytes.map UInt8.toNat).length / 8 + 1 := by
    simp only [sipPad,List.length_append,List.length_replicate,List.length_singleton,List.length_map]
    omega
  have words : (sipWords (sipPad bytes)).map UInt64.toBitVec =
      (List.range ((bytes.map UInt8.toNat).length / 8 + 1)).map (word (padded (bytes.map UInt8.toNat))) := by
    rw [sipWords,List.map_map,count,← sipPad_number]
    exact List.map_congr_left fun i _ => load64Le_word (sipPad bytes) i
  rw [siphash24_padded,sipFinish_lanes,blocks_lanes,words,sipInit_lanes]
  rfl

section Table

def siphash24Keybytes : Nat := 16

-- hashmap_new clears the seed, and nothing else writes it.
def seed : List UInt8 := List.replicate siphash24Keybytes 0

-- A table of peers has the six bytes of an address for its key_size.
def etherHash (addr : EtherAddr) : UInt64 := siphash24 addr.bytes seed

theorem peer_table_siphash :
    (∀ bytes k : List UInt8, (siphash24 bytes k).toBitVec = sipHash 2 4 (k.map UInt8.toNat) (bytes.map UInt8.toNat)) ∧
    ∀ (m : AwdlPeers) addr, hashmapHashInt etherHash m addr =
      (sipHash 2 4 (List.replicate 16 0) (addr.bytes.map UInt8.toNat)).toNat % m.tableSize := by
  refine ⟨siphash24_published,fun m addr => ?_⟩
  have published := congrArg BitVec.toNat (siphash24_published addr.bytes seed)
  rw [hashmapHashInt,etherHash,← UInt64.toNat_toBitVec,published]
  rfl

end Table


end EspOwl.SipHash
