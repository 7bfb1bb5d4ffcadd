import EspOwl.CyclicCodes
import EspOwl.Tx

namespace EspOwl.FrameChecksums
open ByteCodec CyclicCodes Polynomial

-- The generator of IEEE 802.11 frame check sequences.
noncomputable def crc32Generator : (ZMod 2)[X] :=
  X ^ 32 + X ^ 26 + X ^ 23 + X ^ 22 + X ^ 16 + X ^ 12 + X ^ 11 + X ^ 10 + X ^ 8 + X ^ 7 + X ^ 5 + X ^ 4 + X ^ 2 + X + 1

def crc32Poly : BitVec 32 := 0xedb88320

def ones : BitVec 32 := BitVec.allOnes 32

-- The bits as they are sent, the lowest of each byte first.
def byteBits (byte : UInt8) : List Bool := registerBits byte.toBitVec

def bufBits (buf : Buf) : List Bool := buf.flatMap byteBits

section Register

theorem generator_crc32 : generator crc32Poly = crc32Generator := by
  have bits : registerBits crc32Poly = [false,false,false,false,false,true,false,false,true,true,false,false,false,false,
      false,true,false,false,false,true,true,true,false,true,true,false,true,true,false,true,true,true] := by
    decide
  rw [generator,← registerBits_poly,bits]
  simp only [bitsPoly,coefficient,List.length_cons,List.length_nil]
  simp only [Bool.false_eq_true,if_false,if_true,C_0,C_1,zero_mul,one_mul,zero_add,add_zero,Nat.reduceAdd,pow_zero,
    pow_one,crc32Generator]
  ring

-- Every entry of the table is its index after eight shifts.
theorem crc32Tab_entries : ∀ n < 256,
    (crc32Tab.getD n 0).toBitVec = feedBits crc32Poly (BitVec.ofNat 32 n) (List.replicate 8 false) := by
  decide +kernel

theorem split_low (r : BitVec 32) : (r &&& 0xff#32) ^^^ (r >>> 8) <<< 8 = r := by
  refine BitVec.eq_of_getLsbD_eq fun i inside => ?_
  have mask : (0xff#32).getLsbD i = decide (i < 8) := by
    revert i
    decide
  rw [BitVec.getLsbD_xor,BitVec.getLsbD_and,mask,BitVec.getLsbD_shiftLeft,BitVec.getLsbD_ushiftRight]
  by_cases low : i < 8
  · simp [low]
  · simp [low,inside,Nat.add_sub_cancel' (not_lt.mp low)]

-- The table does eight shifts at once: those of the low byte, and the others' way down.
theorem crc32Step_feeds (crc : UInt32) (p : UInt8) :
    (crc32Step crc p).toBitVec = feedBits crc32Poly crc.toBitVec (byteBits p) := by
  let mixed : BitVec 32 := crc.toBitVec ^^^ p.toBitVec.setWidth 32
  have index : ((crc ^^^ p.toUInt32) &&& 0xff).toNat = (mixed &&& 0xff#32).toNat := rfl
  have small : (mixed &&& 0xff#32).toNat < 256 := by
    rw [BitVec.toNat_and]
    exact Nat.lt_succ_of_le Nat.and_le_right
  have entry := crc32Tab_entries _ small
  rw [BitVec.ofNat_toNat,BitVec.setWidth_eq] at entry
  have falls : feedBits crc32Poly ((mixed >>> 8) <<< 8) (List.replicate 8 false) = crc.toBitVec >>> 8 := by
    rw [feedBits_low]
    · refine BitVec.eq_of_getLsbD_eq fun i inside => ?_
      simp only [mixed,BitVec.getLsbD_ushiftRight,BitVec.getLsbD_shiftLeft,BitVec.getLsbD_xor,BitVec.getLsbD_setWidth]
      by_cases within : 8 + i < 32
      · simp [within]
      · simp [within,BitVec.getLsbD_of_ge crc.toBitVec (8 + i) (by omega)]
    · intro i less
      simp [less]
  have shifted : (crc >>> 8).toBitVec = crc.toBitVec >>> 8 := rfl
  rw [crc32Step,index,UInt32.toBitVec_xor,entry,shifted,← falls]
  refine feedBits_xor crc32Poly _ _ _ _ _ _ ?_
  have byte : registerPoly (p.toBitVec.setWidth 32) = registerPoly p.toBitVec * X ^ 24 := registerPoly_setWidth (by decide) _
  have parts : registerPoly (mixed &&& 0xff#32) + registerPoly ((mixed >>> 8) <<< 8) =
      registerPoly crc.toBitVec + registerPoly p.toBitVec * X ^ 24 := by
    rw [← registerPoly_xor,split_low,registerPoly_xor,byte]
  have width : (byteBits p).length = 8 := by simp [byteBits,registerBits]
  rw [bitsPoly_zeros,List.length_replicate,width,byteBits,registerBits_poly]
  linear_combination X ^ 8 * parts

theorem crc32_feeds (buf : Buf) : (crc32 buf).toBitVec = feedBits crc32Poly ones (bufBits buf) ^^^ ones := by
  have folds : ∀ (crc : UInt32) (buf : Buf), (buf.foldl crc32Step crc).toBitVec = feedBits crc32Poly crc.toBitVec (bufBits buf) := by
    intro crc buf
    induction buf generalizing crc with
    | nil => rfl
    | cons p rest ih =>
      have parts : bufBits (p :: rest) = byteBits p ++ bufBits rest := rfl
      rw [List.foldl_cons,ih,crc32Step_feeds,parts,feedBits,feedBits,feedBits,List.foldl_append]
  rw [crc32,UInt32.toBitVec_xor,folds]
  rfl

theorem bufBits_length (buf : Buf) : (bufBits buf).length = 8 * buf.length := by
  induction buf with
  | nil => rfl
  | cons p rest ih =>
    have parts : bufBits (p :: rest) = byteBits p ++ bufBits rest := rfl
    have width : (byteBits p).length = 8 := by simp [byteBits,registerBits]
    rw [parts,List.length_append,width,ih,List.length_cons]
    omega

theorem bufBits_append (before after : Buf) : bufBits (before ++ after) = bufBits before ++ bufBits after :=
  List.flatMap_append

end Register

-- The checksum of tx.c is the remainder of the frame, with its first and its last 32 bits
-- turned over.
theorem crc32_remainder (buf : Buf) : registerPoly (crc32 buf).toBitVec =
    (registerPoly ones * X ^ (8 * buf.length) + bitsPoly (bufBits buf) * X ^ 32) %ₘ crc32Generator + registerPoly ones := by
  rw [crc32_feeds,registerPoly_xor,feedBits_remainder,bufBits_length,generator_crc32]

section Validity

-- A frame that ends in its own checksum.
def FcsValid (frame : Buf) : Prop := ∃ body, frame = body ++ ieee80211AddFcs body

theorem le32_bits (value : UInt32) : bufBits (le32 value) = registerBits value.toBitVec := by
  have digits : ∀ n x, bufBits (leBytes n x) = (List.range (8 * n)).map x.testBit := by
    intro n
    induction n with
    | zero => exact fun _ => rfl
    | succ n ih =>
      intro x
      have parts : bufBits (leBytes (n + 1) x) = byteBits (UInt8.ofNat x) ++ bufBits (leBytes n (x / 256)) := rfl
      have first : byteBits (UInt8.ofNat x) = (List.range 8).map x.testBit := by
        rw [byteBits,registerBits_range]
        refine List.map_congr_left fun i inside => ?_
        have low := List.mem_range.mp inside
        rw [UInt8.toBitVec_ofNat',BitVec.getLsbD_ofNat,decide_eq_true low,Bool.true_and]
      have others : (x / 256).testBit = fun i => x.testBit (8 + i) :=
        funext fun i => (Nat.testBit_div_two_pow (n := 8) x i).trans (congrArg x.testBit (Nat.add_comm i 8))
      rw [parts,first,ih,others,Nat.mul_succ,Nat.add_comm (8 * n) 8,List.range_add,List.map_append,List.map_map]
      rfl
  rw [le32,digits,registerBits_range]
  rfl

-- What any valid frame leaves in the register.
theorem valid_register (valid : FcsValid frame) :
    feedBits crc32Poly ones (bufBits frame) = feedBits crc32Poly ones (List.replicate 32 false) := by
  obtain ⟨body,rfl⟩ := valid
  have behind : feedBits crc32Poly ones (bufBits (body ++ ieee80211AddFcs body)) =
      feedBits crc32Poly (feedBits crc32Poly ones (bufBits body)) (registerBits (crc32 body).toBitVec) := by
    rw [bufBits_append,ieee80211AddFcs,le32_bits,feedBits,List.foldl_append]
    rfl
  have width : (registerBits (crc32 body).toBitVec).length = 32 := by simp [registerBits]
  rw [behind]
  refine feedBits_congr _ _ _ _ _ ?_
  have twice : ∀ p : (ZMod 2)[X], p + p = 0 := CharTwo.add_self_eq_zero
  rw [registerBits_poly,width,List.length_replicate,bitsPoly_zeros,crc32_feeds,registerPoly_xor]
  linear_combination X ^ 32 * twice (registerPoly (feedBits crc32Poly ones (bufBits body)))

end Validity

section Order

theorem proper : IsCoprime (generator crc32Poly) X := by
  refine ((irreducible_X.coprime_iff_not_dvd).mpr fun divides => ?_).symm
  have constant := X_dvd_iff.mp divides
  rw [generator_crc32,crc32Generator] at constant
  simp [coeff_X_pow,coeff_one] at constant

def exponentBits (n : Nat) : List Bool := (List.range 32).reverse.map n.testBit

theorem root_power (width : bitsValue (exponentBits n) = n) :
    AdjoinRoot.root (generator crc32Poly) ^ n = 1 ↔ power crc32Poly (exponentBits n) = one := by
  have same := residue_power crc32Poly (by decide) (exponentBits n)
  rw [width] at same
  rw [← same,← residue_one crc32Poly (by decide)]
  exact ⟨residue_inj crc32Poly,congrArg _⟩

-- The generator is primitive.
theorem crc32_order : orderOf (AdjoinRoot.root (generator crc32Poly)) = 2 ^ 32 - 1 := by
  refine orderOf_eq_of_pow_and_pow_div_prime (by decide) ((root_power (by decide +kernel)).mpr (by decide +kernel)) ?_
  intro p prime divides
  have factors : 2 ^ 32 - 1 = 3 * (5 * (17 * (257 * 65537))) := by norm_num
  simp only [factors,prime.dvd_mul] at divides
  have one_of : ∀ {q : Nat}, q.Prime → p ∣ q → p = q := fun known => (Nat.prime_dvd_prime_iff_eq prime known).mp
  rw [ne_eq]
  rcases divides with three | five | seventeen | fermat3 | fermat4
  · rw [one_of (by norm_num) three,root_power (by decide +kernel)]
    decide +kernel
  · rw [one_of (by norm_num) five,root_power (by decide +kernel)]
    decide +kernel
  · rw [one_of (by norm_num) seventeen,root_power (by decide +kernel)]
    decide +kernel
  · rw [one_of (by norm_num) fermat3,root_power (by decide +kernel)]
    decide +kernel
  · rw [one_of (by norm_num) fermat4,root_power (by decide +kernel)]
    decide +kernel

end Order

-- A burst of wrong bits, or two wrong bits anywhere in a frame of less than half a gigabyte.
inductive Corruption : List Bool → List Bool → Prop where
  | burst (long : a.length = b.length) (short : a.length ≤ 32) (wrong : a ≠ b) :
      Corruption (before ++ a ++ after) (before ++ b ++ after)
  | pair (near : between.length + 1 < 2 ^ 32 - 1) :
      Corruption (before ++ x :: (between ++ y :: after)) (before ++ (!x) :: (between ++ (!y) :: after))

def Protected (frame : Buf) : Prop :=
  FcsValid frame ∧ ∀ received, Corruption (bufBits frame) (bufBits received) → ¬ FcsValid received

theorem valid_protected (valid : FcsValid frame) : Protected frame := by
  refine ⟨valid,fun received corrupted again => ?_⟩
  have same := (valid_register valid).trans (valid_register again).symm
  generalize bufBits frame = sent at *
  generalize bufBits received = heard at *
  cases corrupted with
  | burst long short wrong => exact wrong (burst_shows proper same long short)
  | pair near =>
    have divides := pair_shows proper same
    rw [crc32_order] at divides
    exact absurd (Nat.le_of_dvd (Nat.succ_pos _) divides) (not_le.mpr near)

-- With fcs set, no such corruption of a frame that this node sends passes the check.
theorem frames_protected (on : ieee80211State.fcs = true) :
    (∀ clock state type, Protected (awdlInitFullActionFrame clock state ieee80211State type).1) ∧
    ∀ src dst payload state, Protected (awdlInitFullDataFrame src dst payload state ieee80211State).1 := by
  have ends : ∀ frame : Buf, FcsValid (frame ++ if ieee80211State.fcs then ieee80211AddFcs frame else []) :=
    fun frame => ⟨frame,by rw [if_pos on]⟩
  exact ⟨fun _ _ _ => valid_protected (ends _),fun _ _ _ _ => valid_protected (ends _)⟩

theorem frames_protected_mif : Protected (awdlInitFullActionFrame ⟨5,0⟩
    (awdlInitState default [] ⟨2,0,0,0,0,1⟩ chanOpclass6 0) ⟨0,true⟩ .mif).1 :=
  (frames_protected rfl).1 _ _ _

end EspOwl.FrameChecksums
