import Mathlib

namespace EspOwl.CyclicCodes
open Polynomial

def coefficient (bit : Bool) : ZMod 2 := if bit then 1 else 0

theorem coefficient_xor (a b : Bool) : coefficient (a ^^ b) = coefficient a + coefficient b := by
  cases a <;> cases b <;> decide

theorem coefficient_inj (same : coefficient a = coefficient b) : a = b := by
  revert same
  cases a <;> cases b <;> decide

section Words

-- The polynomial with these bits as its coefficients, the highest first.
noncomputable def bitsPoly : List Bool → (ZMod 2)[X]
  | [] => 0
  | bit :: rest => C (coefficient bit) * X ^ rest.length + bitsPoly rest

theorem bitsPoly_append (before after : List Bool) :
    bitsPoly (before ++ after) = bitsPoly before * X ^ after.length + bitsPoly after := by
  induction before with
  | nil => simp [bitsPoly]
  | cons bit rest ih =>
    rw [List.cons_append,bitsPoly,ih,bitsPoly,List.length_append,pow_add]
    ring

theorem bitsPoly_degree (bits : List Bool) : (bitsPoly bits).degree < bits.length := by
  induction bits with
  | nil => simp [bitsPoly]
  | cons bit rest ih =>
    have longer : (rest.length : WithBot ℕ) < (bit :: rest).length := by
      rw [List.length_cons]
      exact_mod_cast Nat.lt_succ_self _
    refine (degree_add_le _ _).trans_lt (max_lt ?_ (ih.trans longer))
    exact (degree_C_mul_X_pow_le _ _).trans_lt longer

theorem bitsPoly_inj (same : bitsPoly a = bitsPoly b) (long : a.length = b.length) : a = b := by
  induction a generalizing b with
  | nil => exact (List.eq_nil_of_length_eq_zero long.symm).symm
  | cons bit rest ih =>
    cases b with
    | nil => cases long
    | cons other more =>
      have tail : rest.length = more.length := Nat.succ.inj long
      have head : coefficient bit = coefficient other := by
        have top := congrArg (fun p => coeff p rest.length) same
        have one := coeff_eq_zero_of_degree_lt (bitsPoly_degree rest)
        have two := coeff_eq_zero_of_degree_lt (bitsPoly_degree more)
        rw [← tail] at two
        simpa [bitsPoly,one,two,← tail] using top
      obtain rfl := coefficient_inj head
      rw [bitsPoly,bitsPoly,tail] at same
      rw [ih (add_left_cancel same) tail]

end Words

-- A register whose lowest bit is the highest coefficient.
section Registers
variable {w : Nat}

noncomputable def registerPoly (r : BitVec w) : (ZMod 2)[X] :=
  ∑ i : Fin w, C (coefficient (r.getLsbD i)) * X ^ (w - 1 - i)

theorem registerPoly_coeff (r : BitVec w) (k : Nat) :
    (registerPoly r).coeff k = if k < w then coefficient (r.getLsbD (w - 1 - k)) else 0 := by
  rw [registerPoly,finsetSum_coeff]
  simp only [coeff_C_mul,coeff_X_pow,mul_ite,mul_one,mul_zero]
  split
  · rename_i inside
    rw [Finset.sum_eq_single (⟨w - 1 - k,by omega⟩ : Fin w)]
    · rw [if_pos (by dsimp only; omega)]
    · intro i _ other
      rw [if_neg]
      intro same
      exact other (Fin.ext (by dsimp only; omega))
    · intro outside
      exact absurd (Finset.mem_univ _) outside
  · rename_i outside
    refine Finset.sum_eq_zero fun i _ => if_neg ?_
    omega

theorem registerPoly_degree (r : BitVec w) : (registerPoly r).degree < w := by
  refine (degree_lt_iff_coeff_zero _ _).mpr fun k beyond => ?_
  rw [registerPoly_coeff,if_neg (not_lt.mpr beyond)]

theorem registerPoly_xor (a b : BitVec w) : registerPoly (a ^^^ b) = registerPoly a + registerPoly b := by
  ext k
  simp only [coeff_add,registerPoly_coeff,BitVec.getLsbD_xor,coefficient_xor]
  split
  · rfl
  · exact (add_zero _).symm

theorem registerPoly_inj (same : registerPoly a = registerPoly (b : BitVec w)) : a = b := by
  refine BitVec.eq_of_getLsbD_eq fun i inside => coefficient_inj ?_
  have bit := congrArg (fun p => coeff p (w - 1 - i)) same
  simp only [registerPoly_coeff] at bit
  rwa [if_pos (by omega),if_pos (by omega),Nat.sub_sub_self (by omega)] at bit

@[simp] theorem registerPoly_zero : registerPoly 0#w = 0 := by
  ext k
  simp [registerPoly_coeff,coefficient]

-- One shift: what falls out is the coefficient of the highest power.
theorem registerPoly_shift (r : BitVec w) :
    X * registerPoly r = registerPoly (r >>> 1) + C (coefficient (r.getLsbD 0)) * X ^ w := by
  ext k
  rw [coeff_add,registerPoly_coeff,coeff_C_mul,coeff_X_pow]
  cases k with
  | zero =>
    rw [coeff_X_mul_zero]
    cases w with
    | zero => simp [coefficient]
    | succ n => simp [coefficient]
  | succ k =>
    rw [coeff_X_mul,registerPoly_coeff]
    by_cases inside : k + 1 < w
    · have above : k + 1 ≠ w := by omega
      rw [if_pos inside,if_pos (by omega),if_neg above,mul_zero,add_zero,BitVec.getLsbD_ushiftRight]
      congr 2
      omega
    · by_cases top : k + 1 = w
      · rw [if_neg inside,if_pos top,if_pos (by omega),zero_add,mul_one]
        congr 2
        omega
      · rw [if_neg inside,if_neg top,if_neg (by omega),mul_zero,add_zero]

end Registers

section Division
variable {w : Nat} (poly : BitVec w)

noncomputable def generator : (ZMod 2)[X] := X ^ w + registerPoly poly

-- One bit enters at the low end.
def feed (r : BitVec w) (bit : Bool) : BitVec w := (r >>> 1) ^^^ (if r.getLsbD 0 ^^ bit then poly else 0)

def feedBits (r : BitVec w) (bits : List Bool) : BitVec w := bits.foldl (feed poly) r

theorem generator_monic : (generator poly).Monic := monic_X_pow_add (registerPoly_degree poly)

theorem generator_degree : (generator poly).degree = w := by
  rw [generator,degree_add_eq_left_of_degree_lt] <;> rw [degree_X_pow]
  exact registerPoly_degree poly

-- A step of the division: the shifted dividend is the next register and a multiple of
-- the generator.
theorem feed_poly (r : BitVec w) (bit : Bool) :
    X * registerPoly r + C (coefficient bit) * X ^ w =
      registerPoly (feed poly r bit) + C (coefficient (r.getLsbD 0 ^^ bit)) * generator poly := by
  have gate : ∀ on : Bool, registerPoly (if on then poly else 0) = C (coefficient on) * registerPoly poly := by
    intro on
    cases on <;> simp [coefficient]
  have out : C (coefficient (r.getLsbD 0 ^^ bit)) = C (coefficient (r.getLsbD 0)) + C (coefficient bit) := by
    rw [coefficient_xor,C_add]
  have twice : registerPoly poly + registerPoly poly = 0 := CharTwo.add_self_eq_zero _
  rw [registerPoly_shift,feed,registerPoly_xor,gate,generator]
  linear_combination -(X ^ w) * out - C (coefficient (r.getLsbD 0 ^^ bit)) * twice

theorem feedBits_poly (r : BitVec w) (bits : List Bool) :
    ∃ quotient, registerPoly (feedBits poly r bits) + generator poly * quotient =
      registerPoly r * X ^ bits.length + bitsPoly bits * X ^ w := by
  induction bits generalizing r with
  | nil => exact ⟨0,by simp [feedBits,bitsPoly]⟩
  | cons bit rest ih =>
    obtain ⟨quotient,same⟩ := ih (feed poly r bit)
    refine ⟨quotient + X ^ rest.length * C (coefficient (r.getLsbD 0 ^^ bit)),?_⟩
    change registerPoly (feedBits poly (feed poly r bit) rest) + _ = _
    rw [bitsPoly,List.length_cons]
    linear_combination same - X ^ rest.length * feed_poly poly r bit

-- The register is the remainder of what went through it.
theorem feedBits_remainder (r : BitVec w) (bits : List Bool) :
    registerPoly (feedBits poly r bits) =
      (registerPoly r * X ^ bits.length + bitsPoly bits * X ^ w) %ₘ generator poly := by
  obtain ⟨quotient,same⟩ := feedBits_poly poly r bits
  have small : (registerPoly (feedBits poly r bits)).degree < (generator poly).degree := by
    rw [generator_degree]
    exact registerPoly_degree _
  exact (div_modByMonic_unique quotient _ (generator_monic poly) ⟨same,small⟩).2.symm

end Division

-- Registers and bits are added up in one sum.
section Linearity
variable {w : Nat} (poly : BitVec w)

theorem feedBits_xor (a b c : BitVec w) (x y z : List Bool)
    (sum : registerPoly a * X ^ x.length + bitsPoly x * X ^ w + (registerPoly b * X ^ y.length + bitsPoly y * X ^ w) =
      registerPoly c * X ^ z.length + bitsPoly z * X ^ w) :
    feedBits poly a x ^^^ feedBits poly b y = feedBits poly c z := by
  refine registerPoly_inj ?_
  rw [registerPoly_xor,feedBits_remainder,feedBits_remainder,feedBits_remainder,← add_modByMonic,sum]

theorem feedBits_congr (r s : BitVec w) (x y : List Bool)
    (same : registerPoly r * X ^ x.length + bitsPoly x * X ^ w = registerPoly s * X ^ y.length + bitsPoly y * X ^ w) :
    feedBits poly r x = feedBits poly s y := by
  refine registerPoly_inj ?_
  rw [feedBits_remainder,feedBits_remainder,same]

theorem bitsPoly_zeros (n : Nat) : bitsPoly (List.replicate n false) = 0 := by
  induction n with
  | zero => rfl
  | succ n ih => simp [List.replicate_succ,bitsPoly,ih,coefficient]

-- Nothing but zeros falls out before the lowest bit that is set.
theorem feedBits_low (r : BitVec w) (n : Nat) (low : ∀ i < n, r.getLsbD i = false) :
    feedBits poly r (List.replicate n false) = r >>> n := by
  induction n generalizing r with
  | zero => simp [feedBits]
  | succ n ih =>
    have first : feed poly r false = r >>> 1 := by
      rw [feed,low 0 (Nat.succ_pos n)]
      simp
    rw [List.replicate_succ]
    change feedBits poly (feed poly r false) _ = _
    rw [first,ih _ fun i less => ?_,← BitVec.shiftRight_add,Nat.add_comm]
    rw [BitVec.getLsbD_ushiftRight]
    exact low _ (by omega)

theorem registerPoly_setWidth {v : Nat} (narrow : v ≤ w) (b : BitVec v) :
    registerPoly (b.setWidth w) = registerPoly b * X ^ (w - v) := by
  ext k
  rw [coeff_mul_X_pow',registerPoly_coeff,BitVec.getLsbD_setWidth]
  by_cases reach : w - v ≤ k
  · rw [if_pos reach,registerPoly_coeff]
    by_cases inside : k < w
    · rw [if_pos inside,if_pos (by omega),decide_eq_true (by omega),Bool.true_and]
      congr 2
      omega
    · rw [if_neg inside,if_neg (by omega)]
  · rw [if_neg reach,BitVec.getLsbD_of_ge b _ (by omega)]
    simp [coefficient]

end Linearity

-- Words that leave the same register, of a generator that does not end in zero.
section Errors
variable {w : Nat} {poly : BitVec w} (proper : IsCoprime (generator poly) X)
include proper

theorem same_register (same : feedBits poly r a = feedBits poly r b) (long : a.length = b.length) :
    generator poly ∣ bitsPoly a - bitsPoly b := by
  obtain ⟨p,first⟩ := feedBits_poly poly r a
  obtain ⟨q,second⟩ := feedBits_poly poly r b
  refine (proper.pow_right (n := w)).dvd_of_dvd_mul_right ⟨p - q,?_⟩
  rw [same,long] at first
  linear_combination second - first

-- An error burst that is no longer than the register shows.
theorem burst_shows (same : feedBits poly r (before ++ a ++ after) = feedBits poly r (before ++ b ++ after))
    (long : a.length = b.length) (short : a.length ≤ w) : a = b := by
  have divides := same_register proper same (by simp [long])
  simp only [bitsPoly_append] at divides
  have burst : generator poly ∣ bitsPoly a - bitsPoly b := by
    refine (proper.pow_right (n := after.length)).dvd_of_dvd_mul_right (divides.trans (dvd_of_eq ?_))
    rw [long]
    ring
  have small : (bitsPoly a - bitsPoly b).degree < (generator poly).degree := by
    rw [generator_degree]
    refine (degree_sub_le _ _).trans_lt (max_lt ?_ ?_)
    · exact (bitsPoly_degree a).trans_le (by exact_mod_cast short)
    · exact (bitsPoly_degree b).trans_le (by exact_mod_cast long ▸ short)
  exact bitsPoly_inj (sub_eq_zero.mp (eq_zero_of_dvd_of_degree_lt burst small)) long

-- Two wrong bits show unless the order of the generator divides their distance.
theorem pair_shows (same : feedBits poly r (before ++ x :: (between ++ y :: after)) =
      feedBits poly r (before ++ (!x) :: (between ++ (!y) :: after))) :
    orderOf (AdjoinRoot.root (generator poly)) ∣ between.length + 1 := by
  have divides := same_register proper same (by simp)
  have flip : ∀ bit : Bool, C (coefficient bit) - C (coefficient !bit) = 1 := by
    intro bit
    cases bit
    · rw [← C_sub,← C_1]
      exact congrArg C (by decide)
    · simp [coefficient]
  have distance : generator poly ∣ X ^ (between.length + 1) - 1 := by
    refine (proper.pow_right (n := after.length)).dvd_of_dvd_mul_right (divides.trans (dvd_of_eq ?_))
    have twice : (1 : (ZMod 2)[X]) + 1 = 0 := CharTwo.add_self_eq_zero _
    simp only [bitsPoly_append,bitsPoly,List.length_append,List.length_cons]
    linear_combination X ^ (between.length + (after.length + 1)) * flip x + X ^ after.length * flip y
      + X ^ after.length * twice
  refine orderOf_dvd_of_pow_eq_one (sub_eq_zero.mp ?_)
  rw [← AdjoinRoot.mk_X,← map_pow,← map_one (AdjoinRoot.mk (generator poly)),← map_sub]
  exact AdjoinRoot.mk_eq_zero.mpr distance

end Errors

-- Arithmetic on registers, to compute the order of a generator.
section Powers
variable {w : Nat} (poly : BitVec w)

noncomputable def residue (r : BitVec w) : AdjoinRoot (generator poly) := AdjoinRoot.mk (generator poly) (registerPoly r)

theorem residue_xor (a b : BitVec w) : residue poly (a ^^^ b) = residue poly a + residue poly b := by
  rw [residue,registerPoly_xor,map_add]
  rfl

theorem residue_shift (r : BitVec w) :
    residue poly (feed poly r false) = AdjoinRoot.root (generator poly) * residue poly r := by
  have step := congrArg (AdjoinRoot.mk (generator poly)) (feed_poly poly r false)
  simp only [map_add,map_mul,AdjoinRoot.mk_self,mul_zero,add_zero,coefficient,Bool.false_eq_true,if_false,map_zero,
    zero_mul,AdjoinRoot.mk_X] at step
  exact step.symm

theorem residue_inj (same : residue poly a = residue poly b) : a = b := by
  refine registerPoly_inj (sub_eq_zero.mp (eq_zero_of_dvd_of_degree_lt (AdjoinRoot.mk_eq_mk.mp same) ?_))
  rw [generator_degree]
  exact (degree_sub_le _ _).trans_lt (max_lt (registerPoly_degree a) (registerPoly_degree b))

def one : BitVec w := BitVec.twoPow w (w - 1)

theorem residue_one (wide : 0 < w) : residue poly (one : BitVec w) = 1 := by
  have unit : registerPoly (one : BitVec w) = 1 := by
    ext k
    rw [registerPoly_coeff,coeff_one,one,BitVec.getLsbD_twoPow]
    by_cases low : k = 0
    · simp [low,wide,coefficient]
    · have apart : w - 1 ≠ w - 1 - k ∨ ¬ k < w := by omega
      rcases apart with other | beyond
      · simp [low,other,coefficient]
      · simp [low,beyond]
  rw [residue,unit,map_one]

def registerBits (r : BitVec w) : List Bool := List.ofFn fun i : Fin w => r.getLsbD i

theorem registerBits_range (r : BitVec w) : registerBits r = (List.range w).map r.getLsbD :=
  List.ext_getElem (by simp [registerBits]) fun i long _ => by
    simp [registerBits,BitVec.getLsbD_eq_getElem (show i < w by simpa [registerBits] using long)]

-- Horner's rule, the highest coefficient first.
def accumulate (b r : BitVec w) (bit : Bool) : BitVec w := feed poly r false ^^^ (if bit then b else 0)

def times (a b : BitVec w) : BitVec w := (registerBits a).foldl (accumulate poly b) 0

theorem horner (bits : List Bool) (b r : BitVec w) :
    residue poly (bits.foldl (accumulate poly b) r) =
      AdjoinRoot.root (generator poly) ^ bits.length * residue poly r +
        AdjoinRoot.mk (generator poly) (bitsPoly bits) * residue poly b := by
  induction bits generalizing r with
  | nil => simp [bitsPoly]
  | cons bit rest ih =>
    have gate : residue poly (if bit then b else 0) = AdjoinRoot.of (generator poly) (coefficient bit) * residue poly b := by
      cases bit <;> simp [residue,coefficient]
    rw [List.foldl_cons,ih,accumulate,residue_xor,residue_shift,gate,bitsPoly,List.length_cons,map_add,map_mul,map_pow,
      AdjoinRoot.mk_X,AdjoinRoot.mk_C]
    ring

theorem bitsPoly_ofFn (f : Fin n → Bool) :
    bitsPoly (List.ofFn f) = ∑ i : Fin n, C (coefficient (f i)) * X ^ (n - 1 - i) := by
  induction n with
  | zero => simp [bitsPoly]
  | succ n ih =>
    rw [List.ofFn_succ,bitsPoly,ih,Fin.sum_univ_succ,List.length_ofFn]
    congr 1
    refine Finset.sum_congr rfl fun i _ => ?_
    rw [Fin.val_succ,show n + 1 - 1 - (i.val + 1) = n - 1 - i.val by omega]

theorem registerBits_poly (r : BitVec w) : bitsPoly (registerBits r) = registerPoly r := bitsPoly_ofFn _

theorem residue_times (a b : BitVec w) : residue poly (times poly a b) = residue poly a * residue poly b := by
  have same : bitsPoly (registerBits a) = registerPoly a := bitsPoly_ofFn _
  have nothing : residue poly 0 = 0 := by simp [residue]
  rw [times,horner,same,nothing,mul_zero,zero_add]
  rfl

-- Square and multiply, the highest bit of the exponent first.
def square (r : BitVec w) (bit : Bool) : BitVec w :=
  if bit then feed poly (times poly r r) false else times poly r r

def power (exponent : List Bool) : BitVec w := exponent.foldl (square poly) one

def bitsValue (bits : List Bool) : Nat := bits.foldl (fun n bit => 2 * n + bit.toNat) 0

theorem residue_square (same : residue poly r = AdjoinRoot.root (generator poly) ^ n) (bit : Bool) :
    residue poly (square poly r bit) = AdjoinRoot.root (generator poly) ^ (2 * n + bit.toNat) := by
  cases bit with
  | false =>
    rw [square,if_neg (by decide),residue_times,same,← pow_add,← two_mul]
    rfl
  | true =>
    rw [square,if_pos rfl,residue_shift,residue_times,same,← pow_add,← pow_succ',← two_mul]
    rfl

theorem residue_power (wide : 0 < w) (exponent : List Bool) :
    residue poly (power poly exponent) = AdjoinRoot.root (generator poly) ^ bitsValue exponent := by
  suffices all : ∀ (r : BitVec w) (n : Nat), residue poly r = AdjoinRoot.root (generator poly) ^ n →
      residue poly (exponent.foldl (square poly) r) =
        AdjoinRoot.root (generator poly) ^ exponent.foldl (fun n bit => 2 * n + bit.toNat) n from
    all one 0 (by rw [residue_one poly wide,pow_zero])
  induction exponent with
  | nil => exact fun _ _ same => same
  | cons bit rest ih => exact fun r n same => ih _ _ (residue_square poly same bit)

end Powers

end EspOwl.CyclicCodes
