import Mathlib

namespace EspOwl.HexText

-- isxdigit in the C locale.
def isxdigit (b : UInt8) : Bool := 48 ≤ b && b ≤ 57 || 65 ≤ b && b ≤ 70 || 97 ≤ b && b ≤ 102

def digitValue (b : UInt8) : Nat := if b ≤ 57 then b.toNat - 48 else if b ≤ 70 then b.toNat - 55 else b.toNat - 87

-- strtol in base 16, on a string that starts with a digit and not with 0x.
def strtol16 (text : List UInt8) : Nat := (text.takeWhile isxdigit).foldl (fun value b => value * 16 + digitValue b) 0

def hexDigit (n : Nat) : UInt8 := UInt8.ofNat (if n < 10 then 48 + n else 87 + n)

-- "%02x" of a byte.
def hexByte (b : UInt8) : List UInt8 := [hexDigit (b.toNat / 16),hexDigit (b.toNat % 16)]

def colon : UInt8 := 58

-- The text is the numbers, each in so many hex digits, with colons between them.
def Fields (width : Nat) (text : List UInt8) (values : List Nat) : Prop :=
  List.Forall₂ (fun part value => part.length = width ∧ (∀ b ∈ part, isxdigit b) ∧ strtol16 part = value)
    (text.splitOn colon) values

section Joined
variable {α : Type*} {x : α} {parts : List (List α)}

theorem join_length (some_parts : parts ≠ []) (x : α) :
    ([x].intercalate parts).length + 1 = (parts.map fun part => part.length + 1).sum := by
  induction parts with
  | nil => exact absurd rfl some_parts
  | cons part rest ih =>
    cases rest with
    | nil => simp
    | cons next rest =>
      have later := ih (List.cons_ne_nil next rest)
      rw [List.intercalate_cons_of_ne_nil (List.cons_ne_nil next rest),List.map_cons,List.sum_cons,← later]
      simp only [List.length_append,List.length_singleton]
      omega

theorem join_filter {p : α → Bool} (spaced : p x = false) (kept : ∀ part ∈ parts, ∀ a ∈ part, p a) :
    ([x].intercalate parts).filter p = parts.flatten := by
  induction parts with
  | nil => rfl
  | cons part rest ih =>
    rw [List.forall_mem_cons] at kept
    have own := List.filter_eq_self.mpr kept.1
    cases rest with
    | nil => simpa using own
    | cons next rest =>
      rw [List.intercalate_cons_of_ne_nil (List.cons_ne_nil next rest),List.flatten_cons,← ih kept.2,List.filter_append,
        List.filter_append,own,List.filter_singleton,spaced]
      simp

theorem even_sum {f : List α → Nat} {n : Nat} (even : ∀ part ∈ parts, f part = n) :
    (parts.map f).sum = parts.length * n := by
  rw [List.map_congr_left even,List.map_const',List.sum_replicate,smul_eq_mul]

-- Parts of one length are found again in what they were laid end to end.
theorem flatten_part {width : Nat} (even : ∀ part ∈ parts, part.length = width) {i : Nat} (inside : i < parts.length) :
    (parts.flatten.drop (width * i)).take width = parts[i] := by
  induction parts generalizing i with
  | nil => exact absurd inside (Nat.not_lt_zero i)
  | cons part rest ih =>
    rw [List.forall_mem_cons] at even
    obtain ⟨first,even⟩ := even
    subst first
    cases i with
    | zero => rw [Nat.mul_zero,List.drop_zero,List.flatten_cons,List.take_left,List.getElem_cons_zero]
    | succ i =>
      rw [Nat.mul_succ,Nat.add_comm,← List.drop_drop,List.flatten_cons,List.drop_left,List.getElem_cons_succ]
      exact ih even (Nat.lt_of_succ_lt_succ inside)

end Joined

section Read
variable {width : Nat} {text : List UInt8} {values : List Nat}

theorem strtol16_append {left right : List UInt8} (digits : ∀ b ∈ left ++ right, isxdigit b) :
    strtol16 (left ++ right) = strtol16 left * 16 ^ right.length + strtol16 right := by
  have carried : ∀ (text : List UInt8) (start : Nat), text.foldl (fun value b => value * 16 + digitValue b) start =
      start * 16 ^ text.length + text.foldl (fun value b => value * 16 + digitValue b) 0 := by
    intro text
    induction text with
    | nil => intro start; simp
    | cons b text ih =>
      intro start
      rw [List.foldl_cons,List.foldl_cons,ih (start * 16 + digitValue b),ih (0 * 16 + digitValue b),List.length_cons]
      ring
  have front : ∀ b ∈ left, isxdigit b := fun b member => digits b (List.mem_append_left _ member)
  have back : ∀ b ∈ right, isxdigit b := fun b member => digits b (List.mem_append_right _ member)
  rw [strtol16,strtol16,strtol16,List.takeWhile_eq_self_iff.mpr digits,List.takeWhile_eq_self_iff.mpr front,
    List.takeWhile_eq_self_iff.mpr back,List.foldl_append]
  exact carried right _

theorem hexDigit_reads : ∀ n < 16, isxdigit (hexDigit n) ∧ digitValue (hexDigit n) = n := by decide

theorem hexByte_digits (b : UInt8) : ∀ d ∈ hexByte b, isxdigit d := by
  have inside := b.toNat_lt
  rw [hexByte,List.forall_mem_cons,List.forall_mem_singleton]
  exact ⟨(hexDigit_reads _ (by omega)).1,(hexDigit_reads _ (by omega)).1⟩

theorem strtol16_hexByte (b : UInt8) : strtol16 (hexByte b) = b.toNat := by
  have inside := b.toNat_lt
  rw [strtol16,List.takeWhile_eq_self_iff.mpr (hexByte_digits b),hexByte,List.foldl_cons,List.foldl_cons,List.foldl_nil,
    (hexDigit_reads _ (by omega)).2,(hexDigit_reads _ (by omega)).2]
  omega

theorem hexBytes_digits (a b : UInt8) : ∀ d ∈ hexByte a ++ hexByte b, isxdigit d := by
  rw [List.forall_mem_append]
  exact ⟨hexByte_digits a,hexByte_digits b⟩

theorem strtol16_hexBytes (a b : UInt8) : strtol16 (hexByte a ++ hexByte b) = a.toNat * 256 + b.toNat := by
  rw [strtol16_append (hexBytes_digits a b),strtol16_hexByte,strtol16_hexByte]
  rfl

theorem digit_not_colon {b : UInt8} (digit : isxdigit b) : b ≠ colon := by
  rintro rfl
  cases digit

theorem fields_join {parts : List (List UInt8)} (some_parts : parts ≠ [])
    (shaped : ∀ part ∈ parts, part.length = width ∧ ∀ b ∈ part, isxdigit b) :
    Fields width ([colon].intercalate parts) (parts.map strtol16) := by
  have split : ([colon].intercalate parts).splitOn colon = parts :=
    List.splitOn_intercalate colon
      (fun part member found => digit_not_colon ((shaped part member).2 colon found) rfl) some_parts
  rw [Fields,split,List.forall₂_map_right_iff]
  exact List.forall₂_same.mpr fun part member => ⟨(shaped part member).1,(shaped part member).2,rfl⟩

theorem fields_parts (fields : Fields width text values) :
    (∀ part ∈ text.splitOn colon, part.length = width ∧ ∀ b ∈ part, isxdigit b) ∧
      (text.splitOn colon).map strtol16 = values := by
  unfold Fields at fields
  generalize text.splitOn colon = parts at fields
  induction fields with
  | nil => exact ⟨by simp,rfl⟩
  | cons head _ ih =>
    rw [List.forall_mem_cons,List.map_cons,head.2.2,ih.2]
    exact ⟨⟨⟨head.1,head.2.1⟩,ih.1⟩,rfl⟩

theorem fields_length (fields : Fields width text values) : text.length + 1 = values.length * (width + 1) := by
  obtain ⟨shaped,read⟩ := fields_parts fields
  have joined := join_length (List.splitOn_ne_nil colon text) colon
  rw [List.intercalate_splitOn,even_sum fun part member => congrArg (· + 1) (shaped part member).1] at joined
  rw [joined,← read,List.length_map]

theorem fields_digits (fields : Fields width text values) : text.filter isxdigit = (text.splitOn colon).flatten := by
  have joined := join_filter (x := colon) (p := isxdigit) rfl fun part member => ((fields_parts fields).1 part member).2
  rwa [List.intercalate_splitOn] at joined

theorem fields_count (fields : Fields width text values) : (text.filter isxdigit).length = values.length * width := by
  obtain ⟨shaped,read⟩ := fields_parts fields
  rw [fields_digits fields,List.length_flatten,even_sum fun part member => (shaped part member).1,← read,
    List.length_map]

-- The digits of a field, as a reader finds them that has left everything else out.
theorem fields_value (fields : Fields width text values) {i : Nat} (inside : i < values.length) :
    strtol16 (((text.filter isxdigit).drop (width * i)).take width) = values[i] := by
  obtain ⟨shaped,read⟩ := fields_parts fields
  subst read
  rw [List.length_map] at inside
  rw [fields_digits fields,flatten_part (fun part member => (shaped part member).1) inside,List.getElem_map]

end Read

end EspOwl.HexText
