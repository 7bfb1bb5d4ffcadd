import Mathlib

namespace EspOwl.Lines

variable {α : Type*}

section Parted
-- Every terminator ends its chunk or is the last one of the stream.
def Parted (terminator : α) : List (List α) → Prop
  | [] => True
  | chunk :: later =>
    (∀ left rest, chunk = left ++ terminator :: rest → rest = [] ∨ terminator ∉ rest ++ later.flatten) ∧ Parted terminator later

variable {terminator : α} {left chunk : List α} {chunks : List (List α)}

theorem parted_skip (free : terminator ∉ chunk) (later : List (List α)) :
    Parted terminator (chunk :: later) ↔ Parted terminator later := by
  refine and_iff_right ?_
  rintro left rest rfl
  exact absurd (by simp) free

theorem parted_free (free : terminator ∉ chunks.flatten) : Parted terminator chunks := by
  induction chunks with
  | nil => trivial
  | cons chunk later ih =>
    rw [List.flatten_cons,List.mem_append,not_or] at free
    exact (parted_skip free.1 later).mpr (ih free.2)

-- One chunk with a line end in it: nothing of what follows the line may be missing.
theorem parted_line (free : terminator ∉ left) (rest : List α) (later : List (List α)) :
    Parted terminator ((left ++ terminator :: rest) :: later) ↔
      (rest = [] ∨ terminator ∉ rest ++ later.flatten) ∧ Parted terminator later := by
  refine and_congr_left fun _ => ⟨fun parted => parted left rest rfl,?_⟩
  rintro fine front back same
  rcases List.append_eq_append_iff.mp same with ⟨mid,rfl,tail⟩ | ⟨mid,rfl,tail⟩
  · cases mid with
    | nil =>
      cases tail
      exact fine
    | cons a mid =>
      -- A second line end of the chunk stands in what follows the first.
      cases tail
      rcases fine with none_left | clean
      · exact absurd none_left (by simp)
      · exact absurd (by simp) clean
  · cases mid with
    | nil =>
      cases tail
      exact fine
    | cons a mid =>
      cases tail
      exact absurd (by simp) free

end Parted

section Served
-- A server that takes one line after the other, up to one that it does not return from.
def served (returns : Nat → List α → Bool) : List (List α) → List (List α)
  | [] => []
  | line :: later => line :: if returns 0 line then served (fun k => returns (k + 1)) later else []

-- Every line but the last is one to return from.
def Answered (returns : Nat → List α → Bool) (parts : List (List α)) : Prop :=
  ∀ k line, parts[k]? = some line → k + 1 < parts.length → returns k line = true

variable {returns : Nat → List α → Bool}

theorem served_prefix (returns : Nat → List α → Bool) (parts : List (List α)) : served returns parts <+: parts := by
  induction parts generalizing returns with
  | nil => exact List.prefix_rfl
  | cons line later ih =>
    rw [served,List.cons_prefix_cons]
    split
    · exact ⟨rfl,ih _⟩
    · exact ⟨rfl,List.nil_prefix⟩

theorem answered_cons (line : List α) (later : List (List α)) : Answered returns (line :: later) ↔
    (later ≠ [] → returns 0 line = true) ∧ Answered (fun k => returns (k + 1)) later := by
  constructor
  · intro answered
    refine ⟨fun more => answered 0 line rfl ?_,fun k other place inside => answered (k + 1) other place ?_⟩
    · exact Nat.succ_lt_succ (List.length_pos_iff.mpr more)
    · exact Nat.succ_lt_succ inside
  · rintro ⟨first,rest⟩ k other place inside
    cases k with
    | zero =>
      cases place
      exact first (List.length_pos_iff.mp (Nat.lt_of_succ_lt_succ inside))
    | succ k => exact rest k other place (Nat.lt_of_succ_lt_succ inside)

theorem served_iff (returns : Nat → List α → Bool) (parts : List (List α)) :
    served returns parts = parts ↔ Answered returns parts := by
  induction parts generalizing returns with
  | nil => exact iff_of_true rfl fun _ _ place => by cases place
  | cons line later ih =>
    rw [served,List.cons_inj_right,answered_cons,← ih]
    cases answer : returns 0 line with
    | true => simp
    | false =>
      rw [if_neg Bool.false_ne_true]
      constructor
      · rintro rfl
        exact ⟨fun more => absurd rfl more,rfl⟩
      · rintro ⟨first,_⟩
        by_contra some_left
        exact Bool.false_ne_true (first (Ne.symm some_left))

end Served

variable [DecidableEq α] (terminator : α)

-- The finished lines of a stream. What stands behind the last terminator is none yet.
def lines (stream : List α) : List (List α) := (stream.splitOn terminator).dropLast

-- A reader that sees the stream in chunks and drops what a chunk holds behind its
-- first terminator.
def assemble : List α → List (List α) → List (List α)
  | _,[] => []
  | pending,chunk :: later =>
    if terminator ∈ chunk then (pending ++ chunk.takeWhile (· ≠ terminator)) :: assemble [] later
    else assemble (pending ++ chunk) later

-- Elements up to the last terminator.
def consumed : List α → Nat
  | [] => 0
  | a :: rest => if terminator ∈ a :: rest then consumed rest + 1 else 0

def weight (parts : List (List α)) : Nat := (parts.map fun part => part.length + 1).sum

def Short (limit : Nat) (stream : List α) : Prop := ∀ part ∈ stream.splitOn terminator, part.length < limit

variable {terminator : α} {pending left rest chunk stream : List α} {chunks : List (List α)}

theorem lines_free (free : terminator ∉ stream) : lines terminator stream = [] := by
  rw [lines,List.splitOn_eq_singleton free]
  rfl

theorem lines_line (free : terminator ∉ left) (rest : List α) :
    lines terminator (left ++ terminator :: rest) = left :: lines terminator rest := by
  rw [lines,List.splitOn_append_cons_self_of_not_mem free,
    List.dropLast_cons_of_ne_nil (List.splitOn_ne_nil terminator rest)]
  rfl

theorem takeWhile_line (free : terminator ∉ left) (rest : List α) :
    (left ++ terminator :: rest).takeWhile (· ≠ terminator) = left := by
  rw [List.takeWhile_append_of_pos]
  · simp
  · intro a member
    rw [decide_eq_true_iff]
    rintro rfl
    exact free member

theorem assemble_free (free : terminator ∉ chunk) (pending : List α) (later : List (List α)) :
    assemble terminator pending (chunk :: later) = assemble terminator (pending ++ chunk) later := by
  rw [assemble,if_neg free]

theorem assemble_line (free : terminator ∉ left) (pending rest : List α) (later : List (List α)) :
    assemble terminator pending ((left ++ terminator :: rest) :: later) =
      (pending ++ left) :: assemble terminator [] later := by
  rw [assemble,if_pos (by simp),takeWhile_line free]

section Consumed

theorem consumed_free (free : terminator ∉ stream) : consumed terminator stream = 0 := by
  cases stream with
  | nil => rfl
  | cons a rest => rw [consumed,if_neg free]

theorem consumed_line (left rest : List α) :
    consumed terminator (left ++ terminator :: rest) = left.length + 1 + consumed terminator rest := by
  induction left with
  | nil =>
    rw [List.nil_append,consumed,if_pos List.mem_cons_self,List.length_nil]
    omega
  | cons a left ih =>
    rw [List.cons_append,consumed,if_pos (by simp),ih,List.length_cons]
    omega

theorem consumed_skip (front stream : List α) : consumed terminator stream ≤ consumed terminator (front ++ stream) := by
  induction front with
  | nil => exact le_refl _
  | cons a front ih =>
    rw [List.cons_append,consumed]
    split
    · exact Nat.le_succ_of_le ih
    · rename_i free
      rw [consumed_free fun member => free (List.mem_cons_of_mem a (List.mem_append_right front member))]

theorem consumed_lost (some_left : rest ≠ []) (ends : terminator ∈ rest ++ stream) :
    consumed terminator stream < consumed terminator (rest ++ stream) := by
  cases rest with
  | nil => exact absurd rfl some_left
  | cons a rest =>
    rw [List.cons_append] at ends ⊢
    rw [consumed,if_pos ends]
    exact Nat.lt_succ_of_le (consumed_skip rest stream)

end Consumed

-- A stream holds no terminator, or a line and a shorter stream behind it.
theorem line_induction {motive : List α → Prop} (none_left : ∀ stream, terminator ∉ stream → motive stream)
    (line : ∀ left rest, terminator ∉ left → motive rest → motive (left ++ terminator :: rest)) (stream : List α) :
    motive stream := by
  induction size : stream.length using Nat.strong_induction_on generalizing stream with
  | _ n ih =>
    by_cases ends : terminator ∈ stream
    · obtain ⟨left,rest,rfl,free⟩ := List.eq_append_cons_of_mem ends
      exact line left rest free (ih rest.length (by rw [← size]; simp; omega) rest rfl)
    · exact none_left stream ends

theorem lines_weight (stream : List α) : weight (lines terminator stream) = consumed terminator stream := by
  induction stream using @line_induction _ _ terminator with
  | none_left stream free =>
    rw [lines_free free,consumed_free free]
    rfl
  | line left rest free ih =>
    rw [lines_line free,consumed_line,← ih]
    rfl

theorem assemble_weight (free : terminator ∉ pending) (chunks : List (List α)) :
    weight (assemble terminator pending chunks) ≤ consumed terminator (pending ++ chunks.flatten) := by
  induction chunks generalizing pending with
  | nil => exact Nat.zero_le _
  | cons chunk later ih =>
    rw [List.flatten_cons]
    by_cases ends : terminator ∈ chunk
    · obtain ⟨left,rest,rfl,clean⟩ := List.eq_append_cons_of_mem ends
      have behind := ih List.not_mem_nil
      have skipped : consumed terminator later.flatten ≤ consumed terminator (rest ++ later.flatten) := consumed_skip _ _
      rw [assemble_line clean,List.append_assoc,List.cons_append,← List.append_assoc,consumed_line]
      change (pending ++ left).length + 1 + weight (assemble terminator [] later) ≤ _
      rw [List.nil_append] at behind
      omega
    · have joined : terminator ∉ pending ++ chunk := by simp [free,ends]
      rw [assemble_free ends,← List.append_assoc]
      exact ih joined

theorem assemble_free_all (free : terminator ∉ chunks.flatten) (pending : List α) :
    assemble terminator pending chunks = [] := by
  induction chunks generalizing pending with
  | nil => rfl
  | cons chunk later ih =>
    rw [List.flatten_cons,List.mem_append,not_or] at free
    rw [assemble_free free.1]
    exact ih free.2 _

theorem assemble_iff (free : terminator ∉ pending) (chunks : List (List α)) :
    assemble terminator pending chunks = lines terminator (pending ++ chunks.flatten) ↔ Parted terminator chunks := by
  induction chunks generalizing pending with
  | nil =>
    rw [List.flatten_nil,List.append_nil,lines_free free]
    exact iff_of_true rfl trivial
  | cons chunk later ih =>
    rw [List.flatten_cons]
    by_cases ends : terminator ∈ chunk
    · obtain ⟨left,rest,rfl,clean⟩ := List.eq_append_cons_of_mem ends
      have whole : terminator ∉ pending ++ left := by simp [free,clean]
      have behind := ih List.not_mem_nil
      rw [List.nil_append] at behind
      rw [assemble_line clean,List.append_assoc,List.cons_append,← List.append_assoc,lines_line whole,List.cons_inj_right,
        parted_line clean]
      by_cases done : rest = []
      · rw [done,List.nil_append,behind]
        exact (and_iff_right (.inl rfl)).symm
      · by_cases more : terminator ∈ rest ++ later.flatten
        · -- The rest of the chunk is lost, so the lines that follow are shorter by it.
          refine iff_of_false (fun same => ?_) (fun fine => (fine.1.resolve_left done) more)
          have lost := consumed_lost done more
          have most : weight (assemble terminator [] later) ≤ consumed terminator later.flatten :=
            assemble_weight List.not_mem_nil later
          rw [same,lines_weight] at most
          omega
        · have clear : terminator ∉ later.flatten := fun member => more (List.mem_append_right rest member)
          rw [assemble_free_all clear,lines_free more]
          exact iff_of_true rfl ⟨.inr more,parted_free clear⟩
    · have joined : terminator ∉ pending ++ chunk := by simp [free,ends]
      rw [assemble_free ends,← List.append_assoc,ih joined,parted_skip ends]

section Counts

theorem lines_count (stream : List α) : (lines terminator stream).length = stream.count terminator := by
  induction stream using @line_induction _ _ terminator with
  | none_left stream free => rw [lines_free free,List.count_eq_zero_of_not_mem free,List.length_nil]
  | line left rest free ih =>
    rw [lines_line free,List.length_cons,ih,List.count_append,List.count_eq_zero_of_not_mem free,List.count_cons_self,
      Nat.zero_add]

theorem assemble_count (pending : List α) (chunks : List (List α)) :
    (assemble terminator pending chunks).length ≤ chunks.flatten.count terminator := by
  induction chunks generalizing pending with
  | nil => exact Nat.zero_le _
  | cons chunk later ih =>
    rw [assemble,List.flatten_cons,List.count_append]
    split
    · rename_i ends
      have some_end := List.count_pos_iff.mpr ends
      have behind := ih []
      rw [List.length_cons]
      omega
    · have behind := ih (pending ++ chunk)
      omega

-- No more lines are assembled than there are, so a line that is not returned from, or
-- lost, is missed.
theorem served_assemble_iff (free : terminator ∉ pending) (chunks : List (List α)) (returns : Nat → List α → Bool) :
    served returns (assemble terminator pending chunks) = lines terminator (pending ++ chunks.flatten) ↔
      Parted terminator chunks ∧ Answered returns (lines terminator (pending ++ chunks.flatten)) := by
  constructor
  · intro same
    have part := served_prefix returns (assemble terminator pending chunks)
    have most := @assemble_count _ _ terminator pending chunks
    have whole := @lines_count _ _ terminator (pending ++ chunks.flatten)
    rw [List.count_append,List.count_eq_zero_of_not_mem free,Nat.zero_add,← same] at whole
    have all := part.eq_of_length (Nat.le_antisymm part.length_le (by omega))
    have parted := (assemble_iff free chunks).mp (all.symm.trans same)
    rw [← (assemble_iff free chunks).mpr parted,← served_iff]
    exact ⟨parted,all⟩
  · rintro ⟨parted,answered⟩
    rw [(assemble_iff free chunks).mpr parted]
    exact (served_iff _ _).mpr answered

end Counts

theorem short_suffix (front : List α) (short : Short terminator limit (front ++ stream)) :
    Short terminator limit stream := by
  induction front with
  | nil => exact short
  | cons a front ih =>
    refine ih fun part member => ?_
    unfold Short at short
    rw [List.cons_append,List.splitOn_cons_eq_if_modifyHead] at short
    split at short
    · exact short part (List.mem_cons_of_mem _ member)
    · generalize (front ++ stream).splitOn terminator = parts at short member
      cases parts with
      | nil => cases member
      | cons first parts =>
        rw [List.modifyHead_cons,List.forall_mem_cons] at short
        rcases List.mem_cons.mp member with rfl | later
        · exact Nat.lt_of_succ_lt short.1
        · exact short.2 part later

theorem short_start (free : terminator ∉ left) (short : Short terminator limit (left ++ stream)) :
    left.length < limit := by
  by_cases ends : terminator ∈ stream
  · obtain ⟨middle,rest,rfl,clean⟩ := List.eq_append_cons_of_mem ends
    have whole : terminator ∉ left ++ middle := by simp [free,clean]
    rw [Short,← List.append_assoc,List.splitOn_append_cons_self_of_not_mem whole] at short
    have first := short (left ++ middle) List.mem_cons_self
    rw [List.length_append] at first
    omega
  · have whole : terminator ∉ left ++ stream := by simp [free,ends]
    rw [Short,List.splitOn_eq_singleton whole] at short
    have first := short (left ++ stream) List.mem_cons_self
    rw [List.length_append] at first
    omega

end EspOwl.Lines
