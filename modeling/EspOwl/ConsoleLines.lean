import EspOwl.Console

namespace EspOwl.ConsoleLines
open Lines CommandLine

-- Printable characters and carriage returns.
def Typed (b : UInt8) : Prop := b = 13 ∨ 32 ≤ b ∧ b ≤ 126

-- The bytes of the line that has not ended yet.
structure Pending (pending : List UInt8) (console : Console) : Prop where
  count : console.commandLen.toNat = pending.length
  held : console.command.bytes.take pending.length = pending

section Round
variable {console : Console} {pending read left rest : List UInt8}

-- No typed byte is one of the special keys.
theorem typed_appends (some_bytes : read ≠ []) (typed : ∀ b ∈ read, Typed b) (around : CmdSurroundings)
    (console : Console) :
    uartEvent around read console = appendRead around read {console with data := console.data.overwrite read} := by
  obtain ⟨b,read,rfl⟩ := List.exists_cons_of_ne_nil some_bytes
  have first : (console.data.overwrite (b :: read)).bytes.getD 0 0 = b := rfl
  have plain : b ≠ 3 ∧ b ≠ 18 ∧ b ≠ 127 ∧ b ≠ 23 ∧ b ≠ 27 := by
    rcases typed b List.mem_cons_self with rfl | ⟨low,high⟩
    · decide
    · refine ⟨?_,?_,?_,?_,?_⟩ <;> rintro rfl <;> revert low high <;> decide
  obtain ⟨clear,restart,backspace,word,escape⟩ := plain
  simp only [uartEvent,first]

theorem written_start (before : Pending pending console) (fits : pending.length + front.length ≤ bufSize) (tail : List UInt8) :
    ∃ behind, (console.command.overwriteAt console.commandLen.toNat (front ++ tail)).bytes = pending ++ front ++ behind := by
  refine ⟨(tail ++ console.command.bytes.drop (pending.length + (front ++ tail).length)).take
    (bufSize - (pending.length + front.length)),?_⟩
  rw [CharArray.overwriteAt,before.count]
  dsimp only
  rw [before.held,List.append_assoc,List.append_assoc,← List.append_assoc,List.take_append,List.take_of_length_le,
    List.length_append]
  · rw [List.length_append]
    exact fits

-- Bytes without a line end join the pending ones.
theorem append_free (before : Pending pending console) (free : 13 ∉ read) (short : (pending ++ read).length < 200)
    (around : CmdSurroundings) : ∃ after, appendRead around read console = ⟨after,[],false⟩ ∧ Pending (pending ++ read) after := by
  rw [appendRead,if_neg free]
  rw [List.length_append] at short
  refine ⟨_,rfl,?_,?_⟩
  · have count := before.count
    simp only [UInt8.toNat_add,UInt8.toNat_ofNat',List.length_append]
    omega
  · have fits : pending.length + read.length ≤ bufSize := by rw [bufSize]; omega
    obtain ⟨behind,laid⟩ := written_start before fits []
    rw [List.append_nil] at laid
    dsimp only
    rw [laid,List.take_left]

-- The first line end of a read hands over the line, and nothing of the read is kept.
theorem append_line (before : Pending pending console) (typed : ∀ b ∈ pending ++ left, b ≠ 0 ∧ b ≠ 10 ∧ b ≠ 13)
    (short : (pending ++ left).length < 200) (rest : List UInt8) (around : CmdSurroundings) :
    ∃ after, appendRead around (left ++ 13 :: rest) console =
      ⟨after,[pending ++ left],!mainCmdReturns around (pending ++ left)⟩ ∧ Pending [] after := by
  rw [appendRead,if_pos (by simp)]
  rw [List.length_append] at short
  have fits : pending.length + (left ++ [13]).length ≤ bufSize := by
    rw [bufSize,List.length_append]
    change _ + (_ + 1) ≤ _
    omega
  obtain ⟨behind,laid⟩ := written_start before fits rest
  have text : mainCmdLine (console.command.overwriteAt console.commandLen.toNat (left ++ 13 :: rest)) = pending ++ left := by
    have bytes : (console.command.overwriteAt console.commandLen.toNat (left ++ 13 :: rest)).bytes =
        (pending ++ left) ++ 13 :: behind := by
      simpa only [List.append_assoc,List.singleton_append,List.cons_append,List.nil_append] using laid
    rw [mainCmdLine,CharArray.text,bytes,List.takeWhile_append_of_pos,List.takeWhile_append_of_pos]
    · rw [List.takeWhile_cons_of_pos (by decide),List.takeWhile_cons_of_neg (by decide),List.append_nil]
    · intro b member
      obtain ⟨_,feed,ending⟩ := typed b member
      simp [feed,ending]
    · intro b member
      simpa using (typed b member).1
  dsimp only
  rw [text]
  exact ⟨_,rfl,rfl,rfl⟩

end Round

theorem typed_line (typed : Typed b) (other : b ≠ 13) : b ≠ 0 ∧ b ≠ 10 ∧ b ≠ 13 := by
  rcases typed with rfl | ⟨low,_⟩
  · exact absurd rfl other
  · refine ⟨?_,?_,other⟩ <;> rintro rfl <;> exact absurd low (by decide)

-- The task is the reader that drops what a read holds behind its first line end, up to
-- a line that main_cmd does not return from.
theorem task_assembles (before : Pending pending console) (free : 13 ∉ pending) (some_bytes : ∀ read ∈ reads, read ≠ [])
    (typed : ∀ b ∈ pending ++ reads.flatten, Typed b) (short : Short 13 200 (pending ++ reads.flatten))
    (around : Nat → CmdSurroundings) :
    uartEventTask around reads console = served (fun k => mainCmdReturns (around k)) (assemble 13 pending reads) := by
  induction reads generalizing pending console around with
  | nil => rfl
  | cons read later ih =>
    rw [List.forall_mem_cons] at some_bytes
    rw [List.flatten_cons] at typed short
    have here : ∀ b ∈ read, Typed b := fun b member => typed b (by simp [member])
    have seen : Pending pending {console with data := console.data.overwrite read} := ⟨before.count,before.held⟩
    rw [uartEventTask,typed_appends some_bytes.1 here]
    by_cases ends : 13 ∈ read
    · obtain ⟨left,rest,rfl,clean⟩ := List.eq_append_cons_of_mem ends
      have whole : 13 ∉ pending ++ left := by simp [free,clean]
      have plain : ∀ b ∈ pending ++ left, b ≠ 0 ∧ b ≠ 10 ∧ b ≠ 13 := by
        intro b member
        refine typed_line (typed b ?_) fun same => whole (same ▸ member)
        simp only [List.mem_append] at member ⊢
        rcases member with old | new
        · exact .inl old
        · exact .inr (.inl (.inl new))
      have parts : Short 13 200 (pending ++ left ++ (13 :: rest ++ later.flatten)) := by
        simpa only [List.append_assoc] using short
      have limit : (pending ++ left).length < 200 := short_start whole parts
      obtain ⟨after,handed,start⟩ := append_line seen plain limit rest (around 0)
      rw [handed,assemble_line clean,served]
      dsimp only
      rw [List.singleton_append]
      cases returned : mainCmdReturns (around 0) (pending ++ left) with
      | false => rfl
      | true =>
        simp only [Bool.not_true,Bool.false_eq_true,if_false,if_true,List.length_singleton]
        rw [ih start List.not_mem_nil some_bytes.2]
        · intro b member
          exact typed b (by simp only [List.nil_append] at member; simp [member])
        · refine short_suffix (pending ++ (left ++ 13 :: rest)) ?_
          simpa only [List.append_assoc,List.nil_append] using short
    · have joined : 13 ∉ pending ++ read := by simp [free,ends]
      rw [← List.append_assoc] at typed short
      obtain ⟨after,kept,start⟩ := append_free seen ends (short_start joined short) (around 0)
      rw [kept,assemble_free ends]
      simp only [Bool.false_eq_true,if_false,List.nil_append,List.length_nil,Nat.add_zero]
      exact ih start joined some_bytes.2 typed short around

-- A stream of typed bytes with short lines, as the driver may deliver it.
structure Reads (reads : List (List UInt8)) : Prop where
  some_bytes : ∀ read ∈ reads, read ≠ []
  fits : ∀ read ∈ reads, read.length ≤ bufSize - 1
  typed : ∀ b ∈ reads.flatten, Typed b
  short : Short 13 200 reads.flatten

def blankConsole : Console := ⟨⟨fun _ => [],0,0,0⟩,default,0,default⟩

def quietSurroundings : CmdSurroundings := ⟨none,false,fun _ => true⟩

-- A line of one blank is the last one.
example : uartEventTask (fun _ => quietSurroundings) [[32,13],[97,13]] (startConsole blankConsole) = [[32]] := by
  decide +kernel

end EspOwl.ConsoleLines
