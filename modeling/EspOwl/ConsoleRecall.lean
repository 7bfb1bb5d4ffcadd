import EspOwl.ConsoleLines
import EspOwl.HistoryRing

namespace EspOwl.ConsoleRecall
open HistoryRing CommandLine ConsoleLines

-- The states of the task between two reads. A restart begins anew.
inductive ConsoleReached : Console → Prop where
  | start (mem : Console) : ConsoleReached (startConsole mem)
  | event {read : List UInt8} (prior : ConsoleReached console) (some_bytes : read ≠ []) (fits : read.length ≤ bufSize - 1)
      (going : (uartEvent around read console).ended = false) : ConsoleReached (uartEvent around read console).console

-- A line in the history is a string that an 8-bit length has bounded.
def Line (entry : List UInt8) : Prop := 0 ∉ entry ∧ entry.length ≤ 255

structure Remembers (console : Console) (entries : List (List UInt8)) : Prop where
  keeps : Keeps console.commandHistory entries
  lines : ∀ entry ∈ entries, Line entry

section Step
variable {console : Console} {entries : List (List UInt8)}

theorem put_lines (lines : ∀ entry ∈ entries, Line entry) (line : Line value) :
    ∀ entry ∈ (listCall entries (.put value)).2, Line entry := by
  intro entry member
  rw [listCall] at member
  split at member <;> rcases List.mem_append.mp member with old | new
  · exact lines entry old
  · exact List.mem_singleton.mp new ▸ line
  · exact lines entry (List.mem_of_mem_tail old)
  · exact List.mem_singleton.mp new ▸ line

theorem finished_line (command : CharArray bufSize) (commandLen : UInt8) :
    Line ((command.bytes.take commandLen.toNat).takeWhile (· ≠ 0)) := by
  refine ⟨fun zero => by simpa using List.mem_takeWhile_imp zero,?_⟩
  have short := (List.takeWhile_prefix (· ≠ 0) (l := command.bytes.take commandLen.toNat)).length_le
  have little := commandLen.toNat_lt
  rw [List.length_take] at short
  omega

theorem append_remembers (before : Remembers console entries) (around : CmdSurroundings) (read : List UInt8) :
    ∃ later, Remembers (appendRead around read console).console later := by
  rw [appendRead]
  split
  · exact ⟨_,(put_keeps before.keeps _).2,put_lines before.lines (finished_line _ _)⟩
  · exact ⟨entries,before.keeps,before.lines⟩

-- Only a finished line changes the history.
theorem event_remembers (before : Remembers console entries) (around : CmdSurroundings) (read : List UInt8) :
    ∃ later, Remembers (uartEvent around read console).console later := by
  have same : ∀ other : Console, other.commandHistory = console.commandHistory → Remembers other entries := by
    intro other shared
    exact ⟨shared ▸ before.keeps,before.lines⟩
  rw [uartEvent]
  dsimp only
  split
  · exact ⟨entries,same _ rfl⟩
  · exact ⟨entries,same _ rfl⟩
  · split
    · exact ⟨entries,same _ rfl⟩
    · exact ⟨entries,same _ rfl⟩
  · exact ⟨entries,same _ rfl⟩
  · rw [recallCommand]
    split
    · exact ⟨entries,same _ rfl⟩
    · exact ⟨entries,same _ rfl⟩
  · exact append_remembers (same {console with data := console.data.overwrite read} rfl) around read

end Step

theorem reached_remembers (reached : ConsoleReached console) : ∃ entries, Remembers console entries := by
  induction reached with
  | start mem => exact ⟨[],init_keeps mem.commandHistory,List.forall_mem_nil _⟩
  | event _ _ _ _ ih =>
    obtain ⟨entries,before⟩ := ih
    exact event_remembers before _ _

section Recall
variable {console : Console} {newest : List UInt8}

def upArrow (more : List UInt8) : List UInt8 := 27 :: 91 :: 65 :: more

-- The string that strlen measures ends inside command, and is the line.
structure Recalled (after : Console) (newest : List UInt8) : Prop where
  ends : 0 ∈ after.command.bytes
  line : after.command.bytes.take after.commandLen.toNat = newest

-- Behind the recalled bytes a terminator follows, at once or after whole multiples
-- of what the 8-bit length can count.
structure Terminated (command : CharArray bufSize) (length : Nat) : Prop where
  ends : 0 ∈ command.bytes.drop length
  wraps : ((command.bytes.drop length).takeWhile (· ≠ 0)).length % 256 = 0

theorem up_recalls (around : CmdSurroundings) (console : Console) (more : List UInt8)
    (newest : getRingBufferIndex console.commandHistory 0 = entry) :
    ∃ data, (uartEvent around (upArrow more) console).console = {console with
      data := data
      command := console.command.overwrite entry
      commandLen := UInt8.ofNat (console.command.overwrite entry).strlen} := by
  have first : (console.data.overwrite (upArrow more)).bytes.getD 0 0 = 27 := rfl
  have second : (console.data.overwrite (upArrow more)).bytes.getD 1 0 = 91 := rfl
  have third : (console.data.overwrite (upArrow more)).bytes.getD 2 0 = 65 := rfl
  refine ⟨console.data.overwrite (upArrow more),?_⟩
  simp only [uartEvent,first,recallCommand,second,third,and_self,if_true,newest]

theorem line_fits (line : Line newest) : newest.length ≤ bufSize := line.2.trans (by decide)

theorem text_behind (command : CharArray bufSize) (line : Line newest) :
    (command.overwrite newest).text = newest ++ (command.bytes.drop newest.length).takeWhile (· ≠ 0) := by
  rw [CharArray.text,command.overwrite_bytes (line_fits line),List.takeWhile_append_of_pos]
  intro b member
  have other : b ≠ 0 := ne_of_mem_of_not_mem member line.1
  simpa using other

theorem recall_length (command : CharArray bufSize) (line : Line newest) :
    (UInt8.ofNat (command.overwrite newest).strlen).toNat =
      (newest.length + ((command.bytes.drop newest.length).takeWhile (· ≠ 0)).length) % 256 := by
  rw [CharArray.strlen,text_behind _ line,List.length_append,UInt8.toNat_ofNat']

theorem recall_ends (command : CharArray bufSize) (line : Line newest) :
    0 ∈ (command.overwrite newest).bytes ↔ 0 ∈ command.bytes.drop newest.length := by
  rw [command.overwrite_bytes (line_fits line),List.mem_append]
  exact or_iff_right line.1

theorem terminated_iff (command : CharArray bufSize) (line : Line newest) : Terminated command newest.length ↔
    0 ∈ (command.overwrite newest).bytes ∧ (UInt8.ofNat (command.overwrite newest).strlen).toNat = newest.length := by
  rw [recall_ends command line,recall_length command line]
  have short := line.2
  constructor
  · rintro ⟨ends,wraps⟩
    exact ⟨ends,by omega⟩
  · rintro ⟨ends,same⟩
    exact ⟨ends,by omega⟩

theorem recalled_iff (line : Line newest) (after : Console) (command : after.command = console.command.overwrite newest)
    (commandLen : after.commandLen = UInt8.ofNat (console.command.overwrite newest).strlen) :
    Recalled after newest ↔ Terminated console.command newest.length := by
  have laid := console.command.overwrite_bytes (line_fits line)
  have count : after.command.bytes.take after.commandLen.toNat = newest ↔ after.commandLen.toNat = newest.length := by
    rw [command,laid]
    constructor
    · intro same
      have lengths := congrArg List.length same
      have whole := congrArg List.length laid
      rw [CharArray.size] at whole
      rw [List.length_take,← whole,bufSize] at lengths
      have little := after.commandLen.toNat_lt
      omega
    · intro same
      rw [same,List.take_left]
  rw [terminated_iff _ line,← commandLen,← command,← count]
  exact ⟨fun recalled => ⟨recalled.ends,recalled.line⟩,fun both => ⟨both.1,both.2⟩⟩

end Recall

theorem newest_entry (before : Remembers console entries) :
    getRingBufferIndex console.commandHistory 0 = entries.getLastD [] := by
  have size := before.keeps.size
  rcases entries.eq_nil_or_concat' with rfl | ⟨earlier,last,rfl⟩
  · exact index_outside _ (.inl (by rw [size]; exact le_rfl))
  · rw [List.length_append,List.length_singleton] at size
    have read := slotRead_recent before.keeps (le_refl 0) (by omega)
    rw [index_inside _ (by omega) (by omega)]
    simpa using read.symm

theorem newest_line (before : Remembers console entries) : Line (entries.getLastD []) := by
  rcases entries.eq_nil_or_concat' with rfl | ⟨earlier,last,rfl⟩
  · exact ⟨List.not_mem_nil,Nat.zero_le _⟩
  · rw [List.getLastD_concat]
    exact before.lines last (by simp)

theorem current_line (before : Remembers console entries) : Line (getRingBufferIndex console.commandHistory 0) := by
  rw [newest_entry before]
  exact newest_line before

-- An up-arrow from any state that the task can be in.
theorem recall_exact_iff (reached : ConsoleReached console) (around : CmdSurroundings) (more : List UInt8) :
    ∃ entries, Keeps console.commandHistory entries ∧
      (Recalled (uartEvent around (upArrow more) console).console (entries.getLastD []) ↔
        Terminated console.command (entries.getLastD []).length) := by
  obtain ⟨entries,before⟩ := reached_remembers reached
  obtain ⟨data,after⟩ := up_recalls around console more (newest_entry before)
  refine ⟨entries,before.keeps,?_⟩
  rw [after]
  exact recalled_iff (newest_line before) _ rfl rfl

-- "l" is in the history with its carriage return, and "abc" is pending.
def mixedConsole : Console :=
  (uartEvent quietSurroundings [97,98,99] (uartEvent quietSurroundings [108,13] (startConsole blankConsole)).console).console

theorem mixed_reached : ConsoleReached mixedConsole :=
  .event (.event (.start _) (by decide) (by decide) (by decide +kernel)) (by decide) (by decide) (by decide +kernel)

theorem recall_exact_mixed : ConsoleReached mixedConsole ∧ ∃ entries, Keeps mixedConsole.commandHistory entries ∧
    (Recalled (uartEvent quietSurroundings (upArrow []) mixedConsole).console (entries.getLastD []) ↔
      Terminated mixedConsole.command (entries.getLastD []).length) :=
  ⟨mixed_reached,recall_exact_iff mixed_reached quietSurroundings []⟩

theorem recall_mixed : ¬ ∀ console, ConsoleReached console → ∀ entries, Keeps console.commandHistory entries →
    ∀ around, Recalled (uartEvent around (upArrow []) console).console (entries.getLastD []) := by
  intro always
  obtain ⟨entries,before⟩ := reached_remembers mixed_reached
  have shown := (always mixedConsole mixed_reached entries before.keeps quietSurroundings).line
  rw [← newest_entry before] at shown
  revert shown
  decide +kernel

end EspOwl.ConsoleRecall
