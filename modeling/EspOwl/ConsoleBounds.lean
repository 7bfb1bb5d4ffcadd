import EspOwl.ConsoleRecall

namespace EspOwl.ConsoleBounds
open CommandLine ConsoleLines ConsoleRecall

-- What a turn of the loop does to its buffers: bytes of command written, a byte of
-- command that trim_command reads, a strlen of command, bytes of an allocation of so
-- many written.
inductive Access where
  | command (first count : Nat)
  | trim (i : Int)
  | strlen (array : CharArray bufSize)
  | entry (size first count : Nat)

def Access.Inside : Access → Prop
  | .command first count => first + count ≤ bufSize
  | .trim i => 0 ≤ i
  | .strlen array => 0 ∈ array.bytes
  | .entry size first count => first + count ≤ size

-- The indices from high down to low.
def downTo (high low : Int) : List Int := (List.range (high - low + 1).toNat).map fun (k : Nat) => high - (k : Int)

-- Both scans of trim_command, the blanks in front of the word, and the blank that is
-- written last. The first scan looks for a byte that is not blank also in front of command.
def trimAccesses (command : List UInt8) : List Access :=
  if command = [] then []
  else
    let trimmed := command.rdropWhile (· = 32)
    let words := trimmed.rdropWhile (· ≠ 32)
    let front := words.rdropWhile (· = 32)
    (downTo (command.length - 1) (trimmed.length - 1)).map .trim ++
      if words = [] then (downTo (trimmed.length - 1) 0).map .trim
      else (downTo (trimmed.length - 1) (words.length - 1)).map .trim ++
        (downTo (words.length - 2) (max (front.length - 1) 0)).map .trim ++ [.command front.length 1]

-- ESC [ A, the first byte of which has been seen.
abbrev recalls (console : Console) : Prop := console.data.bytes.getD 1 0 = 91 ∧ console.data.bytes.getD 2 0 = 65

def recallAccesses (console : Console) : List Access :=
  if recalls console then
    let newCommand := getRingBufferIndex console.commandHistory 0
    [.command 0 newCommand.length,.strlen (console.command.overwrite newCommand)]
  else []

-- malloc(command_len), and the terminator behind what is copied.
def appendAccesses (read : List UInt8) (console : Console) : List Access :=
  let commandLen := console.commandLen + UInt8.ofNat read.length
  .command console.commandLen.toNat read.length ::
    if 13 ∈ read then
      [.entry commandLen.toNat 0 commandLen.toNat,.entry commandLen.toNat commandLen.toNat 1,.command 0 bufSize]
    else []

def uartAccesses (read : List UInt8) (console : Console) : List Access :=
  let console := {console with data := console.data.overwrite read}
  match console.data.bytes.getD 0 0 with
  | 3 => [.command 0 bufSize]
  | 18 => []
  | 127 => if console.commandLen > 0 then [.command (console.commandLen - 1).toNat 1] else []
  | 23 => trimAccesses (console.command.bytes.take console.commandLen.toNat)
  | 27 => recallAccesses console
  | _ => appendAccesses read console

-- The line as it is being edited, whatever its length.
def pendingAfter (read : List UInt8) (console : Console) (pending : List UInt8) : List UInt8 :=
  let console := {console with data := console.data.overwrite read}
  match console.data.bytes.getD 0 0 with
  | 3 => []
  | 18 => pending
  | 127 => pending.dropLast
  | 23 => pending.take (trimCommand pending)
  | 27 => if recalls console then getRingBufferIndex console.commandHistory 0 else pending
  | _ => if 13 ∈ read then [] else pending ++ read

structure Kept (around : CmdSurroundings) (read : List UInt8) (console : Console) (pending : List UInt8) : Prop where
  accesses : ∀ access ∈ uartAccesses read console, access.Inside
  count : (uartEvent around read console).console.commandLen.toNat = (pendingAfter read console pending).length

-- The reads that keep clear of the slips.
def Spared (read : List UInt8) (console : Console) : Prop :=
  let console := {console with data := console.data.overwrite read}
  match console.data.bytes.getD 0 0 with
  | 3 => True
  | 18 => True
  | 127 => True
  | 23 => console.commandLen = 0 ∨ ∃ b ∈ console.command.bytes.take console.commandLen.toNat, b ≠ 32
  | 27 => recalls console → Terminated console.command (getRingBufferIndex console.commandHistory 0).length
  | _ => 13 ∉ read ∧ console.commandLen.toNat + read.length ≤ 255

section Trim
variable {command : List UInt8}

theorem downTo_low {high low i : Int} (member : i ∈ downTo high low) : low ≤ i := by
  obtain ⟨k,inside,rfl⟩ := List.mem_map.mp member
  rw [List.mem_range] at inside
  omega

theorem scan_inside (high : Int) {low : Int} (front : 0 ≤ low) :
    ∀ access ∈ (downTo high low).map Access.trim, access.Inside := by
  intro access member
  obtain ⟨i,listed,rfl⟩ := List.mem_map.mp member
  exact front.trans (downTo_low listed)

theorem rdrop_length (p : UInt8 → Bool) (bytes : List UInt8) : (bytes.rdropWhile p).length ≤ bytes.length :=
  (List.rdropWhile_prefix p bytes).length_le

theorem blanks_left (command : List UInt8) : command.rdropWhile (· = 32) = [] ↔ ∀ b ∈ command, b = 32 := by
  simp [List.rdropWhile_eq_nil_iff]

-- A scan that stopped at a blank found one.
theorem front_shorter (words : command.rdropWhile (· ≠ 32) ≠ []) :
    ((command.rdropWhile (· ≠ 32)).rdropWhile (· = 32)).length < (command.rdropWhile (· ≠ 32)).length := by
  have blank := List.rdropWhile_last_not _ _ words
  refine lt_of_le_of_ne (rdrop_length _ _) fun same => ?_
  have whole := (List.rdropWhile_prefix _ _).eq_of_length same
  exact blank (by simpa using List.rdropWhile_eq_self_iff.mp whole words)

theorem words_inside (command : List UInt8) :
    ((command.rdropWhile (· = 32)).rdropWhile (· ≠ 32)).length ≤ (command.rdropWhile (· = 32)).length ∧
      (command.rdropWhile (· = 32)).length ≤ command.length :=
  ⟨rdrop_length _ _,rdrop_length _ _⟩

theorem trim_shorter (command : List UInt8) : trimCommand command ≤ command.length := by
  rw [trimCommand]
  split
  · exact Nat.zero_le _
  · rename_i words
    have front := front_shorter words
    have inside := words_inside command
    omega

theorem trim_inside (command : List UInt8) (short : command.length ≤ 255) :
    (∀ access ∈ trimAccesses command, access.Inside) ↔ command = [] ∨ ∃ b ∈ command, b ≠ 32 := by
  rw [trimAccesses]
  split
  · rename_i nothing
    exact iff_of_true (List.forall_mem_nil _) (.inl nothing)
  · rename_i some_bytes
    rw [or_iff_right some_bytes]
    by_cases blank : command.rdropWhile (· = 32) = []
    · refine iff_of_false (fun inside => ?_) ?_
      · have before : Access.trim (-1) ∈ (downTo (command.length - 1) ((command.rdropWhile (· = 32)).length - 1)).map .trim := by
          rw [blank]
          exact List.mem_map_of_mem (List.mem_map.mpr ⟨command.length,by simp,by omega⟩)
        have low : (0 : Int) ≤ -1 := inside _ (List.mem_append_left _ before)
        exact absurd low (by decide)
      · rw [blanks_left] at blank
        rintro ⟨b,member,other⟩
        exact other (blank b member)
    · have found : ∃ b ∈ command, b ≠ 32 := by
        by_contra missing
        refine blank ((blanks_left _).mpr fun b member => ?_)
        by_contra other
        exact missing ⟨b,member,other⟩
      refine iff_of_true ?_ found
      have last : 0 < (command.rdropWhile (· = 32)).length := List.length_pos_iff.mpr blank
      have first := scan_inside (command.length - 1) (by omega : 0 ≤ ((command.rdropWhile (· = 32)).length : Int) - 1)
      refine List.forall_mem_append.mpr ⟨first,?_⟩
      split
      · exact scan_inside _ (le_refl 0)
      · rename_i words
        have front := front_shorter words
        have inside := words_inside command
        refine List.forall_mem_append.mpr ⟨List.forall_mem_append.mpr ⟨scan_inside _ (by omega),scan_inside _ (by omega)⟩,?_⟩
        refine List.forall_mem_singleton.mpr ?_
        change _ + 1 ≤ 1024
        omega

end Trim

section Turn
variable {console : Console} {pending read : List UInt8} {entries : List (List UInt8)}

theorem pending_short (before : Pending pending console) : pending.length ≤ 255 := by
  have little := console.commandLen.toNat_lt
  rw [← before.count]
  omega

theorem plain_count (before : Pending pending console) (read : List UInt8) :
    (console.commandLen + UInt8.ofNat read.length).toNat = (pending ++ read).length ↔
      console.commandLen.toNat + read.length ≤ 255 := by
  have count := before.count
  simp only [UInt8.toNat_add,UInt8.toNat_ofNat',List.length_append]
  omega

theorem append_kept_iff (before : Pending pending console) (around : CmdSurroundings) (read : List UInt8) :
    ((∀ access ∈ appendAccesses read console, access.Inside) ∧
      (appendRead around read console).console.commandLen.toNat = (if 13 ∈ read then [] else pending ++ read).length) ↔
      13 ∉ read ∧ console.commandLen.toNat + read.length ≤ 255 := by
  by_cases ends : 13 ∈ read
  · -- The terminator of the copied line lies one byte behind the allocation.
    refine iff_of_false (fun both => ?_) (fun spared => spared.1 ends)
    have past := both.1 (.entry (console.commandLen + UInt8.ofNat read.length).toNat
      (console.commandLen + UInt8.ofNat read.length).toNat 1) (by simp [appendAccesses,ends])
    exact absurd past (Nat.not_succ_le_self _)
  · have count := plain_count before read
    simp only [appendAccesses,appendRead,ends,if_false,not_false_eq_true,true_and,List.forall_mem_singleton]
    rw [count]
    refine and_iff_right_of_imp fun fits => ?_
    change _ ≤ 1024
    omega

theorem recall_kept_iff (before : Pending pending console) (remembers : Remembers console entries) :
    ((∀ access ∈ recallAccesses console, access.Inside) ∧ (recallCommand console).commandLen.toNat =
      (if recalls console then getRingBufferIndex console.commandHistory 0 else pending).length) ↔
      (recalls console → Terminated console.command (getRingBufferIndex console.commandHistory 0).length) := by
  have line := current_line remembers
  unfold recallAccesses recallCommand
  by_cases key : recalls console
  · rw [if_pos key,if_pos key,if_pos key,terminated_iff _ line]
    have inside : (Access.command 0 (getRingBufferIndex console.commandHistory 0).length).Inside := by
      have short := line.2
      change 0 + _ ≤ 1024
      omega
    rw [List.forall_mem_cons,List.forall_mem_singleton,and_iff_right inside]
    exact ⟨fun both _ => both,fun both => both key⟩
  · rw [if_neg key,if_neg key,if_neg key]
    exact iff_of_true ⟨List.forall_mem_nil _,before.count⟩ (fun reads => absurd reads key)

def seen (read : List UInt8) (console : Console) : Console := {console with data := console.data.overwrite read}

-- One turn by its first byte: what is left, what is accessed, the line and the condition.
theorem turn_elim {motive : Round → List Access → List UInt8 → Prop → Prop} (around : CmdSurroundings)
    (read : List UInt8) (console : Console) (pending : List UInt8)
    (clear : motive ⟨clearCommand (seen read console),[],false⟩ [.command 0 bufSize] [] True)
    (restart : motive ⟨seen read console,[],true⟩ [] pending True)
    (erase : console.commandLen > 0 → motive
      ⟨{seen read console with
        commandLen := console.commandLen - 1
        command := console.command.overwriteAt (console.commandLen - 1).toNat [0]},[],false⟩
      [.command (console.commandLen - 1).toNat 1] pending.dropLast True)
    (nothing : ¬console.commandLen > 0 → motive ⟨seen read console,[],false⟩ [] pending.dropLast True)
    (word : motive
      ⟨{seen read console with
        commandLen := UInt8.ofNat (trimCommand (console.command.bytes.take console.commandLen.toNat))},[],false⟩
      (trimAccesses (console.command.bytes.take console.commandLen.toNat)) (pending.take (trimCommand pending))
      (console.commandLen = 0 ∨ ∃ b ∈ console.command.bytes.take console.commandLen.toNat, b ≠ 32))
    (escape : motive ⟨recallCommand (seen read console),[],false⟩ (recallAccesses (seen read console))
      (if recalls (seen read console) then getRingBufferIndex console.commandHistory 0 else pending)
      (recalls (seen read console) → Terminated console.command (getRingBufferIndex console.commandHistory 0).length))
    (plain : motive (appendRead around read (seen read console)) (appendAccesses read (seen read console))
      (if 13 ∈ read then [] else pending ++ read) (13 ∉ read ∧ console.commandLen.toNat + read.length ≤ 255)) :
    motive (uartEvent around read console) (uartAccesses read console) (pendingAfter read console pending)
      (Spared read console) := by
  simp only [uartEvent,uartAccesses,pendingAfter,Spared]
  generalize (console.data.overwrite read).bytes.getD 0 0 = key
  by_cases ctrlC : key = 3
  · subst ctrlC
    exact clear
  by_cases ctrlR : key = 18
  · subst ctrlR
    exact restart
  by_cases backspace : key = 127
  · subst backspace
    by_cases some_bytes : console.commandLen > 0
    · simp only [some_bytes,if_true]
      exact erase some_bytes
    · simp only [some_bytes,if_false]
      exact nothing some_bytes
  by_cases ctrlW : key = 23
  · subst ctrlW
    exact word
  by_cases arrow : key = 27
  · subst arrow
    exact escape
  simp only
  exact plain

theorem seen_pending (before : Pending pending console) (read : List UInt8) : Pending pending (seen read console) :=
  ⟨before.count,before.held⟩

theorem seen_remembers (remembers : Remembers console entries) (read : List UInt8) : Remembers (seen read console) entries :=
  ⟨remembers.keeps,remembers.lines⟩

theorem held_line (before : Pending pending console) : console.command.bytes.take console.commandLen.toNat = pending := by
  rw [before.count]
  exact before.held

theorem word_count (before : Pending pending console) :
    (UInt8.ofNat (trimCommand pending)).toNat = (pending.take (trimCommand pending)).length := by
  have short := pending_short before
  have little := trim_shorter pending
  rw [UInt8.toNat_ofNat',List.length_take]
  omega

theorem empty_line (before : Pending pending console) : pending = [] ↔ console.commandLen = 0 := by
  rw [← List.length_eq_zero_iff,← before.count,← UInt8.toNat_inj]
  rfl

theorem nothing_left (before : Pending pending console) (nothing : ¬console.commandLen > 0) : pending = [] := by
  rw [empty_line before,← UInt8.toNat_inj]
  exact Nat.eq_zero_of_not_pos fun positive => nothing (UInt8.lt_iff_toNat_lt.mpr positive)

theorem line_start (before : Pending pending console) (inside : k ≤ pending.length) :
    console.command.bytes.take k = pending.take k := by
  have held := congrArg (List.take k) before.held
  rwa [List.take_take,min_eq_left inside] at held

theorem erased_count (before : Pending pending console) (some_bytes : console.commandLen > 0) :
    (console.commandLen - 1).toNat = pending.dropLast.length := by
  have count := before.count
  have positive : 0 < console.commandLen.toNat := UInt8.lt_iff_toNat_lt.mp some_bytes
  have little := console.commandLen.toNat_lt
  rw [List.length_dropLast,UInt8.toNat_sub]
  simp only [UInt8.reduceToNat]
  omega

theorem kept_iff (before : Pending pending console) (remembers : Remembers console entries) (around : CmdSurroundings)
    (read : List UInt8) : Kept around read console pending ↔ Spared read console := by
  have parts : Kept around read console pending ↔ (∀ access ∈ uartAccesses read console, access.Inside) ∧
      (uartEvent around read console).console.commandLen.toNat = (pendingAfter read console pending).length :=
    ⟨fun kept => ⟨kept.accesses,kept.count⟩,fun both => ⟨both.1,both.2⟩⟩
  have count := before.count
  have short := pending_short before
  rw [parts]
  refine turn_elim (motive := fun round accesses line spared => ((∀ access ∈ accesses, access.Inside) ∧
    round.console.commandLen.toNat = line.length) ↔ spared) around read console pending ?_ ?_ ?_ ?_ ?_ ?_ ?_
  · exact iff_of_true ⟨List.forall_mem_singleton.mpr (le_refl bufSize),rfl⟩ trivial
  · exact iff_of_true ⟨List.forall_mem_nil _,count⟩ trivial
  · intro some_bytes
    have erased := erased_count before some_bytes
    refine iff_of_true ⟨List.forall_mem_singleton.mpr ?_,erased⟩ trivial
    rw [List.length_dropLast] at erased
    change _ + 1 ≤ 1024
    omega
  · intro nothing
    obtain rfl := nothing_left before nothing
    exact iff_of_true ⟨List.forall_mem_nil _,count⟩ trivial
  · rw [held_line before,trim_inside pending short,word_count before,empty_line before]
    exact and_iff_left rfl
  · exact recall_kept_iff (seen_pending before read) (seen_remembers remembers read)
  · exact append_kept_iff (seen_pending before read) around read

theorem front_untouched (array : CharArray n) (written : List UInt8) (before : k ≤ offset) (inside : offset ≤ n) :
    (array.overwriteAt offset written).bytes.take k = array.bytes.take k := by
  have size := array.size
  have front : (array.bytes.take offset).length = offset := by
    rw [List.length_take]
    omega
  rw [CharArray.overwriteAt]
  dsimp only
  rw [List.take_take,min_eq_left (by omega),List.append_assoc,List.take_append_of_le_length (by omega),List.take_take,
    min_eq_left before]

theorem recall_pending (before : Pending pending console) (remembers : Remembers console entries)
    (spared : recalls console → Terminated console.command (getRingBufferIndex console.commandHistory 0).length) :
    Pending (if recalls console then getRingBufferIndex console.commandHistory 0 else pending) (recallCommand console) := by
  have count := ((recall_kept_iff before remembers).mpr spared).2
  refine ⟨count,?_⟩
  unfold recallCommand
  by_cases key : recalls console
  · rw [if_pos key,if_pos key]
    dsimp only
    rw [CharArray.overwrite_bytes _ (line_fits (current_line remembers)),List.take_left]
  · rw [if_neg key,if_neg key]
    exact before.held

theorem append_pending (before : Pending pending console) (free : 13 ∉ read)
    (fits : console.commandLen.toNat + read.length ≤ 255) (around : CmdSurroundings) :
    Pending (pending ++ read) (appendRead around read console).console := by
  have count := ((append_kept_iff before around read).mpr ⟨free,fits⟩).2
  rw [if_neg free] at count
  refine ⟨count,?_⟩
  have room : pending.length + read.length ≤ bufSize := by
    rw [← before.count,bufSize]
    omega
  obtain ⟨behind,laid⟩ := written_start before room []
  rw [List.append_nil] at laid
  rw [appendRead,if_neg free]
  dsimp only
  rw [laid,List.take_left]

-- A spared turn leaves the line that is being edited in command.
theorem spared_pending (before : Pending pending console) (remembers : Remembers console entries)
    (around : CmdSurroundings) (read : List UInt8) (spared : Spared read console) : Pending (pendingAfter read console pending) (uartEvent around read console).console := by
  have short := pending_short before
  have held := held_line before
  revert spared
  refine turn_elim (motive := fun round _ line spared => spared → Pending line round.console) around read console pending
    ?_ ?_ ?_ ?_ ?_ ?_ ?_
  · exact fun _ => ⟨rfl,rfl⟩
  · exact fun _ => seen_pending before read
  · intro some_bytes _
    have erased := erased_count before some_bytes
    refine ⟨erased,?_⟩
    dsimp only
    rw [← erased,front_untouched _ _ (le_refl _) (by rw [erased,List.length_dropLast,bufSize]; omega),erased,
      List.dropLast_eq_take,List.length_take,min_eq_left (Nat.sub_le _ _)]
    exact line_start before (Nat.sub_le _ _)
  · intro nothing _
    obtain rfl := nothing_left before nothing
    exact seen_pending before read
  · intro _
    rw [held]
    refine ⟨word_count before,?_⟩
    rw [List.length_take,min_eq_left (trim_shorter pending)]
    change console.command.bytes.take _ = _
    exact line_start before (trim_shorter pending)
  · exact recall_pending (seen_pending before read) (seen_remembers remembers read)
  · rintro ⟨free,fits⟩
    rw [if_neg free]
    exact append_pending (seen_pending before read) free fits around

end Turn

-- A condition on every turn of a sequence of reads, up to the end of the task. Each comes
-- with what main_cmd meets if the read makes the task call it.
def Along (holds : CmdSurroundings → List UInt8 → Console → List UInt8 → Prop) :
    List (CmdSurroundings × List UInt8) → Console → List UInt8 → Prop
  | [],_,_ => True
  | (around,read) :: later,console,pending =>
    holds around read console pending ∧ ((uartEvent around read console).ended = false →
      Along holds later (uartEvent around read console).console (pendingAfter read console pending))

theorem along_iff (before : Pending pending console) (remembers : Remembers console entries)
    (reads : List (CmdSurroundings × List UInt8)) :
    Along Kept reads console pending ↔ Along (fun _ read console _ => Spared read console) reads console pending := by
  induction reads generalizing console pending entries with
  | nil => exact Iff.rfl
  | cons turn later ih =>
    obtain ⟨around,read⟩ := turn
    rw [Along,Along,kept_iff before remembers around read]
    refine and_congr_right fun spared => ?_
    obtain ⟨left,after⟩ := event_remembers remembers around read
    rw [ih (spared_pending before remembers around read spared) after]

theorem console_bounds_iff (mem : Console) (reads : List (CmdSurroundings × List UInt8)) :
    Along Kept reads (startConsole mem) [] ↔
      Along (fun _ read console _ => Spared read console) reads (startConsole mem) [] :=
  along_iff ⟨rfl,rfl⟩ ⟨HistoryRing.init_keeps mem.commandHistory,List.forall_mem_nil _⟩ reads

-- One letter and its carriage return: two bytes are allocated and three written.
theorem console_line_overflows : ¬ ∀ mem reads,
    (∀ turn ∈ reads, 1 ≤ turn.2.length ∧ turn.2.length ≤ bufSize - 1) → Along Kept reads (startConsole mem) [] := by
  intro always
  have kept := (always blankConsole [(quietSurroundings,[97,13])] (by simp [bufSize])).1
  have accessed : uartAccesses [97,13] (startConsole blankConsole) =
      [.command 0 2,.entry 2 0 2,.entry 2 2 1,.command 0 bufSize] := rfl
  have past : 2 + 1 ≤ 2 := kept.accesses (.entry 2 2 1) (by rw [accessed]; simp)
  exact absurd past (by decide)

end EspOwl.ConsoleBounds
