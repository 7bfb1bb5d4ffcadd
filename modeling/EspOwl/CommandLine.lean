import EspOwl.Opendrop
import EspOwl.Tokens

namespace EspOwl.CommandLine
open Tokens Opendrop

def commands : List (List UInt8) :=
  [ascii "ble",ascii "awdl",ascii "drop",ascii "mdns",ascii "tasks",ascii "trace"]

def getIndexOfString (array : List (List UInt8)) (str : List UInt8) : Int :=
  match array.findIdx? (· = str) with
  | some i => i
  | none => -1

def hangleAwdlCommand (str : List (List UInt8)) : List CommandEffect :=
  match str with
  | [action] =>
    if action = ascii "list" then [.awdlNeighborsPrint]
    else if action = ascii "disable" then [.print "disabeling awdl\n",.awdlDisable]
    else []
  | _ => []

def mdnsCommand (mdnsEnabled : Bool) (arguments : List (List UInt8)) : List CommandEffect :=
  match arguments with
  | [action] =>
    if action = ascii "enable" then if mdnsEnabled then [.print "mdns already enabled\n"] else [.resumeMdns]
    else if action = ascii "disable" then if mdnsEnabled then [.print "mdns already disabled\n"] else [.suspendMdns]
    else []
  | _ => []

-- The switch over the places of the commands in the array.
def runCommand (wild : Option EtherAddr) (mdnsEnabled : Bool) (commandIndex : Int) (arguments : List (List UInt8)) :
    Option (List CommandEffect) :=
  match commandIndex with
  | 0 => some [.createTestCert]
  | 5 => some [.testBacktrace]
  | 1 => some (hangleAwdlCommand arguments)
  | 2 => handleOpendropCommand wild arguments
  | 3 => some (mdnsCommand mdnsEnabled arguments)
  | 4 => some [.listTasks]
  | _ => some [.print "error\n"]

-- tolower in the C locale.
def tolower (b : UInt8) : UInt8 := if 65 ≤ b ∧ b ≤ 90 then b + 32 else b

def space (b : UInt8) : Bool := b = 32

-- The loop that fills the array of arguments, which has room for so many more, and
-- the memory behind it.
def argumentsFrom : Nat → Cut UInt8 → List Nat × List UInt8
  | 0,cut => ([],cut.mem)
  | room+1,cut =>
    match cut.token with
    | none => ([],cut.mem)
    | some token =>
      let later := argumentsFrom room (strtok 0 space none cut.mem cut.lasts)
      (token :: later.1,later.2)

-- The loop over the command, up to its terminator.
def lowerString : List UInt8 → List UInt8
  | [] => []
  | b :: rest => if b = 0 then b :: rest else tolower b :: lowerString rest

-- How main_cmd ends. In `nullWord` it has read through a command that is NULL; `ran`
-- has the word it looks up and the arguments it passes.
inductive CmdRun where
  | nothing
  | nullWord
  | ran (command : List UInt8) (arguments : List (List UInt8)) (effects : Option (List CommandEffect))

-- The part before the first of "\r\n".
def lineOf (str : List UInt8) : List UInt8 := (stringAt 0 str 0).takeWhile fun b => b ≠ 13 && b ≠ 10

def mainCmd (wild : Option EtherAddr) (mdnsEnabled : Bool) (str : List UInt8) : CmdRun :=
  let str := str.set (lineOf str).length 0
  if (stringAt 0 str 0).length = 0 then .nothing
  else
    let first := strtok 0 space (some 0) str none
    let arguments := argumentsFrom 20 (strtok 0 space none first.mem first.lasts)
    match first.token with
    | none => .nullWord
    | some command =>
      let text := stringAt 0 (arguments.2.take command ++ lowerString (arguments.2.drop command))
      .ran (text command) (arguments.1.map text)
        (runCommand wild mdnsEnabled (getIndexOfString commands (text command)) (arguments.1.map text))

-- What main_cmd meets: the address behind the pointer of `drop dis`, the flag of the mDNS
-- task, and which of the functions that it hands over to return.
structure CmdSurroundings where
  wild : Option EtherAddr
  mdnsEnabled : Bool
  returns : CommandEffect → Bool

-- test_backtrace writes to address 0.
def CmdRun.returns (around : CmdSurroundings) : CmdRun → Bool
  | .nothing => true
  | .nullWord => false
  | .ran _ _ none => false
  | .ran _ _ (some effects) => effects.all fun effect => effect ≠ .testBacktrace && around.returns effect

def mainCmdReturns (around : CmdSurroundings) (line : List UInt8) : Bool :=
  (mainCmd around.wild around.mdnsEnabled (line ++ [0])).returns around

-- What a line asks for: its first word in lower case, with the next twenty as they are.
def asked (wild : Option EtherAddr) (mdnsEnabled : Bool) (line : List UInt8) : CmdRun :=
  match words space line with
  | [] => .nothing
  | word :: later => .ran (word.map tolower) (later.take 20)
    (runCommand wild mdnsEnabled (getIndexOfString commands (word.map tolower)) (later.take 20))

section Reading
variable {str line front mem tail word : List UInt8} {left : List (List UInt8)}

theorem cut_line (ended : 0 ∈ str) :
    ∃ rest, str.set (lineOf str).length 0 = lineOf str ++ 0 :: rest ∧ 0 ∉ lineOf str := by
  obtain ⟨text,behind,rfl,clean⟩ := List.eq_append_cons_of_mem ended
  have parts : text = lineOf (text ++ 0 :: behind) ++ text.dropWhile fun b => b ≠ 13 && b ≠ 10 := by
    rw [lineOf,stringAt_ended clean,List.takeWhile_append_dropWhile]
  generalize lineOf (text ++ 0 :: behind) = line at parts
  generalize (text.dropWhile fun b => b ≠ 13 && b ≠ 10) = tail at parts
  subst parts
  rw [List.mem_append,not_or] at clean
  refine ⟨(tail ++ 0 :: behind).tail,?_,clean.1⟩
  obtain ⟨b,rest,more⟩ := List.exists_cons_of_ne_nil (by simp : tail ++ 0 :: behind ≠ [])
  rw [List.append_assoc,more,List.set_append_right _ _ (Nat.le_refl _),Nat.sub_self]
  rfl

theorem tolower_letter {b : UInt8} (letter : b ≠ 0) : tolower b ≠ 0 := by
  revert b
  decide +kernel

theorem lower_ended (clean : 0 ∉ word) : 0 ∉ word.map tolower := by
  intro member
  obtain ⟨b,own,zero⟩ := List.mem_map.mp member
  exact tolower_letter (ne_of_mem_of_not_mem own clean) zero

theorem lowerString_word (clean : 0 ∉ word) (rest : List UInt8) :
    lowerString (word ++ 0 :: rest) = word.map tolower ++ 0 :: rest := by
  induction word with
  | nil => rfl
  | cons b word ih =>
    rw [List.mem_cons,not_or] at clean
    rw [List.cons_append,lowerString,if_neg (Ne.symm clean.1),ih clean.2]
    rfl

-- The loop takes the words that are left, as far as there is room. It writes only
-- behind the place it starts at, and what stands before it does not matter.
theorem arguments_words (room : Nat) (unread : Unread 0 space front mem lasts left) :
    ∃ tail, (argumentsFrom room (strtok 0 space none mem lasts)).2 = front ++ tail ∧
      ∀ other : List UInt8, other.length = front.length →
        (argumentsFrom room (strtok 0 space none mem lasts)).1.map (stringAt 0 (other ++ tail)) = left.take room := by
  induction room generalizing front mem lasts left with
  | zero =>
    have before := unread
    rcases strtok_unread (s := none) rfl unread with ⟨_,same⟩ | ⟨gap,word,later,_,_,_,rest,laid,_⟩
    · obtain ⟨tail,laid,_⟩ := before
      rw [same]
      exact ⟨tail,laid,fun _ _ => rfl⟩
    · rw [argumentsFrom,laid,List.append_assoc]
      exact ⟨_,rfl,fun _ _ => rfl⟩
  | succ room ih =>
    have before := unread
    rcases strtok_unread (s := none) rfl unread with ⟨rfl,same⟩ | ⟨gap,word,later,rfl,clean,returned,unread⟩
    · obtain ⟨tail,laid,_⟩ := before
      rw [same]
      exact ⟨tail,laid,fun _ _ => rfl⟩
    · obtain ⟨tail,laid,read⟩ := ih unread
      rw [argumentsFrom,returned]
      dsimp only
      refine ⟨gap ++ word ++ [0] ++ tail,by rw [laid,List.append_assoc],?_⟩
      intro other same
      have own := stringAt_behind 0 other (gap ++ word ++ [0] ++ tail) gap.length
      rw [word_at clean,same] at own
      have others := read (other ++ (gap ++ word ++ [0])) (by simp only [List.length_append,same])
      rw [List.append_assoc] at others
      rw [List.map_cons,own,others,List.take_succ_cons]

theorem main_cmd_tokenised (wild : Option EtherAddr) (mdnsEnabled : Bool) (ended : 0 ∈ str) :
    mainCmd wild mdnsEnabled str = if lineOf str = [] then .nothing
      else if words space (lineOf str) = [] then .nullWord else asked wild mdnsEnabled (lineOf str) := by
  obtain ⟨rest,cut,clean⟩ := cut_line ended
  rw [mainCmd]
  generalize lineOf str = line at cut clean
  simp only [cut,stringAt_ended clean,List.length_eq_zero_iff]
  by_cases empty : line = []
  · rw [if_pos empty,if_pos empty]
  rw [if_neg empty,if_neg empty]
  have start : Unread 0 space [] (line ++ 0 :: rest) ((some 0).or none) (words space line) :=
    ⟨line ++ 0 :: rest,rfl,.inr ⟨rfl,by simp,by rw [stringAt_ended clean]⟩⟩
  rcases strtok_unread rfl start with ⟨blank,none_left⟩ | ⟨gap,word,later,split,own,returned,unread⟩
  · rw [if_pos blank,none_left]
  · obtain ⟨tail,laid,read⟩ := arguments_words 20 unread
    have lowered : (gap ++ word ++ [0] ++ tail).take gap.length ++
        lowerString ((gap ++ word ++ [0] ++ tail).drop gap.length) = gap ++ word.map tolower ++ [0] ++ tail := by
      rw [List.append_assoc,List.append_assoc,List.take_left,List.drop_left,List.singleton_append,lowerString_word own]
      simp only [List.append_assoc,List.singleton_append]
    rw [List.nil_append] at laid read
    rw [List.length_nil,Nat.zero_add] at returned
    rw [split,if_neg (List.cons_ne_nil word later),returned,asked,split]
    simp only [laid,lowered,word_at (lower_ended own)]
    rw [read _ (by simp only [List.length_append,List.length_map])]

end Reading

theorem main_cmd_iff (wild : Option EtherAddr) (mdnsEnabled : Bool) (str : List UInt8) (ended : 0 ∈ str) :
    mainCmd wild mdnsEnabled str = asked wild mdnsEnabled (lineOf str) ↔
      lineOf str = [] ∨ ∃ b ∈ lineOf str, b ≠ 32 := by
  have letters : words space (lineOf str) = [] ↔ ¬ ∃ b ∈ lineOf str, b ≠ 32 := by
    rw [words_blank_iff]
    simp [space]
  rw [main_cmd_tokenised wild mdnsEnabled ended]
  by_cases empty : lineOf str = []
  · rw [if_pos empty,empty]
    exact iff_of_true rfl (.inl rfl)
  rw [if_neg empty]
  by_cases blank : words space (lineOf str) = []
  · rw [if_pos blank,asked,blank]
    exact iff_of_false CmdRun.noConfusion (not_or.mpr ⟨empty,letters.mp blank⟩)
  · rw [if_neg blank]
    exact iff_of_true rfl (.inr (not_not.mp fun none_left => blank (letters.mpr none_left)))

-- More than twenty words, and capitals in the first.
theorem main_cmd_crowded : mainCmd none true (ascii "  Awdl a b c d e f g h i j k l m n o p q r s t u  v\r\nx" ++ [0]) =
      asked none true (lineOf (ascii "  Awdl a b c d e f g h i j k l m n o p q r s t u  v\r\nx" ++ [0])) ↔
    lineOf (ascii "  Awdl a b c d e f g h i j k l m n o p q r s t u  v\r\nx" ++ [0]) = [] ∨
      ∃ b ∈ lineOf (ascii "  Awdl a b c d e f g h i j k l m n o p q r s t u  v\r\nx" ++ [0]), b ≠ 32 :=
  main_cmd_iff none true _ (by decide)

-- A line of one blank.
theorem main_cmd_blank : ¬ ∀ wild mdnsEnabled str, 0 ∈ str →
    mainCmd wild mdnsEnabled str = asked wild mdnsEnabled (lineOf str) := by
  intro always
  have same := always none true [32,13,0] (by decide)
  have faulted : mainCmd none true [32,13,0] = .nullWord := by rfl
  have idle : asked none true (lineOf [32,13,0]) = .nothing := by rfl
  rw [faulted,idle] at same
  cases same

end EspOwl.CommandLine
