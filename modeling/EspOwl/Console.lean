import EspOwl.CharArray
import EspOwl.CommandLine
import EspOwl.Lines

namespace EspOwl
open CommandLine

def bufferSize : Nat := 20

structure RingBuffer where
  data : Fin bufferSize → List UInt8
  start : Nat
  finish : Nat
  size : Nat

def ringIndex (i : Nat) : Fin bufferSize := ⟨i % bufferSize,Nat.mod_lt _ (by decide)⟩

def initRingBuffer (buffer : RingBuffer) : RingBuffer := {buffer with start := 0,finish := 0,size := 0}

def putRingBuffer (buffer : RingBuffer) (value : List UInt8) : RingBuffer :=
  let buffer :=
    if buffer.size < bufferSize then {buffer with size := buffer.size + 1}
    else {buffer with start := (buffer.start + 1) % bufferSize}
  {buffer with
    data := Function.update buffer.data (ringIndex buffer.finish) value
    finish := (buffer.finish + 1) % bufferSize}

def getRingBufferIndex (buffer : RingBuffer) (index : Int) : List UInt8 :=
  if index ≥ buffer.size ∨ -index > buffer.size then []
  else buffer.data (ringIndex ((buffer.start + (buffer.size - index - 1)) % bufferSize).toNat)

def putRingBufferFreed (buffer : RingBuffer) : Option (List UInt8) :=
  if buffer.size < bufferSize then none else some (buffer.data (ringIndex buffer.finish))

def setIndex (buffer : RingBuffer) (index : Int) (value : List UInt8) : RingBuffer :=
  let index := index % bufferSize
  if index ≥ buffer.size then
    let start := if buffer.start = 0 then bufferSize - 1 else buffer.start - 1
    {buffer with start := start,size := buffer.size + 1,data := Function.update buffer.data (ringIndex start) value}
  else
    let i : Int := buffer.finish - index - 1
    let i := if i < 0 then i + bufferSize else i
    {buffer with data := Function.update buffer.data (ringIndex i.toNat) value}

def bufSize : Nat := 1024

structure Console where
  commandHistory : RingBuffer
  command : CharArray bufSize
  commandLen : UInt8
  data : CharArray bufSize

-- What one read leads to: the lines main_cmd is called with, and whether the task ends,
-- with a restart or because main_cmd does not return.
structure Round where
  console : Console
  calls : List (List UInt8)
  ended : Bool

-- The new length. On a line of blanks the first loop reads before the array, which
-- is taken to hold no blank there.
def trimCommand (command : List UInt8) : Nat :=
  let trimmed := command.rdropWhile (· = 32)
  let words := trimmed.rdropWhile (· ≠ 32)
  if words = [] then 0 else (words.rdropWhile (· = 32)).length + 1

-- str[strcspn(str, "\r\n")] = 0, at the start of main_cmd.
def mainCmdLine (str : CharArray bufSize) : List UInt8 := str.text.takeWhile fun b => b ≠ 13 && b ≠ 10

def clearCommand (console : Console) : Console :=
  {console with commandLen := 0,command := .replicate bufSize 0}

def recallCommand (console : Console) : Console :=
  if console.data.bytes.getD 1 0 = 91 ∧ console.data.bytes.getD 2 0 = 65 then
    let command := console.command.overwrite (getRingBufferIndex console.commandHistory 0)
    {console with command := command,commandLen := UInt8.ofNat command.strlen}
  else console

def appendRead (around : CmdSurroundings) (read : List UInt8) (console : Console) : Round :=
  let console := {console with
    command := console.command.overwriteAt console.commandLen.toNat read
    commandLen := console.commandLen + UInt8.ofNat read.length}
  if 13 ∈ read then
    let buffer := (console.command.bytes.take console.commandLen.toNat).takeWhile (· ≠ 0)
    ⟨clearCommand {console with commandHistory := putRingBuffer console.commandHistory buffer},
      [mainCmdLine console.command],!mainCmdReturns around (mainCmdLine console.command)⟩
  else ⟨console,[],false⟩

def uartEvent (around : CmdSurroundings) (read : List UInt8) (console : Console) : Round :=
  let console := {console with data := console.data.overwrite read}
  match console.data.bytes.getD 0 0 with
  | 3 => ⟨clearCommand console,[],false⟩
  | 18 => ⟨console,[],true⟩
  | 127 =>
    if console.commandLen > 0 then
      let commandLen := console.commandLen - 1
      ⟨{console with commandLen := commandLen,command := console.command.overwriteAt commandLen.toNat [0]},[],false⟩
    else ⟨console,[],false⟩
  | 23 =>
    let commandLen := trimCommand (console.command.bytes.take console.commandLen.toNat)
    ⟨{console with commandLen := UInt8.ofNat commandLen},[],false⟩
  | 27 => ⟨recallCommand console,[],false⟩
  | _ => appendRead around read console

def uartEventTask (around : Nat → CmdSurroundings) : List (List UInt8) → Console → List (List UInt8)
  | [],_ => []
  | read :: later,console =>
    let round := uartEvent (around 0) read console
    round.calls ++ if round.ended then [] else uartEventTask (fun k => around (k + round.calls.length)) later round.console

def startConsole (mem : Console) : Console := {mem with commandHistory := initRingBuffer mem.commandHistory,commandLen := 0}

end EspOwl
