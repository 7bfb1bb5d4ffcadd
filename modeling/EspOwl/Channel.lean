import Mathlib

namespace EspOwl

def awdlChanseqLength : Nat := 16

-- enum awdl_chan_encoding. An encoding byte from the air may name none of them.
inductive AwdlChanEncoding where
  | simple
  | legacy
  | opclass
  | other (code : UInt8)
deriving DecidableEq, Repr, Inhabited

def AwdlChanEncoding.ofByte (code : UInt8) : AwdlChanEncoding :=
  if code = 0 then .simple else if code = 1 then .legacy else if code = 3 then .opclass else .other code

def AwdlChanEncoding.toByte : AwdlChanEncoding → UInt8
  | .simple => 0
  | .legacy => 1
  | .opclass => 3
  | .other code => code

-- struct awdl_chan: a union over val[2].
structure AwdlChan where
  val0 : UInt8
  val1 : UInt8
deriving DecidableEq, Repr, Inhabited

def chanNull : AwdlChan := ⟨0,0x00⟩
def chanOpclass6 : AwdlChan := ⟨6,0x51⟩

def awdlChanNum (chan : AwdlChan) : AwdlChanEncoding → UInt8
  | .simple => chan.val0
  | .legacy => chan.val1
  | .opclass => chan.val0
  | .other _ => 0

def awdlChanEncodingSize : AwdlChanEncoding → Int
  | .simple => 1
  | .legacy => 2
  | .opclass => 2
  | .other _ => -1

structure AwdlChannelState where
  enc : AwdlChanEncoding
  sequence : Fin awdlChanseqLength → AwdlChan
  master : AwdlChan
  current : AwdlChan
deriving DecidableEq, Inhabited

def awdlChanseqInitStatic (chan : AwdlChan) : Fin awdlChanseqLength → AwdlChan := fun _ => chan

end EspOwl
