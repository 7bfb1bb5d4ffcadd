import EspOwl.Ethernet

namespace EspOwl
open ByteCodec

-- struct buf: the len bytes from data on. orig and owned serve printing and
-- freeing only. The lengths and offsets of all calls are non-negative.
abbrev Buf := List UInt8

def bufLen (buf : Buf) : Nat := buf.length

def bufStrip (buf : Buf) (len : Nat) : Option Buf := if len > bufLen buf then none else some (buf.drop len)

def bufTake (buf : Buf) (len : Nat) : Option Buf :=
  if len > bufLen buf then none else some (buf.take (bufLen buf - len))

-- `mem` is what malloc left in the array.
def bufNewOwned (len : Nat) (mem : Nat → UInt8) : Buf := (List.range len).map mem

-- Every read checks that its bytes lie inside the buffer; `none` is OUT_OF_BOUNDS.
def readWord (width : Nat) (decode : List UInt8 → α) (buf : Buf) (offset : Nat) : Option α :=
  if offset + width > bufLen buf then none else some (decode (slice offset width buf))

def readU8 (buf : Buf) (offset : Nat) : Option UInt8 := readWord 1 (fun bytes => bytes.getD 0 0) buf offset
def readLe16 (buf : Buf) (offset : Nat) : Option UInt16 :=
  readWord 2 (fun bytes => UInt16.ofNat (leValue bytes)) buf offset
def readBe16 (buf : Buf) (offset : Nat) : Option UInt16 :=
  readWord 2 (fun bytes => UInt16.ofNat (beValue bytes)) buf offset
def readLe32 (buf : Buf) (offset : Nat) : Option UInt32 :=
  readWord 4 (fun bytes => UInt32.ofNat (leValue bytes)) buf offset
def readEtherAddr (buf : Buf) (offset : Nat) : Option EtherAddr :=
  readWord etherAddrLen EtherAddr.ofBytes buf offset
def readBytes (buf : Buf) (offset length : Nat) : Option (List UInt8) := readWord length id buf offset
def readBytesCopy (buf : Buf) (offset length : Nat) : Option (List UInt8) := readWord length id buf offset

-- CHECKED_READ: on an error, jump to wire_error.
def checkedRead (read : Option α) (wireError : β) (next : α → β) : β :=
  match read with
  | none => wireError
  | some value => next value

@[simp] theorem checkedRead_some (value : α) (wireError : β) (next : α → β) :
    checkedRead (some value) wireError next = next value := rfl
@[simp] theorem checkedRead_none (wireError : β) (next : α → β) :
    checkedRead none wireError next = wireError := rfl

theorem checkedRead_holds {motive : β → Prop} {read : Option α} {wireError : β} {next : α → β}
    (stopped : motive wireError) (went : ∀ value, read = some value → motive (next value)) :
    motive (checkedRead read wireError next) := by
  cases h : read with
  | none => exact stopped
  | some value => exact went value h

-- The bytes written to `str`, with the trailing zero.
def readIntString (buf : Buf) (offset length : Nat) : Option (List UInt8) :=
  checkedRead (readU8 buf offset) none fun len =>
  let len := if len.toNat > length then length else len.toNat
  checkedRead (readBytesCopy buf (offset + 1) len) none fun bytes => some (bytes ++ [0])

-- Type and value of the TLV at an offset. The returned length is that of the
-- value plus 3.
def readTlv (buf : Buf) (offset : Nat) : Option (UInt8 × List UInt8) :=
  checkedRead (readU8 buf offset) none fun type =>
  checkedRead (readLe16 buf (offset + 1)) none fun len =>
  checkedRead (readBytes buf (offset + 3) len.toNat) none fun val => some (type,val)

-- A write returns the bytes written, or OUT_OF_BOUNDS = -1 and leaves the buffer.
def writeBytes (buf : Buf) (offset : Int) (bytes : List UInt8) : Int × Buf :=
  if offset < 0 ∨ offset + bytes.length > bufLen buf then (-1,buf)
  else (bytes.length,buf.take offset.toNat ++ bytes ++ buf.drop (offset.toNat + bytes.length))

def le16 (value : UInt16) : List UInt8 := leBytes 2 value.toNat
def be16 (value : UInt16) : List UInt8 := beBytes 2 value.toNat
def le32 (value : UInt32) : List UInt8 := leBytes 4 value.toNat

def writeU8 (buf : Buf) (offset : Int) (value : UInt8) : Int × Buf := writeBytes buf offset [value]
def writeBe16 (buf : Buf) (offset : Int) (value : UInt16) : Int × Buf := writeBytes buf offset (be16 value)
def writeEtherAddr (buf : Buf) (offset : Int) (addr : EtherAddr) : Int × Buf := writeBytes buf offset addr.bytes

@[simp] theorem le16_length (value : UInt16) : (le16 value).length = 2 := leBytes_length _ _
@[simp] theorem be16_length (value : UInt16) : (be16 value).length = 2 := beBytes_length _ _
@[simp] theorem le32_length (value : UInt32) : (le32 value).length = 4 := leBytes_length _ _

theorem le16_value (value : UInt16) : UInt16.ofNat (leValue (le16 value)) = value := by
  have small := value.toNat_lt
  rw [le16,leValue_leBytes,Nat.mod_eq_of_lt (by simpa using small),UInt16.ofNat_toNat]

theorem be16_value (value : UInt16) : UInt16.ofNat (beValue (be16 value)) = value := by
  have small := value.toNat_lt
  rw [be16,beValue_beBytes,Nat.mod_eq_of_lt (by simpa using small),UInt16.ofNat_toNat]

theorem le32_value (value : UInt32) : UInt32.ofNat (leValue (le32 value)) = value := by
  have small := value.toNat_lt
  rw [le32,leValue_leBytes,Nat.mod_eq_of_lt (by simpa using small),UInt32.ofNat_toNat]

@[simp] theorem strip_append (left right : List UInt8) : bufStrip (left ++ right) left.length = some right := by
  simp [bufStrip,bufLen]

theorem strip_some {buf : Buf} (stripped : bufStrip buf len = some rest) :
    rest = buf.drop len ∧ len ≤ buf.length := by
  rw [bufStrip,bufLen] at stripped
  split at stripped
  · cases stripped
  · cases stripped; exact ⟨rfl,by omega⟩

theorem take_append (left right : List UInt8) : bufTake (left ++ right) right.length = some left := by
  simp [bufTake,bufLen]

-- A read finds the word that was laid at its offset.
theorem readWord_at (decode : List UInt8 → α) (left word right : List UInt8) (width : word.length = n) :
    readWord n decode (left ++ (word ++ right)) left.length = some (decode word) := by
  have inside : ¬ left.length + n > bufLen (left ++ (word ++ right)) := by
    simp only [bufLen,List.length_append]
    omega
  have found := slice_skip left (word ++ right) 0 n
  rw [Nat.add_zero,slice_zero_append width] at found
  rw [readWord,if_neg inside,found]

-- The same for a field of each kind, its offset counted by the caller.
theorem readLe16_at (left : List UInt8) (offset : Nat) (before : left.length = offset) (value : UInt16)
    (right : List UInt8) :
    readLe16 (left ++ (le16 value ++ right)) offset = some value := by
  subst before
  rw [readLe16,readWord_at _ left (le16 value) right (le16_length _),le16_value]

theorem readLe32_at (left : List UInt8) (offset : Nat) (before : left.length = offset) (value : UInt32)
    (right : List UInt8) :
    readLe32 (left ++ (le32 value ++ right)) offset = some value := by
  subst before
  rw [readLe32,readWord_at _ left (le32 value) right (le32_length _),le32_value]

theorem readEtherAddr_at (left : List UInt8) (offset : Nat) (before : left.length = offset) (addr : EtherAddr)
    (right : List UInt8) :
    readEtherAddr (left ++ (addr.bytes ++ right)) offset = some addr := by
  subst before
  exact readWord_at EtherAddr.ofBytes left addr.bytes right rfl

theorem readWord_short {decode : List UInt8 → α} {buf : Buf} (short : buf.length < offset + n) :
    readWord n decode buf offset = none := by
  rw [readWord,bufLen,if_pos short]

theorem readWord_long {buf : Buf} (decode : List UInt8 → α) (long : offset + n ≤ buf.length) :
    readWord n decode buf offset = some (decode (slice offset n buf)) := by
  rw [readWord,bufLen,if_neg (by omega)]

theorem readWord_none {decode : List UInt8 → α} {buf : Buf} :
    readWord n decode buf offset = none ↔ buf.length < offset + n := by
  constructor
  · intro missing
    by_contra inside
    rw [readWord_long decode (by omega)] at missing
    cases missing
  · exact readWord_short

theorem readWord_inside {decode : List UInt8 → α} {buf : Buf} (read : readWord n decode buf offset = some value) :
    offset + n ≤ buf.length := by
  by_contra short
  rw [readWord_short (by omega)] at read
  cases read

-- One complete TLV in front of a buffer.
def tlvBytes (type : UInt8) (val : List UInt8) : List UInt8 :=
  type :: (le16 (UInt16.ofNat val.length) ++ val)

@[simp] theorem tlvBytes_length (type : UInt8) (val : List UInt8) :
    (tlvBytes type val).length = val.length + 3 := by
  simp [tlvBytes]
  omega

@[simp] theorem drop_tlvBytes (type : UInt8) (val rest : List UInt8) :
    (tlvBytes type val ++ rest).drop (val.length + 3) = rest := by
  rw [← tlvBytes_length type val,List.drop_left]

theorem readTlv_tlvBytes (type : UInt8) (val rest : List UInt8) (fits : val.length < 65536) :
    readTlv (tlvBytes type val ++ rest) 0 = some (type,val) := by
  have first : readU8 (tlvBytes type val ++ rest) 0 = some type :=
    readWord_at (fun bytes => bytes.getD 0 0) [] [type] (le16 (UInt16.ofNat val.length) ++ val ++ rest) rfl
  have second : readLe16 (tlvBytes type val ++ rest) 1 = some (UInt16.ofNat val.length) := by
    have found := readWord_at (fun bytes => UInt16.ofNat (leValue bytes)) [type]
      (le16 (UInt16.ofNat val.length)) (val ++ rest) (le16_length _)
    rw [le16_value] at found
    simpa [tlvBytes,readLe16] using found
  have exact : (UInt16.ofNat val.length).toNat = val.length := UInt16.toNat_ofNat_of_lt fits
  have third : readBytes (tlvBytes type val ++ rest) 3 val.length = some val := by
    have found := readWord_at id (type :: le16 (UInt16.ofNat val.length)) val rest rfl
    simpa [tlvBytes,readBytes] using found
  simp only [readTlv,first,second,third,exact,checkedRead_some,Nat.zero_add]

theorem readTlv_length {buf : Buf} (found : readTlv buf 0 = some (type,val)) : val.length + 3 ≤ buf.length := by
  unfold readTlv readBytes at found
  cases first : readU8 buf 0 with
  | none => simp [first] at found
  | some kind =>
    cases second : readLe16 buf 1 with
    | none => simp [first,second] at found
    | some len =>
      simp only [first,second,checkedRead_some,Nat.zero_add,readWord,bufLen] at found
      split at found
      · cases found
      · rename_i inside
        simp only [checkedRead_some,Option.some.injEq,Prod.mk.injEq,id] at found
        rw [← found.2,slice_length (by omega)]
        omega

end EspOwl
