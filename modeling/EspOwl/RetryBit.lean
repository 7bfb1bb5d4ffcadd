import EspOwl.Dispatch

namespace EspOwl.RetryBit
open ByteCodec Dispatch

-- The Retry bit is bit 3 of the second byte of the frame control.
def withRetry (rxCtrlLen : Nat) (retry : Bool) (frame : Buf) : Buf :=
  frame.modify (rxCtrlLen + 1) fun b => if retry then b ||| 0x08 else b &&& 0xf7

-- The frame control without its flags.
def frameType (fc : UInt16) : UInt16 := fc &&& (ieee80211FctlFtype ||| ieee80211FctlStype)

def frameControlOf (rxCtrlLen : Nat) (frame : Buf) : UInt16 := (Ieee80211Hdr.ofBytes (frame.drop rxCtrlLen)).frameControl

-- The frames that awdl_rx looks at beyond their 802.11 header.
structure Admitted (rxCtrlLen : Nat) (own : EtherAddr) (frame : Buf) : Prop where
  header : rxCtrlLen + Ieee80211Hdr.size ≤ frame.length
  foreign : frameSource rxCtrlLen frame ≠ own
  addressed : (frameDestination rxCtrlLen frame).isGroup = true ∨ frameDestination rxCtrlLen frame = own

section Control
variable (b0 b1 : UInt8)

theorem control_bytes : UInt16.ofNat (leValue [b0,b1]) = b0.toUInt16 ||| b1.toUInt16 <<< 8 := by
  apply UInt16.toNat.inj
  have low := b0.toNat_lt
  have high := b1.toNat_lt
  have parts := Nat.two_pow_add_eq_or_of_lt low b1.toNat
  simp only [leValue,UInt16.toNat_ofNat',UInt16.toNat_or,UInt16.toNat_shiftLeft,UInt8.toNat_toUInt16,Nat.shiftLeft_eq]
  rw [Nat.mod_eq_of_lt (by omega),Nat.mod_eq_of_lt (by simp; omega),Nat.or_comm]
  simpa [Nat.mul_comm,Nat.add_comm] using parts

theorem masked (mask : UInt16) : UInt16.ofNat (leValue [b0,b1]) &&& mask =
    (b0.toUInt16 &&& mask) ||| (b1.toUInt16 <<< 8 &&& mask) := by
  rw [control_bytes]
  apply UInt16.toNat.inj
  simp only [UInt16.toNat_and,UInt16.toNat_or]
  exact Nat.and_or_distrib_right _ _ _

theorem type_byte : frameType (UInt16.ofNat (leValue [b0,b1])) = b0.toUInt16 &&& (0x00fc : UInt16) := by
  have none_high : ∀ b : UInt8, b.toUInt16 <<< 8 &&& (0x00fc : UInt16) = 0 := by decide +kernel
  exact (masked b0 b1 0x00fc).trans (by rw [none_high,UInt16.or_zero])

-- All that the flags contribute to the key of the switch is the Retry bit.
theorem kind_byte (retry : Bool) :
    frameKind (UInt16.ofNat (leValue [b0,if retry then b1 ||| 0x08 else b1 &&& 0xf7])) =
      (b0.toUInt16 &&& (0x00fc : UInt16)) ||| if retry then 0x0800 else 0 := by
  have low : ∀ b : UInt8, b.toUInt16 &&& (0x08fc : UInt16) = b.toUInt16 &&& (0x00fc : UInt16) := by decide +kernel
  have set : ∀ b : UInt8, (b ||| 0x08).toUInt16 <<< 8 &&& (0x08fc : UInt16) = 0x0800 := by decide +kernel
  have clear : ∀ b : UInt8, (b &&& 0xf7).toUInt16 <<< 8 &&& (0x08fc : UInt16) = 0 := by decide +kernel
  refine (masked b0 _ 0x08fc).trans ?_
  rw [low]
  cases retry with
  | true => rw [if_pos rfl,if_pos rfl,set]
  | false => rw [if_neg (by decide),if_neg (by decide),clear]

end Control

section Layout
variable {rxCtrlLen : Nat} {self : EtherAddr} {frame front tail : List UInt8} {b0 b1 : UInt8}

theorem modify_behind (front tail : List UInt8) (b0 b1 : UInt8) (f : UInt8 → UInt8) :
    (front ++ b0 :: b1 :: tail).modify (front.length + 1) f = front ++ b0 :: f b1 :: tail := by
  induction front with
  | nil => rfl
  | cons b front ih => exact congrArg (b :: ·) ih

theorem laid_out (long : rxCtrlLen + Ieee80211Hdr.size ≤ frame.length) :
    ∃ front b0 b1 tail, front.length = rxCtrlLen ∧ 22 ≤ tail.length ∧ frame = front ++ b0 :: b1 :: tail := by
  rw [Ieee80211Hdr.size] at long
  have rest : (frame.drop rxCtrlLen).length = frame.length - rxCtrlLen := List.length_drop
  obtain ⟨b0,more,first⟩ := List.exists_cons_of_length_pos (by omega : 0 < (frame.drop rxCtrlLen).length)
  rw [first,List.length_cons] at rest
  obtain ⟨b1,tail,rfl⟩ := List.exists_cons_of_length_pos (by omega : 0 < more.length)
  rw [List.length_cons] at rest
  refine ⟨frame.take rxCtrlLen,b0,b1,tail,by rw [List.length_take]; omega,by omega,?_⟩
  rw [← first,List.take_append_drop]

theorem route_short (short : frame.length < rxCtrlLen + Ieee80211Hdr.size) :
    route rxCtrlLen self frame = .drop .tooShort := by
  unfold route
  cases readU8 frame 0 with
  | none => rfl
  | some rssi =>
    cases stripped : bufStrip frame rxCtrlLen with
    | none => rfl
    | some inner =>
      obtain ⟨rfl,_⟩ := strip_some stripped
      have missing : readBytes (frame.drop rxCtrlLen) 0 Ieee80211Hdr.size = none :=
        readWord_short (by rw [List.length_drop]; omega)
      simp only [checkedRead_some,missing,checkedRead_none]

theorem route_laid (long : 22 ≤ tail.length) :
    route front.length self (front ++ b0 :: b1 :: tail) = routeHdr self (front.headD b0) (b0 :: b1 :: tail) := by
  have first : readU8 (front ++ b0 :: b1 :: tail) 0 = some (front.headD b0) := by
    rw [readU8,readWord_long _ (by simp only [List.length_append,List.length_cons]; omega)]
    cases front <;> rfl
  have header : readBytes (b0 :: b1 :: tail) 0 Ieee80211Hdr.size = some (slice 0 Ieee80211Hdr.size (b0 :: b1 :: tail)) :=
    readWord_long id (by simp [Ieee80211Hdr.size]; omega)
  rw [route,first,checkedRead_some,strip_append,checkedRead_some,header,checkedRead_some]

theorem source_laid : frameSource front.length (front ++ b0 :: b1 :: tail) = EtherAddr.ofBytes (slice 8 6 tail) := by
  rw [frameSource,List.drop_left]
  rfl

theorem destination_laid : frameDestination front.length (front ++ b0 :: b1 :: tail) = EtherAddr.ofBytes (slice 2 6 tail) := by
  rw [frameDestination,List.drop_left]
  rfl

theorem control_laid : frameControlOf front.length (front ++ b0 :: b1 :: tail) = UInt16.ofNat (leValue [b0,b1]) := by
  rw [frameControlOf,List.drop_left]
  rfl

-- Of the first two bytes, only the type that the body is dispatched on depends.
theorem hdr_laid (long : 22 ≤ tail.length) (rssi : UInt8) : routeHdr self rssi (b0 :: b1 :: tail) =
    if EtherAddr.ofBytes (slice 8 6 tail) = self then .drop .ignoreFromSelf
    else if !(EtherAddr.ofBytes (slice 2 6 tail)).isGroup ∧ EtherAddr.ofBytes (slice 2 6 tail) ≠ self then
      .drop .ignoreNopromisc
    else routeBody rssi (EtherAddr.ofBytes (slice 8 6 tail)) (EtherAddr.ofBytes (slice 2 6 tail))
      (UInt16.ofNat (leValue [b0,b1])) (tail.drop 22) := by
  have body : bufStrip (b0 :: b1 :: tail) Ieee80211Hdr.size = some (tail.drop 22) :=
    if_neg (by simp only [bufLen,List.length_cons,Ieee80211Hdr.size]; omega)
  unfold routeHdr
  rw [body]
  rfl

theorem filter_iff (addr self : EtherAddr) :
    ((!addr.isGroup) = true ∧ addr ≠ self) ↔ ¬(addr.isGroup = true ∨ addr = self) := by
  rw [not_or,Bool.not_eq_true',Bool.not_eq_true]

theorem route_admitted (admitted : Admitted front.length self (front ++ b0 :: b1 :: tail)) (long : 22 ≤ tail.length) :
    route front.length self (front ++ b0 :: b1 :: tail) = routeBody (front.headD b0) (EtherAddr.ofBytes (slice 8 6 tail))
      (EtherAddr.ofBytes (slice 2 6 tail)) (UInt16.ofNat (leValue [b0,b1])) (tail.drop 22) := by
  obtain ⟨_,foreign,addressed⟩ := admitted
  rw [source_laid] at foreign
  rw [destination_laid] at addressed
  rw [route_laid long,hdr_laid long,if_neg foreign,if_neg (by rw [filter_iff]; exact not_not_intro addressed)]

theorem admitted_flags (admitted : Admitted front.length self (front ++ b0 :: b1 :: tail)) (b : UInt8) :
    Admitted front.length self (front ++ b0 :: b :: tail) := by
  obtain ⟨header,foreign,addressed⟩ := admitted
  rw [source_laid] at foreign
  rw [destination_laid] at addressed
  refine ⟨?_,?_,?_⟩
  · simpa using header
  · rwa [source_laid]
  · rwa [destination_laid]

theorem route_refused (refused : ¬Admitted rxCtrlLen self frame) (retry : Bool) :
    ∃ result, route rxCtrlLen self frame = .drop result ∧ route rxCtrlLen self (withRetry rxCtrlLen retry frame) = .drop result := by
  by_cases short : frame.length < rxCtrlLen + Ieee80211Hdr.size
  · refine ⟨_,route_short short,route_short ?_⟩
    rwa [withRetry,List.length_modify]
  · have header := Nat.le_of_not_lt short
    obtain ⟨front,b0,b1,tail,rfl,long,rfl⟩ := laid_out header
    rw [withRetry,modify_behind]
    simp only [route_laid long,hdr_laid long]
    by_cases own : EtherAddr.ofBytes (slice 8 6 tail) = self
    · exact ⟨_,if_pos own,if_pos own⟩
    · have away : ¬((EtherAddr.ofBytes (slice 2 6 tail)).isGroup = true ∨ EtherAddr.ofBytes (slice 2 6 tail) = self) := by
        intro addressed
        refine refused ⟨header,?_,?_⟩
        · rwa [source_laid]
        · rwa [destination_laid]
      rw [← filter_iff] at away
      refine ⟨.ignoreNopromisc,?_,?_⟩ <;> rw [if_neg own,if_pos away]

end Layout

-- The types that the switch lists without the Retry bit only.
def OnceListed (type : UInt16) : Prop :=
  type = ieee80211FtypeMgmt ||| ieee80211StypeAction ∨ type = ieee80211FtypeData ||| ieee80211StypeData

def IsQos (kind : UInt16) : Prop := kind = ieee80211FtypeData ||| ieee80211StypeData ||| ieee80211StypeQosData ∨
  kind = ieee80211FtypeData ||| ieee80211StypeData ||| ieee80211StypeQosData ||| 0x0800

-- QoS data is listed both ways, and no other type with the bit set.
theorem qos_both_ways : ∀ b : UInt8, IsQos ((b.toUInt16 &&& (0x00fc : UInt16)) ||| 0x0800) ↔ IsQos (b.toUInt16 &&& (0x00fc : UInt16)) := by
  unfold IsQos
  decide +kernel

theorem unlisted_set : ∀ b : UInt8, ¬OnceListed ((b.toUInt16 &&& (0x00fc : UInt16)) ||| 0x0800) := by
  unfold OnceListed
  decide +kernel

theorem own_retry : ∀ b : UInt8, b ||| 0x08 = b ∨ b &&& 0xf7 = b := by decide +kernel

instance (kind : UInt16) : Decidable (IsQos kind) := inferInstanceAs (Decidable (_ ∨ _))

section Body
variable (b0 b1 rssi : UInt8) (src dst : EtherAddr) (body : Buf)

theorem body_set : routeBody rssi src dst (UInt16.ofNat (leValue [b0,b1 ||| 0x08])) body =
    if IsQos (b0.toUInt16 &&& (0x00fc : UInt16)) then routeQos src dst body else .drop .unexpectedType := by
  have set : frameKind _ = _ := kind_byte b0 b1 true
  have unlisted := unlisted_set b0
  have qos := qos_both_ways b0
  rw [OnceListed,not_or] at unlisted
  simp only [if_true] at set
  rw [routeBody,set,if_neg unlisted.1,if_neg unlisted.2]
  exact if_congr qos rfl rfl

theorem body_clear : routeBody rssi src dst (UInt16.ofNat (leValue [b0,b1 &&& 0xf7])) body =
    if b0.toUInt16 &&& (0x00fc : UInt16) = ieee80211FtypeMgmt ||| ieee80211StypeAction then .action rssi.toInt8 src body
    else if IsQos (b0.toUInt16 &&& (0x00fc : UInt16)) then routeQos src dst body
    else if b0.toUInt16 &&& (0x00fc : UInt16) = ieee80211FtypeData ||| ieee80211StypeData then .data src dst body
    else .drop .unexpectedType := by
  have clear : frameKind _ = _ := kind_byte b0 b1 false
  simp only [Bool.false_eq_true,if_false,UInt16.or_zero] at clear
  rw [routeBody,clear]
  rfl

theorem body_same (other : ¬OnceListed (b0.toUInt16 &&& (0x00fc : UInt16))) :
    routeBody rssi src dst (UInt16.ofNat (leValue [b0,b1 ||| 0x08])) body =
      routeBody rssi src dst (UInt16.ofNat (leValue [b0,b1 &&& 0xf7])) body := by
  rw [OnceListed,not_or] at other
  rw [body_set,body_clear,if_neg other.1,if_neg other.2]

theorem body_once (once : OnceListed (b0.toUInt16 &&& (0x00fc : UInt16))) :
    routeBody rssi src dst (UInt16.ofNat (leValue [b0,b1 ||| 0x08])) body = .drop .unexpectedType ∧
      (routeBody rssi src dst (UInt16.ofNat (leValue [b0,b1 &&& 0xf7])) body = .action rssi.toInt8 src body ∨
        routeBody rssi src dst (UInt16.ofNat (leValue [b0,b1 &&& 0xf7])) body = .data src dst body) := by
  rw [body_set,body_clear]
  rcases once with action | data
  · rw [action]
    exact ⟨rfl,.inl rfl⟩
  · rw [data]
    exact ⟨rfl,.inr rfl⟩

end Body

variable {hash : EtherAddr → UInt64}

-- RX_UNEXPECTED_TYPE is the answer of the dispatch alone.
theorem action_result (ran : awdlRxAction hash env frame rssi tsft src state = some run) : run.result ≠ .unexpectedType := by
  rcases (action_answer ran).2 with same | same | same | same <;> rw [same] <;> decide

theorem data_result (mem : Nat → UInt8) (frame : Buf) (src dst : EtherAddr) (state : AwdlState) :
    (awdlRxData hash mem frame src dst state).1 ≠ .unexpectedType := by
  unfold awdlRxData
  dsimp only
  split
  · simp
  · split
    · simp
    · split <;> simp

def seen (run : Option RxRun) : Option (RxResult × List Buf × AwdlState) :=
  run.map fun run => (run.result,run.out,run.state)

-- Neither setting nor clearing the bit makes a difference.
def Indifferent (hash : EtherAddr → UInt64) (env : Ambient) (rxCtrlLen : Nat) (frame : Buf) (now : UInt64)
    (state : AwdlState) : Prop :=
  ∀ retry, seen (awdlRx hash env rxCtrlLen (withRetry rxCtrlLen retry frame) now state) =
    seen (awdlRx hash env rxCtrlLen frame now state)

theorem retry_indifferent_iff (env : Ambient) (rxCtrlLen : Nat) (frame : Buf) (now : UInt64) (state : AwdlState) :
    Indifferent hash env rxCtrlLen frame now state ↔
      ¬(Admitted rxCtrlLen state.selfAddress frame ∧ OnceListed (frameType (frameControlOf rxCtrlLen frame))) := by
  constructor
  · rintro same ⟨admitted,once⟩
    have both := (same true).trans (same false).symm
    obtain ⟨front,b0,b1,tail,rfl,long,rfl⟩ := laid_out admitted.header
    rw [control_laid,type_byte] at once
    obtain ⟨dropped,handled⟩ := body_once b0 b1 (front.headD b0) (EtherAddr.ofBytes (slice 8 6 tail))
      (EtherAddr.ofBytes (slice 2 6 tail)) (tail.drop 22) once
    have keeps := admitted_flags admitted
    simp only [rx_follows,withRetry,modify_behind,route_admitted (keeps _) long,if_true,Bool.false_eq_true,if_false] at both
    rw [dropped] at both
    rcases handled with action | data
    · rw [action] at both
      obtain ⟨run,ran,answer⟩ := Option.map_eq_some_iff.mp both.symm
      exact action_result ran (congrArg Prod.fst answer)
    · rw [data] at both
      exact data_result _ _ _ _ _ (congrArg Prod.fst (Option.some.inj both)).symm
  · intro spared retry
    rw [rx_follows,rx_follows]
    congr 2
    by_cases admitted : Admitted rxCtrlLen state.selfAddress frame
    · have other : ¬OnceListed (frameType (frameControlOf rxCtrlLen frame)) := fun once => spared ⟨admitted,once⟩
      obtain ⟨front,b0,b1,tail,rfl,long,rfl⟩ := laid_out admitted.header
      rw [control_laid,type_byte] at other
      have same := body_same b0 b1 (front.headD b0) (EtherAddr.ofBytes (slice 8 6 tail))
        (EtherAddr.ofBytes (slice 2 6 tail)) (tail.drop 22) other
      rw [withRetry,modify_behind,route_admitted (admitted_flags admitted _) long,route_admitted admitted long]
      rcases own_retry b1 with set | clear
      · rw [set] at same
        cases retry with
        | true => rw [if_pos rfl,set]
        | false => exact same.symm
      · rw [clear] at same
        cases retry with
        | true => exact same
        | false => rw [if_neg (by decide),clear]
    · obtain ⟨result,before,after⟩ := route_refused admitted retry
      rw [before,after]

-- A data frame that a known neighbour sends again.
def resentData : Buf :=
  radioHdr ++ (Ieee80211Hdr.mk 0x0008 0 nodeOne nodeTwo awdlBssid 0).bytes ++
    (LlcHdr.mk 0xaa 0xaa 0x03 awdlOui awdlLlcProtocolId).bytes ++ (AwdlData.mk 0x0403 0 0 ethPIpv6).bytes ++ [1,0,0,0,0]

theorem retry_lost : ¬ ∀ hash env rxCtrlLen frame now state,
    OnceListed (frameType (frameControlOf rxCtrlLen frame)) ∨ IsQos (frameType (frameControlOf rxCtrlLen frame)) →
      Indifferent hash env rxCtrlLen frame now state := by
  intro always
  have same := always (fun _ => 0) quiet 24 resentData 0 acquainted (.inl (.inr (by decide +kernel))) true
  have results := congrArg (Option.map Prod.fst) same
  revert results
  decide +kernel

end EspOwl.RetryBit
