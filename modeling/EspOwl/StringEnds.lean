import EspOwl.Addressing
import EspOwl.TlvAtomicity

namespace EspOwl.StringEnds
open ByteCodec Addressing Histories PeerMap PeerHistory TlvLoop TlvAtomicity ActionFrames Dispatch SenderRecords NodeHistory

-- What strlen and %s need of an array.
def Ends (array : CharArray n) : Prop := 0 ∈ array.bytes

section Copies
variable {n : Nat}

theorem overwrite_ends (array : CharArray n) {written : List UInt8} (fits : written.length ≤ n) (ends : 0 ∈ written) :
    Ends (array.overwrite written) := by
  rw [Ends,array.overwrite_bytes fits]
  exact List.mem_append_left _ ends

-- strncpy ends a string that is shorter than the copy; else the byte behind must.
theorem strncpy_ends (array : CharArray (n + 1)) (string : List UInt8) :
    Ends (strncpy array string n) ↔ (string.takeWhile (· ≠ 0)).length < n ∨ 0 ∈ array.bytes.drop n := by
  have clean : 0 ∉ string.takeWhile (· ≠ 0) := fun member => by simpa using List.mem_takeWhile_imp member
  have width : ((string.takeWhile (· ≠ 0) ++ List.replicate n 0).take n).length = n := by
    rw [List.length_take,List.length_append,List.length_replicate]
    omega
  rw [strncpy,Ends,CharArray.overwrite_bytes _ (by rw [width]; omega),width,List.mem_append]
  refine or_congr_left ?_
  generalize string.takeWhile (· ≠ 0) = text at clean
  rw [List.take_append,List.mem_append,List.take_replicate]
  constructor
  · rintro (own | zeros)
    · exact absurd (List.mem_of_mem_take own) clean
    · rw [List.mem_replicate] at zeros
      omega
  · intro short
    exact .inr (List.mem_replicate.mpr ⟨by omega,rfl⟩)

theorem string_ends (read : readIntString val offset length = some string) :
    string.length ≤ length + 1 ∧ 0 ∈ string := by
  unfold readIntString at read
  cases first : readU8 val offset with
  | none => rw [first] at read; cases read
  | some len =>
    rw [first,checkedRead_some] at read
    cases second : readBytesCopy val (offset + 1) (if len.toNat > length then length else len.toNat) with
    | none => simp only [second] at read; cases read
    | some bytes =>
      simp only [second,checkedRead_some] at read
      cases read
      have inside := readWord_inside second
      rw [readBytesCopy,readWord_long _ inside] at second
      cases second
      refine ⟨?_,List.mem_append_right _ List.mem_cons_self⟩
      rw [List.length_append,id,slice_length inside]
      split
      · simp
      · simp only [List.length_cons,List.length_nil]
        omega

end Copies

-- The strings of a record.
structure RecordEnds (peer : AwdlPeer) : Prop where
  name : Ends peer.name
  countryCode : Ends peer.countryCode

theorem new_ends (src : EtherAddr) (mem : AwdlPeer) : RecordEnds (awdlPeerNew src mem) :=
  ⟨overwrite_ends _ (by decide) (by decide),overwrite_ends _ (by decide) (by decide)⟩

theorem touch_ends (met : RecordEnds peer) : RecordEnds (touch now peer) := by
  unfold touch
  dsimp only
  split <;> exact ⟨met.name,met.countryCode⟩

theorem arpa_ends (met : RecordEnds src) (val : Buf) : RecordEnds (awdlHandleArpaTlv src val).2 :=
  read_keeps (P := RecordEnds) met fun string read => by
    obtain ⟨fits,ends⟩ := string_ends read
    exact ⟨overwrite_ends _ fits ends,met.countryCode⟩

-- A country code whose three bytes, copied as they are, hold no zero.
structure CodeUnended (tlv : Tlv) : Prop where
  kind : tlv.1 = awdlDataPathStateTlv
  flagged : ∃ flags, readLe16 tlv.2 0 = some flags ∧ flags &&& awdlDataPathFlagCountryCode ≠ 0
  complete : 5 ≤ tlv.2.length
  code : 0 ∉ slice 2 3 tlv.2

theorem dataPath_ends_code (met : RecordEnds src) {val : Buf} (spared : ¬CodeUnended (awdlDataPathStateTlv,val)) :
    RecordEnds (awdlHandleDataPathStateTlv src val).2 := by
  cases read : readLe16 val 0 with
  | none =>
    rw [awdlHandleDataPathStateTlv,read]
    exact met
  | some flags =>
    have coded : countryEnd flags ≤ val.length → RecordEnds (withCountry src flags val) := by
      intro long
      unfold withCountry
      split
      · rename_i flagged
        rw [countryEnd,partSize,if_pos flagged] at long
        refine ⟨met.name,overwrite_ends _ (by rw [slice_length long]) ?_⟩
        by_contra unended
        exact spared ⟨rfl,⟨flags,read,flagged⟩,long,unended⟩
      · exact met
    rw [dataPath_ends src read]
    dsimp only [dataPathLeft]
    split
    · exact met
    · rename_i long
      have whole := coded (Nat.le_of_not_lt long)
      split
      · exact whole
      · unfold withInfraAddr
        split
        · exact ⟨whole.name,whole.countryCode⟩
        · exact whole

theorem handle_ends (mem : Fin awdlChanseqLength → AwdlChan) (met : RecordEnds src) (type : UInt8) (val : Buf)
    (spared : ¬CodeUnended (type,val)) (state : AwdlState) (tsft : UInt64) :
    RecordEnds (awdlHandleTlv mem src type val state tsft).2.1 := by
  revert spared
  refine handle_elim (motive := fun type run => ¬CodeUnended (type,val) → RecordEnds run.2.1) type ?sync ?chanseq
    ?election ?electionV2 ?arpa ?dataPath ?version ?other
  case sync => exact fun _ => met
  case chanseq =>
    obtain ⟨_,written⟩ := chanseq_writes mem src val state
    rw [written]
    exact fun _ => ⟨met.name,met.countryCode⟩
  case election =>
    obtain ⟨_,_,_,_,written⟩ := election_writes src val
    rw [written]
    exact fun _ => ⟨met.name,met.countryCode⟩
  case electionV2 =>
    obtain ⟨_,_,written,_⟩ := electionV2_writes src val
    rw [written]
    exact fun _ => ⟨met.name,met.countryCode⟩
  case arpa => exact fun _ => arpa_ends met val
  case dataPath => exact fun spared => dataPath_ends_code met spared
  case version =>
    obtain ⟨_,_,written⟩ := version_writes src val
    rw [written]
    exact fun _ => ⟨met.name,met.countryCode⟩
  case other => exact fun _ _ _ _ => met

variable {hash : EtherAddr → UInt64} {rxCtrlLen : Nat} {self : EtherAddr}

-- awdl_handle_tlv is handed no such country code.
def SparesCodes (hash : EtherAddr → UInt64) (rxCtrlLen : Nat) (state : AwdlState) : Event → Prop
  | .receive env frame now => ∀ run, awdlRx hash env rxCtrlLen frame now state = some run →
    ∀ tlv ∈ run.calls, ¬CodeUnended tlv
  | _ => True

-- A node whose frames spare the codes.
def SparedStep (hash : EtherAddr → UInt64) (rxCtrlLen : Nat) (state : AwdlState) (event : Event) (out : List Buf)
    (next : AwdlState) : Prop :=
  NodeStep hash rxCtrlLen state event out next ∧ SparesCodes hash rxCtrlLen state event

theorem loop_ends (met : RecordEnds src) {chanMem : Nat → Fin awdlChanseqLength → AwdlChan} {tsft : UInt64} {b : Buf}
    {state : AwdlState} (spared : ∀ tlv ∈ (awdlRxTlvs chanMem tsft b src state).calls, ¬CodeUnended tlv) :
    RecordEnds (awdlRxTlvs chanMem tsft b src state).src := by
  refine tlvs_preserve (P := fun peer _ => RecordEnds peer) b src state ?_ met
  intro tlv called mem peer s before
  exact handle_ends mem before tlv.1 tlv.2 (spared tlv called) s tsft

theorem end_hands (ran : awdlRxActionEnd hash env callocs tsft src subtype loop called = some run) :
    run.calls = loop.calls := by
  rcases end_runs ran with ⟨_,rfl⟩ | ⟨_,_,_,rfl⟩ <;> rfl

-- The invariant: the address and the name stay, and the strings of every record end.
structure Kept (hash : EtherAddr → UInt64) (own : EtherAddr) (title : CharArray (hostNameLengthMax + 1))
    (state : AwdlState) : Prop where
  address : state.selfAddress = own
  name : state.name = title
  records : ∃ f, Refines hash state.peers.peers f ∧ ∀ addr peer, f addr = some peer → RecordEnds peer

theorem action_keeps (kept : Kept hash self title state)
    (spared : ∀ tlv ∈ run.calls, ¬CodeUnended tlv)
    (ran : awdlRxAction hash env frame rssi tsft src state = some run) : Kept hash self title run.state := by
  obtain ⟨own,same,f,refines,met⟩ := kept
  have loop : ∀ entry, admission hash env frame rssi tsft src state = .entered entry → RecordEnds entry.peer →
      RecordEnds (awdlRxTlvs env.chanMem tsft ((bufStrip frame AwdlAction.size).getD frame) entry.peer
        (counted state entry.added)).src := by
    intro entry start before
    have handed := end_hands ((action_entered start).symm.trans ran)
    exact loop_ends before (handed ▸ spared)
  have settled : ∀ {subtype peer}, RecordEnds peer → RecordEnds (settle tsft subtype peer) :=
    settle_good (fun _ => touch_ends) fun _ met => ⟨met.name,met.countryCode⟩
  obtain ⟨⟨g,rewritten⟩,sync,stats,left,_⟩ := action_rewritten RecordEnds refines (met src)
    (fun _ => respected_of (fun _ => new_ends src env.peerMem) (met src) fun _ => touch_ends)
    (fun entry start before => ⟨fun _ => loop entry start before,fun _ => settled (loop entry start before)⟩) ran
  refine ⟨by rw [left]; exact own,by rw [left]; exact same,g,rewritten.refines,?_⟩
  intro addr peer held
  by_cases here : addr = src
  · exact rewritten.own peer (here ▸ held)
  · exact met addr peer (rewritten.others addr peer here held)

theorem step_keeps_ends (kept : Kept hash self title state) (step : SparedStep hash rxCtrlLen state event out next) :
    Kept hash self title next := by
  obtain ⟨step,spared⟩ := step
  rcases step_cases step with ⟨_,frame,_,run,rfl,ran,rfl⟩ | ⟨now,_,rfl⟩ | ⟨_,_,_,_,rfl⟩
  · rcases rx_cases ran with ⟨stats,left⟩ | ⟨_,_,_,acted⟩
    · rw [left]
      exact ⟨kept.address,kept.name,kept.records⟩
    · exact action_keeps kept (spared run ran) acted
  · obtain ⟨own,same,f,refines,met⟩ := kept
    refine ⟨own,same,_,removeBefore_refines refines _,fun addr peer held => ?_⟩
    rw [PartialMaps.keepIf,Option.filter_eq_some_iff] at held
    exact met addr peer held.1
  · exact ⟨kept.address,kept.name,kept.records⟩

-- The strings of a state: the own name, and those of every record in the table.
structure StringsEnd (state : AwdlState) : Prop where
  name : Ends state.name
  records : ∀ entry ∈ state.peers.peers.entries, RecordEnds entry.2

-- A name that leaves room in the copy, or memory that happens to end it.
def NameFits (mem : AwdlState) (hostname : List UInt8) : Prop :=
  (hostname.takeWhile (· ≠ 0)).length < hostNameLengthMax ∨ 0 ∈ mem.name.bytes.drop hostNameLengthMax

theorem strings_end_iff
    (path : Runs (SparedStep hash rxCtrlLen) (awdlInitState mem hostname self chan boot) trace state) :
    StringsEnd state ↔ NameFits mem hostname := by
  have start : Kept hash self (strncpy mem.name hostname hostNameLengthMax) (awdlInitState mem hostname self chan boot) :=
    ⟨rfl,rfl,_,init_refines,fun _ _ held => nomatch held⟩
  have kept := runs_invariant (motive := Kept hash self (strncpy mem.name hostname hostNameLengthMax))
    (fun _ _ _ _ before taken => step_keeps_ends before taken) start path
  obtain ⟨_,same,f,refines,met⟩ := kept
  have own : Ends state.name ↔ NameFits mem hostname := same ▸ strncpy_ends mem.name hostname
  rw [← own]
  refine ⟨StringsEnd.name,fun name => ⟨name,?_⟩⟩
  rintro ⟨addr,peer⟩ listed
  exact met addr peer ((refines.listed.exact addr peer).mp listed)

-- A neighbour that says where it is, with these three bytes for the country.
def countryFrame (code : List UInt8) : Buf := greeting ++ tlvBytes awdlDataPathStateTlv (le16 0x0100 ++ code)

-- A good code, and one without an end behind a version TLV that is refused.
def germanFrame : Buf := countryFrame [0x44,0x45,0] ++ tlvBytes awdlVersionTlv [0x34] ++
  tlvBytes awdlDataPathStateTlv (le16 0x0100 ++ [0x44,0x45,0x55])

theorem strings_end_german : ∃ run, awdlRx (fun _ => 0) roomy 24 germanFrame 0 fresh = some run ∧
    run.calls = [(awdlDataPathStateTlv,le16 0x0100 ++ [0x44,0x45,0]),(awdlVersionTlv,[0x34])] ∧
    StringsEnd run.state := by
  have returns : (awdlRx (fun _ => 0) roomy 24 germanFrame 0 fresh).map RxRun.calls =
      some [(awdlDataPathStateTlv,le16 0x0100 ++ [0x44,0x45,0]),(awdlVersionTlv,[0x34])] := by decide +kernel
  obtain ⟨run,ran,calls⟩ := Option.map_eq_some_iff.mp returns
  have spared : SparesCodes (fun _ => 0) 24 fresh (.receive roomy germanFrame 0) := by
    intro again same tlv listed unended
    cases ran.symm.trans same
    rw [calls,List.mem_cons,List.mem_singleton] at listed
    rcases listed with rfl | rfl
    · exact unended.code (by decide)
    · exact absurd unended.kind (by decide)
  exact ⟨run,ran,calls,(strings_end_iff (.cons ⟨.receive ran,spared⟩ .nil)).mpr (.inl (by decide))⟩

-- A code of three letters.
theorem strings_unended : ¬ ∀ hash rxCtrlLen mem hostname self chan boot trace state,
    Runs (NodeStep hash rxCtrlLen) (awdlInitState mem hostname self chan boot) trace state →
    (∀ entry ∈ trace, ∃ env frame now, entry.1 = .receive env frame now) → StringsEnd state := by
  intro always
  have bad : ((awdlRx (fun _ => 0) roomy 24 (countryFrame [0x44,0x45,0x55]) 0 fresh).map fun run =>
      run.state.peers.peers.entries.map fun entry => entry.2.countryCode.bytes) = some [[0x44,0x45,0x55]] := by
    decide +kernel
  obtain ⟨run,ran,codes⟩ := Option.map_eq_some_iff.mp bad
  have ends := always _ _ _ _ _ _ _ _ _ (.cons (.receive ran) .nil) (by
    intro entry member
    cases List.mem_singleton.mp member
    exact ⟨_,_,_,rfl⟩)
  obtain ⟨entry,listed,code⟩ := List.mem_map.mp (codes.symm ▸ List.mem_cons_self :
    [0x44,0x45,0x55] ∈ run.state.peers.peers.entries.map fun entry => entry.2.countryCode.bytes)
  have terminated := (ends.records entry listed).countryCode
  rw [Ends,code] at terminated
  revert terminated
  decide

end EspOwl.StringEnds
