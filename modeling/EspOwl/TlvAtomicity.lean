import EspOwl.TlvLoop

namespace EspOwl.TlvAtomicity
open ByteCodec TlvLoop

-- A negative result leaves what it was before the call.
def Atomic (before : σ) (run : RxResult × σ) : Prop := run.1.code < 0 → run.2 = before

section Reads

theorem failed_atomic (before left : σ) : Atomic before (RxResult.tooShort,left) ↔ left = before := by
  constructor
  · intro atomic
    exact atomic (by decide : RxResult.tooShort.code < 0)
  · intro same _
    exact same

theorem ok_atomic (before left : σ) : Atomic before (RxResult.ok,left) := by
  intro failed
  exact absurd failed (by decide : ¬ RxResult.ok.code < 0)

-- A read that fails here leaves the record as the reads before it made it.
theorem read_atomic {before : σ} {read : Option α} {left : σ} {next : α → RxResult × σ} :
    Atomic before (checkedRead read (.tooShort,left) next) ↔
      (read = none → left = before) ∧ ∀ value, read = some value → Atomic before (next value) := by
  cases read with
  | none => simp [failed_atomic]
  | some value => simp

theorem first_read_atomic {before : σ} {read : Option α} {next : α → RxResult × σ} :
    Atomic before (checkedRead read (.tooShort,before) next) ↔
      ∀ value, read = some value → Atomic before (next value) := by
  rw [read_atomic]
  exact and_iff_right fun _ => rfl

end Reads

-- These handlers read everything into locals before the first write.
section Careful

theorem sync_atomic (src : AwdlPeer) (val : Buf) (state : AwdlState) (now : UInt64) :
    Atomic state (awdlHandleSyncParamsTlv src val state now) := by
  unfold awdlHandleSyncParamsTlv
  split
  · intro failed
    exact absurd failed (by decide : ¬ RxResult.ignore.code < 0)
  · rw [first_read_atomic]
    intro _ _
    rw [first_read_atomic]
    intro _ _
    exact ok_atomic _ _

theorem chanseq_atomic (mem : Fin awdlChanseqLength → AwdlChan) (src : AwdlPeer) (val : Buf) (state : AwdlState) :
    Atomic src (awdlHandleChanseqTlv mem src val state) := by
  have refused : Atomic src (RxResult.unexpectedValue,src) := fun _ => rfl
  have stopped : Atomic src (RxResult.tooShort,src) := fun _ => rfl
  unfold awdlHandleChanseqTlv
  refine checkedRead_holds stopped fun _ _ => ?_
  split
  · exact refused
  · refine checkedRead_holds stopped fun _ _ => ?_
    split
    · exact refused
    · refine checkedRead_holds stopped fun _ _ => ?_
      split
      · exact refused
      · refine checkedRead_holds stopped fun _ _ => ?_
        split
        · exact refused
        · refine checkedRead_holds stopped fun _ _ => ?_
          dsimp only
          split
          · exact refused
          · refine checkedRead_holds stopped fun list _ => ?_
            split
            · exact ok_atomic _ _
            · exact ok_atomic _ _

theorem arpa_atomic (src : AwdlPeer) (val : Buf) : Atomic src (awdlHandleArpaTlv src val) := by
  unfold awdlHandleArpaTlv
  rw [first_read_atomic]
  intro _ _
  exact ok_atomic _ _

theorem version_atomic (src : AwdlPeer) (val : Buf) : Atomic src (awdlHandleVersionTlv src val) := by
  unfold awdlHandleVersionTlv
  rw [first_read_atomic]
  intro _ _
  rw [first_read_atomic]
  intro _ _
  exact ok_atomic _ _

end Careful

-- These write field by field. What was read before the cut stands in the record already.
section Direct

@[mk_iff]
structure ElectionStands (src : AwdlPeer) (val : Buf) : Prop where
  masterAddr : ∀ addr, readEtherAddr val 5 = some addr → addr = src.election.masterAddr
  height : ∀ distance, readU8 val 3 = some distance → distance.toUInt32 = src.election.height
  masterMetric : ∀ metric, readLe32 val 11 = some metric → metric = src.election.masterMetric

@[mk_iff]
structure ElectionV2Stands (src : AwdlPeer) (val : Buf) : Prop where
  masterAddr : ∀ addr, readEtherAddr val 0 = some addr → addr = src.election.masterAddr
  syncAddr : ∀ addr, readEtherAddr val 6 = some addr → addr = src.election.syncAddr
  height : ∀ height, readLe32 val 16 = some height → height = src.election.height
  masterMetric : ∀ metric, readLe32 val 20 = some metric → metric = src.election.masterMetric
  selfMetric : ∀ metric, readLe32 val 24 = some metric → metric = src.election.selfMetric
  masterCounter : ∀ counter, readLe32 val 12 = some counter → counter = src.election.masterCounter

theorem election_replaced (src : AwdlPeer) (election : AwdlElectionState) :
    {src with election := election} = src ↔ election = src.election := by
  constructor
  · intro same
    exact congrArg AwdlPeer.election same
  · rintro rfl
    rfl

theorem election_fields {e : AwdlElectionState} {height masterMetric selfMetric masterCounter selfCounter : UInt32}
    {masterAddr syncAddr : EtherAddr} :
    (⟨masterAddr,syncAddr,e.selfAddr,height,masterMetric,selfMetric,masterCounter,selfCounter⟩ : AwdlElectionState) = e ↔
      masterAddr = e.masterAddr ∧ syncAddr = e.syncAddr ∧ height = e.height ∧ masterMetric = e.masterMetric ∧
        selfMetric = e.selfMetric ∧ masterCounter = e.masterCounter ∧ selfCounter = e.selfCounter := by
  obtain ⟨_,_,_,_,_,_,_,_⟩ := e
  simp

theorem readWord_later {decode : List UInt8 → α} {other : List UInt8 → β} {val : Buf}
    (missing : readWord n decode val offset = none) (behind : offset + n ≤ later + m) :
    readWord m other val later = none :=
  readWord_short (Nat.lt_of_lt_of_le (readWord_none.mp missing) behind)

-- The cases are the places where the value can end.
theorem election_atomic (src : AwdlPeer) (val : Buf) :
    Atomic src (awdlHandleElectionParamsTlv src val) ↔
      src.supportsV2 = true ∨ 19 ≤ val.length ∨ ElectionStands src val := by
  unfold awdlHandleElectionParamsTlv
  split
  · rename_i newer
    exact iff_of_true (ok_atomic _ _) (.inl newer)
  · rename_i older
    have whole : 19 ≤ val.length ↔ readLe32 val 15 ≠ none := by
      rw [readLe32,ne_eq,readWord_none]
      omega
    rw [or_iff_right older,whole,electionStands_iff]
    cases first : readU8 val 3 with
    | none =>
      have second : readEtherAddr val 5 = none := readWord_later first (by decide)
      have third : readLe32 val 11 = none := readWord_later first (by decide)
      simp [second,third,failed_atomic]
    | some distance =>
      cases second : readEtherAddr val 5 with
      | none =>
        have third : readLe32 val 11 = none := readWord_later second (by decide)
        have fourth : readLe32 val 15 = none := readWord_later second (by decide)
        simp [third,fourth,failed_atomic,election_replaced,election_fields]
      | some masterAddr =>
        cases third : readLe32 val 11 with
        | none =>
          have fourth : readLe32 val 15 = none := readWord_later third (by decide)
          simp [fourth,failed_atomic,election_replaced,election_fields]
        | some masterMetric =>
          cases fourth : readLe32 val 15 with
          | none => simp [failed_atomic,election_replaced,election_fields]
          | some selfMetric => simp [ok_atomic]

theorem electionV2_atomic (src : AwdlPeer) (val : Buf) :
    Atomic src (awdlHandleElectionParamsV2Tlv src val) ↔
      val.length < 20 ∨ 40 ≤ val.length ∨ ElectionV2Stands src val := by
  have empty : val.length < 20 ↔ readLe32 val 16 = none := by rw [readLe32,readWord_none]
  have whole : 40 ≤ val.length ↔ readLe32 val 36 ≠ none := by
    rw [readLe32,ne_eq,readWord_none]
    omega
  rw [empty,whole,electionV2Stands_iff]
  unfold awdlHandleElectionParamsV2Tlv
  cases first : readLe32 val 16 with
  | none => simp [failed_atomic]
  | some height =>
    have long := readWord_inside first
    have second : readEtherAddr val 0 = some _ := readWord_long _ (by rw [etherAddrLen]; omega)
    have third : readEtherAddr val 6 = some _ := readWord_long _ (by rw [etherAddrLen]; omega)
    have fourth : readLe32 val 12 = some _ := readWord_long _ (by omega)
    rw [second,third,fourth]
    cases fifth : readLe32 val 20 with
    | none =>
      have sixth : readLe32 val 24 = none := readWord_later fifth (by decide)
      have seventh : readLe32 val 36 = none := readWord_later fifth (by decide)
      simp [sixth,seventh,failed_atomic,election_replaced,election_fields]
    | some masterMetric =>
      cases sixth : readLe32 val 24 with
      | none =>
        have seventh : readLe32 val 36 = none := readWord_later sixth (by decide)
        simp [seventh,failed_atomic,election_replaced,election_fields]
      | some selfMetric =>
        cases seventh : readLe32 val 36 with
        | none =>
          simp [failed_atomic,election_replaced,election_fields]
        | some selfCounter => simp [ok_atomic]

-- Where each part of a data path state value starts, by the flags in front.
def partSize (present : Prop) [Decidable present] (size : Nat) : Nat := if present then size else 0

def countryEnd (flags : UInt16) : Nat := 2 + partSize (flags &&& awdlDataPathFlagCountryCode ≠ 0) 3
def socialEnd (flags : UInt16) : Nat := countryEnd flags + partSize (flags &&& awdlDataPathFlagSocialChannelMap ≠ 0) 2
def infraInfoEnd (flags : UInt16) : Nat := socialEnd flags + partSize (flags &&& awdlDataPathFlagInfraInfo ≠ 0) 8
def infraAddrEnd (flags : UInt16) : Nat :=
  infraInfoEnd flags + partSize (flags &&& awdlDataPathFlagInfraAddress ≠ 0) 6
def dataPathLength (flags : UInt16) : Nat :=
  infraAddrEnd flags + partSize (flags &&& awdlDataPathFlagAwdlAddress ≠ 0) 6

@[mk_iff]
structure DataPathStands (src : AwdlPeer) (flags : UInt16) (val : Buf) : Prop where
  countryCode : flags &&& awdlDataPathFlagCountryCode ≠ 0 → ∀ code, readBytesCopy val 2 3 = some code →
    src.countryCode.overwrite code = src.countryCode
  infraAddr : flags &&& awdlDataPathFlagInfraAddress ≠ 0 → ∀ addr, readEtherAddr val (infraInfoEnd flags) = some addr →
    addr = src.infraAddr

-- A part that is there takes its bytes, one that is not there takes none.
theorem part_read {present : Prop} [Decidable present] {decode : List UInt8 → α} {f : α → β} {absent : β}
    {val : Buf} (last : Nat) (left : β) (inside : offset ≤ val.length) (stop : last = offset + partSize present n)
    (taken : present → f (decode (slice offset n val)) = left) (skipped : ¬ present → absent = left) :
    (if present then (readWord n decode val offset).map f else some absent) =
      if last ≤ val.length then some left else none := by
  subst stop
  unfold partSize
  by_cases there : present
  · rw [if_pos there,if_pos there]
    split
    · rename_i long
      rw [readWord_long decode long,Option.map_some,taken there]
    · rename_i short
      rw [readWord_short (Nat.lt_of_not_le short),Option.map_none]
  · rw [if_neg there,if_neg there,Nat.add_zero,if_pos inside,skipped there]

-- A part that is read over.
theorem part_skipped {present : Prop} [Decidable present] (decode : List UInt8 → α) {val : Buf} (last : Nat)
    (inside : offset ≤ val.length) (stop : last = offset + partSize present n) :
    (if present then (readWord n decode val offset).map fun _ => offset + n else some offset) =
      if last ≤ val.length then some last else none := by
  refine part_read last last inside stop (fun there => ?_) fun missing => ?_
  · rw [stop,partSize,if_pos there]
  · rw [stop,partSize,if_neg missing]
    rfl

theorem infoPart_skipped {present : Prop} [Decidable present] {val : Buf} (last : Nat)
    (inside : offset ≤ val.length) (stop : last = offset + partSize present 8) :
    (if present then (readEtherAddr val offset).bind fun _ => (readLe16 val (offset + 6)).map fun _ => offset + 6 + 2
      else some offset) = if last ≤ val.length then some last else none := by
  rw [← part_skipped (id : List UInt8 → List UInt8) last inside stop]
  by_cases there : present
  · rw [if_pos there,if_pos there]
    by_cases long : offset + 8 ≤ val.length
    · have first : readEtherAddr val offset = some _ := readWord_long _ (by rw [etherAddrLen]; omega)
      have second : readLe16 val (offset + 6) = some _ := readWord_long _ (by omega)
      rw [first,second,readWord_long _ long]
      rfl
    · have second : readLe16 val (offset + 6) = none := readWord_short (by omega)
      rw [second,readWord_short (Nat.lt_of_not_le long)]
      cases readEtherAddr val offset <;> rfl
  · rw [if_neg there,if_neg there]

-- The record behind the country code, and behind the infrastructure address.
def withCountry (src : AwdlPeer) (flags : UInt16) (val : Buf) : AwdlPeer :=
  if flags &&& awdlDataPathFlagCountryCode ≠ 0 then
    {src with countryCode := src.countryCode.overwrite (slice 2 3 val)}
  else src

def withInfraAddr (src : AwdlPeer) (flags : UInt16) (val : Buf) : AwdlPeer :=
  if flags &&& awdlDataPathFlagInfraAddress ≠ 0 then
    {src with infraAddr := .ofBytes (slice (infraInfoEnd flags) 6 val)}
  else src

def dataPathLeft (src : AwdlPeer) (flags : UInt16) (val : Buf) : AwdlPeer :=
  if val.length < countryEnd flags then src
  else if val.length < infraAddrEnd flags then withCountry src flags val
  else withInfraAddr (withCountry src flags val) flags val

theorem dataPath_ends (src : AwdlPeer) {val : Buf} (read : readLe16 val 0 = some flags) :
    awdlHandleDataPathStateTlv src val =
      (if val.length < dataPathLength flags then .tooShort else .ok,dataPathLeft src flags val) := by
  have start : 2 ≤ val.length := readWord_inside read
  have order : countryEnd flags ≤ socialEnd flags ∧ socialEnd flags ≤ infraInfoEnd flags ∧
      infraInfoEnd flags ≤ infraAddrEnd flags ∧ infraAddrEnd flags ≤ dataPathLength flags :=
    ⟨Nat.le_add_right _ _,Nat.le_add_right _ _,Nat.le_add_right _ _,Nat.le_add_right _ _⟩
  unfold awdlHandleDataPathStateTlv
  simp only [read,checkedRead_some]
  rw [readBytesCopy,part_read (countryEnd flags) (countryEnd flags,withCountry src flags val) start rfl
    (fun there => by rw [countryEnd,partSize,withCountry,if_pos there,if_pos there]; rfl)
    (fun missing => by rw [countryEnd,partSize,withCountry,if_neg missing,if_neg missing])]
  by_cases first : countryEnd flags ≤ val.length
  · rw [if_pos first,checkedRead_some,readLe16,part_skipped _ (socialEnd flags) first rfl]
    by_cases second : socialEnd flags ≤ val.length
    · rw [if_pos second,checkedRead_some,infoPart_skipped (infraInfoEnd flags) second rfl]
      by_cases third : infraInfoEnd flags ≤ val.length
      · rw [if_pos third,checkedRead_some,readEtherAddr,etherAddrLen,part_read (infraAddrEnd flags)
          (infraAddrEnd flags,withInfraAddr (withCountry src flags val) flags val) third rfl
          (fun there => by rw [infraAddrEnd,partSize,withInfraAddr,if_pos there,if_pos there])
          (fun missing => by rw [infraAddrEnd,partSize,withInfraAddr,if_neg missing,if_neg missing]; rfl)]
        by_cases fourth : infraAddrEnd flags ≤ val.length
        · rw [if_pos fourth,checkedRead_some,dataPathLeft]
          dsimp only
          rw [readEtherAddr,etherAddrLen,part_skipped _ (dataPathLength flags) fourth rfl]
          by_cases fifth : dataPathLength flags ≤ val.length
          · rw [if_pos fifth,checkedRead_some,if_neg (by omega),if_neg (by omega),if_neg (by omega)]
          · rw [if_neg fifth,checkedRead_none,if_pos (by omega),if_neg (by omega),if_neg (by omega)]
        · rw [if_neg fourth,checkedRead_none,dataPathLeft,if_pos (by omega),if_neg (by omega),if_pos (by omega)]
      · rw [if_neg third,checkedRead_none,dataPathLeft,if_pos (by omega),if_neg (by omega),if_pos (by omega)]
    · rw [if_neg second,checkedRead_none,dataPathLeft,if_pos (by omega),if_neg (by omega),if_pos (by omega)]
  · rw [if_neg first,checkedRead_none,dataPathLeft,if_pos (by omega),if_pos (by omega)]

theorem withCountry_same (src : AwdlPeer) (flags : UInt16) (val : Buf) : withCountry src flags val = src ↔
    (flags &&& awdlDataPathFlagCountryCode ≠ 0 → src.countryCode.overwrite (slice 2 3 val) = src.countryCode) := by
  unfold withCountry
  split
  · rename_i there
    rw [imp_iff_right there]
    constructor
    · exact congrArg AwdlPeer.countryCode
    · intro same
      rw [same]
  · rename_i missing
    exact iff_of_true rfl fun there => absurd there missing

theorem withInfraAddr_same (src : AwdlPeer) (flags : UInt16) (val : Buf) :
    withInfraAddr (withCountry src flags val) flags val = src ↔ withCountry src flags val = src ∧
      (flags &&& awdlDataPathFlagInfraAddress ≠ 0 →
        EtherAddr.ofBytes (slice (infraInfoEnd flags) 6 val) = src.infraAddr) := by
  unfold withInfraAddr
  split
  · rename_i there
    rw [imp_iff_right there]
    constructor
    · intro same
      have addr := congrArg AwdlPeer.infraAddr same
      refine ⟨?_,addr⟩
      rw [withCountry_same]
      intro flagged
      have code := congrArg AwdlPeer.countryCode same
      rwa [withCountry,if_pos flagged] at code
    · rintro ⟨same,addr⟩
      rw [same,addr]
  · rename_i missing
    exact (and_iff_left fun there => absurd there missing).symm

theorem dataPath_stands (src : AwdlPeer) (flags : UInt16) (val : Buf) :
    dataPathLeft src flags val = src ↔ DataPathStands src flags val := by
  have beyond : val.length < infraAddrEnd flags → flags &&& awdlDataPathFlagInfraAddress ≠ 0 →
      readEtherAddr val (infraInfoEnd flags) = none := by
    intro short there
    rw [infraAddrEnd,partSize,if_pos there] at short
    exact readWord_short short
  have country : countryEnd flags ≤ val.length → (withCountry src flags val = src ↔
      (flags &&& awdlDataPathFlagCountryCode ≠ 0 → ∀ code, readBytesCopy val 2 3 = some code →
        src.countryCode.overwrite code = src.countryCode)) := by
    intro long
    rw [withCountry_same]
    refine forall_congr' fun there => ?_
    rw [countryEnd,partSize,if_pos there] at long
    have read : readBytesCopy val 2 3 = some (slice 2 3 val) := readWord_long id (by omega)
    simp [read]
  have order : countryEnd flags ≤ infraAddrEnd flags := by
    unfold infraAddrEnd infraInfoEnd socialEnd
    omega
  rw [dataPathStands_iff]
  unfold dataPathLeft
  split
  · rename_i short
    refine iff_of_true rfl ⟨fun there code read => ?_,fun there addr read => ?_⟩
    · rw [countryEnd,partSize,if_pos there] at short
      have missing : readBytesCopy val 2 3 = none := readWord_short short
      rw [missing] at read
      cases read
    · rw [beyond (by omega) there] at read
      cases read
  · rename_i long
    split
    · rename_i short
      rw [country (by omega)]
      refine (and_iff_left fun there addr read => ?_).symm
      rw [beyond short there] at read
      cases read
    · rename_i inside
      rw [withInfraAddr_same,country (by omega)]
      refine and_congr_right fun _ => forall_congr' fun there => ?_
      rw [infraAddrEnd,partSize,if_pos there] at inside
      have read : readEtherAddr val (infraInfoEnd flags) = some (.ofBytes (slice (infraInfoEnd flags) 6 val)) :=
        readWord_long _ (by rw [etherAddrLen]; omega)
      simp [read]

theorem dataPath_atomic (src : AwdlPeer) (val : Buf) :
    Atomic src (awdlHandleDataPathStateTlv src val) ↔ ∀ flags, readLe16 val 0 = some flags →
      dataPathLength flags ≤ val.length ∨ DataPathStands src flags val := by
  cases read : readLe16 val 0 with
  | none => simp [awdlHandleDataPathStateTlv,read,failed_atomic]
  | some flags =>
    rw [dataPath_ends src read]
    simp only [Option.some.injEq,forall_eq',← dataPath_stands src flags val]
    split
    · rw [failed_atomic,or_iff_right (by omega)]
    · exact iff_of_true (ok_atomic _ _) (.inl (by omega))

end Direct

-- Whole values and those cut off ahead of the first write are harmless; any other
-- must hold only what the record has already.
structure Harmless (src : AwdlPeer) (type : UInt8) (val : Buf) : Prop where
  election : type = awdlElectionParametersTlv → src.supportsV2 = true ∨ 19 ≤ val.length ∨ ElectionStands src val
  electionV2 : type = awdlElectionParametersV2Tlv → val.length < 20 ∨ 40 ≤ val.length ∨ ElectionV2Stands src val
  dataPath : type = awdlDataPathStateTlv → ∀ flags, readLe16 val 0 = some flags →
    dataPathLength flags ≤ val.length ∨ DataPathStands src flags val

theorem onPeer_atomic (src : AwdlPeer) (state : AwdlState) (run : RxResult × AwdlPeer) :
    Atomic (src,state) (run.1,run.2,state) ↔ Atomic src run := by
  simp [Atomic]

theorem harmless_other (first : type ≠ awdlElectionParametersTlv) (second : type ≠ awdlElectionParametersV2Tlv)
    (third : type ≠ awdlDataPathStateTlv) (src : AwdlPeer) (val : Buf) : Harmless src type val :=
  ⟨fun kind => absurd kind first,fun kind => absurd kind second,fun kind => absurd kind third⟩

theorem handleTlv_atomic (mem : Fin awdlChanseqLength → AwdlChan) (src : AwdlPeer) (type : UInt8) (val : Buf)
    (state : AwdlState) (tsft : UInt64) :
    ((awdlHandleTlv mem src type val state tsft).1.code < 0 →
      (awdlHandleTlv mem src type val state tsft).2 = (src,state)) ↔ Harmless src type val := by
  have other : ∀ {kind : UInt8}, kind ≠ awdlElectionParametersTlv → kind ≠ awdlElectionParametersV2Tlv →
      kind ≠ awdlDataPathStateTlv → ∀ {run : RxResult × AwdlPeer × AwdlState}, Atomic (src,state) run →
        (Atomic (src,state) run ↔ Harmless src kind val) :=
    fun first second third _ atomic => iff_of_true atomic (harmless_other first second third src val)
  refine handle_elim (motive := fun type run => Atomic (src,state) run ↔ Harmless src type val) type ?sync ?chanseq
    ?election ?electionV2 ?arpa ?dataPath ?version ?other
  case sync =>
    refine other (by decide) (by decide) (by decide) fun failed => ?_
    rw [sync_atomic src val state tsft failed]
  case chanseq =>
    exact other (by decide) (by decide) (by decide) ((onPeer_atomic ..).mpr (chanseq_atomic mem src val state))
  case arpa => exact other (by decide) (by decide) (by decide) ((onPeer_atomic ..).mpr (arpa_atomic src val))
  case version => exact other (by decide) (by decide) (by decide) ((onPeer_atomic ..).mpr (version_atomic src val))
  case other => exact fun first second third => other first second third fun _ => rfl
  case election =>
    rw [onPeer_atomic,election_atomic]
    constructor
    · intro stands
      exact ⟨fun _ => stands,fun kind => absurd kind (by decide),fun kind => absurd kind (by decide)⟩
    · intro harmless
      exact harmless.election rfl
  case electionV2 =>
    rw [onPeer_atomic,electionV2_atomic]
    constructor
    · intro stands
      exact ⟨fun kind => absurd kind (by decide),fun _ => stands,fun kind => absurd kind (by decide)⟩
    · intro harmless
      exact harmless.electionV2 rfl
  case dataPath =>
    rw [onPeer_atomic,dataPath_atomic]
    constructor
    · intro stands
      exact ⟨fun kind => absurd kind (by decide),fun kind => absurd kind (by decide),fun _ => stands⟩
    · intro harmless
      exact harmless.dataPath rfl

-- A version 1 value that ends behind the distance.
theorem handleTlv_half_done : ¬ ∀ (mem : Fin awdlChanseqLength → AwdlChan) (src : AwdlPeer) (type : UInt8) (val : Buf)
    (state : AwdlState) (tsft : UInt64), (awdlHandleTlv mem src type val state tsft).1.code < 0 →
      (awdlHandleTlv mem src type val state tsft).2 = (src,state) := by
  intro atomic
  have same := atomic default (awdlPeerNew default default) awdlElectionParametersTlv [0,0,0,5] default 0 (by decide)
  have height := congrArg (fun left : AwdlPeer × AwdlState => left.1.election.height) same
  exact absurd height (by decide)

end EspOwl.TlvAtomicity
