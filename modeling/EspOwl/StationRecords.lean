import EspOwl.Presence
import EspOwl.Timers
import EspOwl.TlvBodies

namespace EspOwl.StationRecords
open Histories PartialMaps PeerMap PeerHistory TlvLoop TlvBodies ActionTlvs ActionFrames Dispatch SenderRecords NodeHistory
  Consistency Presence Addressing FrameCheck SlotClock HandOver

-- What a node holds of one station, and whether it tests the RSSI yet.
structure Station where
  filterRssi : Bool
  record : Option AwdlPeer

def Station.tooLow (s : Station) (rssi : Int8) : Bool :=
  s.filterRssi && match s.record with
    | some _ => decide (rssi.toInt < rssiThresholdDefault.toInt + rssiGraceDefault.toInt)
    | none => decide (rssi.toInt < rssiThresholdDefault.toInt)

instance (loop : TlvRun) : Decidable (Accepted loop) := inferInstanceAs (Decidable (_ ∧ _))

-- The record behind an action frame. The loop runs on a node that knows nobody else.
def heardRecord (env : Ambient) (body : Buf) (now : UInt64) (src : EtherAddr) (subtype : AwdlActionType)
    (record : Option AwdlPeer) : AwdlPeer :=
  let loop := awdlRxTlvs env.chanMem now ((bufStrip body AwdlAction.size).getD body)
    (touch now (record.getD (awdlPeerNew src env.peerMem))) (awdlInitState default [] src chanOpclass6 0)
  if Accepted loop then settle now subtype loop.src else loop.src

def Station.hear (s : Station) (env : Ambient) (body : Buf) (rssi : Int8) (now : UInt64) (src : EtherAddr) : Station :=
  match awdlParseActionHdr body with
  | some subtype => if s.tooLow rssi then s else {s with record := some (heardRecord env body now src subtype s.record)}
  | none => s

-- An event, as far as it concerns the station `src`.
def Station.step (rxCtrlLen : Nat) (node src : EtherAddr) (s : Station) : Event → Station
  | .receive env frame now =>
    match route rxCtrlLen node frame with
    | .action rssi from_addr body => if from_addr = src then s.hear env body rssi now src else s
    | _ => s
  | .cleanPeers now =>
    {s with record := s.record.filter fun peer => decide (¬ peer.lastUpdate < now - peersDefaultTimeout)}
  | .filterOff => {s with filterRssi := false}
  | _ => s

-- A frame of `src`, a clean-up, or the end of the RSSI test.
def concerns (rxCtrlLen : Nat) (node src : EtherAddr) : Event → Bool
  | .receive _ frame _ =>
    match route rxCtrlLen node frame with
    | .action _ from_addr _ => from_addr = src
    | _ => false
  | .cleanPeers _ => true
  | .filterOff => true
  | _ => false

-- Synchronization parameters that are cut short are an error from the sync master only,
-- since those of anybody else are not read. These are not.
def WholeSync (frame : Buf) : Prop :=
  ∀ tlvs tail, Split frame tlvs tail → ∀ tlv ∈ tlvs, tlv.1 = awdlSynchronizationParametersTlv → 31 ≤ tlv.2.length

def Whole (rxCtrlLen : Nat) (node : EtherAddr) : Event → Prop
  | .receive _ frame _ => ∀ rssi src body, route rxCtrlLen node frame = .action rssi src body →
      WholeSync ((bufStrip body AwdlAction.size).getD body)
  | _ => True

section Loop
variable {a b : AwdlState} {src : AwdlPeer} {tsft : UInt64}

theorem sync_passes (long : 31 ≤ val.length) (state : AwdlState) :
    ¬ (awdlHandleSyncParamsTlv src val state tsft).1.code < 0 := by
  have first : readLe16 val 1 = some _ := readWord_long _ (by omega)
  have second : readLe16 val 29 = some _ := readWord_long _ (by omega)
  unfold awdlHandleSyncParamsTlv
  split
  · exact (by decide : ¬ RxResult.ignore.code < 0)
  · rw [first,second]
    exact (by decide : ¬ RxResult.ok.code < 0)

-- Of the state, the handlers read the presence mode only, and none of them writes it.
structure Agree (one two : RxResult × AwdlPeer × AwdlState) : Prop where
  failed : one.1.code < 0 ↔ two.1.code < 0
  src : one.2.1 = two.2.1
  mode : one.2.2.sync.presenceMode = two.2.2.sync.presenceMode

theorem handle_agree (mem : Fin awdlChanseqLength → AwdlChan) (mode : a.sync.presenceMode = b.sync.presenceMode)
    (whole : type = awdlSynchronizationParametersTlv → 31 ≤ val.length) :
    Agree (awdlHandleTlv mem src type val a tsft) (awdlHandleTlv mem src type val b tsft) := by
  have same : ∀ run : RxResult × AwdlPeer, Agree (run.1,run.2,a) (run.1,run.2,b) := fun _ => ⟨Iff.rfl,rfl,mode⟩
  unfold awdlHandleTlv
  dsimp only
  split
  · rename_i kind
    have long := whole kind
    exact ⟨iff_of_false (sync_passes long a) (sync_passes long b),rfl,
      (sync_mode src val a tsft).trans (mode.trans (sync_mode src val b tsft).symm)⟩
  · split
    · have sequence : awdlHandleChanseqTlv mem src val a = awdlHandleChanseqTlv mem src val b := by
        unfold awdlHandleChanseqTlv
        rw [mode]
      rw [sequence]
      exact same _
    · split
      · exact same _
      · split
        · exact same _
        · split
          · exact same _
          · split
            · exact same _
            · split
              · exact same _
              · exact same (.ignore,src)

structure SameRecord (one two : TlvRun) : Prop where
  result : one.result = two.result
  frame : one.frame = two.frame
  src : one.src = two.src

theorem SameRecord.accepted {one two : TlvRun} (same : SameRecord one two) : Accepted one ↔ Accepted two := by
  unfold Accepted
  rw [same.result,same.frame]

-- By induction on the TLVs: a call that fails ends both loops, with one record.
theorem tlvs_agree (chanMem : Nat → Fin awdlChanseqLength → AwdlChan) (split : Split frame tlvs tail)
    (whole : ∀ tlv ∈ tlvs, tlv.1 = awdlSynchronizationParametersTlv → 31 ≤ tlv.2.length)
    (mode : a.sync.presenceMode = b.sync.presenceMode) :
    SameRecord (awdlRxTlvs chanMem tsft frame src a) (awdlRxTlvs chanMem tsft frame src b) := by
  induction tlvs generalizing frame src a b with
  | nil =>
    have last : readTlv frame 0 = none := by
      rw [split_nil split]
      exact stuck_read split.stuck
    rw [tlvs_end last,tlvs_end last]
    exact ⟨rfl,rfl,rfl⟩
  | cons tlv rest ih =>
    have found := split_starts split
    have agree : Agree (awdlHandleTlv (chanMem (bufLen frame)) src tlv.1 tlv.2 a tsft)
        (awdlHandleTlv (chanMem (bufLen frame)) src tlv.1 tlv.2 b tsft) :=
      handle_agree (chanMem (bufLen frame)) mode (whole tlv List.mem_cons_self)
    cases one : awdlHandleTlv (chanMem (bufLen frame)) src tlv.1 tlv.2 a tsft with
    | mk result left =>
      obtain ⟨after,changed⟩ := left
      cases two : awdlHandleTlv (chanMem (bufLen frame)) src tlv.1 tlv.2 b tsft with
      | mk other left =>
        obtain ⟨again,altered⟩ := left
        rw [one,two] at agree
        obtain ⟨failed,record,kept⟩ := agree
        dsimp only at failed record kept
        subst record
        by_cases rejected : result.code < 0
        · rw [tlvs_rejected found one rejected,tlvs_rejected found two (failed.mp rejected)]
          exact ⟨rfl,rfl,rfl⟩
        · have accepted : ¬ other.code < 0 := fun failing => rejected (failed.mpr failing)
          rw [tlvs_next found one rejected,tlvs_next found two accepted]
          obtain ⟨result,frame,src⟩ := ih (split_rest split)
            (fun other member => whole other (List.mem_cons_of_mem _ member)) kept
          exact ⟨result,frame,src⟩

end Loop

section Receptions
variable {hash : EtherAddr → UInt64}

theorem tooLow_same (refines : Refines hash state.peers.peers f) (threshold : state.rssiThreshold = rssiThresholdDefault)
    (grace : state.rssiGrace = rssiGraceDefault) (rssi : Int8) (src : EtherAddr) :
    rssiTooLow hash state rssi src = Station.tooLow ⟨state.filterRssi,f src⟩ rssi := by
  unfold rssiTooLow Station.tooLow
  rw [threshold,grace]
  cases bound : f src with
  | none =>
    rw [refines.get_none bound]
    simp
  | some peer =>
    rw [refines.get_some bound]
    simp

theorem entered_recorded (refines : Refines hash state.peers.peers f) (mode : state.sync.presenceMode = 4)
    (supply : env.callocs = []) (whole : WholeSync ((bufStrip body AwdlAction.size).getD body))
    (start : admission hash env body rssi now src state = .entered entry)
    (ran : awdlRxAction hash env body rssi now src state = some run) :
    ∃ g, Refines hash run.state.peers.peers g ∧ g src = some (heardRecord env body now src entry.subtype (f src)) ∧
      ∀ addr, addr ≠ src → g addr = f addr := by
  let first := touch now ((f src).getD (awdlPeerNew src env.peerMem))
  have respected : Respected f src env.peerMem now fun peer => peer = first := by
    refine ⟨fun absent => ?_,fun peer found => ?_⟩
    · dsimp only [first]
      rw [absent]
      rfl
    · dsimp only [first]
      rw [found]
      rfl
  obtain ⟨tlvs,tail,split⟩ := split_exists ((bufStrip body AwdlAction.size).getD body)
  have records : SameRecord (awdlRxTlvs env.chanMem now ((bufStrip body AwdlAction.size).getD body) first
      (counted state entry.added)) (awdlRxTlvs env.chanMem now ((bufStrip body AwdlAction.size).getD body) first
        (awdlInitState default [] src chanOpclass6 0)) :=
    tlvs_agree env.chanMem split (whole tlvs tail split) mode
  have loop : entry.peer = first →
      let run := awdlRxTlvs env.chanMem now ((bufStrip body AwdlAction.size).getD body) entry.peer
        (counted state entry.added)
      (¬ Accepted run → run.src = heardRecord env body now src entry.subtype (f src)) ∧
        (Accepted run → settle now entry.subtype run.src = heardRecord env body now src entry.subtype (f src)) := by
    intro same
    rw [same]
    constructor
    · intro refused
      rw [heardRecord,if_neg (mt records.accepted.mpr refused)]
      exact records.src
    · intro passed
      rw [heardRecord,if_pos (records.accepted.mp passed),records.src]
  have rewritten : (∃ g, Rewritten hash src (env.callocs = [])
      (fun peer => peer = heardRecord env body now src entry.subtype (f src)) f g run.state.peers.peers ∧
        g src ≠ none) ∧ _ := entered_rewritten refines start respected loop ran
  obtain ⟨⟨g,after,held⟩,_⟩ := rewritten
  obtain ⟨peer,bound⟩ := Option.ne_none_iff_exists'.mp held
  refine ⟨g,after.refines,?_,after.kept supply⟩
  rw [bound,after.own peer bound]

theorem action_recorded (refines : Refines hash state.peers.peers f) (mode : state.sync.presenceMode = 4)
    (threshold : state.rssiThreshold = rssiThresholdDefault) (grace : state.rssiGrace = rssiGraceDefault)
    (supply : env.callocs = []) (whole : WholeSync ((bufStrip body AwdlAction.size).getD body))
    (ran : awdlRxAction hash env body rssi now src state = some run) :
    ∃ g, Refines hash run.state.peers.peers g ∧
      g src = (Station.hear ⟨state.filterRssi,f src⟩ env body rssi now src).record ∧
      ∀ addr, addr ≠ src → g addr = f addr := by
  have level := tooLow_same refines threshold grace rssi src
  unfold Station.hear
  cases head : awdlParseActionHdr body with
  | none =>
    have refused : ¬ Admitted hash body rssi src state := by
      rintro ⟨header,_⟩
      rw [head] at header
      cases header
    rw [action_unheard ran refused]
    exact ⟨f,refines,rfl,fun _ _ => rfl⟩
  | some subtype =>
    cases low : Station.tooLow ⟨state.filterRssi,f src⟩ rssi with
    | true =>
      have refused : ¬ Admitted hash body rssi src state := by
        rintro ⟨_,clear⟩
        rw [level,low] at clear
        cases clear
      rw [action_unheard ran refused]
      exact ⟨f,refines,rfl,fun _ _ => rfl⟩
    | false =>
      rw [low] at level
      cases inserted : awdlPeerAdd hash env.fuel env.callocs env.peerMem state.peers.peers src now with
      | none =>
        rw [action_admission] at ran
        simp [admission,head,level,inserted] at ran
      | some added =>
        have accepted : ¬ added.status.code < 0 := by
          cases refines.added inserted with
          | fresh _ status => rw [status]; decide
          | known _ status => rw [status]; decide
          | lost _ _ scarce => exact absurd supply scarce
        obtain ⟨peer,start⟩ := action_admitted env head level inserted accepted
        exact entered_recorded refines mode supply whole start ran

end Receptions

section Stations
variable {hash : EtherAddr → UInt64} {rxCtrlLen : Nat} {node : EtherAddr} {stations : EtherAddr → Station}

-- The invariant: the table holds what the stations hold, each for itself.
structure Stationed (hash : EtherAddr → UInt64) (node : EtherAddr) (stations : EtherAddr → Station)
    (state : AwdlState) : Prop where
  self : state.selfAddress = node
  windowed : ∃ width, Windowed width state.sync
  threshold : state.rssiThreshold = rssiThresholdDefault
  grace : state.rssiGrace = rssiGraceDefault
  timeout : state.peers.timeout = peersDefaultTimeout
  filter : ∀ addr, (stations addr).filterRssi = state.filterRssi
  records : Refines hash state.peers.peers fun addr => (stations addr).record

theorem Stationed.station (before : Stationed hash node stations state) (addr : EtherAddr) :
    stations addr = ⟨state.filterRssi,(stations addr).record⟩ := by
  rw [← before.filter addr]

theorem hear_filter (s : Station) (env : Ambient) (body : Buf) (rssi : Int8) (now : UInt64) (src : EtherAddr) :
    (s.hear env body rssi now src).filterRssi = s.filterRssi := by
  unfold Station.hear
  split
  · split <;> rfl
  · rfl

theorem received_filter (s : Station) (rxCtrlLen : Nat) (node src : EtherAddr) (env : Ambient) (frame : Buf)
    (now : UInt64) : (s.step rxCtrlLen node src (.receive env frame now)).filterRssi = s.filterRssi := by
  unfold Station.step
  dsimp only
  split
  · split
    · exact hear_filter ..
    · rfl
  · rfl

theorem received_stationed (before : Stationed hash node stations state) (supply : env.callocs = [])
    (whole : Whole rxCtrlLen node (.receive env frame now))
    (ran : awdlRx hash env rxCtrlLen frame now state = some run) :
    Stationed hash node (fun addr => (stations addr).step rxCtrlLen node addr (.receive env frame now)) run.state := by
  obtain ⟨width,windowed⟩ := before.windowed
  have standing : ∃ width, Windowed width run.state.sync := ⟨width,(Timers.rx_regular ran).windowed windowed⟩
  cases way : route rxCtrlLen node frame with
  | action rssi src body =>
    rw [rx_follows,before.self,way] at ran
    obtain ⟨g,refines,own,others⟩ := action_recorded before.records windowed.mode before.threshold before.grace supply
      (whole rssi src body way) ran
    obtain ⟨_,sync,stats,left,_⟩ := action_confined before.records ran
    have record : (fun addr => ((stations addr).step rxCtrlLen node addr (.receive env frame now)).record) = g := by
      funext addr
      unfold Station.step
      dsimp only
      rw [way]
      dsimp only
      by_cases here : src = addr
      · subst here
        rw [if_pos rfl,own,← before.station]
      · rw [if_neg here]
        exact (others addr (Ne.symm here)).symm
    refine ⟨?_,standing,?_,?_,?_,fun addr => (received_filter ..).trans ?_,?_⟩
    · rw [left]
      exact before.self
    · rw [left]
      exact before.threshold
    · rw [left]
      exact before.grace
    · rw [left]
      exact before.timeout
    · rw [left]
      exact before.filter addr
    · rw [record]
      exact refines
  | _ =>
    have same : (fun addr => (stations addr).step rxCtrlLen node addr (.receive env frame now)) = stations := by
      funext addr
      unfold Station.step
      dsimp only
      rw [way]
    rw [same]
    rcases rx_cases ran with ⟨stats,left⟩ | ⟨_,_,other,_⟩
    · rw [left]
      exact ⟨before.self,before.windowed,before.threshold,before.grace,before.timeout,before.filter,before.records⟩
    · rw [before.self,way] at other
      cases other

theorem step_stationed (before : Stationed hash node stations state) (supplied : Supplied event)
    (whole : Whole rxCtrlLen node event) (step : NodeStep hash rxCtrlLen state event out next) :
    Stationed hash node (fun addr => (stations addr).step rxCtrlLen node addr event) next := by
  obtain ⟨own,windowed,threshold,grace,timeout,filter,records⟩ := id before
  cases step with
  | receive ran => exact received_stationed before supplied whole ran
  | @cleanPeers _ now =>
    refine ⟨own,windowed,threshold,grace,timeout,filter,?_⟩
    change Refines hash (awdlPeersRemove state.peers.peers (now - state.peers.timeout)) _
    rw [timeout]
    exact removeBefore_refines records (now - peersDefaultTimeout)
  | sendAction => exact ⟨own,windowed,threshold,grace,timeout,filter,records⟩
  | @sendData _ traffic buf ieee80211State =>
    obtain ⟨sequenceNumber,stats,sent⟩ := sendData_writes buf state ieee80211State
    rw [sent]
    cases traffic <;> exact ⟨own,windowed,threshold,grace,timeout,filter,records⟩
  | switchChannel =>
    unfold awdlSwitchChannel
    dsimp only
    split <;> exact ⟨own,windowed,threshold,grace,timeout,filter,records⟩
  | filterOff => exact ⟨own,windowed,threshold,grace,timeout,fun _ => rfl,records⟩

theorem runs_stationed (before : Stationed hash node stations state)
    (path : Runs (NodeStep hash rxCtrlLen) state trace last) (supplied : ∀ entry ∈ trace, Supplied entry.1)
    (whole : ∀ entry ∈ trace, Whole rxCtrlLen node entry.1) :
    Stationed hash node
      (fun addr => (trace.map Prod.fst).foldl (Station.step rxCtrlLen node addr) (stations addr)) last := by
  induction path generalizing stations with
  | nil => exact before
  | cons head _ ih =>
    rw [List.forall_mem_cons] at supplied whole
    exact ih (step_stationed before supplied.1 whole.1 head) supplied.2 whole.2

theorem step_unconcerned (s : Station) (other : concerns rxCtrlLen node src event = false) :
    s.step rxCtrlLen node src event = s := by
  cases event with
  | receive env frame now =>
    unfold concerns at other
    unfold Station.step
    dsimp only at other ⊢
    split at other
    · exact if_neg (of_decide_eq_false other)
    · rfl
  | cleanPeers | filterOff => cases other
  | sendAction | sendData | switchChannel => rfl

theorem concerned_fold (rxCtrlLen : Nat) (node src : EtherAddr) (events : List Event) (s : Station) :
    (events.filter (concerns rxCtrlLen node src)).foldl (Station.step rxCtrlLen node src) s =
      events.foldl (Station.step rxCtrlLen node src) s := by
  rw [List.foldl_filter]
  congr 1
  funext s event
  cases kind : concerns rxCtrlLen node src event with
  | true => exact if_pos rfl
  | false => exact (if_neg Bool.false_ne_true).trans (step_unconcerned s kind).symm

theorem reached_stationed (booted : Booted node start) (path : Runs (NodeStep hash rxCtrlLen) start trace state)
    (supplied : ∀ entry ∈ trace, Supplied entry.1) (whole : ∀ entry ∈ trace, Whole rxCtrlLen node entry.1) :
    Stationed hash node
      (fun addr => (trace.map Prod.fst).foldl (Station.step rxCtrlLen node addr) ⟨start.filterRssi,none⟩) state := by
  have windowed := booted_windowed booted
  have boots : Stationed hash node (fun _ => ⟨start.filterRssi,none⟩) start := by
    obtain ⟨_,_,_,_,_,_,_,rfl⟩ := booted.form
    exact ⟨rfl,windowed,rfl,rfl,rfl,fun _ => rfl,init_refines⟩
  exact runs_stationed boots path supplied whole

-- Whatever else the node has heard and done, it holds of a station what that station's
-- own action frames make of it, with the clean-ups and the end of the RSSI test.
theorem records_followed (booted : Booted node start) (path : Runs (NodeStep hash rxCtrlLen) start trace state)
    (supplied : ∀ entry ∈ trace, Supplied entry.1) (whole : ∀ entry ∈ trace, Whole rxCtrlLen node entry.1)
    (addr : EtherAddr) : (awdlPeerGet hash state.peers.peers addr).2 =
      ((trace.map Prod.fst).foldl (Station.step rxCtrlLen node addr) ⟨start.filterRssi,none⟩).record :=
  (reached_stationed booted path supplied whole).records.get_snd

section Greetings

def wave : List UInt8 :=
  radioHdr ++ (Ieee80211Hdr.mk 0x00d0 0 etherBroadcast nodeThree awdlBssid 0).bytes ++ psfHdr.bytes

theorem nothing_whole : WholeSync [] := by
  intro tlvs tail split tlv member
  cases tlvs with
  | nil => cases member
  | cons first rest =>
    have whole := split.whole
    rw [encodeTlvs_cons] at whole
    cases whole

theorem greeting_whole : Whole 24 nodeOne (.receive roomy greeting now) := by
  intro rssi src body way
  have plain : route 24 nodeOne greeting = .action 0 nodeTwo psfHdr.bytes := rfl
  cases plain.symm.trans way
  exact nothing_whole

theorem wave_whole : Whole 24 nodeOne (.receive roomy wave now) := by
  intro rssi src body way
  have plain : route 24 nodeOne wave = .action 0 nodeThree psfHdr.bytes := rfl
  cases plain.symm.trans way
  exact nothing_whole

theorem records_followed_greeting : ∃ trace state peer,
    Runs (NodeStep (fun _ => 0) 24) (wifiSnifferStores fresh) trace state ∧
      (awdlPeerGet (fun _ => 0) state.peers.peers nodeTwo).2 = some peer ∧ peer.lastUpdate = 7 := by
  have greets : (awdlRx (fun _ => 0) roomy 24 greeting 7 (wifiSnifferStores fresh)).isSome = true := by decide +kernel
  obtain ⟨run,ran⟩ := Option.isSome_iff_exists.mp greets
  have path : Runs (NodeStep (fun _ => 0) 24) (wifiSnifferStores fresh) [(.receive roomy greeting 7,run.out)] run.state :=
    .cons (.receive ran) .nil
  have followed := records_followed .sniffer path (List.forall_mem_singleton.mpr rfl)
    (List.forall_mem_singleton.mpr greeting_whole) nodeTwo
  have made : ((Station.step 24 nodeOne nodeTwo ⟨false,none⟩ (.receive roomy greeting 7)).record.map
      AwdlPeer.lastUpdate) = some 7 := by decide +kernel
  obtain ⟨peer,held,stamped⟩ := Option.map_eq_some_iff.mp made
  exact ⟨_,_,peer,path,followed.trans held,stamped⟩

end Greetings

-- Two nodes that have met the same of a station hold the same record of it, whatever
-- hash functions they use and whatever each of them has met besides.
theorem records_apart {hash₁ hash₂ : EtherAddr → UInt64} {trace₁ trace₂ : List (Event × List Buf)}
    (boot₁ : Booted node start₁) (boot₂ : Booted node start₂) (filter : start₁.filterRssi = start₂.filterRssi)
    (first : Runs (NodeStep hash₁ rxCtrlLen) start₁ trace₁ state₁)
    (second : Runs (NodeStep hash₂ rxCtrlLen) start₂ trace₂ state₂)
    (supplied : ∀ entry ∈ trace₁ ++ trace₂, Supplied entry.1)
    (whole : ∀ entry ∈ trace₁ ++ trace₂, Whole rxCtrlLen node entry.1)
    (same : (trace₁.map Prod.fst).filter (concerns rxCtrlLen node addr) =
      (trace₂.map Prod.fst).filter (concerns rxCtrlLen node addr)) :
    (awdlPeerGet hash₁ state₁.peers.peers addr).2 = (awdlPeerGet hash₂ state₂.peers.peers addr).2 := by
  rw [List.forall_mem_append] at supplied whole
  -- Both tables are read as the automaton of this one station.
  have one := (reached_stationed boot₁ first supplied.1 whole.1).records
  have two := (reached_stationed boot₂ second supplied.2 whole.2).records
  rw [one.get_snd,two.get_snd,← concerned_fold,same,concerned_fold,filter]

theorem records_apart_wave : ∃ trace₁ trace₂ state₁ state₂,
    Runs (NodeStep (fun _ => 0) 24) (wifiSnifferStores fresh) trace₁ state₁ ∧
    Runs (NodeStep (fun _ => 1) 24) (wifiSnifferStores fresh) trace₂ state₂ ∧ trace₁.length = 1 ∧ trace₂.length = 2 ∧
      (awdlPeerGet (fun _ => 0) state₁.peers.peers nodeTwo).2 =
        (awdlPeerGet (fun _ => 1) state₂.peers.peers nodeTwo).2 := by
  have greets : (awdlRx (fun _ => 0) roomy 24 greeting 7 (wifiSnifferStores fresh)).isSome = true := by decide +kernel
  have waves : ((awdlRx (fun _ => 1) roomy 24 wave 3 (wifiSnifferStores fresh)).bind fun run =>
      awdlRx (fun _ => 1) roomy 24 greeting 7 run.state).isSome = true := by decide +kernel
  obtain ⟨run,ran⟩ := Option.isSome_iff_exists.mp greets
  obtain ⟨last,both⟩ := Option.isSome_iff_exists.mp waves
  obtain ⟨middle,one,two⟩ := Option.bind_eq_some_iff.mp both
  have first : Runs (NodeStep (fun _ => 0) 24) (wifiSnifferStores fresh) [(.receive roomy greeting 7,run.out)] run.state :=
    .cons (.receive ran) .nil
  have second : Runs (NodeStep (fun _ => 1) 24) (wifiSnifferStores fresh)
      [(.receive roomy wave 3,middle.out),(.receive roomy greeting 7,last.out)] last.state :=
    .cons (.receive one) (.cons (.receive two) .nil)
  refine ⟨_,_,_,_,first,second,rfl,rfl,records_apart .sniffer .sniffer rfl first second ?_ ?_ ?_⟩
  · simp [Supplied,roomy,quiet]
  · simp only [List.cons_append,List.nil_append,List.forall_mem_cons]
    exact ⟨greeting_whole,wave_whole,greeting_whole,List.forall_mem_nil _⟩
  · rfl

end Stations

end EspOwl.StationRecords
