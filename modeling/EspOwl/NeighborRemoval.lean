import EspOwl.NeighborList

namespace EspOwl.NeighborRemoval
open Dispatch Addressing NeighborList

section Cells
variable {α : Type} {size : Nat}

-- An array and an int index: `none` is an access outside the array.
def readAt (array : Fin size → α) (i : Int) : Option α :=
  if inside : 0 ≤ i ∧ i.toNat < size then some (array ⟨i.toNat,inside.2⟩) else none

def writeAt (array : Fin size → α) (i : Int) (a : α) : Option (Fin size → α) :=
  if inside : 0 ≤ i ∧ i.toNat < size then some (Function.update array ⟨i.toNat,inside.2⟩ a) else none

-- The loops count up to a bound; `rounds` is how often they still run.
def findFrom (array : Fin size → EtherAddr) (addr : EtherAddr) : Nat → Int → Option Int
  | 0,_ => some (-1)
  | rounds+1,i => do
    let held ← readAt array i
    if compareEtherAddr held addr = 0 then some i else findFrom array addr rounds (i + 1)

def findElementInEtherArray (array : Fin size → EtherAddr) (arrayLength : Int) (addr : EtherAddr) : Option Int :=
  findFrom array addr arrayLength.toNat 0

def shiftFrom : Nat → Int → (Fin size → α) → Option (Fin size → α)
  | 0,_,array => some array
  | rounds+1,i,array => do
    let next ← readAt array (i + 1)
    let array ← writeAt array i next
    shiftFrom rounds (i + 1) array

def removeElementFromArray (array : Fin size → α) (arrayLength index : Int) : Option (Fin size → α) :=
  shiftFrom (arrayLength - 1 - index).toNat index array

end Cells

-- awdl_neighbor_remove, with the copy of the struct that awdl_neighbor_add has too:
-- the copy as the function leaves it, then what the data points to.
def awdlNeighborRemove (p : AwdlPeer) (daemonState : AwdlState) : Option (AwdlState × AwdlState) := do
  let peers := daemonState.peers
  let index ← findElementInEtherArray peers.etherAddrList peers.etherAddrCount.toNat p.addr
  let list ← removeElementFromArray peers.etherAddrList peers.etherAddrCount.toNat index
  return ({daemonState with peers.etherAddrList := list,peers.etherAddrCount := peers.etherAddrCount - 1},daemonState)

-- The list without an address.
structure Erased (addr : EtherAddr) (state after : AwdlState) : Prop where
  list : awdlNeighborsPrint after = (awdlNeighborsPrint state).filter (· ≠ addr)
  count : after.peers.etherAddrCount.toNat = (awdlNeighborsPrint after).length

section Loops
variable {α : Type} {size : Nat}

theorem readAt_inside (array : Fin size → α) {i : Nat} (inside : i < size) :
    readAt array i = some (array ⟨i,inside⟩) :=
  dif_pos ⟨Int.natCast_nonneg i,inside⟩

theorem writeAt_inside (array : Fin size → α) {i : Nat} (inside : i < size) (a : α) :
    writeAt array i a = some (Function.update array ⟨i,inside⟩ a) :=
  dif_pos ⟨Int.natCast_nonneg i,inside⟩

-- The cells from i on, each with the one behind it.
def shifted (array : Fin size → α) (i rounds : Nat) (k : Fin size) : α :=
  if inside : i ≤ k.val ∧ k.val < i + rounds ∧ k.val + 1 < size then array ⟨k.val + 1,inside.2.2⟩ else array k

theorem shiftFrom_shifts (rounds i : Nat) (array : Fin size → α) (room : i + rounds < size) :
    shiftFrom rounds i array = some (shifted array i rounds) := by
  induction rounds generalizing i array with
  | zero =>
    rw [shiftFrom]
    congr 1
    funext k
    rw [shifted,dif_neg (by omega)]
  | succ rounds ih =>
    have next : i + 1 < size := by omega
    have read := readAt_inside array next
    have wrote := writeAt_inside array (Nat.lt_of_succ_lt next) (array ⟨i + 1,next⟩)
    rw [Int.natCast_succ] at read
    rw [shiftFrom,read]
    simp only [Option.bind_eq_bind,Option.bind_some,wrote]
    rw [← Int.natCast_succ,ih (i + 1) _ (by omega)]
    congr 1
    funext k
    -- Cell i is written in this round, the cells behind it are in the later ones.
    unfold shifted
    by_cases here : k = ⟨i,Nat.lt_of_succ_lt next⟩
    · subst here
      rw [dif_neg (by dsimp only; omega),Function.update_self,dif_pos (by dsimp only; omega)]
    · have apart : k.val ≠ i := fun same => here (Fin.ext same)
      by_cases behind : i + 1 ≤ k.val ∧ k.val < i + 1 + rounds ∧ k.val + 1 < size
      · rw [dif_pos behind,dif_pos (by omega),Function.update_of_ne]
        exact fun same => absurd (Fin.mk.inj same) (by omega)
      · rw [dif_neg behind,dif_neg (by omega),Function.update_of_ne here]

theorem shifted_list (array : Fin size → α) {i n : Nat} (found : i < n) (fits : n ≤ size) :
    (List.ofFn (shifted array i (n - 1 - i))).take (n - 1) = ((List.ofFn array).take n).eraseIdx i := by
  refine List.ext_getElem ?_ fun k left right => ?_
  · have inside : i < ((List.ofFn array).take n).length := by
      rw [List.length_take,List.length_ofFn,Nat.min_eq_left fits]
      exact found
    rw [List.length_eraseIdx_of_lt inside]
    simp only [List.length_take,List.length_ofFn]
    omega
  · simp only [List.length_take,List.length_ofFn] at left
    rw [List.getElem_take,List.getElem_ofFn,List.getElem_eraseIdx]
    split
    · rename_i front
      rw [List.getElem_take,List.getElem_ofFn,shifted,dif_neg (by dsimp only; omega)]
    · rw [List.getElem_take,List.getElem_ofFn,shifted,dif_pos (by dsimp only; omega)]

theorem findFrom_first (array : Fin size → EtherAddr) (addr : EtherAddr) (rounds i : Nat) (room : i + rounds ≤ size) :
    findFrom array addr rounds i = some (if addr ∈ ((List.ofFn array).drop i).take rounds then
      ((i + (((List.ofFn array).drop i).take rounds).idxOf addr : Nat) : Int) else -1) := by
  induction rounds generalizing i with
  | zero => rfl
  | succ rounds ih =>
    have here : i < size := by omega
    have cells : ((List.ofFn array).drop i).take (rounds + 1) =
        array ⟨i,here⟩ :: ((List.ofFn array).drop (i + 1)).take rounds := by
      rw [List.drop_eq_getElem_cons (by rw [List.length_ofFn]; exact here),List.take_succ_cons,List.getElem_ofFn]
    rw [findFrom,readAt_inside array here,cells]
    simp only [Option.bind_eq_bind,Option.bind_some,compareEtherAddr_zero]
    by_cases same : array ⟨i,here⟩ = addr
    · rw [if_pos same,same,if_pos List.mem_cons_self,List.idxOf_cons_self,Nat.add_zero]
    · have other : ¬ addr = array ⟨i,here⟩ := fun equal => same equal.symm
      rw [if_neg same,← Int.natCast_succ,ih (i + 1) (by omega),List.idxOf_cons_ne _ same,Nat.add_right_comm,Nat.add_assoc]
      simp only [List.mem_cons,other,false_or]

end Loops

variable {p : AwdlPeer} {state : AwdlState}

theorem printed_length (fits : state.peers.etherAddrCount.toNat ≤ awdlPeersMax) :
    (awdlNeighborsPrint state).length = state.peers.etherAddrCount.toNat := by
  rw [awdlNeighborsPrint,List.length_take,List.length_ofFn,Nat.min_eq_left fits]

theorem find_first (fits : state.peers.etherAddrCount.toNat ≤ awdlPeersMax) (addr : EtherAddr) :
    findElementInEtherArray state.peers.etherAddrList state.peers.etherAddrCount.toNat addr =
      some (if addr ∈ awdlNeighborsPrint state then (((awdlNeighborsPrint state).idxOf addr : Nat) : Int) else -1) := by
  have found := findFrom_first state.peers.etherAddrList addr state.peers.etherAddrCount.toNat 0 (by omega)
  rw [List.drop_zero,Nat.zero_add] at found
  exact found

theorem remove_listed (fits : state.peers.etherAddrCount.toNat ≤ awdlPeersMax)
    (distinct : (awdlNeighborsPrint state).Nodup) (listed : p.addr ∈ awdlNeighborsPrint state) :
    ∃ after, awdlNeighborRemove p state = some (after,state) ∧ Erased p.addr state after := by
  obtain ⟨i,place⟩ : ∃ i, (awdlNeighborsPrint state).idxOf p.addr = i := ⟨_,rfl⟩
  have index : i < state.peers.etherAddrCount.toNat := by
    rw [← place,← printed_length fits]
    exact List.idxOf_lt_length_of_mem listed
  have rounds : ((state.peers.etherAddrCount.toNat : Int) - 1 - i).toNat = state.peers.etherAddrCount.toNat - 1 - i := by
    omega
  have removed : removeElementFromArray state.peers.etherAddrList state.peers.etherAddrCount.toNat i =
      some (shifted state.peers.etherAddrList i (state.peers.etherAddrCount.toNat - 1 - i)) := by
    rw [removeElementFromArray,rounds,shiftFrom_shifts _ _ _ (by omega)]
  have shorter : (state.peers.etherAddrCount - 1).toNat = state.peers.etherAddrCount.toNat - 1 := by
    have bounded := state.peers.etherAddrCount.toNat_lt
    rw [UInt8.toNat_sub]
    change (2 ^ 8 - 1 + _) % 2 ^ 8 = _
    omega
  rw [awdlNeighborRemove,find_first fits,if_pos listed,place]
  simp only [Option.bind_eq_bind,Option.bind_some,removed]
  refine ⟨_,rfl,?list,?count⟩
  case list =>
    rw [awdlNeighborsPrint,shorter,shifted_list state.peers.etherAddrList index fits]
    change (awdlNeighborsPrint state).eraseIdx i = _
    rw [← List.erase_eq_eraseIdx_of_idxOf place,distinct.erase_eq_filter]
    refine List.filter_congr fun addr _ => ?_
    rw [Bool.eq_iff_iff,bne_iff_ne,decide_eq_true_iff]
  case count =>
    rw [printed_length]
    exact shorter.le.trans ((Nat.sub_le _ _).trans fits)

-- The error code of the search is an index like any other to the removal.
theorem remove_unlisted (fits : state.peers.etherAddrCount.toNat ≤ awdlPeersMax)
    (absent : p.addr ∉ awdlNeighborsPrint state) : awdlNeighborRemove p state = if state.peers.etherAddrCount = 0 then
      some ({state with peers.etherAddrCount := 255},state) else none := by
  rw [awdlNeighborRemove,find_first fits,if_neg absent]
  simp only [Option.bind_eq_bind,Option.bind_some]
  split
  · rename_i zero
    rw [zero]
    rfl
  · rename_i some_listed
    have positive : 0 < state.peers.etherAddrCount.toNat := by
      rw [Nat.pos_iff_ne_zero]
      exact fun zero => some_listed (UInt8.toNat_inj.mp zero)
    obtain ⟨rounds,more⟩ := Nat.exists_eq_succ_of_ne_zero positive.ne'
    have first : ((state.peers.etherAddrCount.toNat : Int) - 1 - -1).toNat = rounds + 1 := by omega
    have outside : ∀ a, writeAt state.peers.etherAddrList (-1) a = none := fun _ => dif_neg (by decide)
    rw [removeElementFromArray,first,shiftFrom]
    simp only [outside,Option.bind_eq_bind,Option.bind_none,Option.bind_fun_none]

theorem neighbor_removed_iff (p : AwdlPeer) (state : AwdlState) (fits : state.peers.etherAddrCount.toNat ≤ awdlPeersMax)
    (distinct : (awdlNeighborsPrint state).Nodup) :
    (∃ after, awdlNeighborRemove p state = some (after,state) ∧ Erased p.addr state after) ↔
      p.addr ∈ awdlNeighborsPrint state := by
  refine ⟨?_,remove_listed fits distinct⟩
  rintro ⟨after,removed,erased⟩
  by_contra absent
  rw [remove_unlisted fits absent] at removed
  split at removed
  · cases removed
    have counted := erased.count
    rw [awdlNeighborsPrint,List.length_take,List.length_ofFn] at counted
    change 255 = min 255 64 at counted
    exact absurd counted (by decide)
  · cases removed

def listed (addrs : List EtherAddr) : AwdlState :=
  addrs.foldl (fun state addr => (awdlNeighborAdd {(default : AwdlPeer) with addr := addr} state).1) fresh

-- The second of four, so that two entries move down.
theorem neighbor_removed_second : ∃ after,
    awdlNeighborRemove {(default : AwdlPeer) with addr := nodeTwo}
        (listed [nodeThree,nodeTwo,etherBroadcast,awdlBssid]) =
      some (after,listed [nodeThree,nodeTwo,etherBroadcast,awdlBssid]) ∧
    Erased nodeTwo (listed [nodeThree,nodeTwo,etherBroadcast,awdlBssid]) after ∧
    awdlNeighborsPrint after = [nodeThree,etherBroadcast,awdlBssid] := by
  obtain ⟨after,removed,erased⟩ := (neighbor_removed_iff {(default : AwdlPeer) with addr := nodeTwo}
    (listed [nodeThree,nodeTwo,etherBroadcast,awdlBssid]) (by decide) (by decide)).mpr (by decide)
  exact ⟨after,removed,erased,erased.list.trans (by decide)⟩

theorem neighbor_removed_outside : ¬ ∀ p state, state.peers.etherAddrCount.toNat ≤ awdlPeersMax →
    (awdlNeighborsPrint state).Nodup →
    ∃ after, awdlNeighborRemove p state = some (after,state) ∧ Erased p.addr state after := by
  intro always
  obtain ⟨after,removed,_⟩ := always {(default : AwdlPeer) with addr := nodeOne} (listed [nodeTwo]) (by decide)
    (by decide)
  have outside : awdlNeighborRemove {(default : AwdlPeer) with addr := nodeOne} (listed [nodeTwo]) = none := by rfl
  rw [outside] at removed
  cases removed

end EspOwl.NeighborRemoval
