import EspOwl.Console
import EspOwl.Histories
import EspOwl.Rings

namespace EspOwl.HistoryRing
open Histories

inductive Call where
  | put (value : List UInt8)
  | set (index : Fin bufferSize) (value : List UInt8)

-- With each call, what it frees.
def ringCall (buffer : RingBuffer) : Call → Option (List UInt8) × RingBuffer
  | .put value => (putRingBufferFreed buffer,putRingBuffer buffer value)
  | .set index value => (none,setIndex buffer index.val value)

-- The purpose: the last lines, oldest first.
def listCall (entries : List (List UInt8)) : Call → Option (List UInt8) × List (List UInt8)
  | .put value =>
    if entries.length < bufferSize then (none,entries ++ [value]) else (entries.head?,entries.tail ++ [value])
  | .set index value =>
    (none,if index < entries.length then entries.set (entries.length - 1 - index) value else value :: entries)

def cells (buffer : RingBuffer) (i : Nat) : List UInt8 := buffer.data (ringIndex i)

structure Keeps (buffer : RingBuffer) (entries : List (List UInt8)) : Prop where
  size : buffer.size = entries.length
  fits : entries.length ≤ bufferSize
  inside : buffer.start < bufferSize
  finish : buffer.finish = (buffer.start + entries.length) % bufferSize
  listed : Rings.contents (cells buffer) buffer.start bufferSize entries.length = entries

section Cells
variable {data : Fin bufferSize → List UInt8} {entries : List (List UInt8)} {start finish e : Nat}

-- Contents only meet the slots, where the array of the ring is the one that is written.
theorem contents_cells (inside : e < bufferSize) (start count : Nat) (value : List UInt8) :
    Rings.contents (fun i => Function.update data (ringIndex e) value (ringIndex i)) start bufferSize count =
      Rings.contents (Function.update (fun i => data (ringIndex i)) e value) start bufferSize count := by
  apply List.map_congr_left
  intro i _
  have slot : (start + i) % bufferSize < bufferSize := Nat.mod_lt _ (by decide)
  simp only [Function.update_apply,ringIndex,Fin.mk.injEq,Nat.mod_eq_of_lt inside,Nat.mod_eq_of_lt slot]

theorem append_keeps (inside : start < bufferSize) (room : entries.length < bufferSize)
    (last : finish = (start + entries.length) % bufferSize)
    (listed : Rings.contents (fun i => data (ringIndex i)) start bufferSize entries.length = entries) (value : List UInt8) :
    Keeps ⟨Function.update data (ringIndex finish) value,start,(finish + 1) % bufferSize,entries.length + 1⟩
      (entries ++ [value]) := by
  have slot : finish < bufferSize := last ▸ Nat.mod_lt _ (by decide)
  refine ⟨by simp,by simpa using room,inside,?_,?_⟩ <;> rw [List.length_append,List.length_singleton]
  · rw [last,Nat.mod_add_mod,Nat.add_assoc]
  · unfold cells
    rw [contents_cells slot,last,Rings.contents_put _ room,listed]

theorem replace_keeps (inside : start < bufferSize) (fits : entries.length ≤ bufferSize)
    (last : finish = (start + entries.length) % bufferSize)
    (listed : Rings.contents (fun i => data (ringIndex i)) start bufferSize entries.length = entries)
    {k : Nat} (used : k < entries.length) (value : List UInt8) :
    Keeps ⟨Function.update data (ringIndex ((start + k) % bufferSize)) value,start,finish,entries.length⟩
      (entries.set k value) := by
  refine ⟨by simp,by simpa using fits,inside,?_,?_⟩ <;> rw [List.length_set]
  · exact last
  · unfold cells
    rw [contents_cells (Nat.mod_lt _ (by decide)),Rings.contents_set _ used fits,listed]

theorem prepend_keeps (inside : start < bufferSize) (room : entries.length < bufferSize)
    (last : finish = (start + (entries.length + 1)) % bufferSize)
    (listed : Rings.contents (fun i => data (ringIndex i)) ((start + 1) % bufferSize) bufferSize entries.length = entries)
    (value : List UInt8) :
    Keeps ⟨Function.update data (ringIndex start) value,start,finish,entries.length + 1⟩ (value :: entries) := by
  refine ⟨rfl,room,inside,last,?_⟩
  unfold cells
  rw [contents_cells inside,List.length_cons,Rings.contents_prepend _ inside room,listed]

end Cells

theorem put_keeps (before : Keeps buffer entries) (value : List UInt8) :
    putRingBufferFreed buffer = (listCall entries (.put value)).1 ∧
      Keeps (putRingBuffer buffer value) (listCall entries (.put value)).2 := by
  obtain ⟨data,start,finish,size⟩ := buffer
  obtain ⟨rfl,fits,inside,last,listed⟩ := before
  dsimp only at inside last listed
  rcases Nat.lt_or_eq_of_le fits with room | whole
  · simp only [putRingBufferFreed,putRingBuffer,listCall,room,if_true]
    exact ⟨trivial,append_keeps inside room last listed value⟩
  · obtain ⟨first,rest,rfl⟩ : ∃ first rest, entries = first :: rest :=
      List.exists_cons_of_length_pos (by rw [whole]; decide)
    have noRoom : ¬(first :: rest).length < bufferSize := by omega
    rw [List.length_cons] at whole
    rw [List.length_cons,Rings.contents_get _ inside,List.cons.injEq] at listed
    have lap : finish = start := by
      rw [last]
      change (start + (rest.length + 1)) % bufferSize = start
      rw [whole,Nat.add_mod_right,Nat.mod_eq_of_lt inside]
    simp only [putRingBufferFreed,putRingBuffer,listCall,noRoom,if_false]
    refine ⟨?_,append_keeps (Nat.mod_lt _ (by decide)) (by omega) ?_ listed.2 value⟩
    · rw [lap]
      exact congrArg some listed.1
    · rw [Nat.mod_add_mod,last]
      congr 1
      change start + (rest.length + 1) = _
      omega

theorem set_keeps (before : Keeps buffer entries) (index : Fin bufferSize) (value : List UInt8) :
    Keeps (setIndex buffer index.val value) (listCall entries (.set index value)).2 := by
  obtain ⟨data,start,finish,size⟩ := buffer
  obtain ⟨rfl,fits,inside,last,listed⟩ := before
  dsimp only at inside last listed
  have reduced : (index.val : Int) % (bufferSize : Nat) = index.val := Int.emod_eq_of_lt (by omega) (by omega)
  by_cases below : index.val < entries.length
  · have slot : (start + (entries.length - 1 - index.val)) % bufferSize =
        (if (finish : Int) - index.val - 1 < 0 then (finish : Int) - index.val - 1 + bufferSize
          else finish - index.val - 1).toNat := by
      rw [last]
      simp only [bufferSize] at *
      split_ifs <;> omega
    have away : ¬(index.val : Int) ≥ entries.length := by omega
    simp only [setIndex,listCall,reduced,below,away,if_true,if_false,← slot]
    exact replace_keeps inside fits last listed (by omega) value
  · have outside : (index.val : Int) ≥ entries.length := by omega
    have room : entries.length < bufferSize := by omega
    simp only [setIndex,listCall,reduced,below,outside,if_true,if_false]
    generalize earlier : (if start = 0 then bufferSize - 1 else start - 1) = start'
    have next : (start' + 1) % bufferSize = start ∧ start' < bufferSize ∧
        finish = (start' + (entries.length + 1)) % bufferSize := by
      rw [← earlier,last]
      simp only [bufferSize] at *
      split <;> omega
    obtain ⟨back,slot,last⟩ := next
    exact prepend_keeps slot room last (back ▸ listed) value

theorem call_keeps (before : Keeps buffer entries) (call : Call) :
    (ringCall buffer call).1 = (listCall entries call).1 ∧ Keeps (ringCall buffer call).2 (listCall entries call).2 := by
  cases call with
  | put value => exact put_keeps before value
  | set index value => exact ⟨rfl,set_keeps before index value⟩

theorem init_keeps (mem : RingBuffer) : Keeps (initRingBuffer mem) [] :=
  ⟨rfl,Nat.zero_le _,Nat.zero_lt_succ 19,rfl,rfl⟩

-- The slot that getRingBufferIndex reads for an index within its bounds.
def slotRead (buffer : RingBuffer) (index : Int) : Fin bufferSize :=
  ringIndex ((buffer.start + (buffer.size - index - 1)) % bufferSize).toNat

theorem index_inside {index : Int} (buffer : RingBuffer) (below : index < buffer.size) (above : -(buffer.size : Int) ≤ index) :
    getRingBufferIndex buffer index = buffer.data (slotRead buffer index) := if_neg (by omega)

theorem index_outside {index : Int} (buffer : RingBuffer) (outside : index ≥ buffer.size ∨ index < -(buffer.size : Int)) :
    getRingBufferIndex buffer index = [] := if_pos (by omega)

-- What is expected of an index that is an int.
structure Answered (buffer : RingBuffer) (entries : List (List UInt8)) (index : Int) : Prop where
  negated : -index < 2 ^ 31
  recent : 0 ≤ index → index < buffer.size → entries.reverse[index.toNat]? = some (getRingBufferIndex buffer index)
  stored : index < 0 → -(buffer.size : Int) ≤ index → ∃ k < buffer.size, slotRead buffer index = ringIndex (buffer.start + k)
  nothing : index ≥ buffer.size ∨ index < -(buffer.size : Int) → getRingBufferIndex buffer index = []

theorem slotRead_recent (before : Keeps buffer entries) {index : Int} (low : 0 ≤ index) (below : index < buffer.size) :
    entries.reverse[index.toNat]? = some (buffer.data (slotRead buffer index)) := by
  obtain ⟨size,fits,inside,_,listed⟩ := before
  have slot : slotRead buffer index = ringIndex ((buffer.start + (entries.length - 1 - index.toNat)) % bufferSize) := by
    rw [slotRead]
    congr 1
    simp only [bufferSize] at *
    omega
  have got : (Rings.contents (cells buffer) buffer.start bufferSize entries.length)[entries.length - 1 - index.toNat]? =
      some (cells buffer ((buffer.start + (entries.length - 1 - index.toNat)) % bufferSize)) :=
    Rings.contents_getElem _ _ _ (by omega)
  rw [listed] at got
  rw [List.getElem?_reverse (by omega),got,slot]
  rfl

-- A negative index counts on from the newest entry, over the slots that are not in use.
theorem slotRead_stored (before : Keeps buffer entries) {index : Int} (low : index < 0) (above : -(buffer.size : Int) ≤ index) :
    (∃ k < buffer.size, slotRead buffer index = ringIndex (buffer.start + k)) ↔ bufferSize - (buffer.size : Int) < -index := by
  have fits : buffer.size ≤ bufferSize := by rw [before.size]; exact before.fits
  simp only [slotRead,ringIndex,Fin.mk.injEq]
  simp only [bufferSize] at *
  constructor
  · rintro ⟨k,used,same⟩
    omega
  · intro far
    exact ⟨(buffer.size - index - 1 - 20).toNat,by omega,by omega⟩

theorem answered_iff (before : Keeps buffer entries) {index : Int} (low : -2 ^ 31 ≤ index) :
    Answered buffer entries index ↔
      index ≠ -2 ^ 31 ∧ (0 ≤ index ∨ index < -(buffer.size : Int) ∨ bufferSize - (buffer.size : Int) < -index) := by
  constructor
  · rintro ⟨negated,_,stored,_⟩
    refine ⟨by omega,?_⟩
    by_cases negative : index < 0 ∧ -(buffer.size : Int) ≤ index
    · exact .inr (.inr ((slotRead_stored before negative.1 negative.2).mp (stored negative.1 negative.2)))
    · omega
  · rintro ⟨negated,lands⟩
    refine ⟨by omega,?_,?_,index_outside buffer⟩
    · intro positive below
      rw [index_inside buffer below (by omega)]
      exact slotRead_recent before positive below
    · intro negative above
      exact (slotRead_stored before negative above).mpr (by omega)

-- After any calls, and with them what putRingBuffer has freed.
theorem history_ring (mem : RingBuffer) (calls : List Call) :
    let ring := perform ringCall (initRingBuffer mem) calls
    let list := perform listCall [] calls
    ring.1 = list.1 ∧ ring.2.size = list.2.length ∧ ring.2.size ≤ bufferSize ∧
      ring.2.finish = (ring.2.start + ring.2.size) % bufferSize ∧
      ∀ index : Int, -2 ^ 31 ≤ index → index < 2 ^ 31 → (Answered ring.2 list.2 index ↔
        index ≠ -2 ^ 31 ∧ (0 ≤ index ∨ index < -(ring.2.size : Int) ∨ bufferSize - (ring.2.size : Int) < -index)) := by
  obtain ⟨freed,last⟩ := perform_simulated Keeps (fun _ _ call before => call_keeps before call) (init_keeps mem) calls
  refine ⟨freed,last.size,last.size ▸ last.fits,?_,fun index low _ => answered_iff last low⟩
  rw [last.size]
  exact last.finish

-- The calls of test_buffer, up to the one that reads index -4 of five entries.
def testCalls : List Call := [.put [49,48],.put [50,48],.set ⟨2,by decide⟩ [54,48,51,51,50,52],.put [54,48],.put [55,48]]

theorem history_unwritten : ¬ ∀ mem calls (index : Int), -2 ^ 31 ≤ index → index < 2 ^ 31 →
    Answered (perform ringCall (initRingBuffer mem) calls).2 (perform listCall [] calls).2 index := by
  intro always
  obtain ⟨k,used,same⟩ := (always ⟨fun _ => [],0,0,0⟩ testCalls (-4) (by decide) (by decide)).stored (by decide) (by decide)
  revert same
  change k < 5 at used
  revert k
  decide

end EspOwl.HistoryRing
