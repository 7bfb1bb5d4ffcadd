import EspOwl.CircularBuffer
import EspOwl.Histories

namespace EspOwl.BoundedQueue
open Histories

inductive Call (α : Type) where
  | put (data : α)
  | put2 (data : α)
  | get (peek : Bool)
  | reset

inductive Reply (α : Type) where
  | done
  | code (r : Int)
  | item (data : Option α)

variable {α : Type}

def circularBufCall (cbuf : CircularBuf α) : Call α → Reply α × CircularBuf α
  | .put data => (.done,circularBufPut cbuf data)
  | .put2 data => let (r,cbuf) := circularBufPut2 cbuf data; (.code r,cbuf)
  | .get peek => let (data,cbuf) := circularBufGet cbuf peek; (.item data,cbuf)
  | .reset => (.done,circularBufReset cbuf)

-- The purpose: a list of at most `capacity` elements, oldest first.
def boundedCall (capacity : Nat) (items : List α) : Call α → Reply α × List α
  | .put data => (.done,(if items.length < capacity then items else items.tail) ++ [data])
  | .put2 data => if items.length < capacity then (.code 0,items ++ [data]) else (.code (-1),items)
  | .get peek => (.item items.head?,if peek then items else items.tail)
  | .reset => (.done,[])

structure Represents (capacity : Nat) (cbuf : CircularBuf α) (items : List α) : Prop where
  holds : HoldsItems cbuf items
  max : cbuf.max = capacity

-- A full ring has an oldest element, as its capacity is at least 1.
theorem put_represents (before : Represents capacity cbuf items) (data : α) :
    Represents capacity (circularBufPut cbuf data) ((if items.length < capacity then items else items.tail) ++ [data]) := by
  obtain ⟨holds,rfl⟩ := before
  refine ⟨?_,by cases filled : cbuf.full <;> simp [circularBufPut,advancePointer,filled]⟩
  cases filled : circularBufFull cbuf with
  | false =>
    rw [if_pos (holds.room filled)]
    exact holds.put filled data
  | true =>
    have whole : items.length = cbuf.max := holds.full.mp filled
    rw [if_neg (by omega)]
    cases items with
    | nil => exact absurd holds.inside (by simp only [List.length_nil] at whole; omega)
    | cons first rest => exact holds.put_full filled data

theorem put2_represents (before : Represents capacity cbuf items) (data : α) :
    (circularBufPut2 cbuf data).1 = (if items.length < capacity then 0 else -1) ∧
      Represents capacity (circularBufPut2 cbuf data).2 (if items.length < capacity then items ++ [data] else items) := by
  have appended := put_represents before data
  obtain ⟨holds,rfl⟩ := before
  unfold circularBufPut2
  cases filled : circularBufFull cbuf with
  | false =>
    have room : items.length < cbuf.max := holds.room filled
    rw [if_pos room] at appended
    rw [if_pos room,if_pos room]
    exact ⟨rfl,appended⟩
  | true =>
    have whole : items.length = cbuf.max := holds.full.mp filled
    have noRoom : ¬items.length < cbuf.max := by omega
    rw [if_neg noRoom,if_neg noRoom]
    exact ⟨rfl,holds,rfl⟩

theorem get_represents (before : Represents capacity cbuf items) (peek : Bool) :
    (circularBufGet cbuf peek).1 = items.head? ∧
      Represents capacity (circularBufGet cbuf peek).2 (if peek then items else items.tail) := by
  obtain ⟨holds,rfl⟩ := before
  cases items with
  | nil =>
    rw [holds.get_nothing]
    refine ⟨rfl,?_,rfl⟩
    cases peek <;> exact holds
  | cons first rest =>
    cases peek with
    | true =>
      rw [holds.peek]
      exact ⟨rfl,holds,rfl⟩
    | false =>
      obtain ⟨taken,left⟩ := holds.get
      rw [taken]
      exact ⟨rfl,left,rfl⟩

theorem call_refines (before : Represents capacity cbuf items) (call : Call α) :
    (circularBufCall cbuf call).1 = (boundedCall capacity items call).1 ∧
      Represents capacity (circularBufCall cbuf call).2 (boundedCall capacity items call).2 := by
  cases call with
  | put data => exact ⟨rfl,put_represents before data⟩
  | put2 data =>
    obtain ⟨code,after⟩ := put2_represents before data
    simp only [circularBufCall,boundedCall,code]
    by_cases room : items.length < capacity
    · rw [if_pos room] at after
      rw [if_pos room,if_pos room]
      exact ⟨rfl,after⟩
    · rw [if_neg room] at after
      rw [if_neg room,if_neg room]
      exact ⟨rfl,after⟩
  | get peek =>
    obtain ⟨data,after⟩ := get_represents before peek
    exact ⟨congrArg Reply.item data,after⟩
  | reset => exact ⟨rfl,before.holds.reset,before.max⟩

-- What the three questions are answered with.
structure Reported (capacity : Nat) (cbuf : CircularBuf α) (items : List α) : Prop where
  size : circularBufSize cbuf = items.length
  empty : circularBufEmpty cbuf = true ↔ items.length = 0
  full : circularBufFull cbuf = true ↔ items.length = capacity
  bounded : items.length ≤ capacity

theorem Represents.reported (state : Represents capacity cbuf items) : Reported capacity cbuf items := by
  obtain ⟨holds,rfl⟩ := state
  exact ⟨holds.size,holds.empty_iff.trans List.length_eq_zero_iff.symm,holds.full,holds.fits⟩

-- The calls before any point are such a sequence too, so the reports hold at each.
theorem calls_refine {capacity : Nat} (positive : 1 ≤ capacity) (mem : CircularBuf α) (calls : List (Call α)) :
    let ring := perform circularBufCall (circularBufInit capacity mem) calls
    let queue := perform (boundedCall capacity) [] calls
    ring.1 = queue.1 ∧ Reported capacity ring.2 queue.2 := by
  obtain ⟨answers,last⟩ := perform_simulated (Represents capacity) (fun _ _ call before => call_refines before call)
    ⟨.init positive mem,rfl⟩ calls
  exact ⟨answers,last.reported⟩

-- One cell: the second put drops the first element, the third is refused.
theorem calls_refine_single : (perform circularBufCall (circularBufInit 1 ⟨fun _ => 0,7,5,0,true⟩)
    [.put 1,.put 2,.put2 3,.get true,.get false]).1 = [.done,.done,.code (-1),.item (some 2),.item (some 2)] :=
  (calls_refine (by decide) _ _).1.trans rfl

end EspOwl.BoundedQueue
