import EspOwl.Rings

namespace EspOwl

-- struct circular_buf. A cell is written before it is read, so any content will do
-- for the array that malloc returns.
structure CircularBuf (α : Type) where
  buffer : Nat → α
  head : Nat
  tail : Nat
  max : Nat
  full : Bool

variable {α : Type}

-- full is set when head catches up with tail; the next put then moves tail as well.
def advancePointer (cbuf : CircularBuf α) : CircularBuf α :=
  let cbuf := if cbuf.full then {cbuf with tail := (cbuf.tail + 1) % cbuf.max} else cbuf
  let cbuf := {cbuf with head := (cbuf.head + 1) % cbuf.max}
  {cbuf with full := cbuf.head == cbuf.tail}

def retreatPointer (cbuf : CircularBuf α) : CircularBuf α :=
  {cbuf with full := false,tail := (cbuf.tail + 1) % cbuf.max}

def circularBufReset (cbuf : CircularBuf α) : CircularBuf α := {cbuf with head := 0,tail := 0,full := false}

def circularBufInit (size : Nat) (mem : CircularBuf α) : CircularBuf α := circularBufReset {mem with max := size}

def circularBufSize (cbuf : CircularBuf α) : Nat :=
  if !cbuf.full then
    if cbuf.tail ≤ cbuf.head then cbuf.head - cbuf.tail else cbuf.max + cbuf.head - cbuf.tail
  else cbuf.max

def circularBufEmpty (cbuf : CircularBuf α) : Bool := !cbuf.full && cbuf.head == cbuf.tail

def circularBufFull (cbuf : CircularBuf α) : Bool := cbuf.full

def circularBufPut (cbuf : CircularBuf α) (data : α) : CircularBuf α :=
  advancePointer {cbuf with buffer := Function.update cbuf.buffer cbuf.head data}

def circularBufPut2 (cbuf : CircularBuf α) (data : α) : Int × CircularBuf α :=
  if !circularBufFull cbuf then
    (0,advancePointer {cbuf with buffer := Function.update cbuf.buffer cbuf.head data})
  else (-1,cbuf)

-- `none` is the result -1.
def circularBufGet (cbuf : CircularBuf α) (peek : Bool) : Option α × CircularBuf α :=
  if !circularBufEmpty cbuf then
    (some (cbuf.buffer cbuf.tail),if !peek then retreatPointer cbuf else cbuf)
  else (none,cbuf)

def circularBufItems (cbuf : CircularBuf α) : List α :=
  Rings.contents cbuf.buffer cbuf.tail cbuf.max (circularBufSize cbuf)

-- The ring stands for this list, oldest first.
structure HoldsItems (cbuf : CircularBuf α) (items : List α) : Prop where
  inside : cbuf.tail < cbuf.max
  fits : items.length ≤ cbuf.max
  head : cbuf.head = (cbuf.tail + items.length) % cbuf.max
  full : cbuf.full = true ↔ items.length = cbuf.max
  listed : Rings.contents cbuf.buffer cbuf.tail cbuf.max items.length = items

namespace HoldsItems

theorem room (holds : HoldsItems cbuf items) (notFull : cbuf.full = false) : items.length < cbuf.max := by
  refine lt_of_le_of_ne holds.fits fun same => ?_
  rw [holds.full.mpr same] at notFull
  cases notFull

theorem size (holds : HoldsItems cbuf items) : circularBufSize cbuf = items.length := by
  unfold circularBufSize
  cases filled : cbuf.full with
  | true => simpa using (holds.full.mp filled).symm
  | false =>
    have room := holds.room filled
    obtain ⟨inside,_,head,_,_⟩ := holds
    simp only [Bool.not_false,if_true]
    by_cases wraps : cbuf.tail + items.length < cbuf.max
    · rw [Nat.mod_eq_of_lt wraps] at head
      rw [if_pos (by omega)]
      omega
    · rw [Nat.mod_eq_sub_mod (by omega),Nat.mod_eq_of_lt (by omega)] at head
      rw [if_neg (by omega)]
      omega

theorem items_eq (holds : HoldsItems cbuf items) : circularBufItems cbuf = items := by
  rw [circularBufItems,holds.size]
  exact holds.listed

theorem init {size : Nat} (positive : 0 < size) (mem : CircularBuf α) : HoldsItems (circularBufInit size mem) [] where
  inside := positive
  fits := Nat.zero_le _
  head := (Nat.zero_mod size).symm
  full := by
    simp only [circularBufInit,circularBufReset,List.length_nil,Bool.false_eq_true,false_iff]
    omega
  listed := rfl

theorem empty_iff (holds : HoldsItems cbuf items) : circularBufEmpty cbuf = true ↔ items = [] := by
  rw [circularBufEmpty,Bool.and_eq_true,Bool.not_eq_true',beq_iff_eq,holds.head,
    Rings.lap_iff holds.inside holds.fits,← List.length_eq_zero_iff]
  constructor
  · rintro ⟨notFull,nothing | all⟩
    · exact nothing
    · exact absurd all (holds.room notFull).ne
  · intro nothing
    refine ⟨?_,.inl nothing⟩
    have positive := holds.inside
    rw [← Bool.not_eq_true,holds.full,nothing]
    omega

theorem put (holds : HoldsItems cbuf items) (notFull : circularBufFull cbuf = false) (data : α) :
    HoldsItems (circularBufPut cbuf data) (items ++ [data]) := by
  have room := holds.room notFull
  obtain ⟨inside,_,head,_,listed⟩ := holds
  rw [circularBufFull] at notFull
  have next : (cbuf.head + 1) % cbuf.max = (cbuf.tail + (items.length + 1)) % cbuf.max := by
    rw [head,Nat.mod_add_mod,Nat.add_assoc]
  simp only [circularBufPut,advancePointer,notFull,Bool.false_eq_true,if_false]
  refine ⟨inside,?_,?_,?_,?_⟩ <;> simp only [List.length_append,List.length_singleton]
  · exact room
  · exact next
  · rw [beq_iff_eq,next,Rings.lap_iff inside room]
    exact or_iff_right (Nat.succ_ne_zero _)
  · rw [head,Rings.contents_put _ room,listed]

theorem occupied (holds : HoldsItems cbuf (data :: rest)) : circularBufEmpty cbuf = false := by
  rw [← Bool.not_eq_true,holds.empty_iff]
  exact List.cons_ne_nil _ _

theorem oldest (holds : HoldsItems cbuf (data :: rest)) : cbuf.buffer cbuf.tail = data := by
  have listed := holds.listed
  rw [List.length_cons,Rings.contents_get _ holds.inside,List.cons.injEq] at listed
  exact listed.1

theorem retreat (holds : HoldsItems cbuf (data :: rest)) : HoldsItems (retreatPointer cbuf) rest := by
  obtain ⟨inside,fits,head,full,listed⟩ := holds
  rw [List.length_cons,Rings.contents_get _ inside,List.cons.injEq] at listed
  rw [List.length_cons] at fits head
  refine ⟨Nat.mod_lt _ (by omega),by simp only [retreatPointer]; omega,?_,?_,listed.2⟩
  · simp only [retreatPointer]
    rw [head,Nat.mod_add_mod]
    congr 1
    omega
  · simp only [retreatPointer,Bool.false_eq_true,false_iff]
    omega

theorem get (holds : HoldsItems cbuf (data :: rest)) :
    circularBufGet cbuf false = (some data,retreatPointer cbuf) ∧ HoldsItems (retreatPointer cbuf) rest :=
  ⟨by simp [circularBufGet,holds.occupied,holds.oldest],holds.retreat⟩

theorem peek (holds : HoldsItems cbuf (data :: rest)) : circularBufGet cbuf true = (some data,cbuf) := by
  simp [circularBufGet,holds.occupied,holds.oldest]

theorem get_nothing (holds : HoldsItems cbuf []) (peek : Bool) : circularBufGet cbuf peek = (none,cbuf) := by
  simp [circularBufGet,holds.empty_iff.mpr rfl]

-- On a full ring put moves the tail first, as get does.
theorem put_full (holds : HoldsItems cbuf (first :: rest)) (filled : circularBufFull cbuf = true) (data : α) :
    HoldsItems (circularBufPut cbuf data) (rest ++ [data]) := by
  have same : circularBufPut cbuf data = circularBufPut (retreatPointer cbuf) data := by
    rw [circularBufFull] at filled
    simp [circularBufPut,advancePointer,retreatPointer,filled]
  rw [same]
  exact holds.retreat.put rfl data

theorem reset (holds : HoldsItems cbuf items) : HoldsItems (circularBufReset cbuf) [] :=
  init (lt_of_le_of_lt (Nat.zero_le _) holds.inside) cbuf

end HoldsItems

end EspOwl
