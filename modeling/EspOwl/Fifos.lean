import EspOwl.Histories

namespace EspOwl.Fifos
open Histories

variable {ι α L O : Type*} [DecidableEq ι]

inductive Move (ι α : Type*) where
  | enter (queue : ι) (item : α)
  | leave (queue : ι) (item : α)
  | stay

-- A family of queues, each entered at its end and left at its front.
inductive Moves : (ι → List α) → Move ι α → (ι → List α) → Prop where
  | enter : Moves queues (.enter queue item) (Function.update queues queue (queues queue ++ [item]))
  | leave (first : queues queue = item :: rest) :
      Moves queues (.leave queue item) (Function.update queues queue rest)
  | stay : Moves queues .stay queues

def Move.arrival : Move ι α → List (ι × α)
  | .enter queue item => [(queue,item)]
  | .leave _ _ => []
  | .stay => []

def Move.departure : Move ι α → List (ι × α)
  | .enter _ _ => []
  | .leave queue item => [(queue,item)]
  | .stay => []

-- The items that came and went over a trace whose outputs stand for moves.
def arrivals (move : O → Move ι α) (trace : List (L × O)) : List (ι × α) :=
  trace.flatMap fun entry => (move entry.2).arrival

def departures (move : O → Move ι α) (trace : List (L × O)) : List (ι × α) :=
  trace.flatMap fun entry => (move entry.2).departure

def ofQueue (queue : ι) (moved : List (ι × α)) : List α :=
  moved.filterMap fun entry => if entry.1 = queue then some entry.2 else none

theorem ofQueue_append (queue : ι) (before after : List (ι × α)) :
    ofQueue queue (before ++ after) = ofQueue queue before ++ ofQueue queue after := List.filterMap_append

theorem moved_conserves (moved : Moves queues move next) (queue : ι) :
    queues queue ++ ofQueue queue move.arrival = ofQueue queue move.departure ++ next queue := by
  cases moved with
  | @enter entered item =>
    by_cases same : entered = queue
    · subst same
      simp [ofQueue,Move.arrival,Move.departure]
    · simp [ofQueue,Move.arrival,Move.departure,same,Function.update_of_ne (Ne.symm same)]
  | @leave item rest left first =>
    by_cases same : left = queue
    · subst same
      simp [ofQueue,Move.arrival,Move.departure,first]
    · simp [ofQueue,Move.arrival,Move.departure,same,Function.update_of_ne (Ne.symm same)]
  | stay => simp [ofQueue,Move.arrival,Move.departure]

-- What was there and what came is what went and what is still there, in order.
theorem conserved {move : O → Move ι α}
    (path : Runs (fun queues (_ : L) output next => Moves queues (move output) next) queues trace last) (queue : ι) :
    queues queue ++ ofQueue queue (arrivals move trace) = ofQueue queue (departures move trace) ++ last queue := by
  induction path with
  | nil => exact List.append_nil _
  | cons head _ ih =>
    simp only [arrivals,departures,List.flatMap_cons,ofQueue_append] at ih ⊢
    rw [← List.append_assoc,moved_conserves head queue,List.append_assoc,ih,List.append_assoc]

end EspOwl.Fifos
