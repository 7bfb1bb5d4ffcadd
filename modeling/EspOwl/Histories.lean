import Mathlib

namespace EspOwl.Histories

variable {S A L O : Type*}

-- Runs of a labelled step relation. The trace keeps every label with the output
-- that its step produced, so two systems can be compared on what they answer.
inductive Runs (step : S → L → O → S → Prop) : S → List (L × O) → S → Prop where
  | nil : Runs step s [] s
  | cons : step s label output middle → Runs step middle rest last →
      Runs step s ((label,output) :: rest) last

theorem runs_append {step : S → L → O → S → Prop} (first : Runs step s before middle) (second : Runs step middle after last) :
    Runs step s (before ++ after) last := by
  induction first with
  | nil => exact second
  | cons head _ ih => exact .cons head (ih second)

-- The induction rule for safety: one step keeps the invariant, so every run does.
theorem runs_invariant {step : S → L → O → S → Prop} {motive : S → Prop}
    (kept : ∀ s label output next, motive s → step s label output next → motive next)
    (start : motive s) (path : Runs step s trace last) : motive last := by
  induction path with
  | nil => exact start
  | cons head _ ih => exact ih (kept _ _ _ _ start head)

theorem runs_within {step : S → L → O → S → Prop} {allowed : L → Prop} (path : Runs step s trace last)
    (all : ∀ entry ∈ trace, allowed entry.1) :
    Runs (fun s label output next => allowed label ∧ step s label output next) s trace last := by
  induction path with
  | nil => exact .nil
  | cons head _ ih =>
    rw [List.forall_mem_cons] at all
    exact .cons ⟨all.1,head⟩ (ih all.2)

theorem runs_mono {strong weak : S → L → O → S → Prop}
    (implied : ∀ s label output next, strong s label output next → weak s label output next)
    (path : Runs strong s trace last) : Runs weak s trace last := by
  induction path with
  | nil => exact .nil
  | cons head _ ih => exact .cons (implied _ _ _ _ head) ih

theorem runs_guarded {step : S → L → O → S → Prop} {motive : S → Prop}
    (kept : ∀ s label output next, motive s → step s label output next → motive next)
    (start : motive s) (path : Runs step s trace last) :
    Runs (fun s label output next => motive s ∧ step s label output next) s trace last := by
  induction path with
  | nil => exact .nil
  | cons head _ ih => exact .cons ⟨start,head⟩ (ih (kept _ _ _ _ start head))

theorem runs_entries {step : S → L → O → S → Prop} {allowed : L → O → Prop}
    (each : ∀ s label output next, step s label output next → allowed label output) (path : Runs step s trace last) :
    ∀ entry ∈ trace, allowed entry.1 entry.2 := by
  induction path with
  | nil => exact List.forall_mem_nil _
  | cons head _ ih => exact List.forall_mem_cons.mpr ⟨each _ _ _ _ head,ih⟩

theorem runs_until {step : S → L → O → S → Prop} {motive : S → Prop} {ends : L → O → Prop}
    (kept : ∀ s label output next, motive s → step s label output next → ends label output ∨ motive next)
    (start : motive s) (path : Runs step s trace last) :
    motive last ∨ ∃ before middle label output next after, trace = before ++ (label,output) :: after ∧
      motive middle ∧ step middle label output next ∧ ends label output ∧ Runs step next after last := by
  induction path with
  | nil => exact .inl start
  | cons head rest ih =>
    rcases kept _ _ _ _ start head with ended | kept_on
    · exact .inr ⟨[],_,_,_,_,_,rfl,start,head,ended,rest⟩
    · refine (ih kept_on).imp_right ?_
      rintro ⟨before,middle,label,output,next,after,rfl,later⟩
      exact ⟨_ :: before,middle,label,output,next,after,rfl,later⟩

theorem runs_logged {X : Type*} {step : S → L → O → S → Prop} (log : S → List X) (written : O → List X)
    (appends : ∀ s label output next, step s label output next → log next = log s ++ written output)
    (path : Runs step s trace last) : log last = log s ++ trace.flatMap fun entry => written entry.2 := by
  induction path with
  | nil => exact (List.append_nil _).symm
  | cons head _ ih => rw [ih,appends _ _ _ _ head,List.flatMap_cons,List.append_assoc]

-- Forward simulation: a concrete step is answered by an abstract step with the
-- same label and output. The matching run then has the same trace.
theorem runs_simulated {concrete : S → L → O → S → Prop} {abstract : A → L → O → A → Prop}
    (related : S → A → Prop)
    (answered : ∀ s a label output next, related s a → concrete s label output next →
      ∃ after, abstract a label output after ∧ related next after)
    (start : related s a) (path : Runs concrete s trace last) :
    ∃ after, Runs abstract a trace after ∧ related last after := by
  induction path generalizing a with
  | nil => exact ⟨a,.nil,start⟩
  | cons head _ ih =>
    obtain ⟨middle,one,matched⟩ := answered _ _ _ _ _ start head
    obtain ⟨after,rest,final⟩ := ih matched
    exact ⟨after,.cons one rest,final⟩

def perform (call : S → L → O × S) : S → List L → List O × S
  | s,[] => ([],s)
  | s,label :: later =>
    let (output,next) := call s label
    let (outputs,last) := perform call next later
    (output :: outputs,last)

theorem perform_simulated {concrete : S → L → O × S} {abstract : A → L → O × A} (related : S → A → Prop)
    (answered : ∀ s a label, related s a →
      (concrete s label).1 = (abstract a label).1 ∧ related (concrete s label).2 (abstract a label).2)
    (start : related s a) (labels : List L) :
    (perform concrete s labels).1 = (perform abstract a labels).1 ∧
      related (perform concrete s labels).2 (perform abstract a labels).2 := by
  induction labels generalizing s a with
  | nil => exact ⟨rfl,start⟩
  | cons label later ih =>
    obtain ⟨same,next⟩ := answered s a label start
    obtain ⟨rest,last⟩ := ih next
    exact ⟨congrArg₂ List.cons same rest,last⟩

end EspOwl.Histories
