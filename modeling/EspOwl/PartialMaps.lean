import Mathlib

namespace EspOwl.PartialMaps

variable {K V : Type*}

-- Finite maps as partial functions: the view of a table that forgets its layout.
def present (f : K → Option V) : Set K := {k | (f k).isSome}

def put [DecidableEq K] (f : K → Option V) (key : K) (value : V) : K → Option V :=
  Function.update f key (some value)

def erase [DecidableEq K] (f : K → Option V) (key : K) : K → Option V := Function.update f key none

def keepIf (f : K → Option V) (wanted : V → Bool) : K → Option V := fun key => (f key).filter wanted

-- A list holds exactly the bindings of a map, each key once.
structure Enumerates (f : K → Option V) (items : List (K × V)) : Prop where
  distinct : (items.map Prod.fst).Nodup
  exact : ∀ key value, (key,value) ∈ items ↔ f key = some value

variable {f g : K → Option V} {items : List (K × V)}

theorem enumerates_nil : Enumerates (fun _ : K => (none : Option V)) [] := ⟨List.nodup_nil,by simp⟩

theorem Enumerates.perm (listed : Enumerates f items) (same : items.Perm other) : Enumerates f other :=
  ⟨(same.map Prod.fst).nodup_iff.mp listed.distinct,fun key value => by rw [← same.mem_iff,listed.exact]⟩

theorem Enumerates.absent (listed : Enumerates f items) : f key = none ↔ key ∉ items.map Prod.fst := by
  rw [Option.eq_none_iff_forall_ne_some]
  constructor
  · intro missing member
    obtain ⟨⟨k,value⟩,held,rfl⟩ := List.mem_map.mp member
    exact missing value ((listed.exact k value).mp held)
  · intro missing value bound
    exact missing (List.mem_map.mpr ⟨(key,value),(listed.exact key value).mpr bound,rfl⟩)

theorem Enumerates.present_iff (listed : Enumerates f items) :
    key ∈ present f ↔ key ∈ items.map Prod.fst := by
  rw [present,Set.mem_ofPred_eq,← not_iff_not,← listed.absent]
  simp

theorem Enumerates.count (listed : Enumerates f items) : (present f).ncard = items.length := by
  classical
  have same : present f = ((items.map Prod.fst).toFinset : Set K) := by
    ext key
    rw [listed.present_iff]
    simp
  rw [same,Set.ncard_coe_finset,List.toFinset_card_of_nodup listed.distinct,List.length_map]

theorem enumerates_exists (distinct : (items.map Prod.fst).Nodup) : ∃ f, Enumerates f items := by
  classical
  refine ⟨fun key => if bound : ∃ value, (key,value) ∈ items then some bound.choose else none,distinct,?_⟩
  intro key value
  constructor
  · intro held
    have bound : ∃ value, (key,value) ∈ items := ⟨value,held⟩
    have same := List.inj_on_of_nodup_map distinct bound.choose_spec held rfl
    rw [dif_pos bound,(Prod.mk.inj same).2]
  · intro found
    split at found
    · rename_i bound
      cases found
      exact bound.choose_spec
    · cases found

section Updates
variable [DecidableEq K]

theorem put_self (f : K → Option V) (key : K) (value : V) : put f key value key = some value := Function.update_self ..

theorem put_held (f : K → Option V) (key : K) (value : V) : put f key value key ≠ none := by
  rw [put_self]
  exact Option.some_ne_none value

theorem put_other (f : K → Option V) (value : V) (other : k ≠ key) : put f key value k = f k :=
  Function.update_of_ne other ..

theorem put_some (bound : put f key value k = some v) : k = key ∧ v = value ∨ k ≠ key ∧ f k = some v := by
  by_cases here : k = key
  · subst here
    rw [put_self] at bound
    exact .inl ⟨rfl,(Option.some.inj bound).symm⟩
  · rw [put_other f value here] at bound
    exact .inr ⟨here,bound⟩

theorem erase_some (bound : erase f key k = some v) : k ≠ key ∧ f k = some v := by
  by_cases here : k = key
  · rw [erase,here,Function.update_self] at bound
    cases bound
  · rw [erase,Function.update_of_ne here] at bound
    exact ⟨here,bound⟩

theorem Enumerates.put_fresh (listed : Enumerates f items) (fresh : f key = none) (value : V) :
    Enumerates (put f key value) ((key,value) :: items) := by
  have missing := listed.absent.mp fresh
  refine ⟨List.nodup_cons.mpr ⟨missing,listed.distinct⟩,?_⟩
  intro k v
  rw [List.mem_cons,put]
  by_cases same : k = key
  · subst same
    have absent : ∀ w, (k,w) ∉ items := fun w held => missing (List.mem_map.mpr ⟨_,held,rfl⟩)
    simp [absent,eq_comm]
  · rw [Function.update_of_ne same,listed.exact]
    simp [same]

theorem Enumerates.put_over (listed : Enumerates f (left ++ (key,old) :: right)) (value : V) :
    Enumerates (put f key value) (left ++ (key,value) :: right) := by
  have distinct := listed.distinct
  refine ⟨by simpa using distinct,?_⟩
  intro k v
  rw [put]
  by_cases same : k = key
  · subst same
    have leftMissing : ∀ w, (k,w) ∉ left := by
      intro w held
      simp only [List.map_append,List.map_cons,List.nodup_append] at distinct
      exact distinct.2.2 k (List.mem_map.mpr ⟨_,held,rfl⟩) k (by simp) rfl
    have rightMissing : ∀ w, (k,w) ∉ right := by
      intro w held
      simp only [List.map_append,List.map_cons,List.nodup_append,List.nodup_cons] at distinct
      exact distinct.2.1.1 (List.mem_map.mpr ⟨_,held,rfl⟩)
    simp [leftMissing,rightMissing,eq_comm]
  · rw [Function.update_of_ne same,← listed.exact]
    simp [same]

theorem Enumerates.erased (listed : Enumerates f ((key,value) :: items)) : Enumerates (erase f key) items := by
  obtain ⟨missing,distinct⟩ := List.nodup_cons.mp listed.distinct
  refine ⟨distinct,?_⟩
  intro k v
  rw [erase]
  by_cases same : k = key
  · subst same
    have absent : (k,v) ∉ items := fun held => missing (List.mem_map.mpr ⟨_,held,rfl⟩)
    simp [absent]
  · rw [Function.update_of_ne same,← listed.exact]
    simp [same]

theorem erase_absent (absent : f key = none) : erase f key = f := by
  rw [erase,← absent,Function.update_eq_self]

end Updates

theorem Enumerates.filtered (listed : Enumerates f items) (wanted : V → Bool) :
    Enumerates (keepIf f wanted) (items.filter fun entry => wanted entry.2) := by
  refine ⟨listed.distinct.sublist ((List.filter_sublist).map _),?_⟩
  intro key value
  rw [List.mem_filter,listed.exact,keepIf,Option.filter_eq_some_iff]

end EspOwl.PartialMaps
