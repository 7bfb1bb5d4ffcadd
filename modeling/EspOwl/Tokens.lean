import Mathlib

namespace EspOwl.Tokens

variable {α : Type*}

section Words
variable {sep : α → Bool}

-- The words of a text: what stands between its separators, as far as anything does.
def words (sep : α → Bool) (text : List α) : List (List α) := (text.splitOnP sep).filter fun word => !word.isEmpty

theorem words_sep (separates : sep a = true) (left right : List α) :
    words sep (left ++ a :: right) = words sep left ++ words sep right := by
  rw [words,List.splitOnP_append_cons left right separates,List.filter_append]
  rfl

theorem words_nil (sep : α → Bool) : words sep [] = [] := by
  rw [words,List.splitOnP_nil]
  rfl

theorem words_skip {gap : List α} (blank : ∀ a ∈ gap, sep a = true) (text : List α) :
    words sep (gap ++ text) = words sep text := by
  induction gap with
  | nil => rfl
  | cons a gap ih =>
    rw [List.forall_mem_cons] at blank
    have first := words_sep blank.1 [] (gap ++ text)
    rw [List.nil_append,words_nil,List.nil_append] at first
    rw [List.cons_append,first,ih blank.2]

theorem words_word {word : List α} (some_letters : word ≠ []) (letters : ∀ a ∈ word, sep a = false) :
    words sep word = [word] := by
  rw [words,List.splitOnP_eq_singleton letters]
  simpa using some_letters

theorem words_first {word : List α} (some_letters : word ≠ []) (letters : ∀ a ∈ word, sep a = false)
    (separates : sep a = true) (rest : List α) : words sep (word ++ a :: rest) = word :: words sep rest := by
  rw [words_sep separates,words_word some_letters letters]
  rfl

theorem broken (p : α → Bool) (text : List α) :
    ∃ part rest, text = part ++ rest ∧ (∀ a ∈ part, p a = true) ∧ ∀ b tail, rest = b :: tail → p b = false := by
  refine ⟨text.takeWhile p,text.dropWhile p,?_,fun _ => List.mem_takeWhile_imp,?_⟩
  · exact List.takeWhile_append_dropWhile.symm
  intro b tail stopped
  have starts := List.dropWhile_get_zero_not p text
  rw [stopped] at starts
  simpa using starts (Nat.zero_lt_succ _)

-- A text holds separators only, or its first word behind some separators: at its end
-- or before another separator.
theorem opened (sep : α → Bool) (text : List α) : (∀ a ∈ text, sep a = true) ∨
    ∃ gap word, (∀ a ∈ gap, sep a = true) ∧ word ≠ [] ∧ (∀ a ∈ word, sep a = false) ∧
      (text = gap ++ word ∨ ∃ a rest, sep a = true ∧ text = gap ++ (word ++ a :: rest)) := by
  obtain ⟨gap,tail,rfl,blank,starts⟩ := broken sep text
  obtain ⟨word,rest,rfl,letters,ends⟩ := broken (fun a => !sep a) tail
  simp only [Bool.not_eq_true'] at letters
  cases word with
  | nil =>
    cases rest with
    | nil =>
      rw [List.append_nil,List.append_nil]
      exact .inl blank
    | cons a rest =>
      have letter := ends a rest rfl
      rw [starts a rest rfl] at letter
      cases letter
  | cons b word =>
    refine .inr ⟨gap,b :: word,blank,List.cons_ne_nil b word,letters,?_⟩
    cases rest with
    | nil => exact .inl (by rw [List.append_nil])
    | cons a rest =>
      have separates := ends a rest rfl
      rw [Bool.not_eq_false'] at separates
      exact .inr ⟨a,rest,separates,rfl⟩

theorem words_blank_iff {text : List α} : words sep text = [] ↔ ∀ a ∈ text, sep a = true := by
  constructor
  · intro no_words
    rcases opened sep text with blank | ⟨gap,word,blank,some_letters,letters,rfl | ⟨a,rest,separates,rfl⟩⟩
    · exact blank
    · rw [words_skip blank,words_word some_letters letters] at no_words
      cases no_words
    · rw [words_skip blank,words_first some_letters letters separates] at no_words
      cases no_words
  · intro blank
    have skipped := words_skip blank []
    rwa [List.append_nil,words_nil] at skipped

end Words

section Strtok
variable [DecidableEq α] (nul : α) (sep : α → Bool)

-- The string at a position of the memory.
def stringAt (mem : List α) (pos : Nat) : List α := (mem.drop pos).takeWhile fun a => a ≠ nul

-- What a call of strtok returns and leaves behind: the memory and the pointer that
-- the next call goes on from.
structure Cut (α : Type*) where
  token : Option Nat
  mem : List α
  lasts : Option Nat

-- strtok(s, ..), with the separators as a set that the terminator is not in.
def strtok (s : Option Nat) (mem : List α) (lasts : Option Nat) : Cut α :=
  match s.or lasts with
  | none => ⟨none,mem,none⟩
  | some pos =>
    let start := pos + ((mem.drop pos).takeWhile sep).length
    let length := ((mem.drop start).takeWhile fun a => a ≠ nul && !sep a).length
    if length = 0 then ⟨none,mem,none⟩
    else if mem[start + length]? = some nul then ⟨some start,mem,none⟩
    else ⟨some start,mem.set (start + length) nul,some (start + length + 1)⟩

end Strtok

section Memory

theorem takeWhile_stop {p : α → Bool} {part : List α} (pass : ∀ a ∈ part, p a = true) (stop : p b = false)
    (rest : List α) : (part ++ b :: rest).takeWhile p = part := by
  rw [List.takeWhile_append_of_pos pass,List.takeWhile_cons_of_neg (by simp [stop]),List.append_nil]

variable [DecidableEq α] {nul : α} {sep : α → Bool} {front gap word : List α}

theorem stringAt_behind (nul : α) (front tail : List α) (pos : Nat) :
    stringAt nul (front ++ tail) (front.length + pos) = stringAt nul tail pos := by
  rw [stringAt,stringAt,List.drop_append,List.drop_eq_nil_of_le (Nat.le_add_right _ _),List.nil_append,
    Nat.add_sub_cancel_left]

theorem stringAt_ended {text : List α} (clean : nul ∉ text) (rest : List α) :
    stringAt nul (text ++ nul :: rest) 0 = text := by
  rw [stringAt,List.drop_zero]
  refine takeWhile_stop (fun a member => ?_) (by simp) rest
  rw [decide_eq_true_iff]
  rintro rfl
  exact clean member

-- strtok from the end of `front` on: it passes the gap, and stops behind the word.
theorem strtok_reads (goes_on : s.or lasts = some front.length) (blank : ∀ a ∈ gap, sep a = true)
    (letters : ∀ a ∈ word, a ≠ nul ∧ sep a = false) (stops : b = nul ∨ sep b = true)
    (starts : word = [] → sep b = false) (rest : List α) :
    strtok nul sep s (front ++ (gap ++ (word ++ b :: rest))) lasts =
      if word = [] then ⟨none,front ++ (gap ++ (word ++ b :: rest)),none⟩
      else if b = nul then ⟨some (front.length + gap.length),front ++ (gap ++ (word ++ b :: rest)),none⟩
      else ⟨some (front.length + gap.length),front ++ (gap ++ (word ++ nul :: rest)),
        some (front.length + gap.length + word.length + 1)⟩ := by
  have skipped : (gap ++ (word ++ b :: rest)).takeWhile sep = gap := by
    cases word with
    | nil => exact takeWhile_stop blank (starts rfl) rest
    | cons a word => exact takeWhile_stop blank (letters a List.mem_cons_self).2 (word ++ b :: rest)
  have spanned : (word ++ b :: rest).takeWhile (fun a => a ≠ nul && !sep a) = word := by
    refine takeWhile_stop (fun a member => ?_) ?_ rest
    · obtain ⟨other,letter⟩ := letters a member
      simp [other,letter]
    · rcases stops with rfl | separates
      · simp
      · simp [separates]
  have behind : (front ++ (gap ++ (word ++ b :: rest))).drop (front.length + gap.length) = word ++ b :: rest := by
    rw [← List.append_assoc,← List.length_append,List.drop_left]
  have found : (front ++ (gap ++ (word ++ b :: rest)))[front.length + gap.length + word.length]? = some b := by
    rw [← List.getElem?_drop,behind,List.getElem?_append_right (Nat.le_refl _),Nat.sub_self,List.getElem?_cons_zero]
  have cut : (front ++ (gap ++ (word ++ b :: rest))).set (front.length + gap.length + word.length) nul =
      front ++ (gap ++ (word ++ nul :: rest)) := by
    simp only [List.set_append_right,Nat.add_assoc,Nat.le_add_right,Nat.add_sub_cancel_left,Nat.le_refl,Nat.sub_self,
      List.set_cons_zero]
  rw [strtok,goes_on]
  simp only [List.drop_left,skipped,behind,spanned,found,cut,List.length_eq_zero_iff,Option.some.injEq]

theorem word_at (clean : nul ∉ word) (gap rest : List α) :
    stringAt nul (gap ++ word ++ [nul] ++ rest) gap.length = word := by
  have behind := stringAt_behind nul gap (word ++ nul :: rest) 0
  rw [stringAt_ended clean,Nat.add_zero] at behind
  rwa [List.append_assoc,List.append_assoc]

end Memory

section Reading
variable [DecidableEq α] {nul : α} {sep : α → Bool} {front mem : List α}

-- The words that strtok has not returned yet, when it is behind `front`.
def Unread (nul : α) (sep : α → Bool) (front mem : List α) (lasts : Option Nat) (left : List (List α)) : Prop :=
  ∃ tail, mem = front ++ tail ∧
    (lasts = none ∧ left = [] ∨ lasts = some front.length ∧ nul ∈ tail ∧ left = words sep (stringAt nul tail 0))

theorem strtok_unread (ends : sep nul = false) (unread : Unread nul sep front mem (s.or lasts) left) :
    (left = [] ∧ strtok nul sep s mem lasts = ⟨none,mem,none⟩) ∨
    ∃ gap word later, left = word :: later ∧ nul ∉ word ∧
      (strtok nul sep s mem lasts).token = some (front.length + gap.length) ∧
      Unread nul sep (front ++ (gap ++ word ++ [nul])) (strtok nul sep s mem lasts).mem
        (strtok nul sep s mem lasts).lasts later := by
  obtain ⟨tail,rfl,⟨nothing,rfl⟩ | ⟨goes_on,ended,rfl⟩⟩ := unread
  · rw [strtok,nothing]
    exact .inl ⟨rfl,rfl⟩
  obtain ⟨text,rest,rfl,clean⟩ := List.eq_append_cons_of_mem ended
  rw [stringAt_ended clean]
  rcases opened sep text with blank | ⟨gap,word,blank,some_letters,letters,rfl | ⟨a,more,separates,rfl⟩⟩
  · have read := strtok_reads goes_on blank (List.forall_mem_nil fun a => a ≠ nul ∧ sep a = false)
      (.inl rfl) (fun _ => ends) rest
    rw [if_pos rfl] at read
    exact .inl ⟨words_blank_iff.mpr blank,read⟩
  · rw [List.mem_append,not_or] at clean
    have read := strtok_reads goes_on blank (fun a member => ⟨ne_of_mem_of_not_mem member clean.2,letters a member⟩)
      (.inl rfl) (fun _ => ends) rest
    rw [if_neg some_letters,if_pos rfl] at read
    rw [List.append_assoc,read,words_skip blank,words_word some_letters letters]
    refine .inr ⟨gap,word,[],rfl,clean.2,rfl,rest,?_,.inl ⟨rfl,rfl⟩⟩
    simp only [List.append_assoc,List.singleton_append]
  · simp only [List.mem_append,List.mem_cons,not_or] at clean
    obtain ⟨_,own,other,unended⟩ := clean
    have read := strtok_reads goes_on blank (fun b member => ⟨ne_of_mem_of_not_mem member own,letters b member⟩)
      (.inr separates) (fun none_left => absurd none_left some_letters) (more ++ nul :: rest)
    rw [if_neg some_letters,if_neg (Ne.symm other)] at read
    have laid : gap ++ (word ++ a :: more) ++ nul :: rest = gap ++ (word ++ a :: (more ++ nul :: rest)) := by
      simp only [List.append_assoc,List.cons_append]
    rw [laid,read,words_skip blank,words_first some_letters letters separates]
    refine .inr ⟨gap,word,_,rfl,own,rfl,more ++ nul :: rest,?_,.inr ⟨?_,by simp,?_⟩⟩
    · simp only [List.append_assoc,List.singleton_append]
    · simp only [List.length_append,List.length_singleton,Nat.add_assoc]
    · rw [stringAt_ended unended]

end Reading

end EspOwl.Tokens
