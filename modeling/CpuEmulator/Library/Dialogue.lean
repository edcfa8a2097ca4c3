set_option autoImplicit false

namespace CpuEmulator.Library

-- What a conversation comes to on some input: a value and the input it has not
-- read, or that it waits for more. shown is what it has printed until then.
inductive Asked (ι ω α : Type) where
  | answered (value : α) (unread : List ι) (shown : List ω)
  | waiting (shown : List ω)

abbrev Dialogue (ι ω α : Type) := List ι → Asked ι ω α

variable {ι ω α β : Type}

def Asked.behind (before : List ω) : Asked ι ω α → Asked ι ω α
  | .answered value unread shown => .answered value unread (before ++ shown)
  | .waiting shown => .waiting (before ++ shown)

namespace Dialogue

def done (value : α) : Dialogue ι ω α := fun unread => .answered value unread []

def tell (shown : List ω) : Dialogue ι ω Unit := fun unread => .answered () unread shown

def bind (first : Dialogue ι ω α) (next : α → Dialogue ι ω β) : Dialogue ι ω β := fun input =>
  match first input with
  | .waiting shown => .waiting shown
  | .answered value unread shown => (next value unread).behind shown

def Yields (dialogue : Dialogue ι ω α) (input : List ι) (value : α) (unread : List ι) : Prop :=
  ∃ shown, dialogue input = .answered value unread shown

theorem yields_done (value : α) (input : List ι) : Yields (done value : Dialogue ι ω α) input value input := ⟨[], rfl⟩

theorem yields_tell (shown : List ω) (input : List ι) : Yields (tell shown) input () input := ⟨shown, rfl⟩

theorem behind_yields (asked : Asked ι ω α) (before shown : List ω) (value : α) (unread : List ι)
    (answered : asked.behind before = .answered value unread shown) : ∃ later, asked = .answered value unread later := by
  cases asked with
  | waiting later => cases answered
  | answered other rest later =>
      cases answered
      exact ⟨later, rfl⟩

theorem yields_bind (first : Dialogue ι ω α) (next : α → Dialogue ι ω β) (input middle unread : List ι) (value : α) (result : β)
    (begins : Yields first input value middle) (ends : Yields (next value) middle result unread) :
    Yields (bind first next) input result unread := by
  obtain ⟨shown, answered⟩ := begins
  obtain ⟨later, followed⟩ := ends
  refine ⟨shown ++ later, ?_⟩
  rw [bind, answered]
  dsimp only
  rw [followed]
  rfl

theorem yields_bind_iff (first : Dialogue ι ω α) (next : α → Dialogue ι ω β) (input unread : List ι) (result : β) :
    Yields (bind first next) input result unread ↔
      ∃ value middle, Yields first input value middle ∧ Yields (next value) middle result unread := by
  constructor
  · rintro ⟨shown, answered⟩
    rw [bind] at answered
    cases begun : first input with
    | waiting before =>
        rw [begun] at answered
        cases answered
    | answered value middle before =>
        rw [begun] at answered
        dsimp only at answered
        cases followed : next value middle with
        | waiting later =>
            rw [followed] at answered
            cases answered
        | answered other rest later =>
            rw [followed] at answered
            cases answered
            exact ⟨value, middle, ⟨before, begun⟩, ⟨later, followed⟩⟩
  · rintro ⟨value, middle, begins, ends⟩
    exact yields_bind first next input middle unread value result begins ends

-- A dialogue that only comes to values with the property, that is not disturbed
-- by what is typed behind what it reads, and that some answer always ends. mark
-- separates what has been typed from what is typed later.
structure Answerable (mark : ι) (dialogue : Dialogue ι ω α) (accepts : α → Prop) : Prop where
  ensures : ∀ input value unread, Yields dialogue input value unread → accepts value
  keeps : ∀ input value unread more, Yields dialogue input value unread →
    Yields dialogue (input ++ mark :: more) value (unread ++ mark :: more)
  resumes : ∀ input, (∀ value unread, ¬ Yields dialogue input value unread) →
    ∃ more value unread, Yields dialogue (input ++ mark :: more) value unread

theorem answerable_done (mark : ι) (value : α) (accepts : α → Prop) (holds : accepts value) :
    Answerable mark (done value : Dialogue ι ω α) accepts where
  ensures := by
    rintro input other unread ⟨shown, answered⟩
    cases answered
    exact holds
  keeps := by
    rintro input other unread more ⟨shown, answered⟩
    cases answered
    exact yields_done value _
  resumes input stuck := absurd (yields_done value input) (stuck value input)

theorem answerable_tell (mark : ι) (shown : List ω) : Answerable mark (tell shown) (fun _ => True) where
  ensures _ _ _ _ := trivial
  keeps := by
    rintro input value unread more ⟨_, answered⟩
    cases answered
    exact yields_tell shown _
  resumes input stuck := absurd (yields_tell shown input) (stuck () input)

theorem answerable_bind (mark : ι) (first : Dialogue ι ω α) (next : α → Dialogue ι ω β) (accepts : α → Prop) (settles : β → Prop)
    (begins : Answerable mark first accepts) (ends : ∀ value, accepts value → Answerable mark (next value) settles) :
    Answerable mark (bind first next) settles where
  ensures input result unread yields := by
    obtain ⟨value, middle, early, late⟩ := (yields_bind_iff first next input unread result).mp yields
    exact (ends value (begins.ensures input value middle early)).ensures middle result unread late
  keeps input result unread more yields := by
    obtain ⟨value, middle, early, late⟩ := (yields_bind_iff first next input unread result).mp yields
    have follows := ends value (begins.ensures input value middle early)
    exact yields_bind first next _ _ _ value result (begins.keeps input value middle more early)
      (follows.keeps middle result unread more late)
  resumes input stuck := by
    -- Typing on from where first has come to an end finishes the rest as well.
    have finish (whole middle : List ι) (value : α) (early : Yields first whole value middle)
        (unfinished : ∀ result unread, ¬ Yields (next value) middle result unread) :
        ∃ more result unread, Yields (bind first next) (whole ++ mark :: more) result unread := by
      obtain ⟨more, result, unread, late⟩ := (ends value (begins.ensures whole value middle early)).resumes middle unfinished
      exact ⟨more, result, unread, yields_bind first next _ _ _ value result (begins.keeps whole value middle more early) late⟩
    by_cases begun : ∃ value middle, Yields first input value middle
    · obtain ⟨value, middle, early⟩ := begun
      exact finish input middle value early fun result unread late =>
        stuck result unread (yields_bind first next _ _ _ value result early late)
    · obtain ⟨more, value, middle, early⟩ := begins.resumes input fun value middle early => begun ⟨value, middle, early⟩
      by_cases finished : ∃ result unread, Yields (next value) middle result unread
      · obtain ⟨result, unread, late⟩ := finished
        exact ⟨more, result, unread, yields_bind first next _ _ _ value result early late⟩
      · obtain ⟨further, result, unread, late⟩ := finish _ middle value early fun result unread late =>
          finished ⟨result, unread, late⟩
        refine ⟨more ++ mark :: further, result, unread, ?_⟩
        rwa [List.append_assoc, List.cons_append] at late

end Dialogue

end CpuEmulator.Library
