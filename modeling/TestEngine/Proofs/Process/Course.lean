import TestEngine.Proofs.Process.Trace

/-!
# Courses of processes

A trace leaves open what the world of user code is like. A *course* does not: it says how a process
and the world go on together. Nothing but the answers to its messages and questions can make two
courses of a process differ.

* `Process.Course.eq_of_agree` — courses whose answers agree are the same.
-/

namespace TestEngine

variable {ω α : Type}

/-- Whoever asks whether the run is cancelled learns the truth, when it was cancelled before or
not. -/
def Truthful : Bool → List Action → Prop
  | _, [] => True
  | _, .cancelled :: as => Truthful true as
  | cancelled, .asked answer :: as => answer = cancelled ∧ Truthful cancelled as
  | cancelled, .queued .. :: as => Truthful cancelled as
  | cancelled, .activity _ :: as => Truthful cancelled as

theorem truthful_append (as bs : List Action) (cancelled : Bool) :
    Truthful cancelled (as ++ bs) ↔
      Truthful cancelled as ∧ Truthful (cancelledAfter cancelled as) bs := by
  induction as generalizing cancelled with
  | nil => simp [Truthful, cancelledAfter]
  | cons a as ih =>
    cases a with
    | asked answer =>
      simp only [List.cons_append, Truthful, ih, and_assoc, cancelledAfter]
    | _ => simp only [List.cons_append, Truthful, ih, cancelledAfter]

/-- As far as some steps are the same as others, they get the same answers. -/
structure Agree (as bs : List Action) : Prop where
  queued : ∀ x m c y c' y', as = x ++ .queued m c :: y → bs = x ++ .queued m c' :: y' → c = c'
  asked : ∀ x c y c' y', as = x ++ .asked c :: y → bs = x ++ .asked c' :: y' → c = c'

theorem Agree.tail {a : Action} {as bs : List Action} (h : Agree (a :: as) (a :: bs)) :
    Agree as bs where
  queued := fun x m c y c' y' hx hx' =>
    h.queued (a :: x) m c y c' y' (congrArg (List.cons a) hx) (congrArg (List.cons a) hx')
  asked := fun x c y c' y' hx hx' =>
    h.asked (a :: x) c y c' y' (congrArg (List.cons a) hx) (congrArg (List.cons a) hx')

namespace Process

/-- `p.Course w as q w'`: with the steps `as` the process `p` comes to `q`, and the world from `w`
to `w'`. -/
inductive Course : Process ω α → ω → List Action → Process ω α → ω → Prop
  | refl (p : Process ω α) (w : ω) : Course p w [] p w
  | queue {m : Message} {next : Bool → Process ω α} {b : Bool} {w w' : ω} {as : List Action}
      {q : Process ω α} (h : Course (next b) w as q w') :
      Course (queue m next) w (.queued m b :: as) q w'
  | cancel {next : Process ω α} {w w' : ω} {as : List Action} {q : Process ω α}
      (h : Course next w as q w') : Course (cancel next) w (.cancelled :: as) q w'
  | askCancelled {next : Bool → Process ω α} {b : Bool} {w w' : ω} {as : List Action}
      {q : Process ω α} (h : Course (next b) w as q w') :
      Course (askCancelled next) w (.asked b :: as) q w'
  | world {change : ω → ω} {next : ω → Process ω α} {w w' : ω} {as : List Action}
      {q : Process ω α} (h : Course (next w) (change w) as q w') :
      Course (world change next) w as q w'
  | journal {entry : Activity} {next : Process ω α} {w w' : ω} {as : List Action}
      {q : Process ω α} (h : Course next w as q w') :
      Course (journal entry next) w (.activity entry :: as) q w'

namespace Course

variable {p q r : Process ω α} {w w₁ w₂ : ω} {as bs : List Action}

theorem append (h : p.Course w as q w₁) (h' : q.Course w₁ bs r w₂) :
    p.Course w (as ++ bs) r w₂ := by
  induction h with
  | refl p w => exact h'
  | queue _ ih => exact .queue (ih h')
  | cancel _ ih => exact .cancel (ih h')
  | askCancelled _ ih => exact .askCancelled (ih h')
  | world _ ih => exact .world (ih h')
  | journal _ ih => exact .journal (ih h')

/-- A course is a trace of the process. -/
theorem steps (h : p.Course w as q w₁) : p.Steps as q := by
  induction h with
  | refl p w => exact .refl p
  | queue _ ih => exact .queue ih
  | cancel _ ih => exact .cancel ih
  | askCancelled _ ih => exact .askCancelled ih
  | world _ ih => exact .world ih
  | journal _ ih => exact .journal ih

/-- **Only answers make a difference.** Two courses to the end of a process are the same if they get
the same answers as far as they are the same. -/
theorem eq_of_agree {a b : α} (h : p.Course w as (done a) w₁) (h' : p.Course w bs (done b) w₂)
    (hagree : Agree as bs) : as = bs ∧ a = b ∧ w₁ = w₂ := by
  induction p generalizing w as bs with
  | done a =>
    cases h
    cases h'
    exact ⟨rfl, rfl, rfl⟩
  | queue m next ih =>
    cases h with
    | @queue _ _ c _ _ as _ h =>
      cases h' with
      | @queue _ _ c' _ _ bs _ h' =>
        obtain rfl : c = c' := hagree.queued [] m c as c' bs rfl rfl
        obtain ⟨rfl, hrest⟩ := ih c h h' hagree.tail
        exact ⟨rfl, hrest⟩
  | cancel next ih =>
    cases h with
    | cancel h =>
      cases h' with
      | cancel h' =>
        obtain ⟨rfl, hrest⟩ := ih h h' hagree.tail
        exact ⟨rfl, hrest⟩
  | askCancelled next ih =>
    cases h with
    | @askCancelled _ c _ _ as _ h =>
      cases h' with
      | @askCancelled _ c' _ _ bs _ h' =>
        obtain rfl : c = c' := hagree.asked [] c as c' bs rfl rfl
        obtain ⟨rfl, hrest⟩ := ih c h h' hagree.tail
        exact ⟨rfl, hrest⟩
  | world change next ih =>
    cases h with
    | world h =>
      cases h' with
      | world h' => exact ih w h h' hagree
  | journal entry next ih =>
    cases h with
    | journal h =>
      cases h' with
      | journal h' =>
        obtain ⟨rfl, hrest⟩ := ih h h' hagree.tail
        exact ⟨rfl, hrest⟩

end Course

end Process

end TestEngine
