import TestEngine.Proofs.Run.Answers

/-!
# Paths of processes

A trace leaves out what user code finds in its world, so it does not tell how user code ends. A
*path* has all that a process learns: it is a trace together with each world that was found and the
one that was left in its place. So a path of a process has one value at its end, and so has each
part of it that is a path of a part of the process.

* `Process.Reaches` — with some steps a process comes to another one.
* `Process.path_bind_iff` — the paths of a sequence are a path of its first part and one of its
  second.
* `SerialRun.exists_takes` — the steps of a serial run.
-/

namespace TestEngine

variable {σ ω α β : Type}

/-- A step of a process, with what it learns. -/
inductive PathStep (ω : Type) where
  | act (action : Action)
  /-- User code finds the world and leaves another one. -/
  | world (before after : ω)

/-- Steps that can be seen from outside. -/
def acted (as : List Action) : List (PathStep ω) := as.map .act

/-- The steps that can be seen from outside. -/
def acts (π : List (PathStep ω)) : List Action :=
  π.filterMap fun
    | .act a => some a
    | .world .. => none

@[simp] theorem acts_append (π ρ : List (PathStep ω)) : acts (π ++ ρ) = acts π ++ acts ρ :=
  List.filterMap_append

@[simp] theorem acts_acted (as : List Action) : acts (acted as : List (PathStep ω)) = as := by
  rw [acts, acted, List.filterMap_map]
  exact List.filterMap_some

/-- Steps that lead from the world `w` to the world `w'`: each finds the world that was left. -/
def Connects : ω → List (PathStep ω) → ω → Prop
  | w, [], w' => w = w'
  | w, .act _ :: π, w' => Connects w π w'
  | w, .world before after :: π, w' => before = w ∧ Connects after π w'

namespace Process

/-- `p.Reaches π q`: with the steps `π` the process `p` comes to `q`. -/
inductive Reaches : Process ω α → List (PathStep ω) → Process ω α → Prop
  | refl (p : Process ω α) : Reaches p [] p
  | queue {m : Message} {next : Bool → Process ω α} {b : Bool} {π : List (PathStep ω)}
      {q : Process ω α} (h : Reaches (next b) π q) :
      Reaches (queue m next) (.act (.queued m b) :: π) q
  | cancel {next : Process ω α} {π : List (PathStep ω)} {q : Process ω α} (h : Reaches next π q) :
      Reaches (cancel next) (.act .cancelled :: π) q
  | askCancelled {next : Bool → Process ω α} {b : Bool} {π : List (PathStep ω)} {q : Process ω α}
      (h : Reaches (next b) π q) : Reaches (askCancelled next) (.act (.asked b) :: π) q
  | world {change : ω → ω} {next : ω → Process ω α} {w : ω} {π : List (PathStep ω)}
      {q : Process ω α} (h : Reaches (next w) π q) :
      Reaches (world change next) (.world w (change w) :: π) q
  | journal {entry : Activity} {next : Process ω α} {π : List (PathStep ω)} {q : Process ω α}
      (h : Reaches next π q) : Reaches (journal entry next) (.act (.activity entry) :: π) q

/-- With the steps `π` the process ends, with the value `a`. -/
def Path (p : Process ω α) (π : List (PathStep ω)) (a : α) : Prop := p.Reaches π (done a)

namespace Reaches

variable {p q r : Process ω α} {π ρ : List (PathStep ω)}

theorem append (h : p.Reaches π q) (h' : q.Reaches ρ r) : p.Reaches (π ++ ρ) r := by
  induction h with
  | refl p => exact h'
  | queue _ ih => exact .queue (ih h')
  | cancel _ ih => exact .cancel (ih h')
  | askCancelled _ ih => exact .askCancelled (ih h')
  | world _ ih => exact .world (ih h')
  | journal _ ih => exact .journal (ih h')

/-- What a process does, it does with anything after it. -/
theorem bind (h : p.Reaches π q) (f : α → Process ω β) : (p >>= f).Reaches π (q >>= f) := by
  induction h with
  | refl p => exact .refl _
  | queue _ ih => exact .queue ih
  | cancel _ ih => exact .cancel ih
  | askCancelled _ ih => exact .askCancelled ih
  | world _ ih => exact .world ih
  | journal _ ih => exact .journal ih

theorem steps (h : p.Reaches π q) : p.Steps (acts π) q := by
  induction h with
  | refl p => exact .refl p
  | queue _ ih => exact .queue ih
  | cancel _ ih => exact .cancel ih
  | askCancelled _ ih => exact .askCancelled ih
  | world _ ih => exact .world ih
  | journal _ ih => exact .journal ih

end Reaches

theorem path_done {a b : α} {π : List (PathStep ω)} (h : (done a : Process ω α).Path π b) :
    π = [] ∧ a = b := by
  cases h
  exact ⟨rfl, rfl⟩

/-- A path of a sequence is made of paths of its two parts. -/
theorem path_bind {p : Process ω α} {f : α → Process ω β} {π : List (PathStep ω)} {b : β}
    (h : (p >>= f).Path π b) :
    ∃ ρ a ρ', p.Path ρ a ∧ (f a).Path ρ' b ∧ π = ρ ++ ρ' := by
  induction p generalizing π with
  | done a => exact ⟨[], a, π, .refl _, h, rfl⟩
  | queue m next ih =>
    cases h with
    | queue h =>
      obtain ⟨ρ, a, ρ', h₁, h₂, rfl⟩ := ih _ h
      exact ⟨_, a, ρ', .queue h₁, h₂, rfl⟩
  | cancel next ih =>
    cases h with
    | cancel h =>
      obtain ⟨ρ, a, ρ', h₁, h₂, rfl⟩ := ih h
      exact ⟨_, a, ρ', .cancel h₁, h₂, rfl⟩
  | askCancelled next ih =>
    cases h with
    | askCancelled h =>
      obtain ⟨ρ, a, ρ', h₁, h₂, rfl⟩ := ih _ h
      exact ⟨_, a, ρ', .askCancelled h₁, h₂, rfl⟩
  | world change next ih =>
    cases h with
    | world h =>
      obtain ⟨ρ, a, ρ', h₁, h₂, rfl⟩ := ih _ h
      exact ⟨_, a, ρ', .world h₁, h₂, rfl⟩
  | journal entry next ih =>
    cases h with
    | journal h =>
      obtain ⟨ρ, a, ρ', h₁, h₂, rfl⟩ := ih h
      exact ⟨_, a, ρ', .journal h₁, h₂, rfl⟩

namespace Path

variable {p : Process ω α} {π : List (PathStep ω)} {a : α}

theorem trace (h : p.Path π a) : p.Trace (acts π) a := h.steps

/-- What holds of every trace holds of a path. -/
theorem of_yields {P : List Action → α → Prop} (h : p.Path π a) (hp : p.Yields P) :
    P (acts π) a := hp _ a h.trace

end Path

/-! ## Single steps -/

theorem path_report {ids : NodeIds} {event : Event} {π : List (PathStep ω)} {b : Bool}
    (h : (report ids event : Process ω Bool).Path π b) : π = acted (reported ⟨ids, event⟩ b) := by
  cases h with
  | @queue _ _ b' _ _ h =>
    cases b' with
    | true =>
      obtain ⟨rfl, rfl⟩ := path_done h
      rfl
    | false =>
      cases h with
      | cancel h =>
        obtain ⟨rfl, rfl⟩ := path_done h
        rfl

theorem path_enter {entry : Activity} {π : List (PathStep ω)} {u : Unit}
    (h : (enter entry : Process ω Unit).Path π u) : π = acted [.activity entry] := by
  cases h with
  | journal h =>
    obtain ⟨rfl, -⟩ := path_done h
    rfl

theorem path_isCancelled {π : List (PathStep ω)} {b : Bool}
    (h : (isCancelled : Process ω Bool).Path π b) : π = acted [.asked b] := by
  cases h with
  | askCancelled h =>
    obtain ⟨rfl, rfl⟩ := path_done h
    rfl

/-! ## Exactly the paths

What was said of paths above is all that there is to say: where a process is put together of parts,
the paths of the parts are put together to all of its paths. -/

section Exactly

variable {π : List (PathStep ω)}

theorem path_bind_iff {p : Process ω α} {f : α → Process ω β} {b : β} :
    (p >>= f).Path π b ↔ ∃ ρ a ρ', p.Path ρ a ∧ (f a).Path ρ' b ∧ π = ρ ++ ρ' := by
  constructor
  · exact path_bind
  · rintro ⟨ρ, a, ρ', hfirst, hrest, rfl⟩
    exact (Reaches.bind hfirst f).append hrest

theorem path_queue_iff {m : Message} {next : Bool → Process ω α} {a : α} :
    (queue m next).Path π a ↔ ∃ b ρ, (next b).Path ρ a ∧ π = .act (.queued m b) :: ρ := by
  constructor
  · rintro (_ | ⟨h⟩)
    exact ⟨_, _, h, rfl⟩
  · rintro ⟨b, ρ, h, rfl⟩
    exact .queue h

theorem path_enter_iff {entry : Activity} {u : Unit} :
    (enter entry : Process ω Unit).Path π u ↔ π = acted [.activity entry] := by
  constructor
  · exact path_enter
  · rintro rfl
    exact .journal (.refl _)

/-- A process does as it learns: if two of its paths agree as long as both go on, they are the same,
and so is what they end with. -/
theorem Path.unique {p : Process ω α} {a b : α} {ρ x y : List (PathStep ω)} (h : p.Path π a)
    (h' : p.Path ρ b) (hxy : π ++ x = ρ ++ y) : π = ρ ∧ a = b ∧ x = y := by
  induction p generalizing π ρ with
  | done c =>
    obtain ⟨rfl, rfl⟩ := path_done h
    obtain ⟨rfl, rfl⟩ := path_done h'
    exact ⟨rfl, rfl, hxy⟩
  | queue m next ih =>
    cases h with
    | queue h =>
      cases h' with
      | queue h' =>
        obtain ⟨hstep, hrest⟩ := List.cons.inj hxy
        cases hstep
        obtain ⟨rfl, rfl, rfl⟩ := ih _ h h' hrest
        exact ⟨rfl, rfl, rfl⟩
  | cancel next ih =>
    cases h with
    | cancel h =>
      cases h' with
      | cancel h' =>
        obtain ⟨rfl, rfl, rfl⟩ := ih h h' (List.cons.inj hxy).2
        exact ⟨rfl, rfl, rfl⟩
  | askCancelled next ih =>
    cases h with
    | askCancelled h =>
      cases h' with
      | askCancelled h' =>
        obtain ⟨hstep, hrest⟩ := List.cons.inj hxy
        cases hstep
        obtain ⟨rfl, rfl, rfl⟩ := ih _ h h' hrest
        exact ⟨rfl, rfl, rfl⟩
  | world change next ih =>
    cases h with
    | world h =>
      cases h' with
      | world h' =>
        obtain ⟨hstep, hrest⟩ := List.cons.inj hxy
        injection hstep with hbefore
        subst hbefore
        obtain ⟨rfl, rfl, rfl⟩ := ih _ h h' hrest
        exact ⟨rfl, rfl, rfl⟩
  | journal entry next ih =>
    cases h with
    | journal h =>
      cases h' with
      | journal h' =>
        obtain ⟨rfl, rfl, rfl⟩ := ih h h' (List.cons.inj hxy).2
        exact ⟨rfl, rfl, rfl⟩

end Exactly

/-! ## Paths that there are -/

/-- Every process has a path, if there is a world at all. -/
theorem exists_path (p : Process ω α) (w : ω) : ∃ π a, p.Path π a := by
  induction p with
  | done a => exact ⟨[], a, .refl _⟩
  | queue m next ih =>
    obtain ⟨π, a, h⟩ := ih true
    exact ⟨_, a, .queue h⟩
  | cancel next ih =>
    obtain ⟨π, a, h⟩ := ih
    exact ⟨_, a, .cancel h⟩
  | askCancelled next ih =>
    obtain ⟨π, a, h⟩ := ih false
    exact ⟨_, a, .askCancelled h⟩
  | world change next ih =>
    obtain ⟨π, a, h⟩ := ih w
    exact ⟨_, a, .world h⟩
  | journal entry next ih =>
    obtain ⟨π, a, h⟩ := ih
    exact ⟨_, a, .journal h⟩

section MayQueue

variable {p : Process ω α} {m : Message}

/-- On some path the process queues the message and is to go on. -/
def MayQueue (p : Process ω α) (m : Message) : Prop :=
  ∃ x y a, p.Path (x ++ .act (.queued m true) :: y) a

theorem MayQueue.bind (h : p.MayQueue m) (w : ω) (f : α → Process ω β) : (p >>= f).MayQueue m := by
  obtain ⟨x, y, a, hp⟩ := h
  obtain ⟨ρ, b, hf⟩ := exists_path (f a) w
  refine ⟨x, y ++ ρ, b, ?_⟩
  have hpath := (hp.bind f).append hf
  rwa [List.append_assoc, List.cons_append] at hpath

theorem Path.mayQueue {π : List (PathStep ω)} {a : α} (h : p.Path π a) {f : α → Process ω β}
    (hf : (f a).MayQueue m) : (p >>= f).MayQueue m := by
  obtain ⟨x, y, b, hpath⟩ := hf
  refine ⟨π ++ x, y, b, ?_⟩
  rw [List.append_assoc]
  exact (Reaches.bind h f).append hpath

theorem mayQueue_report (ids : NodeIds) (event : Event) :
    (report ids event : Process ω Bool).MayQueue ⟨ids, event⟩ := ⟨[], [], true, .queue (.refl _)⟩

theorem path_report_true (ids : NodeIds) (event : Event) :
    (report ids event : Process ω Bool).Path [.act (.queued ⟨ids, event⟩ true)] true :=
  .queue (.refl _)

end MayQueue

/-! ## The steps of a run -/

/-- A course is a path that leads through the world. -/
theorem Course.exists_reaches {p q : Process ω α} {w w' : ω} {as : List Action}
    (h : p.Course w as q w') : ∃ π, p.Reaches π q ∧ acts π = as ∧ Connects w π w' := by
  induction h with
  | refl p w => exact ⟨[], .refl p, rfl, rfl⟩
  | @queue m _ b _ _ _ _ _ ih =>
    obtain ⟨π, hreaches, rfl, hworld⟩ := ih
    exact ⟨.act (.queued m b) :: π, .queue hreaches, rfl, hworld⟩
  | cancel _ ih =>
    obtain ⟨π, hreaches, rfl, hworld⟩ := ih
    exact ⟨.act .cancelled :: π, .cancel hreaches, rfl, hworld⟩
  | @askCancelled _ b _ _ _ _ _ ih =>
    obtain ⟨π, hreaches, rfl, hworld⟩ := ih
    exact ⟨.act (.asked b) :: π, .askCancelled hreaches, rfl, hworld⟩
  | @world change _ w _ _ _ _ ih =>
    obtain ⟨π, hreaches, rfl, hworld⟩ := ih
    exact ⟨.world w (change w) :: π, .world hreaches, rfl, rfl, hworld⟩
  | @journal entry _ _ _ _ _ _ ih =>
    obtain ⟨π, hreaches, rfl, hworld⟩ := ih
    exact ⟨.act (.activity entry) :: π, .journal hreaches, rfl, hworld⟩

end Process

namespace SerialRun

variable {r : AssemblyRun ω} {c : Transport σ} (e : SerialRun r c)

/-- The run took the steps `π`: they are a path of its process, they show what was recorded, and
they lead through the world of user code. -/
structure Takes (π : List (PathStep ω)) : Prop where
  path : r.inTurn.Path π e.counts
  visible_eq : visible (acts π) = e.record
  connects : Connects e.world π e.final.world

theorem exists_takes : ∃ π, e.Takes π := by
  obtain ⟨as, hcourse, hvisible, -⟩ := e.exists_course
  obtain ⟨π, hreaches, rfl, hworld⟩ := hcourse.exists_reaches
  exact ⟨π, hreaches, hvisible, hworld⟩

end SerialRun

end TestEngine
