import TestEngine.Program.Process

/-!
# Traces of processes

What a process may do, whatever it is answered. A *trace* lists the steps of a process that can be
seen from outside, each with its answer; how the world of user code answers is left open. So a law
that holds of every trace holds of every run, whatever the sink, the bus, the schedule and user code
do.

* `Process.trace_bind` — a trace of a sequence is a trace of its first part and one of its second.
* `Process.Yields` — every trace, and the value at its end, satisfies a predicate. The rules for it
  are those of a program logic: one for each way of putting processes together.
-/

namespace TestEngine

variable {ω α β : Type}

/-- A step of a process, with the answer. -/
inductive Action where
  | queued (message : Message) (goesOn : Bool)
  | cancelled
  | asked (answer : Bool)
  | activity (entry : Activity)
  deriving DecidableEq

/-- Whether a run is cancelled after some steps. -/
def cancelledAfter : Bool → List Action → Bool
  | cancelled, [] => cancelled
  | _, .cancelled :: as => cancelledAfter true as
  | cancelled, _ :: as => cancelledAfter cancelled as

theorem cancelledAfter_append (as bs : List Action) (cancelled : Bool) :
    cancelledAfter cancelled (as ++ bs) = cancelledAfter (cancelledAfter cancelled as) bs := by
  induction as generalizing cancelled with
  | nil => rfl
  | cons a as ih => cases a <;> exact ih _

namespace Process

/-- `p.Steps as q`: with the steps `as` the process `p` comes to `q`. -/
inductive Steps : Process ω α → List Action → Process ω α → Prop
  | refl (p : Process ω α) : Steps p [] p
  | queue {m : Message} {next : Bool → Process ω α} {b : Bool} {as : List Action}
      {q : Process ω α} (h : Steps (next b) as q) : Steps (queue m next) (.queued m b :: as) q
  | cancel {next : Process ω α} {as : List Action} {q : Process ω α} (h : Steps next as q) :
      Steps (cancel next) (.cancelled :: as) q
  | askCancelled {next : Bool → Process ω α} {b : Bool} {as : List Action} {q : Process ω α}
      (h : Steps (next b) as q) : Steps (askCancelled next) (.asked b :: as) q
  | world {change : ω → ω} {next : ω → Process ω α} {w : ω} {as : List Action}
      {q : Process ω α} (h : Steps (next w) as q) : Steps (world change next) as q
  | journal {entry : Activity} {next : Process ω α} {as : List Action} {q : Process ω α}
      (h : Steps next as q) : Steps (journal entry next) (.activity entry :: as) q

theorem Steps.append {p q r : Process ω α} {as bs : List Action} (h : Steps p as q)
    (h' : Steps q bs r) : Steps p (as ++ bs) r := by
  induction h with
  | refl p => exact h'
  | queue _ ih => exact .queue (ih h')
  | cancel _ ih => exact .cancel (ih h')
  | askCancelled _ ih => exact .askCancelled (ih h')
  | world _ ih => exact .world (ih h')
  | journal _ ih => exact .journal (ih h')

/-- With the steps `as` the process ends, with the value `a`. -/
def Trace (p : Process ω α) (as : List Action) (a : α) : Prop := p.Steps as (done a)

theorem trace_done {a b : α} {as : List Action} (h : (done a : Process ω α).Trace as b) :
    as = [] ∧ a = b := by
  cases h
  exact ⟨rfl, rfl⟩

/-- A trace of a sequence is made of traces of its two parts. -/
theorem trace_bind {p : Process ω α} {f : α → Process ω β} {as : List Action} {b : β}
    (h : (p >>= f).Trace as b) :
    ∃ as₁ a as₂, p.Trace as₁ a ∧ (f a).Trace as₂ b ∧ as = as₁ ++ as₂ := by
  induction p generalizing as with
  -- the first part is over, and the rest is a trace of the second
  | done a => exact ⟨[], a, as, .refl _, h, rfl⟩
  | queue m next ih =>
    cases h with
    | queue h =>
      obtain ⟨as₁, a, as₂, h₁, h₂, rfl⟩ := ih _ h
      exact ⟨_, a, as₂, .queue h₁, h₂, rfl⟩
  | cancel next ih =>
    cases h with
    | cancel h =>
      obtain ⟨as₁, a, as₂, h₁, h₂, rfl⟩ := ih h
      exact ⟨_, a, as₂, .cancel h₁, h₂, rfl⟩
  | askCancelled next ih =>
    cases h with
    | askCancelled h =>
      obtain ⟨as₁, a, as₂, h₁, h₂, rfl⟩ := ih _ h
      exact ⟨_, a, as₂, .askCancelled h₁, h₂, rfl⟩
  | world change next ih =>
    cases h with
    | world h =>
      obtain ⟨as₁, a, as₂, h₁, h₂, rfl⟩ := ih _ h
      exact ⟨_, a, as₂, .world h₁, h₂, rfl⟩
  | journal entry next ih =>
    cases h with
    | journal h =>
      obtain ⟨as₁, a, as₂, h₁, h₂, rfl⟩ := ih h
      exact ⟨_, a, as₂, .journal h₁, h₂, rfl⟩

/-! ## Laws of all traces -/

/-- Every trace of a process and its value satisfy `P`. -/
def Yields (p : Process ω α) (P : List Action → α → Prop) : Prop :=
  ∀ as a, p.Trace as a → P as a

namespace Yields

variable {p : Process ω α} {P Q : List Action → α → Prop}

theorem mono (h : p.Yields P) (hPQ : ∀ as a, P as a → Q as a) : p.Yields Q :=
  fun as a ht => hPQ as a (h as a ht)

theorem and (h : p.Yields P) (h' : p.Yields Q) : p.Yields fun as a => P as a ∧ Q as a :=
  fun as a ht => ⟨h as a ht, h' as a ht⟩

theorem pure {a : α} (h : P [] a) : (Pure.pure a : Process ω α).Yields P := by
  intro as b ht
  obtain ⟨rfl, rfl⟩ := trace_done ht
  exact h

/-- The rule for sequences. -/
theorem bind {f : α → Process ω β} {R : List Action → β → Prop} (hp : p.Yields P)
    (hf : ∀ as a, P as a → (f a).Yields fun bs b => R (as ++ bs) b) : (p >>= f).Yields R := by
  intro as b ht
  obtain ⟨as₁, a, as₂, h₁, h₂, rfl⟩ := trace_bind ht
  exact hf as₁ a (hp as₁ a h₁) as₂ b h₂

theorem queue {m : Message} {next : Bool → Process ω α}
    (h : ∀ b, (next b).Yields fun as a => P (.queued m b :: as) a) :
    (Process.queue m next).Yields P := by
  intro as a ht
  cases ht with
  | queue ht => exact h _ _ a ht

theorem cancel {next : Process ω α} (h : next.Yields fun as a => P (.cancelled :: as) a) :
    (Process.cancel next).Yields P := by
  intro as a ht
  cases ht with
  | cancel ht => exact h _ a ht

theorem askCancelled {next : Bool → Process ω α}
    (h : ∀ b, (next b).Yields fun as a => P (.asked b :: as) a) :
    (Process.askCancelled next).Yields P := by
  intro as a ht
  cases ht with
  | askCancelled ht => exact h _ _ a ht

theorem world {change : ω → ω} {next : ω → Process ω α} (h : ∀ w, (next w).Yields P) :
    (Process.world change next).Yields P := by
  intro as a ht
  cases ht with
  | world ht => exact h _ _ a ht

theorem journal {entry : Activity} {next : Process ω α}
    (h : next.Yields fun as a => P (.activity entry :: as) a) :
    (Process.journal entry next).Yields P := by
  intro as a ht
  cases ht with
  | journal ht => exact h _ a ht

end Yields

/-! ## Single steps -/

/-- The steps of a report: a node that is told to stop cancels the run at once. -/
def reported (m : Message) (goesOn : Bool) : List Action :=
  .queued m goesOn :: if goesOn then [] else [.cancelled]

theorem yields_report (ids : NodeIds) (event : Event) :
    (report ids event : Process ω Bool).Yields fun as b => as = reported ⟨ids, event⟩ b := by
  refine .queue fun b => ?_
  cases b with
  | false => exact .cancel (.pure rfl)
  | true => exact .pure rfl

theorem yields_enter (entry : Activity) :
    (enter entry : Process ω Unit).Yields fun as _ => as = [.activity entry] :=
  .journal (.pure rfl)

theorem yields_isCancelled :
    (isCancelled : Process ω Bool).Yields fun as b => as = [.asked b] :=
  .askCancelled fun _ => .pure rfl

end Process

end TestEngine
