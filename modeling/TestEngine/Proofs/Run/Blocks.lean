import TestEngine.Proofs.Run.Ledger

/-!
# Blocks of steps

Most of what a process does is one block of steps after another, each of a few kinds: user code
outside of a test only sends diagnostic messages and leaves notes, a node that is set up or torn
down adds entries to the journal, a test reports its steps. What holds of every block holds of the
whole.

* `MadeOf` — steps that are blocks in a row.
* `Obeys` — the steps respect the cancellation of the run: a node is told to stop by the answer to a
  message, cancels the run at once, and no node starts in a run that is cancelled.
-/

namespace TestEngine

open Process (reported)

variable {ω α β : Type}

/-! ## Blocks in a row -/

/-- Steps that are made of blocks of one kind, one after the other. -/
inductive MadeOf (B : List Action → Prop) : List Action → Prop
  | nil : MadeOf B []
  | cons {as bs : List Action} (h : B as) (hs : MadeOf B bs) : MadeOf B (as ++ bs)

namespace MadeOf

variable {B C : List Action → Prop} {as bs : List Action}

theorem append (h : MadeOf B as) (h' : MadeOf B bs) : MadeOf B (as ++ bs) := by
  induction h with
  | nil => exact h'
  | cons hb _ ih =>
    rw [List.append_assoc]
    exact .cons hb ih

theorem block (h : B as) : MadeOf B as := by
  rw [← List.append_nil as]
  exact .cons h .nil

theorem mono (hBC : ∀ as, B as → C as) (h : MadeOf B as) : MadeOf C as := by
  induction h with
  | nil => exact .nil
  | cons hb _ ih => exact .cons (hBC _ hb) ih

/-- A quantity that is nothing for a block is nothing for blocks in a row. -/
theorem eq_nil {γ : Type} {f : List Action → List γ} (hnil : f [] = [])
    (happend : ∀ as bs, f (as ++ bs) = f as ++ f bs) (hB : ∀ as, B as → f as = [])
    (h : MadeOf B as) : f as = [] := by
  induction h with
  | nil => exact hnil
  | cons hb _ ih => rw [happend, hB _ hb, ih, List.append_nil]

/-- What holds of the elements of a block holds of those of blocks in a row. -/
theorem forall_mem {γ : Type} {f : List Action → List γ} {P : γ → Prop} (hnil : f [] = [])
    (happend : ∀ as bs, f (as ++ bs) = f as ++ f bs) (hB : ∀ as, B as → ∀ x ∈ f as, P x)
    (h : MadeOf B as) : ∀ x ∈ f as, P x := by
  induction h with
  | nil =>
    rw [hnil]
    exact nofun
  | cons hb _ ih =>
    intro x hx
    rw [happend] at hx
    rcases List.mem_append.mp hx with hx | hx
    · exact hB _ hb x hx
    · exact ih x hx

end MadeOf

namespace Process

/-- Whatever a process is answered, it makes blocks of one kind. -/
def Makes (p : Process ω α) (B : List Action → Prop) : Prop := p.Yields fun as _ => MadeOf B as

namespace Makes

variable {p : Process ω α} {f : α → Process ω β} {B : List Action → Prop}

theorem pure {a : α} : (Pure.pure a : Process ω α).Makes B := Yields.pure .nil

theorem bind (hp : p.Makes B) (hf : ∀ a, (f a).Makes B) : (p >>= f).Makes B :=
  Yields.bind hp fun _ a has => Yields.mono (hf a) fun _ _ hbs => has.append hbs

theorem block (h : p.Yields fun as _ => B as) : p.Makes B :=
  Yields.mono h fun _ _ => MadeOf.block

theorem enter {entry : Activity} (h : B [.activity entry]) :
    (Process.enter entry : Process ω Unit).Makes B :=
  block ((yields_enter entry).mono fun _ _ h' => h' ▸ h)

theorem report {ids : NodeIds} {event : Event} (h : ∀ b, B (reported ⟨ids, event⟩ b)) :
    (Process.report ids event : Process ω Bool).Makes B :=
  block ((yields_report ids event).mono fun _ b h' => h' ▸ h b)

end Makes

end Process

/-! ## The kinds of blocks -/

/-- What user code outside of a test may do. -/
inductive UserBlock : List Action → Prop
  | diagnostic (ids : NodeIds) (text : String) (b : Bool) :
      UserBlock [.queued ⟨ids, .diagnostic text⟩ b]
  | note (text : String) : UserBlock [.activity (.note text)]

/-- What may happen while a node is set up or torn down. -/
inductive SetupBlock (ids : NodeIds) : List Action → Prop
  | user {as : List Action} (h : UserBlock as) : SetupBlock ids as
  | entry {a : Activity} (h : a.owner? = some ids) : SetupBlock ids [.activity a]

/-- What may happen inside of a test beside its result. -/
inductive TestBlock (ids : NodeIds) : List Action → Prop
  | setup {as : List Action} (h : SetupBlock ids as) : TestBlock ids as
  | asked (b : Bool) : TestBlock ids [.asked b]
  | step {event : Event} (h : event.isStep = true) (b : Bool) :
      TestBlock ids (reported ⟨ids, event⟩ b)

/-- Nothing is acquired, and nothing is torn down. -/
def Idle (as : List Action) : Prop := gained (visible as) = [] ∧ released (visible as) = []

/-- What hooks and bodies of tests may do. -/
def StepBlock (ids : NodeIds) (as : List Action) : Prop := TestBlock ids as ∧ Idle as

theorem visible_reported (m : Message) (b : Bool) : visible (reported m b) = [.queued m b] := by
  cases b <;> rfl

theorem idle_reported (m : Message) (b : Bool) : Idle (reported m b) := by
  unfold Idle
  rw [visible_reported]
  exact ⟨rfl, rfl⟩

theorem MadeOf.idle {B : List Action → Prop} (hB : ∀ as, B as → Idle as) {as : List Action}
    (h : MadeOf B as) : Idle as := by
  refine ⟨h.eq_nil (f := fun as => gained (visible as)) rfl ?_ fun as has => (hB as has).1,
    h.eq_nil (f := fun as => released (visible as)) rfl ?_ fun as has => (hB as has).2⟩
  · intro as bs
    rw [visible_append, gained_append]
  · intro as bs
    rw [visible_append, released_append]

theorem UserBlock.idle {as : List Action} (h : UserBlock as) : Idle as := by
  cases h <;> exact ⟨rfl, rfl⟩

theorem UserBlock.stepBlock {as : List Action} (h : UserBlock as) (ids : NodeIds) :
    StepBlock ids as := ⟨.setup (.user h), h.idle⟩

/-! ## What shows of blocks -/

/-- An entry of a node that is no message of a life cycle; entries of the journal are its own. -/
def Occurrence.IsPart (ids : NodeIds) (o : Occurrence) : Prop :=
  o.IsPlain ∧ ∀ a, o = .activity a → a.owner? = none ∨ a.owner? = some ids

theorem isPart_queued {m : Message} (h : m.event.lifecycle? = none) (b : Bool) (ids : NodeIds) :
    (Occurrence.queued m b).IsPart ids := by
  refine ⟨h, ?_⟩
  intro a ha
  cases ha

theorem isPart_activity {a : Activity} {ids : NodeIds}
    (h : a.owner? = none ∨ a.owner? = some ids) : (Occurrence.activity a).IsPart ids := by
  refine ⟨trivial, ?_⟩
  intro a' ha
  cases ha
  exact h

namespace TestBlock

variable {ids : NodeIds} {as : List Action}

theorem isPart (h : TestBlock ids as) : ∀ o ∈ visible as, o.IsPart ids := by
  intro o ho
  cases h with
  | setup h =>
    cases h with
    | user h =>
      cases h <;> rcases List.mem_singleton.mp ho with rfl
      · exact isPart_queued rfl _ ids
      · exact isPart_activity (.inl rfl)
    | entry h =>
      rcases List.mem_singleton.mp ho with rfl
      exact isPart_activity (.inr h)
  | asked b => cases ho
  | step h b =>
    rw [visible_reported] at ho
    rcases List.mem_singleton.mp ho with rfl
    refine isPart_queued ?_ b ids
    unfold Event.isStep at h
    split at h <;> first | rfl | cases h

theorem results_eq_nil (h : TestBlock ids as) : results (messages (visible as)) = [] := by
  cases h with
  | setup h =>
    cases h with
    | user h => cases h <;> rfl
    | entry h => rfl
  | asked b => rfl
  | step h b =>
    rw [visible_reported]
    unfold Event.isStep at h
    split at h <;> first | rfl | cases h

end TestBlock

namespace MadeOf

variable {ids : NodeIds} {as : List Action}

theorem ofTest (h : MadeOf (SetupBlock ids) as) : MadeOf (TestBlock ids) as :=
  h.mono fun _ => .setup

theorem isPart (h : MadeOf (TestBlock ids) as) : ∀ o ∈ visible as, o.IsPart ids :=
  h.forall_mem rfl visible_append fun _ => TestBlock.isPart

theorem results_eq_nil (h : MadeOf (TestBlock ids) as) :
    results (messages (visible as)) = [] := by
  refine h.eq_nil (f := fun as => results (messages (visible as))) rfl ?_
    fun _ => TestBlock.results_eq_nil
  intro as bs
  rw [visible_append, messages_append, results_append]

/-- Setting a node up or tearing it down does not cancel a run. -/
theorem cancelledAfter_eq (h : MadeOf (SetupBlock ids) as) (c : Bool) :
    cancelledAfter c as = c := by
  induction h with
  | nil => rfl
  | cons hb _ ih =>
    rw [cancelledAfter_append]
    cases hb with
    | user h => cases h <;> exact ih
    | entry h => exact ih

end MadeOf

/-! ## Obedience -/

/-- Steps that respect the cancellation of the run, which is cancelled at their beginning or not, as
long as questions about it are answered truthfully: what a node reports may cancel the run, and no
node starts in a run that is cancelled. -/
inductive Obeys : Bool → List Action → Prop
  | nil (c : Bool) : Obeys c []
  | report {c b : Bool} {m : Message} {as : List Action}
      (hm : m.event.isStarting = true → c = false) (h : Obeys (c || !b) as) :
      Obeys c (reported m b ++ as)
  | diagnostic {c b : Bool} {ids : NodeIds} {text : String} {as : List Action} (h : Obeys c as) :
      Obeys c (.queued ⟨ids, .diagnostic text⟩ b :: as)
  | asked {c b : Bool} {as : List Action} (h : b = c → Obeys c as) : Obeys c (.asked b :: as)
  | activity {c : Bool} {a : Activity} {as : List Action} (h : Obeys c as) :
      Obeys c (.activity a :: as)

theorem cancelledAfter_reported (m : Message) (b c : Bool) :
    cancelledAfter c (reported m b) = (c || !b) := by
  cases b <;> simp [reported, cancelledAfter]

namespace Obeys

variable {c : Bool} {as bs : List Action}

theorem append (h : Obeys c as) (h' : Obeys (cancelledAfter c as) bs) : Obeys c (as ++ bs) := by
  induction h with
  | nil c => exact h'
  | report hm _ ih =>
    rw [cancelledAfter_append, cancelledAfter_reported] at h'
    rw [List.append_assoc]
    exact .report hm (ih h')
  | diagnostic _ ih => exact .diagnostic (ih h')
  | asked _ ih => exact .asked fun hb => ih hb h'
  | activity _ ih => exact .activity (ih h')

theorem of_testBlock {ids : NodeIds} (h : TestBlock ids as) (c : Bool) : Obeys c as := by
  cases h with
  | setup h =>
    cases h with
    | user h =>
      cases h with
      | diagnostic ids text b => exact .diagnostic (.nil c)
      | note text => exact .activity (.nil c)
    | entry h => exact .activity (.nil c)
  | asked b => exact .asked fun _ => .nil c
  | @step event h b =>
    rw [← List.append_nil (reported _ b)]
    refine .report (fun hs => ?_) (.nil _)
    obtain ⟨node, rfl⟩ : ∃ node, event = .starting node := by
      cases event <;> first | exact ⟨_, rfl⟩ | cases hs
    cases h

/-- Nothing that happens inside of a test starts a node. -/
theorem of_madeOf {ids : NodeIds} (h : MadeOf (TestBlock ids) as) : ∀ c, Obeys c as := by
  induction h with
  | nil => exact .nil
  | cons hb _ ih => exact fun c => (of_testBlock hb c).append (ih _)

end Obeys

/-! ## User code -/

namespace Code

variable {ρ σ : Type}

/-- User code makes blocks of a kind if that is so of the requests of its own. -/
theorem makes_perform {B : List Action → Prop} (hB : ∀ as, UserBlock as → B as)
    {handle : ρ → σ → Process ω (Bool × σ)} (hhandle : ∀ r s, (handle r s).Makes B)
    (code : Code ω ρ α) : ∀ s, (code.perform handle s).Makes B := by
  induction code with
  | finish outcome => exact fun s => .pure
  | note text next ih =>
    refine fun s => .journal (Process.Yields.mono (ih s) fun as _ h => ?_)
    exact .cons (hB _ (.note text)) h
  | world change next ih => exact fun s => .world fun w => ih w s
  | diagnose ids text next ih =>
    refine fun s => .queue fun b => Process.Yields.mono (ih b s) fun as _ h => ?_
    exact .cons (hB _ (.diagnostic ids text b)) h
  | request r next ih => exact fun s => (hhandle r s).bind fun a => ih a.1 a.2

/-- What code outside of a test does, no matter on whose behalf. -/
theorem makes_run (code : SetupCode ω α) : code.run.Makes UserBlock :=
  (makes_perform (fun _ => id) (fun r => r.elim) code ()).bind fun _ => .pure

/-- What code inside of a test does. -/
theorem makes_runInTest (ids : NodeIds) (code : TestCode ω α) (output : String) :
    (code.runInTest ids output).Makes (StepBlock ids) := by
  refine makes_perform (fun _ h => h.stepBlock ids) ?_ code output
  intro r output
  cases r with
  | writeLine line =>
    refine .bind (.report fun b => ?_) fun _ => .pure
    exact ⟨.step rfl b, idle_reported _ b⟩
  | isCancelled =>
    refine .bind (.block (Process.yields_isCancelled.mono ?_)) fun _ => .pure
    rintro _ b rfl
    exact ⟨.asked b, rfl, rfl⟩

end Code

end TestEngine
