import Mathlib.Data.List.Forall2
import TestEngine.Proofs.Run.Chronicle

/-!
# Twins

Two processes are *twins* for an observer if it cannot tell them apart: from states that look the
same they come to states that look the same. An observer sees some of the messages, and some of the
world of user code; a process that it sees nothing of is *silent*.

A run of twins is looked at on a bus whose sink never asks to stop, so all that can stop it is a
failed test. Two runs then get the same answers to what the observer sees.

* `Process.Twins` — the rules are those of a relational program logic: one for each way of putting
  processes together.
* `Process.Silent` — what an observer sees nothing of.
* `Code.Mirrors` — two pieces of user code that make the same requests.
-/

namespace TestEngine

variable {ω ν α β γ δ : Type}

/-- A sink that lets every run go on. -/
def Sink.calm : Sink Unit := fun s _ => (s, .goOn)

/-- What someone sees of a run: a part of the world, and what is left of each message. -/
structure Observer (ω ν : Type) where
  /-- Failed tests stop the run. -/
  stopOnFail : Bool
  view : ω → ν
  shows : Message → Option Message

namespace RunState

variable {σ : Type}

/-- A run is cancelled exactly if it is to stop. -/
def Settled (st : RunState σ ω) : Prop := st.cancelled = st.delivery.stopped

section Calm

variable (stopOnFail : Bool) (m : Message) (st : RunState Unit ω)

@[simp] theorem stopped_queue_calm : (st.queue .calm stopOnFail m).1.delivery.stopped =
    (st.delivery.stopped || stopOnFail && m.event.isTestFailure) := by
  unfold queue Delivery.deliver Delivery.call Delivery.noteFailure Sink.calm
  cases h : stopOnFail && m.event.isTestFailure <;>
    simp [RunState.record, Delivery.stop]

@[simp] theorem goesOn_queue_calm : (st.queue .calm stopOnFail m).2 =
    !(st.delivery.stopped || stopOnFail && m.event.isTestFailure) := by
  rw [← stopped_queue_calm]
  rfl

@[simp] theorem queued_queue_calm : (st.queue .calm stopOnFail m).1.queued = st.queued ++ [m] := by
  unfold queue queued record
  rw [List.filterMap_append]
  rfl

@[simp] theorem world_queue_calm : (st.queue .calm stopOnFail m).1.world = st.world := rfl

@[simp] theorem cancelled_queue_calm : (st.queue .calm stopOnFail m).1.cancelled = st.cancelled :=
  rfl

end Calm

end RunState

namespace Observer

variable (L : Observer ω ν)

/-- What is seen of a state. -/
def observe (st : RunState Unit ω) : ν × List Message × Bool :=
  (L.view st.world, st.queued.filterMap L.shows, st.delivery.stopped)

/-- A message does not stop the run. -/
def Harmless (m : Message) : Prop := (L.stopOnFail && m.event.isTestFailure) = false

/-- Two states that look the same. -/
structure Alike (st st' : RunState Unit ω) : Prop where
  settled : st.Settled
  settled' : st'.Settled
  observe_eq : L.observe st = L.observe st'

namespace Alike

variable {L} {st st' : RunState Unit ω}

theorem stopped_eq (h : L.Alike st st') : st.delivery.stopped = st'.delivery.stopped :=
  congrArg (·.2.2) h.observe_eq

theorem cancelled_eq (h : L.Alike st st') : st.cancelled = st'.cancelled :=
  h.settled.trans (h.stopped_eq.trans h.settled'.symm)

theorem view_eq (h : L.Alike st st') : L.view st.world = L.view st'.world :=
  congrArg (·.1) h.observe_eq

theorem queued_eq (h : L.Alike st st') :
    st.queued.filterMap L.shows = st'.queued.filterMap L.shows :=
  congrArg (·.2.1) h.observe_eq

end Alike

/-- What is seen once a message was queued. -/
theorem observe_queue (m : Message) (st : RunState Unit ω) :
    L.observe (st.queue .calm L.stopOnFail m).1 =
      (L.view st.world, st.queued.filterMap L.shows ++ (L.shows m).toList,
        st.delivery.stopped || L.stopOnFail && m.event.isTestFailure) := by
  unfold observe
  rw [RunState.stopped_queue_calm, RunState.queued_queue_calm, List.filterMap_append]
  cases h : L.shows m <;> simp [h]

/-- The journal is not seen. -/
theorem observe_record (a : Activity) (st : RunState Unit ω) :
    L.observe (st.record [.activity a]) = L.observe st := by
  unfold observe RunState.queued RunState.record
  rw [List.filterMap_append]
  exact congrArg (fun ms : List Message => (L.view st.world, ms.filterMap L.shows,
    st.delivery.stopped)) (List.append_nil _)

variable {L}

/-- A message that does not stop the run leaves it settled. -/
theorem Harmless.settled {m : Message} (h : L.Harmless m) {st : RunState Unit ω}
    (hst : st.Settled) : (st.queue .calm L.stopOnFail m).1.Settled := by
  unfold RunState.Settled
  rw [RunState.cancelled_queue_calm, RunState.stopped_queue_calm, h, Bool.or_false]
  exact hst

/-- A message that does not stop the run and is not seen makes no difference. -/
theorem Harmless.observe_queue_eq {m : Message} (h : L.Harmless m) (hm : L.shows m = none)
    (st : RunState Unit ω) :
    L.observe (st.queue .calm L.stopOnFail m).1 = L.observe st := by
  rw [L.observe_queue, hm, h, Bool.or_false]
  exact congrArg (fun ms => (L.view st.world, ms, _)) (List.append_nil _)

variable (L)

/-- A report leaves a settled state behind, whatever it stops. -/
theorem settled_report {st : RunState Unit ω} (hst : st.Settled) (ids : NodeIds) (event : Event) :
    ((Process.report ids event : Process ω Bool).runOn .calm L.stopOnFail st).1.Settled ∧
      L.observe ((Process.report ids event : Process ω Bool).runOn .calm L.stopOnFail st).1 =
        L.observe (st.queue .calm L.stopOnFail ⟨ids, event⟩).1 ∧
      ((Process.report ids event : Process ω Bool).runOn .calm L.stopOnFail st).2 =
        (st.queue .calm L.stopOnFail ⟨ids, event⟩).2 := by
  simp only [Process.report, Process.runOn]
  -- a report that is refused cancels the run, so both flags change or neither
  cases hb : (st.queue .calm L.stopOnFail ⟨ids, event⟩).2 with
  | true =>
    refine ⟨?_, rfl, rfl⟩
    rw [RunState.goesOn_queue_calm, Bool.not_eq_true'] at hb
    show st.cancelled = (st.queue .calm L.stopOnFail ⟨ids, event⟩).1.delivery.stopped
    rw [RunState.stopped_queue_calm, hb, hst, (Bool.or_eq_false_iff.mp hb).1]
  | false =>
    refine ⟨?_, rfl, rfl⟩
    rw [RunState.goesOn_queue_calm, Bool.not_eq_false', ← RunState.stopped_queue_calm] at hb
    exact hb.symm

end Observer

namespace Process

variable (L : Observer ω ν)

/-- From every settled state the process comes to one that looks the same, with a value that
satisfies `P`. -/
def Silent (P : α → Prop) (p : Process ω α) : Prop :=
  ∀ st : RunState Unit ω, st.Settled →
    (p.runOn .calm L.stopOnFail st).1.Settled ∧
      L.observe (p.runOn .calm L.stopOnFail st).1 = L.observe st ∧
      P (p.runOn .calm L.stopOnFail st).2

/-- From states that look the same two processes come to states that look the same, with values that
are related by `V`. -/
def Twins (V : α → β → Prop) (p : Process ω α) (q : Process ω β) : Prop :=
  ∀ st st' : RunState Unit ω, L.Alike st st' →
    L.Alike (p.runOn .calm L.stopOnFail st).1 (q.runOn .calm L.stopOnFail st').1 ∧
      V (p.runOn .calm L.stopOnFail st).2 (q.runOn .calm L.stopOnFail st').2

variable {L}

/-- A sequence runs its first part, and then the second from where the first came to. -/
theorem runOn_seq {σ : Type} (sink : Sink σ) (stopOnFail : Bool) (p : Process ω α)
    (f : α → Process ω β) (st : RunState σ ω) :
    (p >>= f).runOn sink stopOnFail st =
      (f (p.runOn sink stopOnFail st).2).runOn sink stopOnFail (p.runOn sink stopOnFail st).1 :=
  runOn_bind sink stopOnFail p f st

/-! ## Silent processes -/

namespace Silent

variable {P : α → Prop} {Q : β → Prop} {p : Process ω α}

theorem mono {P' : α → Prop} (hP : ∀ a, P a → P' a) (h : p.Silent L P) : p.Silent L P' :=
  fun st hst => ⟨(h st hst).1, (h st hst).2.1, hP _ (h st hst).2.2⟩

theorem pure {a : α} (h : P a) : (Pure.pure a : Process ω α).Silent L P :=
  fun _ hst => ⟨hst, rfl, h⟩

theorem bind {f : α → Process ω β} (h : p.Silent L P) (hf : ∀ a, P a → (f a).Silent L Q) :
    (p >>= f).Silent L Q := by
  intro st hst
  obtain ⟨hsettled, hobserve, ha⟩ := h st hst
  obtain ⟨hsettled', hobserve', hb⟩ := hf _ ha _ hsettled
  rw [runOn_seq]
  exact ⟨hsettled', hobserve'.trans hobserve, hb⟩

/-- A message that is not seen. -/
theorem queue {m : Message} {next : Bool → Process ω α} (hm : L.shows m = none)
    (hharmless : L.Harmless m) (h : ∀ b, (next b).Silent L P) :
    (Process.queue m next).Silent L P := by
  intro st hst
  obtain ⟨h₁, h₂, h₃⟩ := h (st.queue .calm L.stopOnFail m).2 _ (hharmless.settled hst)
  exact ⟨h₁, h₂.trans (hharmless.observe_queue_eq hm st), h₃⟩

/-- A report that is not seen. If the run is to stop, it is cancelled already. -/
theorem report {ids : NodeIds} {event : Event} (hm : L.shows ⟨ids, event⟩ = none)
    (hharmless : L.Harmless ⟨ids, event⟩) :
    (Process.report ids event : Process ω Bool).Silent L fun _ => True := by
  intro st hst
  obtain ⟨h₁, h₂, -⟩ := L.settled_report hst ids event
  exact ⟨h₁, h₂.trans (hharmless.observe_queue_eq hm st), trivial⟩

theorem journal {a : Activity} (h : p.Silent L P) : (Process.journal a p).Silent L P := by
  intro st hst
  obtain ⟨h₁, h₂, h₃⟩ := h (st.record [.activity a]) hst
  exact ⟨h₁, h₂.trans (L.observe_record a st), h₃⟩

/-- A change of the world that is not seen. -/
theorem world {change : ω → ω} {next : ω → Process ω α}
    (hchange : ∀ w, L.view (change w) = L.view w) (h : ∀ w, (next w).Silent L P) :
    (Process.world change next).Silent L P := by
  intro st hst
  obtain ⟨h₁, h₂, h₃⟩ := h st.world { st with world := change st.world } hst
  refine ⟨h₁, h₂.trans ?_, h₃⟩
  exact congrArg (·, st.queued.filterMap L.shows, st.delivery.stopped) (hchange st.world)

theorem enter (a : Activity) : (Process.enter a : Process ω Unit).Silent L fun _ => True :=
  journal (pure trivial)

theorem isCancelled : (Process.isCancelled : Process ω Bool).Silent L fun _ => True :=
  fun _ hst => ⟨hst, rfl, trivial⟩

end Silent

/-! ## Twins -/

namespace Twins

variable {V : α → β → Prop} {W : γ → δ → Prop} {p : Process ω α} {q : Process ω β}

theorem mono {V' : α → β → Prop} (hV : ∀ a b, V a b → V' a b) (h : Twins L V p q) :
    Twins L V' p q := fun st st' hst => ⟨(h st st' hst).1, hV _ _ (h st st' hst).2⟩

theorem pure {a : α} {b : β} (h : V a b) :
    Twins L V (Pure.pure a : Process ω α) (Pure.pure b) := fun _ _ hst => ⟨hst, h⟩

/-- The rule for sequences. -/
theorem bind {f : α → Process ω γ} {g : β → Process ω δ} (h : Twins L V p q)
    (hfg : ∀ a b, V a b → Twins L W (f a) (g b)) : Twins L W (p >>= f) (q >>= g) := by
  intro st st' hst
  obtain ⟨halike, hV⟩ := h st st' hst
  rw [runOn_seq, runOn_seq]
  exact hfg _ _ hV _ _ halike

/-- Of two silent processes nothing is seen, so they may differ in any way. -/
theorem of_silent {P : α → Prop} {Q : β → Prop} (hp : p.Silent L P) (hq : q.Silent L Q)
    (hV : ∀ a b, P a → Q b → V a b) : Twins L V p q := by
  intro st st' hst
  obtain ⟨hsettled, hobserve, ha⟩ := hp st hst.settled
  obtain ⟨hsettled', hobserve', hb⟩ := hq st' hst.settled'
  exact ⟨⟨hsettled, hsettled', hobserve.trans (hst.observe_eq.trans hobserve'.symm)⟩,
    hV _ _ ha hb⟩

/-- Messages that look the same. -/
theorem queue {m m' : Message} {next : Bool → Process ω α} {next' : Bool → Process ω β}
    (hm : L.shows m = L.shows m') (hharmless : L.Harmless m) (hharmless' : L.Harmless m')
    (h : ∀ b, Twins L V (next b) (next' b)) :
    Twins L V (Process.queue m next) (Process.queue m' next') := by
  intro st st' hst
  have hgoes : (st.queue .calm L.stopOnFail m).2 = (st'.queue .calm L.stopOnFail m').2 := by
    rw [RunState.goesOn_queue_calm, RunState.goesOn_queue_calm, hharmless, hharmless',
      hst.stopped_eq]
  have halike : L.Alike (st.queue .calm L.stopOnFail m).1 (st'.queue .calm L.stopOnFail m').1 := by
    refine ⟨hharmless.settled hst.settled, hharmless'.settled hst.settled', ?_⟩
    rw [L.observe_queue, L.observe_queue, hm, hharmless, hharmless', hst.view_eq, hst.queued_eq,
      hst.stopped_eq]
  have hnext := h (st.queue .calm L.stopOnFail m).2 _ _ halike
  simp only [runOn]
  rw [← hgoes]
  exact hnext

/-- Reports that look the same, and stop the run alike. -/
theorem report {ids ids' : NodeIds} {event event' : Event}
    (hm : L.shows ⟨ids, event⟩ = L.shows ⟨ids', event'⟩)
    (hstop : (L.stopOnFail && event.isTestFailure) = (L.stopOnFail && event'.isTestFailure)) :
    Twins L Eq (Process.report ids event : Process ω Bool) (Process.report ids' event') := by
  intro st st' hst
  have hgoes : (st.queue .calm L.stopOnFail ⟨ids, event⟩).2 =
      (st'.queue .calm L.stopOnFail ⟨ids', event'⟩).2 := by
    rw [RunState.goesOn_queue_calm, RunState.goesOn_queue_calm, hstop, hst.stopped_eq]
  have hobserve : L.observe (st.queue .calm L.stopOnFail ⟨ids, event⟩).1 =
      L.observe (st'.queue .calm L.stopOnFail ⟨ids', event'⟩).1 := by
    rw [L.observe_queue, L.observe_queue, hm, hstop, hst.view_eq, hst.queued_eq, hst.stopped_eq]
  obtain ⟨h₁, h₂, h₃⟩ := L.settled_report hst.settled ids event
  obtain ⟨h₁', h₂', h₃'⟩ := L.settled_report hst.settled' ids' event'
  exact ⟨⟨h₁, h₁', h₂.trans (hobserve.trans h₂'.symm)⟩, h₃.trans (hgoes.trans h₃'.symm)⟩

theorem journal {a a' : Activity} (h : Twins L V p q) :
    Twins L V (Process.journal a p) (Process.journal a' q) := by
  intro st st' hst
  refine h _ _ ⟨hst.settled, hst.settled', ?_⟩
  rw [L.observe_record, L.observe_record]
  exact hst.observe_eq

/-- Changes of the world that look the same. -/
theorem world {change change' : ω → ω} {next : ω → Process ω α} {next' : ω → Process ω β}
    (hchange : ∀ w w', L.view w = L.view w' → L.view (change w) = L.view (change' w'))
    (h : ∀ w w', L.view w = L.view w' → Twins L V (next w) (next' w')) :
    Twins L V (Process.world change next) (Process.world change' next') := by
  intro st st' hst
  refine h _ _ hst.view_eq _ _ ⟨hst.settled, hst.settled', ?_⟩
  unfold Observer.observe
  rw [hchange _ _ hst.view_eq, hst.stopped_eq]
  exact congrArg (L.view _, ·, _) hst.queued_eq

theorem enter (a a' : Activity) :
    Twins L (fun _ _ => True) (Process.enter a : Process ω Unit) (Process.enter a') :=
  journal (pure trivial)

theorem isCancelled : Twins L Eq (Process.isCancelled : Process ω Bool) Process.isCancelled :=
  fun _ _ hst => ⟨hst, hst.cancelled_eq⟩

/-- A loop over two lists, item by item. -/
theorem foldlM {ι κ : Type} {R : ι → κ → Prop} {f : α → ι → Process ω α} {g : β → κ → Process ω β}
    {xs : List ι} {ys : List κ} (hR : List.Forall₂ R xs ys)
    (h : ∀ x y, R x y → ∀ a b, V a b → Twins L V (f a x) (g b y)) {a : α} {b : β} (hab : V a b) :
    Twins L V (xs.foldlM f a) (ys.foldlM g b) := by
  induction hR generalizing a b with
  | nil => exact pure hab
  | cons hxy _ ih =>
    rw [List.foldlM_cons, List.foldlM_cons]
    exact (h _ _ hxy _ _ hab).bind fun _ _ hab' => ih hab'

end Twins

end Process

/-! ## User code -/

namespace Outcome

/-- Two pieces of code ended alike: with values that are related, or with the same failure. -/
inductive Alike (V : α → β → Prop) : Outcome α → Outcome β → Prop
  | returned {a : α} {b : β} (h : V a b) : Alike V (.returned a) (.returned b)
  | failed (e : Failure) : Alike V (.failed e) (.failed e)
  | panicked (p : Payload) : Alike V (.panicked p) (.panicked p)

end Outcome

namespace Code

variable {ρ σ τ : Type}

/-- Two pieces of code make the same requests as long as they get the same answers, and what they
see of the world is the same; they end as `R` says. -/
inductive Mirrors (view : ω → ν) (R : Outcome α → Outcome β → Prop) :
    Code ω ρ α → Code ω ρ β → Prop
  | finish {o : Outcome α} {o' : Outcome β} (h : R o o') : Mirrors view R (finish o) (finish o')
  | note (text : String) {next : Code ω ρ α} {next' : Code ω ρ β} (h : Mirrors view R next next') :
      Mirrors view R (note text next) (note text next')
  | world {change change' : ω → ω} {next : ω → Code ω ρ α} {next' : ω → Code ω ρ β}
      (hchange : ∀ w w', view w = view w' → view (change w) = view (change' w'))
      (h : ∀ w w', view w = view w' → Mirrors view R (next w) (next' w')) :
      Mirrors view R (world change next) (world change' next')
  | diagnose (ids : NodeIds) (text : String) {next : Bool → Code ω ρ α}
      {next' : Bool → Code ω ρ β} (h : ∀ b, Mirrors view R (next b) (next' b)) :
      Mirrors view R (diagnose ids text next) (diagnose ids text next')
  | request (r : ρ) {next : Bool → Code ω ρ α} {next' : Bool → Code ω ρ β}
      (h : ∀ b, Mirrors view R (next b) (next' b)) :
      Mirrors view R (request r next) (request r next')

/-- An observer sees neither what the code does to the world nor its diagnostic messages. -/
inductive Secret (L : Observer ω ν) : Code ω ρ α → Prop
  | finish (o : Outcome α) : Secret L (finish o)
  | note (text : String) {next : Code ω ρ α} (h : Secret L next) : Secret L (note text next)
  | world {change : ω → ω} {next : ω → Code ω ρ α}
      (hchange : ∀ w, L.view (change w) = L.view w) (h : ∀ w, Secret L (next w)) :
      Secret L (world change next)
  | diagnose {ids : NodeIds} {text : String} {next : Bool → Code ω ρ α}
      (hm : L.shows ⟨ids, .diagnostic text⟩ = none) (h : ∀ b, Secret L (next b)) :
      Secret L (diagnose ids text next)
  | request (r : ρ) {next : Bool → Code ω ρ α} (h : ∀ b, Secret L (next b)) :
      Secret L (request r next)

/-- Code mirrors itself for one who sees all of the world. -/
theorem Mirrors.refl {R : Outcome α → Outcome α → Prop} (hR : ∀ o, R o o) (code : Code ω ρ α) :
    Mirrors id R code code := by
  induction code with
  | finish o => exact .finish (hR o)
  | note text next ih => exact .note text ih
  | world change next ih =>
    refine .world (fun w w' hw => congrArg change hw) fun w w' hw => ?_
    obtain rfl : w = w' := hw
    exact ih w
  | diagnose ids text next ih => exact .diagnose ids text ih
  | request r next ih => exact .request r ih

variable {L : Observer ω ν} {R : Outcome α → Outcome β → Prop}

theorem harmless_diagnostic (L : Observer ω ν) (ids : NodeIds) (text : String) :
    L.Harmless ⟨ids, .diagnostic text⟩ := Bool.and_false _

/-- Code that is mirrored is served alike. -/
theorem Mirrors.twins_perform {handle : ρ → σ → Process ω (Bool × σ)}
    {handle' : ρ → τ → Process ω (Bool × τ)} {S : σ → τ → Prop}
    (hhandle : ∀ r s s', S s s' →
      Process.Twins L (fun x y => x.1 = y.1 ∧ S x.2 y.2) (handle r s) (handle' r s'))
    {code : Code ω ρ α} {code' : Code ω ρ β} (h : Mirrors L.view R code code') :
    ∀ s s', S s s' → Process.Twins L (fun x y => R x.1 y.1 ∧ S x.2 y.2)
      (code.perform handle s) (code'.perform handle' s') := by
  induction h with
  | finish h => exact fun s s' hs => .pure ⟨h, hs⟩
  | note text _ ih => exact fun s s' hs => .journal (ih s s' hs)
  | world hchange _ ih => exact fun s s' hs => .world hchange fun w w' hw => ih w w' hw s s' hs
  | diagnose ids text _ ih =>
    exact fun s s' hs => .queue rfl (harmless_diagnostic L ids text)
      (harmless_diagnostic L ids text) fun b => ih b s s' hs
  | request r _ ih =>
    refine fun s s' hs => (hhandle r s s' hs).bind ?_
    rintro ⟨b, s₁⟩ ⟨b', s₁'⟩ ⟨rfl, hs₁⟩
    exact ih b s₁ s₁' hs₁

theorem Mirrors.twins_run {code : SetupCode ω α} {code' : SetupCode ω β}
    (h : Mirrors L.view R code code') : Process.Twins L R code.run code'.run := by
  refine (h.twins_perform (S := fun _ _ => True) (fun r => r.elim) () () trivial).bind ?_
  rintro ⟨o, _⟩ ⟨o', _⟩ ⟨ho, -⟩
  exact .pure ho

/-- Code of a test is served alike, whatever the test wrote before. -/
theorem Mirrors.twins_runInTest {code : TestCode ω α} {code' : TestCode ω β}
    (h : Mirrors L.view R code code') (ids : NodeIds) {P : Prop} {s s' : String}
    (hs : P ∨ s = s') :
    Process.Twins L (fun x y => R x.1 y.1 ∧ (P ∨ x.2 = y.2)) (code.runInTest ids s)
      (code'.runInTest ids s') := by
  refine h.twins_perform (S := fun s s' => P ∨ s = s') ?_ s s' hs
  rintro (line | -) s s' hs
  · refine (Process.Twins.report rfl rfl).bind fun _ _ _ => .pure ⟨rfl, ?_⟩
    exact hs.imp_right fun heq => by rw [heq]
  · exact Process.Twins.isCancelled.bind fun b b' hb => .pure ⟨hb, hs⟩

theorem Secret.silent_perform {handle : ρ → σ → Process ω (Bool × σ)}
    (hhandle : ∀ r s, (handle r s).Silent L fun _ => True) {code : Code ω ρ α}
    (h : code.Secret L) : ∀ s, (code.perform handle s).Silent L fun _ => True := by
  induction h with
  | finish o => exact fun s => .pure trivial
  | note text _ ih => exact fun s => .journal (ih s)
  | world hchange _ ih => exact fun s => .world hchange fun w => ih w s
  | diagnose hm _ ih =>
    exact fun s => .queue hm (harmless_diagnostic L _ _) fun b => ih b s
  | request r _ ih => exact fun s => (hhandle r s).bind fun x _ => ih x.1 x.2

/-- Nothing is seen of secret code in a test whose output is not seen. -/
theorem Secret.silent_runInTest {code : TestCode ω α} (h : code.Secret L) {ids : NodeIds}
    (hids : ∀ text, L.shows ⟨ids, .output text⟩ = none) (s : String) :
    (code.runInTest ids s).Silent L fun _ => True := by
  refine h.silent_perform ?_ s
  rintro (line | -) s
  · exact (Process.Silent.report (hids _) (Bool.and_false _)).bind fun _ _ => .pure trivial
  · exact Process.Silent.isCancelled.bind fun _ _ => .pure trivial

end Code

end TestEngine
