import TestEngine.Proofs.Process.Paths
import TestEngine.Proofs.Run.Crew
import TestEngine.Proofs.Run.Groups
import TestEngine.Proofs.Run.WindingDown

/-!
# Why a run is cancelled

A run is cancelled only by a node that was told to stop, and nobody is told to stop before the bus
is stopped. So whoever asks and learns that the run is cancelled belongs to a run that is to stop,
in turn or side by side, and on either kind of bus.

* `Heard` — the run is cancelled only by somebody who was told to stop.
* `SoloRun.log`, `ParallelRun.log` — the steps of a run, each with what was learnt.
* `SoloRun.path_log` — the log of a run that is over is a path of its process.
* `OnlyIfStopped` — these steps are part of a run only if it is to stop.
-/

namespace TestEngine

open Process

variable {σ ω α : Type} {c : Transport σ}

/-! ## Being told to stop -/

/-- Whoever cancels the run was told to stop, before these steps or by one of them. -/
def Heard : Bool → List Action → Prop
  | _, [] => True
  | told, .queued _ goesOn :: as => Heard (told || !goesOn) as
  | told, .cancelled :: as => told = true ∧ Heard told as
  | told, .asked _ :: as => Heard told as
  | told, .activity _ :: as => Heard told as

namespace Heard

variable {told told' : Bool} {as bs : List Action}

theorem mono (h : Heard told as) (htold : told = true → told' = true) : Heard told' as := by
  induction as generalizing told told' with
  | nil => trivial
  | cons a as ih =>
    cases a with
    | queued m goesOn =>
      have hrest : Heard (told || !goesOn) as := h
      refine ih hrest fun hor => ?_
      rw [Bool.or_eq_true] at hor ⊢
      exact hor.imp_left htold
    | cancelled => exact ⟨htold h.1, ih h.2 htold⟩
    | asked _ | activity _ =>
      have hrest : Heard told as := h
      exact ih hrest htold

theorem append (h : Heard told as) (h' : Heard false bs) : Heard told (as ++ bs) := by
  induction as generalizing told with
  | nil => exact h'.mono nofun
  | cons a as ih =>
    cases a with
    | queued m goesOn =>
      have hrest : Heard (told || !goesOn) as := h
      exact ih hrest
    | cancelled => exact ⟨h.1, ih h.2⟩
    | asked _ | activity _ =>
      have hrest : Heard told as := h
      exact ih hrest

theorem of_madeOf (h : MadeOf (Heard false) as) : Heard false as := by
  induction h with
  | nil => trivial
  | cons hb _ ih => exact hb.append ih

/-- A node that is told to stop cancels the run. -/
theorem reported (m : Message) (b : Bool) : Heard false (Process.reported m b) := by
  cases b with
  | true => trivial
  | false => exact ⟨rfl, trivial⟩

theorem of_setupBlock {ids : NodeIds} (h : SetupBlock ids as) : Heard false as := by
  cases h with
  | user h => cases h <;> trivial
  | entry _ => trivial

theorem of_ownBlock {ids : NodeIds} (h : OwnBlock ids as) : Heard false as := by
  cases h with
  | inside h =>
    cases h with
    | setup h => exact of_setupBlock h
    | asked b => trivial
    | step _ b => exact reported _ b
  | reported event b => exact reported _ b

end Heard

theorem welcomes_heard : Welcomes ω (fun _ => True) (Heard false) where
  owns_child := fun _ _ _ _ => trivial
  setup := .of_setupBlock
  asked := fun _ => trivial
  reports := fun _ _ b => .reported _ b
  test := fun _ scope inherited t =>
    Yields.mono (t.makes_run _ scope inherited) fun _ _ has => has.mono fun _ => .of_ownBlock

/-- A process that cancels the run only after it was told to stop. -/
theorem Process.Makes.yields_heard {p : Process ω α} (h : p.Makes (Heard false)) :
    p.Yields fun as _ => Heard false as := Yields.mono h fun _ _ => .of_madeOf

/-! ## What threads have heard -/

/-- A run that is cancelled is to stop. -/
def Shared.Latched (sh : Shared σ ω) : Prop :=
  sh.cancelled = true → sh.bus.delivery.stopped = true

theorem Shared.Latched.dispatch {sh : Shared σ ω} (h : sh.Latched) : (sh.dispatch c).Latched := by
  intro hcancelled
  rw [cancelled_dispatch] at hcancelled
  exact stopped_dispatch (h hcancelled)

namespace Thread

variable {t t' : Thread ω α} {sh sh' : Shared σ ω}

/-- Whatever is left for the thread to do, it cancels the run only if it is to stop. -/
def HasHeard (t : Thread ω α) (sh : Shared σ ω) : Prop :=
  t.rest.Yields fun as _ => Heard sh.bus.delivery.stopped as

theorem hasHeard_ready {p : Process ω α} (h : p.Makes (Heard false)) (sh : Shared σ ω) :
    (ready p).HasHeard sh := h.yields_heard.mono fun _ _ has => has.mono nofun

theorem HasHeard.mono (h : t.HasHeard sh)
    (hstopped : sh.bus.delivery.stopped = true → sh'.bus.delivery.stopped = true) :
    t.HasHeard sh' := Yields.mono h fun _ _ has => has.mono hstopped

/-- A thread that is told to stop learns that the bus is stopped. -/
theorem HasHeard.answered {m : Message} {next : Bool → Process ω α} (h : t.HasHeard sh)
    (hrest : t.rest = .queue m next)
    (hstopped : sh.bus.delivery.stopped = true → sh'.bus.delivery.stopped = true) :
    (next sh'.bus.goesOn).Yields fun as _ => Heard sh'.bus.delivery.stopped as := by
  unfold HasHeard at h
  rw [hrest] at h
  intro as a htrace
  have has : Heard (sh.bus.delivery.stopped || !sh'.bus.goesOn) as :=
    h.of_queue sh'.bus.goesOn as a htrace
  refine has.mono fun hor => ?_
  rw [Bool.or_eq_true] at hor
  refine hor.elim hstopped fun hgoesOn => ?_
  unfold AsynchronousBus.goesOn at hgoesOn
  rw [Bool.not_not] at hgoesOn
  exact hgoesOn

theorem stopped_step (hs : t.step? c sh = some (t', sh')) (h : sh.bus.delivery.stopped = true) :
    sh'.bus.delivery.stopped = true := by
  obtain ⟨os, hos⟩ := exists_goes h hs
  exact hos.stopped

/-- **Every step of a thread keeps this.** -/
theorem HasHeard.step (h : t.HasHeard sh) (hlatched : sh.Latched)
    (hs : t.step? c sh = some (t', sh')) : t'.HasHeard sh' ∧ sh'.Latched := by
  have hstopped := stopped_step hs
  cases proceeds_of_step? hs with
  | deliver _ =>
    have hpush : ∀ m, ({ sh with bus := sh.bus.push m } : Shared σ ω).Latched := fun _ => hlatched
    exact ⟨h.answered rfl hstopped, (hpush _).dispatch⟩
  | note _ => exact ⟨h.mono hstopped, fun hcancelled => hstopped (hlatched hcancelled)⟩
  | @cancel next =>
    obtain ⟨as, a, htrace⟩ := next.exists_trace sh.world
    exact ⟨(Yields.of_cancel h).mono fun _ _ has => has.2, fun _ => (h.of_cancel as a htrace).1⟩
  | ask => exact ⟨Yields.of_askCancelled h _, hlatched⟩
  | world => exact ⟨Yields.of_world h _, hlatched⟩
  | journal => exact ⟨Yields.of_journal h, hlatched⟩
  | send => exact ⟨h, hlatched⟩
  | answer _ => exact ⟨h.answered rfl id, hlatched⟩

/-- The steps of its process that a thread takes with its next step. A message is queued when it is
answered. -/
def taken (c : Transport σ) : Thread ω α → Shared σ ω → List (PathStep ω)
  | .ready (.done _), _ => []
  | .ready (.queue m _), sh =>
    match c.kind with
    | .synchronous => [.act (.queued m ({ sh with bus := sh.bus.push m }.dispatch c).bus.goesOn)]
    | .asynchronous => []
  | .ready (.cancel _), _ => [.act .cancelled]
  | .ready (.askCancelled _), sh => [.act (.asked sh.cancelled)]
  | .ready (.world change _), sh => [.world sh.world (change sh.world)]
  | .ready (.journal entry _), _ => [.act (.activity entry)]
  | .noted _ _, _ => []
  | .sent m ticket _, sh =>
    if sh.bus.answers m ticket then [.act (.queued m sh.bus.goesOn)] else []

theorem reaches_taken (hs : t.step? c sh = some (t', sh')) :
    t.rest.Reaches (t.taken c sh) t'.rest := by
  cases proceeds_of_step? hs with
  | deliver hkind =>
    simp only [taken, hkind]
    exact .queue (.refl _)
  | note hkind =>
    simp only [taken, hkind]
    exact .refl _
  | cancel => exact .cancel (.refl _)
  | ask => exact .askCancelled (.refl _)
  | world => exact .world (.refl _)
  | journal => exact .journal (.refl _)
  | send => exact .refl _
  | answer hanswers =>
    simp only [taken, hanswers, if_true]
    exact .queue (.refl _)

theorem taken_eq_nil (hs : t.step? c sh = none) : t.taken c sh = [] := by
  cases t with
  | ready p =>
    cases p with
    | done a => rfl
    | queue m next => cases hk : c.kind <;> simp only [step?, hk] at hs <;> cases hs
    | cancel _ | askCancelled _ | world _ _ | journal _ _ => cases hs
  | noted m next => cases hs
  | sent m ticket next =>
    simp only [step?] at hs
    split at hs
    · cases hs
    · next hwaits => exact if_neg hwaits

/-- Only a thread of a cancelled run learns that it is. -/
theorem cancelled_of_mem_taken (h : .act (.asked true) ∈ t.taken c sh) : sh.cancelled = true := by
  cases t with
  | ready p =>
    cases p with
    | askCancelled next =>
      injection List.mem_singleton.mp h with haction
      injection haction with hanswer
      exact hanswer.symm
    | queue m next =>
      simp only [taken] at h
      split at h
      · cases List.mem_singleton.mp h
      · cases h
    | done _ => cases h
    | cancel _ | world _ _ | journal _ _ => cases List.mem_singleton.mp h
  | noted m next => cases h
  | sent m ticket next =>
    simp only [taken] at h
    split at h
    · cases List.mem_singleton.mp h
    · cases h

end Thread

/-! ## What runs have heard -/

namespace SoloRun

variable {r : SoloRun σ ω α}

/-- What a turn adds to the log. -/
def taken (c : Transport σ) (r : SoloRun σ ω α) : SoloTurn → List (PathStep ω)
  | .thread => r.thread.taken c r.shared
  | .dispatcher => []

/-- The steps that the turns take, each with what was learnt. -/
def log (c : Transport σ) : List SoloTurn → SoloRun σ ω α → List (PathStep ω)
  | [], _ => []
  | x :: turns, r => r.taken c x ++ log c turns (r.turn c x)

/-- The log says how the thread came to where it is. -/
theorem reaches_log (turns : List SoloTurn) :
    r.thread.rest.Reaches (r.log c turns) (r.after c turns).thread.rest := by
  induction turns generalizing r with
  | nil => exact .refl _
  | cons x turns ih =>
    refine Reaches.append ?_ ih
    cases x with
    | dispatcher => exact .refl _
    | thread =>
      unfold SoloRun.turn taken
      cases hs : r.thread.step? c r.shared with
      | some next => exact Thread.reaches_taken hs
      | none =>
        rw [Thread.taken_eq_nil hs]
        exact .refl _

/-- **The log of a run that is over is a path of its process**, with the value of the run: what
holds of paths holds of runs. -/
theorem path_log {turns : List SoloTurn} {a : α} (h : (r.after c turns).value? = some a) :
    r.thread.rest.Path (r.log c turns) a := by
  have hthread : (r.after c turns).thread = .ready (.done a) := by
    unfold value? at h
    split at h
    · exact Thread.eq_of_value? h
    · cases h
  have hreaches := reaches_log (r := r) (c := c) turns
  rwa [hthread] at hreaches

/-- The thread of a run that is cancelled only if it is to stop. -/
structure HasHeard (r : SoloRun σ ω α) : Prop where
  thread : r.thread.HasHeard r.shared
  latched : r.shared.Latched

theorem HasHeard.turn (h : r.HasHeard) (x : SoloTurn) : (r.turn c x).HasHeard := by
  cases x with
  | dispatcher => exact ⟨h.thread.mono Shared.stopped_dispatch, h.latched.dispatch⟩
  | thread =>
    unfold SoloRun.turn
    cases hs : r.thread.step? c r.shared with
    | none => exact h
    | some next =>
      obtain ⟨hthread, hlatched⟩ := h.thread.step h.latched hs
      exact ⟨hthread, hlatched⟩

theorem stopped_turn (h : r.shared.bus.delivery.stopped = true) (x : SoloTurn) :
    (r.turn c x).shared.bus.delivery.stopped = true := by
  cases x with
  | dispatcher => exact Shared.stopped_dispatch h
  | thread =>
    unfold SoloRun.turn
    cases hs : r.thread.step? c r.shared with
    | none => exact h
    | some next => exact Thread.stopped_step hs h

theorem stopped_after (h : r.shared.bus.delivery.stopped = true) (turns : List SoloTurn) :
    (r.after c turns).shared.bus.delivery.stopped = true := by
  induction turns generalizing r with
  | nil => exact h
  | cons x turns ih => exact ih (stopped_turn h x)

/-- **Whoever learns that a run is cancelled belongs to a run that is to stop.** -/
theorem HasHeard.stopped_of_asked (h : r.HasHeard) {turns : List SoloTurn}
    (hasked : .act (.asked true) ∈ r.log c turns) :
    (r.after c turns).shared.bus.delivery.stopped = true := by
  induction turns generalizing r with
  | nil => cases hasked
  | cons x turns ih =>
    rcases List.mem_append.mp hasked with htaken | hlater
    · cases x with
      | dispatcher => cases htaken
      | thread =>
        have hstopped := h.latched (Thread.cancelled_of_mem_taken htaken)
        exact stopped_after (stopped_turn hstopped _) turns
    · exact ih (h.turn x) hlater

end SoloRun

namespace ParallelRun

variable {r : AssemblyRun ω}

/-- What a turn adds to the log. -/
def taken (c : Transport σ) (run : ParallelRun σ ω) : ParallelTurn → List (PathStep ω)
  | .caller =>
    match run.stage with
    | .opening thread => thread.taken c run.shared
    | .inside .. => []
    | .closing thread => thread.taken c run.shared
  | .take => []
  | .worker place =>
    match run.stage with
    | .inside _ running _ => (running[place]?.map (·.taken c run.shared)).getD []
    | .opening _ | .closing _ => []
  | .dispatcher => []

/-- The steps that the turns take, each with what was learnt; those of one thread come between those
of others. -/
def log (r : AssemblyRun ω) (c : Transport σ) (limit : ConcurrencyLimit) :
    List ParallelTurn → ParallelRun σ ω → List (PathStep ω)
  | [], _ => []
  | x :: turns, run => run.taken c x ++ log r c limit turns (run.turn r c limit x)

end ParallelRun

/-- The threads of a parallel run cancel it only if it is to stop. -/
def heardLaw (r : AssemblyRun ω) (c : Transport σ) : CrewLaw r c where
  opening := fun t sh => t.HasHeard sh ∧ sh.Latched ∧ t.rest.Yields fun _ found =>
    ∀ runs, found = some runs → ∀ p ∈ runs, p.Makes (Heard false)
  crew := fun ts sh => (∀ t ∈ ts, t.HasHeard sh) ∧ sh.Latched
  closing := fun t sh => t.HasHeard sh ∧ sh.Latched
  opening_step := fun ⟨ht, hlatched, hfound⟩ hs => by
    obtain ⟨ht', hlatched'⟩ := ht.step hlatched hs
    exact ⟨ht', hlatched', Thread.yields_step hfound hs⟩
  opening_dispatch := fun ⟨ht, hlatched, hfound⟩ =>
    ⟨ht.mono Shared.stopped_dispatch, hlatched.dispatch, hfound⟩
  opens := fun {runs sh} ⟨_, hlatched, hfound⟩ => by
    refine ⟨fun t ht => ?_, hlatched⟩
    obtain ⟨p, hp, rfl⟩ := List.mem_map.mp ht
    exact Thread.hasHeard_ready
      (welcomes_heard.makes_unlessCancelled (hfound.of_done runs rfl p hp)) sh
  skips := fun {sh} ⟨_, hlatched, _⟩ =>
    ⟨Thread.hasHeard_ready (welcomes_heard.makes_closing r 0) sh, hlatched⟩
  crew_step := fun {before after t t' sh sh'} ⟨hts, hlatched⟩ hs => by
    obtain ⟨ht', hlatched'⟩ :=
      (hts t (List.mem_append_right before List.mem_cons_self)).step hlatched hs
    refine ⟨fun u hu => ?_, hlatched'⟩
    rcases List.mem_append.mp hu with hu | hu
    · exact (hts u (List.mem_append_left _ hu)).mono (Thread.stopped_step hs)
    · rcases List.mem_cons.mp hu with rfl | hu
      · exact ht'
      · exact (hts u (List.mem_append_right before (List.mem_cons_of_mem t hu))).mono
          (Thread.stopped_step hs)
  crew_dispatch := fun ⟨hts, hlatched⟩ =>
    ⟨fun t ht => (hts t ht).mono Shared.stopped_dispatch, hlatched.dispatch⟩
  leaves := fun {before after counts sh} ⟨hts, hlatched⟩ =>
    ⟨fun t ht => hts t (((List.sublist_cons_self _ after).append_left before).subset ht),
      hlatched⟩
  closes := fun {sh} ⟨_, hlatched⟩ sum =>
    ⟨Thread.hasHeard_ready (welcomes_heard.makes_closing r sum) sh, hlatched⟩
  closing_step := fun ⟨ht, hlatched⟩ hs => ht.step hlatched hs
  closing_dispatch := fun ⟨ht, hlatched⟩ => ⟨ht.mono Shared.stopped_dispatch, hlatched.dispatch⟩

namespace ParallelRun

variable {r : AssemblyRun ω} {limit : ConcurrencyLimit} {run : ParallelRun σ ω}

/-- The run of which the law holds is to stop if it is cancelled. -/
theorem latched_of_holds (h : (heardLaw r c).Holds run) : run.shared.Latched := by
  obtain ⟨stage, sh⟩ := run
  cases stage with
  | opening t => exact h.2.1
  | inside waiting running sum => exact h.2
  | closing t => exact h.2

theorem cancelled_of_mem_taken {x : ParallelTurn} (h : .act (.asked true) ∈ run.taken c x) :
    run.shared.cancelled = true := by
  obtain ⟨stage, sh⟩ := run
  cases x with
  | caller =>
    cases stage with
    | opening t | closing t => exact Thread.cancelled_of_mem_taken h
    | inside waiting running sum => cases h
  | worker place =>
    cases stage with
    | inside waiting running sum =>
      cases hplace : running[place]? with
      | none =>
        simp only [taken, hplace] at h
        cases h
      | some t =>
        simp only [taken, hplace] at h
        exact Thread.cancelled_of_mem_taken h
    | opening t | closing t => cases h
  | take | dispatcher => cases h

/-- **Whoever learns that a run is cancelled belongs to a run that is to stop.** -/
theorem stopped_of_asked (h : (heardLaw r c).Holds run) {turns : List ParallelTurn}
    (hasked : .act (.asked true) ∈ run.log r c limit turns) :
    (run.after r c limit turns).shared.bus.delivery.stopped = true := by
  induction turns generalizing run with
  | nil => cases hasked
  | cons x turns ih =>
    rcases List.mem_append.mp hasked with htaken | hlater
    · have hgoes : ∃ os, run.shared.Goes (run.after r c limit (x :: turns)).shared os :=
        exists_goes (latched_of_holds h (cancelled_of_mem_taken htaken)) (x :: turns)
      obtain ⟨os, hos⟩ := hgoes
      exact hos.stopped
    · exact ih (h.turn limit x) hlater

end ParallelRun

/-! ## Steps of stopped runs -/

/-- These steps are part of a run only if it is to stop: whatever is run, whatever the sink does,
and however the threads of the run and the dispatcher take turns, the bus is stopped by the time
when all of the steps were taken. -/
def OnlyIfStopped (π : List (PathStep ω)) : Prop :=
  ∀ (σ : Type) (c : Transport σ) (r : AssemblyRun ω) (sink : σ) (world : ω),
    (∀ turns, π.Sublist ((SoloRun.start r.inTurn sink world).log c turns) →
      ((SoloRun.start r.inTurn sink world).after c turns).shared.bus.delivery.stopped = true) ∧
    ∀ limit turns, π.Sublist ((ParallelRun.start r sink world).log r c limit turns) →
      ((ParallelRun.start r sink world).after r c limit turns).shared.bus.delivery.stopped = true

/-- **Steps by which somebody learns that the run is cancelled.** -/
theorem onlyIfStopped_of_asked {π : List (PathStep ω)} (h : .act (.asked true) ∈ π) :
    OnlyIfStopped π := by
  intro σ c r sink world
  constructor
  · intro turns hlog
    have hstart : (SoloRun.start r.inTurn sink world).HasHeard :=
      ⟨Thread.hasHeard_ready (welcomes_heard.makes_inTurn r fun _ => trivial) _, nofun⟩
    exact hstart.stopped_of_asked (hlog.subset h)
  · intro limit turns hlog
    have hfound : r.opening.Yields fun _ found =>
        ∀ runs, found = some runs → ∀ p ∈ runs, p.Makes (Heard false) := by
      refine AssemblyRun.yields_found fun ls _ p hp => ?_
      obtain ⟨l, -, rfl⟩ := List.mem_map.mp hp
      exact welcomes_heard.makes_collection r.setup trivial _
    have hstart : (heardLaw r c).Holds (ParallelRun.start r sink world) :=
      ⟨Thread.hasHeard_ready (welcomes_heard.makes_opening r) _, nofun, hfound⟩
    exact ParallelRun.stopped_of_asked hstart (hlog.subset h)

end TestEngine
