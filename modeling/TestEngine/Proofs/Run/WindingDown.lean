import TestEngine.Proofs.Run.SideBySide
import TestEngine.Proofs.Run.Staff
import TestEngine.Proofs.Run.Unstarted

/-!
# Winding down

How a parallel run ends once it is to stop, on either kind of bus, with any sink, and however the
workers and the dispatcher take turns.

* `ParallelRun.exists_asynchronous` — a run on a synchronous bus is one on an asynchronous bus whose
  dispatcher works at once.
* `ParallelRun.WindsDown` — the law of a run of `n` workers, from any moment on.
* `ParallelRun.windsDown` — every parallel run obeys it.
-/

namespace TestEngine

open Process

variable {σ ω α : Type}

/-! ## Both kinds of bus -/

/-- The same sink behind an asynchronous bus. -/
def Transport.asynchronously (c : Transport σ) : Transport σ := { c with kind := .asynchronous }

/-- The thread is in no call. -/
def Thread.IsReady (t : Thread ω α) : Prop := ∃ p, t = .ready p

/-- All threads of a stage are in no call. -/
def ParallelStage.IsReady : ParallelStage ω → Prop
  | .opening t => t.IsReady
  | .inside _ running _ => ∀ t ∈ running, t.IsReady
  | .closing t => t.IsReady

theorem Delivery.noteFailure_noteFailure (stopOnFail : Bool) (m : Message) (d : Delivery σ) :
    (d.noteFailure stopOnFail m).noteFailure stopOnFail m = d.noteFailure stopOnFail m := by
  unfold noteFailure
  split <;> simp_all [stop]

/-- A message that was noted is delivered like any other. -/
theorem Delivery.deliver_noteFailure (sink : Sink σ) (stopOnFail : Bool) (m : Message)
    (d : Delivery σ) :
    (d.noteFailure stopOnFail m).deliver sink stopOnFail m = d.deliver sink stopOnFail m := by
  unfold deliver
  rw [noteFailure_noteFailure]

/-- A step on a synchronous bus, taken on an asynchronous one whose channel is empty. -/
theorem Thread.exists_asynchronous {c : Transport σ} (hkind : c.kind = .synchronous)
    {t t' : Thread ω α} {sh sh' : Shared σ ω} (ht : t.IsReady) (hcounted : sh.Counted)
    (hchannel : sh.bus.channel = []) (hs : t.step? c sh = some (t', sh')) :
    t'.IsReady ∧ sh'.bus.channel = [] ∧
      ∃ turns, (⟨t, sh⟩ : SoloRun σ ω α).after c.asynchronously turns = ⟨t', sh'⟩ := by
  obtain ⟨p, rfl⟩ := ht
  cases p with
  | done a => cases hs
  | queue m next =>
    simp only [step?, hkind, Option.some.injEq, Prod.mk.injEq] at hs
    obtain ⟨rfl, rfl⟩ := hs
    have hpush : ({ sh with bus := sh.bus.push m } : Shared σ ω).bus.channel = [m] := by
      show sh.bus.channel ++ [m] = [m]
      rw [hchannel]
      rfl
    refine ⟨⟨_, rfl⟩, Shared.channel_dispatch hpush, [.thread, .thread, .dispatcher, .thread], ?_⟩
    have hsame : ({ sh with bus := (sh.bus.note c.stopOnFail m).push m } : Shared σ ω).dispatch
        c.asynchronously = ({ sh with bus := sh.bus.push m } : Shared σ ω).dispatch c := by
      simp only [Shared.dispatch, AsynchronousBus.push, AsynchronousBus.note, hchannel,
        List.nil_append, AsynchronousBus.dispatch, Transport.asynchronously,
        Delivery.deliver_noteFailure]
    have hanswers : (({ sh with bus := sh.bus.push m } : Shared σ ω).dispatch c).bus.answers m
        sh.bus.sent = true := by
      have hhandled : sh.bus.handled = sh.bus.sent := by
        rw [← hcounted, hchannel]
        rfl
      simp [AsynchronousBus.answers, Shared.bus_dispatch, AsynchronousBus.dispatch,
        AsynchronousBus.push, hchannel, hhandled]
    -- the message is noted, sent and delivered, and then it is answered
    have hdelivered : (⟨ready (.queue m next), sh⟩ : SoloRun σ ω α).after c.asynchronously
        [.thread, .thread, .dispatcher] = ⟨.sent m sh.bus.sent next,
          ({ sh with bus := sh.bus.push m } : Shared σ ω).dispatch c⟩ := by
      rw [← hsame]
      rfl
    show SoloRun.turn c.asynchronously ((⟨ready (.queue m next), sh⟩ : SoloRun σ ω α).after
      c.asynchronously [.thread, .thread, .dispatcher]) .thread = _
    rw [hdelivered]
    simp only [SoloRun.turn, step?, hanswers, if_true]
  | cancel next => cases hs; exact ⟨⟨_, rfl⟩, hchannel, [.thread], rfl⟩
  | askCancelled next => cases hs; exact ⟨⟨_, rfl⟩, hchannel, [.thread], rfl⟩
  | world change next => cases hs; exact ⟨⟨_, rfl⟩, hchannel, [.thread], rfl⟩
  | journal entry next => cases hs; exact ⟨⟨_, rfl⟩, hchannel, [.thread], rfl⟩

namespace ParallelRun

variable {r : AssemblyRun ω} {c : Transport σ} {limit : ConcurrencyLimit} {run : ParallelRun σ ω}

/-- On a synchronous bus, nothing is under way between two turns. -/
structure Idle (run : ParallelRun σ ω) : Prop where
  ready : run.stage.IsReady
  counted : run.shared.Counted
  channel_eq : run.shared.bus.channel = []

theorem idle_start (r : AssemblyRun ω) (sink : σ) (world : ω) : (start r sink world).Idle :=
  ⟨⟨_, rfl⟩, rfl, rfl⟩

/-- On an asynchronous bus `run` can get to `run'`, where nothing is under way. -/
def GetsTo (r : AssemblyRun ω) (c : Transport σ) (limit : ConcurrencyLimit)
    (run run' : ParallelRun σ ω) : Prop :=
  run'.Idle ∧ ∃ turns, run.after r c.asynchronously limit turns = run'

theorem Idle.getsTo_self (h : run.Idle) : run.GetsTo r c limit run := ⟨h, [], rfl⟩

section Turns

variable {stage : ParallelStage ω} {sh : Shared σ ω}

/-- The stage changes in the same way on both kinds of bus. -/
theorem Idle.getsTo_stage (h : (⟨stage, sh⟩ : ParallelRun σ ω).Idle) (x : ParallelTurn)
    {stage' : ParallelStage ω} (hready : stage'.IsReady)
    (hturn : (⟨stage, sh⟩ : ParallelRun σ ω).turn r c.asynchronously limit x = ⟨stage', sh⟩) :
    (⟨stage, sh⟩ : ParallelRun σ ω).GetsTo r c limit ⟨stage', sh⟩ :=
  ⟨⟨hready, h.counted, h.channel_eq⟩, [x], hturn⟩

/-- What a thread of a stage does on a synchronous bus, it does on an asynchronous one. -/
theorem getsTo_step (hkind : c.kind = .synchronous)
    (stageOf : Thread ω α → ParallelStage ω) {x : ParallelTurn}
    (hstep : ∀ t sh t' sh', t.step? c.asynchronously sh = some (t', sh') →
      (⟨stageOf t, sh⟩ : ParallelRun σ ω).turn r c.asynchronously limit x = ⟨stageOf t', sh'⟩)
    {t t' : Thread ω α} {sh' : Shared σ ω} (h : (⟨stageOf t, sh⟩ : ParallelRun σ ω).Idle)
    (ht : t.IsReady) (hs : t.step? c sh = some (t', sh'))
    (hready : t'.IsReady → (stageOf t').IsReady) :
    (⟨stageOf t, sh⟩ : ParallelRun σ ω).GetsTo r c limit ⟨stageOf t', sh'⟩ := by
  obtain ⟨ht', hchannel', turns, hsolo⟩ :=
    Thread.exists_asynchronous hkind ht h.counted h.channel_eq hs
  obtain ⟨more, hmore⟩ := exists_turns r limit hstep turns ⟨t, sh⟩
  rw [hsolo] at hmore
  exact ⟨⟨hready ht', (Thread.counted_step h.counted hs).1, hchannel'⟩, more, hmore⟩

theorem Idle.getsTo_stepTake (h : (⟨stage, sh⟩ : ParallelRun σ ω).Idle) :
    (⟨stage, sh⟩ : ParallelRun σ ω).GetsTo r c limit
      ((⟨stage, sh⟩ : ParallelRun σ ω).turn r c limit .take) := by
  cases stage with
  | opening t | closing t => exact h.getsTo_self
  | inside waiting running sum =>
    cases waiting with
    | nil => exact h.getsTo_self
    | cons p waiting =>
      have hready : ∀ t ∈ running, t.IsReady := h.ready
      by_cases hadmits : limit.admits running.length
      · have hturn : ∀ c : Transport σ,
            (⟨.inside (p :: waiting) running sum, sh⟩ : ParallelRun σ ω).turn r c limit .take =
              ⟨.inside waiting (running ++ [.ready (unlessCancelled p)]) sum, sh⟩ := fun _ => by
          simp only [ParallelRun.turn, stepTake, if_pos hadmits]
        rw [hturn]
        refine h.getsTo_stage .take ?_ (hturn _)
        exact List.forall_mem_append.mpr ⟨hready, List.forall_mem_singleton.mpr ⟨_, rfl⟩⟩
      · simp only [ParallelRun.turn, stepTake, if_neg hadmits]
        exact h.getsTo_self

theorem Idle.getsTo_stepCaller (hkind : c.kind = .synchronous)
    (h : (⟨stage, sh⟩ : ParallelRun σ ω).Idle) :
    (⟨stage, sh⟩ : ParallelRun σ ω).GetsTo r c limit
      ((⟨stage, sh⟩ : ParallelRun σ ω).turn r c limit .caller) := by
  cases stage with
  | opening t =>
    cases hvalue : t.value? with
    | some found =>
      cases found with
      | some runs =>
        have hturn : ∀ c : Transport σ,
            (⟨.opening t, sh⟩ : ParallelRun σ ω).turn r c limit .caller =
              ⟨.inside runs [] 0, sh⟩ := fun _ => by
          simp only [ParallelRun.turn, stepCaller, hvalue]
        rw [hturn]
        exact h.getsTo_stage .caller (List.forall_mem_nil _) (hturn _)
      | none =>
        have hturn : ∀ c : Transport σ,
            (⟨.opening t, sh⟩ : ParallelRun σ ω).turn r c limit .caller =
              ⟨.closing (.ready (r.closing 0)), sh⟩ := fun _ => by
          simp only [ParallelRun.turn, stepCaller, hvalue]
        rw [hturn]
        exact h.getsTo_stage .caller ⟨_, rfl⟩ (hturn _)
    | none =>
      cases hs : t.step? c sh with
      | none =>
        simp only [ParallelRun.turn, stepCaller, hvalue, hs]
        exact h.getsTo_self
      | some next =>
        simp only [ParallelRun.turn, stepCaller, hvalue, hs]
        exact getsTo_step hkind .opening (fun _ _ _ _ => stepCaller_opening) h h.ready hs id
  | inside waiting running sum =>
    cases waiting with
    | cons p waiting => exact h.getsTo_self
    | nil =>
      cases running with
      | cons t running => exact h.getsTo_self
      | nil => exact h.getsTo_stage .caller ⟨_, rfl⟩ rfl
  | closing t =>
    cases hs : t.step? c sh with
    | none =>
      simp only [ParallelRun.turn, stepCaller, hs]
      exact h.getsTo_self
    | some next =>
      simp only [ParallelRun.turn, stepCaller, hs]
      exact getsTo_step hkind .closing (fun _ _ _ _ => stepCaller_closing) h h.ready hs id

theorem Idle.getsTo_stepWorker (hkind : c.kind = .synchronous)
    (h : (⟨stage, sh⟩ : ParallelRun σ ω).Idle) (place : Nat) :
    (⟨stage, sh⟩ : ParallelRun σ ω).GetsTo r c limit
      ((⟨stage, sh⟩ : ParallelRun σ ω).turn r c limit (.worker place)) := by
  cases stage with
  | opening t | closing t => exact h.getsTo_self
  | inside waiting running sum =>
    cases hplace : running[place]? with
    | none =>
      simp only [ParallelRun.turn, stepWorker, hplace]
      exact h.getsTo_self
    | some t =>
      have hready : ∀ t ∈ running, t.IsReady := h.ready
      obtain ⟨hlt, hget⟩ := List.getElem?_eq_some_iff.mp hplace
      cases hvalue : t.value? with
      | some counts =>
        have hturn : ∀ c : Transport σ,
            (⟨.inside waiting running sum, sh⟩ : ParallelRun σ ω).turn r c limit (.worker place) =
              ⟨.inside waiting (running.eraseIdx place) (sum + counts), sh⟩ := fun _ => by
          simp only [ParallelRun.turn, stepWorker, hplace, hvalue]
        rw [hturn]
        refine h.getsTo_stage (.worker place) ?_ (hturn _)
        exact fun t ht => hready t (List.mem_of_mem_eraseIdx ht)
      | none =>
        cases hs : t.step? c sh with
        | none =>
          simp only [ParallelRun.turn, stepWorker, hplace, hvalue, hs]
          exact h.getsTo_self
        | some next =>
          simp only [ParallelRun.turn, stepWorker, hplace, hvalue, hs]
          -- the worker is put in its place, so that the run is one of its thread
          have hset : running.set place t = running := by rw [← hget, List.set_getElem_self]
          have hnext : next.1.IsReady →
              (ParallelStage.inside waiting (running.set place next.1) sum).IsReady := by
            intro hnext t' ht'
            rcases List.mem_or_eq_of_mem_set ht' with hold | rfl
            · exact hready t' hold
            · exact hnext
          have hmoved : (⟨.inside waiting (running.set place t) sum, sh⟩ :
              ParallelRun σ ω).GetsTo r c limit
                ⟨.inside waiting (running.set place next.1) sum, next.2⟩ :=
            getsTo_step hkind (fun t => .inside waiting (running.set place t) sum)
              (fun _ _ _ _ => stepWorker_set hlt) (by rw [hset]; exact h)
              (hready t (List.mem_of_getElem? hplace)) hs hnext
          rw [hset] at hmoved
          exact hmoved

/-- A turn on a synchronous bus is some turns on an asynchronous one. -/
theorem Idle.getsTo_turn (hkind : c.kind = .synchronous) (h : run.Idle) (x : ParallelTurn) :
    run.GetsTo r c limit (run.turn r c limit x) := by
  cases x with
  | caller => exact h.getsTo_stepCaller hkind
  | take => exact h.getsTo_stepTake
  | worker place => exact h.getsTo_stepWorker hkind place
  | dispatcher =>
    have hnone : run.shared.dispatch c = run.shared := Shared.dispatch_eq_self h.channel_eq
    simp only [ParallelRun.turn, hnone]
    exact h.getsTo_self

end Turns

/-- **A run on a synchronous bus is one on an asynchronous bus** whose dispatcher works at once. -/
theorem exists_asynchronous (r : AssemblyRun ω) (limit : ConcurrencyLimit)
    (hkind : c.kind = .synchronous) (h : run.Idle) (turns : List ParallelTurn) :
    (run.after r c limit turns).Idle ∧
      ∃ turns', run.after r c.asynchronously limit turns' = run.after r c limit turns := by
  induction turns generalizing run with
  | nil => exact ⟨h, [], rfl⟩
  | cons x turns ih =>
    obtain ⟨hidle, first, hfirst⟩ := h.getsTo_turn (r := r) hkind x
    obtain ⟨hafter, rest, hrest⟩ := ih hidle
    refine ⟨hafter, first ++ rest, ?_⟩
    rw [after_append, hfirst]
    exact hrest

end ParallelRun

/-! ## After the wish to stop -/

/-- The messages that the sink was handed, according to what happened. -/
def handed (os : List Occurrence) : List Message :=
  (os.filterMap fun
    | .handed call => some call
    | _ => none).map (·.message)

/-- The messages that were answered, according to what happened, each with its answer. -/
def answersIn (os : List Occurrence) : List (Message × Bool) :=
  os.filterMap fun
    | .queued m goesOn => some (m, goesOn)
    | _ => none

/-- What happens in a run that is to stop: nobody is told to go on. -/
structure Shared.Goes (sh sh' : Shared σ ω) (os : List Occurrence) : Prop where
  stopped : sh'.bus.delivery.stopped = true
  history_eq : sh'.history = sh.history ++ os
  refused : ∀ m goesOn, .queued m goesOn ∈ os → goesOn = false

namespace Shared.Goes

variable {c : Transport σ} {sh sh₁ sh₂ : Shared σ ω} {os ps : List Occurrence}

theorem refl (h : sh.bus.delivery.stopped = true) : sh.Goes sh [] :=
  ⟨h, (List.append_nil _).symm, fun _ _ hm => nomatch hm⟩

theorem trans (h : sh.Goes sh₁ os) (h' : sh₁.Goes sh₂ ps) : sh.Goes sh₂ (os ++ ps) where
  stopped := h'.stopped
  history_eq := by rw [h'.history_eq, h.history_eq, List.append_assoc]
  refused := fun m goesOn hm =>
    (List.mem_append.mp hm).elim (h.refused m goesOn) (h'.refused m goesOn)

theorem dispatch (h : sh.bus.delivery.stopped = true) : ∃ os, sh.Goes (sh.dispatch c) os := by
  have hstopped := Shared.stopped_dispatch (c := c) h
  unfold Shared.dispatch at hstopped ⊢
  split at hstopped
  · exact ⟨[], refl h⟩
  · refine ⟨_, hstopped, rfl, fun m goesOn hm => ?_⟩
    obtain ⟨call, -, he⟩ := List.mem_map.mp hm
    cases he

theorem answer (h : sh.bus.delivery.stopped = true) (m : Message) :
    sh.Goes (sh.answer m) [.queued m sh.bus.goesOn] := by
  refine ⟨h, rfl, fun m' goesOn hm => ?_⟩
  cases List.mem_singleton.mp hm
  rw [AsynchronousBus.goesOn, h]
  rfl

theorem delivered_eq (h : sh.Goes sh₁ os) : sh₁.delivered = sh.delivered ++ handed os := by
  rw [Shared.delivered, Shared.calls, h.history_eq, List.filterMap_append, List.map_append]
  rfl

theorem answers_eq (h : sh.Goes sh₁ os) : sh₁.answers = sh.answers ++ answersIn os := by
  rw [Shared.answers, h.history_eq, List.filterMap_append]
  rfl

theorem countP_admits (h : sh.Goes sh₁ os) (i : NodeIds) :
    (answersIn os).countP (admits i) = 0 := by
  refine List.countP_eq_zero.mpr fun x hx => ?_
  obtain ⟨o, ho, hox⟩ := List.mem_filterMap.mp hx
  cases o <;> cases hox
  rw [h.refused _ _ ho]
  simp [admits]

/-- Each answer was to stop. -/
theorem count_answersIn (h : sh.Goes sh₁ os) (m : Message) :
    ((answersIn os).map (·.1)).count m = os.count (.queued m false) := by
  have hrefused := h.refused
  clear h
  induction os with
  | nil => rfl
  | cons o os ih =>
    have hrest := ih fun m' goesOn hm => hrefused m' goesOn (List.mem_cons_of_mem o hm)
    cases o with
    | queued m' goesOn =>
      obtain rfl := hrefused m' goesOn List.mem_cons_self
      have hsame : (Occurrence.queued m' false == .queued m false) = (m' == m) := by
        by_cases he : m' = m <;> simp [he]
      have hanswers : (answersIn (.queued m' false :: os)).map (·.1) =
          m' :: (answersIn os).map (·.1) := rfl
      rw [hanswers, List.count_cons, List.count_cons, hrest, hsame]
    | handed call =>
      have hne : Occurrence.handed call ≠ .queued m false := nofun
      exact hrest.trans (List.count_cons_of_ne hne).symm
    | activity entry =>
      have hne : Occurrence.activity entry ≠ .queued m false := nofun
      exact hrest.trans (List.count_cons_of_ne hne).symm

end Shared.Goes

theorem Thread.exists_goes {c : Transport σ} {t t' : Thread ω α} {sh sh' : Shared σ ω}
    (h : sh.bus.delivery.stopped = true) (hs : t.step? c sh = some (t', sh')) :
    ∃ os, sh.Goes sh' os := by
  cases proceeds_of_step? hs with
  | @deliver m _ _ _ =>
    have hpush : sh.Goes { sh with bus := sh.bus.push m } [] :=
      ⟨h, (List.append_nil _).symm, by rintro _ _ ⟨⟩⟩
    obtain ⟨os, hos⟩ := Shared.Goes.dispatch (c := c) hpush.stopped
    exact ⟨_, (hpush.trans hos).trans (.answer hos.stopped m)⟩
  | note _ =>
    exact ⟨[], Delivery.stopped_noteFailure h, (List.append_nil _).symm, by rintro _ _ ⟨⟩⟩
  | cancel | ask | world | send => exact ⟨[], h, (List.append_nil _).symm, by rintro _ _ ⟨⟩⟩
  | journal => exact ⟨_, h, rfl, fun _ _ hm => by cases List.mem_singleton.mp hm⟩
  | answer _ => exact ⟨_, .answer h _⟩

namespace ParallelRun

variable {r : AssemblyRun ω} {c : Transport σ} {limit : ConcurrencyLimit} {run : ParallelRun σ ω}

theorem exists_goes_turn (h : run.shared.bus.delivery.stopped = true) (x : ParallelTurn) :
    ∃ os, run.shared.Goes (run.turn r c limit x).shared os := by
  have hsame : ∃ os, run.shared.Goes run.shared os := ⟨[], .refl h⟩
  cases x with
  | dispatcher => exact Shared.Goes.dispatch h
  | take =>
    simp only [turn, stepTake]
    split
    · split <;> exact hsame
    · exact hsame
  | caller =>
    simp only [turn, stepCaller]
    split
    · split
      · exact hsame
      · exact hsame
      · next hs => exact Thread.exists_goes h hs
      · exact hsame
    · exact hsame
    · exact hsame
    · split
      · next hs => exact Thread.exists_goes h hs
      · exact hsame
  | worker place =>
    simp only [turn, stepWorker]
    split
    · split
      · exact hsame
      · split
        · exact hsame
        · next hs => exact Thread.exists_goes h hs
        · exact hsame
    · exact hsame

/-- **Once a run is to stop, nobody is told to go on.** -/
theorem exists_goes (h : run.shared.bus.delivery.stopped = true) (turns : List ParallelTurn) :
    ∃ os, run.shared.Goes (run.after r c limit turns).shared os := by
  induction turns generalizing run with
  | nil => exact ⟨[], .refl h⟩
  | cons x turns ih =>
    have hturn : ∃ os, run.shared.Goes (run.turn r c limit x).shared os := exists_goes_turn h x
    obtain ⟨os, hos⟩ := hturn
    obtain ⟨ps, hps⟩ := ih hos.stopped
    exact ⟨os ++ ps, hos.trans hps⟩

/-! ## What the books say about a run -/

variable {n : Nat} {i : NodeIds} {base? : Option Nat}

/-- On either kind of bus the books of a run are kept as on an asynchronous one. -/
theorem kept_after (r : AssemblyRun ω) (c : Transport σ) (sink : σ) (world : ω) (hn : 0 < n)
    (turns more : List ParallelTurn) :
    (∀ i, ((start r sink world).after r c (.atMost n) turns).Kept n i r c.asynchronously none) ∧
    ∀ i base?,
      ((start r sink world).after r c (.atMost n) turns).Kept n i r c.asynchronously base? →
      (((start r sink world).after r c (.atMost n) turns).after r c (.atMost n) more).Kept n i r
        c.asynchronously base? := by
  have hstart := fun i => Kept.start (i := i) r c.asynchronously sink world hn
  have hafter : ∀ {run : ParallelRun σ ω} {i base?} (turns : List ParallelTurn),
      run.Kept n i r c.asynchronously base? →
      (run.after r c.asynchronously (.atMost n) turns).Kept n i r c.asynchronously base? :=
    fun turns h => h.after rfl hn turns
  cases hkind : c.kind with
  | asynchronous =>
    have hsame : c.asynchronously = c := by
      obtain ⟨kind, sink, stopOnFail⟩ := c
      cases hkind
      rfl
    rw [hsame] at hafter hstart ⊢
    exact ⟨fun i => hafter turns (hstart i), fun i base? h => hafter more h⟩
  | synchronous =>
    obtain ⟨hidle, turns', hturns⟩ := exists_asynchronous r (.atMost n) hkind
      (idle_start r sink world) turns
    obtain ⟨-, more', hmore⟩ := exists_asynchronous r (.atMost n) hkind hidle more
    refine ⟨fun i => ?_, fun i base? h => ?_⟩
    · rw [← hturns]
      exact hafter turns' (hstart i)
    · rw [← hmore]
      exact hafter more' h

namespace Kept

variable {before : ParallelRun σ ω} {os : List Occurrence}

/-- A run that is to stop has `n` more nodes to start. -/
theorem credit (h : run.Kept n i r c none) (hstopped : run.shared.bus.delivery.stopped = true) :
    run.Kept n i r c (some run.shared.starts) := by
  obtain ⟨debt, past, accounts, hstaff, haudit⟩ := h
  refine ⟨debt, past, accounts, hstaff, haudit.books, haudit.covered, ?_⟩
  rintro _ ⟨⟩
  exact .start hstopped haudit.books.figures.length_le

theorem starts_le {base : Nat} (h : run.Kept n i r c (some base)) :
    run.shared.starts ≤ base + n := by
  obtain ⟨debt, past, accounts, -, haudit⟩ := h
  exact (haudit.credit base rfl).starts_le_add haudit.books.figures.length_le

theorem countP_starting_handed_le (h : run.Kept n i r c (some before.shared.starts))
    (hgoes : before.shared.Goes run.shared os) : (handed os).countP (·.event.isStarting) ≤ n := by
  have hle := h.starts_le
  rw [Shared.starts, hgoes.delivered_eq, List.countP_append] at hle
  exact Nat.le_of_add_le_add_left hle

theorem countP_results_le (h : run.Kept n i r c base?)
    (hgoes : before.shared.Goes run.shared os) :
    run.shared.delivered.countP (isResultOf i) ≤ before.shared.answers.countP (admits i) := by
  obtain ⟨debt, past, accounts, -, haudit⟩ := h
  have hresults := haudit.books.results_sent_le
  rw [Shared.sent, List.countP_append, hgoes.answers_eq, List.countP_append,
    hgoes.countP_admits i] at hresults
  exact Nat.le_trans (Nat.le_add_right _ _) hresults

theorem failed_le (h : run.Kept n i r c base?) (hstop : c.stopOnFail = true) :
    (tally run.shared.delivered).failed ≤ n := by
  obtain ⟨debt, past, accounts, -, haudit⟩ := h
  refine Nat.le_trans ?_ (haudit.books.failed_sent_le hstop)
  rw [Shared.sent, tally_append, Counts.failed_add]
  exact Nat.le_add_right _ _

theorem count_finishedIds_le (h : run.Kept n i r c base?) {ms : List Message}
    (hms : ms <+: run.shared.delivered) :
    (finishedIds ms).count i ≤ (startedIds ms).count i := by
  obtain ⟨debt, past, accounts, -, haudit⟩ := h
  have hprefix : news ms <+: news run.shared.sent := by
    rw [Shared.sent, news_append]
    exact (hms.filter _).trans (List.prefix_append _ _)
  rw [← finishedIds_news, ← startedIds_news]
  exact haudit.covered _ hprefix

/-- When a run is over, everything is answered, and the books are closed. -/
theorem of_counts? {counts : Counts} (h : run.Kept n i r c base?)
    (hover : run.counts? = some counts) :
    (startedIds run.shared.delivered).count i = (finishedIds run.shared.delivered).count i ∧
    (tally run.shared.delivered).failed = counts.failed ∧
    ∀ m, m.event.isStarting = true → run.shared.delivered.count m = run.shared.told.count m := by
  obtain ⟨stage, sh⟩ := run
  obtain ⟨debt, past, accounts, hstaff, haudit⟩ := h
  have hstaff : stage.Staffed i r c sh debt past accounts := hstaff
  have hbooks : Books n i c debt past sh accounts := haudit.books
  cases hstaff with
  | opening _ _ => cases hover
  | inside _ _ _ => cases hover
  | @closing t a ht =>
    simp only [counts?] at hover
    split at hover
    · next hdrained =>
      obtain rfl := Thread.eq_of_value? hover
      obtain ⟨-, hcall, howed, hfailed⟩ := ht.of_done
      have hsent : sh.sent = sh.delivered := by
        rw [Shared.sent, List.isEmpty_iff.mp hdrained, List.append_nil]
      have hperm : (news sh.delivered).Perm (news sh.told) := by
        have hperm := hbooks.flight.sent_perm
        rwa [hsent, List.flatMap_singleton, Account.inChannel_eq_nil hcall,
          List.append_nil] at hperm
      have howes := hbooks.figures.owed_eq
      have hfails := hbooks.figures.failed_eq
      simp only [List.map_cons, List.map_nil, List.sum_cons, List.sum_nil, howed, hfailed,
        Nat.add_zero, Nat.zero_add] at howes hfails
      refine ⟨?_, ?_, fun m hm => ?_⟩
      · rw [← startedIds_news, ← finishedIds_news]
        rw [← startedIds_news, ← finishedIds_news] at howes
        exact ((hperm.filter _).map _).count_eq i |>.trans
          (howes.trans (((hperm.filter _).map _).count_eq i).symm)
      · rw [← failed_news]
        exact (hperm.countP_eq _).trans ((failed_news _).trans hfails)
      · have hnone := Message.beq_eq_false_of_isError hm
        exact (countP_news hnone _).symm.trans ((hperm.countP_eq _).trans (countP_news hnone _))
    · cases hover

/-- What is delivered from some moment on is answered from that moment on, when the run is over. -/
theorem count_handed_le (h : run.Kept n i r c base?) (hbefore : before.Kept n i r c none)
    (hgoes : before.shared.Goes run.shared os) {counts : Counts}
    (hover : run.counts? = some counts) {m : Message} (hm : m.event.isStarting = true) :
    (handed os).count m ≤ os.count (.queued m false) := by
  obtain ⟨debt, past, accounts, -, haudit⟩ := hbefore
  -- what was answered before was delivered before
  have hearlier : before.shared.told.count m ≤ before.shared.delivered.count m :=
    haudit.books.count_told_le hm
  have heach := (h.of_counts? hover).2.2 m hm
  rw [hgoes.delivered_eq, Shared.told, hgoes.answers_eq, List.map_append, List.count_append,
    List.count_append] at heach
  rw [← hgoes.count_answersIn m]
  rw [Shared.told] at hearlier
  omega

end Kept

/-! ## The law -/

/-- The law of a parallel run of `n` workers, from the moment `before` to the moment `run`. -/
structure WindsDown (n : Nat) (r : AssemblyRun ω) (c : Transport σ) (before run : ParallelRun σ ω) :
    Prop where
  /-- The run can be ended. -/
  canEnd : run.CanEnd r c (.atMost n)
  /-- Once the run is to stop, at most `n` more messages that start a node are delivered; nobody is
  told to go on; and when the run is over, each of those messages was answered. A test has no result
  unless it was told to go on before. -/
  stopped : before.shared.bus.delivery.stopped = true → ∃ os,
    run.shared.history = before.shared.history ++ os ∧
    (handed os).countP (·.event.isStarting) ≤ n ∧
    (∀ m goesOn, .queued m goesOn ∈ os → goesOn = false) ∧
    (∀ counts, run.counts? = some counts → ∀ m, m.event.isStarting = true →
      (handed os).count m ≤ os.count (.queued m false)) ∧
    ∀ ids, run.shared.delivered.countP (isResultOf ids) ≤
      before.shared.answers.countP (admits ids)
  /-- A run that stops at failures has at most `n` failed tests, and counts no more. -/
  failed : c.stopOnFail = true →
    run.shared.delivered.countP (·.event.isTestFailure) ≤ n ∧
    ∀ counts, run.counts? = some counts → counts.failed ≤ n
  /-- No node finishes before it started. -/
  bracketed : ∀ ids ms, ms <+: run.shared.delivered →
    (finishedIds ms).count ids ≤ (startedIds ms).count ids
  /-- When the run is over, every node that started has finished. -/
  paired : ∀ counts, run.counts? = some counts →
    (startedIds run.shared.delivered).Perm (finishedIds run.shared.delivered)
  /-- In a cancelled run nothing is told of a collection that has not started: with any other
  collections in its place, and so with collections that do nothing, the run is the same. -/
  unstarted : before.shared.cancelled = true → ∀ stage, before.stage.SameButUnstarted stage →
    ∀ turns,
      ((⟨stage, before.shared⟩ : ParallelRun σ ω).after r c (.atMost n) turns).shared =
        (before.after r c (.atMost n) turns).shared ∧
      ((⟨stage, before.shared⟩ : ParallelRun σ ω).after r c (.atMost n) turns).counts? =
        (before.after r c (.atMost n) turns).counts?

/-- **Every parallel run winds down**, on either kind of bus, with any sink, and in every
interleaving. -/
theorem windsDown (hlimit : r.parallelLimit? = some (.atMost n)) (c : Transport σ) (sink : σ)
    (world : ω) (turns more : List ParallelTurn) :
    WindsDown n r c ((start r sink world).after r c (.atMost n) turns)
      (((start r sink world).after r c (.atMost n) turns).after r c (.atMost n) more) := by
  have hadmits : (ConcurrencyLimit.atMost n).admits 0 = true := r.admits_of_parallelLimit? hlimit
  have hn : 0 < n := of_decide_eq_true hadmits
  have hlively : (((start r sink world).after r c (.atMost n) turns).after r c (.atMost n)
      more).Lively := ((Lively.start r sink world).after r c (.atMost n) turns).after r c _ more
  obtain ⟨hbefore, hafter⟩ := kept_after r c sink world hn turns more
  have hgoes : ((start r sink world).after r c (.atMost n) turns).shared.bus.delivery.stopped =
      true → ∃ os, Shared.Goes _ (((start r sink world).after r c (.atMost n) turns).after r c
        (.atMost n) more).shared os := fun h => exists_goes h more
  generalize hb : (start r sink world).after r c (.atMost n) turns = before at *
  generalize hrun : before.after r c (.atMost n) more = run at *
  have hkept := fun i => hafter i none (hbefore i)
  refine ⟨hlively.canEnd hadmits, fun hstopped => ?_, fun hstop => ?_, fun ids ms hms => ?_,
    fun counts hover => ?_, fun hcancelled stage hstage turns => ?_⟩
  · obtain ⟨os, hos⟩ := hgoes hstopped
    have hcredit := hafter r.ids _ ((hbefore r.ids).credit hstopped)
    exact ⟨os, hos.history_eq, hcredit.countP_starting_handed_le hos, hos.refused,
      fun _ hover _ hm => (hkept r.ids).count_handed_le (hbefore r.ids) hos hover hm,
      fun ids => (hkept ids).countP_results_le hos⟩
  · have hle : (tally run.shared.delivered).failed ≤ n := (hkept r.ids).failed_le hstop
    refine ⟨hle, fun counts hover => ?_⟩
    rw [← ((hkept r.ids).of_counts? hover).2.1]
    exact hle
  · exact (hkept ids).count_finishedIds_le hms
  · refine List.perm_iff_count.mpr fun ids => ?_
    exact ((hkept ids).of_counts? hover).1
  · have hsame : before.SameButUnstarted ⟨stage, before.shared⟩ := ⟨hstage, rfl, hcancelled⟩
    have hend : (before.after r c (.atMost n) turns).SameButUnstarted
        ((⟨stage, before.shared⟩ : ParallelRun σ ω).after r c (.atMost n) turns) :=
      hsame.after turns
    exact ⟨hend.shared_eq.symm, hend.counts?_eq.symm⟩

end ParallelRun

/-! ### Two collections that are open when the run is to stop

Nobody has registered the orderer of cases that is asked for. So each class tells of that before its
methods start, and the sink asks to stop when it is told for the first time. -/

namespace Untidy

/-- The two tallies with an orderer of cases that there is none of. -/
def run : AssemblyRun (String → Nat) :=
  { Tallies.run with setup := { Tallies.run.setup with
      options := { Tallies.run.setup.options with caseOrderer := some "missing" } } }

theorem parallelLimit?_run : run.parallelLimit? = some (.atMost 2) := rfl

/-- A sink that asks to stop at diagnostic messages, for a run that stops at failures. -/
def transport : Transport Unit where
  kind := .synchronous
  sink := fun _ m =>
    match m.event with
    | .diagnostic _ => ((), .stop)
    | _ => ((), .goOn)
  stopOnFail := true

/-- Both collections and their classes have started, and the first class has told of its orderer. -/
def stopped : ParallelRun Unit (String → Nat) :=
  (ParallelRun.start run () fun _ => 0).after run transport (.atMost 2)
    ([.caller, .caller, .take, .take] ++ List.replicate 4 (.worker 0) ++
      List.replicate 4 (.worker 1) ++ [.worker 0])

/-- The other class has told of its orderer too, and a method of each class has started. -/
def later : ParallelRun Unit (String → Nat) :=
  stopped.after run transport (.atMost 2)
    [.worker 1, .worker 0, .worker 1, .worker 0, .worker 1]

end Untidy

/-- As many nodes start after the run is to stop as there are workers. -/
theorem ParallelRun.windsDown_tallies :
    Untidy.run.parallelLimit? = some (.atMost 2) ∧
      Untidy.stopped.shared.bus.delivery.stopped = true ∧
      (openCollections Untidy.stopped.shared.delivered).length = 2 ∧
      (∃ os, Untidy.later.shared.history = Untidy.stopped.shared.history ++ os ∧
        (handed os).countP (·.event.isStarting) = 2) ∧
      WindsDown 2 Untidy.run Untidy.transport Untidy.stopped Untidy.later ∧
      ∃ more counts, (Untidy.later.after Untidy.run Untidy.transport (.atMost 2) more).counts? =
        some counts := by
  have hwinds : WindsDown 2 Untidy.run Untidy.transport Untidy.stopped Untidy.later :=
    windsDown Untidy.parallelLimit?_run Untidy.transport () (fun _ => 0) _ _
  have hfacts : Untidy.stopped.shared.bus.delivery.stopped = true ∧
      (openCollections Untidy.stopped.shared.delivered).length = 2 ∧
      (handed (Untidy.later.shared.history.drop Untidy.stopped.shared.history.length)).countP
        (·.event.isStarting) = 2 := by decide +kernel
  obtain ⟨hstopped, hopen, hstarting⟩ := hfacts
  obtain ⟨os, hhistory, -⟩ := hwinds.stopped hstopped
  rw [hhistory, List.drop_left] at hstarting
  exact ⟨Untidy.parallelLimit?_run, hstopped, hopen, ⟨os, hhistory, hstarting⟩, hwinds,
    hwinds.canEnd⟩

end TestEngine
