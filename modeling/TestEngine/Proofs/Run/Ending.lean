import TestEngine.Proofs.Run.Progress
import TestEngine.Run.Parallel

/-!
# Parallel runs can be ended

Nothing that a thread of a parallel run waits for can fail to come: a message that it has sent is
delivered, and a worker that has a collection runs it to its end. So whatever the workers and the
dispatcher did so far, the run can be ended, if there is a worker at all.

* `ParallelRun.Lively` — what every thread waits for was sent. Every turn keeps this.
* `ParallelRun.Lively.canEnd` — such a run can be ended.
-/

namespace TestEngine

variable {σ ω : Type}

/-- The messages that the threads of a stage wait for were sent. -/
def ParallelStage.Served (sh : Shared σ ω) : ParallelStage ω → Prop
  | .opening t => t.Served sh
  | .inside _ running _ => ∀ t ∈ running, t.Served sh
  | .closing t => t.Served sh

namespace ParallelRun

variable {r : AssemblyRun ω} {c : Transport σ} {limit : ConcurrencyLimit} {α : Type}
  {run : ParallelRun σ ω}

theorem after_append (run : ParallelRun σ ω) (turns more : List ParallelTurn) :
    run.after r c limit (turns ++ more) = (run.after r c limit turns).after r c limit more :=
  List.foldl_append

/-! ## What every thread waits for -/

/-- The bus counts its messages, and what the threads wait for was sent. -/
structure Lively (run : ParallelRun σ ω) : Prop where
  counted : run.shared.Counted
  served : run.stage.Served run.shared

namespace Lively

theorem start (r : AssemblyRun ω) (sink : σ) (world : ω) :
    (ParallelRun.start r sink world).Lively := ⟨rfl, Thread.served_ready _⟩

theorem dispatch (h : run.Lively) : ({ run with shared := run.shared.dispatch c } :
    ParallelRun σ ω).Lively where
  counted := h.counted.dispatch
  served := by
    have hle : run.shared.bus.sent ≤ (run.shared.dispatch c).bus.sent :=
      Nat.le_of_eq Shared.sent_dispatch.symm
    obtain ⟨stage, sh⟩ := run
    have hserved : stage.Served sh := h.served
    cases stage with
    | opening t => exact Thread.Served.mono hserved hle
    | inside waiting running sum => exact fun t ht => (hserved t ht).mono hle
    | closing t => exact Thread.Served.mono hserved hle

theorem stepCaller (h : run.Lively) : (run.stepCaller r c).Lively := by
  obtain ⟨stage, sh⟩ := run
  have hserved : stage.Served sh := h.served
  cases stage with
  | opening t =>
    cases hvalue : t.value? with
    | some found =>
      cases found with
      | some runs =>
        simp only [ParallelRun.stepCaller, hvalue]
        exact ⟨h.counted, List.forall_mem_nil _⟩
      | none =>
        simp only [ParallelRun.stepCaller, hvalue]
        exact ⟨h.counted, Thread.served_ready _⟩
    | none =>
      cases hs : t.step? c sh with
      | none =>
        simp only [ParallelRun.stepCaller, hvalue, hs]
        exact h
      | some next =>
        obtain ⟨hcounted, -, hnext⟩ := Thread.counted_step h.counted hs
        simp only [ParallelRun.stepCaller, hvalue, hs]
        exact ⟨hcounted, hnext⟩
  | inside waiting running sum =>
    cases waiting with
    | cons p waiting => exact h
    | nil =>
      cases running with
      | cons t running => exact h
      | nil => exact ⟨h.counted, Thread.served_ready _⟩
  | closing t =>
    cases hs : t.step? c sh with
    | none =>
      simp only [ParallelRun.stepCaller, hs]
      exact h
    | some next =>
      obtain ⟨hcounted, -, hnext⟩ := Thread.counted_step h.counted hs
      simp only [ParallelRun.stepCaller, hs]
      exact ⟨hcounted, hnext⟩

theorem stepTake (h : run.Lively) : (run.stepTake limit).Lively := by
  obtain ⟨stage, sh⟩ := run
  have hserved : stage.Served sh := h.served
  cases stage with
  | opening t => exact h
  | closing t => exact h
  | inside waiting running sum =>
    cases waiting with
    | nil => exact h
    | cons p waiting =>
      simp only [ParallelRun.stepTake]
      split
      · refine ⟨h.counted, List.forall_mem_append.mpr ⟨hserved, ?_⟩⟩
        exact List.forall_mem_singleton.mpr (Thread.served_ready _)
      · exact h

theorem stepWorker (h : run.Lively) (place : Nat) : (run.stepWorker c place).Lively := by
  obtain ⟨stage, sh⟩ := run
  have hserved : stage.Served sh := h.served
  cases stage with
  | opening t => exact h
  | closing t => exact h
  | inside waiting running sum =>
    cases hplace : running[place]? with
    | none =>
      simp only [ParallelRun.stepWorker, hplace]
      exact h
    | some t =>
      cases hvalue : t.value? with
      | some counts =>
        simp only [ParallelRun.stepWorker, hplace, hvalue]
        exact ⟨h.counted, fun t ht => hserved t (List.mem_of_mem_eraseIdx ht)⟩
      | none =>
        cases hs : t.step? c sh with
        | none =>
          simp only [ParallelRun.stepWorker, hplace, hvalue, hs]
          exact h
        | some next =>
          obtain ⟨hcounted, hle, hnext⟩ := Thread.counted_step h.counted hs
          simp only [ParallelRun.stepWorker, hplace, hvalue, hs]
          refine ⟨hcounted, fun t' ht' => ?_⟩
          rcases List.mem_or_eq_of_mem_set ht' with hold | rfl
          · exact (hserved t' hold).mono hle
          · exact hnext

theorem turn (h : run.Lively) (x : ParallelTurn) : (run.turn r c limit x).Lively := by
  cases x with
  | caller => exact h.stepCaller
  | take => exact h.stepTake
  | worker place => exact h.stepWorker place
  | dispatcher => exact h.dispatch

theorem after (r : AssemblyRun ω) (c : Transport σ) (limit : ConcurrencyLimit) (h : run.Lively)
    (turns : List ParallelTurn) : (run.after r c limit turns).Lively :=
  List.foldlRecOn turns (ParallelRun.turn r c limit) h fun _ h x _ => h.turn x

end Lively

/-! ## One thread after the other -/

/-- The run can be ended. -/
def CanEnd (r : AssemblyRun ω) (c : Transport σ) (limit : ConcurrencyLimit)
    (run : ParallelRun σ ω) : Prop :=
  ∃ more counts, (run.after r c limit more).counts? = some counts

theorem CanEnd.of_after (turns : List ParallelTurn)
    (h : (run.after r c limit turns).CanEnd r c limit) : run.CanEnd r c limit := by
  obtain ⟨more, counts, hover⟩ := h
  refine ⟨turns ++ more, counts, ?_⟩
  rw [after_append]
  exact hover

/-- What a thread can do alone with the dispatcher, it can do as a part of the run. -/
theorem exists_turns (r : AssemblyRun ω) (limit : ConcurrencyLimit)
    {stageOf : Thread ω α → ParallelStage ω} {x : ParallelTurn}
    (hstep : ∀ t sh t' sh', t.step? c sh = some (t', sh') →
      (⟨stageOf t, sh⟩ : ParallelRun σ ω).turn r c limit x = ⟨stageOf t', sh'⟩)
    (turns : List SoloTurn) (solo : SoloRun σ ω α) :
    ∃ more, (⟨stageOf solo.thread, solo.shared⟩ : ParallelRun σ ω).after r c limit more =
      ⟨stageOf (solo.after c turns).thread, (solo.after c turns).shared⟩ := by
  induction turns generalizing solo with
  | nil => exact ⟨[], rfl⟩
  | cons y turns ih =>
    obtain ⟨more, hmore⟩ := ih (solo.turn c y)
    have hcons : solo.after c (y :: turns) = (solo.turn c y).after c turns := rfl
    rw [hcons]
    cases y with
    | dispatcher => exact ⟨.dispatcher :: more, hmore⟩
    | thread =>
      cases hs : solo.thread.step? c solo.shared with
      | none =>
        have hsame : solo.turn c .thread = solo := by simp only [SoloRun.turn, hs]
        rw [hsame] at hmore ⊢
        exact ⟨more, hmore⟩
      | some next =>
        have hnext : solo.turn c .thread = ⟨next.1, next.2⟩ := by simp only [SoloRun.turn, hs]
        rw [hnext] at hmore ⊢
        refine ⟨x :: more, ?_⟩
        rw [← hmore, ← hstep _ _ _ _ hs]
        rfl

/-- A part of a run that is on one thread can go on to its end. -/
theorem exists_done (r : AssemblyRun ω) (limit : ConcurrencyLimit)
    {stageOf : Thread ω α → ParallelStage ω} {x : ParallelTurn}
    (hstep : ∀ t sh t' sh', t.step? c sh = some (t', sh') →
      (⟨stageOf t, sh⟩ : ParallelRun σ ω).turn r c limit x = ⟨stageOf t', sh'⟩)
    {t : Thread ω α} {sh : Shared σ ω} (h : (⟨t, sh⟩ : SoloRun σ ω α).Counted) :
    ∃ more value sh', (⟨stageOf t, sh⟩ : ParallelRun σ ω).after r c limit more =
      ⟨stageOf (.ready (.done value)), sh'⟩ := by
  obtain ⟨turns, value, hdone⟩ := h.exists_done (c := c)
  obtain ⟨more, hmore⟩ := exists_turns r limit hstep turns ⟨t, sh⟩
  rw [hdone] at hmore
  exact ⟨more, value, _, hmore⟩

theorem stepCaller_opening {t t' : Thread ω (Option (List (Process ω Counts)))}
    {sh sh' : Shared σ ω} (hs : t.step? c sh = some (t', sh')) :
    (⟨.opening t, sh⟩ : ParallelRun σ ω).turn r c limit .caller = ⟨.opening t', sh'⟩ := by
  simp only [turn, stepCaller, Thread.value?_eq_none hs, hs]

theorem stepCaller_closing {t t' : Thread ω Counts} {sh sh' : Shared σ ω}
    (hs : t.step? c sh = some (t', sh')) :
    (⟨.closing t, sh⟩ : ParallelRun σ ω).turn r c limit .caller = ⟨.closing t', sh'⟩ := by
  simp only [turn, stepCaller, hs]

/-- A worker makes a step at its place. -/
theorem stepWorker_set {waiting : List (Process ω Counts)} {running : List (Thread ω Counts)}
    {sum : Counts} {place : Nat} (hplace : place < running.length) {t t' : Thread ω Counts}
    {sh sh' : Shared σ ω} (hs : t.step? c sh = some (t', sh')) :
    (⟨.inside waiting (running.set place t) sum, sh⟩ : ParallelRun σ ω).turn r c limit
      (.worker place) = ⟨.inside waiting (running.set place t') sum, sh'⟩ := by
  simp only [turn, stepWorker, List.getElem?_set_self hplace, Thread.value?_eq_none hs, hs,
    List.set_set]

/-! ## To the end -/

namespace Lively

variable {sh : Shared σ ω}

/-- The run can be ended when the calling thread does so. -/
theorem canEnd_closing {t : Thread ω Counts} (h : (⟨.closing t, sh⟩ : ParallelRun σ ω).Lively) :
    (⟨.closing t, sh⟩ : ParallelRun σ ω).CanEnd r c limit := by
  have hstep : ∀ (t : Thread ω Counts) (sh : Shared σ ω) t' sh', t.step? c sh = some (t', sh') →
      (⟨.closing t, sh⟩ : ParallelRun σ ω).turn r c limit .caller = ⟨.closing t', sh'⟩ :=
    fun _ _ _ _ => stepCaller_closing
  obtain ⟨turns, counts, sh', hdone⟩ := exists_done r limit hstep ⟨h.counted, h.served⟩
  obtain ⟨last, ht, hdrained⟩ := SoloRun.exists_drained c ⟨.ready (.done counts), sh'⟩
  obtain ⟨more, hmore⟩ := exists_turns r limit hstep last ⟨.ready (.done counts), sh'⟩
  refine .of_after turns ⟨more, counts, ?_⟩
  rw [hdone, hmore]
  simp only [ParallelRun.counts?, Shared.isDrained, hdrained, ht]
  rfl

/-- The first of the collections that run can be ended. -/
theorem exists_first_ended (r : AssemblyRun ω) (c : Transport σ) (limit : ConcurrencyLimit)
    {waiting : List (Process ω Counts)} {t : Thread ω Counts} {running : List (Thread ω Counts)}
    {sum : Counts} (h : (⟨.inside waiting (t :: running) sum, sh⟩ : ParallelRun σ ω).Lively) :
    ∃ more sum' sh',
      (⟨.inside waiting (t :: running) sum, sh⟩ : ParallelRun σ ω).after r c limit more =
        ⟨.inside waiting running sum', sh'⟩ := by
  have hstep : ∀ (t : Thread ω Counts) (sh : Shared σ ω) t' sh', t.step? c sh = some (t', sh') →
      (⟨.inside waiting (t :: running) sum, sh⟩ : ParallelRun σ ω).turn r c limit (.worker 0) =
        ⟨.inside waiting (t' :: running) sum, sh'⟩ :=
    fun _ _ _ _ => stepWorker_set (show 0 < (t :: running).length from Nat.zero_lt_succ _)
  obtain ⟨turns, counts, sh', hdone⟩ := exists_done r limit hstep
    ⟨h.counted, h.served t List.mem_cons_self⟩
  refine ⟨turns ++ [.worker 0], sum + counts, sh', ?_⟩
  rw [after_append, hdone]
  rfl

/-- The run can be ended while the collections run. -/
theorem canEnd_inside (hadmits : limit.admits 0 = true)
    {waiting : List (Process ω Counts)} {running : List (Thread ω Counts)} {sum : Counts}
    (h : (⟨.inside waiting running sum, sh⟩ : ParallelRun σ ω).Lively) :
    (⟨.inside waiting running sum, sh⟩ : ParallelRun σ ω).CanEnd r c limit := by
  -- on the number of collections that have not ended; the first one that runs is ended next
  generalize hn : waiting.length + running.length = n
  induction n generalizing waiting running sum sh with
  | zero =>
    obtain rfl : waiting = [] := List.eq_nil_of_length_eq_zero (by omega)
    obtain rfl : running = [] := List.eq_nil_of_length_eq_zero (by omega)
    have hclosed : ((⟨.inside [] [] sum, sh⟩ : ParallelRun σ ω).turn r c limit .caller).Lively :=
      h.turn .caller
    exact .of_after [.caller] (canEnd_closing hclosed)
  | succ n ih =>
    have hfirst : ∀ {waiting : List (Process ω Counts)} {t : Thread ω Counts}
        {running : List (Thread ω Counts)} {sum : Counts} {sh : Shared σ ω},
        waiting.length + running.length = n →
        (⟨.inside waiting (t :: running) sum, sh⟩ : ParallelRun σ ω).Lively →
          (⟨.inside waiting (t :: running) sum, sh⟩ : ParallelRun σ ω).CanEnd r c limit := by
      intro waiting t running sum sh hn h
      obtain ⟨turns, sum', sh', hended⟩ := h.exists_first_ended r c limit
      have hafter := h.after r c limit turns
      rw [hended] at hafter
      refine .of_after turns ?_
      rw [hended]
      exact ih hafter hn
    cases running with
    | cons t running => exact hfirst (by simp only [List.length_cons] at hn; omega) h
    | nil =>
      cases waiting with
      | nil => cases hn
      | cons p waiting =>
        have htaken : (⟨.inside (p :: waiting) [] sum, sh⟩ : ParallelRun σ ω).after r c limit
            [.take] = ⟨.inside waiting [.ready (unlessCancelled p)] sum, sh⟩ := by
          simp only [ParallelRun.after, List.foldl_cons, List.foldl_nil, ParallelRun.turn,
            ParallelRun.stepTake, List.length_nil, hadmits, if_true, List.nil_append]
        have htake := h.after r c limit [.take]
        rw [htaken] at htake
        refine .of_after [.take] ?_
        rw [htaken]
        exact hfirst (by simpa using hn) htake

/-- **Every parallel run can be ended**, if there is a worker. -/
theorem canEnd (hadmits : limit.admits 0 = true) (h : run.Lively) : run.CanEnd r c limit := by
  obtain ⟨stage, sh⟩ := run
  cases stage with
  | closing t => exact h.canEnd_closing
  | inside waiting running sum => exact h.canEnd_inside hadmits
  | opening t =>
    obtain ⟨turns, found, sh', hdone⟩ := exists_done r limit
      (fun _ _ _ _ => stepCaller_opening (c := c)) ⟨h.counted, h.served⟩
    have hopened := h.after r c limit (turns ++ [.caller])
    rw [after_append, hdone] at hopened
    refine .of_after (turns ++ [.caller]) ?_
    rw [after_append, hdone]
    cases found with
    | some runs => exact canEnd_inside hadmits hopened
    | none => exact canEnd_closing hopened

end Lively

end ParallelRun

end TestEngine
