import TestEngine.Proofs.Run.SerialRun
import TestEngine.Run.Parallel

/-!
# Laws about the crew of a parallel run

A parallel run has one thread after another that opens it and ends it, and in between a *crew*: the
threads of the collections that run and of those that are yet to be taken. A law about the crew, and
about what its threads share, is kept by a run if it is kept by a step of a single thread, by the
dispatcher, and when a thread has ended. It makes no difference to a law when a collection is taken,
since it was one of the crew before.

* `CrewLaw` — a law with what shows that it is kept.
* `CrewLaw.holds_after` — it holds throughout a parallel run.
-/

namespace TestEngine

variable {σ ω : Type}

/-- The thread of a collection that is yet to be taken. -/
def Process.beginning (p : Process ω Counts) : Thread ω Counts := .ready (unlessCancelled p)

/-- A law about the threads of a parallel run and about what they share. -/
structure CrewLaw (r : AssemblyRun ω) (c : Transport σ) where
  /-- The law while the calling thread opens the run. -/
  opening : Thread ω (Option (List (Process ω Counts))) → Shared σ ω → Prop
  /-- The law about a crew. -/
  crew : List (Thread ω Counts) → Shared σ ω → Prop
  /-- The law while the calling thread ends the run. -/
  closing : Thread ω Counts → Shared σ ω → Prop
  opening_step : ∀ {t t' sh sh'}, opening t sh → t.step? c sh = some (t', sh') → opening t' sh'
  opening_dispatch : ∀ {t sh}, opening t sh → opening t (sh.dispatch c)
  opens : ∀ {runs sh}, opening (.ready (.done (some runs))) sh → crew (runs.map (·.beginning)) sh
  skips : ∀ {sh}, opening (.ready (.done none)) sh → closing (.ready (r.closing 0)) sh
  crew_step : ∀ {before after t t' sh sh'}, crew (before ++ t :: after) sh →
    t.step? c sh = some (t', sh') → crew (before ++ t' :: after) sh'
  crew_dispatch : ∀ {ts sh}, crew ts sh → crew ts (sh.dispatch c)
  leaves : ∀ {before after counts sh}, crew (before ++ .ready (.done counts) :: after) sh →
    crew (before ++ after) sh
  closes : ∀ {sh}, crew [] sh → ∀ sum, closing (.ready (r.closing sum)) sh
  closing_step : ∀ {t t' sh sh'}, closing t sh → t.step? c sh = some (t', sh') → closing t' sh'
  closing_dispatch : ∀ {t sh}, closing t sh → closing t (sh.dispatch c)

/-- What is at a place of a list, with what stands around it. -/
theorem exists_split_of_getElem?_eq {α : Type} {xs : List α} {x : α} {place : Nat}
    (h : xs[place]? = some x) :
    ∃ before after, xs = before ++ x :: after ∧ place = before.length := by
  obtain ⟨hlt, rfl⟩ := List.getElem?_eq_some_iff.mp h
  refine ⟨xs.take place, xs.drop (place + 1), ?_, ?_⟩
  · rw [List.getElem_cons_drop, List.take_append_drop]
  · rw [List.length_take, Nat.min_eq_left (Nat.le_of_lt hlt)]

namespace CrewLaw

variable {r : AssemblyRun ω} {c : Transport σ} (L : CrewLaw r c) {run : ParallelRun σ ω}

/-- The law as it is where a run stands. -/
def Holds (run : ParallelRun σ ω) : Prop :=
  match run.stage with
  | .opening t => L.opening t run.shared
  | .inside waiting running _ => L.crew (running ++ waiting.map (·.beginning)) run.shared
  | .closing t => L.closing t run.shared

variable {L}

namespace Holds

theorem dispatch (h : L.Holds run) : L.Holds { run with shared := run.shared.dispatch c } := by
  obtain ⟨stage, sh⟩ := run
  cases stage with
  | opening t => exact L.opening_dispatch h
  | inside waiting running sum => exact L.crew_dispatch h
  | closing t => exact L.closing_dispatch h

theorem stepCaller (h : L.Holds run) : L.Holds (run.stepCaller r c) := by
  obtain ⟨stage, sh⟩ := run
  cases stage with
  | opening t =>
    cases hvalue : t.value? with
    | some found =>
      obtain rfl := Thread.eq_of_value? hvalue
      cases found with
      | some runs => exact L.opens h
      | none => exact L.skips h
    | none =>
      cases hs : t.step? c sh with
      | none =>
        simp only [ParallelRun.stepCaller, hvalue, hs]
        exact h
      | some next =>
        simp only [ParallelRun.stepCaller, hvalue, hs]
        exact L.opening_step h hs
  | inside waiting running sum =>
    cases running with
    | cons t running => cases waiting <;> exact h
    | nil =>
      cases waiting with
      | cons p waiting => exact h
      | nil => exact L.closes h sum
  | closing t =>
    cases hs : t.step? c sh with
    | none =>
      simp only [ParallelRun.stepCaller, hs]
      exact h
    | some next =>
      simp only [ParallelRun.stepCaller, hs]
      exact L.closing_step h hs

/-- A collection that is taken was one of the crew before. -/
theorem stepTake (limit : ConcurrencyLimit) (h : L.Holds run) : L.Holds (run.stepTake limit) := by
  obtain ⟨stage, sh⟩ := run
  cases stage with
  | opening _ | closing _ => exact h
  | inside waiting running sum =>
    cases waiting with
    | nil => exact h
    | cons p waiting =>
      cases hadmits : limit.admits running.length with
      | false =>
        simp only [ParallelRun.stepTake, hadmits]
        exact h
      | true =>
        simp only [ParallelRun.stepTake, hadmits, if_true]
        show L.crew ((running ++ [p.beginning]) ++ waiting.map (·.beginning)) sh
        rw [List.append_assoc]
        exact h

theorem stepWorker (h : L.Holds run) (place : Nat) : L.Holds (run.stepWorker c place) := by
  obtain ⟨stage, sh⟩ := run
  cases stage with
  | opening _ | closing _ => exact h
  | inside waiting running sum =>
    have hcrew : L.crew (running ++ waiting.map (·.beginning)) sh := h
    cases hplace : running[place]? with
    | none =>
      simp only [ParallelRun.stepWorker, hplace]
      exact h
    | some t =>
      obtain ⟨before, after, rfl, rfl⟩ := exists_split_of_getElem?_eq hplace
      rw [List.append_assoc, List.cons_append] at hcrew
      cases hvalue : t.value? with
      | some counts =>
        obtain rfl := Thread.eq_of_value? hvalue
        simp only [ParallelRun.stepWorker, hplace, hvalue]
        show L.crew (_ ++ _) sh
        rw [List.eraseIdx_append_of_length_le (Nat.le_refl _), Nat.sub_self,
          List.eraseIdx_cons_zero, List.append_assoc]
        exact L.leaves hcrew
      | none =>
        cases hs : t.step? c sh with
        | none =>
          simp only [ParallelRun.stepWorker, hplace, hvalue, hs]
          exact h
        | some next =>
          simp only [ParallelRun.stepWorker, hplace, hvalue, hs]
          show L.crew (_ ++ _) next.2
          rw [List.set_append_right _ _ (Nat.le_refl _), Nat.sub_self, List.set_cons_zero,
            List.append_assoc, List.cons_append]
          exact L.crew_step hcrew hs

theorem turn (limit : ConcurrencyLimit) (h : L.Holds run) (x : ParallelTurn) :
    L.Holds (run.turn r c limit x) := by
  cases x with
  | caller => exact h.stepCaller
  | take => exact h.stepTake limit
  | worker place => exact h.stepWorker place
  | dispatcher => exact h.dispatch

end Holds

/-- **A law that holds at the beginning of a parallel run holds throughout.** -/
theorem holds_after (L : CrewLaw r c) {sink : σ} {world : ω}
    (h : L.opening (.ready r.opening) (.start sink world)) (limit : ConcurrencyLimit)
    (turns : List ParallelTurn) :
    L.Holds ((ParallelRun.start r sink world).after r c limit turns) :=
  List.foldlRecOn turns (ParallelRun.turn r c limit) h fun _ h x _ => h.turn limit x

end CrewLaw

end TestEngine
