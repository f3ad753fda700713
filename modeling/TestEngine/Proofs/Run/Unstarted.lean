import Mathlib.Data.List.Forall2
import TestEngine.Proofs.Run.SerialRun
import TestEngine.Run.Parallel

/-!
# Collections that have not started

A worker that has taken a collection asks first whether the run is cancelled, and if so it does
nothing. So in a cancelled run nobody can tell what the collections are that have not started.

* `ParallelRun.SameButUnstarted` — two cancelled runs that differ only in such collections. Every
  turn keeps this.
-/

namespace TestEngine

open Process

variable {σ ω α : Type}

/-- Two threads of workers that are the same, unless neither of them has asked yet whether the run
is cancelled: then their collections may be different. -/
def Thread.SameOnceAsked (t t' : Thread ω Counts) : Prop :=
  t = t' ∨ ∃ p p', t = .ready (unlessCancelled p) ∧ t' = .ready (unlessCancelled p')

/-- Two stages that differ only in collections that have not started: those that wait for a worker,
and those whose worker has not asked yet whether the run is cancelled. -/
inductive ParallelStage.SameButUnstarted : ParallelStage ω → ParallelStage ω → Prop
  | opening (t : Thread ω (Option (List (Process ω Counts)))) :
      SameButUnstarted (.opening t) (.opening t)
  | inside {waiting waiting' : List (Process ω Counts)} {running running' : List (Thread ω Counts)}
      (hwaiting : waiting.length = waiting'.length)
      (hrunning : List.Forall₂ Thread.SameOnceAsked running running') (sum : Counts) :
      SameButUnstarted (.inside waiting running sum) (.inside waiting' running' sum)
  | closing (t : Thread ω Counts) : SameButUnstarted (.closing t) (.closing t)

/-- A worker whose run is cancelled makes the same step, whatever its collection is. -/
theorem Thread.SameOnceAsked.step {c : Transport σ} {t t' : Thread ω Counts} {sh : Shared σ ω}
    (h : t.SameOnceAsked t') (hcancelled : sh.cancelled = true) :
    t.value? = t'.value? ∧ t.step? c sh = t'.step? c sh := by
  rcases h with rfl | ⟨p, p', rfl, rfl⟩
  · exact ⟨rfl, rfl⟩
  · refine ⟨rfl, ?_⟩
    show some (ready (if sh.cancelled = true then pure 0 else p), sh) =
      some (ready (if sh.cancelled = true then pure 0 else p'), sh)
    rw [hcancelled]
    rfl

namespace ParallelRun

variable {r : AssemblyRun ω} {c : Transport σ} {limit : ConcurrencyLimit}

/-- Nobody takes the cancellation of a run back. -/
theorem cancelled_step {t t' : Thread ω α} {sh sh' : Shared σ ω} (h : sh.cancelled = true)
    (hs : t.step? c sh = some (t', sh')) : sh'.cancelled = true := by
  cases Thread.proceeds_of_step? hs with
  | deliver _ => exact Shared.cancelled_dispatch.trans h
  | cancel => rfl
  | note _ | ask | world | journal | send | answer _ => exact h

/-- Two runs that share the same, are cancelled, and differ only in collections that have not
started. -/
structure SameButUnstarted (run run' : ParallelRun σ ω) : Prop where
  stage : run.stage.SameButUnstarted run'.stage
  shared_eq : run.shared = run'.shared
  cancelled : run.shared.cancelled = true

section Places

variable {τ : Type} {R : τ → τ → Prop} {ts ts' : List τ}

theorem exists_getElem?_of_forall₂ (h : List.Forall₂ R ts ts') {place : Nat} {t : τ}
    (hplace : ts[place]? = some t) : ∃ t', ts'[place]? = some t' ∧ R t t' := by
  induction h generalizing place with
  | nil => cases hplace
  | @cons x x' _ _ hx _ ih =>
    cases place with
    | zero =>
      cases hplace
      exact ⟨x', rfl, hx⟩
    | succ place => exact ih hplace

theorem forall₂_eraseIdx (h : List.Forall₂ R ts ts') (place : Nat) :
    List.Forall₂ R (ts.eraseIdx place) (ts'.eraseIdx place) := by
  induction h generalizing place with
  | nil => exact .nil
  | cons hx hxs ih =>
    cases place with
    | zero => exact hxs
    | succ place => exact .cons hx (ih place)

theorem forall₂_set (h : List.Forall₂ R ts ts') (place : Nat) {t t' : τ} (ht : R t t') :
    List.Forall₂ R (ts.set place t) (ts'.set place t') := by
  induction h generalizing place with
  | nil => exact .nil
  | cons hx hxs ih =>
    cases place with
    | zero => exact .cons ht hxs
    | succ place => exact .cons hx (ih place)

end Places

theorem SameButUnstarted.stepWorker {run run' : ParallelRun σ ω} (h : run.SameButUnstarted run')
    (place : Nat) : (run.stepWorker c place).SameButUnstarted (run'.stepWorker c place) := by
  obtain ⟨stage, sh⟩ := run
  obtain ⟨stage', sh'⟩ := run'
  obtain ⟨hstage, rfl, hcancelled⟩ := h
  have hstage : stage.SameButUnstarted stage' := hstage
  have hcancelled : sh.cancelled = true := hcancelled
  cases hstage with
  | opening t => exact ⟨.opening t, rfl, hcancelled⟩
  | closing t => exact ⟨.closing t, rfl, hcancelled⟩
  | @inside waiting waiting' running running' hwaiting hrunning sum =>
    cases hplace : running[place]? with
    | none =>
      have hplace' : running'[place]? = none := by
        rw [List.getElem?_eq_none_iff] at hplace ⊢
        rw [← hrunning.length_eq]
        exact hplace
      simp only [ParallelRun.stepWorker, hplace, hplace']
      exact ⟨.inside hwaiting hrunning sum, rfl, hcancelled⟩
    | some t =>
      obtain ⟨t', hplace', ht⟩ := exists_getElem?_of_forall₂ hrunning hplace
      -- both have ended, or both do the same, which is to give up if nobody has asked yet
      obtain ⟨hvalue, hstep⟩ := ht.step (c := c) hcancelled
      simp only [ParallelRun.stepWorker, hplace, hplace', ← hvalue, ← hstep]
      cases hended : t.value? with
      | some counts =>
        exact ⟨.inside hwaiting (forall₂_eraseIdx hrunning place) _, rfl, hcancelled⟩
      | none =>
        cases hs : t.step? c sh with
        | none => exact ⟨.inside hwaiting hrunning sum, rfl, hcancelled⟩
        | some next =>
          exact ⟨.inside hwaiting (forall₂_set hrunning place (.inl rfl)) sum, rfl,
            cancelled_step hcancelled hs⟩

theorem SameButUnstarted.stepCaller {run run' : ParallelRun σ ω} (h : run.SameButUnstarted run') :
    (run.stepCaller r c).SameButUnstarted (run'.stepCaller r c) := by
  obtain ⟨stage, sh⟩ := run
  obtain ⟨stage', sh'⟩ := run'
  obtain ⟨hstage, rfl, hcancelled⟩ := h
  have hstage : stage.SameButUnstarted stage' := hstage
  have hcancelled : sh.cancelled = true := hcancelled
  cases hstage with
  | opening t =>
    cases hvalue : t.value? with
    | some found =>
      cases found with
      | none =>
        simp only [ParallelRun.stepCaller, hvalue]
        exact ⟨.closing _, rfl, hcancelled⟩
      | some runs =>
        simp only [ParallelRun.stepCaller, hvalue]
        exact ⟨.inside rfl .nil 0, rfl, hcancelled⟩
    | none =>
      cases hs : t.step? c sh with
      | none =>
        simp only [ParallelRun.stepCaller, hvalue, hs]
        exact ⟨.opening t, rfl, hcancelled⟩
      | some next =>
        simp only [ParallelRun.stepCaller, hvalue, hs]
        exact ⟨.opening _, rfl, cancelled_step hcancelled hs⟩
  | closing t =>
    cases hs : t.step? c sh with
    | none =>
      simp only [ParallelRun.stepCaller, hs]
      exact ⟨.closing t, rfl, hcancelled⟩
    | some next =>
      simp only [ParallelRun.stepCaller, hs]
      exact ⟨.closing _, rfl, cancelled_step hcancelled hs⟩
  | @inside waiting waiting' running running' hwaiting hrunning sum =>
    cases waiting with
    | cons p waiting =>
      cases waiting' with
      | nil => cases hwaiting
      | cons p' waiting' => exact ⟨.inside hwaiting hrunning sum, rfl, hcancelled⟩
    | nil =>
      cases waiting' with
      | cons p' waiting' => cases hwaiting
      | nil =>
        cases hrunning with
        | nil => exact ⟨.closing _, rfl, hcancelled⟩
        | cons ht hrunning => exact ⟨.inside rfl (.cons ht hrunning) sum, rfl, hcancelled⟩

theorem SameButUnstarted.stepTake {run run' : ParallelRun σ ω} (h : run.SameButUnstarted run') :
    (run.stepTake limit).SameButUnstarted (run'.stepTake limit) := by
  obtain ⟨stage, sh⟩ := run
  obtain ⟨stage', sh'⟩ := run'
  obtain ⟨hstage, rfl, hcancelled⟩ := h
  have hstage : stage.SameButUnstarted stage' := hstage
  have hcancelled : sh.cancelled = true := hcancelled
  cases hstage with
  | opening t => exact ⟨.opening t, rfl, hcancelled⟩
  | closing t => exact ⟨.closing t, rfl, hcancelled⟩
  | @inside waiting waiting' running running' hwaiting hrunning sum =>
    cases waiting with
    | nil =>
      cases waiting' with
      | nil => exact ⟨.inside hwaiting hrunning sum, rfl, hcancelled⟩
      | cons p' waiting' => cases hwaiting
    | cons p waiting =>
      cases waiting' with
      | nil => cases hwaiting
      | cons p' waiting' =>
        simp only [ParallelRun.stepTake, ← hrunning.length_eq]
        split
        · refine ⟨.inside (Nat.succ.inj hwaiting) (List.rel_append hrunning ?_) sum, rfl,
            hcancelled⟩
          exact .cons (.inr ⟨p, p', rfl, rfl⟩) .nil
        · exact ⟨.inside hwaiting hrunning sum, rfl, hcancelled⟩

theorem SameButUnstarted.turn {run run' : ParallelRun σ ω} (h : run.SameButUnstarted run')
    (x : ParallelTurn) : (run.turn r c limit x).SameButUnstarted (run'.turn r c limit x) := by
  cases x with
  | caller => exact h.stepCaller
  | take => exact h.stepTake
  | worker place => exact h.stepWorker place
  | dispatcher =>
    exact ⟨h.stage, congrArg (Shared.dispatch c) h.shared_eq,
      Shared.cancelled_dispatch.trans h.cancelled⟩

/-- **In a cancelled run it makes no difference what the collections are that have not started.** -/
theorem SameButUnstarted.after {run run' : ParallelRun σ ω} (h : run.SameButUnstarted run')
    (turns : List ParallelTurn) :
    (run.after r c limit turns).SameButUnstarted (run'.after r c limit turns) := by
  induction turns generalizing run run' with
  | nil => exact h
  | cons x turns ih => exact ih (h.turn x)

/-- They answer the same as well. -/
theorem SameButUnstarted.counts?_eq {run run' : ParallelRun σ ω} (h : run.SameButUnstarted run') :
    run.counts? = run'.counts? := by
  obtain ⟨stage, sh⟩ := run
  obtain ⟨stage', sh'⟩ := run'
  obtain ⟨hstage, rfl, -⟩ := h
  have hstage : stage.SameButUnstarted stage' := hstage
  cases hstage <;> rfl

end ParallelRun

end TestEngine
