import Mathlib.Logic.Function.Basic
import TestEngine.Scheduler.Workshop

/-!
# What a turn can change

A runner is known by the units that it has begun and not finished, the one that it runs first. What
any turn does to them, to what waits and to the history is one of nine kinds of changes, `Shift`.

* `Workshop.shift_turn` — every turn is such a change.
-/

namespace TestEngine

/-- The units that a thread has begun, the one that it runs first. -/
def WorkThread.jobs (t : WorkThread) : List Job := t.job :: t.callers

namespace Workshop

/-! ## Who has begun what -/

/-- The units that a runner has begun, the one that it runs first. -/
def jobsOf (crew : List (Runner × WorkThread)) (r : Runner) : List Job :=
  ((crew.lookup r).map WorkThread.jobs).getD []

/-- The numbers of the units that a runner has begun. -/
def ticketsOf (crew : List (Runner × WorkThread)) (r : Runner) : List Nat :=
  (jobsOf crew r).map (·.ticket)

def jobs (w : Workshop) : Runner → List Job := jobsOf w.crew

def stack (w : Workshop) : Runner → List Nat := ticketsOf w.crew

theorem stack_apply (w : Workshop) (r : Runner) : w.stack r = (w.jobs r).map (·.ticket) := rfl

section Crews

variable {crew : List (Runner × WorkThread)} {r : Runner} {t : WorkThread}

theorem jobsOf_of_lookup (h : crew.lookup r = some t) : jobsOf crew r = t.jobs := by
  rw [jobsOf, h]
  rfl

/-- Who has begun nothing is not in the crew. -/
theorem jobsOf_eq_nil_iff : jobsOf crew r = [] ↔ crew.lookup r = none := by
  cases h : crew.lookup r with
  | none => simp [jobsOf, h]
  | some t => simp [jobsOf, h, WorkThread.jobs]

theorem jobsOf_put (r : Runner) (t : WorkThread) (crew : List (Runner × WorkThread)) :
    jobsOf (Keyed.put r t crew) = Function.update (jobsOf crew) r t.jobs := by
  funext r'
  rw [jobsOf, Keyed.lookup_put, Function.update_apply]
  split
  · rfl
  · rfl

theorem jobsOf_remove (r : Runner) (crew : List (Runner × WorkThread)) :
    jobsOf (Keyed.remove r crew) = Function.update (jobsOf crew) r [] := by
  funext r'
  rw [jobsOf, Keyed.lookup_remove, Function.update_apply]
  split
  · rfl
  · rfl

/-- A thread that has finished a unit goes on with the one that posted it. -/
theorem jobsOf_reassign_return (r : Runner) (t : WorkThread)
    (crew : List (Runner × WorkThread)) :
    jobsOf (reassign r crew t.return?) = Function.update (jobsOf crew) r t.callers := by
  obtain ⟨place, job, callers⟩ := t
  cases callers with
  | nil => exact jobsOf_remove r crew
  | cons caller callers => exact jobsOf_put r _ crew

theorem lookup_map_release (crew : List (Runner × WorkThread)) (r : Runner) :
    (crew.map fun (r, t) => (r, t.release)).lookup r =
      (crew.lookup r).map WorkThread.release := by
  induction crew with
  | nil => rfl
  | cons entry rest ih =>
    obtain ⟨r', t⟩ := entry
    simp only [List.map_cons, List.lookup_cons, ih]
    split <;> rfl

end Crews

/-! ## Changes -/

/-- A thread posts the unit `child`: one from outside that runs nothing, or one that runs the unit
that does it. The lists are what it has begun, before and afterwards. -/
inductive Posting (r : Runner) (child : Work) : Option Nat → List Job → List Job → Prop
  | outside : r.place = .caller → Posting r child none [] []
  | inside {k next below} :
    Posting r child (some k) (⟨k, .post child next⟩ :: below) (⟨k, next⟩ :: below)

/-- What a turn can change. -/
inductive Shift (w : Workshop) : Workshop → Prop
  /-- A unit is posted and waits. -/
  | queued {r child during after crew} (hopen : w.closed = false)
      (hposting : Posting r child during (w.jobs r) after)
      (hcrew : jobsOf crew = Function.update w.jobs r after) :
      Shift w { w with
        queue := w.queue ++ [⟨w.posted.length, child⟩]
        crew
        posted := w.posted ++ [child]
        history := w.history ++ [.work r during (.posted w.posted.length true)] }
  /-- A unit is posted and runs at once. -/
  | inline {r child during after crew} (hclosed : w.closed = true)
      (hposting : Posting r child during (w.jobs r) after)
      (hcrew : jobsOf crew = Function.update w.jobs r (⟨w.posted.length, child⟩ :: after)) :
      Shift w { w with
        crew
        posted := w.posted ++ [child]
        history := w.history ++ [.work r during (.posted w.posted.length false),
          .work r during (.started w.posted.length r.place)] }
  /-- A free worker takes a unit. -/
  | taken {n job crew} (hfree : w.jobs (.worker n) = []) (hnext : w.next? n = some job)
      (hcrew : jobsOf crew = Function.update w.jobs (.worker n) [job]) :
      Shift w { w with
        queue := w.queue.eraseP (·.ticket = job.ticket)
        crew
        history := w.history ++ [.work (.worker n) none (.started job.ticket .worker)] }
  /-- A unit leaves an entry in the log. -/
  | logged {r k entry next below crew} (hjobs : w.jobs r = ⟨k, .log entry next⟩ :: below)
      (hcrew : jobsOf crew = Function.update w.jobs r (⟨k, next⟩ :: below)) :
      Shift w { w with
        crew
        history := w.history ++ [.work r (some k) (.logged (entry r.place))] }
  /-- Some units pass the gate, and others do not. -/
  | passed {crew gateOpen} (hcrew : ∀ r, jobsOf crew r = w.jobs r ∨
      ∃ k next waited below, w.jobs r = ⟨k, .wait next⟩ :: below ∧
        jobsOf crew r = ⟨k, next waited⟩ :: below) :
      Shift w { w with crew, gateOpen }
  /-- A unit finishes. -/
  | finished {r k work below crew} (hjobs : w.jobs r = ⟨k, work⟩ :: below)
      (hover : work = .done ∨ work = .panic)
      (hcrew : jobsOf crew = Function.update w.jobs r below) :
      Shift w { w with crew, history := w.history ++ [.work r (some k) (.finished k)] }
  | closed (hopen : w.closed = false) :
      Shift w { w with closed := true, closing := true, history := w.history ++ [.closed] }
  | refused (hclosed : w.closed = true) : Shift w (w.record (.refused .schedulerShutDown))
  | ended (hclosing : w.closing = true) (hqueue : w.queue = [])
      (hidle : ∀ n, w.jobs (.worker n) = []) :
      Shift w { w with closing := false, history := w.history ++ [.shutDown] }

/-- Threads know whether they are workers. -/
def Placed (w : Workshop) : Prop := ∀ r t, w.crew.lookup r = some t → t.place = r.place

variable {w : Workshop}

/-- A turn that cannot be taken changes nothing. -/
theorem shift_refl (w : Workshop) : Shift w w := .passed fun _ => .inl rfl

theorem shift_post (poster : Nat) (work : Work) (w : Workshop) : Shift w (w.post poster work) := by
  unfold post
  dsimp only
  split
  · exact shift_refl w
  · next hfree =>
    have hnone : w.jobs (.outside poster) = [] :=
      jobsOf_eq_nil_iff.mpr (Option.not_isSome_iff_eq_none.mp hfree)
    have hposting : Posting (.outside poster) work none (w.jobs (.outside poster)) [] := by
      rw [hnone]
      exact .outside rfl
    split
    · next hclosed => exact .inline hclosed hposting (jobsOf_put _ _ _)
    · next hopen =>
      refine .queued (Bool.eq_false_iff.mpr hopen) hposting ?_
      rw [← hnone, Function.update_eq_self]
      rfl

theorem shift_take (n : Nat) (w : Workshop) : Shift w (w.take n) := by
  unfold take
  dsimp only
  split
  · exact shift_refl w
  · next hfree =>
    split
    · exact shift_refl w
    · next job hnext =>
      exact .taken (jobsOf_eq_nil_iff.mpr (Option.not_isSome_iff_eq_none.mp hfree)) hnext
        (jobsOf_put _ _ _)

theorem shift_advance (h : w.Placed) (r : Runner) : Shift w (w.advance r) := by
  unfold advance
  split
  · exact shift_refl w
  · next t ht =>
    obtain ⟨place, ⟨k, work⟩, callers⟩ := t
    obtain rfl : place = r.place := h r _ ht
    have hjobs : w.jobs r = ⟨k, work⟩ :: callers := jobsOf_of_lookup ht
    cases work with
    | done =>
      simp only [WorkThread.step?, Work.child?, Option.toList_none, List.append_nil]
      exact .finished hjobs (.inl rfl) (jobsOf_reassign_return _ _ _)
    | panic =>
      simp only [WorkThread.step?, Work.child?, Option.toList_none, List.append_nil]
      exact .finished hjobs (.inr rfl) (jobsOf_reassign_return _ _ _)
    | log entry next =>
      simp only [WorkThread.step?, Work.child?, Option.toList_none, List.append_nil]
      exact .logged hjobs (jobsOf_put _ _ _)
    | post child next =>
      have hposting : Posting r child (some k) (w.jobs r) (⟨k, next⟩ :: callers) := by
        rw [hjobs]
        exact .inside
      cases hclosed : w.closed with
      | true =>
        simp only [WorkThread.step?, if_true, Work.child?, List.append_nil]
        rw [← hclosed]
        exact .inline hclosed hposting (jobsOf_put _ _ _)
      | false =>
        simp only [WorkThread.step?, Bool.false_eq_true, if_false, Work.child?]
        rw [← hclosed]
        exact .queued hclosed hposting (jobsOf_put _ _ _)
    | wait next =>
      cases hgate : w.gateOpen with
      | true =>
        simp only [WorkThread.step?, if_true, Work.child?, Option.toList_none,
          List.append_nil, List.map_nil]
        refine .passed fun r' => ?_
        rw [reassign, jobsOf_put, Function.update_apply]
        split
        · next heq =>
          subst heq
          exact .inr ⟨k, next, false, callers, hjobs, rfl⟩
        · exact .inl rfl
      | false =>
        simp only [WorkThread.step?, Bool.false_eq_true, if_false]
        exact shift_refl w

theorem passes_release (crew : List (Runner × WorkThread)) (r : Runner) :
    jobsOf (crew.map fun (r, t) => (r, t.release)) r = jobsOf crew r ∨
      ∃ k next waited below, jobsOf crew r = ⟨k, .wait next⟩ :: below ∧
        jobsOf (crew.map fun (r, t) => (r, t.release)) r = ⟨k, next waited⟩ :: below := by
  simp only [jobsOf, lookup_map_release]
  cases crew.lookup r with
  | none => exact .inl rfl
  | some t =>
    obtain ⟨place, ⟨k, work⟩, callers⟩ := t
    cases work with
    | wait next => exact .inr ⟨k, next, true, callers, rfl, rfl⟩
    | _ => exact .inl rfl

theorem shift_shutdown (w : Workshop) : Shift w w.shutdown := by
  unfold shutdown Scheduler.shutdown
  cases hclosed : w.closed with
  | true =>
    simp only [scheduler, hclosed, if_true]
    exact .refused hclosed
  | false =>
    simp only [scheduler, hclosed, Bool.false_eq_true, if_false]
    exact .closed hclosed

theorem lookup_worker_of_isIdle (h : w.isIdle = true) (n : Nat) :
    w.crew.lookup (.worker n) = none := by
  refine List.lookup_eq_none_iff.mpr fun entry hentry => ?_
  have hplace := List.all_eq_true.mp h entry hentry
  obtain ⟨r, t⟩ := entry
  refine bne_iff_ne.mpr ?_
  rintro rfl
  cases hplace

theorem shift_endShutdown (w : Workshop) : Shift w w.endShutdown := by
  unfold endShutdown
  split
  · next hend =>
    rw [Bool.and_eq_true, Bool.and_eq_true, List.isEmpty_iff] at hend
    obtain ⟨⟨hclosing, hqueue⟩, hidle⟩ := hend
    exact .ended hclosing hqueue fun n => jobsOf_eq_nil_iff.mpr (lookup_worker_of_isIdle hidle n)
  · exact shift_refl w

/-- **Every turn is one of the changes.** -/
theorem shift_turn (h : w.Placed) (x : WorkshopTurn) : Shift w (w.turn x) := by
  cases x with
  | post poster work => exact shift_post poster work w
  | take n => exact shift_take n w
  | advance r => exact shift_advance h r
  | release => exact .passed (passes_release w.crew)
  | openGate => exact .passed (passes_release w.crew)
  | shutdown => exact shift_shutdown w
  | endShutdown => exact shift_endShutdown w

/-! ## Threads know whether they are workers -/

theorem placed_start (limit : ConcurrencyLimit) : (start limit).Placed := nofun

theorem Placed.of_put {r : Runner} {t : WorkThread} (h : w.Placed) (ht : t.place = r.place)
    {w' : Workshop} (hcrew : w'.crew = Keyed.put r t w.crew) : w'.Placed := by
  intro r' t' hr'
  rw [hcrew, Keyed.lookup_put] at hr'
  split at hr'
  · next heq =>
    cases hr'
    rw [ht, heq]
  · exact h r' t' hr'

theorem Placed.of_remove {r : Runner} (h : w.Placed) {w' : Workshop}
    (hcrew : w'.crew = Keyed.remove r w.crew) : w'.Placed := by
  intro r' t' hr'
  rw [hcrew, Keyed.lookup_remove] at hr'
  split at hr'
  · cases hr'
  · exact h r' t' hr'

/-- A thread stays where it is. -/
theorem place_step? {closed gateOpen : Bool} {ticket : Nat} {t t' : WorkThread}
    {e : WorkThread.Effect} (h : t.step? closed gateOpen ticket = some e)
    (ht' : e.thread = some t') : t'.place = t.place := by
  obtain ⟨place, ⟨k, work⟩, callers⟩ := t
  cases work with
  | done | panic =>
    cases h
    cases callers with
    | nil => cases ht'
    | cons caller callers =>
      cases ht'
      rfl
  | log entry next =>
    cases h
    cases ht'
    rfl
  | post child next =>
    cases closed with
    | true | false =>
      cases h
      cases ht'
      rfl
  | wait next =>
    cases gateOpen with
    | false => cases h
    | true =>
      cases h
      cases ht'
      rfl

theorem Placed.advance (h : w.Placed) (r : Runner) : (w.advance r).Placed := by
  unfold Workshop.advance
  split
  · exact h
  · next t ht =>
    split
    · exact h
    · next e he =>
      cases hthread : e.thread with
      | none => exact h.of_remove (r := r) rfl
      | some t' =>
        exact h.of_put (r := r) ((place_step? he hthread).trans (h r t ht)) rfl

theorem Placed.release (h : w.Placed) : w.release.Placed := by
  intro r t hr
  have hr : (w.crew.map fun (r, t) => (r, t.release)).lookup r = some t := hr
  rw [lookup_map_release] at hr
  obtain ⟨t, ht, rfl⟩ := Option.map_eq_some_iff.mp hr
  rw [← h r t ht, WorkThread.release]
  split <;> rfl

theorem Placed.turn (h : w.Placed) (x : WorkshopTurn) : (w.turn x).Placed := by
  cases x with
  | post poster work =>
    simp only [Workshop.turn, post]
    split
    · exact h
    · split
      · exact h.of_put (r := .outside poster) rfl rfl
      · exact h
  | take n =>
    simp only [Workshop.turn, take]
    split
    · exact h
    · split
      · exact h
      · exact h.of_put (r := .worker n) rfl rfl
  | advance r => exact h.advance r
  | release => exact h.release
  | openGate => exact h.release
  | shutdown =>
    simp only [Workshop.turn, shutdown]
    split <;> exact h
  | endShutdown =>
    simp only [Workshop.turn, endShutdown]
    split <;> exact h

end Workshop

end TestEngine
