import TestEngine.Proofs.Scheduler.Bookkeeping

/-!
# A scheduler that settles is at work

Posting to a scheduler, letting its units go on and making steps until none is left is one way for
its threads to take turns. So what holds of all interleavings holds of a scheduler that is used so.

* `Scheduler.Reached` — how a scheduler is used by one caller who lets it settle.
* `Scheduler.Reached.exists_turns` — that is an interleaving.
-/

namespace TestEngine

/-- Whatever becomes of a new scheduler that is posted to, let go on, shut down and settled. -/
inductive Scheduler.Reached (limit : ConcurrencyLimit) : Scheduler → Prop
  | new : Reached limit { limit }
  | post {s} (work : Work) : Reached limit s → Reached limit (s.post work)
  | settle {s} : Reached limit s → Reached limit s.settle
  | release {s} : Reached limit s → Reached limit s.release
  | openGate {s} : Reached limit s → Reached limit s.openGate
  | shutdown {s s'} : Reached limit s → s.shutdown = .ok s' → Reached limit s'

namespace Workshop

variable {w : Workshop} {crew before later : List (Runner × WorkThread)} {r : Runner}
  {t : WorkThread} {s : Scheduler}

/-! ## No two threads have one name -/

/-- No two threads have one name. -/
def Named (crew : List (Runner × WorkThread)) : Prop := (crew.map (·.1)).Nodup

theorem Named.put (h : Named crew) (r : Runner) (t : WorkThread) :
    Named (Keyed.put r t crew) := Keyed.nodup_put h r t

theorem Named.remove (h : Named crew) (r : Runner) : Named (Keyed.remove r crew) :=
  h.sublist (List.filter_sublist.map _)

theorem Named.turn (h : Named w.crew) (x : WorkshopTurn) : Named (w.turn x).crew := by
  have hrelease : Named w.release.crew := by
    simpa [Named, Workshop.release, Function.comp_def] using h
  cases x with
  | post poster work =>
    simp only [Workshop.turn, post]
    split
    · exact h
    · split
      · exact h.put _ _
      · exact h
  | take n =>
    simp only [Workshop.turn, take]
    split
    · exact h
    · split
      · exact h
      · exact h.put _ _
  | advance r =>
    simp only [Workshop.turn, advance]
    split
    · exact h
    · split
      · exact h
      · next e he =>
        cases hthread : e.thread with
        | none => exact h.remove r
        | some t' => exact h.put r t'
  | release => exact hrelease
  | openGate => exact hrelease
  | shutdown =>
    simp only [Workshop.turn, shutdown]
    split <;> exact h
  | endShutdown =>
    simp only [Workshop.turn, endShutdown]
    split <;> exact h

theorem Named.after (h : Named w.crew) (turns : List WorkshopTurn) :
    Named (w.after turns).crew := by
  induction turns generalizing w with
  | nil => exact h
  | cons x turns ih => exact ih (h.turn x)

/-- A workshop whose parts are those of a scheduler is this scheduler at work. -/
theorem scheduler_eq (hlimit : w.limit = s.limit) (hqueue : w.queue = s.queue)
    (hthreads : w.crew.map (·.2) = s.threads) (hclosed : w.closed = s.closed)
    (hgate : w.gateOpen = s.gateOpen) (htickets : w.posted.length = s.tickets)
    (hhistory : w.history.filterMap (·.job?) = s.history) : w.scheduler = s := by
  rw [scheduler, hlimit, hqueue, hthreads, hclosed, hgate, htickets, hhistory]

/-! ## A step of a thread -/

/-- The thread that makes a step stays in its place, or leaves it. -/
theorem Named.reassign (h : Named (before ++ (r, t) :: later)) (t' : Option WorkThread) :
    (before ++ (r, t) :: later).lookup r = some t ∧
      (reassign r (before ++ (r, t) :: later) t').map (·.2) =
        before.map (·.2) ++ t'.toList ++ later.map (·.2) := by
  have hkeys : (r :: (before.map (·.1) ++ later.map (·.1))).Nodup := by
    rw [Named, List.map_append, List.map_cons] at h
    exact List.nodup_middle.mp h
  have hnot := (List.nodup_cons.mp hkeys).1
  rw [List.mem_append, not_or] at hnot
  have hbefore := Keyed.lookup_eq_none_iff_not_mem.mpr hnot.1
  have hlater := Keyed.lookup_eq_none_iff_not_mem.mpr hnot.2
  refine ⟨List.lookup_eq_some_iff.mpr
    ⟨before, later, rfl, List.lookup_eq_none_iff.mp hbefore⟩, ?_⟩
  cases t' with
  | none =>
    rw [Workshop.reassign, Keyed.remove_append, Keyed.remove_of_lookup_eq_none hbefore,
      Keyed.remove_of_lookup_eq_none hlater]
    simp
  | some t' =>
    rw [Workshop.reassign, Keyed.put_append hbefore]
    simp

/-- A step gives a number to the unit that it posts, and to no other. -/
theorem countP_posted_step? {closed gateOpen : Bool} {ticket : Nat} {e : WorkThread.Effect}
    (h : t.step? closed gateOpen ticket = some e) :
    e.events.countP (fun
      | .posted .. => true
      | _ => false) = t.job.work.child?.toList.length := by
  obtain ⟨place, ⟨k, work⟩, callers⟩ := t
  cases work with
  | done | panic | log =>
    cases h
    rfl
  | post child next =>
    cases closed with
    | true | false =>
      cases h
      rfl
  | wait next =>
    cases gateOpen with
    | false => cases h
    | true =>
      cases h
      rfl

/-- The first thread that can make a step takes a turn. -/
theorem Named.exists_advance (h : Named w.crew) (hcrew : w.crew = before ++ later)
    (hs : w.scheduler.advanceFirst (before.map (·.2)) (later.map (·.2)) = some s) :
    ∃ r, (w.advance r).scheduler = s := by
  induction later generalizing before with
  | nil => cases hs
  | cons entry later ih =>
    obtain ⟨r, t⟩ := entry
    rw [List.map_cons, Scheduler.advanceFirst] at hs
    split at hs
    · next e he =>
      cases hs
      refine ⟨r, ?_⟩
      rw [hcrew] at h
      obtain ⟨hlookup, hthreads⟩ := h.reassign e.thread
      rw [← hcrew] at hlookup hthreads
      have he : t.step? w.closed w.gateOpen w.posted.length = some e := he
      have hevents : (e.events.map (WorkshopEvent.work r (some t.job.ticket))).filterMap (·.job?) =
          e.events := by
        rw [List.filterMap_map]
        exact List.filterMap_some
      simp only [advance, hlookup, he]
      refine scheduler_eq rfl rfl hthreads rfl rfl ?_ ?_
      · exact List.length_append.trans (congrArg _ (countP_posted_step? he).symm)
      · exact List.filterMap_append.trans (congrArg _ hevents)
    · have hsplit : w.crew = (before ++ [(r, t)]) ++ later := by
        rw [hcrew, List.append_assoc]
        rfl
      refine ih hsplit ?_
      rw [List.map_append]
      exact hs

/-! ## A worker that starts a unit -/

/-- Of more names than there are threads of some kind, one is free. -/
theorem exists_free {f : Nat → Runner} (hf : f.Injective) (p : Runner × WorkThread → Bool)
    (hp : ∀ n t, crew.lookup (f n) = some t → p (f n, t) = true) {m : Nat}
    (hm : crew.countP p < m) : ∃ n < m, crew.lookup (f n) = none := by
  by_contra hbusy
  push Not at hbusy
  have hsub : (List.range m).map f ⊆ (crew.filter p).map (·.1) := by
    intro r hr
    obtain ⟨n, hn, rfl⟩ := List.mem_map.mp hr
    obtain ⟨t, ht⟩ := Option.ne_none_iff_exists'.mp (hbusy n (List.mem_range.mp hn))
    exact List.mem_map.mpr ⟨_, List.mem_filter.mpr ⟨Keyed.mem_of_lookup ht, hp n t ht⟩, rfl⟩
  have hle := (List.subperm_of_subset (List.nodup_range.map hf) hsub).length_le
  rw [List.length_map, List.length_range, List.length_map, ← List.countP_eq_length_filter] at hle
  omega

/-- A worker of a scheduler without a limit has started the unit of its number. -/
theorem Sound.started_of_worker {n : Nat} (h : Sound w) (hlimit : w.limit = .unlimited)
    (ht : w.crew.lookup (.worker n) = some t) : n ∈ startedTickets w.history := by
  have hstack : t.job.ticket ∈ w.stack (.worker n) := by
    rw [stack_apply, jobs, jobsOf_of_lookup ht]
    exact List.mem_cons_self
  obtain ⟨j, hj⟩ := h.lawful.exists_taking (h.runs _ _ hstack).1
  obtain ⟨place, he⟩ := mem_takings.mp hj
  obtain ⟨_, -, -, -, ⟨m, hm, -, -, -, hticket⟩ | ⟨hby, -⟩⟩ := h.lawful.exists_law he
  · rw [hlimit] at hticket
    cases hm
    cases hticket
    exact mem_startedTickets.mpr ⟨_, mem_starts_of_mem_takings hj⟩
  · cases hby

/-- A worker is free to take the unit at the front as soon as the limit admits one more. -/
theorem Sound.exists_free_worker {job : Job} {rest : List Job} (h : Sound w) (hplaced : w.Placed)
    (hqueue : w.queue = job :: rest) (hadmits : w.limit.admits w.scheduler.busy = true) :
    ∃ n, w.crew.lookup (.worker n) = none ∧ w.next? n = some job := by
  cases hlimit : w.limit with
  | atMost m =>
    rw [hlimit] at hadmits
    have hbusy : w.crew.countP (fun entry => entry.2.place = .worker) < m := by
      have hlt : w.scheduler.busy < m := by simpa [ConcurrencyLimit.admits] using hadmits
      rw [Scheduler.busy, scheduler, List.countP_map] at hlt
      exact hlt
    obtain ⟨n, hn, hfree⟩ := exists_free (f := .worker) (fun a b heq => by cases heq; rfl) _
      (fun n t ht => decide_eq_true (hplaced _ t ht)) hbusy
    exact ⟨n, hfree, by simp [next?, hlimit, hn, hqueue]⟩
  | unlimited =>
    refine ⟨job.ticket, ?_, by simp [next?, hlimit, hqueue]⟩
    cases ht : w.crew.lookup (.worker job.ticket) with
    | none => rfl
    | some t =>
      have hwaits : job ∈ w.queue := by rw [hqueue]; exact List.mem_cons_self
      exact absurd (h.started_of_worker hlimit ht) (h.waiting_not_started hwaits)

theorem Sound.exists_take (h : Sound w) (hplaced : w.Placed) (hs : w.scheduler.start? = some s) :
    ∃ n, (w.take n).scheduler = s := by
  unfold Scheduler.start? at hs
  split at hs
  · cases hs
  · next job rest hqueue =>
    split at hs
    · next hadmits =>
      cases hs
      have hqueue : w.queue = job :: rest := hqueue
      obtain ⟨n, hfree, hnext⟩ := h.exists_free_worker hplaced hqueue hadmits
      refine ⟨n, ?_⟩
      have hrest : w.queue.eraseP (·.ticket = job.ticket) = rest := by
        rw [hqueue, List.eraseP_cons_of_pos (by simp)]
      simp only [take, hfree, hnext, Option.isSome_none, Bool.false_eq_true, if_false]
      refine scheduler_eq rfl hrest ?_ rfl rfl rfl List.filterMap_append
      exact (congrArg _ (Keyed.put_of_lookup_eq_none hfree _)).trans List.map_append
    · cases hs

/-! ## Settling -/

/-- A state with which the threads can go on. -/
structure Ready (w : Workshop) : Prop where
  sound : Sound w
  placed : w.Placed
  named : Named w.crew

theorem Ready.after (h : Ready w) (turns : List WorkshopTurn) : Ready (w.after turns) where
  sound := h.sound.after h.placed turns
  placed := h.placed.after turns
  named := h.named.after turns

theorem ready_start (limit : ConcurrencyLimit) : Ready (start limit) where
  sound := sound_start limit
  placed := placed_start limit
  named := List.nodup_nil

theorem Ready.exists_turn (h : Ready w) (hs : w.scheduler.step? = some s) :
    ∃ x : WorkshopTurn, (w.turn x).scheduler = s := by
  unfold Scheduler.step? at hs
  cases hstart : w.scheduler.start? with
  | some s' =>
    rw [hstart, Option.some_or] at hs
    cases hs
    obtain ⟨n, hn⟩ := h.sound.exists_take h.placed hstart
    exact ⟨.take n, hn⟩
  | none =>
    rw [hstart, Option.none_or] at hs
    obtain ⟨r, hr⟩ := h.named.exists_advance (List.nil_append w.crew).symm hs
    exact ⟨.advance r, hr⟩

theorem Ready.exists_settle (h : Ready w) :
    ∃ turns, (w.after turns).scheduler = w.scheduler.settle := by
  induction hn : w.scheduler.size using Nat.strongRecOn generalizing w with
  | ind n ih =>
    rw [Scheduler.settle]
    split
    · next s hs =>
      obtain ⟨x, hx⟩ := h.exists_turn hs
      have hlt : (w.turn x).scheduler.size < n := by
        rw [hx, ← hn]
        exact Scheduler.size_step? hs
      obtain ⟨turns, hturns⟩ := ih _ hlt (h.after [x]) rfl
      exact ⟨x :: turns, by rw [← hx]; exact hturns⟩
    · exact ⟨[], rfl⟩

/-! ## Calls -/

/-- A thread from outside posts. -/
theorem exists_post (w : Workshop) (work : Work) :
    ∃ poster, (w.post poster work).scheduler = w.scheduler.post work := by
  obtain ⟨n, -, hfree⟩ :
      ∃ n < w.crew.countP (fun _ => true) + 1, w.crew.lookup (.outside n) = none :=
    exists_free (fun a b heq => by cases heq; rfl) _ (fun _ _ _ => rfl) (Nat.lt_succ_self _)
  refine ⟨n, ?_⟩
  cases hclosed : w.closed with
  | true =>
    have hshut : w.scheduler.closed = true := hclosed
    simp only [post, hfree, Option.isSome_none, Bool.false_eq_true, if_false, hclosed, if_true,
      Scheduler.post, hshut]
    refine scheduler_eq rfl rfl ?_ rfl rfl List.length_append List.filterMap_append
    exact (congrArg _ (Keyed.put_of_lookup_eq_none hfree _)).trans List.map_append
  | false =>
    have hopen : w.scheduler.closed = false := hclosed
    simp only [post, hfree, Option.isSome_none, Bool.false_eq_true, if_false, hclosed,
      Scheduler.post, hopen]
    exact scheduler_eq rfl rfl rfl rfl rfl List.length_append List.filterMap_append

theorem scheduler_release (w : Workshop) : w.release.scheduler = w.scheduler.release := by
  simp only [scheduler, release, Scheduler.release, List.map_map]
  rfl

theorem scheduler_openGate (w : Workshop) : w.openGate.scheduler = w.scheduler.openGate := by
  rw [Scheduler.openGate, ← scheduler_release]
  rfl

theorem scheduler_shutdown (hs : w.scheduler.shutdown = .ok s) : w.shutdown.scheduler = s := by
  rw [shutdown, hs]
  unfold Scheduler.shutdown at hs
  split at hs
  · cases hs
  · cases hs
    simp [scheduler, record, WorkshopEvent.job?]

end Workshop

/-- **A scheduler that one caller uses and lets settle goes through one of the interleavings.** -/
theorem Scheduler.Reached.exists_turns {limit : ConcurrencyLimit} {s : Scheduler}
    (h : Scheduler.Reached limit s) :
    ∃ turns, ((Workshop.start limit).after turns).scheduler = s := by
  induction h with
  | new => exact ⟨[], rfl⟩
  | post work _ ih =>
    obtain ⟨turns, rfl⟩ := ih
    obtain ⟨poster, hpost⟩ := Workshop.exists_post ((Workshop.start limit).after turns) work
    exact ⟨turns ++ [.post poster work], by rw [Workshop.after_append]; exact hpost⟩
  | settle _ ih =>
    obtain ⟨turns, rfl⟩ := ih
    obtain ⟨more, hmore⟩ := ((Workshop.ready_start limit).after turns).exists_settle
    exact ⟨turns ++ more, by rw [Workshop.after_append, hmore]⟩
  | release _ ih =>
    obtain ⟨turns, rfl⟩ := ih
    exact ⟨turns ++ [.release], by
      rw [Workshop.after_append]
      exact Workshop.scheduler_release _⟩
  | openGate _ ih =>
    obtain ⟨turns, rfl⟩ := ih
    exact ⟨turns ++ [.openGate], by
      rw [Workshop.after_append]
      exact Workshop.scheduler_openGate _⟩
  | shutdown _ hs ih =>
    obtain ⟨turns, rfl⟩ := ih
    exact ⟨turns ++ [.shutdown], by
      rw [Workshop.after_append]
      exact Workshop.scheduler_shutdown hs⟩

end TestEngine
