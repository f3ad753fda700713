import TestEngine.Proofs.Scheduler.Bookkeeping

/-!
# Many posters

Any number of threads post units of work, some of them from inside units that run, while workers
take them and somebody shuts the scheduler down. Whatever the interleaving, every unit that was
posted runs once, where it should; and the threads come to an end by themselves, unless a unit waits
at the gate.

* `Workshop.size_turn_lt` — the threads cannot go on for ever.
* `Workshop.Sound.settled` — they stop at the gate, or when everything has finished.
* `Workshop.isReliable` — what posters and whoever shuts the scheduler down can rely on.
-/

namespace TestEngine

/-- The turn is one of a thread that takes a unit or makes a step of the one that it runs. -/
def WorkshopTurn.isOwn : WorkshopTurn → Bool
  | take _ => true
  | advance _ => true
  | _ => false

namespace Workshop

variable {w : Workshop}

/-! ## The threads come to an end -/

section Sizes

open WorkThread

variable {crew : List (Runner × WorkThread)} {r : Runner} {t : WorkThread}

/-- A bound on the steps that the threads make. -/
def crewSize (crew : List (Runner × WorkThread)) : Nat := totalSize (crew.map (·.2))

theorem crewSize_put_of_none (h : crew.lookup r = none) (t : WorkThread) :
    crewSize (Keyed.put r t crew) = crewSize crew + t.size := by
  rw [Keyed.put_of_lookup_eq_none h]
  simp [crewSize, totalSize, sumOf_append, sumOf]

theorem sumOf_le_of_sublist {α : Type} (f : α → Nat) {xs ys : List α} (h : xs.Sublist ys) :
    sumOf f xs ≤ sumOf f ys := by
  induction h with
  | slnil => exact Nat.le_refl _
  | cons y _ ih =>
    rw [sumOf]
    omega
  | cons_cons x _ ih =>
    rw [sumOf, sumOf]
    omega

/-- The thread that has made a step counts, instead of what it was before. -/
theorem crewSize_reassign (h : crew.lookup r = some t) (t' : Option WorkThread) :
    crewSize (reassign r crew t') + t.size ≤ crewSize crew + totalSize t'.toList := by
  obtain ⟨before, later, rfl, hput, hremove⟩ := Keyed.exists_split h
  cases t' with
  | none =>
    have hle := sumOf_le_of_sublist size
      ((List.filter_sublist (p := (·.1 != r)) (l := later)).map (·.2))
    rw [reassign, hremove]
    simp only [crewSize, totalSize, List.map_append, List.map_cons, sumOf_append, sumOf,
      Option.toList_none, Keyed.remove]
    omega
  | some t' =>
    rw [reassign, hput]
    simp only [crewSize, totalSize, List.map_append, List.map_cons, sumOf_append, sumOf,
      Option.toList_some]
    omega

end Sizes

/-- A bound on the steps that are left. -/
def size (w : Workshop) : Nat := crewSize w.crew + WorkThread.queueSize w.queue

/-- A worker that takes a unit uses up one step. -/
theorem size_take_lt {n : Nat} (hfree : w.crew.lookup (.worker n) = none) {job : Job}
    (hnext : w.next? n = some job) : (w.take n).size < w.size := by
  obtain ⟨front, back, hqueue, herase⟩ := split_of_next? hnext
  have hcrew := crewSize_put_of_none hfree { place := .worker, job }
  simp only [WorkThread.size, sumOf] at hcrew
  simp only [take, hfree, hnext, Option.isSome_none, Bool.false_eq_true, if_false, size]
  rw [herase, hqueue]
  simp only [WorkThread.queueSize, sumOf_append, sumOf, Runner.place]
  omega

theorem size_advance_lt {r : Runner} {t : WorkThread} {e : WorkThread.Effect}
    (ht : w.crew.lookup r = some t)
    (he : t.step? w.closed w.gateOpen w.posted.length = some e) :
    (w.advance r).size < w.size := by
  have hcrew := crewSize_reassign ht e.thread
  have hstep := WorkThread.size_step? he
  simp only [advance, ht, he, size, WorkThread.queueSize, sumOf_append] at hstep ⊢
  omega

/-- **The threads cannot go on for ever**: each of their turns uses up a step. -/
theorem size_turn_lt {x : WorkshopTurn} (hx : x.isOwn = true) (hchanges : w.turn x ≠ w) :
    (w.turn x).size < w.size := by
  cases x with
  | take n =>
    cases hfree : w.crew.lookup (.worker n) with
    | some t => exact absurd (by simp [turn, take, hfree]) hchanges
    | none =>
      cases hnext : w.next? n with
      | none => exact absurd (by simp [turn, take, hfree, hnext]) hchanges
      | some job => exact size_take_lt hfree hnext
  | advance r =>
    cases ht : w.crew.lookup r with
    | none => exact absurd (by simp [turn, advance, ht]) hchanges
    | some t =>
      cases he : t.step? w.closed w.gateOpen w.posted.length with
      | none => exact absurd (by simp [turn, advance, ht, he]) hchanges
      | some e => exact size_advance_lt ht he
  | _ => cases hx

/-- No thread takes a unit or makes a step. -/
def Settled (w : Workshop) : Prop := ∀ x : WorkshopTurn, x.isOwn = true → w.turn x = w

/-- A unit waits at the gate, which is not open. -/
def Held (w : Workshop) : Prop :=
  w.gateOpen = false ∧ ∃ r t, w.crew.lookup r = some t ∧ t.isWaiting = true

/-- A thread that makes no step waits at the gate. -/
theorem waits_of_step?_eq_none {closed gateOpen : Bool} {ticket : Nat} {t : WorkThread}
    (h : t.step? closed gateOpen ticket = none) : t.isWaiting = true ∧ gateOpen = false := by
  obtain ⟨place, ⟨k, work⟩, callers⟩ := t
  cases work with
  | done | panic | log => cases h
  | post child next => cases closed <;> cases h
  | wait next =>
    cases gateOpen with
    | false => exact ⟨rfl, rfl⟩
    | true => cases h

theorem Settled.crew_eq_nil (h : w.Settled) (hheld : ¬w.Held) : w.crew = [] := by
  cases hcrew : w.crew with
  | nil => rfl
  | cons entry rest =>
    obtain ⟨r, t⟩ := entry
    have ht : w.crew.lookup r = some t := by rw [hcrew, List.lookup_cons_self]
    cases he : t.step? w.closed w.gateOpen w.posted.length with
    | some e =>
      have hlt := size_advance_lt ht he
      rw [show w.advance r = w from h (.advance r) rfl] at hlt
      exact absurd hlt (Nat.lt_irrefl _)
    | none =>
      obtain ⟨hwaits, hgate⟩ := waits_of_step?_eq_none he
      exact absurd ⟨hgate, r, t, ht, hwaits⟩ hheld

/-- As soon as a worker is there, what waits is taken. -/
theorem exists_next? {j : Job} {rest : List Job} (hlimit : w.limit.admits 0 = true)
    (hqueue : w.queue = j :: rest) : ∃ n job, w.next? n = some job := by
  cases hl : w.limit with
  | atMost n =>
    have hn : 0 < n := by simpa [hl, ConcurrencyLimit.admits] using hlimit
    exact ⟨0, j, by simp [next?, hl, hn, hqueue]⟩
  | unlimited => exact ⟨j.ticket, j, by simp [next?, hl, hqueue]⟩

theorem Settled.queue_eq_nil (h : w.Settled) (hlimit : w.limit.admits 0 = true)
    (hcrew : w.crew = []) : w.queue = [] := by
  cases hqueue : w.queue with
  | nil => rfl
  | cons j rest =>
    obtain ⟨n, job, hnext⟩ := exists_next? hlimit hqueue
    have hlt := size_take_lt (by rw [hcrew]; rfl) hnext
    rw [show w.take n = w from h (.take n) rfl] at hlt
    exact absurd hlt (Nat.lt_irrefl _)

/-- The threads can go on until none takes a unit or makes a step. -/
theorem exists_settled (w : Workshop) :
    ∃ more : List WorkshopTurn, (∀ x ∈ more, x.isOwn = true) ∧ (w.after more).Settled := by
  -- on the number of steps that are left
  induction hn : w.size using Nat.strongRecOn generalizing w with
  | ind n ih =>
    by_cases hsettled : w.Settled
    · exact ⟨[], List.forall_mem_nil _, hsettled⟩
    · unfold Settled at hsettled
      push Not at hsettled
      obtain ⟨x, hx, hchanges⟩ := hsettled
      obtain ⟨more, hmore, hdone⟩ := ih _ (hn ▸ size_turn_lt hx hchanges) (w.turn x) rfl
      exact ⟨x :: more, List.forall_mem_cons.mpr ⟨hx, hmore⟩, hdone⟩

/-- **The threads stop only at the gate or when everything that was posted has finished**, and a
shutdown that is under way can return then. -/
theorem Sound.settled (h : Sound w) (hlimit : w.limit.admits 0 = true) (hsettled : w.Settled)
    (hheld : ¬w.Held) :
    postedTickets w.history ⊆ finishedTickets w.history ∧
      (.closed ∈ w.history → .shutDown ∈ w.endShutdown.history) := by
  have hcrew := hsettled.crew_eq_nil hheld
  have hqueue := hsettled.queue_eq_nil hlimit hcrew
  constructor
  · intro k hk
    rw [h.lawful.posted_eq, h.length_posted] at hk
    have hstarted := h.started.mem_iff.mpr hk
    rw [hqueue, List.map_nil, List.append_nil] at hstarted
    obtain ⟨r, hr⟩ := mem_startedTickets.mp hstarted
    refine (h.begun r k hr).resolve_right ?_
    rw [stack, ticketsOf, hcrew]
    exact List.not_mem_nil
  · intro hclosed
    unfold endShutdown
    rcases h.ended (h.closed_iff.mpr hclosed) with hclosing | hended
    · simp [hclosing, hqueue, isIdle, hcrew, record]
    · split
      · exact List.mem_append_left _ hended
      · exact hended

/-! ## What can be relied on -/

/-- What posters and whoever shuts the scheduler down can rely on. -/
structure Reliable (limit : ConcurrencyLimit) (w : Workshop) : Prop where
  /-- Everything that happens obeys the law. -/
  lawful : Lawful limit w.history
  /-- Units are numbered in the order in which they are posted. -/
  posted : postedTickets w.history = List.range w.posted.length
  /-- A thread from outside that runs no unit can post one. -/
  heard : ∀ poster work, w.crew.lookup (.outside poster) = none →
    (w.post poster work).posted = w.posted ++ [work] ∧ ∃ queued later,
      (w.post poster work).history =
        w.history ++ .work (.outside poster) none (.posted w.posted.length queued) :: later
  /-- No unit is started twice or finishes twice. -/
  once : (startedTickets w.history).Nodup ∧ (finishedTickets w.history).Nodup ∧
    startedTickets w.history ⊆ postedTickets w.history ∧
    finishedTickets w.history ⊆ startedTickets w.history
  /-- A unit that is posted while the scheduler is open runs on a worker, and any other one on the
  thread that posts it. -/
  placed : ∀ past r during k queued later,
    w.history = past ++ .work r during (.posted k queued) :: later →
    (queued = true ↔ .closed ∉ past) ∧
      ∀ r' during' place, .work r' during' (.started k place) ∈ w.history →
        place = r'.place ∧ if queued then r'.place = .worker else r' = r
  /-- A unit does what it was posted to do, in order, until it is done or panics. -/
  faithful : ∀ r k, (r, k) ∈ starts w.history → ∃ rest, w.Course r k rest ∧
    (k ∈ finishedTickets w.history → rest = .done ∨ rest = .panic)
  /-- No more of the units that had to wait run at a time than the limit says. -/
  bounded : ∀ n, limit = .atMost n →
    ((startedTickets w.history).filter fun k =>
      k ∈ queuedTickets w.history ∧ k ∉ finishedTickets w.history).length ≤ n
  /-- They start in the order in which they were posted. -/
  inOrder : ∀ n, limit = .atMost n →
    (startedTickets w.history).filter (· ∈ queuedTickets w.history) <+: queuedTickets w.history
  /-- When a shutdown returns, whatever was posted before it closed the scheduler has finished, with
  all that descends from it. -/
  drained : ∀ before later, w.history = before ++ .shutDown :: later →
    ∃ past rest, before = past ++ .closed :: rest ∧
      ∀ k ∈ postedTickets past, ∀ c, Descends w.history k c → c ∈ finishedTickets before
  /-- A shutdown closes the scheduler, and any further one is refused and changes nothing. -/
  closedOnce : (.closed ∉ w.history → w.shutdown.history = w.history ++ [.closed]) ∧
    (.closed ∈ w.history → w.scheduler.shutdown = .error .schedulerShutDown ∧
      w.shutdown = w.record (.refused .schedulerShutDown))
  /-- The threads can go on, but not for ever. -/
  ends : (∀ x : WorkshopTurn, x.isOwn = true → w.turn x ≠ w → (w.turn x).size < w.size) ∧
    ∃ more : List WorkshopTurn, (∀ x ∈ more, x.isOwn = true) ∧ (w.after more).Settled
  /-- They stop only at the gate or when everything that was posted has finished, and then a
  shutdown that is under way can return. -/
  drains : w.Settled → w.Held ∨ postedTickets w.history ⊆ finishedTickets w.history ∧
    (.closed ∈ w.history → .shutDown ∈ w.endShutdown.history)

theorem Sound.faithful (h : Sound w) {r : Runner} {k : Nat} (hk : (r, k) ∈ starts w.history) :
    ∃ rest, w.Course r k rest ∧ (k ∈ finishedTickets w.history → rest = .done ∨ rest = .panic) := by
  by_cases hfinished : k ∈ finishedTickets w.history
  · rcases h.complete r k hk hfinished with hdone | hpanic
    · exact ⟨.done, hdone, fun _ => .inl rfl⟩
    · exact ⟨.panic, hpanic, fun _ => .inr rfl⟩
  · obtain ⟨j, hj, rfl⟩ := List.mem_map.mp (h.mem_stack hk hfinished)
    exact ⟨j.work, h.underWay r j hj, fun hfin => absurd hfin hfinished⟩

theorem Lawful.bounded {n : Nat} {h : List WorkshopEvent} (hl : Lawful (.atMost n) h) :
    ((startedTickets h).filter fun k =>
      k ∈ queuedTickets h ∧ k ∉ finishedTickets h).length ≤ n := by
  have hrunning : (running h).map (·.2) = (startedTickets h).filter fun k =>
      k ∈ queuedTickets h ∧ k ∉ finishedTickets h := by
    calc (running h).map (·.2)
      _ = (takenTickets h).filter (· ∉ finishedTickets h) := by
        rw [takenTickets, List.filter_map]
        rfl
      _ = _ := by
        rw [hl.takenTickets_eq, List.filter_filter]
        simp only [Bool.decide_and, Bool.and_comm]
  rw [← hrunning, List.length_map]
  exact hl.length_running_le

theorem heard (poster : Nat) (work : Work) (hfree : w.crew.lookup (.outside poster) = none) :
    (w.post poster work).posted = w.posted ++ [work] ∧ ∃ queued later,
      (w.post poster work).history =
        w.history ++ .work (.outside poster) none (.posted w.posted.length queued) :: later := by
  simp only [post, hfree, Option.isSome_none, Bool.false_eq_true, if_false]
  split
  · exact ⟨rfl, false, [_], rfl⟩
  · exact ⟨rfl, true, [], rfl⟩

theorem Sound.closes (h : Sound w) (hc : .closed ∉ w.history) :
    w.shutdown.history = w.history ++ [.closed] := by
  have hopen : w.scheduler.closed = false :=
    Bool.eq_false_iff.mpr fun hclosed => hc (h.closed_iff.mp hclosed)
  rw [Workshop.shutdown, Scheduler.shutdown, hopen]
  rfl

theorem Sound.refuses (h : Sound w) (hc : .closed ∈ w.history) :
    w.scheduler.shutdown = .error .schedulerShutDown ∧
      w.shutdown = w.record (.refused .schedulerShutDown) := by
  have hclosed : w.scheduler.closed = true := h.closed_iff.mpr hc
  have hrefused : w.scheduler.shutdown = .error .schedulerShutDown := by
    rw [Scheduler.shutdown, hclosed]
    rfl
  exact ⟨hrefused, by rw [Workshop.shutdown, hrefused]⟩

theorem Sound.reliable (h : Sound w) (hlimit : w.limit.admits 0 = true) : Reliable w.limit w where
  lawful := h.lawful
  posted := by
    rw [h.lawful.posted_eq, h.length_posted]
  heard := heard
  once := ⟨h.lawful.nodup_started, h.lawful.nodup_finished,
    fun _ hk => h.lawful.posted_of_started hk, fun _ hk => h.lawful.started_of_finished hk⟩
  placed := by
    intro past r during k queued later heq
    have hposted : .work r during (.posted k queued) ∈ w.history := by
      rw [heq]
      exact List.mem_append_right _ List.mem_cons_self
    exact ⟨(h.lawful past _ later heq).2.2, fun r' during' place hs =>
      h.lawful.starts_as_posted hposted hs⟩
  faithful := fun r k hk => h.faithful hk
  bounded := by
    intro n hn
    have hl := h.lawful
    rw [hn] at hl
    exact hl.bounded
  inOrder := by
    intro n hn
    rw [← h.lawful.takenTickets_eq, ← h.inOrder n hn]
    exact List.prefix_append _ _
  drained := by
    intro before later heq
    have hl := h.lawful
    rw [heq] at hl ⊢
    exact hl.finished_of_descends
  closedOnce := ⟨h.closes, h.refuses⟩
  ends := ⟨fun x hx hchanges => size_turn_lt hx hchanges, exists_settled w⟩
  drains := fun hsettled => or_iff_not_imp_left.mpr (h.settled hlimit hsettled)

/-- **Any number of posters, the workers and whoever shuts the scheduler down can rely on it**, in
every interleaving. -/
theorem isReliable (limit : ConcurrencyLimit) (hlimit : limit.admits 0 = true)
    (turns : List WorkshopTurn) : Reliable limit ((start limit).after turns) := by
  have hsame : ((start limit).after turns).limit = limit :=
    (placed_start limit).limit_after turns
  have h := (sound_after limit turns).reliable (hsame.symm ▸ hlimit)
  rw [hsame] at h
  exact h

/-- A unit starts on the only worker, is overtaken by a shutdown, posts another unit and panics. -/
def overtakenTurns : List WorkshopTurn :=
  [.post 0 (.log (fun _ => "first") (.post (.log (fun _ => "second") .done) .panic)), .take 0,
    .advance (.worker 0), .shutdown, .advance (.worker 0), .endShutdown, .advance (.worker 0),
    .advance (.worker 0), .advance (.worker 0), .shutdown, .endShutdown]

theorem isReliable_overtaken :
    (ConcurrencyLimit.atMost 1).admits 0 = true ∧
      Reliable (.atMost 1) ((start (.atMost 1)).after overtakenTurns) ∧
      ((start (.atMost 1)).after overtakenTurns).history =
        [.work (.outside 0) none (.posted 0 true),
          .work (.worker 0) none (.started 0 .worker),
          .work (.worker 0) (some 0) (.logged "first"),
          .closed,
          .work (.worker 0) (some 0) (.posted 1 false),
          .work (.worker 0) (some 0) (.started 1 .worker),
          .work (.worker 0) (some 1) (.logged "second"),
          .work (.worker 0) (some 1) (.finished 1),
          .work (.worker 0) (some 0) (.finished 0),
          .refused .schedulerShutDown,
          .shutDown] :=
  ⟨rfl, isReliable (.atMost 1) rfl overtakenTurns, rfl⟩

end Workshop

end TestEngine
