import TestEngine.Proofs.Scheduler.Shifts
import TestEngine.Proofs.Scheduler.WorkLaw

/-!
# The books of a scheduler at work

How what waits, what the runners have begun and whether the scheduler is closed stand to the
history. One change keeps it all, so every interleaving does.

* `Workshop.Sound` — what every change keeps.
* `Workshop.sound_after` — every interleaving is sound.
-/

namespace TestEngine.Workshop

/-! ## What every change keeps -/

/-- Every unit that was posted was started or waits, and what had to wait is taken or still does. -/
structure Counted (w : Workshop) : Prop where
  length_posted : (postedTickets w.history).length = w.posted.length
  started : (startedTickets w.history ++ w.queue.map (·.ticket)).Perm (List.range w.posted.length)
  taken : (takenTickets w.history ++ w.queue.map (·.ticket)).Perm (queuedTickets w.history)
  inOrder : ∀ n, w.limit = .atMost n →
    takenTickets w.history ++ w.queue.map (·.ticket) = queuedTickets w.history

/-- A unit that was started is one of those that its runner has begun, until it finishes. -/
structure Staffed (w : Workshop) : Prop where
  runs : ∀ r, ∀ k ∈ w.stack r, Runs w.history r k
  nodup : ∀ r, (w.stack r).Nodup
  begun : ∀ r k, (r, k) ∈ starts w.history → k ∈ finishedTickets w.history ∨ k ∈ w.stack r
  nested : ∀ p k, (p, k) ∈ nestings w.history →
    k ∈ finishedTickets w.history ∨ ∃ r, [k, p].Sublist (w.stack r)

/-- `rest` is what is left of a unit that the runner has started. -/
def Course (w : Workshop) (r : Runner) (k : Nat) (rest : Work) : Prop :=
  ∃ work, w.posted[k]? = some work ∧ work.Does r.place w.posted (deeds k w.history) rest

/-- What waits, runs or has finished is what was posted. -/
structure Faithful (w : Workshop) : Prop where
  waiting : ∀ j ∈ w.queue, w.posted[j.ticket]? = some j.work
  underWay : ∀ r, ∀ j ∈ w.jobs r, w.Course r j.ticket j.work
  complete : ∀ r k, (r, k) ∈ starts w.history → k ∈ finishedTickets w.history →
    w.Course r k .done ∨ w.Course r k .panic

/-- The scheduler is closed once, by a shutdown that returns or has not yet done so. -/
structure Closing (w : Workshop) : Prop where
  closed_iff : w.closed = true ↔ .closed ∈ w.history
  closing : w.closing = true → w.closed = true
  ended : w.closed = true → w.closing = true ∨ .shutDown ∈ w.history

/-- How the state of a scheduler at work stands to its history. -/
structure Sound (w : Workshop) : Prop extends Counted w, Staffed w, Faithful w, Closing w where
  lawful : Lawful w.limit w.history

theorem sound_start (limit : ConcurrencyLimit) : Sound (start limit) where
  length_posted := rfl
  started := .nil
  taken := .nil
  inOrder := fun _ _ => rfl
  runs := by
    intro r k hk
    cases hk
  nodup := fun _ => List.nodup_nil
  begun := by
    intro r k hk
    cases hk
  nested := by
    intro p k hk
    cases hk
  waiting := by
    intro j hj
    cases hj
  underWay := by
    intro r j hj
    cases hj
  complete := by
    intro r k hk
    cases hk
  closed_iff := ⟨nofun, fun h => absurd h List.not_mem_nil⟩
  closing := nofun
  ended := nofun
  lawful := .nil _

variable {w w' : Workshop} {r r' : Runner} {k : Nat} {es : List WorkshopEvent}

/-! ### What is known of the state -/

theorem Counted.nodup_started (h : Counted w) :
    (startedTickets w.history ++ w.queue.map (·.ticket)).Nodup :=
  h.started.nodup_iff.mpr List.nodup_range

/-- The next number was not given to a unit that was started. -/
theorem Counted.next_not_started (h : Counted w) : w.posted.length ∉ startedTickets w.history := by
  intro hk
  have hlt := h.started.mem_iff.mp (List.mem_append_left _ hk)
  exact absurd (List.mem_range.mp hlt) (Nat.lt_irrefl _)

/-- What waits was not started. -/
theorem Counted.waiting_not_started (h : Counted w) {j : Job} (hj : j ∈ w.queue) :
    j.ticket ∉ startedTickets w.history := fun hk =>
  List.disjoint_of_nodup_append h.nodup_started hk (List.mem_map_of_mem hj)

/-- A unit is one of those that its runner has begun. -/
theorem Sound.runner_unique (h : Sound w) (hk : k ∈ w.stack r) (hk' : (r', k) ∈ starts w.history) :
    r' = r :=
  h.lawful.starts_unique hk' (h.runs r k hk).1

theorem Sound.mem_stack (h : Sound w) (hk : (r, k) ∈ starts w.history)
    (hnot : k ∉ finishedTickets w.history) : k ∈ w.stack r :=
  (h.begun r k hk).resolve_left hnot

/-! ### What a change starts from -/

variable {child : Work} {during : Option Nat} {before later : List Job}

/-- The numbers of the units that the thread has begun do not change. -/
theorem Posting.tickets_eq (h : Posting r child during before later) :
    later.map (·.ticket) = before.map (·.ticket) := by
  cases h <;> rfl

theorem Posting.mem_tickets (h : Posting r child (some k) before later) :
    k ∈ before.map (·.ticket) := by
  cases h
  exact List.mem_cons_self

theorem Posting.postedBy (h : Posting r child during (w.jobs r) later) (hw : Sound w) :
    PostedBy w.history r during := by
  cases during with
  | none =>
    generalize w.jobs r = before at h
    cases h
    assumption
  | some k => exact hw.runs r k h.mem_tickets

theorem PostedBy.append {h : List WorkshopEvent} (hp : PostedBy h r during)
    (hes : finishedTickets es = []) : PostedBy (h ++ es) r during := by
  cases during with
  | none => exact hp
  | some k =>
    refine ⟨?_, ?_⟩
    · rw [starts_append]
      exact List.mem_append_left _ hp.1
    · rw [finishedTickets_append, hes, List.append_nil]
      exact hp.2

section Next

variable {n : Nat} {job : Job}

/-- The queue is what a worker takes and what it leaves. -/
theorem split_of_next? (h : w.next? n = some job) :
    ∃ front back, w.queue = front ++ job :: back ∧
      w.queue.eraseP (·.ticket = job.ticket) = front ++ back := by
  unfold next? at h
  split at h
  · split at h
    · obtain ⟨back, hqueue⟩ := List.head?_eq_some_iff.mp h
      refine ⟨[], back, hqueue, ?_⟩
      rw [hqueue, List.eraseP_cons_of_pos (by simp)]
      rfl
    · cases h
  · obtain ⟨hn, front, back, hqueue, hfront⟩ := List.find?_eq_some_iff_append.mp h
    obtain rfl := of_decide_eq_true hn
    refine ⟨front, back, hqueue, ?_⟩
    rw [hqueue, List.eraseP_append_right _ (fun j hj => by simpa using hfront j hj),
      List.eraseP_cons_of_pos (by simp)]

theorem mem_queue_of_next? (h : w.next? n = some job) : job ∈ w.queue := by
  obtain ⟨front, back, hqueue, -⟩ := split_of_next? h
  rw [hqueue]
  exact List.mem_append_right _ List.mem_cons_self

theorem perm_tickets_of_next? (h : w.next? n = some job) :
    (w.queue.map (·.ticket)).Perm
      (job.ticket :: (w.queue.eraseP (·.ticket = job.ticket)).map (·.ticket)) := by
  obtain ⟨front, back, hqueue, herase⟩ := split_of_next? h
  rw [herase, hqueue]
  exact List.Perm.map Job.ticket List.perm_middle

/-- The workers of a scheduler with a limit take from the front. -/
theorem queue_eq_of_next? {m : Nat} (hlimit : w.limit = .atMost m) (h : w.next? n = some job) :
    n < m ∧ w.queue = job :: w.queue.eraseP (·.ticket = job.ticket) := by
  simp only [next?, hlimit] at h
  split at h
  · next hlt =>
    refine ⟨hlt, ?_⟩
    cases hqueue : w.queue with
    | nil =>
      rw [hqueue] at h
      cases h
    | cons front rest =>
      rw [hqueue] at h
      cases h
      simp
  · cases h

end Next

/-! ### The law -/

/-- A free worker takes by the law. -/
theorem Sound.takenLaw {n : Nat} {job : Job} (h : Sound w) (hfree : w.jobs (.worker n) = [])
    (hnext : w.next? n = some job) :
    TakenLaw w.limit w.history (.worker n) none job.ticket := by
  have hqueue := mem_queue_of_next? hnext
  refine ⟨n, rfl, rfl, ?_, ?_, ?_⟩
  · exact h.taken.mem_iff.mp (List.mem_append_right _ (List.mem_map_of_mem hqueue))
  · intro j hj
    obtain ⟨htaken, hnot⟩ := Lawful.mem_running.mp hj
    have hstack := h.mem_stack (mem_starts_of_mem_takings htaken) hnot
    rw [stack_apply, hfree] at hstack
    cases hstack
  · cases hlimit : w.limit with
    | atMost m =>
      obtain ⟨hlt, hfront⟩ := queue_eq_of_next? hlimit hnext
      refine ⟨hlt, (w.queue.eraseP (·.ticket = job.ticket)).map (·.ticket), ?_⟩
      rw [← h.inOrder m hlimit, List.append_assoc]
      conv_rhs => rw [hfront]
      rfl
    | unlimited =>
      simp only [next?, hlimit] at hnext
      have hticket := List.find?_some hnext
      exact (of_decide_eq_true hticket).symm

/-- A unit that finishes finishes after those that it posted and that ran at once. -/
theorem Sound.nested_finished (h : Sound w) {below : List Nat} (hstack : w.stack r = k :: below)
    {c : Nat} (hc : (k, c) ∈ nestings w.history) : c ∈ finishedTickets w.history := by
  refine (h.nested k c hc).resolve_right ?_
  rintro ⟨r', hsub⟩
  have hk : k ∈ w.stack r' := hsub.subset (by simp)
  have hr : r' = r := h.runner_unique (by rw [hstack]; exact List.mem_cons_self) (h.runs r' k hk).1
  subst hr
  -- nothing stands above the unit that is run
  have hnodup := h.nodup r'
  rw [hstack] at hsub hnodup
  have hnot : k ∉ below := (List.nodup_cons.mp hnodup).1
  rcases List.cons_sublist_cons'.mp hsub with hsub | ⟨-, hsub⟩
  · exact hnot (hsub.subset (by simp))
  · exact hnot (hsub.subset (by simp))

theorem Sound.lawful_shift (h : Sound w) (hs : Shift w w') : Lawful w'.limit w'.history := by
  cases hs with
  | @queued r child during after crew hopen hposting hcrew =>
    refine h.lawful.snoc ⟨hposting.postedBy h, h.length_posted.symm, fun _ hc => ?_, fun _ => rfl⟩
    rw [h.closed_iff.mpr hc] at hopen
    cases hopen
  | @inline r child during after crew hclosed hposting hcrew =>
    have hby := hposting.postedBy h
    have hposted : Lawful w.limit
        (w.history ++ [.work r during (.posted w.posted.length false)]) :=
      h.lawful.snoc ⟨hby, h.length_posted.symm, nofun,
        fun hopen => absurd (h.closed_iff.mp hclosed) hopen⟩
    have hnot : w.posted.length ∉ startedTickets
        (w.history ++ [.work r during (.posted w.posted.length false)]) := by
      rw [startedTickets_append]
      simpa [startedTickets, starts] using h.next_not_started
    have hlaw : EventLaw w.limit (w.history ++ [.work r during (.posted w.posted.length false)])
        (.work r during (.started w.posted.length r.place)) :=
      ⟨rfl, hnot, .inr ⟨hby.append rfl, w.history, rfl⟩⟩
    have hstarted := hposted.snoc hlaw
    rw [List.append_assoc] at hstarted
    exact hstarted
  | @taken n job crew hfree hnext hcrew =>
    exact h.lawful.snoc ⟨rfl, h.waiting_not_started (mem_queue_of_next? hnext),
      .inl (h.takenLaw hfree hnext)⟩
  | @logged r k entry next below crew hjobs hcrew =>
    exact h.lawful.snoc ⟨k, rfl, h.runs r k (by rw [stack_apply, hjobs]; exact List.mem_cons_self)⟩
  | passed hcrew => exact h.lawful
  | @finished r k work below crew hjobs hover hcrew =>
    have hstack : w.stack r = k :: below.map (·.ticket) := by rw [stack_apply, hjobs]; rfl
    exact h.lawful.snoc ⟨rfl, h.runs r k (by rw [hstack]; exact List.mem_cons_self),
      fun c hc => h.nested_finished hstack hc⟩
  | closed hopen =>
    refine h.lawful.snoc fun hc => ?_
    rw [h.closed_iff.mpr hc] at hopen
    cases hopen
  | refused hclosed => exact h.lawful.snoc ⟨rfl, h.closed_iff.mp hclosed⟩
  | ended hclosing hqueue hidle =>
    refine h.lawful.snoc ⟨h.closed_iff.mp (h.closing hclosing), fun k hk => ?_⟩
    have htaken := h.taken.mem_iff.mpr hk
    rw [hqueue, List.map_nil, List.append_nil] at htaken
    obtain ⟨⟨n, k⟩, hn, rfl⟩ := List.mem_map.mp htaken
    refine (h.begun _ _ (mem_starts_of_mem_takings hn)).resolve_right ?_
    rw [stack_apply, hidle]
    exact List.not_mem_nil

/-! ### The numbers -/

section Quiet

variable {h : List WorkshopEvent}

theorem startedTickets_append_of_quiet (hes : starts es = []) :
    startedTickets (h ++ es) = startedTickets h := by
  rw [startedTickets, starts_append, hes, List.append_nil]
  rfl

theorem takenTickets_append_of_quiet (hes : takings es = []) :
    takenTickets (h ++ es) = takenTickets h := by
  rw [takenTickets, takings_append, hes, List.append_nil]
  rfl

theorem queuedTickets_append_of_quiet (hes : queuedTickets es = []) :
    queuedTickets (h ++ es) = queuedTickets h := by
  rw [queuedTickets_append, hes, List.append_nil]

/-- What nobody starts nobody takes. -/
theorem takings_eq_nil (hes : starts es = []) : takings es = [] := by
  refine List.eq_nil_iff_forall_not_mem.mpr fun ⟨n, k⟩ hk => ?_
  have hstarts := mem_starts_of_mem_takings hk
  rw [hes] at hstarts
  cases hstarts

/-- A unit that runs at once is not taken. -/
theorem takings_inline (hby : PostedBy h r during) (k : Nat) (queued : Bool) (place : Place) :
    takings [.work r during (.posted k queued), .work r during (.started k place)] = [] := by
  cases during with
  | some p => cases r <;> rfl
  | none =>
    cases r with
    | outside n => rfl
    | worker n => cases hby

end Quiet

/-- What happens to units that were posted and started before changes no numbers. -/
theorem Counted.of_quiet (h : Counted w) (hlimit : w'.limit = w.limit) (hqueue : w'.queue = w.queue)
    (hposted : w'.posted = w.posted) (hhistory : w'.history = w.history ++ es)
    (hes : postedTickets es = []) (hs : starts es = []) : Counted w' := by
  have hqueued : queuedTickets es = [] := by
    refine List.eq_nil_iff_forall_not_mem.mpr fun k hk => ?_
    obtain ⟨r, during, he⟩ := mem_queuedTickets.mp hk
    have hk : k ∈ postedTickets es := mem_postedTickets.mpr ⟨r, during, true, he⟩
    rw [hes] at hk
    cases hk
  have hstarted : startedTickets w'.history = startedTickets w.history := by
    rw [hhistory, startedTickets_append_of_quiet hs]
  have htaken : takenTickets w'.history = takenTickets w.history := by
    rw [hhistory, takenTickets_append_of_quiet (takings_eq_nil hs)]
  have hsame : queuedTickets w'.history = queuedTickets w.history := by
    rw [hhistory, queuedTickets_append_of_quiet hqueued]
  constructor
  · rw [hhistory, postedTickets_append, hes, List.append_nil, hposted]
    exact h.length_posted
  · rw [hstarted, hqueue, hposted]
    exact h.started
  · rw [htaken, hqueue, hsame]
    exact h.taken
  · rw [htaken, hqueue, hsame, hlimit]
    exact h.inOrder

theorem Sound.counted_shift (h : Sound w) (hs : Shift w w') : Counted w' := by
  cases hs with
  | @queued r child during after crew hopen hposting hcrew =>
    have hquiet : starts [.work r during (.posted w.posted.length true)] = [] := rfl
    constructor
    · rw [postedTickets_append, List.length_append, h.length_posted, List.length_append]
      rfl
    · rw [startedTickets_append_of_quiet hquiet, List.length_append, List.length_singleton,
        List.range_succ, List.map_append, ← List.append_assoc]
      exact h.started.append_right _
    · rw [takenTickets_append_of_quiet (takings_eq_nil hquiet), queuedTickets_append,
        List.map_append, ← List.append_assoc]
      exact h.taken.append_right _
    · intro n hlimit
      rw [takenTickets_append_of_quiet (takings_eq_nil hquiet), queuedTickets_append,
        List.map_append, ← List.append_assoc, h.inOrder n hlimit]
      rfl
  | @inline r child during after crew hclosed hposting hcrew =>
    have htaken := takings_inline (hposting.postedBy h) w.posted.length false r.place
    constructor
    · rw [postedTickets_append, List.length_append, h.length_posted, List.length_append]
      rfl
    · rw [startedTickets_append, List.length_append, List.length_singleton, List.range_succ]
      show (startedTickets w.history ++ [w.posted.length] ++ w.queue.map (·.ticket)).Perm _
      rw [List.append_assoc]
      refine (List.perm_append_comm.append_left _).trans ?_
      rw [← List.append_assoc]
      exact h.started.append_right _
    · rw [takenTickets_append_of_quiet htaken, queuedTickets_append_of_quiet rfl]
      exact h.taken
    · intro n hlimit
      rw [takenTickets_append_of_quiet htaken, queuedTickets_append_of_quiet rfl]
      exact h.inOrder n hlimit
  | @taken n job crew hfree hnext hcrew =>
    have hperm := perm_tickets_of_next? hnext
    constructor
    · rw [postedTickets_append, List.length_append]
      exact h.length_posted
    · rw [startedTickets_append, List.append_assoc]
      exact (hperm.symm.append_left _).trans h.started
    · rw [takenTickets_append, queuedTickets_append_of_quiet rfl, List.append_assoc]
      exact (hperm.symm.append_left _).trans h.taken
    · intro m hlimit
      obtain ⟨-, hfront⟩ := queue_eq_of_next? (w := w) hlimit hnext
      have hold := h.inOrder m hlimit
      rw [hfront] at hold
      rw [takenTickets_append, queuedTickets_append_of_quiet rfl, List.append_assoc]
      exact hold
  | logged => exact h.of_quiet rfl rfl rfl rfl rfl rfl
  | passed =>
    have hhistory : w.history = w.history ++ [] := (List.append_nil _).symm
    exact h.of_quiet rfl rfl rfl hhistory rfl rfl
  | finished => exact h.of_quiet rfl rfl rfl rfl rfl rfl
  | closed => exact h.of_quiet rfl rfl rfl rfl rfl rfl
  | refused => exact h.of_quiet rfl rfl rfl rfl rfl rfl
  | ended => exact h.of_quiet rfl rfl rfl rfl rfl rfl

/-! ### Who has begun what -/

theorem ticketsOf_eq_update {crew : List (Runner × WorkThread)} {js : List Job}
    (hcrew : jobsOf crew = Function.update w.jobs r js) :
    ticketsOf crew = Function.update w.stack r (js.map (·.ticket)) := by
  funext r'
  rw [ticketsOf, hcrew, Function.update_apply, Function.update_apply]
  split <;> rfl

/-- Nobody starts or finishes a unit. -/
theorem Staffed.of_stack (h : Staffed w) (hstack : w'.stack = w.stack)
    (hhistory : w'.history = w.history ++ es) (hs : starts es = []) (hf : finishedTickets es = [])
    (hn : nestings es = []) : Staffed w' := by
  have hstarts : starts w'.history = starts w.history := by
    rw [hhistory, starts_append, hs, List.append_nil]
  have hfinished : finishedTickets w'.history = finishedTickets w.history := by
    rw [hhistory, finishedTickets_append, hf, List.append_nil]
  have hnestings : nestings w'.history = nestings w.history := by
    rw [hhistory, nestings_append, hn, List.append_nil]
  constructor
  · intro r k hk
    rw [Runs, hstarts, hfinished]
    exact h.runs r k (hstack ▸ hk)
  · rw [hstack]
    exact h.nodup
  · rw [hstarts, hfinished, hstack]
    exact h.begun
  · rw [hnestings, hfinished, hstack]
    exact h.nested

/-- A runner starts a unit. -/
theorem Sound.staffed_push (h : Sound w) (hk : k ∉ startedTickets w.history)
    (hstack : w'.stack = Function.update w.stack r (k :: w.stack r))
    (hhistory : w'.history = w.history ++ es) (hs : starts es = [(r, k)])
    (hf : finishedTickets es = []) (hn : ∀ x ∈ nestings es, ∃ p ∈ w.stack r, x = (p, k)) :
    Staffed w' := by
  have hfinished : finishedTickets w'.history = finishedTickets w.history := by
    rw [hhistory, finishedTickets_append, hf, List.append_nil]
  have hstarts : starts w'.history = starts w.history ++ [(r, k)] := by
    rw [hhistory, starts_append, hs]
  have hgrows : ∀ r', (w.stack r').Sublist (w'.stack r') := by
    intro r'
    rw [hstack, Function.update_apply]
    split
    · next heq =>
      subst heq
      exact List.sublist_cons_self _ _
    · exact List.Sublist.refl _
  have htop : w'.stack r = k :: w.stack r := by rw [hstack, Function.update_self]
  have hmem : ∀ r' k', k' ∈ w'.stack r' → k' ∈ w.stack r' ∨ (r', k') = (r, k) := by
    intro r' k' hk'
    rw [hstack, Function.update_apply] at hk'
    split at hk'
    · next heq =>
      subst heq
      rcases List.mem_cons.mp hk' with rfl | hk'
      · exact .inr rfl
      · exact .inl hk'
    · exact .inl hk'
  have hnew : ∀ r', k ∉ w.stack r' := fun r' hk' =>
    hk (mem_startedTickets.mpr ⟨r', (h.runs r' k hk').1⟩)
  constructor
  · intro r' k' hk'
    rw [Runs, hstarts, hfinished]
    rcases hmem r' k' hk' with hold | heq
    · exact ⟨List.mem_append_left _ (h.runs r' k' hold).1, (h.runs r' k' hold).2⟩
    · cases heq
      exact ⟨List.mem_append_right _ List.mem_cons_self,
        fun hfin => hk (h.lawful.started_of_finished hfin)⟩
  · intro r'
    rw [hstack, Function.update_apply]
    split
    · exact List.nodup_cons.mpr ⟨hnew r, h.nodup r⟩
    · exact h.nodup r'
  · intro r' k' hk'
    rw [hfinished]
    rw [hstarts] at hk'
    rcases List.mem_append.mp hk' with hold | hlast
    · exact (h.begun r' k' hold).imp_right fun hin => (hgrows r').subset hin
    · cases List.mem_singleton.mp hlast
      exact .inr (htop ▸ List.mem_cons_self)
  · intro p c hc
    rw [hfinished]
    rw [hhistory, nestings_append] at hc
    rcases List.mem_append.mp hc with hold | hlast
    · refine (h.nested p c hold).imp_right ?_
      rintro ⟨r', hsub⟩
      exact ⟨r', hsub.trans (hgrows r')⟩
    · obtain ⟨p, hp, heq⟩ := hn _ hlast
      cases heq
      refine .inr ⟨r, ?_⟩
      rw [htop]
      exact (List.singleton_sublist.mpr hp).cons_cons k

/-- A runner finishes the unit that it runs. -/
theorem Sound.staffed_pop (h : Sound w) {below : List Nat} (hbegun : w.stack r = k :: below)
    (hstack : w'.stack = Function.update w.stack r below)
    (hhistory : w'.history = w.history ++ [.work r (some k) (.finished k)]) : Staffed w' := by
  have hk : k ∈ w.stack r := by rw [hbegun]; exact List.mem_cons_self
  have hnodup := h.nodup r
  rw [hbegun] at hnodup
  obtain ⟨hnot, hbelow⟩ := List.nodup_cons.mp hnodup
  have hfinished : ∀ k', k' ∈ finishedTickets w'.history ↔
      k' ∈ finishedTickets w.history ∨ k' = k := by
    intro k'
    rw [hhistory, finishedTickets_append, List.mem_append]
    exact or_congr_right List.mem_singleton
  have hstarts : starts w'.history = starts w.history := by
    rw [hhistory, starts_append]
    exact List.append_nil _
  have hnestings : nestings w'.history = nestings w.history := by
    rw [hhistory, nestings_append]
    exact List.append_nil _
  -- what stays begun is what was begun, without the unit that finishes
  have hstays : ∀ r', w'.stack r' = w.stack r' ∧ r' ≠ r ∨ w'.stack r' = below ∧ r' = r := by
    intro r'
    rw [hstack, Function.update_apply]
    split
    · next heq => exact .inr ⟨rfl, heq⟩
    · next hne => exact .inl ⟨rfl, hne⟩
  have hmem : ∀ r' k', k' ∈ w'.stack r' → k' ∈ w.stack r' ∧ k' ≠ k := by
    intro r' k' hk'
    rcases hstays r' with ⟨hsame, hne⟩ | ⟨hsame, rfl⟩
    · rw [hsame] at hk'
      refine ⟨hk', ?_⟩
      rintro rfl
      exact hne (h.runner_unique hk (h.runs r' k' hk').1)
    · rw [hsame] at hk'
      refine ⟨by rw [hbegun]; exact List.mem_cons_of_mem _ hk', ?_⟩
      rintro rfl
      exact hnot hk'
  constructor
  · intro r' k' hk'
    obtain ⟨hold, hne⟩ := hmem r' k' hk'
    rw [Runs, hstarts, hfinished]
    exact ⟨(h.runs r' k' hold).1, not_or.mpr ⟨(h.runs r' k' hold).2, hne⟩⟩
  · intro r'
    rcases hstays r' with ⟨hsame, -⟩ | ⟨hsame, -⟩
    · exact hsame ▸ h.nodup r'
    · exact hsame ▸ hbelow
  · intro r' k' hk'
    rw [hfinished]
    rw [hstarts] at hk'
    rcases h.begun r' k' hk' with hfin | hin
    · exact .inl (.inl hfin)
    · rcases hstays r' with ⟨hsame, -⟩ | ⟨hsame, rfl⟩
      · exact .inr (hsame ▸ hin)
      · rw [hbegun] at hin
        rcases List.mem_cons.mp hin with rfl | hin
        · exact .inl (.inr rfl)
        · exact .inr (hsame ▸ hin)
  · intro p c hc
    rw [hfinished]
    rw [hnestings] at hc
    rcases h.nested p c hc with hfin | ⟨r', hsub⟩
    · exact .inl (.inl hfin)
    · rcases hstays r' with ⟨hsame, -⟩ | ⟨hsame, rfl⟩
      · exact .inr ⟨r', hsame ▸ hsub⟩
      · rw [hbegun] at hsub
        rcases List.cons_sublist_cons'.mp hsub with hsub | ⟨rfl, -⟩
        · exact .inr ⟨r', hsame ▸ hsub⟩
        · exact .inl (.inr rfl)

theorem Sound.staffed_shift (h : Sound w) (hs : Shift w w') : Staffed w' := by
  cases hs with
  | @queued r child during after crew hopen hposting hcrew =>
    refine h.of_stack ?_ rfl rfl rfl (by cases during <;> rfl)
    refine (ticketsOf_eq_update hcrew).trans ?_
    rw [hposting.tickets_eq]
    exact Function.update_eq_self r w.stack
  | @inline r child during after crew hclosed hposting hcrew =>
    refine h.staffed_push h.next_not_started ?_ rfl rfl rfl ?_
    · refine (ticketsOf_eq_update hcrew).trans ?_
      rw [List.map_cons, hposting.tickets_eq]
      rfl
    · intro x hx
      cases during with
      | none => cases hx
      | some p => exact ⟨p, hposting.mem_tickets, List.mem_singleton.mp hx⟩
  | @taken n job crew hfree hnext hcrew =>
    refine h.staffed_push (h.waiting_not_started (mem_queue_of_next? hnext)) ?_ rfl rfl rfl nofun
    refine (ticketsOf_eq_update hcrew).trans ?_
    rw [stack_apply, hfree]
    rfl
  | @logged r k entry next below crew hjobs hcrew =>
    refine h.of_stack ?_ rfl rfl rfl rfl
    refine (ticketsOf_eq_update hcrew).trans ?_
    refine (congrArg _ ?_).trans (Function.update_eq_self r w.stack)
    rw [stack_apply, hjobs]
    rfl
  | @passed crew gateOpen hcrew =>
    have hhistory : w.history = w.history ++ [] := (List.append_nil _).symm
    refine h.of_stack ?_ hhistory rfl rfl rfl
    funext r
    rcases hcrew r with hsame | ⟨k, next, waited, below, hjobs, hpassed⟩
    · exact congrArg (List.map (·.ticket)) hsame
    · show (jobsOf crew r).map (·.ticket) = (w.jobs r).map (·.ticket)
      rw [hjobs, hpassed]
      rfl
  | @finished r k work below crew hjobs hover hcrew =>
    refine h.staffed_pop ?_ (ticketsOf_eq_update hcrew) rfl
    rw [stack_apply, hjobs]
    rfl
  | closed => exact h.of_stack rfl rfl rfl rfl rfl
  | refused => exact h.of_stack rfl rfl rfl rfl rfl
  | ended => exact h.of_stack rfl rfl rfl rfl rfl

/-! ### What is left of a unit -/

/-- Nothing is done while another unit is run. -/
theorem deeds_eq_nil_of_during (hes : ∀ r p e, .work r (some p) e ∈ es → p ≠ k) :
    deeds k es = [] := by
  refine List.filterMap_eq_nil_iff.mpr fun e he => ?_
  split
  · next r p text => exact if_neg (hes r p _ he)
  · next r p c queued => exact if_neg (hes r p _ he)
  · rfl

section Course

variable {rest work : Work} {more : List Work}

theorem Course.of_deeds (h : w.Course r k rest) (hposted : w'.posted = w.posted ++ more)
    (hhistory : w'.history = w.history ++ es) (hes : deeds k es = []) : w'.Course r k rest := by
  obtain ⟨work, hwork, hdoes⟩ := h
  refine ⟨work, ?_, ?_⟩
  · rw [hposted, List.getElem?_append_left (List.getElem?_eq_some_iff.mp hwork).1, hwork]
  · rw [hposted, hhistory, deeds_append, hes, List.append_nil]
    exact hdoes.append more

/-- A unit that is started has done nothing yet. -/
theorem Sound.course_fresh (h : Sound w) (hk : k ∉ startedTickets w.history)
    (hwork : w'.posted[k]? = some work) (hhistory : w'.history = w.history ++ es)
    (hes : deeds k es = []) : w'.Course r k work := by
  refine ⟨work, hwork, ?_⟩
  rw [hhistory, deeds_append, h.lawful.deeds_eq_nil hk, hes]
  exact .nothing

/-- The unit that is run goes on, and those that posted it wait. -/
theorem Sound.ticket_ne_of_below (h : Sound w) {below : List Job}
    (hjobs : w.jobs r = ⟨k, work⟩ :: below) {j : Job} (hj : j ∈ below) : j.ticket ≠ k := by
  have hnodup := h.nodup r
  rw [stack_apply, hjobs, List.map_cons, List.nodup_cons] at hnodup
  rintro rfl
  exact hnodup.1 (List.mem_map.mpr ⟨j, hj, rfl⟩)

/-- A unit that posts another one has done so. -/
theorem Sound.course_posting (h : Sound w) (queued : Bool)
    (hposting : Posting r child during (w.jobs r) later)
    (hposted : w'.posted = w.posted ++ [child]) (hhistory : w'.history = w.history ++ es)
    (hes : ∀ k, during = some k → deeds k es = [.posted w.posted.length queued]) :
    ∀ j ∈ later, j ∈ w.jobs r ∧ during ≠ some j.ticket ∨ w'.Course r j.ticket j.work := by
  generalize hbefore : w.jobs r = before at hposting
  cases hposting with
  | outside hplace =>
    intro j hj
    cases hj
  | @inside k next below =>
    intro j hj
    rcases List.mem_cons.mp hj with rfl | hj
    · obtain ⟨work, hwork, hdoes⟩ := h.underWay r ⟨k, .post child next⟩
        (hbefore ▸ List.mem_cons_self)
      refine .inr ⟨work, ?_, ?_⟩
      · rw [hposted, List.getElem?_append_left (List.getElem?_eq_some_iff.mp hwork).1, hwork]
      · rw [hposted, hhistory, deeds_append, hes k rfl]
        refine (hdoes.append [child]).post w.posted.length queued ?_
        exact List.getElem?_concat_length
    · refine .inl ⟨List.mem_cons_of_mem _ hj, fun heq => ?_⟩
      exact h.ticket_ne_of_below hbefore hj (Option.some.inj heq).symm

/-- A runner makes a step. -/
theorem Sound.faithful_step (h : Sound w) (hlawful : Lawful w'.limit w'.history)
    (during : Option Nat) {js : List Job} (hposted : w'.posted = w.posted ++ more)
    (hhistory : w'.history = w.history ++ es)
    (hjobs : w'.jobs = Function.update w.jobs r js)
    (hduring : ∀ p, during = some p → p ∈ w.stack r)
    (hes : ∀ r p e, .work r (some p) e ∈ es → during = some p)
    (hqueue : ∀ j ∈ w'.queue, w'.posted[j.ticket]? = some j.work)
    (hjs : ∀ j ∈ js, j ∈ w.jobs r ∧ during ≠ some j.ticket ∨ w'.Course r j.ticket j.work)
    (hover : ∀ k ∈ finishedTickets es,
      k ∈ w.stack r ∧ (w'.Course r k .done ∨ w'.Course r k .panic)) : Faithful w' := by
  have hquiet : ∀ k, during ≠ some k → deeds k es = [] := by
    intro k hk
    refine deeds_eq_nil_of_during fun r p e he heq => hk ?_
    rw [hes r p e he, heq]
  have hstarts : ∀ x ∈ starts w.history, x ∈ starts w'.history := by
    intro x hx
    rw [hhistory, starts_append]
    exact List.mem_append_left _ hx
  constructor
  · exact hqueue
  · intro r' j hj
    rw [hjobs, Function.update_apply] at hj
    have hframe : j ∈ w.jobs r' → during ≠ some j.ticket → w'.Course r' j.ticket j.work :=
      fun hold hne => (h.underWay r' j hold).of_deeds hposted hhistory (hquiet _ hne)
    split at hj
    · next heq =>
      subst heq
      exact (hjs j hj).elim (fun hold => hframe hold.1 hold.2) id
    · next hne =>
      refine hframe hj fun heq => hne ?_
      exact h.runner_unique (hduring _ heq) (h.runs r' _ (List.mem_map_of_mem hj)).1
  · intro r' k hs hf
    rw [hhistory, finishedTickets_append] at hf
    rcases List.mem_append.mp hf with hold | hnew
    · obtain ⟨r'', hr''⟩ := mem_startedTickets.mp (h.lawful.started_of_finished hold)
      obtain rfl := hlawful.starts_unique hs (hstarts _ hr'')
      have hne : during ≠ some k := fun heq => (h.runs r k (hduring k heq)).2 hold
      exact (h.complete r' k hr'' hold).imp
        (fun hc => hc.of_deeds hposted hhistory (hquiet k hne))
        (fun hc => hc.of_deeds hposted hhistory (hquiet k hne))
    · obtain ⟨hstack, hcourse⟩ := hover k hnew
      obtain rfl := hlawful.starts_unique hs (hstarts _ (h.runs r k hstack).1)
      exact hcourse

end Course

/-- Nothing happens to units of work. -/
theorem Faithful.of_record (h : Faithful w) (hqueue : w'.queue = w.queue)
    (hposted : w'.posted = w.posted) (hjobs : w'.jobs = w.jobs)
    (hhistory : w'.history = w.history ++ es) (hd : ∀ k, deeds k es = []) (hs : starts es = [])
    (hf : finishedTickets es = []) : Faithful w' := by
  have hsame : ∀ r k rest, w.Course r k rest → w'.Course r k rest := fun r k rest hc =>
    hc.of_deeds (by rw [hposted, List.append_nil]) hhistory (hd k)
  constructor
  · rw [hqueue, hposted]
    exact h.waiting
  · rw [hjobs]
    exact fun r j hj => hsame _ _ _ (h.underWay r j hj)
  · rw [hhistory, starts_append, finishedTickets_append, hs, hf, List.append_nil, List.append_nil]
    exact fun r k hk hfin => (h.complete r k hk hfin).imp (hsame _ _ _) (hsame _ _ _)

/-- The units that were posted stay what they are. -/
theorem Faithful.getElem?_append (h : Faithful w) {j : Job} (hj : j ∈ w.queue) (more : List Work) :
    (w.posted ++ more)[j.ticket]? = some j.work := by
  have hwork := h.waiting j hj
  rw [List.getElem?_append_left (List.getElem?_eq_some_iff.mp hwork).1, hwork]

theorem Sound.faithful_shift (h : Sound w) (hs : Shift w w') : Faithful w' := by
  have hlawful := h.lawful_shift hs
  cases hs with
  | @queued r child during after crew hopen hposting hcrew =>
    refine h.faithful_step hlawful during rfl rfl hcrew ?_ ?_ ?_ ?_ nofun
    · rintro p rfl
      exact hposting.mem_tickets
    · intro r' p e he
      cases List.mem_singleton.mp he
      rfl
    · intro j hj
      rcases List.mem_append.mp hj with hj | hj
      · exact h.getElem?_append hj [child]
      · cases List.mem_singleton.mp hj
        exact List.getElem?_concat_length
    · refine h.course_posting true hposting rfl rfl fun k hk => ?_
      subst hk
      simp [deeds]
  | @inline r child during after crew hclosed hposting hcrew =>
    refine h.faithful_step hlawful during rfl rfl hcrew ?_ ?_ ?_ ?_ nofun
    · rintro p rfl
      exact hposting.mem_tickets
    · intro r' p e he
      rcases List.mem_cons.mp he with heq | he
      · cases heq
        rfl
      · cases List.mem_singleton.mp he
        rfl
    · intro j hj
      exact h.getElem?_append hj [child]
    · intro j hj
      rcases List.mem_cons.mp hj with rfl | hj
      · refine .inr (h.course_fresh h.next_not_started List.getElem?_concat_length rfl ?_)
        refine deeds_eq_nil_of_during fun r' p e he hp => ?_
        subst hp
        have hstarted : w.posted.length ∈ w.stack r := by
          rcases List.mem_cons.mp he with heq | he
          · cases heq
            exact hposting.mem_tickets
          · cases List.mem_singleton.mp he
            exact hposting.mem_tickets
        exact h.next_not_started (mem_startedTickets.mpr ⟨r, (h.runs r _ hstarted).1⟩)
      · refine h.course_posting false hposting rfl rfl (fun k hk => ?_) j hj
        subst hk
        simp [deeds]
  | @taken n job crew hfree hnext hcrew =>
    refine h.faithful_step hlawful none (List.append_nil _).symm rfl hcrew nofun ?_ ?_ ?_ nofun
    · intro r p e he
      cases List.mem_singleton.mp he
    · intro j hj
      exact h.waiting j (List.mem_of_mem_eraseP hj)
    · intro j hj
      obtain rfl := List.mem_singleton.mp hj
      have hqueue := mem_queue_of_next? hnext
      exact .inr (h.course_fresh (h.waiting_not_started hqueue) (h.waiting j hqueue) rfl rfl)
  | @logged r k entry next below crew hjobs hcrew =>
    refine h.faithful_step hlawful (some k) (List.append_nil _).symm rfl hcrew ?_ ?_ h.waiting ?_
      nofun
    · rintro p ⟨⟩
      rw [stack_apply, hjobs]
      exact List.mem_cons_self
    · intro r' p e he
      cases List.mem_singleton.mp he
      rfl
    · intro j hj
      rcases List.mem_cons.mp hj with rfl | hj
      · obtain ⟨work, hwork, hdoes⟩ := h.underWay r ⟨k, .log entry next⟩
          (hjobs ▸ List.mem_cons_self)
        refine .inr ⟨work, hwork, ?_⟩
        rw [deeds_append]
        simpa [deeds] using hdoes.log
      · refine .inl ⟨hjobs ▸ List.mem_cons_of_mem _ hj, fun heq => ?_⟩
        exact h.ticket_ne_of_below hjobs hj (Option.some.inj heq).symm
  | @passed crew gateOpen hcrew =>
    refine ⟨h.waiting, fun r j hj => ?_, h.complete⟩
    rcases hcrew r with hsame | ⟨k, next, waited, below, hjobs, hpassed⟩
    · exact h.underWay r j (hsame ▸ hj)
    · have hold := h.underWay r
      rw [hjobs] at hold
      have hj : j ∈ (⟨k, next waited⟩ :: below : List Job) := hpassed ▸ hj
      rcases List.mem_cons.mp hj with rfl | hj
      · obtain ⟨work, hwork, hdoes⟩ := hold _ List.mem_cons_self
        exact ⟨work, hwork, hdoes.wait waited⟩
      · exact hold j (List.mem_cons_of_mem _ hj)
  | @finished r k work below crew hjobs hover hcrew =>
    have hstack : k ∈ w.stack r := by rw [stack_apply, hjobs]; exact List.mem_cons_self
    have hleft : w.Course r k work := h.underWay r ⟨k, work⟩ (hjobs ▸ List.mem_cons_self)
    refine h.faithful_step hlawful (some k) (List.append_nil _).symm rfl hcrew ?_ ?_ h.waiting ?_ ?_
    · rintro p ⟨⟩
      exact hstack
    · intro r' p e he
      cases List.mem_singleton.mp he
      rfl
    · intro j hj
      refine .inl ⟨hjobs ▸ List.mem_cons_of_mem _ hj, fun heq => ?_⟩
      exact h.ticket_ne_of_below hjobs hj (Option.some.inj heq).symm
    · intro k' hk'
      obtain rfl := List.mem_singleton.mp hk'
      refine ⟨hstack, ?_⟩
      rcases hover with rfl | rfl
      · exact .inl (hleft.of_deeds (List.append_nil _).symm rfl rfl)
      · exact .inr (hleft.of_deeds (List.append_nil _).symm rfl rfl)
  | closed => exact h.of_record rfl rfl rfl rfl (fun _ => rfl) rfl rfl
  | refused => exact h.of_record rfl rfl rfl rfl (fun _ => rfl) rfl rfl
  | ended => exact h.of_record rfl rfl rfl rfl (fun _ => rfl) rfl rfl

/-! ### Closing -/

/-- The scheduler is not closed. -/
theorem Closing.of_quiet (h : Closing w) (hclosed : w'.closed = w.closed)
    (hclosing : w'.closing = w.closing) (hhistory : w'.history = w.history ++ es)
    (hes : .closed ∉ es) : Closing w' := by
  constructor
  · rw [hclosed, hhistory, h.closed_iff, List.mem_append]
    exact ⟨.inl, fun hc => hc.resolve_right hes⟩
  · rw [hclosed, hclosing]
    exact h.closing
  · rw [hclosed, hclosing, hhistory]
    exact fun hc => (h.ended hc).imp_right (List.mem_append_left _)

theorem Sound.closing_shift (h : Sound w) (hs : Shift w w') : Closing w' := by
  cases hs with
  | queued => exact h.toClosing.of_quiet rfl rfl rfl (by simp)
  | inline => exact h.toClosing.of_quiet rfl rfl rfl (by simp)
  | taken => exact h.toClosing.of_quiet rfl rfl rfl (by simp)
  | logged => exact h.toClosing.of_quiet rfl rfl rfl (by simp)
  | passed =>
    have hhistory : w.history = w.history ++ [] := (List.append_nil _).symm
    exact h.toClosing.of_quiet rfl rfl hhistory List.not_mem_nil
  | finished => exact h.toClosing.of_quiet rfl rfl rfl (by simp)
  | refused => exact h.toClosing.of_quiet rfl rfl rfl (by simp)
  | closed hopen =>
    exact ⟨⟨fun _ => List.mem_append_right _ List.mem_cons_self, fun _ => rfl⟩, fun _ => rfl,
      fun _ => .inl rfl⟩
  | ended hclosing hqueue hidle =>
    constructor
    · refine ⟨fun hc => List.mem_append_left _ (h.closed_iff.mp hc), fun hc => ?_⟩
      exact h.closed_iff.mpr ((List.mem_append.mp hc).resolve_right (by simp))
    · exact nofun
    · exact fun _ => .inr (List.mem_append_right _ List.mem_cons_self)

/-! ## Every interleaving -/

theorem Sound.shift (h : Sound w) (hs : Shift w w') : Sound w' where
  toCounted := h.counted_shift hs
  toStaffed := h.staffed_shift hs
  toFaithful := h.faithful_shift hs
  toClosing := h.closing_shift hs
  lawful := h.lawful_shift hs

theorem Placed.after (h : w.Placed) (turns : List WorkshopTurn) : (w.after turns).Placed := by
  induction turns generalizing w with
  | nil => exact h
  | cons x turns ih => exact ih (h.turn x)

theorem Sound.after (h : Sound w) (hplaced : w.Placed) (turns : List WorkshopTurn) :
    Sound (w.after turns) := by
  induction turns generalizing w with
  | nil => exact h
  | cons x turns ih => exact ih (h.shift (shift_turn hplaced x)) (hplaced.turn x)

/-- **Every interleaving is sound.** -/
theorem sound_after (limit : ConcurrencyLimit) (turns : List WorkshopTurn) :
    Sound ((start limit).after turns) :=
  (sound_start limit).after (placed_start limit) turns

theorem Shift.limit_eq (hs : Shift w w') : w'.limit = w.limit := by
  cases hs <;> rfl

/-- Turns do not change the limit. -/
theorem Placed.limit_after (h : w.Placed) (turns : List WorkshopTurn) :
    (w.after turns).limit = w.limit := by
  induction turns generalizing w with
  | nil => rfl
  | cons x turns ih => exact (ih (h.turn x)).trans (shift_turn h x).limit_eq

end TestEngine.Workshop
