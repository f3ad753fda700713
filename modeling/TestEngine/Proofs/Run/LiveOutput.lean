import TestEngine.Proofs.Run.Crew
import TestEngine.Proofs.Run.Staff
import TestEngine.Proofs.Run.Telling

/-!
# Output, live and recorded

What a test writes is reported while it runs, and once more with its result and at its end. Both
agree in every run, in turn or side by side, cancelled or not: each collection has tests of its own,
so at any time there is at most one thread to which somebody who listens to a test has to listen,
and this thread tells what it should.

* `Thread.Utters` — what a thread has yet to send. `Thread.Utters.step` says what becomes of it.
* `Attended` — there is one thread at most that a listener has to listen to.
* `AssemblyRun.outputAgrees` — the output of all tests of a run agrees.
-/

namespace TestEngine

open Process

variable {σ ω α : Type} {c : Transport σ} {i : NodeIds}

/-! ## Steps that leave nothing open -/

/-- If the test `i` is not open, then somebody who listens to it does not give up at these steps,
and it is not open after them. -/
def Complete (i : NodeIds) (as : List Action) : Prop :=
  listenTo i none (messages (visible as)) = some none

namespace Complete

variable {as bs : List Action}

theorem append (h : Complete i as) (h' : Complete i bs) : Complete i (as ++ bs) := by
  unfold Complete
  rw [visible_append, messages_append]
  exact listenTo_trans h h'

theorem of_madeOf (h : MadeOf (Complete i) as) : Complete i as := by
  induction h with
  | nil => rfl
  | cons hb _ ih => exact hb.append ih

theorem of_unheard (h : Unheard i as) : Complete i as := listenTo_of_ignored h none

end Complete

/-- No listener heeds what a node above the tests reports. -/
theorem Event.OfGroup.isHeeded_eq {event : Event} (h : event.OfGroup) : event.isHeeded = false := by
  cases h with
  | @starting node hlevel =>
    cases node with
    | test name => exact absurd rfl hlevel
    | _ => rfl
  | cleanupFailure _ _ | finished _ _ => rfl

theorem welcomes_complete (i : NodeIds) : Welcomes ω (fun _ => True) (Complete i) where
  owns_child := fun _ _ _ _ => trivial
  setup := fun h => .of_unheard (.of_setupBlock h)
  asked := fun _ => rfl
  reports := fun h _ b => .of_unheard (.reported (fun _ => h.isHeeded_eq) b)
  test := fun {caseIds} _ scope inherited t => by
    by_cases hids : caseIds.child .test t.id = i
    · subst hids
      exact .block (t.tells_run caseIds scope inherited)
    · refine Yields.mono (t.makes_run caseIds scope inherited) fun _ _ has => ?_
      exact has.mono fun _ h => .of_unheard (.of_ownBlock hids h)

/-- Only the collection of a test makes a difference to those who listen to it. -/
theorem welcomes_unheard (i : NodeIds) :
    Welcomes ω (fun ids => ids.collection ≠ i.collection) (Unheard i) where
  owns_child := fun {ids} level id hlevel howns => by
    cases level with
    | collection => exact absurd rfl hlevel
    | _ => exact howns
  setup := .of_setupBlock
  asked := fun _ => List.forall_mem_nil _
  reports := fun h _ b => .reported (fun _ => h.isHeeded_eq) b
  test := fun howns scope inherited t => by
    refine Yields.mono (t.makes_run _ scope inherited) fun _ _ has => ?_
    refine has.mono fun _ => .of_ownBlock ?_
    rintro rfl
    exact howns rfl

/-! ## What threads have yet to send -/

/-- Errors are about no test. -/
theorem Event.isHeeded_eq_false {event : Event} (h : event.isError = true) :
    event.isHeeded = false := by
  cases event <;> first | rfl | cases h

/-- A listener does not heed the reports of panics. -/
theorem listenTo_news (heard : Option String) (ms : List Message) :
    listenTo i heard (news ms) = listenTo i heard ms := by
  induction ms generalizing heard with
  | nil => rfl
  | cons m ms ih =>
    cases herror : m.event.isError with
    | true =>
      have hignored : m.Ignored i := fun _ => Event.isHeeded_eq_false herror
      rw [news, List.filter_cons_of_neg (by simp [herror]), listenTo_cons, hignored.listen_eq]
      exact ih heard
    | false =>
      rw [news, List.filter_cons_of_pos (by simp [herror]), listenTo_cons, listenTo_cons]
      exact congrArg _ (funext ih)

namespace Thread

variable {t t' : Thread ω α} {sh sh' : Shared σ ω} {P : List Message → Prop}

/-- Whatever a thread is answered, the messages that it has yet to send satisfy `P`. -/
def Utters (t : Thread ω α) (P : List Message → Prop) : Prop :=
  match t with
  | ready p => p.Yields fun as _ => P (messages (visible as))
  | noted m next => ∀ b, (next b).Yields fun as _ => P (m :: messages (visible as))
  | sent _ _ next => ∀ b, (next b).Yields fun as _ => P (messages (visible as))

namespace Utters

theorem mono {Q : List Message → Prop} (h : t.Utters P) (hPQ : ∀ ms, P ms → Q ms) :
    t.Utters Q := by
  cases t with
  | ready p => exact Yields.mono h fun _ _ => hPQ _
  | noted m next | sent m ticket next => exact fun b => Yields.mono (h b) fun _ _ => hPQ _

/-- A thread can always go on to its end. -/
theorem exists_messages (h : t.Utters P) (w : ω) : ∃ ms, P ms := by
  cases t with
  | ready p =>
    obtain ⟨as, a, htrace⟩ := p.exists_trace w
    exact ⟨_, h as a htrace⟩
  | noted m next | sent m ticket next =>
    obtain ⟨as, a, htrace⟩ := (next true).exists_trace w
    exact ⟨_, h true as a htrace⟩

/-- **A step of a thread sends some of these messages**, and leaves the others. -/
theorem step (h : t.Utters P) (hs : t.step? c sh = some (t', sh')) :
    ∃ ms, news sh'.sent = news (sh.sent ++ ms) ∧ t'.Utters fun ns => P (ms ++ ns) := by
  cases proceeds_of_step? hs with
  | @deliver m _ _ _ =>
    refine ⟨[m], ?_, Yields.of_queue h _⟩
    rw [Shared.sent_answer, Shared.news_sent_dispatch, Shared.sent_push]
  | note _ => exact ⟨[], congrArg news (List.append_nil _).symm, fun b => Yields.of_queue h b⟩
  | cancel => exact ⟨[], congrArg news (List.append_nil _).symm, Yields.of_cancel h⟩
  | ask => exact ⟨[], congrArg news (List.append_nil _).symm, Yields.of_askCancelled h _⟩
  | world => exact ⟨[], congrArg news (List.append_nil _).symm, Yields.of_world h _⟩
  | @journal entry _ _ =>
    have hsent : (sh.record [.activity entry]).sent = sh.sent :=
      Shared.sent_record fun _ hc => by cases List.mem_singleton.mp hc
    exact ⟨[], congrArg news (hsent.trans (List.append_nil _).symm), Yields.of_journal h⟩
  | @send m _ _ => exact ⟨[m], congrArg news (Shared.sent_push m), h⟩
  | answer _ =>
    refine ⟨[], ?_, h _⟩
    rw [Shared.sent_answer, List.append_nil]

end Utters

/-- What the thread has yet to send is complete for somebody who listens to the test `i` and has
heard `heard`. -/
def Speaks (i : NodeIds) (heard : Option String) (t : Thread ω α) : Prop :=
  t.Utters fun ms => listenTo i heard ms = some none

/-- What the thread has yet to send makes no difference to those who listen to the test `i`. -/
def IsSilent (i : NodeIds) (t : Thread ω α) : Prop := t.Utters fun ms => ∀ m ∈ ms, m.Ignored i

variable {heard : Option String}

theorem Speaks.step (h : t.Speaks i heard) (hheard : listenTo i none sh.sent = some heard)
    (hs : t.step? c sh = some (t', sh')) :
    ∃ heard', listenTo i none sh'.sent = some heard' ∧ t'.Speaks i heard' := by
  obtain ⟨ms, hsent, hrest⟩ := Utters.step h hs
  -- the listener does not give up at the end, so not at these messages either
  obtain ⟨ns, hns⟩ := hrest.exists_messages sh.world
  rw [listenTo_append] at hns
  obtain ⟨heard', hms, -⟩ := Option.bind_eq_some_iff.mp hns
  refine ⟨heard', ?_, ?_⟩
  · rw [← listenTo_news, hsent, listenTo_news]
    exact listenTo_trans hheard hms
  · simp only [listenTo_append, hms, Option.bind_some] at hrest
    exact hrest

theorem IsSilent.step (h : t.IsSilent i) (hheard : listenTo i none sh.sent = some heard)
    (hs : t.step? c sh = some (t', sh')) :
    listenTo i none sh'.sent = some heard ∧ t'.IsSilent i := by
  obtain ⟨ms, hsent, hrest⟩ := Utters.step h hs
  obtain ⟨ns, hns⟩ := hrest.exists_messages sh.world
  refine ⟨?_, ?_⟩
  · rw [← listenTo_news, hsent, listenTo_news]
    exact listenTo_trans hheard
      (listenTo_of_ignored (fun m hm => hns m (List.mem_append_left _ hm)) heard)
  · exact hrest.mono fun ns hns m hm => hns m (List.mem_append_right ms hm)

theorem speaks_ready {p : Process ω α} (h : p.Makes (Complete i)) :
    (ready p).Speaks i none := Yields.mono h fun _ _ => Complete.of_madeOf

theorem isSilent_ready {p : Process ω α} (h : p.Makes (Unheard i)) :
    (ready p).IsSilent i := Yields.mono h fun _ _ => Unheard.of_madeOf

end Thread

/-- What was sent does not change for a listener when it is delivered. -/
theorem Shared.listenTo_sent_dispatch {sh : Shared σ ω} :
    listenTo i none (sh.dispatch c).sent = listenTo i none sh.sent := by
  rw [← listenTo_news, news_sent_dispatch, listenTo_news]

/-! ## Runs -/

/-- A run on one thread, and somebody who listens to the test `i`. -/
def SoloRun.Attended (i : NodeIds) (r : SoloRun σ ω α) : Prop :=
  ∃ heard, listenTo i none r.shared.sent = some heard ∧ r.thread.Speaks i heard

theorem SoloRun.Attended.turn {r : SoloRun σ ω α} (h : r.Attended i) (x : SoloTurn) :
    (r.turn c x).Attended i := by
  obtain ⟨heard, hheard, hspeaks⟩ := h
  cases x with
  | dispatcher => exact ⟨heard, Shared.listenTo_sent_dispatch.trans hheard, hspeaks⟩
  | thread =>
    unfold SoloRun.turn
    cases hs : r.thread.step? c r.shared with
    | none => exact ⟨heard, hheard, hspeaks⟩
    | some next => exact hspeaks.step hheard hs

/-- Somebody who listens to the test `i` has to listen to one of these threads at most. -/
structure Attended (i : NodeIds) (ts : List (Thread ω α)) (sh : Shared σ ω) : Prop where
  heard : ∃ heard, listenTo i none sh.sent = some heard ∧
    ∀ t ∈ ts, t.IsSilent i ∨ t.Speaks i heard
  apart : ts.Pairwise fun t u => t.IsSilent i ∨ u.IsSilent i

namespace Attended

variable {before after : List (Thread ω α)} {t t' : Thread ω α} {sh sh' : Shared σ ω}

/-- All that is said of one of the threads and of the others. -/
theorem middle_iff : Attended i (before ++ t :: after) sh ↔
    (∃ heard, listenTo i none sh.sent = some heard ∧ (t.IsSilent i ∨ t.Speaks i heard) ∧
      ∀ u ∈ before ++ after, u.IsSilent i ∨ u.Speaks i heard) ∧
    (∀ u ∈ before ++ after, t.IsSilent i ∨ u.IsSilent i) ∧
      (before ++ after).Pairwise fun t u => t.IsSilent i ∨ u.IsSilent i := by
  constructor
  · rintro ⟨⟨heard, hheard, hall⟩, hapart⟩
    rw [List.pairwise_middle Or.symm, List.pairwise_cons] at hapart
    refine ⟨⟨heard, hheard, ?_⟩, hapart⟩
    exact List.forall_mem_cons.mp fun u hu => hall u (List.perm_middle.symm.subset hu)
  · rintro ⟨⟨heard, hheard, ht, hothers⟩, hapart⟩
    refine ⟨⟨heard, hheard, fun u hu => ?_⟩, ?_⟩
    · rcases List.mem_cons.mp (List.perm_middle.subset hu) with rfl | hu
      · exact ht
      · exact hothers u hu
    · rw [List.pairwise_middle Or.symm, List.pairwise_cons]
      exact hapart

/-- **A step of one of the threads**: if a listener need not listen to it, then it makes no
difference, and else the others make none. -/
theorem step (h : Attended i (before ++ t :: after) sh) (hs : t.step? c sh = some (t', sh')) :
    Attended i (before ++ t' :: after) sh' := by
  obtain ⟨⟨heard, hheard, ht, hothers⟩, hapart, hpairs⟩ := middle_iff.mp h
  by_cases hsilent : t.IsSilent i
  · obtain ⟨hheard', ht'⟩ := hsilent.step hheard hs
    exact middle_iff.mpr ⟨⟨heard, hheard', .inl ht', hothers⟩, fun _ _ => .inl ht', hpairs⟩
  · obtain ⟨heard', hheard', ht'⟩ := (ht.resolve_left hsilent).step hheard hs
    have hquiet : ∀ u ∈ before ++ after, u.IsSilent i :=
      fun u hu => (hapart u hu).resolve_left hsilent
    exact middle_iff.mpr ⟨⟨heard', hheard', .inr ht', fun u hu => .inl (hquiet u hu)⟩,
      fun u hu => .inr (hquiet u hu), hpairs⟩

theorem leave (h : Attended i (before ++ t :: after) sh) : Attended i (before ++ after) sh := by
  obtain ⟨⟨heard, hheard, -, hothers⟩, -, hpairs⟩ := middle_iff.mp h
  exact ⟨⟨heard, hheard, hothers⟩, hpairs⟩

theorem dispatch {ts : List (Thread ω α)} (h : Attended i ts sh) :
    Attended i ts (sh.dispatch c) := by
  obtain ⟨⟨heard, hheard, hall⟩, hapart⟩ := h
  exact ⟨⟨heard, Shared.listenTo_sent_dispatch.trans hheard, hall⟩, hapart⟩

end Attended

/-- Runs of collections of which somebody who listens to the test `i` has to listen to one at
most. -/
structure Listenable (i : NodeIds) (runs : List (Process ω Counts)) : Prop where
  complete : ∀ p ∈ runs, p.Makes (Complete i)
  apart : runs.Pairwise fun p q => p.Makes (Unheard i) ∨ q.Makes (Unheard i)

/-- The collections of a run have IDs of their own, so a test is in one of them at most. -/
theorem Collection.listenable_runs (r : AssemblyRun ω) {ls : List (Collection ω)}
    (hnodup : (ls.map (·.id)).Nodup) (i : NodeIds) :
    Listenable i (runs r.setup r.ids r.cases ls) where
  complete := by
    intro p hp
    obtain ⟨l, -, rfl⟩ := List.mem_map.mp hp
    exact (welcomes_complete i).makes_collection r.setup trivial _
  apart := by
    have hunheard : ∀ l : Collection ω, some l.id ≠ i.collection →
        (l.run r.setup r.ids (withKey (·.collection.id) l.id r.cases)).Makes (Unheard i) :=
      fun l hl => (welcomes_unheard i).makes_collection r.setup hl _
    refine List.pairwise_map.mpr ((List.pairwise_map.mp hnodup).imp fun {l l'} hne => ?_)
    by_cases hl : some l.id = i.collection
    · exact .inr (hunheard l' fun hl' => hne (Option.some.inj (hl.trans hl'.symm)))
    · exact .inl (hunheard l hl)

theorem Listenable.attended {runs : List (Process ω Counts)} (h : Listenable i runs)
    {sh : Shared σ ω} (hheard : listenTo i none sh.sent = some none) :
    Attended i (runs.map (·.beginning)) sh where
  heard := by
    refine ⟨none, hheard, fun t ht => .inr ?_⟩
    obtain ⟨p, hp, rfl⟩ := List.mem_map.mp ht
    exact Thread.speaks_ready ((welcomes_complete i).makes_unlessCancelled (h.complete p hp))
  apart := by
    have hsilent : ∀ {p : Process ω Counts}, p.Makes (Unheard i) → p.beginning.IsSilent i :=
      fun hp => Thread.isSilent_ready ((welcomes_unheard i).makes_unlessCancelled hp)
    exact List.pairwise_map.mpr (h.apart.imp fun hor => hor.imp hsilent hsilent)

/-- At any time somebody who listens to the test `i` has to listen to one thread at most. -/
def listenerLaw (r : AssemblyRun ω) (c : Transport σ) (i : NodeIds) : CrewLaw r c where
  opening := fun t sh => listenTo i none sh.sent = some none ∧ t.IsSilent i ∧
    t.rest.Yields fun _ found => ∀ runs, found = some runs → Listenable i runs
  crew := Attended i
  closing := fun t sh => (∃ heard, listenTo i none sh.sent = some heard) ∧ t.IsSilent i
  opening_step := fun ⟨hheard, ht, hfound⟩ hs => by
    obtain ⟨hheard', ht'⟩ := ht.step hheard hs
    exact ⟨hheard', ht', Thread.yields_step hfound hs⟩
  opening_dispatch := fun ⟨hheard, ht, hfound⟩ =>
    ⟨Shared.listenTo_sent_dispatch.trans hheard, ht, hfound⟩
  opens := fun {runs sh} ⟨hheard, _, hfound⟩ => (hfound.of_done runs rfl).attended hheard
  skips := fun {sh} ⟨hheard, _, _⟩ =>
    ⟨⟨none, hheard⟩, Thread.isSilent_ready ((welcomes_unheard i).makes_closing r 0)⟩
  crew_step := fun h hs => h.step hs
  crew_dispatch := fun h => h.dispatch
  leaves := fun h => h.leave
  closes := fun {sh} ⟨⟨heard, hheard, _⟩, _⟩ sum =>
    ⟨⟨heard, hheard⟩, Thread.isSilent_ready ((welcomes_unheard i).makes_closing r sum)⟩
  closing_step := fun ⟨⟨heard, hheard⟩, ht⟩ hs => by
    obtain ⟨hheard', ht'⟩ := ht.step hheard hs
    exact ⟨⟨heard, hheard'⟩, ht'⟩
  closing_dispatch := fun ⟨⟨heard, hheard⟩, ht⟩ =>
    ⟨⟨heard, Shared.listenTo_sent_dispatch.trans hheard⟩, ht⟩

/-- **Live and recorded output agree in every run**: in turn and side by side, on a bus of either
kind, with any sink, and however the threads of the run and the dispatcher take turns; and whatever
the hooks and the bodies of its tests write, and whether they return, fail or panic then. -/
theorem AssemblyRun.outputAgrees (r : AssemblyRun ω) (c : Transport σ) (sink : σ) (world : ω) :
    (∀ turns, OutputAgrees ((SoloRun.start r.inTurn sink world).after c turns).shared.sent) ∧
    ∀ limit turns,
      OutputAgrees ((ParallelRun.start r sink world).after r c limit turns).shared.sent := by
  constructor
  · refine fun turns => outputAgrees_of_listen fun i => ?_
    have hstart : (SoloRun.start r.inTurn sink world).Attended i :=
      ⟨none, rfl, Thread.speaks_ready ((welcomes_complete i).makes_inTurn r fun _ => trivial)⟩
    obtain ⟨heard, hheard, -⟩ :=
      List.foldlRecOn turns (SoloRun.turn c) hstart fun _ h x _ => h.turn x
    exact ⟨heard, hheard⟩
  · refine fun limit turns => outputAgrees_of_listen fun i => ?_
    have hstart : (listenerLaw r c i).opening (.ready r.opening) (.start sink world) :=
      ⟨rfl, Thread.isSilent_ready ((welcomes_unheard i).makes_opening r),
        yields_found fun ls hnodup => Collection.listenable_runs r hnodup i⟩
    have hholds := (listenerLaw r c i).holds_after hstart limit turns
    generalize (ParallelRun.start r sink world).after r c limit turns = run at hholds
    obtain ⟨stage, sh⟩ := run
    cases stage with
    | opening t => exact ⟨none, hholds.1⟩
    | inside waiting running sum =>
      obtain ⟨⟨heard, hheard, -⟩, -⟩ := hholds
      exact ⟨heard, hheard⟩
    | closing t => exact hholds.1

end TestEngine
