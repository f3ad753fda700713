import TestEngine.Proofs.Run.Calm
import TestEngine.Proofs.Run.Plan

/-!
# The order in which nodes start

A serial run starts its nodes as the plan says until it is stopped, and then no other case. Loops
of the run ask before each child whether the run is cancelled; what has to be shown is that a run
which was told to stop is cancelled before the next case, although user code may hear of it first.

* `Plays` — steps that start nodes by a plan. Each way of running children has its rule.
* `AssemblyRun.plays_inTurn` — a serial run plays its plan.
* `SerialRun.startsByPlan` — what this means for a run that is over.
-/

namespace TestEngine

open Process

variable {σ ω γ : Type}

/-! ## Answers along a trace -/

/-- Whoever was told to stop, here or before, is told so ever after. -/
def Heeds : Bool → List Action → Prop
  | _, [] => True
  | told, .queued _ b :: as => (told = true → b = false) ∧ Heeds (told || !b) as
  | told, .cancelled :: as => Heeds told as
  | told, .asked _ :: as => Heeds told as
  | told, .activity _ :: as => Heeds told as

theorem heeds_append (as bs : List Action) (told : Bool) :
    Heeds told (as ++ bs) ↔ Heeds told as ∧ Heeds (told || toldToStop as) bs := by
  induction as generalizing told with
  | nil => simp [Heeds, toldToStop]
  | cons a as ih =>
    cases a with
    | queued m b =>
      have htold : toldToStop (.queued m b :: as) = (!b || toldToStop as) := by
        cases b <;> rfl
      rw [List.cons_append, Heeds, Heeds, ih, htold, Bool.or_assoc, and_assoc]
    | cancelled => exact ih told
    | asked answer => exact ih told
    | activity entry => exact ih told

/-- What is not taken back in a record is not taken back along the trace. -/
theorem heeds_of_pairwise {as : List Action} (h : (visible as).Pairwise Occurrence.StaysTold)
    (told : Bool) (htold : told = true → ∀ m b, .queued m b ∈ visible as → b = false) :
    Heeds told as := by
  induction as generalizing told with
  | nil => trivial
  | cons a as ih =>
    cases a with
    | queued m b =>
      obtain ⟨hlater, hrest⟩ := List.pairwise_cons.mp h
      refine ⟨fun ht => htold ht m b List.mem_cons_self, ih hrest _ fun ht m' b' hm' => ?_⟩
      cases b with
      | true =>
        rw [Bool.not_true, Bool.or_false] at ht
        exact htold ht m' b' (List.mem_cons_of_mem _ hm')
      | false => exact hlater (.queued m' b') hm' m m' b' rfl rfl
    | cancelled => exact ih h told htold
    | asked answer => exact ih h told htold
    | activity entry =>
      exact ih (List.pairwise_cons.mp h).2 told fun ht m b hm =>
        htold ht m b (List.mem_cons_of_mem _ hm)

/-- Answers as a run gives them, when it was told to stop before or not, and cancelled or not. -/
structure Sensible (told cancelled : Bool) (as : List Action) : Prop where
  heeds : Heeds told as
  truthful : Truthful cancelled as

theorem sensible_append (as bs : List Action) (told cancelled : Bool) :
    Sensible told cancelled (as ++ bs) ↔ Sensible told cancelled as ∧
      Sensible (told || toldToStop as) (cancelledAfter cancelled as) bs := by
  constructor
  · rintro ⟨hheeds, htruthful⟩
    rw [heeds_append] at hheeds
    rw [truthful_append] at htruthful
    exact ⟨⟨hheeds.1, htruthful.1⟩, ⟨hheeds.2, htruthful.2⟩⟩
  · rintro ⟨⟨hheeds, htruthful⟩, hheeds', htruthful'⟩
    exact ⟨(heeds_append ..).mpr ⟨hheeds, hheeds'⟩,
      (truthful_append ..).mpr ⟨htruthful, htruthful'⟩⟩

/-- A run that is cancelled stays so. -/
theorem cancelledAfter_true (as : List Action) : cancelledAfter true as = true := by
  induction as with
  | nil => rfl
  | cons a as ih => cases a <;> exact ih

/-- Steps that obey cancel a run only if some message was answered with stop. -/
theorem Obeys.told {c : Bool} {as : List Action} (h : Obeys c as) (htruthful : Truthful c as)
    (hcancelled : cancelledAfter c as = true) : c = true ∨ toldToStop as = true := by
  induction h with
  | nil c => exact .inl hcancelled
  | @report c b m as _ _ ih =>
    rw [truthful_append, cancelledAfter_reported] at htruthful
    rw [cancelledAfter_append, cancelledAfter_reported] at hcancelled
    rw [toldToStop_append, toldToStop_reported, Bool.or_eq_true]
    rcases ih htruthful.2 hcancelled with hc | htold
    · exact (Bool.or_eq_true _ _ ▸ hc).imp_right .inl
    · exact .inr (.inr htold)
  | diagnostic _ ih =>
    refine (ih htruthful hcancelled).imp_right fun htold => ?_
    rw [← List.singleton_append, toldToStop_append, htold, Bool.or_true]
  | asked _ ih => exact ih htruthful.1 htruthful.2 hcancelled
  | activity _ ih => exact ih htruthful hcancelled

/-! ## What starts along a trace -/

/-- The messages with which nodes above the tests start. -/
def groupsOf (as : List Action) : List Message := groupStarts (messages (visible as))

/-- The messages with which cases start. -/
def casesOf (as : List Action) : List Message := caseStarts (messages (visible as))

theorem groupsOf_append (as bs : List Action) :
    groupsOf (as ++ bs) = groupsOf as ++ groupsOf bs := by
  unfold groupsOf
  rw [visible_append, messages_append, groupStarts_append]

theorem casesOf_append (as bs : List Action) : casesOf (as ++ bs) = casesOf as ++ casesOf bs := by
  unfold casesOf
  rw [visible_append, messages_append, caseStarts_append]

theorem casesOf_eq (as : List Action) : casesOf as = caseStarts (groupsOf as) :=
  (caseStarts_groupStarts _).symm

theorem groupsOf_reported (m : Message) (b : Bool) : groupsOf (reported m b) = groupStarts [m] := by
  unfold groupsOf
  rw [visible_reported]
  rfl

theorem casesOf_reported (m : Message) (b : Bool) : casesOf (reported m b) = caseStarts [m] := by
  rw [casesOf_eq, groupsOf_reported, caseStarts_groupStarts]

/-- Steps in which no node above the tests starts. -/
theorem casesOf_eq_nil {as : List Action} (h : groupsOf as = []) : casesOf as = [] := by
  rw [casesOf_eq, h]
  rfl

/-- Nothing starts while a node is set up or torn down, and nothing is cancelled. -/
structure Quiet (as : List Action) : Prop where
  groupsOf_eq : groupsOf as = []
  cancelledAfter_eq : ∀ c, cancelledAfter c as = c

theorem MadeOf.quiet {ids : NodeIds} {as : List Action} (h : MadeOf (SetupBlock ids) as) :
    Quiet as where
  groupsOf_eq := by
    refine h.eq_nil rfl groupsOf_append fun as has => ?_
    cases has with
    | user h => cases h <;> rfl
    | entry _ => rfl
  cancelledAfter_eq := h.cancelledAfter_eq

theorem Quiet.append {as bs : List Action} (h : Quiet as) (h' : Quiet bs) : Quiet (as ++ bs) where
  groupsOf_eq := by rw [groupsOf_append, h.groupsOf_eq, h'.groupsOf_eq, List.append_nil]
  cancelledAfter_eq := by
    intro c
    rw [cancelledAfter_append, h.cancelledAfter_eq, h'.cancelledAfter_eq]

/-! ## Playing a plan -/

/-- Steps that start nodes as planned, unless the run is told to stop; and then no case that is not
the next one. They begin when the run goes on. -/
structure Plays (plan : List Message) (as : List Action) : Prop where
  initial : Sensible false false as → casesOf as <+: caseStarts plan
  complete : Sensible false false as → toldToStop as = false → groupsOf as = plan
  prompt : Sensible false false as → cancelledAfter false as = true → toldToStop as = true

/-- Steps of a node, after which a run that was told to stop is cancelled. -/
structure NodePlays (plan : List Message) (as : List Action) : Prop extends Plays plan as where
  synced : Sensible false false as → toldToStop as = true → cancelledAfter false as = true

/-- Steps of a node that starts although the run was told to stop: no case starts, and the run is
cancelled. -/
def Refuses (as : List Action) : Prop :=
  Sensible true false as → casesOf as = [] ∧ cancelledAfter false as = true

theorem NodePlays.nil : NodePlays [] [] where
  initial := fun _ => List.prefix_refl _
  complete := fun _ _ => rfl
  prompt := fun _ h => nomatch h
  synced := fun _ h => nomatch h

/-- Steps in which no node above the tests starts. -/
theorem Plays.of_obeys {as : List Action} (hnone : groupsOf as = []) (h : Obeys false as) :
    Plays [] as where
  initial := fun _ => by rw [casesOf_eq_nil hnone]; exact List.nil_prefix
  complete := fun _ _ => hnone
  prompt := fun hs hc => (h.told hs.truthful hc).resolve_left nofun

/-- The cases of steps that nobody told to stop are those of the plan. -/
theorem Plays.casesOf_eq {plan : List Message} {as : List Action} (h : Plays plan as)
    (hs : Sensible false false as) (htold : toldToStop as = false) :
    casesOf as = caseStarts plan := by
  rw [TestEngine.casesOf_eq, h.complete hs htold]

/-- They do not cancel the run either. -/
theorem Plays.cancelledAfter_eq {plan : List Message} {as : List Action} (h : Plays plan as)
    (hs : Sensible false false as) (htold : toldToStop as = false) :
    cancelledAfter false as = false := by
  rw [← Bool.not_eq_true]
  intro hc
  rw [h.prompt hs hc] at htold
  cases htold

/-- Steps in a row. If the first ones cancel the run when they are told to stop, or else the second
ones start no case then, the plans are played in a row. -/
theorem Plays.append {plan plan' : List Message} {as bs : List Action} (h : Plays plan as)
    (h' : toldToStop as = false → Plays plan' bs)
    (hstop : Sensible false false as → toldToStop as = true →
      Sensible true (cancelledAfter false as) bs → casesOf bs = []) :
    Plays (plan ++ plan') (as ++ bs) where
  initial := by
    intro hs
    obtain ⟨has, hbs⟩ := (sensible_append ..).mp hs
    rw [casesOf_append, caseStarts_append]
    cases htold : toldToStop as with
    | true =>
      rw [htold] at hbs
      rw [hstop has htold hbs, List.append_nil]
      exact (h.initial has).trans (List.prefix_append _ _)
    | false =>
      rw [htold, h.cancelledAfter_eq has htold] at hbs
      rw [h.casesOf_eq has htold, List.prefix_append_right_inj]
      exact (h' htold).initial hbs
  complete := by
    intro hs htold
    obtain ⟨has, hbs⟩ := (sensible_append ..).mp hs
    rw [toldToStop_append, Bool.or_eq_false_iff] at htold
    rw [htold.1, h.cancelledAfter_eq has htold.1] at hbs
    rw [groupsOf_append, h.complete has htold.1, (h' htold.1).complete hbs htold.2]
  prompt := by
    intro hs hcancelled
    obtain ⟨has, hbs⟩ := (sensible_append ..).mp hs
    rw [toldToStop_append]
    rw [cancelledAfter_append] at hcancelled
    cases htold : toldToStop as with
    | true => rfl
    | false =>
      rw [h.cancelledAfter_eq has htold] at hcancelled hbs
      rw [htold] at hbs
      exact (h' htold).prompt hbs hcancelled

/-- Steps before which nothing starts. -/
theorem Quiet.plays {as : List Action} (h : Quiet as) : Plays [] as where
  initial := fun _ => by rw [casesOf_eq_nil h.groupsOf_eq]; exact List.nil_prefix
  complete := fun _ _ => h.groupsOf_eq
  prompt := fun _ hc => by
    rw [h.cancelledAfter_eq] at hc
    cases hc

/-- What is set up before the children of a node, and torn down after them. -/
theorem Plays.between {plan : List Message} {before inner after : List Action}
    (hbefore : Quiet before) (hafter : Quiet after)
    (h : toldToStop before = false → Plays plan inner)
    (hrefused : Sensible true false inner → casesOf inner = []) :
    Plays plan (before ++ inner ++ after) := by
  have hinner : Plays plan (before ++ inner) := by
    refine hbefore.plays.append h fun _ _ hs => hrefused ?_
    rwa [hbefore.cancelledAfter_eq] at hs
  have hall := hinner.append (fun _ => hafter.plays)
    (fun _ _ _ => casesOf_eq_nil hafter.groupsOf_eq)
  rwa [List.append_nil] at hall

/-! ## Children in a row -/

/-- Nothing happens in a run that is cancelled before its children run. -/
theorem yields_untilCancelled_idle (ps : List (Process ω Counts)) (sum : Counts) :
    (untilCancelled ps sum).Yields fun as _ => ∀ told, Sensible told true as → visible as = [] := by
  cases ps with
  | nil => exact .pure fun _ _ => rfl
  | cons p ps =>
    refine yields_isCancelled.bind ?_
    rintro _ b rfl
    cases b with
    | true => exact .pure fun _ _ => rfl
    | false => exact fun as n _ told hs => nomatch hs.truthful.1

theorem casesOf_eq_nil_of_idle {as : List Action} (h : visible as = []) : casesOf as = [] := by
  unfold casesOf
  rw [h]
  rfl

/-- A node, and then steps that do nothing if the run is cancelled. -/
theorem NodePlays.append {plan plan' : List Message} {as bs : List Action}
    (h : NodePlays plan as) (h' : NodePlays plan' bs)
    (hidle : ∀ told, Sensible told true bs → visible bs = []) :
    NodePlays (plan ++ plan') (as ++ bs) where
  toPlays := h.toPlays.append (fun _ => h'.toPlays) fun has htold hbs => by
    rw [h.synced has htold] at hbs
    exact casesOf_eq_nil_of_idle (hidle true hbs)
  synced := by
    intro hs htold
    obtain ⟨has, hbs⟩ := (sensible_append ..).mp hs
    rw [cancelledAfter_append]
    cases hfirst : toldToStop as with
    | true => rw [h.synced has hfirst, cancelledAfter_true]
    | false =>
      rw [toldToStop_append, hfirst, Bool.false_or] at htold
      cases hc : cancelledAfter false as with
      | true => exact cancelledAfter_true bs
      | false =>
        rw [hfirst, hc] at hbs
        exact h'.synced hbs htold

/-- Children that play their plans play them in a row. -/
theorem yields_untilCancelled_plays {run : γ → Process ω Counts} {plan : γ → List Message}
    (xs : List γ) (h : ∀ x ∈ xs, (run x).Yields fun as _ => NodePlays (plan x) as) (sum : Counts) :
    (untilCancelled (xs.map run) sum).Yields fun as _ => NodePlays (xs.flatMap plan) as := by
  induction xs generalizing sum with
  | nil => exact .pure .nil
  | cons x xs ih =>
    simp only [List.map_cons, untilCancelled]
    refine yields_isCancelled.bind ?_
    rintro _ b rfl
    cases b with
    | true =>
      have hno : ¬ Sensible false false [.asked true] := fun hs => by cases hs.truthful.1
      exact .pure ⟨⟨fun hs => absurd hs hno, fun hs => absurd hs hno, fun hs => absurd hs hno⟩,
        fun hs => absurd hs hno⟩
    | false =>
      refine (h x List.mem_cons_self).bind fun as n has => ?_
      refine ((ih (fun y hy => h y (List.mem_cons_of_mem x hy)) (sum + n)).and
        (yields_untilCancelled_idle _ _)).mono ?_
      rintro bs _ ⟨hbs, hidle⟩
      have hquiet : Quiet [.asked false] := ⟨rfl, fun _ => rfl⟩
      have hfirst : NodePlays (plan x) ([.asked false] ++ as) := by
        refine ⟨hquiet.plays.append (fun _ => has.toPlays) (by rintro _ ⟨⟩), ?_⟩
        exact fun hs htold => has.synced ((sensible_append ..).mp hs).2 htold
      have hall := hfirst.append hbs hidle
      rwa [List.append_assoc] at hall

/-- If the run was told to stop already, the first child refuses to run, and no other starts. -/
theorem yields_untilCancelled_refused {run : γ → Process ω Counts} (xs : List γ)
    (h : ∀ x ∈ xs, (run x).Yields fun as _ => Refuses as) (sum : Counts) :
    (untilCancelled (xs.map run) sum).Yields fun as _ => Sensible true false as →
      casesOf as = [] := by
  cases xs with
  | nil => exact .pure fun _ => rfl
  | cons x xs =>
    simp only [List.map_cons, untilCancelled]
    refine yields_isCancelled.bind ?_
    rintro _ b rfl
    cases b with
    | true => exact .pure fun _ => rfl
    | false =>
      refine (h x List.mem_cons_self).bind fun as n has => ?_
      refine (yields_untilCancelled_idle _ _).mono fun bs _ hidle hs => ?_
      obtain ⟨has', hbs⟩ := (sensible_append ..).mp ((sensible_append ..).mp hs).2
      obtain ⟨hnone, hcancelled⟩ := has has'
      change Sensible _ (cancelledAfter false as) bs at hbs
      rw [hcancelled] at hbs
      rw [casesOf_append, casesOf_append, hnone, casesOf_eq_nil_of_idle (hidle _ hbs)]
      rfl

/-! ## The life cycle of a node -/

/-- The end of a node: nothing starts, and the run is cancelled if it is to stop. -/
structure Closing (as : List Action) : Prop where
  groupsOf_eq : groupsOf as = []
  cancelledAfter_eq : ∀ c, cancelledAfter c as = (c || toldToStop as)
  heeds : Heeds true as → toldToStop as = true

theorem Closing.of_reported {ids : NodeIds} {event : Event} (h : event.startsGroup = false)
    (b : Bool) : Closing (reported ⟨ids, event⟩ b) where
  groupsOf_eq := by
    rw [groupsOf_reported]
    exact List.filter_cons_of_neg (by rw [h]; nofun)
  cancelledAfter_eq := fun c => by rw [cancelledAfter_reported, toldToStop_reported]
  heeds := by
    intro hb
    rw [toldToStop_reported, (hb.1 rfl : b = false)]
    rfl

theorem Closing.append {as bs : List Action} (h : Closing as) (h' : Closing bs) :
    Closing (as ++ bs) where
  groupsOf_eq := by rw [groupsOf_append, h.groupsOf_eq, h'.groupsOf_eq, List.append_nil]
  cancelledAfter_eq := by
    intro c
    rw [cancelledAfter_append, h'.cancelledAfter_eq, h.cancelledAfter_eq, toldToStop_append,
      Bool.or_assoc]
  heeds := by
    intro hheeds
    rw [toldToStop_append, h.heeds ((heeds_append ..).mp hheeds).1]
    rfl

/-- The report of a failure to tear a node down, if there is one, and the finished message. -/
theorem Closing.of_cleanup (ids : NodeIds) (level : Level) (cleanup : Option (ErrorRecord × Bool))
    (group : GroupLevel) (summary : Summary) (b : Bool) :
    Closing (Frame.cleanupSteps ids level cleanup ++
      reported ⟨ids, .finished group summary⟩ b) := by
  have hfinished : Closing (reported ⟨ids, .finished group summary⟩ b) := .of_reported rfl b
  cases cleanup with
  | none => exact hfinished
  | some c => exact (Closing.of_reported rfl c.2).append hfinished

theorem Closing.plays {as : List Action} (h : Closing as) : Plays [] as where
  initial := fun _ => by rw [casesOf_eq_nil h.groupsOf_eq]; exact List.nil_prefix
  complete := fun _ _ => h.groupsOf_eq
  prompt := fun _ hc => by rwa [h.cancelledAfter_eq, Bool.false_or] at hc

/-- Steps that play a plan, and the end of their node. -/
theorem Plays.close {plan : List Message} {as bs : List Action} (h : Plays plan as)
    (h' : Closing bs) : NodePlays plan (as ++ bs) where
  toPlays := by
    have hall := h.append (fun _ => h'.plays) fun _ _ _ => casesOf_eq_nil h'.groupsOf_eq
    rwa [List.append_nil] at hall
  synced := by
    intro hs htold
    rw [cancelledAfter_append, h'.cancelledAfter_eq]
    cases hlast : toldToStop bs with
    | true => exact Bool.or_true _
    | false =>
      -- the end of the node would have been told to stop as well
      rw [toldToStop_append, hlast, Bool.or_false] at htold
      have hheeds := ((sensible_append ..).mp hs).2.heeds
      rw [htold] at hheeds
      rw [h'.heeds hheeds] at hlast
      cases hlast

/-- The beginning of a node that goes on. -/
theorem plays_started {m : Message} (hm : m.event.startsGroup = true) :
    Plays [m] (reported m true) where
  initial := fun _ => ⟨[], by rw [List.append_nil, casesOf_reported]⟩
  complete := fun _ _ => by
    rw [groupsOf_reported]
    exact List.filter_cons_of_pos hm
  prompt := fun _ hc => nomatch hc

/-- A node that is told to stop when it starts. -/
theorem nodePlays_refused (m : Message) (plan : List Message) {bs : List Action}
    (h : Closing bs) : NodePlays (m :: plan) (reported m false ++ bs) where
  initial := by
    intro _
    rw [casesOf_append, casesOf_reported, casesOf_eq_nil h.groupsOf_eq, List.append_nil]
    exact (List.prefix_append [m] plan).filter _
  complete := fun _ htold => by
    rw [toldToStop_append, toldToStop_reported] at htold
    cases htold
  prompt := fun _ _ => by
    rw [toldToStop_append, toldToStop_reported]
    rfl
  synced := fun _ _ => by
    rw [cancelledAfter_append, cancelledAfter_reported]
    exact cancelledAfter_true bs

theorem refuses_refused {m : Message} (hm : m.event.startsCase = false) {bs : List Action}
    (h : Closing bs) : Refuses (reported m false ++ bs) := by
  intro _
  constructor
  · rw [casesOf_append, casesOf_reported, casesOf_eq_nil h.groupsOf_eq, List.append_nil]
    exact List.filter_cons_of_neg (by rw [hm]; nofun)
  · rw [cancelledAfter_append, cancelledAfter_reported]
    exact cancelledAfter_true bs

/-- A node that was told to go on did not know that the run is to stop. -/
theorem refuses_started (m : Message) (bs : List Action) : Refuses (reported m true ++ bs) := by
  intro hs
  cases ((sensible_append ..).mp hs).1.heeds.1 rfl

/-- **The life cycle of a node plays the plan of what is inside.** If the run is to stop when the
node starts, nothing inside of it starts. -/
theorem yields_lifecycle_plays {ids : NodeIds} {group : GroupLevel} {start : NodeStart}
    {inside : Process ω (Counts × Aggregator)} (plan : List Message)
    (hstart : (Event.starting start).startsGroup = true)
    (h : inside.Yields fun as _ => Plays plan as) :
    (lifecycle ids group start inside).Yields fun as _ =>
      NodePlays (⟨ids, .starting start⟩ :: plan) as ∧
        ((Event.starting start).startsCase = false → Refuses as) := by
  unfold lifecycle
  refine (yields_report ids _).bind ?_
  rintro _ goesOn rfl
  cases goesOn with
  | false =>
    refine (yields_report ids _).bind ?_
    rintro _ b rfl
    refine .pure ?_
    have hclosing : Closing (reported ⟨ids, .finished group (.ofCounts 0)⟩ b) :=
      .of_reported rfl b
    rw [List.append_nil]
    exact ⟨nodePlays_refused _ plan hclosing, fun hcase => refuses_refused hcase hclosing⟩
  | true =>
    simp only [if_true]
    refine h.bind ?_
    rintro is ⟨n, failed⟩ his
    refine (yields_reportCleanup ids _ failed).bind ?_
    rintro _ _ ⟨cleanup, rfl⟩
    refine (yields_report ids _).bind ?_
    rintro _ b rfl
    refine .pure ⟨?_, fun _ => refuses_started _ _⟩
    have hclosing := Closing.of_cleanup ids group.level cleanup group (.ofCounts n) b
    have hinside : Plays ([⟨ids, .starting start⟩] ++ plan)
        (reported ⟨ids, .starting start⟩ true ++ is) :=
      (plays_started (m := ⟨ids, .starting start⟩) hstart).append (fun _ => his)
        fun _ htold => nomatch htold
    have hall : NodePlays (⟨ids, .starting start⟩ :: plan) _ := hinside.close hclosing
    simpa only [List.append_assoc, List.append_nil] using hall

/-! ## Cases -/

/-- A message that says of no node that it starts. -/
theorem startsGroup_eq_false {m : Message}
    (h : ∀ level, m.event.lifecycle? ≠ some (level, .starting)) : m.event.startsGroup = false := by
  obtain ⟨_, event⟩ := m
  cases event with
  | starting node => exact absurd rfl (h node.level)
  | _ => rfl

theorem groupStarts_eq_nil {ms : List Message} (h : ∀ m ∈ ms, m.event.startsGroup = false) :
    groupStarts ms = [] :=
  List.filter_eq_nil_iff.mpr fun m hm => by rw [h m hm, Bool.not_eq_true]

/-- No node above the tests starts in a test: it has no nodes inside of it, and what it has besides
starts nothing. -/
theorem NodeLaw.groupStarts_of_test {known : List String} {f : Frame} {i : Chronicle}
    (h : NodeLaw known f i) (htest : f.ids.level = .test) :
    groupStarts (messages [f.opening]) = [] ∧ groupStarts (messages i.occurrences) = [] ∧
      groupStarts (messages f.closing) = [] := by
  have hinside : i.nodes = [] := by
    cases h.ended with
    | group g hg =>
      rw [htest] at hg
      cases g <;> cases hg
    | test _ _ _ hnodes => exact hnodes
  refine ⟨groupStarts_eq_nil fun m hm => ?_, groupStarts_eq_nil fun m hm => ?_,
    groupStarts_eq_nil fun m hm => ?_⟩
  · rw [List.mem_singleton.mp hm]
    have hstart := h.nested.level_eq.symm.trans htest
    cases hs : f.start with
    | test name => rfl
    | _ => rw [hs] at hstart; cases hstart
  · rw [Chronicle.occurrences_eq_own hinside] at hm
    obtain ⟨o, ho, hmo⟩ := List.mem_filterMap.mp hm
    have hplain := h.nested.plain o ho
    cases o with
    | queued m' b =>
      cases hmo
      refine startsGroup_eq_false fun level he => ?_
      rw [show m.event.lifecycle? = none from hplain] at he
      cases he
    | handed _ => cases hmo
    | activity _ => cases hmo
  · rcases (Frame.of_mem_messages_closing hm).2 with he | ⟨_, he⟩
    · refine startsGroup_eq_false fun level hl => ?_
      rw [he, h.ended.lifecycle?_finish] at hl
      cases hl
    · rw [he]
      rfl

/-- No node above the tests starts in a row of tests. -/
theorem groupStarts_of_tests {known : List String} {c : Chronicle}
    (hlaw : c.Every (NodeLaw known)) (hown : c.own = [])
    (hlevel : ∀ x ∈ c.nodes, x.1.ids.level = .test) :
    groupStarts (messages c.occurrences) = [] := by
  induction c with
  | nil => rfl
  | entry o rest _ => cases hown
  | node f i rest _ ih =>
    obtain ⟨hf, -, hrest⟩ := hlaw
    obtain ⟨hopening, hinside, hclosing⟩ :=
      hf.groupStarts_of_test (hlevel (f, i) List.mem_cons_self)
    have hafter := ih hrest hown fun x hx => hlevel x (List.mem_cons_of_mem _ hx)
    rw [Chronicle.messages_node, groupStarts_append, groupStarts_append, groupStarts_append,
      hopening, hinside, hclosing, hafter]
    rfl

namespace TestCase

variable {methodIds : NodeIds} (scope : ClassScope ω) (inherited : Aggregator) (c : TestCase ω)

/-- **A case starts once**, and nothing else starts with it but its tests. -/
theorem yields_plays (hlevel : methodIds.level = .method) :
    (c.run methodIds scope inherited).Yields fun as _ =>
      NodePlays [c.startMessage methodIds] as := by
  have hchild : (methodIds.child .testCase c.id).level = .testCase :=
    NodeIds.level_child c.id (by rw [hlevel]; decide)
  have hid : (methodIds.child .testCase c.id).nodeId = c.id := by
    unfold NodeIds.nodeId
    rw [hchild, NodeIds.at?_child_self]
    rfl
  unfold run
  refine (yields_lifecycle_plays [] rfl ?_).mono fun _ _ h => h.1
  refine (c.yields_runTests [] scope inherited hchild hid).bind ?_
  rintro _ ⟨n, d⟩ ⟨names, before, inner, rfl, h⟩
  refine (d.yields_disposeAll _ {}).bind fun after cleanup hafter => .pure ?_
  obtain ⟨c', hvisible, hown, hlaw, hnodes, -⟩ := h.children
  have hbefore := h.acquires.madeOf.quiet
  have hquiet := hafter.madeOf.quiet
  have hinner : groupsOf inner = [] := by
    unfold groupsOf
    rw [hvisible]
    refine groupStarts_of_tests hlaw hown fun x hx => ?_
    obtain ⟨name, -, hids⟩ := List.mem_map.mp (hnodes.subset (List.mem_map_of_mem hx))
    rw [← hids]
    exact NodeIds.level_child name (by rw [hchild]; decide)
  have hall := Plays.between hbefore hquiet (fun _ => Plays.of_obeys hinner h.obeys)
    fun _ => casesOf_eq_nil hinner
  simpa only [List.append_nil, List.append_assoc] using hall

end TestCase

/-! ## Methods -/

namespace Method

variable {classIds : NodeIds} (scope : ClassScope ω) (inherited : Aggregator)

theorem yields_plays (hlevel : classIds.level = .testClass) (m : Method ω)
    (cases : List (TestCase ω)) :
    (m.run classIds scope inherited cases).Yields fun as _ =>
      NodePlays (m.plan classIds cases) as ∧ Refuses as := by
  have hchild : (classIds.child .method m.id).level = .method :=
    NodeIds.level_child m.id (by rw [hlevel]; decide)
  unfold run
  refine (yields_lifecycle_plays (cases.map (TestCase.startMessage (classIds.child .method m.id)))
    rfl ?_).mono fun _ _ h => ⟨h.1, h.2 rfl⟩
  refine (yields_untilCancelled_plays cases
    (fun c _ => c.yields_plays scope inherited hchild) 0).bind fun as n h => .pure ?_
  rw [List.append_nil, List.map_eq_flatMap]
  exact h.toPlays

theorem yields_planAll (hlevel : classIds.level = .testClass) (cases : List (TestCase ω)) :
    (runAll classIds scope inherited cases).Yields fun as _ =>
      NodePlays (planAll classIds cases) as ∧ (Sensible true false as → casesOf as = []) := by
  unfold runAll
  exact (yields_untilCancelled_plays _ (fun c _ =>
    (c.method.yields_plays scope inherited hlevel _).mono fun _ _ h => h.1) 0).and
      (yields_untilCancelled_refused _ (fun c _ =>
        (c.method.yields_plays scope inherited hlevel _).mono fun _ _ h => h.2) 0)

end Method

/-! ## Classes -/

namespace TestClass

variable {collectionIds : NodeIds} {setup : RunSetup ω}
  {answers : Orderers.Answers (TestCase ω)} (hanswers : setup.caseOrderers.AnswersBy answers)
  (collectionFixtures : FixtureMap) (inherited : Aggregator)
include hanswers

/-- The order of the cases of a class is what the orderer makes of it, unless the run is to stop;
but then none of them starts. -/
theorem yields_plays (hlevel : collectionIds.level = .collection) (k : TestClass ω)
    (cases : List (TestCase ω)) :
    (k.run setup collectionIds collectionFixtures inherited cases).Yields fun as _ =>
      NodePlays (k.plan setup answers collectionIds cases) as ∧ Refuses as := by
  have hchild : (collectionIds.child .testClass k.id).level = .testClass :=
    NodeIds.level_child k.id (by rw [hlevel]; decide)
  have horderers : (setup.caseOrderers.tellBy fun c : TestCase ω => c.id).AnswersBy answers :=
    hanswers
  unfold run
  refine (yields_lifecycle_plays (Method.planAll (collectionIds.child .testClass k.id)
    (k.guardedCases setup answers (collectionIds.child .testClass k.id) cases)) rfl ?_).mono
      fun _ _ h => ⟨h.1, h.2 rfl⟩
  refine (Fixtures.yields_constructAll .testClass _ _ k.fixtures _).bind fun bs fs hfs => ?_
  refine ((Orderers.yields_order _ _ cases _).and (horderers.yields_order _ cases _)).bind ?_
  rintro us ordered ⟨⟨hus, -⟩, hordered⟩
  refine (Method.yields_planAll _ _ hchild ordered).bind ?_
  rintro as n ⟨hplays, hrefused⟩
  refine (fs.disposal.yields_disposeAll _ {}).bind fun after cleanup hafter => .pure ?_
  have huser : MadeOf (SetupBlock (collectionIds.child .testClass k.id)) us :=
    hus.mono fun _ => .user
  have hplanned : toldToStop (bs ++ us) = false →
      Plays (Method.planAll (collectionIds.child .testClass k.id)
        (k.guardedCases setup answers (collectionIds.child .testClass k.id) cases)) as := by
    intro htold
    rw [toldToStop_append, Bool.or_eq_false_iff] at htold
    rw [hordered htold.2] at hplays
    exact hplays.toPlays
  have hall := Plays.between (hfs.acquires.madeOf.quiet.append huser.quiet) hafter.madeOf.quiet
    hplanned hrefused
  simpa only [List.append_nil, List.append_assoc] using hall

theorem yields_planAll (hlevel : collectionIds.level = .collection) (cases : List (TestCase ω)) :
    (runAll setup collectionIds collectionFixtures inherited cases).Yields fun as _ =>
      NodePlays (planAll setup answers collectionIds cases) as ∧
        (Sensible true false as → casesOf as = []) := by
  unfold runAll
  exact (yields_untilCancelled_plays _ (fun c _ =>
    (yields_plays hanswers collectionFixtures inherited hlevel c.testClass _).mono
      fun _ _ h => h.1) 0).and
      (yields_untilCancelled_refused _ (fun c _ =>
        (yields_plays hanswers collectionFixtures inherited hlevel c.testClass _).mono
          fun _ _ h => h.2) 0)

end TestClass

/-! ## Collections and the assembly -/

theorem Collection.yields_plays {assemblyIds : NodeIds} {setup : RunSetup ω}
    {answers : Orderers.Answers (TestCase ω)} (hanswers : setup.caseOrderers.AnswersBy answers)
    (hlevel : assemblyIds.level = .assembly) (l : Collection ω) (cases : List (TestCase ω)) :
    (l.run setup assemblyIds cases).Yields fun as _ =>
      NodePlays (l.plan setup answers assemblyIds cases) as ∧ Refuses as := by
  have hchild : (assemblyIds.child .collection l.id).level = .collection :=
    NodeIds.level_child l.id (by rw [hlevel]; decide)
  unfold run
  refine (yields_lifecycle_plays
    (TestClass.planAll setup answers (assemblyIds.child .collection l.id) cases)
    rfl ?_).mono fun _ _ h => ⟨h.1, h.2 rfl⟩
  refine (Fixtures.yields_constructAll .collection _ _ _ _).bind fun bs fs hfs => ?_
  refine (TestClass.yields_planAll hanswers _ _ hchild cases).bind ?_
  rintro as n ⟨hplays, hrefused⟩
  refine (fs.disposal.yields_disposeAll _ {}).bind fun after cleanup hafter => .pure ?_
  have hall := Plays.between hfs.acquires.madeOf.quiet hafter.madeOf.quiet
    (fun _ => hplays.toPlays) hrefused
  simpa only [List.append_nil, List.append_assoc] using hall

namespace AssemblyRun

variable (r : AssemblyRun ω) {collectionAnswers : Orderers.Answers (Collection ω)}
  {caseAnswers : Orderers.Answers (TestCase ω)}

/-- **A serial run plays its plan.** -/
theorem plays_inTurn (hcollections : r.setup.collectionOrderers.AnswersBy collectionAnswers)
    (hcases : r.setup.caseOrderers.AnswersBy caseAnswers) :
    r.inTurn.Yields fun as _ => NodePlays (r.plan collectionAnswers caseAnswers) as := by
  have horderers : (r.setup.collectionOrderers.tellBy fun l : Collection ω => l.id).AnswersBy
      collectionAnswers := hcollections
  unfold inTurn
  refine Yields.mono (yields_lifecycle_plays ((r.guardedCollections collectionAnswers).flatMap
    fun l => l.plan r.setup caseAnswers r.ids (withKey (·.collection.id) l.id r.cases)) rfl ?_) ?_
  rotate_left
  · exact fun _ _ h => h.1
  refine .bind (P := fun us runs => ∃ collections : List (Collection ω), MadeOf UserBlock us ∧
    (toldToStop us = false → collections = r.guardedCollections collectionAnswers) ∧
    runs = Collection.runs r.setup r.ids r.cases collections) ?_ ?_
  · refine ((Orderers.yields_order _ _ _ _).and (horderers.yields_order _ _ _)).bind ?_
    rintro us collections ⟨⟨hus, -⟩, hordered⟩
    refine .pure ⟨collections, hus.append .nil, fun htold => ?_, rfl⟩
    rw [List.append_nil] at htold
    exact hordered htold
  · rintro us _ ⟨collections, hus, hordered, rfl⟩
    have hruns : ∀ l ∈ collections, (l.run r.setup r.ids
        (withKey (·.collection.id) l.id r.cases)).Yields fun as _ =>
          NodePlays (l.plan r.setup caseAnswers r.ids (withKey (·.collection.id) l.id r.cases)) as ∧
            Refuses as := fun l _ => l.yields_plays hcases rfl _
    refine ((yields_untilCancelled_plays collections
      (fun l hl => (hruns l hl).mono fun _ _ h => h.1) 0).and
      (yields_untilCancelled_refused collections
        (fun l hl => (hruns l hl).mono fun _ _ h => h.2) 0)).bind ?_
    rintro as n ⟨hplays, hrefused⟩
    have huser : MadeOf (SetupBlock r.ids) us := hus.mono fun _ => .user
    have hdone : Quiet [] := ⟨rfl, fun _ => rfl⟩
    have hplanned : toldToStop us = false → Plays ((r.guardedCollections collectionAnswers).flatMap
        fun l => l.plan r.setup caseAnswers r.ids (withKey (·.collection.id) l.id r.cases)) as := by
      intro htold
      rw [hordered htold] at hplays
      exact hplays.toPlays
    refine .pure ?_
    simpa only [List.append_nil] using Plays.between huser.quiet hdone hplanned hrefused

end AssemblyRun

/-! ## Runs that are over -/

/-- A message that was answered with stop is there to be seen. -/
theorem exists_queued_of_toldToStop {as : List Action} (h : toldToStop as = true) :
    ∃ m, .queued m false ∈ visible as := by
  obtain ⟨a, ha, htold⟩ := List.any_eq_true.mp h
  cases a with
  | queued m b =>
    cases b with
    | true => cases htold
    | false => exact ⟨m, List.mem_filterMap.mpr ⟨_, ha, rfl⟩⟩
  | _ => cases htold

namespace SerialRun

variable {c : Transport σ} {r : AssemblyRun ω} (e : SerialRun r c)

/-- **The cases of a serial run start as planned**, if the orderers answer by functions: first
collection by collection, in the order of the orderer of collections; in a collection class by
class; and in a class method by method, in the order of the orderer of the cases of that class. A
run that is stopped at any time starts the first ones of these cases and no others. One that is
never to stop starts the collections, classes, methods and cases of the plan, in the order of the
plan; all cases of the run start, as often as they are there, and no collection, class or method
starts without a case. -/
theorem startsByPlan {collectionAnswers : Orderers.Answers (Collection ω)}
    {caseAnswers : Orderers.Answers (TestCase ω)}
    (hcollections : r.setup.collectionOrderers.AnswersBy collectionAnswers)
    (hcases : r.setup.caseOrderers.AnswersBy caseAnswers) :
    caseStarts e.queued <+: caseStarts (r.plan collectionAnswers caseAnswers) ∧
    (stoppedBy c e.sink e.queued = false →
      groupStarts e.queued = r.plan collectionAnswers caseAnswers ∧
      ((caseStarts e.queued).map fun m => m.ids.at? .testCase).Perm (r.caseIds.map some) ∧
      ∀ m ∈ groupStarts e.queued, m.event ≠ .starting r.start →
        ∃ m' ∈ caseStarts e.queued, m'.ids.IsWithin m.ids) := by
  obtain ⟨as, hcourse, hvisible, htruthful⟩ := e.exists_course
  have hplays := r.plays_inTurn hcollections hcases as e.counts hcourse.steps
  have hsensible : Sensible false false as := by
    refine ⟨heeds_of_pairwise ?_ false nofun, htruthful⟩
    rw [hvisible]
    exact e.staysTold
  have hgroups : groupStarts e.queued = groupsOf as := by
    rw [groupsOf, hvisible]
    rfl
  have hstarted : caseStarts e.queued = casesOf as := by
    rw [casesOf, hvisible]
    rfl
  refine ⟨hstarted ▸ hplays.initial hsensible, fun hnever => ?_⟩
  have htold : toldToStop as = false := by
    rw [← Bool.not_eq_true]
    intro htold
    obtain ⟨m, hm⟩ := exists_queued_of_toldToStop htold
    rw [hvisible] at hm
    cases e.goesOn_of_never hnever hm
  have hplan := hplays.complete hsensible htold
  have hcaseStarts := hplays.casesOf_eq hsensible htold
  rw [hgroups, hstarted, hplan, hcaseStarts]
  refine ⟨rfl, r.cases_plan collectionAnswers caseAnswers, fun m hm hne => ?_⟩
  exact r.plan_populated collectionAnswers caseAnswers hm fun he => hne (by rw [he])

end SerialRun

/-- A bus whose sink takes everything. -/
def TwoCounters.patient : Transport Unit := ⟨.asynchronous, fun _ _ => ((), .goOn), false⟩

/-- The plan of a run whose orderer of collections drops one of the two: a run that is stopped
starts the first ones of its cases, and one that is not starts all that is planned. -/
theorem SerialRun.startsByPlan_twoCounters :
    ∃ (collectionAnswers : Orderers.Answers (Collection (Nat × Nat)))
      (caseAnswers : Orderers.Answers (TestCase (Nat × Nat)))
      (e : SerialRun TwoCounters.run ⟨.asynchronous, TwoCounters.stopAtSecond, false⟩)
      (f : SerialRun TwoCounters.run TwoCounters.patient),
      TwoCounters.run.setup.collectionOrderers.AnswersBy collectionAnswers ∧
      TwoCounters.run.setup.caseOrderers.AnswersBy caseAnswers ∧
      caseStarts e.queued <+: caseStarts (TwoCounters.run.plan collectionAnswers caseAnswers) ∧
      stoppedBy TwoCounters.patient f.sink f.queued = false ∧
      groupStarts f.queued = TwoCounters.run.plan collectionAnswers caseAnswers ∧
      ((caseStarts f.queued).map fun m => m.ids.at? .testCase).Perm
        (TwoCounters.run.caseIds.map some) ∧
      (caseStarts f.queued).length = 2 := by
  obtain ⟨e, -⟩ := SerialRun.nonempty TwoCounters.run
    ⟨.asynchronous, TwoCounters.stopAtSecond, false⟩ 0 (0, 0) []
  obtain ⟨f, -⟩ := SerialRun.nonempty TwoCounters.run TwoCounters.patient () (0, 0) []
  have hcollections : TwoCounters.run.setup.collectionOrderers.AnswersBy _ :=
    Orderers.answersBy_ofOrders .collection (·.id) TwoCounters.collectionOrders
  have hcases : TwoCounters.run.setup.caseOrderers.AnswersBy _ :=
    Orderers.answersBy_ofOrders .testCase (·.id) TwoCounters.caseOrders
  have hcalm : TwoCounters.patient.NeverAsks := fun _ _ => nofun
  have hnever : stoppedBy TwoCounters.patient f.sink f.queued = false :=
    hcalm.stoppedBy_eq f.sink f.queued
  obtain ⟨hplan, hperm, -⟩ := (f.startsByPlan hcollections hcases).2 hnever
  have hlength : (caseStarts f.queued).length = 2 := by
    have hle := hperm.length_eq
    rwa [List.length_map, List.length_map] at hle
  exact ⟨_, _, e, f, hcollections, hcases, (e.startsByPlan hcollections hcases).1, hnever, hplan,
    hperm, hlength⟩

end TestEngine
