import Mathlib.Data.List.Nodup
import Mathlib.Data.List.Perm.Subperm
import Mathlib.Logic.Relation
import TestEngine.Proofs.Histories
import TestEngine.Scheduler.Workshop

/-!
# The law of a scheduler at work

What a history tells of the units that were posted, and what is known when something happens to
them. The law of an event speaks of nothing but the events before it; whatever holds of every lawful
history is derived from it here.

* `Workshop.EventLaw` — what is known when something happens.
* `Lawful.starts_as_posted` — a unit runs on a worker or on the thread that posted it.
* `Lawful.length_running_le` — no more units run at a time than the limit says.
* `Lawful.finished_of_descends` — what a shutdown waits for.
-/

namespace TestEngine

/-- A unit that was started at a place makes its steps in order. `es` is what it has logged and
posted, where the numbers of the units that it posted are places in `posted`, and `rest` is what is
left of it. -/
inductive Work.Does (place : Place) (posted : List Work) (work : Work) :
    List JobEvent → Work → Prop
  | nothing : Does place posted work [] work
  | log {es entry next} : Does place posted work es (.log entry next) →
      Does place posted work (es ++ [.logged (entry place)]) next
  | post {es child next} (k : Nat) (queued : Bool) : Does place posted work es (.post child next) →
      posted[k]? = some child → Does place posted work (es ++ [.posted k queued]) next
  | wait {es next} (waited : Bool) : Does place posted work es (.wait next) →
      Does place posted work es (next waited)

/-- More units may be posted. -/
theorem Work.Does.append {place : Place} {posted : List Work} {work rest : Work}
    {es : List JobEvent} (h : work.Does place posted es rest) (more : List Work) :
    work.Does place (posted ++ more) es rest := by
  induction h with
  | nothing => exact .nothing
  | log _ ih => exact .log ih
  | post k queued _ hk ih =>
    refine .post k queued ih ?_
    rw [List.getElem?_append_left (List.getElem?_eq_some_iff.mp hk).1, hk]
  | wait waited _ ih => exact .wait waited ih

namespace Workshop

/-! ## What a history tells -/

/-- The units that were posted, by number, in order. -/
def postedTickets (h : List WorkshopEvent) : List Nat :=
  h.filterMap fun
    | .work _ _ (.posted k _) => some k
    | _ => none

/-- Those of them that had to wait for a worker. -/
def queuedTickets (h : List WorkshopEvent) : List Nat :=
  h.filterMap fun
    | .work _ _ (.posted k true) => some k
    | _ => none

/-- Which unit posted which, where the latter ran at once. -/
def nestings (h : List WorkshopEvent) : List (Nat × Nat) :=
  h.filterMap fun
    | .work _ (some p) (.posted k false) => some (p, k)
    | _ => none

/-- Who started which unit, in order. -/
def starts (h : List WorkshopEvent) : List (Runner × Nat) :=
  h.filterMap fun
    | .work r _ (.started k _) => some (r, k)
    | _ => none

/-- A worker that runs nothing starts a unit that it has taken. -/
def taking? : Runner → Option Nat → Nat → Option (Nat × Nat)
  | .worker n, none, k => some (n, k)
  | _, _, _ => none

theorem taking?_eq_some_iff {r : Runner} {during : Option Nat} {n j k : Nat} :
    taking? r during j = some (n, k) ↔ r = .worker n ∧ during = none ∧ j = k := by
  cases r <;> cases during <;> simp [taking?]

/-- Which worker took which unit, in order. -/
def takings (h : List WorkshopEvent) : List (Nat × Nat) :=
  h.filterMap fun
    | .work r during (.started k _) => taking? r during k
    | _ => none

def finishedTickets (h : List WorkshopEvent) : List Nat :=
  h.filterMap fun
    | .work _ _ (.finished k) => some k
    | _ => none

/-- What a unit has logged and posted, in order. -/
def deeds (k : Nat) (h : List WorkshopEvent) : List JobEvent :=
  h.filterMap fun
    | .work _ (some p) (.logged text) => if p = k then some (.logged text) else none
    | .work _ (some p) (.posted c queued) => if p = k then some (.posted c queued) else none
    | _ => none

def startedTickets (h : List WorkshopEvent) : List Nat := (starts h).map (·.2)

def takenTickets (h : List WorkshopEvent) : List Nat := (takings h).map (·.2)

/-- Which worker runs which of the units that workers took. -/
def running (h : List WorkshopEvent) : List (Nat × Nat) :=
  (takings h).filter (·.2 ∉ finishedTickets h)

/-- The unit was started there and has not finished. -/
def Runs (h : List WorkshopEvent) (r : Runner) (k : Nat) : Prop :=
  (r, k) ∈ starts h ∧ k ∉ finishedTickets h

/-- The unit `p` posted the unit `k`. -/
def Posts (h : List WorkshopEvent) (p k : Nat) : Prop :=
  ∃ r queued, .work r (some p) (.posted k queued) ∈ h

/-- The unit `k` is `p`, or was posted by a unit that descends from `p`. -/
def Descends (h : List WorkshopEvent) : Nat → Nat → Prop := Relation.ReflTransGen (Posts h)

section Append

variable (h h' : List WorkshopEvent)

@[simp] theorem postedTickets_append :
    postedTickets (h ++ h') = postedTickets h ++ postedTickets h' := List.filterMap_append

@[simp] theorem queuedTickets_append :
    queuedTickets (h ++ h') = queuedTickets h ++ queuedTickets h' := List.filterMap_append

@[simp] theorem nestings_append : nestings (h ++ h') = nestings h ++ nestings h' :=
  List.filterMap_append

@[simp] theorem starts_append : starts (h ++ h') = starts h ++ starts h' := List.filterMap_append

@[simp] theorem takings_append : takings (h ++ h') = takings h ++ takings h' :=
  List.filterMap_append

@[simp] theorem finishedTickets_append :
    finishedTickets (h ++ h') = finishedTickets h ++ finishedTickets h' := List.filterMap_append

@[simp] theorem deeds_append (k : Nat) : deeds k (h ++ h') = deeds k h ++ deeds k h' :=
  List.filterMap_append

@[simp] theorem startedTickets_append :
    startedTickets (h ++ h') = startedTickets h ++ startedTickets h' := by
  rw [startedTickets, starts_append, List.map_append]
  rfl

@[simp] theorem takenTickets_append :
    takenTickets (h ++ h') = takenTickets h ++ takenTickets h' := by
  rw [takenTickets, takings_append, List.map_append]
  rfl

end Append

section Members

variable {h : List WorkshopEvent} {r : Runner} {k n : Nat}

theorem mem_postedTickets :
    k ∈ postedTickets h ↔ ∃ r during queued, .work r during (.posted k queued) ∈ h := by
  grind [postedTickets]

theorem mem_queuedTickets :
    k ∈ queuedTickets h ↔ ∃ r during, .work r during (.posted k true) ∈ h := by
  grind [queuedTickets]

theorem mem_nestings :
    (n, k) ∈ nestings h ↔ ∃ r, .work r (some n) (.posted k false) ∈ h := by
  grind [nestings]

theorem mem_starts :
    (r, k) ∈ starts h ↔ ∃ during place, .work r during (.started k place) ∈ h := by
  grind [starts]

theorem mem_takings :
    (n, k) ∈ takings h ↔ ∃ place, .work (.worker n) none (.started k place) ∈ h := by
  grind [takings, taking?_eq_some_iff]

theorem mem_finishedTickets :
    k ∈ finishedTickets h ↔ ∃ r during, .work r during (.finished k) ∈ h := by
  grind [finishedTickets]

theorem mem_startedTickets : k ∈ startedTickets h ↔ ∃ r, (r, k) ∈ starts h := by
  simp [startedTickets]

/-- What was started stays so. -/
theorem starts_subset {before : List WorkshopEvent} (hbefore : before <+: h) :
    starts before ⊆ starts h :=
  (hbefore.filterMap _).subset

/-- Workers start what they take. -/
theorem mem_starts_of_mem_takings (hk : (n, k) ∈ takings h) : (.worker n, k) ∈ starts h := by
  obtain ⟨place, he⟩ := mem_takings.mp hk
  exact mem_starts.mpr ⟨none, place, he⟩

end Members

/-! ## The law of an event -/

/-- A thread posts a unit: one from outside, or the one that runs the unit that does it. -/
def PostedBy (before : List WorkshopEvent) (r : Runner) : Option Nat → Prop
  | none => r.place = .caller
  | some p => Runs before r p

/-- A free worker takes a unit that waits: the first of them if the number of workers is limited. -/
def TakenLaw (limit : ConcurrencyLimit) (before : List WorkshopEvent) (r : Runner)
    (during : Option Nat) (k : Nat) : Prop :=
  ∃ n, r = .worker n ∧ during = none ∧ k ∈ queuedTickets before ∧ (∀ j, (n, j) ∉ running before) ∧
    match limit with
    | .atMost m => n < m ∧ takenTickets before ++ [k] <+: queuedTickets before
    | .unlimited => n = k

/-- A thread has just posted a unit that does not wait for a worker. -/
def InlineLaw (before : List WorkshopEvent) (r : Runner) (during : Option Nat) (k : Nat) : Prop :=
  PostedBy before r during ∧ ∃ past, before = past ++ [.work r during (.posted k false)]

/-- What is known when something happens after the events `before`. -/
def EventLaw (limit : ConcurrencyLimit) (before : List WorkshopEvent) : WorkshopEvent → Prop
  | .work r during (.posted k queued) =>
    PostedBy before r during ∧ k = (postedTickets before).length ∧
      (queued = true ↔ .closed ∉ before)
  | .work r during (.started k place) =>
    place = r.place ∧ k ∉ startedTickets before ∧
      (TakenLaw limit before r during k ∨ InlineLaw before r during k)
  | .work r during (.logged _) => ∃ p, during = some p ∧ Runs before r p
  | .work r during (.finished k) =>
    -- a unit waits for those that it posted and that ran at once
    during = some k ∧ Runs before r k ∧ ∀ c, (k, c) ∈ nestings before → c ∈ finishedTickets before
  | .closed => .closed ∉ before
  | .shutDown => .closed ∈ before ∧ queuedTickets before ⊆ finishedTickets before
  | .refused e => e = .schedulerShutDown ∧ .closed ∈ before

/-- Every event of a history obeys the law. -/
abbrev Lawful (limit : ConcurrencyLimit) (h : List WorkshopEvent) : Prop :=
  KeepsLaw (EventLaw limit) h

/-! ## What the law implies -/

namespace Lawful

variable {limit : ConcurrencyLimit} {h before : List WorkshopEvent} {r r' : Runner} {k p : Nat}
  {during during' : Option Nat} {queued : Bool} {place : Place}

/-- Units are numbered in the order in which they are posted. -/
theorem posted_eq (hl : Lawful limit h) :
    postedTickets h = List.range (postedTickets h).length := by
  induction h using List.reverseRecOn with
  | nil => rfl
  | append_singleton before e ih =>
    obtain ⟨hbefore, he⟩ := hl.of_snoc
    rw [postedTickets_append, List.length_append]
    cases hnew : postedTickets [e] with
    | nil => simpa using ih hbefore
    | cons k rest =>
      obtain ⟨r, during, queued, hmem⟩ := mem_postedTickets.mp (hnew ▸ List.mem_cons_self)
      obtain rfl := List.mem_singleton.mp hmem
      cases hnew
      show postedTickets before ++ [k] = List.range ((postedTickets before).length + 1)
      rw [List.range_succ, ← ih hbefore, he.2.1]

theorem nodup_posted (hl : Lawful limit h) : (postedTickets h).Nodup := by
  rw [hl.posted_eq]
  exact List.nodup_range

/-- No unit is started twice. -/
theorem nodup_started (hl : Lawful limit h) : (startedTickets h).Nodup := by
  rw [startedTickets, starts, List.map_filterMap]
  refine hl.nodup_filterMap fun before e k he hek => ?_
  rw [← List.map_filterMap]
  grind [EventLaw, startedTickets, starts]

/-- No unit finishes twice. -/
theorem nodup_finished (hl : Lawful limit h) : (finishedTickets h).Nodup := by
  refine hl.nodup_filterMap fun before e k he hek => ?_
  grind [EventLaw, Runs, finishedTickets]

/-- A unit is started by one runner. -/
theorem starts_unique (hl : Lawful limit h) (hr : (r, k) ∈ starts h) (hr' : (r', k) ∈ starts h) :
    r = r' :=
  congrArg Prod.fst (List.inj_on_of_nodup_map hl.nodup_started hr hr' rfl)

/-- A unit that posts another one was started by the thread that does it. -/
theorem starts_of_posts (hl : Lawful limit h) (he : .work r (some p) (.posted k queued) ∈ h) :
    (r, p) ∈ starts h := by
  obtain ⟨before, hbefore, hby, -⟩ := hl.exists_law he
  exact starts_subset hbefore hby.1

theorem started_of_finished (hl : Lawful limit h) (hk : k ∈ finishedTickets h) :
    k ∈ startedTickets h := by
  obtain ⟨r, during, he⟩ := mem_finishedTickets.mp hk
  obtain ⟨before, hbefore, -, hruns, -⟩ := hl.exists_law he
  exact mem_startedTickets.mpr ⟨r, starts_subset hbefore hruns.1⟩

/-- What was not started has done nothing. -/
theorem deeds_eq_nil (hl : Lawful limit h) (hk : k ∉ startedTickets h) : deeds k h = [] := by
  refine List.filterMap_eq_nil_iff.mpr fun e he => ?_
  have hnot : ∀ r p, (r, p) ∈ starts h → p ≠ k := by
    rintro r p hp rfl
    exact hk (mem_startedTickets.mpr ⟨r, hp⟩)
  split
  · next r p text =>
    obtain ⟨before, hbefore, _, hp, hruns⟩ := hl.exists_law he
    cases hp
    exact if_neg (hnot r p (starts_subset hbefore hruns.1))
  · next r p c queued => exact if_neg (hnot r p (hl.starts_of_posts he))
  · rfl

/-! ### Where a unit runs -/

/-- A unit is started by a worker that took it, or by the thread that has just posted it. -/
theorem taken_or_inline (hl : Lawful limit h) (he : .work r during (.started k place) ∈ h) :
    place = r.place ∧ ((∃ n, r = .worker n ∧ during = none ∧ k ∈ queuedTickets h) ∨
      .work r during (.posted k false) ∈ h) := by
  obtain ⟨before, hbefore, hplace, -, hlaw⟩ := hl.exists_law he
  refine ⟨hplace, hlaw.imp ?_ ?_⟩
  · rintro ⟨n, hr, hduring, hk, -⟩
    exact ⟨n, hr, hduring, (hbefore.filterMap _).subset hk⟩
  · rintro ⟨-, past, rfl⟩
    exact hbefore.subset (List.mem_append_right _ List.mem_cons_self)

theorem posted_of_started (hl : Lawful limit h) (hk : k ∈ startedTickets h) :
    k ∈ postedTickets h := by
  obtain ⟨r, hr⟩ := mem_startedTickets.mp hk
  obtain ⟨during, place, he⟩ := mem_starts.mp hr
  obtain ⟨-, ⟨n, -, -, hq⟩ | hp⟩ := hl.taken_or_inline he
  · obtain ⟨r, during, he⟩ := mem_queuedTickets.mp hq
    exact mem_postedTickets.mpr ⟨r, during, true, he⟩
  · exact mem_postedTickets.mpr ⟨r, during, false, hp⟩

/-- A unit is posted by one event. -/
theorem posted_unique (hl : Lawful limit h) {queued' : Bool}
    (he : .work r during (.posted k queued) ∈ h)
    (he' : .work r' during' (.posted k queued') ∈ h) :
    r = r' ∧ during = during' ∧ queued = queued' := by
  have heq := eq_of_nodup_filterMap hl.nodup_posted he he' rfl rfl
  cases heq
  exact ⟨rfl, rfl, rfl⟩

/-- **A unit that had to wait runs on a worker, and any other one on the thread that posted it.** -/
theorem starts_as_posted (hl : Lawful limit h) (hp : .work r during (.posted k queued) ∈ h)
    (hs : .work r' during' (.started k place) ∈ h) :
    place = r'.place ∧ if queued then r'.place = .worker else r' = r := by
  obtain ⟨hplace, ⟨n, rfl, -, hq⟩ | hinline⟩ := hl.taken_or_inline hs
  · obtain ⟨q, d, hq⟩ := mem_queuedTickets.mp hq
    obtain ⟨-, -, rfl⟩ := hl.posted_unique hp hq
    exact ⟨hplace, rfl⟩
  · obtain ⟨rfl, -, rfl⟩ := hl.posted_unique hp hinline
    exact ⟨hplace, rfl⟩

/-- Workers take those of the units that had to wait. -/
theorem taken_eq_of_mem {e : WorkshopEvent} (hl : Lawful limit h) (he : e ∈ h) :
    takenTickets [e] = (startedTickets [e]).filter (· ∈ queuedTickets h) := by
  match e with
  | .work r during (.started k place) =>
    obtain ⟨-, ⟨n, rfl, rfl, hq⟩ | hinline⟩ := hl.taken_or_inline he
    · exact (List.filter_eq_self.mpr fun j hj => by
        rw [List.mem_singleton.mp hj]
        exact decide_eq_true hq).symm
    · have hk : k ∉ queuedTickets h := by
        intro hq
        obtain ⟨r', during', hp⟩ := mem_queuedTickets.mp hq
        obtain ⟨-, -, hqueued⟩ := hl.posted_unique hp hinline
        cases hqueued
      have hnone : takenTickets [.work r during (.started k place)] = [] := by
        obtain ⟨_, -, hby, -⟩ := hl.exists_law hinline
        cases during with
        | some p => cases r <;> rfl
        | none =>
          cases r with
          | outside n => rfl
          | worker n => cases hby
      rw [hnone]
      exact (List.filter_eq_nil_iff.mpr fun j hj => by
        rw [List.mem_singleton.mp hj]
        simpa using hk).symm
  | .work _ _ (.posted ..) => rfl
  | .work _ _ (.logged _) => rfl
  | .work _ _ (.finished _) => rfl
  | .closed => rfl
  | .shutDown => rfl
  | .refused _ => rfl

theorem takenTickets_eq (hl : Lawful limit h) :
    takenTickets h = (startedTickets h).filter (· ∈ queuedTickets h) := by
  -- for any part of the history, with what had to wait in all of it
  suffices hpart : ∀ es ⊆ h,
      takenTickets es = (startedTickets es).filter (· ∈ queuedTickets h) from hpart h fun _ => id
  intro es hes
  induction es with
  | nil => rfl
  | cons e es ih =>
    have hcons : e :: es = [e] ++ es := rfl
    rw [hcons, takenTickets_append, startedTickets_append, List.filter_append,
      hl.taken_eq_of_mem (hes List.mem_cons_self),
      ih fun x hx => hes (List.mem_cons_of_mem _ hx)]

/-- A worker that has started a unit has taken one. -/
theorem exists_taking {n : Nat} (hl : Lawful limit h) (hk : (.worker n, k) ∈ starts h) :
    ∃ j, (n, j) ∈ takings h := by
  induction h using List.reverseRecOn generalizing k with
  | nil => cases hk
  | append_singleton before e ih =>
    obtain ⟨hbefore, he⟩ := hl.of_snoc
    have hold : ∀ j, (.worker n, j) ∈ starts before → ∃ i, (n, i) ∈ takings (before ++ [e]) := by
      intro j hj
      obtain ⟨i, hi⟩ := ih hbefore hj
      rw [takings_append]
      exact ⟨i, List.mem_append_left _ hi⟩
    rw [starts_append] at hk
    rcases List.mem_append.mp hk with hk | hk
    · exact hold k hk
    · obtain ⟨during, place, hmem⟩ := mem_starts.mp hk
      obtain rfl := List.mem_singleton.mp hmem
      obtain ⟨-, -, ⟨m, hm, rfl, -⟩ | ⟨hby, -⟩⟩ := he
      · rw [takings_append]
        exact ⟨k, List.mem_append_right _ List.mem_cons_self⟩
      · cases during with
        | none => cases hby
        | some p => exact hold p hby.1

/-! ### How many units run at a time -/

theorem mem_running {n : Nat} :
    (n, k) ∈ running h ↔ (n, k) ∈ takings h ∧ k ∉ finishedTickets h := by
  simp [running]

/-- A worker takes a unit only if it is free, and the limit has its number. -/
theorem taken_of_takes (hl : Lawful limit (h ++ [.work (.worker p) none (.started k place)])) :
    TakenLaw limit h (.worker p) none k := by
  obtain ⟨-, -, -, htaken | ⟨hby, -⟩⟩ := hl.of_snoc
  · exact htaken
  · cases hby

theorem running_snoc_sublist (e : WorkshopEvent) :
    (running (h ++ [e])).Sublist (running h ++ takings [e]) := by
  rw [running, takings_append, List.filter_append]
  refine List.Sublist.append (List.monotone_filter_right _ fun x hx => ?_) List.filter_sublist
  rw [finishedTickets_append] at hx
  simp only [List.mem_append, not_or, decide_eq_true_eq] at hx ⊢
  exact hx.1

/-- A worker runs one unit at a time of those that workers took. -/
theorem nodup_busy (hl : Lawful limit h) : ((running h).map (·.1)).Nodup := by
  induction h using List.reverseRecOn with
  | nil => exact List.nodup_nil
  | append_singleton before e ih =>
    refine List.Nodup.sublist ((running_snoc_sublist e).map _) ?_
    rw [List.map_append]
    cases hnew : takings [e] with
    | nil => simpa using ih hl.of_snoc.1
    | cons x rest =>
      obtain ⟨n, k⟩ := x
      obtain ⟨place, hmem⟩ := mem_takings.mp (hnew ▸ List.mem_cons_self)
      obtain rfl := List.mem_singleton.mp hmem
      cases hnew
      obtain ⟨m, hm, -, -, hfree, -⟩ := hl.taken_of_takes
      cases hm
      have hnot : n ∉ (running before).map (·.1) := by
        intro hn
        obtain ⟨⟨_, j⟩, hj, rfl⟩ := List.mem_map.mp hn
        exact hfree j hj
      exact List.nodup_append_comm.mp (List.nodup_cons.mpr ⟨hnot, ih hl.of_snoc.1⟩)

/-- **No more of the units that had to wait run at a time than the limit says.** -/
theorem length_running_le {n : Nat} (hl : Lawful (.atMost n) h) : (running h).length ≤ n := by
  have hsub : (running h).map (·.1) ⊆ List.range n := by
    intro m hm
    obtain ⟨⟨_, k⟩, hk, rfl⟩ := List.mem_map.mp hm
    obtain ⟨place, he⟩ := mem_takings.mp (mem_running.mp hk).1
    obtain ⟨before, -, -, -, ⟨m, hm, -, -, -, hlt, -⟩ | ⟨hby, -⟩⟩ := hl.exists_law he
    · cases hm
      exact List.mem_range.mpr hlt
    · cases hby
  simpa using (List.subperm_of_subset hl.nodup_busy hsub).length_le

/-! ### What a shutdown waits for -/

/-- A unit that has finished posts nothing any more. -/
theorem not_posts_of_finished {h' : List WorkshopEvent} (hl : Lawful limit (h ++ h'))
    (hp : p ∈ finishedTickets h) : .work r (some p) (.posted k queued) ∉ h' := by
  intro he
  obtain ⟨past, hruns, -⟩ := hl.exists_law_after he
  refine hruns.2 ?_
  rw [finishedTickets_append]
  exact List.mem_append_left _ hp

/-- A unit that posted another one which ran at once finishes after it. -/
theorem finished_of_nested (hl : Lawful limit h) (hp : p ∈ finishedTickets h)
    (hpk : (p, k) ∈ nestings h) : k ∈ finishedTickets h := by
  obtain ⟨r, during, he⟩ := mem_finishedTickets.mp hp
  obtain ⟨past, later, rfl⟩ := List.append_of_mem he
  have hfinished : p ∈ finishedTickets (past ++ [.work r during (.finished p)]) := by
    simp [finishedTickets]
  have hnested : (p, k) ∈ nestings past := by
    obtain ⟨r', hnest⟩ := mem_nestings.mp hpk
    rw [mem_nestings]
    refine ⟨r', (List.mem_append.mp hnest).resolve_right fun hafter => ?_⟩
    rcases List.mem_cons.mp hafter with heq | hlater
    · cases heq
    · rw [List.append_cons] at hl
      exact hl.not_posts_of_finished hfinished hlater
  rw [finishedTickets_append]
  exact List.mem_append_left _ ((hl past _ later rfl).2.2 k hnested)

/-- **When a shutdown returns, whatever was posted before it closed the scheduler has finished**,
and so has whatever descends from that. -/
theorem finished_of_descends {later : List WorkshopEvent}
    (hl : Lawful limit (h ++ .shutDown :: later)) :
    ∃ past rest, h = past ++ .closed :: rest ∧
      ∀ k ∈ postedTickets past, ∀ c, Descends (h ++ .shutDown :: later) k c →
        c ∈ finishedTickets h := by
  obtain ⟨hclosed, hdrained⟩ := hl h _ later rfl
  obtain ⟨past, rest, rfl⟩ := List.append_of_mem hclosed
  generalize hh : past ++ .closed :: rest = h at *
  have hlh : Lawful limit h := hl.of_append
  refine ⟨past, rest, hh.symm, fun k hk c hc => ?_⟩
  induction hc with
  | refl =>
    -- a unit that was posted while the scheduler was open had to wait
    obtain ⟨r, during, queued, he⟩ := mem_postedTickets.mp hk
    obtain ⟨before, hbefore, -, -, hqueued⟩ := (KeepsLaw.of_append (hh ▸ hlh)).exists_law he
    have hopen : .closed ∉ past := hlh _ _ rest hh.symm
    obtain rfl := hqueued.mpr fun hc => hopen (hbefore.subset hc)
    refine hdrained (mem_queuedTickets.mpr ⟨r, during, ?_⟩)
    rw [← hh]
    exact List.mem_append_left _ he
  | tail _ hposts ih =>
    obtain ⟨r, queued, he⟩ := hposts
    have he : .work r (some _) (.posted _ queued) ∈ h :=
      (List.mem_append.mp he).resolve_right (hl.not_posts_of_finished ih)
    cases queued with
    | true => exact hdrained (mem_queuedTickets.mpr ⟨r, _, he⟩)
    | false => exact hlh.finished_of_nested ih (mem_nestings.mpr ⟨r, he⟩)

end Lawful

end Workshop

end TestEngine
