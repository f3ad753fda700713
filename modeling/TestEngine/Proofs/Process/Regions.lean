import TestEngine.Proofs.Process.Course
import TestEngine.Proofs.Run.Chronicle

/-!
# Regions of the world

Processes that run side by side work in one world. A *region* is a part of it, with the nodes whose
messages may come from there. A process that keeps to a region tells the same messages and ends with
the same value whatever happens in the rest of the world meanwhile, as long as it is told to go on
and the run is not cancelled; and the rest of the world does not notice it.

* `Process.Runs` — what a process does in a region.
* `Process.KeepsTo` — from any state of the region the process does something. The rules are those
  of `Process.Yields`, one for each way of putting processes together.
* `Process.Runs.exists_whole` — what a process does in a region, it does in the world.
* `Process.Runs.eq_of_course` — it does nothing else.
-/

namespace TestEngine

variable {ω ν α β γ : Type}

/-- A part of the world, and the nodes that belong to it. -/
structure Region (ω ν : Type) where
  /-- What the world looks like from inside. -/
  view : ω → ν
  /-- The rest of the second world is like that of the first one. -/
  spares : ω → ω → Prop
  spares_refl : ∀ w, spares w w
  /-- Messages about these nodes may come from the region. -/
  owns : NodeIds → Prop
  owns_child : ∀ {ids : NodeIds} (level : Level) (id : String), level ≠ .collection → owns ids →
    owns (ids.child level id)

namespace Region

/-- The whole world. -/
def whole : Region ω ω where
  view := id
  spares := fun _ _ => True
  spares_refl := fun _ => trivial
  owns := fun _ => True
  owns_child := fun _ _ _ _ => trivial

/-- What a collection sees of the world, when `view` tells this for each collection by its ID. The
messages about its nodes have that ID. -/
def ofCollection (view : String → ω → ν) (id : String) : Region ω ν where
  view := view id
  spares := fun w w' => ∀ other, other ≠ id → view other w' = view other w
  spares_refl := fun _ _ _ => rfl
  owns := fun ids => ids.collection = some id
  owns_child := by
    intro ids level _ hne h
    rw [← h]
    exact NodeIds.at?_child_of_ne ids (k := .collection) _ hne.symm

end Region

namespace Process

/-- `p.Runs R v ms a v'`: wherever the region looks like `v`, the process tells the messages `ms`
and ends with `a`, and then the region looks like `v'`. The rest of the world may change at any
time, and the process leaves it alone. -/
inductive Runs (R : Region ω ν) : ν → Process ω α → List Message → α → ν → Prop
  | done (a : α) (v : ν) : Runs R v (done a) [] a v
  | queue {m : Message} {next : Bool → Process ω α} {ms : List Message} {a : α} {v v' : ν}
      (howns : R.owns m.ids) (h : Runs R v (next true) ms a v') :
      Runs R v (queue m next) (m :: ms) a v'
  | askCancelled {next : Bool → Process ω α} {ms : List Message} {a : α} {v v' : ν}
      (h : Runs R v (next false) ms a v') : Runs R v (askCancelled next) ms a v'
  | world {change : ω → ω} {next : ω → Process ω α} {ms : List Message} {a : α} {v u v' : ν}
      (hview : ∀ w, R.view w = v → R.view (change w) = u)
      (hspares : ∀ w, R.view w = v → R.spares w (change w))
      (h : ∀ w, R.view w = v → Runs R u (next w) ms a v') : Runs R v (world change next) ms a v'
  | journal {entry : Activity} {next : Process ω α} {ms : List Message} {a : α} {v v' : ν}
      (h : Runs R v next ms a v') : Runs R v (journal entry next) ms a v'

namespace Runs

variable {R : Region ω ν} {p : Process ω α} {ms ns : List Message} {a b : α} {v u v' : ν} {w : ω}

theorem bind {f : α → Process ω β} {b : β} (h : p.Runs R v ms a u) (h' : (f a).Runs R u ns b v') :
    (p >>= f).Runs R v (ms ++ ns) b v' := by
  induction h with
  | done a v => exact h'
  | queue howns _ ih => exact .queue howns (ih h')
  | askCancelled _ ih => exact .askCancelled (ih h')
  | world hview hspares _ ih => exact .world hview hspares fun w hw => ih w hw h'
  | journal _ ih => exact .journal (ih h')

/-- A process that has ended tells nothing. -/
theorem eq_of_done (h : (Process.done b).Runs R v ms a v') : ms = [] ∧ b = a ∧ v = v' := by
  cases h
  exact ⟨rfl, rfl, rfl⟩

/-- All messages are about nodes of the region. -/
theorem owns (h : p.Runs R (R.view w) ms a v') : ∀ m ∈ ms, R.owns m.ids := by
  generalize hv : R.view w = v at h
  induction h generalizing w with
  | done a v => exact List.forall_mem_nil _
  | queue howns _ ih => exact List.forall_mem_cons.mpr ⟨howns, ih hv⟩
  | askCancelled _ ih => exact ih hv
  | world hview _ _ ih => exact ih w hv (hview w hv)
  | journal _ ih => exact ih hv

/-- **What a process does in a region, it does in the world**, and the rest of the world is
spared. -/
theorem exists_whole {id : String} {view : String → ω → ν}
    (h : p.Runs (.ofCollection view id) (view id w) ms a v') :
    ∃ w', p.Runs .whole w ms a w' ∧ view id w' = v' ∧
      ∀ other, other ≠ id → view other w' = view other w := by
  generalize hv : view id w = v at h
  induction h generalizing w with
  | done a v => exact ⟨w, .done a w, hv, fun _ _ => rfl⟩
  | queue _ _ ih =>
    obtain ⟨w', hruns, hrest⟩ := ih hv
    exact ⟨w', .queue trivial hruns, hrest⟩
  | askCancelled _ ih =>
    obtain ⟨w', hruns, hrest⟩ := ih hv
    exact ⟨w', .askCancelled hruns, hrest⟩
  | @world change _ _ _ _ _ _ hview hspares _ ih =>
    obtain ⟨w', hruns, hv', hrest⟩ := ih w hv (hview w hv)
    refine ⟨w', .world (u := change w) ?_ (fun _ _ => trivial) ?_, hv', fun other hne => ?_⟩
    · rintro _ rfl
      rfl
    · rintro _ rfl
      exact hruns
    · exact (hrest other hne).trans (hspares w hv other hne)
  | journal _ ih =>
    obtain ⟨w', hruns, hrest⟩ := ih hv
    exact ⟨w', .journal hruns, hrest⟩

/-- **It does nothing else**: a course in which every message is answered with going on, and every
question with the truth, tells these messages and ends with this value. -/
theorem eq_of_course {as : List Action} {w' : ω} (h : p.Runs R (R.view w) ms a v')
    (hcourse : p.Course w as (.done b) w')
    (hanswers : ∀ m goesOn, .queued m goesOn ∈ as → goesOn = true) (htruthful : Truthful false as) :
    messages (visible as) = ms ∧ b = a := by
  generalize hv : R.view w = v at h
  induction h generalizing w as with
  | done a v =>
    cases hcourse
    exact ⟨rfl, rfl⟩
  | @queue m _ _ _ _ _ _ _ ih =>
    cases hcourse with
    | @queue _ _ goesOn _ _ as _ hcourse =>
      obtain rfl := hanswers m goesOn List.mem_cons_self
      obtain ⟨rfl, hend⟩ := ih hcourse
        (fun m goesOn hm => hanswers m goesOn (List.mem_cons_of_mem _ hm)) htruthful hv
      exact ⟨rfl, hend⟩
  | askCancelled _ ih =>
    cases hcourse with
    | askCancelled hcourse =>
      obtain ⟨rfl, htruthful⟩ := htruthful
      have hrest := ih hcourse (fun m goesOn hm => hanswers m goesOn (List.mem_cons_of_mem _ hm))
        htruthful hv
      exact hrest
  | world hview _ _ ih =>
    cases hcourse with
    | world hcourse => exact ih w hv hcourse hanswers htruthful (hview w hv)
  | journal _ ih =>
    cases hcourse with
    | journal hcourse =>
      have hrest := ih hcourse (fun m goesOn hm => hanswers m goesOn (List.mem_cons_of_mem _ hm))
        htruthful hv
      exact hrest

/-- What a process does in a region is a trace of it. -/
theorem exists_trace (h : p.Runs R (R.view w) ms a v') :
    ∃ as, p.Trace as a ∧ messages (visible as) = ms := by
  generalize hv : R.view w = v at h
  induction h generalizing w with
  | done a v => exact ⟨[], .refl _, rfl⟩
  | @queue m _ _ _ _ _ _ _ ih =>
    obtain ⟨as, htrace, rfl⟩ := ih hv
    exact ⟨.queued m true :: as, .queue htrace, rfl⟩
  | askCancelled _ ih =>
    obtain ⟨as, htrace, rfl⟩ := ih hv
    exact ⟨.asked false :: as, .askCancelled htrace, rfl⟩
  | world hview _ _ ih =>
    obtain ⟨as, htrace, rfl⟩ := ih w hv (hview w hv)
    exact ⟨as, .world htrace, rfl⟩
  | @journal entry _ _ _ _ _ _ ih =>
    obtain ⟨as, htrace, rfl⟩ := ih hv
    exact ⟨.activity entry :: as, .journal htrace, rfl⟩

/-- A region is always left as it can be. -/
theorem exists_view (h : p.Runs R (R.view w) ms a v') : ∃ w', R.view w' = v' := by
  generalize hv : R.view w = v at h
  induction h generalizing w with
  | done a v => exact ⟨w, hv⟩
  | queue _ _ ih => exact ih hv
  | askCancelled _ ih => exact ih hv
  | world hview _ _ ih => exact ih w hv (hview w hv)
  | journal _ ih => exact ih hv

end Runs

/-! ## Keeping to a region -/

/-- Whatever the region looks like, the process keeps to it, and the value at its end satisfies
`P`. -/
def KeepsTo (R : Region ω ν) (P : α → Prop) (p : Process ω α) : Prop :=
  ∀ w, ∃ ms a v, p.Runs R (R.view w) ms a v ∧ P a

namespace KeepsTo

variable {R : Region ω ν} {p : Process ω α} {P : α → Prop}

theorem pure {a : α} (h : P a) : (Pure.pure a : Process ω α).KeepsTo R P :=
  fun w => ⟨[], a, R.view w, .done a _, h⟩

/-- The rule for sequences. -/
theorem bind {f : α → Process ω β} {Q : β → Prop} (hp : p.KeepsTo R P)
    (hf : ∀ a, P a → (f a).KeepsTo R Q) : (p >>= f).KeepsTo R Q := by
  intro w
  obtain ⟨ms, a, v, hruns, ha⟩ := hp w
  obtain ⟨w', rfl⟩ := hruns.exists_view
  obtain ⟨ns, b, v', hruns', hb⟩ := hf a ha w'
  exact ⟨ms ++ ns, b, v', hruns.bind hruns', hb⟩

theorem queue {m : Message} {next : Bool → Process ω α} (howns : R.owns m.ids)
    (h : (next true).KeepsTo R P) : (Process.queue m next).KeepsTo R P := by
  intro w
  obtain ⟨ms, a, v, hruns, ha⟩ := h w
  exact ⟨m :: ms, a, v, .queue howns hruns, ha⟩

/-- The run goes on after a report. -/
theorem report {ids : NodeIds} (howns : R.owns ids) (event : Event) :
    (Process.report ids event : Process ω Bool).KeepsTo R (· = true) := queue howns (.pure rfl)

theorem enter (entry : Activity) : (Process.enter entry : Process ω Unit).KeepsTo R fun _ => True :=
  fun w => ⟨[], (), R.view w, .journal (.done () _), trivial⟩

/-- The run is not cancelled. -/
theorem isCancelled : (Process.isCancelled : Process ω Bool).KeepsTo R (· = false) :=
  fun w => ⟨[], false, R.view w, .askCancelled (.done false _), rfl⟩

/-- A loop over a list, with an invariant. -/
theorem foldlM {f : β → γ → Process ω β} {P : β → Prop} (xs : List γ)
    (hf : ∀ x ∈ xs, ∀ b, P b → (f b x).KeepsTo R P) {b : β} (hb : P b) :
    (xs.foldlM f b).KeepsTo R P := by
  induction xs generalizing b with
  | nil => exact .pure hb
  | cons x xs ih =>
    rw [List.foldlM_cons]
    exact (hf x List.mem_cons_self b hb).bind fun b' hb' =>
      ih (fun y hy => hf y (List.mem_cons_of_mem _ hy)) hb'

theorem untilCancelled {ps : List (Process ω Counts)} (h : ∀ p ∈ ps, p.KeepsTo R fun _ => True)
    (sum : Counts) : (Process.untilCancelled ps sum).KeepsTo R fun _ => True := by
  induction ps generalizing sum with
  | nil => exact .pure trivial
  | cons p ps ih =>
    refine isCancelled.bind ?_
    rintro _ rfl
    exact (h p List.mem_cons_self).bind fun c _ =>
      ih (fun q hq => h q (List.mem_cons_of_mem _ hq)) (sum + c)

end KeepsTo

end Process

end TestEngine
