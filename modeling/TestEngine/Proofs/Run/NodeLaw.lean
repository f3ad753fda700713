import Mathlib.Data.List.Perm.Subperm
import TestEngine.Proofs.Fixture.Holdings
import TestEngine.Run.Lifecycle

/-!
# The law of a node

What is true of every node of a run, said about the node and what happened inside of it. A node is
made by the steps of its life cycle; if what happens inside follows the rules for the inside of a
node, the node obeys the law, and so do all nodes below it.

* `NodeLaw` — the law: how the node nests, what its children are called, what it counts, what it
  tears down, and that nothing happens in a node that is told to stop.
* `NodeRun` — steps that are one node of which the law holds, as it does of every node inside.
* `yields_untilCancelled` — children that run one after the other.
* `NodeRun.of_lifecycle` — a node with children obeys the law.
-/

namespace TestEngine

open Process

variable {ω γ : Type}

/-! ## The law -/

/-- How a node ends. A node with children finishes with the counts of the results inside of it, and
results are no entries of its own; a test has one result if it starts, and its finished message has
its output. -/
inductive Ended (f : Frame) (i : Chronicle) : Prop
  | group (g : GroupLevel) (hlevel : g.level = f.ids.level)
      (hfinish : f.finish = .finished g (.ofCounts (tally (messages i.occurrences))))
      (hresults : results (messages i.own) = [])
  | test (output : String) (hlevel : f.ids.level = .test)
      (hfinish : f.finish = .testFinished .zero output) (hnodes : i.nodes = [])
      (hresult : f.goesOn = true → ∃ m, results (messages i.own) = [m] ∧ m.ids = f.ids)
      (hsilent : f.goesOn = false → output = "")

/-- What a node tears down: after its children have finished, each part of what it acquired before
they started, once and in order. -/
structure TearsDown (f : Frame) (i : Chronicle) : Prop where
  isPart : ∀ o ∈ i.own, o.IsPart f.ids
  phases : ∃ before children after,
    i = .ofEntries before ++ children ++ .ofEntries after ∧ children.own = [] ∧
      released before = [] ∧ gained after = [] ∧
      released after = releaseOrder (toTearDown (gained before))

/-- The unique IDs `names` can be those of the children of a node, one after the other, in a run of
the cases `known`. -/
def Named (known : List String) (ids : NodeIds) (names : List String) : Prop :=
  match ids.level with
  | .assembly | .collection | .testClass => names.Nodup
  | .method => names.Subperm known
  | .testCase => ∃ k, names =
      (List.range k).map fun index => (NodePath.test ids.nodeId index).uniqueId
  | .test => names = []

theorem named_nil (known : List String) (ids : NodeIds) : Named known ids [] := by
  unfold Named
  split
  · exact List.nodup_nil
  · exact List.nodup_nil
  · exact List.nodup_nil
  · exact List.nil_subperm
  · exact ⟨0, rfl⟩
  · rfl

/-- What holds of a node and of what happened inside of it. -/
structure NodeLaw (known : List String) (f : Frame) (i : Chronicle) : Prop where
  nested : Chronicle.NestedNode f i
  siblings : ∃ level names, (names ≠ [] → level.depth = f.ids.level.depth + 1) ∧
    i.nodes.map (·.1.ids) <+: names.map (f.ids.child level) ∧ Named known f.ids names
  ended : Ended f i
  tearsDown : TearsDown f i
  refused : f.goesOn = false → i = .nil ∧ f.cleanup = none

/-- Steps that are one node, with `n` the counts of its results. -/
structure NodeRun (known : List String) (ids : NodeIds) (as : List Action) (n : Counts) : Prop where
  obeys : Obeys false as
  told : ∃ f i, f.ids = ids ∧ visible as = f.opening :: i.occurrences ++ f.closing ∧
    NodeLaw known f i ∧ i.Every (NodeLaw known) ∧ n = tally (messages i.occurrences)

/-! ## The ends of a node -/

namespace Frame

/-- The steps with which a node begins. -/
def openingSteps (f : Frame) : List Action := reported ⟨f.ids, .starting f.start⟩ f.goesOn

/-- The report of a failure to tear a node down, with the answer to it. -/
def cleanupSteps (ids : NodeIds) (level : Level) : Option (ErrorRecord × Bool) → List Action
  | some (error, b) => reported ⟨ids, .cleanupFailure level error⟩ b
  | none => []

/-- The steps with which a node ends. -/
def closingSteps (f : Frame) : List Action :=
  cleanupSteps f.ids f.start.level f.cleanup ++ reported ⟨f.ids, f.finish⟩ f.finishGoesOn

theorem visible_openingSteps (f : Frame) : visible f.openingSteps = [f.opening] :=
  visible_reported _ _

theorem visible_closingSteps (f : Frame) : visible f.closingSteps = f.closing := by
  unfold closingSteps closing
  rw [visible_append, visible_reported]
  cases f.cleanup with
  | none => rfl
  | some c => rw [cleanupSteps, visible_reported]; rfl

/-- The end of a node starts no other. -/
theorem obeys_closingSteps {f : Frame} (h : f.finish.isStarting = false) (c : Bool) :
    Obeys c f.closingSteps := by
  have hone : ∀ (c b : Bool) {m : Message}, m.event.isStarting = false →
      Obeys c (reported m b) := by
    intro c b m hm
    rw [← List.append_nil (reported m b)]
    exact .report (fun hs => absurd hs (by rw [hm]; nofun)) (.nil _)
  refine Obeys.append ?_ (hone _ _ h)
  cases f.cleanup with
  | none => exact .nil c
  | some e => exact hone c e.2 rfl

end Frame

theorem yields_reportCleanup (ids : NodeIds) (level : Level) (a : Aggregator) :
    (reportCleanup ids level a : Process ω Unit).Yields fun as _ =>
      ∃ c, as = Frame.cleanupSteps ids level c := by
  unfold reportCleanup
  cases a.toFailure? with
  | none => exact .pure ⟨none, rfl⟩
  | some f =>
    refine (yields_report ids _).bind ?_
    rintro _ b rfl
    exact .pure ⟨some (f.record, b), List.append_nil _⟩

/-! ## From steps to nodes -/

theorem Ended.lifecycle?_finish {f : Frame} {i : Chronicle} (h : Ended f i) :
    f.finish.lifecycle? = some (f.ids.level, .finished) := by
  cases h with
  | group g hlevel hfinish => rw [hfinish, ← hlevel]; rfl
  | test _ hlevel hfinish => rw [hfinish, hlevel]; rfl

theorem Ended.isStarting_finish {f : Frame} {i : Chronicle} (h : Ended f i) :
    f.finish.isStarting = false := by
  cases h with
  | group _ _ hfinish => rw [hfinish]; rfl
  | test _ _ hfinish => rw [hfinish]; rfl

theorem Ended.isResult_finish {f : Frame} {i : Chronicle} (h : Ended f i) :
    f.finish.isResult = false := by
  cases h with
  | group _ _ hfinish => rw [hfinish]; rfl
  | test _ _ hfinish => rw [hfinish]; rfl

section Children

variable {known names : List String} {f : Frame} {i : Chronicle} {level : Level}
  (hdepth : names ≠ [] → level.depth = f.ids.level.depth + 1)
  (hnodes : i.nodes.map (·.1.ids) <+: names.map (f.ids.child level))
include hdepth hnodes

/-- A child has one of the names, and is one level below. -/
theorem exists_child_of_mem {x : Frame × Chronicle} (hx : x ∈ i.nodes) :
    ∃ name ∈ names, x.1.ids = f.ids.child level name ∧ level.depth = f.ids.level.depth + 1 := by
  obtain ⟨name, hname, hids⟩ := List.mem_map.mp (hnodes.subset (List.mem_map_of_mem hx))
  exact ⟨name, hname, hids.symm, hdepth (List.ne_nil_of_mem hname)⟩

theorem Chronicle.NestedNode.of_children (hstart : f.start.level = f.ids.level) (hended : Ended f i)
    (hpart : ∀ o ∈ i.own, o.IsPart f.ids) : Chronicle.NestedNode f i where
  level_eq := hstart.symm
  finish_eq := hended.lifecycle?_finish
  plain := fun o ho => (hpart o ho).1
  parent_eq := by
    intro x hx
    obtain ⟨name, -, hids, hlevel⟩ := exists_child_of_mem hdepth hnodes hx
    rw [hids, NodeIds.parent?_child name (by omega)]
  depth_eq := by
    intro x hx
    obtain ⟨name, -, hids, hlevel⟩ := exists_child_of_mem hdepth hnodes hx
    rw [hids, NodeIds.level_child name (by omega), hlevel]

end Children

/-- A node that goes on obeys the law if all its children come after what it acquires and before
what it tears down. -/
theorem NodeLaw.of_between {known names : List String} {f : Frame} {c : Chronicle}
    {before after : List Occurrence} {level : Level} (hstart : f.start.level = f.ids.level)
    (hgo : f.goesOn = true) (hdepth : names ≠ [] → level.depth = f.ids.level.depth + 1)
    (hnodes : c.nodes.map (·.1.ids) <+: names.map (f.ids.child level))
    (hnamed : Named known f.ids names) (hown : c.own = [])
    (hended : Ended f (.between before c after)) (hpart : ∀ o ∈ before ++ after, o.IsPart f.ids)
    (hreleased : released before = []) (hgained : gained after = [])
    (horder : released after = releaseOrder (toTearDown (gained before))) :
    NodeLaw known f (.between before c after) := by
  rw [← Chronicle.nodes_between before c after] at hnodes
  have hparts : ∀ o ∈ (Chronicle.between before c after).own, o.IsPart f.ids := by
    rw [Chronicle.own_between, hown, List.append_nil]
    exact hpart
  exact {
    nested := .of_children hdepth hnodes hstart hended hparts
    siblings := ⟨level, names, hdepth, hnodes, hnamed⟩
    ended := hended
    tearsDown := ⟨hparts, before, c, after, rfl, hown, hreleased, hgained, horder⟩
    refused := by
      intro hstop
      rw [hgo] at hstop
      cases hstop }

/-- The steps of a frame around steps that obey are a node. -/
theorem NodeRun.of_frame {known : List String} {f : Frame} {i : Chronicle} {is : List Action}
    (hobeys : Obeys false is) (hvisible : visible is = i.occurrences) (hlaw : NodeLaw known f i)
    (hbelow : i.Every (NodeLaw known)) (hrefused : f.goesOn = false → is = []) :
    NodeRun known f.ids (f.openingSteps ++ is ++ f.closingSteps)
      (tally (messages i.occurrences)) where
  obeys := by
    have hclosing := Frame.obeys_closingSteps hlaw.ended.isStarting_finish
    have hinside : Obeys (false || !f.goesOn) (is ++ f.closingSteps) := by
      cases hgo : f.goesOn with
      | true => exact hobeys.append (hclosing _)
      | false =>
        rw [hrefused hgo]
        exact hclosing _
    rw [List.append_assoc]
    exact .report (fun _ => rfl) hinside
  told := by
    refine ⟨f, i, rfl, ?_, hlaw, hbelow, rfl⟩
    rw [visible_append, visible_append, f.visible_openingSteps, f.visible_closingSteps, hvisible]
    rfl

/-! ## Children -/

/-- Steps that are nodes, one after the other, which are some first children of a node: those of its
children that have the IDs `names` at `level`. Their results make the counts `n`. -/
def Children (known : List String) (ids : NodeIds) (level : Level) (names : List String)
    (as : List Action) (n : Counts) : Prop :=
  ∃ c : Chronicle, visible as = c.occurrences ∧ c.own = [] ∧ c.Every (NodeLaw known) ∧
    c.nodes.map (·.1.ids) <+: names.map (ids.child level) ∧ n = tally (messages c.occurrences)

namespace Children

variable {known names : List String} {ids : NodeIds} {level : Level} {name : String}
  {as bs : List Action} {m n : Counts}

theorem nil : Children known ids level names [] 0 :=
  ⟨.nil, rfl, rfl, trivial, List.nil_prefix, rfl⟩

theorem cons (h : NodeRun known (ids.child level name) as m)
    (h' : Children known ids level names bs n) :
    Children known ids level (name :: names) (as ++ bs) (m + n) := by
  obtain ⟨f, i, hids, hvisible, hlaw, hbelow, rfl⟩ := h.told
  obtain ⟨c, hc, hown, hevery, hinitial, rfl⟩ := h'
  refine ⟨.node f i c, ?_, hown, ⟨hlaw, hbelow, hevery⟩, ?_, ?_⟩
  · rw [visible_append, hvisible, hc]
    rfl
  · simp only [Chronicle.nodes, List.map_cons, hids]
    exact (List.cons_prefix_cons).mpr ⟨rfl, hinitial⟩
  · exact (tally_node hlaw.ended.isResult_finish i c).symm

theorem single (h : NodeRun known (ids.child level name) as n) :
    Children known ids level [name] as n := by
  have hnil : Children known ids level [] [] 0 := nil
  have hone := cons h hnil
  rwa [List.append_nil, Counts.add_zero] at hone

end Children

/-- Children that run one after the other until the run is cancelled. That the loop asks before each
of them makes it obey, whatever happened before. -/
theorem yields_untilCancelled (known : List String) {ids : NodeIds} {level : Level}
    {run : γ → Process ω Counts} {name : γ → String} (xs : List γ)
    (hrun : ∀ x ∈ xs, (run x).Yields fun as n => NodeRun known (ids.child level (name x)) as n)
    (sum : Counts) : (untilCancelled (xs.map run) sum).Yields fun as n =>
      (∀ c, Obeys c as) ∧ ∃ m, n = sum + m ∧ Children known ids level (xs.map name) as m := by
  induction xs generalizing sum with
  | nil => exact .pure ⟨.nil, 0, (Counts.add_zero sum).symm, .nil⟩
  | cons x xs ih =>
    simp only [List.map_cons, untilCancelled]
    refine yields_isCancelled.bind ?_
    rintro _ b rfl
    cases b with
    | true =>
      refine .pure ⟨fun c => .asked fun _ => .nil c, 0, (Counts.add_zero sum).symm, ?_⟩
      exact .nil
    | false =>
      refine (hrun x List.mem_cons_self).bind fun as n has => ?_
      refine (ih (fun y hy => hrun y (List.mem_cons_of_mem x hy)) (sum + n)).mono ?_
      rintro bs _ ⟨hbs, m, rfl, hm⟩
      have hchildren := Children.cons has hm
      refine ⟨fun c => .asked ?_, n + m, Counts.add_assoc sum n m, hchildren⟩
      -- the child starts only if the run was not cancelled when the loop asked
      rintro rfl
      exact has.obeys.append (hbs _)

/-! ## Nodes with children -/

/-- Steps inside of a node with children: what they share is set up, of which teardowns of the parts
`held` are kept, and then some of them run, with the counts `n`. -/
structure GroupRan (known : List String) (ids : NodeIds) (level : Level) (names : List String)
    (before inner : List Action) (n : Counts) (held : List (List TeardownPart)) : Prop where
  depth_eq : level.depth = ids.level.depth + 1
  named : Named known ids names
  acquires : Acquires ids (gained (visible before)) before
  held_eq : held = toTearDown (gained (visible before))
  children : Children known ids level names inner n
  obeys : Obeys false inner

/-- The steps inside of a node with children: at the end what is held is torn down. -/
def GroupInside (known : List String) (ids : NodeIds) (as : List Action) (n : Counts) : Prop :=
  ∃ level names before inner after held, as = before ++ inner ++ after ∧
    GroupRan known ids level names before inner n held ∧ Releases ids (releaseOrder held) after

theorem GroupInside.obeys {known : List String} {ids : NodeIds} {as : List Action} {n : Counts}
    (h : GroupInside known ids as n) : Obeys false as := by
  obtain ⟨level, names, before, inner, after, held, rfl, h, hafter⟩ := h
  have hbefore := Obeys.of_madeOf h.acquires.madeOf.ofTest false
  have hinner := h.obeys
  rw [← h.acquires.madeOf.cancelledAfter_eq false] at hinner
  exact (hbefore.append hinner).append (Obeys.of_madeOf hafter.madeOf.ofTest _)

/-- The inside of a node with children as a chronicle, in its three phases. -/
theorem GroupInside.exists_law {known : List String} {f : Frame} {g : GroupLevel}
    {as : List Action} {n : Counts} (h : GroupInside known f.ids as n)
    (hlevel : g.level = f.ids.level) (hstart : f.start.level = f.ids.level)
    (hfinish : f.finish = .finished g (.ofCounts n)) (hgo : f.goesOn = true) :
    ∃ i : Chronicle, visible as = i.occurrences ∧ NodeLaw known f i ∧ i.Every (NodeLaw known) ∧
      n = tally (messages i.occurrences) := by
  obtain ⟨level, names, before, inner, after, held, rfl, h, hreleases⟩ := h
  obtain ⟨c, hc, hown, hevery, hinitial, rfl⟩ := h.children
  have hbefore := h.acquires.madeOf.ofTest
  have hafter := hreleases.madeOf.ofTest
  have hocc := Chronicle.occurrences_between (visible before) c (visible after)
  -- neither setting up nor tearing down has results
  have htally : tally (messages c.occurrences) =
      tally (messages (Chronicle.between (visible before) c (visible after)).occurrences) := by
    rw [hocc, messages_append, messages_append, tally_append, tally_append,
      tally_eq_zero hbefore.results_eq_nil, tally_eq_zero hafter.results_eq_nil,
      Counts.zero_add, Counts.add_zero]
  have hended : Ended f (.between (visible before) c (visible after)) := by
    refine .group g hlevel (by rw [hfinish, htally]) ?_
    rw [Chronicle.own_between, hown, List.append_nil, messages_append, results_append,
      hbefore.results_eq_nil, hafter.results_eq_nil, List.append_nil]
  have hpart : ∀ o ∈ visible before ++ visible after, o.IsPart f.ids := by
    intro o ho
    rcases List.mem_append.mp ho with ho | ho
    · exact hbefore.isPart o ho
    · exact hafter.isPart o ho
  refine ⟨_, ?_, NodeLaw.of_between hstart hgo (fun _ => h.depth_eq) hinitial h.named hown hended
    hpart h.acquires.released_eq hreleases.gained_eq ?_, (Chronicle.every_between _ _ _).mpr hevery,
    htally⟩
  · rw [hocc, visible_append, visible_append, hc]
  · rw [hreleases.released_eq, h.held_eq]

/-- A node that is told to stop when it starts. -/
theorem NodeRun.of_refused {known : List String} {f : Frame} (hended : Ended f .nil)
    (hstart : f.start.level = f.ids.level) (hcleanup : f.cleanup = none) :
    NodeRun known f.ids (f.openingSteps ++ f.closingSteps) 0 := by
  have hnil : ∀ o ∈ Chronicle.nil.own, o.IsPart f.ids := by
    intro o ho
    cases ho
  have hdepth : ([] : List String) ≠ [] → Level.test.depth = f.ids.level.depth + 1 :=
    fun h => absurd rfl h
  have hlaw : NodeLaw known f .nil := {
    nested := .of_children hdepth List.nil_prefix hstart hended hnil
    siblings := ⟨.test, [], hdepth, List.nil_prefix, named_nil known f.ids⟩
    ended := hended
    tearsDown := ⟨hnil, [], .nil, [], rfl, rfl, rfl, rfl, rfl⟩
    refused := fun _ => ⟨rfl, hcleanup⟩ }
  have h : NodeRun known f.ids (f.openingSteps ++ [] ++ f.closingSteps) 0 :=
    .of_frame (.nil false) rfl hlaw trivial fun _ => rfl
  rwa [List.append_nil] at h

/-- **The life cycle of a node obeys the law** if what happens inside of it follows the rules. -/
theorem NodeRun.of_lifecycle {known : List String} {ids : NodeIds} {group : GroupLevel}
    {start : NodeStart} {inside : Process ω (Counts × Aggregator)}
    (hgroup : group.level = ids.level) (hstart : start.level = ids.level)
    (hinside : inside.Yields fun as a => GroupInside known ids as a.1) :
    (lifecycle ids group start inside).Yields fun as n => NodeRun known ids as n := by
  unfold lifecycle
  refine (yields_report ids _).bind ?_
  rintro _ goesOn rfl
  cases goesOn with
  | false =>
    refine (yields_report ids _).bind ?_
    rintro _ b rfl
    refine .pure ?_
    rw [List.append_nil]
    exact NodeRun.of_refused (f := ⟨ids, start, false, none, .finished group (.ofCounts 0), b⟩)
      (.group group hgroup rfl rfl) hstart rfl
  | true =>
    simp only [if_true]
    refine hinside.bind ?_
    rintro is ⟨n, failed⟩ h
    refine (yields_reportCleanup ids _ failed).bind ?_
    rintro _ _ ⟨cleanup, rfl⟩
    refine (yields_report ids _).bind ?_
    rintro _ b rfl
    refine .pure ?_
    -- the report of a failure to tear the node down belongs to the end of the node
    let f : Frame := ⟨ids, start, true, cleanup, .finished group (.ofCounts n), b⟩
    obtain ⟨i, hvisible, hlaw, hbelow, rfl⟩ := h.exists_law (f := f) hgroup hstart rfl rfl
    have hnode := NodeRun.of_frame h.obeys hvisible hlaw hbelow nofun
    rw [List.append_nil, hgroup, ← hstart]
    rw [List.append_assoc] at hnode
    exact hnode

end TestEngine
