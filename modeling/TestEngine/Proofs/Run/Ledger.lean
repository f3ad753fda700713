import TestEngine.Proofs.Run.Chronicle

/-!
# What a record accounts for

A record of a run tells how many tests had which result, what the nodes of the tree got hold of, and
what they gave back.

* `tally` — the counts of the results among some messages.
* `gained`, `released` — the teardowns that a record shows to be acquired, and their parts as they
  ran.
* `releaseOrder` — the order in which the teardowns of a node are to run; `nodup_releaseOrder` and
  `mem_releaseOrder_iff` say that each part is in it exactly once.
-/

namespace TestEngine

/-! ## Results -/

namespace Event

/-- A test passed, failed or was skipped. -/
def isResult : Event → Bool
  | passed .. => true
  | failed .. => true
  | skipped _ => true
  | _ => false

/-- A test was skipped. -/
def isSkip : Event → Bool
  | skipped _ => true
  | _ => false

/-- The event is about a step of a test between its start and its result. -/
def isStep : Event → Bool
  | construction _ => true
  | before .. => true
  | after .. => true
  | disposal _ => true
  | output _ => true
  | _ => false

/-- User code sent the event. -/
def isDiagnostic : Event → Bool
  | diagnostic _ => true
  | _ => false

theorem isResult_of_isTestFailure {e : Event} (h : e.isTestFailure = true) :
    e.isResult = true := by
  cases e <;> first | rfl | cases h

theorem lifecycle?_of_isResult {e : Event} (h : e.isResult = true) : e.lifecycle? = none := by
  cases e <;> first | rfl | cases h

end Event

/-- The results among some messages. -/
def results (ms : List Message) : List Message := ms.filter (·.event.isResult)

@[simp] theorem results_append (ms ns : List Message) :
    results (ms ++ ns) = results ms ++ results ns := List.filter_append ..

/-- How many tests had a result, failed and were skipped, according to some messages. -/
def tally (ms : List Message) : Counts where
  total := ms.countP (·.event.isResult)
  failed := ms.countP (·.event.isTestFailure)
  skipped := ms.countP (·.event.isSkip)

@[simp] theorem tally_nil : tally [] = 0 := rfl

@[simp] theorem tally_append (ms ns : List Message) : tally (ms ++ ns) = tally ms + tally ns := by
  ext <;> simp only [tally, List.countP_append, Counts.total_add, Counts.failed_add,
    Counts.skipped_add]

/-- Only results count. -/
theorem tally_results (ms : List Message) : tally (results ms) = tally ms := by
  have hfailed : ∀ e : Event, (e.isTestFailure && e.isResult) = e.isTestFailure := by
    intro e
    cases e <;> rfl
  have hskipped : ∀ e : Event, (e.isSkip && e.isResult) = e.isSkip := by
    intro e
    cases e <;> rfl
  ext
  · simp only [tally, results, List.countP_filter, Bool.and_self]
  · simp only [tally, results, List.countP_filter, hfailed]
  · simp only [tally, results, List.countP_filter, hskipped]

theorem tally_eq_zero {ms : List Message} (h : results ms = []) : tally ms = 0 := by
  rw [← tally_results, h, tally_nil]

/-- Neither the beginning nor the end of a node is a result. -/
theorem tally_node {f : Frame} (h : f.finish.isResult = false) (i c : Chronicle) :
    tally (messages (Chronicle.node f i c).occurrences) =
      tally (messages i.occurrences) + tally (messages c.occurrences) := by
  have hopening : tally (messages [f.opening]) = 0 := rfl
  have hclosing : tally (messages f.closing) = 0 := by
    have hcleanup : ∀ l e, (Event.cleanupFailure l e).isResult = false := fun _ _ => rfl
    refine tally_eq_zero ?_
    unfold Frame.closing
    cases f.cleanup <;> simp [messages, results, h, hcleanup]
  simp only [Chronicle.messages_node, tally_append, hopening, hclosing, Counts.zero_add]

/-! ## Teardowns -/

namespace Activity

/-- The node that an entry is about; a note is about none. -/
def owner? : Activity → Option NodeIds
  | note _ => none
  | construct owner .. => some owner
  | constructed owner .. => some owner
  | enumerate owner => some owner
  | enumerated owner _ => some owner
  | hook owner .. => some owner
  | body owner => some owner
  | release owner .. => some owner

/-- The parts of the teardowns of what a node got hold of. -/
def gained : Activity → List (List TeardownPart)
  | constructed _ _ _ (some parts) => [parts]
  | enumerated _ (some rows) => rows
  | _ => []

/-- The part of a teardown that is run. -/
def released? : Activity → Option (Nat × TeardownPart)
  | release _ index part => some (index, part)
  | _ => none

end Activity

/-- The entries of the journal. -/
def activities (os : List Occurrence) : List Activity :=
  os.filterMap fun
    | .activity a => some a
    | _ => none

@[simp] theorem activities_append (os ps : List Occurrence) :
    activities (os ++ ps) = activities os ++ activities ps := List.filterMap_append

/-- The parts of the teardowns of what was acquired, in order. -/
def gained (os : List Occurrence) : List (List TeardownPart) := (activities os).flatMap (·.gained)

/-- The parts of teardowns that ran, in order. -/
def released (os : List Occurrence) : List (Nat × TeardownPart) :=
  (activities os).filterMap (·.released?)

@[simp] theorem gained_append (os ps : List Occurrence) :
    gained (os ++ ps) = gained os ++ gained ps := by
  simp only [gained, activities_append, List.flatMap_append]

@[simp] theorem released_append (os ps : List Occurrence) :
    released (os ++ ps) = released os ++ released ps := by
  simp only [released, activities_append, List.filterMap_append]

/-- What has a part of one kind, last first, each by its place in the order of acquisition. -/
def inReverse (part : TeardownPart) (held : List (List TeardownPart)) : List (Nat × TeardownPart) :=
  held.zipIdx.reverse.filterMap fun (parts, index) =>
    if part ∈ parts then some (index, part) else none

/-- The order in which teardowns are to run, when `held` are their parts in the order of
acquisition: the asynchronous parts in reverse, and then the synchronous ones in reverse. -/
def releaseOrder (held : List (List TeardownPart)) : List (Nat × TeardownPart) :=
  inReverse .async held ++ inReverse .sync held

/-- What has anything to tear down. -/
def toTearDown (gained : List (List TeardownPart)) : List (List TeardownPart) :=
  gained.filter fun parts => !parts.isEmpty

@[simp] theorem toTearDown_append (gs hs : List (List TeardownPart)) :
    toTearDown (gs ++ hs) = toTearDown gs ++ toTearDown hs := List.filter_append ..

theorem mem_inReverse_iff {part : TeardownPart} {held : List (List TeardownPart)}
    {p : Nat × TeardownPart} :
    p ∈ inReverse part held ↔ p.2 = part ∧ ∃ parts, held[p.1]? = some parts ∧ part ∈ parts := by
  obtain ⟨index, q⟩ := p
  simp only [inReverse, List.mem_filterMap, List.mem_reverse, Prod.exists,
    List.mem_zipIdx_iff_getElem?]
  constructor
  · rintro ⟨parts, i, hi, h⟩
    split at h
    · next hp =>
      cases h
      exact ⟨rfl, parts, hi, hp⟩
    · cases h
  · rintro ⟨rfl, parts, hi, hp⟩
    exact ⟨parts, index, hi, if_pos hp⟩

/-- Exactly the parts of what is held are run. -/
theorem mem_releaseOrder_iff {held : List (List TeardownPart)} {p : Nat × TeardownPart} :
    p ∈ releaseOrder held ↔ ∃ parts, held[p.1]? = some parts ∧ p.2 ∈ parts := by
  rw [releaseOrder, List.mem_append, mem_inReverse_iff, mem_inReverse_iff]
  constructor
  · rintro (⟨h, parts, hi, hp⟩ | ⟨h, parts, hi, hp⟩) <;> exact ⟨parts, hi, h ▸ hp⟩
  · rintro ⟨parts, hi, hp⟩
    cases h : p.2 with
    | async => exact .inl ⟨rfl, parts, hi, h ▸ hp⟩
    | sync => exact .inr ⟨rfl, parts, hi, h ▸ hp⟩

theorem pairwise_inReverse (part : TeardownPart) (held : List (List TeardownPart)) :
    (inReverse part held).Pairwise fun p q => q.1 < p.1 := by
  unfold inReverse
  rw [List.pairwise_filterMap, List.pairwise_reverse]
  have hidx : held.zipIdx.Pairwise fun p q => p.2 < q.2 := by
    have h := List.pairwise_lt_range' (s := 0) (n := held.length)
    rw [← List.zipIdx_map_snd 0 held, List.pairwise_map] at h
    exact h
  refine hidx.imp ?_
  rintro ⟨ps, i⟩ ⟨qs, j⟩ hij p hp q hq
  obtain ⟨-, hp⟩ := Option.ite_none_right_eq_some.mp hp
  obtain ⟨-, hq⟩ := Option.ite_none_right_eq_some.mp hq
  cases hp
  cases hq
  exact hij

/-- No part is run twice. -/
theorem nodup_releaseOrder (held : List (List TeardownPart)) : (releaseOrder held).Nodup := by
  have hone : ∀ part, (inReverse part held).Nodup := by
    intro part
    refine (pairwise_inReverse part held).imp ?_
    rintro p q h rfl
    exact Nat.lt_irrefl _ h
  refine List.nodup_append.mpr ⟨hone .async, hone .sync, ?_⟩
  rintro p hp q hq rfl
  have hsync := (mem_inReverse_iff.mp hq).1
  rw [(mem_inReverse_iff.mp hp).1] at hsync
  cases hsync

end TestEngine
