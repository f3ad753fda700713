import TestEngine.Proofs.Order.Guarded
import TestEngine.Proofs.Run.Answers

/-!
# Either kind of bus

On an asynchronous bus most messages are answered before they are delivered. That makes no
difference to a run whose sink asks to stop only when the answer waits for it, or when a test has
failed in a run that stops at failures.

* `SerialRun.goesOn_eq` — when an answer is up to date.
* `SerialRun.eq_of_certain` — then a run is the same on either kind of bus.
-/

namespace TestEngine

variable {σ ω : Type}

/-! ## Places among the messages -/

/-- A place among the messages is a place among the occurrences. -/
theorem exists_split_of_messages_eq {os : List Occurrence} {before after : List Message}
    {m : Message} (h : messages os = before ++ m :: after) :
    ∃ x b y, os = x ++ .queued m b :: y ∧ messages x = before ∧ messages y = after := by
  obtain ⟨x, rest, rfl, hx, hrest⟩ := List.filterMap_eq_append_iff.mp h
  obtain ⟨z, o, y, rfl, hz, ho, hy⟩ := List.filterMap_eq_cons_iff.mp hrest
  have hnone : messages z = [] := List.filterMap_eq_nil_iff.mpr hz
  cases o with
  | handed _ => cases ho
  | activity _ => cases ho
  | queued m' b =>
    cases ho
    refine ⟨x ++ z, b, y, (List.append_assoc ..).symm, ?_, hy⟩
    rw [messages_append, hnone, List.append_nil]
    exact hx

namespace SerialRun

variable {r : AssemblyRun ω} {c : Transport σ}

/-- An answer tells whether the messages so far stop the run. On an asynchronous bus this holds if
what has stopped the run is a node that starts, or a failed test in a run that stops at failures. -/
theorem goesOn_eq (f : SerialRun r c) {x y : List Occurrence} {m : Message} {b : Bool}
    (h : f.record = x ++ .queued m b :: y)
    (hcertain : c.kind = .asynchronous → ∀ before m' after,
      messages x ++ [m] = before ++ m' :: after → Latches c f.sink before m' →
      m'.event.isStarting = true ∨ (c.stopOnFail = true ∧ m'.event.isTestFailure = true)) :
    b = !stoppedBy c f.sink (messages x ++ [m]) := by
  have hfits := f.answerFits h
  cases hstopped : stoppedBy c f.sink (messages x ++ [m]) with
  | false =>
    cases b with
    | true => rfl
    | false =>
      rw [hfits.stoppedBy_of_eq_false] at hstopped
      cases hstopped
  | true =>
    cases hk : c.kind with
    | synchronous => exact hfits.eq_false_of_handled (.inl hk) hstopped
    | asynchronous =>
      obtain ⟨before, m', after, heq, hlatches⟩ := exists_latches hstopped
      rcases hcertain hk before m' after heq hlatches with hstarting | ⟨hfail, hfailed⟩
      · -- whoever queued the message that stops the run was told so, and so were all after it
        rcases List.eq_nil_or_concat after with rfl | ⟨after', m'', rfl⟩
        · obtain ⟨-, hm⟩ := List.append_inj' heq rfl
          cases hm
          exact hfits.eq_false_of_handled (.inr hstarting) hstopped
        · rw [List.concat_eq_append, ← List.cons_append, ← List.append_assoc] at heq
          obtain ⟨hx, -⟩ := List.append_inj' heq rfl
          obtain ⟨x₁, b', x₂, rfl, rfl, -⟩ := exists_split_of_messages_eq hx
          have hrecord : f.record = x₁ ++ .queued m' b' :: (x₂ ++ .queued m b :: y) := by
            rw [h, List.append_assoc]
            rfl
          obtain rfl := (f.answerFits hrecord).eq_false_of_handled (.inr hstarting)
            hlatches.stoppedBy
          have hstays := f.staysTold
          rw [hrecord] at hstays
          have hlater := (List.pairwise_cons.mp (List.pairwise_append.mp hstays).2.1).1
          exact hlater (.queued m b) (List.mem_append_right _ List.mem_cons_self) m' m b rfl rfl
      · -- a failed test stops the run before it is delivered
        obtain ⟨handled, -, rfl⟩ := hfits
        have hmem : m' ∈ messages x ++ [m] := by
          rw [heq]
          exact List.mem_append_right _ List.mem_cons_self
        have hany : (c.noted (messages x ++ [m])).any (·.event.isTestFailure) = true := by
          rw [Transport.noted_asynchronous hk]
          exact List.any_eq_true.mpr ⟨m', hmem, hfailed⟩
        rw [hfail, hany, Bool.and_true, Bool.or_true]

/-- **A run is the same on either kind of bus** if, on the synchronous one, it is stopped only by a
node that starts or, in a run that stops at failures, by a failed test. Whatever the dispatcher
does, the sink is handed the same messages in the same order and gives the same answers, the same
happens, and the run answers the same counts. -/
theorem eq_of_certain {sink : Sink σ} {stopOnFail : Bool}
    (e : SerialRun r ⟨.synchronous, sink, stopOnFail⟩)
    (f : SerialRun r ⟨.asynchronous, sink, stopOnFail⟩)
    (hsink : f.sink = e.sink) (hworld : f.world = e.world)
    (hcertain : ∀ before m after, e.queued = before ++ m :: after →
      Latches ⟨.synchronous, sink, stopOnFail⟩ e.sink before m →
      m.event.isStarting = true ∨ (stopOnFail = true ∧ m.event.isTestFailure = true)) :
    f.final.calls = e.final.calls ∧ f.record = e.record ∧ f.counts = e.counts := by
  obtain ⟨as, hcourse, hvisible, htruthful⟩ := e.exists_course
  obtain ⟨bs, hcourse', hvisible', htruthful'⟩ := f.exists_course
  have hagree : Agree as bs := by
    constructor
    · -- up to here both runs have queued the same messages, so both answers are up to date
      rintro x m b y b' y' rfl rfl
      rw [visible_append] at hvisible hvisible'
      have hprompt := e.goesOn_eq hvisible.symm nofun
      have hprompt' := f.goesOn_eq hvisible'.symm fun _ before m' after heq hlatches => by
        rw [hsink] at hlatches
        refine hcertain before m' (after ++ messages (visible y)) ?_ hlatches
        have hqueued : e.queued = (messages (visible x) ++ [m]) ++ messages (visible y) := by
          rw [queued, ← hvisible, messages_append, List.append_assoc]
          rfl
        rw [hqueued, heq, List.append_assoc]
        rfl
      rw [hprompt, hprompt', hsink]
      rfl
    · rintro x b y b' y' rfl rfl
      rw [truthful_append] at htruthful htruthful'
      rw [htruthful.2.1, htruthful'.2.1]
  rw [hworld] at hcourse'
  obtain ⟨rfl, hcounts, -⟩ := hcourse.eq_of_agree hcourse' hagree
  have hrecord : f.record = e.record := hvisible'.symm.trans hvisible
  obtain ⟨-, -, -, -, hcalls⟩ := e.exists_trace
  obtain ⟨-, -, -, -, hcalls'⟩ := f.exists_trace
  refine ⟨?_, hrecord, hcounts.symm⟩
  rw [hcalls, hcalls', hsink, queued, queued, hrecord]

end SerialRun

/-! ### Two counters

An assembly with two collections, `left` and `right`. The one test of each counts itself in its own
half of the world and then fails. -/

namespace TwoCounters

def assembly : Assembly (Nat × Nat) where
  name := "counters"

/-- The one case of a collection, whose test makes a `step` in the world. -/
def testCase (collection : String) (step : Nat × Nat → Nat × Nat) : TestCase (Nat × Nat) where
  method :=
    { testClass :=
        { collection := { assembly, displayName := collection }
          name := "Counter" }
      name := "counts"
      body := .sync fun _ => .world step fun _ => .finish (.failed (.ofMessage "no counter")) }
  kind := .fact
  displayName := "Counter.counts"

/-- Ways to order collections, one of which drops all but the first. -/
def collectionOrders :
    List (String × (List (Collection (Nat × Nat)) → List (Collection (Nat × Nat)))) :=
  [("declaration", id), ("first", fun collections => collections.take 1)]

def caseOrders : List (String × (List (TestCase (Nat × Nat)) → List (TestCase (Nat × Nat)))) :=
  [("declaration", id)]

/-- The orderer of collections that is asked for is not a good one. -/
def run : AssemblyRun (Nat × Nat) where
  assembly := assembly
  cases := [testCase "left" fun w => (w.1 + 1, w.2), testCase "right" fun w => (w.1, w.2 + 1)]
  setup :=
    { options := { collectionOrderer := some "first", caseOrderer := some "declaration" }
      collectionOrderers := .ofOrders .collection (·.id) collectionOrders
      caseOrderers := .ofOrders .testCase (·.id) caseOrders }
  processors := 2
  startTime := .epoch

/-- A sink that counts the collections that start, and asks to stop when the second one does. -/
def stopAtSecond : Sink Nat := fun seen m =>
  match m.event with
  | .starting (.collection ..) => (seen + 1, if seen = 0 then .goOn else .stop)
  | _ => (seen, .goOn)

/-- The sink asks to stop only when a node starts. -/
theorem starting_of_stopAtSecond {seen : Nat} {m : Message}
    (h : Delivery.latches stopAtSecond true m seen = true) :
    m.event.isStarting = true ∨ (true = true ∧ m.event.isTestFailure = true) := by
  rcases (Delivery.latches_iff m seen).mp h with hstop | ⟨payload, hpanic, -⟩ | hfailed
  · left
    unfold stopAtSecond at hstop
    split at hstop
    · next he => rw [he]; rfl
    · cases hstop
  · exfalso
    unfold stopAtSecond at hpanic
    split at hpanic
    · split at hpanic <;> cases hpanic
    · cases hpanic
  · exact .inr hfailed

end TwoCounters

theorem SerialRun.eq_of_certain_twoCounters :
    ∃ (e : SerialRun TwoCounters.run ⟨.synchronous, TwoCounters.stopAtSecond, true⟩)
      (f : SerialRun TwoCounters.run ⟨.asynchronous, TwoCounters.stopAtSecond, true⟩),
      f.sink = e.sink ∧ f.world = e.world ∧
      (∀ before m after, e.queued = before ++ m :: after →
        Latches ⟨.synchronous, TwoCounters.stopAtSecond, true⟩ e.sink before m →
        m.event.isStarting = true ∨ (true = true ∧ m.event.isTestFailure = true)) ∧
      f.final.calls = e.final.calls ∧ f.record = e.record ∧ f.counts = e.counts := by
  obtain ⟨e, he, hew, -⟩ := SerialRun.nonempty TwoCounters.run
    ⟨.synchronous, TwoCounters.stopAtSecond, true⟩ 0 (0, 0) []
  obtain ⟨f, hf, hfw, -⟩ := SerialRun.nonempty TwoCounters.run
    ⟨.asynchronous, TwoCounters.stopAtSecond, true⟩ 0 (0, 0) []
  have hsink : f.sink = e.sink := hf.trans he.symm
  have hworld : f.world = e.world := hfw.trans hew.symm
  have hcertain : ∀ before m after, e.queued = before ++ m :: after →
      Latches ⟨.synchronous, TwoCounters.stopAtSecond, true⟩ e.sink before m →
      m.event.isStarting = true ∨ (true = true ∧ m.event.isTestFailure = true) :=
    fun _ _ _ _ h => TwoCounters.starting_of_stopAtSecond h.2
  exact ⟨e, f, hsink, hworld, hcertain, SerialRun.eq_of_certain e f hsink hworld hcertain⟩

end TestEngine
