import TestEngine.Proofs.Run.Brackets
import TestEngine.Proofs.Run.Cancellation

/-!
# How a run stops

The wish to stop reaches the engine in the answers to its messages, and on an asynchronous bus these
may come late. All the same a run does no work that it need not do once it is to stop.

* `SerialRun.stops` — from the message on that stops a run, the nodes that start are told to stop
  and are empty, no more than one node starts, and no more than one test has a result: the one that
  was open.
-/

namespace TestEngine

open Delivery

variable {σ ω : Type} {known : List String}

/-! ## What precedes and follows the messages of a node -/

/-- The end of a node at `level` inside of which nothing happened: no test is counted, and nothing
was written. -/
def Event.IsEmptyEnd (level : Level) (e : Event) : Prop :=
  (∃ g, g.level = level ∧ e = .finished g (.ofCounts 0)) ∨
    level = .test ∧ e = .testFinished .zero ""

namespace Chronicle

theorem occurrences_eq_own {c : Chronicle} (h : c.nodes = []) : c.occurrences = c.own := by
  induction c with
  | nil => rfl
  | entry o rest ih => rw [occurrences, own, ih h]
  | node f i rest _ _ => cases h

/-- A place in a node is its beginning, inside of it, in its end or after it. -/
theorem split_node {f : Frame} {i c : Chronicle} {x y : List Occurrence} {o : Occurrence}
    (h : (node f i c).occurrences = x ++ o :: y) :
    (x = [] ∧ o = f.opening ∧ y = i.occurrences ++ (f.closing ++ c.occurrences)) ∨
      (∃ x' y', x = f.opening :: x' ∧ i.occurrences = x' ++ o :: y' ∧
        y = y' ++ (f.closing ++ c.occurrences)) ∨
      o ∈ f.closing ∨
      ∃ x', x = f.opening :: (i.occurrences ++ (f.closing ++ x')) ∧
        c.occurrences = x' ++ o :: y := by
  rw [occurrences, List.append_assoc] at h
  cases x with
  | nil =>
    obtain ⟨hfirst, hrest⟩ := List.cons.inj h
    exact .inl ⟨rfl, hfirst.symm, hrest.symm⟩
  | cons o' x =>
    obtain ⟨rfl, hrest⟩ := List.cons.inj h
    rcases split_of_append_eq hrest with ⟨y', hi, rfl⟩ | ⟨x', rfl, hend⟩
    · exact .inr (.inl ⟨x, y', rfl, hi, rfl⟩)
    · rcases split_of_append_eq hend with ⟨y', hclosing, rfl⟩ | ⟨x', rfl, hc⟩
      · refine .inr (.inr (.inl ?_))
        rw [hclosing]
        exact List.mem_append_right _ List.mem_cons_self
      · exact .inr (.inr (.inr ⟨x', rfl, hc⟩))

/-- A node that is told to stop when it starts finishes at once, and is empty. -/
theorem exists_emptyEnd {c : Chronicle} (hc : c.WellNested) (hlaw : c.Every (NodeLaw known))
    {x y : List Occurrence} {ids : NodeIds} {start : NodeStart}
    (h : c.occurrences = x ++ .queued ⟨ids, .starting start⟩ false :: y) :
    ∃ finish b rest, y = .queued ⟨ids, finish⟩ b :: rest ∧ finish.IsEmptyEnd ids.level := by
  induction c generalizing x y with
  | nil =>
    have hlen := congrArg List.length h
    simp [occurrences] at hlen
  | entry o rest ih =>
    cases x with
    | nil =>
      have hplain := hc.of_entry.1
      rw [(List.cons.inj h).1] at hplain
      cases hplain
    | cons o' x => exact ih hc.of_entry.2 hlaw (List.cons.inj h).2
  | node f i rest ihi ih =>
    obtain ⟨hf, hi, hrest⟩ := hlaw
    rcases split_node h with ⟨-, hopening, rfl⟩ | ⟨x', y', -, hinside, rfl⟩ | hmem | ⟨x', -, hafter⟩
    · simp only [Frame.opening, Occurrence.queued.injEq, Message.mk.injEq] at hopening
      obtain ⟨⟨rfl, -⟩, hgo⟩ := hopening
      obtain ⟨rfl, hcleanup⟩ := hf.refused hgo.symm
      refine ⟨f.finish, f.finishGoesOn, rest.occurrences, ?_, ?_⟩
      · rw [Frame.closing, hcleanup]
        rfl
      · cases hf.ended with
        | group g hlevel hfinish => exact .inl ⟨g, hlevel, hfinish⟩
        | test _ hlevel hfinish _ _ hsilent =>
          rw [hsilent hgo.symm] at hfinish
          exact .inr ⟨hlevel, hfinish⟩
    · obtain ⟨finish, b, more, rfl, hempty⟩ := ihi hc.inside hi hinside
      exact ⟨finish, b, more ++ (f.closing ++ rest.occurrences), rfl, hempty⟩
    · rcases (Frame.of_mem_messages_closing (mem_messages hmem)).2 with hfinish | ⟨_, hcleanup⟩
      · have hno := hf.ended.isStarting_finish
        rw [← hfinish] at hno
        cases hno
      · cases hcleanup
    · exact ih hc.rest hrest hafter

/-- The result of a test is the first in it, and the test was not told to stop. -/
theorem exists_testOpening {f : Frame} {i : Chronicle} (hf : NodeLaw known f i)
    (hlevel : f.ids.level = .test) (hnodes : i.nodes = [])
    (hresult : f.goesOn = true → ∃ m, results (messages i.own) = [m] ∧ m.ids = f.ids)
    {x y : List Occurrence} {m : Message} {b : Bool} (h : i.occurrences = x ++ .queued m b :: y)
    (hm : m.event.isResult = true) :
    ∃ name, f.opening = .queued ⟨m.ids, .starting (.test name)⟩ true ∧
      (∀ o ∈ x, o.IsPlain) ∧ NoMessage Event.isResult x := by
  have hgo : f.goesOn = true := by
    by_contra hstop
    obtain ⟨rfl, -⟩ := hf.refused (Bool.eq_false_iff.mpr hstop)
    have hlen := congrArg List.length h
    simp [occurrences] at hlen
  obtain ⟨m₀, hone, hids⟩ := hresult hgo
  rw [occurrences_eq_own hnodes] at h
  have hmessages : messages i.own = messages x ++ m :: messages y := by
    rw [h]
    exact messages_append _ _
  -- a test has just one result, so there is none before `m`
  have hfirst : results (messages x) = [] ∧ m = m₀ := by
    have hm' : results (m :: messages y) = m :: results (messages y) :=
      List.filter_cons_of_pos hm
    rw [hmessages, results_append, hm', List.append_eq_singleton_iff] at hone
    rcases hone with ⟨hnil, heq⟩ | ⟨-, heq⟩
    · exact ⟨hnil, (List.cons.inj heq).1⟩
    · cases heq
  obtain ⟨name, hstart⟩ : ∃ name, f.start = .test name := by
    have hl := hf.nested.level_eq.symm.trans hlevel
    cases hs : f.start with
    | test name => exact ⟨name, rfl⟩
    | _ => rw [hs] at hl; cases hl
  refine ⟨name, ?_, ?_, NoMessage.isResult_iff.mpr hfirst.1⟩
  · rw [Frame.opening, hgo, hstart, ← hids, ← hfirst.2]
  · intro o ho
    refine hf.nested.plain o ?_
    rw [h]
    exact List.mem_append_left _ ho

/-- A result comes after the start of its test, which was not told to stop; between the two no node
starts or ends, and there is no other result. -/
theorem exists_testStart {c : Chronicle} (hc : c.WellNested) (hlaw : c.Every (NodeLaw known))
    (hown : NoMessage Event.isResult c.own) {x y : List Occurrence} {m : Message} {b : Bool}
    (h : c.occurrences = x ++ .queued m b :: y) (hm : m.event.isResult = true) :
    ∃ x' name z, x = x' ++ .queued ⟨m.ids, .starting (.test name)⟩ true :: z ∧
      (∀ o ∈ z, o.IsPlain) ∧ NoMessage Event.isResult z := by
  induction c generalizing x y with
  | nil =>
    have hlen := congrArg List.length h
    simp [occurrences] at hlen
  | entry o rest ih =>
    have hsplit : (entry o rest).own = [o] ++ rest.own := rfl
    rw [hsplit, NoMessage.append_iff] at hown
    cases x with
    | nil =>
      rw [(List.cons.inj h).1] at hown
      rw [(NoMessage.queued_iff.mp hown.1).1] at hm
      cases hm
    | cons o' x =>
      obtain ⟨x', name, z, rfl, hz⟩ := ih hc.of_entry.2 hlaw hown.2 (List.cons.inj h).2
      exact ⟨o' :: x', name, z, rfl, hz⟩
  | node f i rest ihi ih =>
    obtain ⟨hf, hi, hrest⟩ := hlaw
    rcases split_node h with ⟨-, hopening, -⟩ | ⟨x₁, y₁, rfl, hinside, -⟩ | hmem | ⟨x₁, rfl, hafter⟩
    · cases hopening
      cases hm
    · cases hf.ended with
      | group _ _ _ hresults =>
        obtain ⟨x', name, z, rfl, hz⟩ :=
          ihi hc.inside hi (NoMessage.isResult_iff.mpr hresults) hinside
        exact ⟨f.opening :: x', name, z, rfl, hz⟩
      | test _ hlevel _ hnodes hresult _ =>
        obtain ⟨name, hopening, hplain, hnone⟩ :=
          exists_testOpening hf hlevel hnodes hresult hinside hm
        exact ⟨[], name, x₁, by rw [hopening]; rfl, hplain, hnone⟩
    · rcases (Frame.of_mem_messages_closing (mem_messages hmem)).2 with hfinish | ⟨_, hcleanup⟩
      · rw [hfinish, hf.ended.isResult_finish] at hm
        cases hm
      · rw [hcleanup] at hm
        cases hm
    · obtain ⟨x', name, z, rfl, hz⟩ := ih hc.rest hrest hown hafter
      refine ⟨f.opening :: (i.occurrences ++ (f.closing ++ x')), name, z, ?_, hz⟩
      simp only [List.cons_append, List.append_assoc]

end Chronicle

/-! ## What a run does once it is to stop -/

/-- Handling the message `m` stops a run that the messages `before` did not stop. -/
def Latches (t : Transport σ) (s : σ) (before : List Message) (m : Message) : Prop :=
  stoppedBy t s before = false ∧ Delivery.latches t.sink t.stopOnFail m
    (deliverAll t.sink t.stopOnFail before { sink := s }).sink = true

theorem Latches.stoppedBy {t : Transport σ} {s : σ} {before : List Message} {m : Message}
    (h : Latches t s before m) : stoppedBy t s (before ++ [m]) = true := by
  unfold TestEngine.stoppedBy
  rw [deliverAll_append]
  show (Delivery.deliver t.sink t.stopOnFail m _).1.stopped = true
  rw [stopped_deliver_eq, h.2, Bool.or_true]

/-- What a run on the bus `t` does from the message `m` on, when `x` happened before it and `y`
after it. -/
structure StopsAt (t : Transport σ) (x : List Occurrence) (m : Message) (b : Bool)
    (y : List Occurrence) : Prop where
  /-- A node that starts is told to stop, and finishes before anything else happens. -/
  refused : ∀ x' m' b' y', x ++ .queued m b :: y = x' ++ .queued m' b' :: y' → x <+: x' →
    m'.event.isStarting = true → b' = false ∧
      ∃ finish b'' rest, y' = .queued ⟨m'.ids, finish⟩ b'' :: rest ∧
        finish.IsEmptyEnd m'.ids.level
  starting_le_one : (messages y).countP (·.event.isStarting) ≤ 1
  not_starting : t.kind = .synchronous → m.event.isDiagnostic = false →
    NoMessage Event.isStarting y
  result_le_one : (messages y).countP (·.event.isResult) ≤ 1
  /-- A result belongs to the test that was the innermost open node. -/
  result_open : ∀ m' ∈ messages y, m'.event.isResult = true → ∃ x' name z,
    x = x' ++ .queued ⟨m'.ids, .starting (.test name)⟩ true :: z ∧
      ∀ o ∈ z ++ [.queued m b], o.IsPlain

namespace SerialRun

variable {t : Transport σ} {r : AssemblyRun ω} (e : SerialRun r t) {x y : List Occurrence}
  {m : Message} {b : Bool}

theorem answerFits (h : e.record = x ++ .queued m b :: y) :
    AnswerFits t e.sink (messages x) m b := by
  obtain ⟨as, -, hvisible, hfits, -⟩ := e.exists_trace
  exact answerFits_of_fits hfits (hvisible.trans h)

theorem not_starting_after (h : e.record = x ++ .queued m false :: y)
    (hm : m.event.isDiagnostic = false) : NoMessage Event.isStarting y := by
  obtain ⟨as, htrace, hvisible, hfits, -⟩ := e.exists_trace
  exact (r.yields_inTurn as e.counts htrace).obeys.not_starting_after hfits (hvisible.trans h) hm

/-- A node that starts when the run is to stop is told so, and is empty. -/
theorem refused_of_stopped (h : e.record = x ++ .queued m b :: y) (hm : m.event.isStarting = true)
    (hstop : stoppedBy t e.sink (messages x ++ [m]) = true) : b = false ∧
      ∃ finish b' rest, y = .queued ⟨m.ids, finish⟩ b' :: rest ∧
        finish.IsEmptyEnd m.ids.level := by
  have hb := (e.answerFits h).eq_false_of_handled (.inr hm) hstop
  obtain ⟨f, i, -, -, -, hnested, hlaw, hrecord⟩ := e.exists_wellNested
  obtain ⟨ids, event⟩ := m
  obtain ⟨start, rfl⟩ : ∃ start, event = .starting start := by
    cases event <;> first | exact ⟨_, rfl⟩ | cases hm
  rw [hb] at h
  exact ⟨hb, Chronicle.exists_emptyEnd hnested hlaw (hrecord.symm.trans h)⟩

/-- What is stopped stays so. -/
theorem stoppedBy_later {x' y' : List Occurrence} {m' : Message} {b' : Bool}
    (h : x ++ .queued m b :: y = x' ++ .queued m' b' :: y') (hx : x <+: x')
    (hstop : stoppedBy t e.sink (messages x ++ [m]) = true) :
    stoppedBy t e.sink (messages x' ++ [m']) = true := by
  obtain ⟨more, rfl⟩ := hx
  rw [List.append_assoc] at h
  have hrest := List.append_cancel_left h
  cases more with
  | nil =>
    cases (List.cons.inj hrest).1
    rwa [List.append_nil]
  | cons o more =>
    obtain ⟨rfl, -⟩ := List.cons.inj hrest
    have hsplit : messages (x ++ .queued m b :: more) ++ [m'] =
        (messages x ++ [m]) ++ (messages more ++ [m']) := by
      have hmessages : messages (x ++ .queued m b :: more) = messages x ++ m :: messages more :=
        messages_append x _
      rw [hmessages]
      simp only [List.append_assoc, List.cons_append, List.nil_append]
    rw [hsplit]
    exact stoppedBy_append hstop _

/-- Once the run is to stop, a result can only be that of the test that is open, and the first. -/
theorem exists_open_of_result {y₁ y₂ : List Occurrence} {m' : Message} {b' : Bool}
    (h : e.record = x ++ .queued m b :: (y₁ ++ .queued m' b' :: y₂))
    (hstop : stoppedBy t e.sink (messages x ++ [m]) = true) (hm' : m'.event.isResult = true) :
    ∃ x' name z, x = x' ++ .queued ⟨m'.ids, .starting (.test name)⟩ true :: z ∧
      (∀ o ∈ z ++ .queued m b :: y₁, o.IsPlain) ∧
      NoMessage Event.isResult (z ++ .queued m b :: y₁) := by
  obtain ⟨f, i, -, -, -, hnested, hlaw, hrecord⟩ := e.exists_wellNested
  have hsplit : e.record = (x ++ .queued m b :: y₁) ++ .queued m' b' :: y₂ := by
    rw [h, List.append_assoc]
    rfl
  obtain ⟨x', name, z, hx, hplain, hnone⟩ := Chronicle.exists_testStart hnested hlaw .nil
    (hrecord.symm.trans hsplit) hm'
  rcases split_of_append_eq hx with ⟨z', rfl, rfl⟩ | ⟨x'', rfl, hlate⟩
  · exact ⟨x', name, z', rfl, hplain, hnone⟩
  · -- the test would have started when the run was to stop already
    have hstart : e.record = (x ++ x'') ++ .queued ⟨m'.ids, .starting (.test name)⟩ true ::
        (z ++ .queued m' b' :: y₂) := by
      rw [hsplit, hlate]
      simp only [List.append_assoc, List.cons_append]
    have hstopped := e.stoppedBy_later (h.symm.trans hstart) (List.prefix_append _ _) hstop
    cases (e.refused_of_stopped hstart rfl hstopped).1

theorem stopsAt (h : e.record = x ++ .queued m b :: y)
    (hstop : stoppedBy t e.sink (messages x ++ [m]) = true) : StopsAt t x m b y where
  refused := by
    intro x' m' b' y' heq hinitial hm'
    exact e.refused_of_stopped (h.trans heq) hm' (e.stoppedBy_later heq hinitial hstop)
  starting_le_one := by
    refine NoMessage.countP_le_one (p := Event.isStarting) ?_
    rintro y₁ m' b' y₂ rfl hm'
    have hsplit : e.record = (x ++ .queued m b :: y₁) ++ .queued m' b' :: y₂ := by
      rw [h, List.append_assoc]
      rfl
    have hstopped := e.stoppedBy_later (h.symm.trans hsplit) (List.prefix_append _ _) hstop
    obtain ⟨rfl, -⟩ := e.refused_of_stopped hsplit hm' hstopped
    -- the answer to the first starting message tells the engine to stop, at the latest
    refine e.not_starting_after hsplit ?_
    obtain ⟨ids, event⟩ := m'
    cases event <;> first | rfl | cases hm'
  not_starting := by
    intro hsync hm
    have hb := (e.answerFits h).eq_false_of_handled (.inl hsync) hstop
    rw [hb] at h
    exact e.not_starting_after h hm
  result_le_one := by
    refine NoMessage.countP_le_one (p := Event.isResult) ?_
    rintro y₁ m₁ b₁ y₂ rfl hm₁
    rcases NoMessage.or_exists_first Event.isResult y₂ with hnone | ⟨y₃, m₂, b₂, y₄, rfl, hm₂, -⟩
    · exact hnone
    · have hsplit : e.record =
          x ++ .queued m b :: ((y₁ ++ .queued m₁ b₁ :: y₃) ++ .queued m₂ b₂ :: y₄) := by
        rw [h, List.append_assoc]
        rfl
      -- both would be results of the test that was open, which has just one
      obtain ⟨x', name, z, -, -, hnone⟩ := e.exists_open_of_result hsplit hstop hm₂
      rw [NoMessage.append_iff, NoMessage.queued_iff, NoMessage.append_iff,
        NoMessage.queued_iff] at hnone
      rw [hnone.2.2.2.1] at hm₁
      cases hm₁
  result_open := by
    intro m' hm' hresult
    obtain ⟨y₁, b', y₂, rfl⟩ := exists_split_of_mem_messages hm'
    obtain ⟨x', name, z, hx, hplain, -⟩ := e.exists_open_of_result h hstop hresult
    refine ⟨x', name, z, hx, fun o ho => hplain o ?_⟩
    rcases List.mem_append.mp ho with ho | ho
    · exact List.mem_append_left _ ho
    · rw [List.mem_singleton.mp ho]
      exact List.mem_append_right _ List.mem_cons_self

/-- After a failed test that stops the run no node starts, and there is no other result. -/
theorem none_after_failure (h : e.record = x ++ .queued m b :: y) (hstop : t.stopOnFail = true)
    (hm : m.event.isTestFailure = true) :
    NoMessage Event.isStarting y ∧ NoMessage Event.isResult y := by
  have hstopped : stoppedBy t e.sink (messages x ++ [m]) = true :=
    stoppedBy_of_failure hstop (List.mem_append_right _ (List.mem_singleton_self m)) hm
  have hb := (e.answerFits h).eq_false_of_failure hstop hm
  constructor
  · rw [hb] at h
    refine e.not_starting_after h ?_
    obtain ⟨ids, event⟩ := m
    cases event <;> first | rfl | cases hm
  · rcases NoMessage.or_exists_first Event.isResult y with hnone | ⟨y₁, m', b', y₂, rfl, hm', -⟩
    · exact hnone
    · -- the failed test would have two results
      obtain ⟨x', name, z, -, -, hnone⟩ := e.exists_open_of_result h hstopped hm'
      rw [NoMessage.append_iff, NoMessage.queued_iff] at hnone
      rw [Event.isResult_of_isTestFailure hm] at hnone
      cases hnone.2.1

/-- **A run that is to stop starts nothing more.** The sink is handed the messages in the order in
which they are queued, and the answers are its own. Let `m` be the message that stops the run. From
`m` on each node that starts is told to stop, and finishes at once without a test; at most one node
starts after `m`, and none if the bus is synchronous and `m` is no diagnostic message; and at most
one result is queued after `m`, that of the test that was open. A run that stops at failures has at
most one failed test, and no node starts after it. -/
theorem stops :
    e.final.calls = callsAll t.sink t.stopOnFail e.queued { sink := e.sink } ∧
    Replies t.sink e.sink e.queued e.final.calls ∧
    (∀ x m b y, e.record = x ++ .queued m b :: y → Latches t e.sink (messages x) m →
      StopsAt t x m b y) ∧
    (t.stopOnFail = true → e.queued.countP (·.event.isTestFailure) ≤ 1 ∧
      ∀ x m b y, e.record = x ++ .queued m b :: y → m.event.isTestFailure = true →
        NoMessage Event.isStarting y) := by
  obtain ⟨-, -, -, -, hcalls⟩ := e.exists_trace
  refine ⟨hcalls, e.replies, fun x m b y h hm => e.stopsAt h hm.stoppedBy, fun hstop => ⟨?_, ?_⟩⟩
  · refine NoMessage.countP_le_one (p := Event.isTestFailure) fun x m b y h hm m' hm' => ?_
    have hnone := (e.none_after_failure h hstop hm).2 m' hm'
    cases hfailed : m'.event.isTestFailure with
    | false => rfl
    | true =>
      rw [Event.isResult_of_isTestFailure hfailed] at hnone
      cases hnone
  · exact fun x m b y h hm => (e.none_after_failure h hstop hm).1

end SerialRun

end TestEngine
