import Mathlib.Data.List.Induction
import TestEngine.Proofs.Run.Conduct

/-!
# Listening to tests

What a test writes is reported at once, and once more with its result and at its end. Whoever
listens to the messages about a test from its start on can compare the two.

Tests have the same IDs if their cases have. So what counts is what was written since the latest
start, and a test that has ended is not open before it starts again.

* `OutputAgrees` — what is reported with the result and at the end of a test is what was reported
  while it was open, and nobody else writes anything.
* `OutputAgrees.outputOf_eq` — what this says of a test that starts once.
* `listen` — follows the messages about one test, and gives up at the first that is not as it should
  be. If nobody who listens has to give up, then the output agrees.
-/

namespace TestEngine

/-! ## Output that agrees -/

namespace Event

/-- What a test has written, if the event is about that. -/
def text? : Event → Option String
  | .output text => some text
  | _ => none

/-- A test has finished. -/
def endsTest : Event → Bool
  | .testFinished .. => true
  | _ => false

end Event

/-- All that the test `i` has written according to some messages. -/
def outputOf (i : NodeIds) (ms : List Message) : String :=
  String.join ((ms.filter (·.ids = i)).filterMap (·.event.text?))

section Output

variable {i : NodeIds} {m : Message} {ms : List Message}

theorem outputOf_append (i : NodeIds) (ms ns : List Message) :
    outputOf i (ms ++ ns) = outputOf i ms ++ outputOf i ns := by
  simp only [outputOf, List.filter_append, List.filterMap_append, String.join_append]

theorem outputOf_singleton :
    outputOf i [m] = if m.ids = i then m.event.text?.getD "" else "" := by
  unfold outputOf
  by_cases hids : m.ids = i
  · cases htext : m.event.text? <;> simp [hids, htext]
  · simp [hids]

theorem outputOf_cons (h : m.event.text? = none) : outputOf i (m :: ms) = outputOf i ms := by
  rw [← List.singleton_append, outputOf_append, outputOf_singleton, h]
  split <;> exact String.empty_append

theorem outputOf_eq_empty (h : ∀ text, ⟨i, .output text⟩ ∉ ms) : outputOf i ms = "" := by
  have hnone : (ms.filter (·.ids = i)).filterMap (·.event.text?) = [] := by
    refine List.filterMap_eq_nil_iff.mpr fun m hm => ?_
    obtain ⟨hmem, hids⟩ := List.mem_filter.mp hm
    obtain ⟨ids, event⟩ := m
    obtain rfl : ids = i := of_decide_eq_true hids
    cases event with
    | output text => exact absurd hmem (h text)
    | _ => rfl
  rw [outputOf, hnone]
  rfl

end Output

/-- After these messages the test `i` is open, and has written this since it started. -/
inductive IsOpen (i : NodeIds) : List Message → String → Prop
  | intro (before : List Message) (name : String) {since : List Message}
      (hsince : ∀ m ∈ since, m.ids = i → m.event.startsTest = false ∧ m.event.endsTest = false) :
      IsOpen i (before ++ ⟨i, .starting (.test name)⟩ :: since) (outputOf i since)

/-- Only tests that are open write anything, and what is reported with the result and at the end of
a test is all that the test has written by then. -/
structure OutputAgrees (ms : List Message) : Prop where
  output : ∀ {x i text y}, ms = x ++ ⟨i, .output text⟩ :: y → ∃ written, IsOpen i x written
  passed : ∀ {x i time output y}, ms = x ++ ⟨i, .passed time output⟩ :: y → IsOpen i x output
  failed : ∀ {x i time output error y}, ms = x ++ ⟨i, .failed time output error⟩ :: y →
    IsOpen i x output
  finished : ∀ {x i time output y}, ms = x ++ ⟨i, .testFinished time output⟩ :: y →
    IsOpen i x output

/-! ### Tests that start once -/

section Once

variable {i : NodeIds} {ms x y : List Message} {time : Duration} {output written : String}

/-- How often the test `i` starts. -/
def startsOf (i : NodeIds) (ms : List Message) : Nat :=
  ms.countP fun m => m.ids = i && m.event.startsTest

theorem startsOf_append (i : NodeIds) (ms ns : List Message) :
    startsOf i (ms ++ ns) = startsOf i ms + startsOf i ns := List.countP_append

theorem startsOf_cons_of_start (name : String) (ms : List Message) :
    startsOf i (⟨i, .starting (.test name)⟩ :: ms) = startsOf i ms + 1 :=
  List.countP_cons_of_pos (by simp [Event.startsTest])

theorem IsOpen.startsOf_pos (h : IsOpen i ms written) : 0 < startsOf i ms := by
  cases h with
  | intro before name hsince =>
    rw [startsOf_append, startsOf_cons_of_start]
    omega

/-- A test that has ended is open only if it has started since. -/
theorem IsOpen.startsOf_pos_of_ended
    (h : IsOpen i (x ++ ⟨i, .testFinished time output⟩ :: y) written) : 0 < startsOf i y := by
  generalize hms : x ++ ⟨i, .testFinished time output⟩ :: y = ms at h
  cases h with
  | @intro before name since hsince =>
    rcases List.append_eq_append_iff.mp hms with ⟨_ | ⟨m, z⟩, -, hrest⟩ | ⟨_ | ⟨m, z⟩, -, hrest⟩
    · cases hrest
    · obtain ⟨-, rfl⟩ := List.cons.inj hrest
      show 0 < startsOf i (z ++ _)
      rw [startsOf_append, startsOf_cons_of_start]
      omega
    · cases hrest
    · obtain ⟨-, rfl⟩ := List.cons.inj hrest
      cases (hsince _ (List.mem_append_right z List.mem_cons_self) rfl).2

/-- A test that writes something is open by then. -/
theorem OutputAgrees.exists_isOpen {ns : List Message} {text : String}
    (h : OutputAgrees (x ++ (ns ++ y))) (hmem : ⟨i, .output text⟩ ∈ ns) :
    ∃ before after written, ns = before ++ ⟨i, .output text⟩ :: after ∧
      IsOpen i (x ++ before) written := by
  obtain ⟨before, after, rfl⟩ := List.append_of_mem hmem
  have hsplit : x ++ (before ++ ⟨i, .output text⟩ :: after ++ y) =
      x ++ before ++ ⟨i, .output text⟩ :: (after ++ y) := by
    simp only [List.append_assoc, List.cons_append]
  obtain ⟨written, hopen⟩ := h.output hsplit
  exact ⟨before, after, written, rfl, hopen⟩

/-- **What is reported at the end of a test that starts once is all that the test ever writes.** -/
theorem OutputAgrees.outputOf_eq
    (h : OutputAgrees (x ++ ⟨i, .testFinished time output⟩ :: y))
    (honce : startsOf i (x ++ ⟨i, .testFinished time output⟩ :: y) ≤ 1) :
    outputOf i (x ++ ⟨i, .testFinished time output⟩ :: y) = output := by
  cases h.finished rfl with
  | @intro before name since hsince =>
    rw [List.append_assoc, List.cons_append] at h honce ⊢
    have hends : startsOf i (⟨i, .testFinished time (outputOf i since)⟩ :: y) = startsOf i y :=
      List.countP_cons_of_neg (by simp [Event.startsTest])
    simp only [startsOf_append, startsOf_cons_of_start, hends] at honce
    have hbefore : outputOf i before = "" := by
      refine outputOf_eq_empty fun text hmem => ?_
      obtain ⟨a, b, written, rfl, hopen⟩ := OutputAgrees.exists_isOpen (x := []) h hmem
      have hpos := hopen.startsOf_pos
      rw [startsOf_append] at honce
      rw [List.nil_append] at hpos
      omega
    have hafter : outputOf i y = "" := by
      refine outputOf_eq_empty fun text hmem => ?_
      have h' : OutputAgrees ((before ++ ⟨i, .starting (.test name)⟩ :: since ++
          [⟨i, .testFinished time (outputOf i since)⟩]) ++ (y ++ [])) := by
        simpa using h
      obtain ⟨a, b, written, rfl, hopen⟩ := h'.exists_isOpen hmem
      rw [List.append_assoc _ [_], List.singleton_append] at hopen
      have hpos := hopen.startsOf_pos_of_ended
      rw [startsOf_append] at honce
      omega
    rw [outputOf_append, hbefore, String.empty_append, outputOf_cons rfl, outputOf_append,
      outputOf_cons rfl, hafter, String.append_empty]

end Once

/-! ## Listeners -/

/-- The event is one that a listener heeds. -/
def Event.isHeeded : Event → Bool
  | .starting (.test _) => true
  | .output _ => true
  | .passed .. => true
  | .failed .. => true
  | .testFinished .. => true
  | _ => false

/-- What a message tells somebody who listens to the test `i`. `heard` is what the test has written
since it started, if it is open. -/
def listen (i : NodeIds) (heard : Option String) (m : Message) : Option (Option String) :=
  if m.ids = i then
    match m.event with
    | .starting (.test _) => if heard = none then some (some "") else none
    | .output text => heard.map fun written => some (written ++ text)
    | .passed _ output => if heard = some output then some heard else none
    | .failed _ output _ => if heard = some output then some heard else none
    | .testFinished _ output => if heard = some output then some none else none
    | _ => some heard
  else some heard

/-- What messages tell somebody who listens to the test `i`. -/
def listenTo (i : NodeIds) (heard : Option String) (ms : List Message) : Option (Option String) :=
  ms.foldlM (listen i) heard

section Listening

variable {i : NodeIds} {heard heard' heard'' : Option String} {m : Message} {ms ns : List Message}
  {written : String}

theorem listenTo_append (ms ns : List Message) :
    listenTo i heard (ms ++ ns) = (listenTo i heard ms).bind (listenTo i · ns) :=
  List.foldlM_append

theorem listenTo_cons (m : Message) (ms : List Message) :
    listenTo i heard (m :: ms) = (listen i heard m).bind (listenTo i · ms) := List.foldlM_cons

theorem listenTo_trans (h : listenTo i heard ms = some heard')
    (h' : listenTo i heard' ns = some heard'') : listenTo i heard (ms ++ ns) = some heard'' := by
  rw [listenTo_append, h]
  exact h'

theorem listenTo_singleton : listenTo i heard [m] = listen i heard m := by
  simp [listenTo]

/-- A message that makes no difference to somebody who listens to the test `i`. -/
def Message.Ignored (i : NodeIds) (m : Message) : Prop := m.ids = i → m.event.isHeeded = false

theorem Message.Ignored.listen_eq (h : m.Ignored i) (heard : Option String) :
    listen i heard m = some heard := by
  unfold listen
  split
  · next hids =>
    have hnot := h hids
    split <;> first | rfl | (rename_i heq; rw [heq] at hnot; cases hnot)
  · rfl

theorem listenTo_of_ignored (h : ∀ m ∈ ms, m.Ignored i) (heard : Option String) :
    listenTo i heard ms = some heard := by
  induction ms with
  | nil => rfl
  | cons m ms ih =>
    obtain ⟨hm, hms⟩ := List.forall_mem_cons.mp h
    rw [listenTo_cons, hm.listen_eq]
    exact ih hms

/-! ### Listeners that do not give up -/

theorem isOpen_start (ms : List Message) (name : String) :
    IsOpen i (ms ++ [⟨i, .starting (.test name)⟩]) "" := .intro ms name (List.forall_mem_nil _)

/-- A test stays open until it starts again or ends. -/
theorem IsOpen.snoc (h : IsOpen i ms written)
    (hm : m.ids = i → m.event.startsTest = false ∧ m.event.endsTest = false) :
    IsOpen i (ms ++ [m]) (written ++ outputOf i [m]) := by
  cases h with
  | intro before name hsince =>
    rw [List.append_assoc, List.cons_append, ← outputOf_append]
    refine .intro before name fun m' hm' => ?_
    rcases List.mem_append.mp hm' with hm' | hm'
    · exact hsince m' hm'
    · rw [List.mem_singleton.mp hm']
      exact hm

/-- How a test comes to be open: it starts, or it was open before. -/
theorem exists_of_listen (h : listen i heard m = some (some written)) :
    (∃ name, m = ⟨i, .starting (.test name)⟩ ∧ written = "") ∨
      ∃ before, heard = some before ∧ written = before ++ outputOf i [m] ∧
        (m.ids = i → m.event.startsTest = false ∧ m.event.endsTest = false) := by
  obtain ⟨ids, event⟩ := m
  unfold listen at h
  rw [outputOf_singleton]
  by_cases hids : ids = i
  · subst hids
    simp only [if_true] at h ⊢
    cases event with
    | starting node =>
      cases node with
      | test name =>
        obtain ⟨-, hwritten⟩ := Option.ite_none_right_eq_some.mp h
        cases hwritten
        exact .inl ⟨name, rfl, rfl⟩
      | _ =>
        cases h
        exact .inr ⟨written, rfl, String.append_empty.symm, fun _ => ⟨rfl, rfl⟩⟩
    | output text =>
      obtain ⟨before, rfl, hwritten⟩ := Option.map_eq_some_iff.mp h
      cases hwritten
      exact .inr ⟨before, rfl, rfl, fun _ => ⟨rfl, rfl⟩⟩
    | passed | failed =>
      obtain ⟨-, hheard⟩ := Option.ite_none_right_eq_some.mp h
      cases hheard
      exact .inr ⟨written, rfl, String.append_empty.symm, fun _ => ⟨rfl, rfl⟩⟩
    | testFinished =>
      obtain ⟨-, hheard⟩ := Option.ite_none_right_eq_some.mp h
      cases hheard
    | _ =>
      cases h
      exact .inr ⟨written, rfl, String.append_empty.symm, fun _ => ⟨rfl, rfl⟩⟩
  · rw [if_neg hids] at h
    cases h
    refine .inr ⟨written, rfl, ?_, fun h => absurd h hids⟩
    rw [if_neg hids, String.append_empty]

/-- A listener knows which test is open, and what it has written. -/
theorem isOpen_of_listenTo (h : listenTo i none ms = some (some written)) :
    IsOpen i ms written := by
  induction ms using List.reverseRecOn generalizing written with
  | nil => cases h
  | append_singleton ms m ih =>
    rw [listenTo_append] at h
    obtain ⟨heard, hbefore, hm⟩ := Option.bind_eq_some_iff.mp h
    rw [listenTo_singleton] at hm
    rcases exists_of_listen hm with ⟨name, rfl, rfl⟩ | ⟨before, rfl, rfl, hstays⟩
    · exact isOpen_start ms name
    · exact (ih hbefore).snoc hstays

/-- What has been heard before a message, and that the listener does not give up at it. -/
theorem exists_heard (h : ∃ heard, listenTo i none (ms ++ m :: ns) = some heard) :
    ∃ heard heard', listenTo i none ms = some heard ∧ listen i heard m = some heard' := by
  obtain ⟨last, h⟩ := h
  rw [listenTo_append] at h
  obtain ⟨heard, hbefore, hrest⟩ := Option.bind_eq_some_iff.mp h
  rw [listenTo_cons] at hrest
  obtain ⟨heard', hm, -⟩ := Option.bind_eq_some_iff.mp hrest
  exact ⟨heard, heard', hbefore, hm⟩

/-- A message that is to tell the output of a test tells it, if no listener gives up. -/
theorem isOpen_of_told (h : ∀ i, ∃ heard, listenTo i none (ms ++ m :: ns) = some heard)
    (hm : ∀ heard heard', listen m.ids heard m = some heard' → heard = some written) :
    IsOpen m.ids ms written := by
  obtain ⟨heard, heard', hbefore, hheard⟩ := exists_heard (h m.ids)
  rw [hm heard heard' hheard] at hbefore
  exact isOpen_of_listenTo hbefore

/-- **If no listener has to give up, what is reported in the end is what was reported before.** -/
theorem outputAgrees_of_listen (h : ∀ i, ∃ heard, listenTo i none ms = some heard) :
    OutputAgrees ms where
  output := by
    rintro x i text y rfl
    obtain ⟨heard, heard', hbefore, hm⟩ := exists_heard (h i)
    rw [listen, if_pos rfl] at hm
    obtain ⟨written, rfl, -⟩ := Option.map_eq_some_iff.mp hm
    exact ⟨written, isOpen_of_listenTo hbefore⟩
  passed := by
    rintro x i time output y rfl
    refine isOpen_of_told h fun heard heard' hheard => ?_
    rw [listen, if_pos rfl] at hheard
    exact (Option.ite_none_right_eq_some.mp hheard).1
  failed := by
    rintro x i time output error y rfl
    refine isOpen_of_told h fun heard heard' hheard => ?_
    rw [listen, if_pos rfl] at hheard
    exact (Option.ite_none_right_eq_some.mp hheard).1
  finished := by
    rintro x i time output y rfl
    refine isOpen_of_told h fun heard heard' hheard => ?_
    rw [listen, if_pos rfl] at hheard
    exact (Option.ite_none_right_eq_some.mp hheard).1

end Listening

end TestEngine
