import TestEngine.Proofs.Run.Brackets

/-!
# The counts of a run

The counts that a node finishes with are added up apart from the messages. They are those of the
results inside of the node all the same, wherever the run was stopped.

* `SerialRun.isCounted` — the counts of each node, the answer of a run, and its exit code.
-/

namespace TestEngine

variable {σ ω : Type}

/-- The counts of a node: those of its summary, or of its results if it is a test. -/
def Frame.counts (f : Frame) (i : Chronicle) : Counts :=
  match f.finish.summary? with
  | some summary => summary.toCounts
  | none => tally (messages i.occurrences)

/-- The summary of a node has the counts of the results inside of it, and these are the sums of the
counts of its children. -/
def CountedNode (f : Frame) (i : Chronicle) : Prop :=
  ∀ g summary, f.finish = .finished g summary →
    summary.toCounts = tally (messages i.occurrences) ∧
      summary.toCounts = (i.nodes.map fun n => n.1.counts n.2).sum

theorem Ended.counts_eq {f : Frame} {i : Chronicle} (h : Ended f i) :
    f.counts i = tally (messages i.occurrences) := by
  unfold Frame.counts
  cases h with
  | group _ _ hfinish => rw [hfinish]; rfl
  | test _ _ hfinish => rw [hfinish]; rfl

/-- The results in a chronicle are its own and those inside of its nodes. -/
theorem tally_occurrences {c : Chronicle} (h : c.Every Ended) :
    tally (messages c.occurrences) =
      tally (messages c.own) + (c.nodes.map fun n => n.1.counts n.2).sum := by
  induction c with
  | nil => rfl
  | entry o rest ih =>
    have hown : messages (Chronicle.entry o rest).own = messages [o] ++ messages rest.own := by
      rw [← messages_append]
      rfl
    rw [Chronicle.messages_entry, hown, tally_append, tally_append, ih h, Counts.add_assoc]
    rfl
  | node f i rest _ ih =>
    rw [tally_node h.1.isResult_finish, ih h.2.2, Chronicle.nodes, List.map_cons, List.sum_cons,
      h.1.counts_eq, ← Counts.add_assoc, ← Counts.add_assoc,
      Counts.add_comm (tally (messages i.occurrences))]
    rfl

theorem CountedNode.of_ended {f : Frame} {i : Chronicle} (h : Ended f i) (hi : i.Every Ended) :
    CountedNode f i := by
  intro g summary hfinish
  cases h with
  | group _ _ hgroup hresults =>
    rw [hgroup] at hfinish
    cases hfinish
    refine ⟨rfl, ?_⟩
    have hsum := tally_occurrences hi
    rw [tally_eq_zero hresults, Counts.zero_add] at hsum
    exact hsum
  | test _ _ htest =>
    rw [htest] at hfinish
    cases hfinish

theorem every_countedNode {c : Chronicle} (h : c.Every Ended) : c.Every CountedNode := by
  induction c with
  | nil => trivial
  | entry o rest ih => exact ih h
  | node f i rest ihi ih => exact ⟨.of_ended h.1 h.2.1, ihi h.2.1, ih h.2.2⟩

/-! ## Exit codes -/

theorem exitCode_tally_eq_100_iff (ms : List Message) :
    (tally ms).exitCode = 100 ↔ ∃ m ∈ ms, m.event.isTestFailure = true := by
  have hfailed : 0 < (tally ms).failed ↔ ∃ m ∈ ms, m.event.isTestFailure = true :=
    List.countP_pos_iff
  rw [← hfailed]
  unfold Counts.exitCode
  split
  · next h => exact ⟨fun _ => h, fun _ => rfl⟩
  · next h =>
    split
    · exact ⟨nofun, fun h' => absurd h' h⟩
    · exact ⟨nofun, fun h' => absurd h' h⟩

theorem exitCode_tally_eq_4_iff (ms : List Message) :
    (tally ms).exitCode = 4 ↔ ∀ m ∈ ms, m.event.isResult = false := by
  have htotal : (tally ms).total = 0 ↔ ∀ m ∈ ms, m.event.isResult = false := by
    refine List.countP_eq_zero.trans ?_
    simp only [Bool.not_eq_true]
  have hfailed : (tally ms).failed ≤ (tally ms).total :=
    List.countP_mono_left fun m _ => Event.isResult_of_isTestFailure
  rw [← htotal]
  unfold Counts.exitCode
  split
  · exact ⟨nofun, fun h => by omega⟩
  · next h =>
    split
    · next h' => exact ⟨fun _ => h', fun _ => rfl⟩
    · next h' => exact ⟨nofun, fun h'' => absurd h'' h'⟩

/-- There are no other exit codes. -/
theorem exitCode_tally_eq_0_iff (ms : List Message) :
    (tally ms).exitCode = 0 ↔
      (∀ m ∈ ms, m.event.isTestFailure = false) ∧ ∃ m ∈ ms, m.event.isResult = true := by
  have hcodes : (tally ms).exitCode = 0 ↔
      (tally ms).exitCode ≠ 100 ∧ (tally ms).exitCode ≠ 4 := by
    unfold Counts.exitCode
    split
    · simp
    · split <;> simp
  rw [hcodes, Ne, Ne, exitCode_tally_eq_100_iff, exitCode_tally_eq_4_iff]
  simp only [not_exists, not_and, Bool.not_eq_true, not_forall, Bool.not_eq_false, exists_prop]

/-! ## The counts of a run -/

/-- **The counts of each node are those of the results inside of it**, and the sums of those of its
children, in the one well-nested chronicle of a run. A run answers the counts that its assembly
finishes with, and they determine the exit code by the results that were queued. -/
theorem SerialRun.isCounted {c : Transport σ} {r : AssemblyRun ω} (e : SerialRun r c) :
    (∃ f i, (Chronicle.node f i .nil).WellNested ∧
      (Chronicle.node f i .nil).occurrences = e.record ∧
      (Chronicle.node f i .nil).Every CountedNode ∧
      f.ids = r.ids ∧ f.finish = .finished .assembly (.ofCounts e.counts)) ∧
    e.counts = tally e.queued ∧
    (e.counts.exitCode = 100 ↔ ∃ m ∈ e.queued, m.event.isTestFailure = true) ∧
    (e.counts.exitCode = 4 ↔ ∀ m ∈ e.queued, m.event.isResult = false) ∧
    (e.counts.exitCode = 0 ↔ (∀ m ∈ e.queued, m.event.isTestFailure = false) ∧
      ∃ m ∈ e.queued, m.event.isResult = true) := by
  obtain ⟨f, i, hids, -, hfinish, hnested, hlaw, hrecord⟩ := e.exists_wellNested
  have hended := hlaw.imp fun _ _ h => h.ended
  have hcounts : e.counts = tally e.queued := by
    have hsame : e.counts = tally (messages i.occurrences) := by
      rw [← hended.1.counts_eq, Frame.counts, hfinish]
      rfl
    rw [queued, hrecord, tally_node hended.1.isResult_finish, hsame]
    exact (Counts.add_zero _).symm
  refine ⟨⟨f, i, hnested, hrecord.symm, every_countedNode hended, hids, hfinish⟩, hcounts, ?_⟩
  rw [hcounts]
  exact ⟨exitCode_tally_eq_100_iff _, exitCode_tally_eq_4_iff _, exitCode_tally_eq_0_iff _⟩

end TestEngine
