import TestEngine.Proofs.Run.Brackets

/-!
# What a run tears down

Acquisition and release are spread over the life of a node, with many ways out between them. Still,
what a node acquired it gives back, once its children have finished and before it finishes itself.

* `SerialRun.givesBack` — each part of a teardown that was acquired runs exactly once, in the node
  that acquired it and in order, whatever fails or panics and wherever the run is stopped.
-/

namespace TestEngine

variable {σ ω : Type}

/-- The parts of teardowns that a node runs are, each exactly once, those of what it acquired. -/
structure ReleasesOnce (i : Chronicle) : Prop where
  nodup : (released i.own).Nodup
  mem_iff : ∀ index part, (index, part) ∈ released i.own ↔
    ∃ parts, (toTearDown (gained i.own))[index]? = some parts ∧ part ∈ parts

namespace TearsDown

variable {f : Frame} {i : Chronicle}

/-- All entries of a node that acquire something come before those that tear something down. -/
theorem released_own_eq (h : TearsDown f i) :
    released i.own = releaseOrder (toTearDown (gained i.own)) := by
  obtain ⟨before, children, after, rfl, hown, hbefore, hafter, horder⟩ := h.phases
  simp only [Chronicle.own_append, Chronicle.own_ofEntries, hown, List.append_nil, gained_append,
    released_append, hbefore, hafter, List.nil_append, horder]

theorem releasesOnce (h : TearsDown f i) : ReleasesOnce i where
  nodup := by
    rw [h.released_own_eq]
    exact nodup_releaseOrder _
  mem_iff := by
    intro index part
    rw [h.released_own_eq]
    exact mem_releaseOrder_iff

end TearsDown

/-- **What a node acquires is torn down exactly once**, by the node itself, after its children have
finished and before it finishes: first every asynchronous part in the reverse order of acquisition,
then every synchronous one. Nothing else is torn down. This holds of every node in the one
well-nested chronicle of a run. -/
theorem SerialRun.givesBack {c : Transport σ} {r : AssemblyRun ω} (e : SerialRun r c) :
    ∃ f i, (Chronicle.node f i .nil).WellNested ∧
      (Chronicle.node f i .nil).occurrences = e.record ∧
      (Chronicle.node f i .nil).Every TearsDown ∧
      (Chronicle.node f i .nil).Every fun _ j => ReleasesOnce j := by
  obtain ⟨f, i, -, -, -, hnested, hlaw, hrecord⟩ := e.exists_wellNested
  have hdown := hlaw.imp fun _ _ h => h.tearsDown
  exact ⟨f, i, hnested, hrecord.symm, hdown, hdown.imp fun _ _ h => h.releasesOnce⟩

end TestEngine
