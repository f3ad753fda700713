import Mathlib.Data.List.Perm.Subperm
import TestEngine.Proofs.Run.Ending
import TestEngine.Proofs.Run.Script

/-!
# Workers

A parallel run plays its script. However the workers and the dispatcher take turns, each collection
is taken by one worker, tells its messages in its own order, and is counted once; and no more
collections are open than there are workers.

* `Script.Holds` — how a parallel run stands to its script. Every turn keeps this.
* `Script.Holds.of_counts?` — what the run has told when it is over.
* `Script.Holds.exists_counts?` — it can be ended, whatever happened so far.
-/

namespace TestEngine

open Process

variable {σ ω ν : Type}

namespace AssemblyRun.Script

variable {r : AssemblyRun ω} {view : String → ω → ν} {world : ω} (S : r.Script view world)

/-- A stage of a parallel run. -/
inductive Stage (limit : ConcurrencyLimit) (sh : Shared σ ω) : ParallelStage ω → Prop
  | opening {t : Thread ω (Option (List (Process ω Counts)))} {rest : List Message}
      (hserved : t.Served sh) (hsent : sh.sent ++ rest = S.head)
      (hruns : t.ahead.Runs .whole sh.world rest (some (S.roles.map (·.process))) S.found) :
      Stage limit sh (.opening t)
  | inside (s : Standing ω) {inner : List Message} (hsent : sh.sent = S.head ++ inner)
      (hperm : s.roles.Perm S.roles) (hfits : s.Fits view inner sh)
      (hadmitted : ∀ n, limit = .atMost n → s.active.length ≤ n) :
      Stage limit sh (.inside (s.idle.map (·.process)) (s.active.map (·.2)) (Role.total s.past))
  | closing {t : Thread ω Counts} {inner rest : List Message} {w : ω} (hserved : t.Served sh)
      (hinner : S.Interleaves inner) (hhead : S.head ++ inner <+: sh.sent)
      (hsent : sh.sent ++ rest = S.head ++ inner ++ [S.last])
      (hruns : t.ahead.Runs .whole sh.world rest (Role.total S.roles) w) :
      Stage limit sh (.closing t)

/-- How a parallel run stands to its script. -/
structure Holds (limit : ConcurrencyLimit) (run : ParallelRun σ ω) : Prop where
  calm : run.shared.Calm
  stage : S.Stage limit run.shared run.stage
  bounded : ∀ n, limit = .atMost n → ∀ ms, ms <+: run.shared.sent → (openCollections ms).length ≤ n

/-! ### Open collections -/

variable {S} {limit : ConcurrencyLimit} {sh : Shared σ ω} {stage : ParallelStage ω}
  {run : ParallelRun σ ω} {c : Transport σ}

theorem head_starts : ∀ m ∈ S.head, m.startedCollection? = none :=
  List.forall_mem_cons.mpr ⟨rfl, S.preface_starts⟩

theorem openCollections_eq_nil {ms : List Message} (h : ∀ m ∈ ms, m.startedCollection? = none) :
    openCollections ms = [] := by
  refine List.eq_nil_iff_forall_not_mem.mpr fun id hid => ?_
  obtain ⟨⟨m, hm, hstarted⟩, -⟩ := mem_openCollections.mp hid
  rw [h m hm] at hstarted
  cases hstarted

/-- A role that has told everything is not open. -/
theorem not_mem_openCollections {j : Role ω} {inner ms : List Message} (hj : j.Sound)
    (htold : ofCollection j.id inner = j.tells) (hsubset : inner ⊆ ms) :
    j.id ∉ openCollections ms := by
  intro hopen
  obtain ⟨m, hm, hfinished⟩ := hj.finishes
  rw [← htold] at hm
  exact (mem_openCollections.mp hopen).2 m (hsubset (List.mem_filter.mp hm).1) hfinished

/-- What is open was started by a role. -/
theorem exists_role_of_open {roles : List (Role ω)} {inner ms : List Message} {id : String}
    (howned : ∀ m ∈ inner, ∃ j ∈ roles, m.ids.collection = some j.id)
    (hms : ms ⊆ S.head ++ inner ++ [S.last]) (hopen : id ∈ openCollections ms) :
    ∃ j ∈ roles, j.id = id ∧ ∃ m ∈ inner, m.ids.collection = some j.id := by
  obtain ⟨⟨m, hm, hstarted⟩, -⟩ := mem_openCollections.mp hopen
  rcases List.mem_append.mp (hms hm) with hm | hm
  · rcases List.mem_append.mp hm with hm | hm
    · rw [S.head_starts m hm] at hstarted
      cases hstarted
    · obtain ⟨j, hj, hcollection⟩ := howned m hm
      have hid := (collection_eq_of_startedCollection? hstarted).symm.trans hcollection
      exact ⟨j, hj, (Option.some.inj hid).symm, m, hm, hcollection⟩
  · rw [List.mem_singleton.mp hm] at hstarted
    cases hstarted

/-- Only what runs is open. -/
theorem Stage.length_openCollections_le {n : Nat} (h : S.Stage limit sh stage)
    (hlimit : limit = .atMost n) : (openCollections sh.sent).length ≤ n := by
  cases h with
  | opening _ hsent _ =>
    have hnone : openCollections sh.sent = [] := openCollections_eq_nil fun m hm =>
      S.head_starts m (hsent ▸ List.mem_append_left _ hm)
    rw [hnone]
    exact Nat.zero_le n
  | @inside s inner hsent hperm hfits hadmitted =>
    refine Nat.le_trans ?_ (hadmitted n hlimit)
    have hsubset : openCollections sh.sent ⊆ s.active.map (·.1.id) := by
      intro id hopen
      have hms : sh.sent ⊆ S.head ++ inner ++ [S.last] := by
        rw [hsent]
        exact List.subset_append_left _ _
      obtain ⟨j, hj, rfl, m, hm, hcollection⟩ := exists_role_of_open hfits.owned hms hopen
      rcases List.mem_append.mp hj with hj' | hj'
      · rcases List.mem_append.mp hj' with hj' | hj'
        · refine absurd hopen
            (not_mem_openCollections (S.sound j (hperm.subset hj)) (hfits.past j hj') ?_)
          rw [hsent]
          exact List.subset_append_right _ _
        · obtain ⟨x, hx, rfl⟩ := List.mem_map.mp hj'
          exact List.mem_map.mpr ⟨x, hx, rfl⟩
      · -- a role that waits has told nothing
        have hmem : m ∈ ofCollection j.id inner :=
          List.mem_filter.mpr ⟨hm, beq_iff_eq.mpr hcollection⟩
        rw [(hfits.idle j hj').1] at hmem
        cases hmem
    have hle := (List.subperm_of_subset (nodup_openCollections sh.sent) hsubset).length_le
    rwa [List.length_map] at hle
  | @closing t inner rest w _ hinner hhead hsent _ =>
    have hnone : openCollections sh.sent = [] := by
      refine List.eq_nil_iff_forall_not_mem.mpr fun id hopen => ?_
      have hms : sh.sent ⊆ S.head ++ inner ++ [S.last] := by
        rw [← hsent]
        exact List.subset_append_left _ _
      obtain ⟨j, hj, rfl, -⟩ := exists_role_of_open hinner.owned hms hopen
      refine not_mem_openCollections (S.sound j hj) (hinner.told j hj) ?_ hopen
      exact List.Subset.trans (List.subset_append_right _ _) hhead.subset
    rw [hnone]
    exact Nat.zero_le n

/-- At most one message was sent in a step, so all states of the stream are seen. -/
theorem Holds.of_stage {run' : ParallelRun σ ω} {told : List Message} (h : S.Holds limit run)
    (hcalm : run'.shared.Calm) (hstage : S.Stage limit run'.shared run'.stage)
    (hsent : run'.shared.sent = run.shared.sent ++ told) (hone : told.length ≤ 1) :
    S.Holds limit run' where
  calm := hcalm
  stage := hstage
  bounded := by
    intro n hlimit ms hms
    have hcases : ms <+: run.shared.sent ∨ ms = run'.shared.sent := by
      rw [hsent] at hms ⊢
      rcases told with _ | ⟨m, _ | ⟨m', rest⟩⟩
      · rw [List.append_nil] at hms
        exact .inl hms
      · exact (List.prefix_concat_iff.mp hms).symm
      · simp at hone
    rcases hcases with hold | rfl
    · exact h.bounded n hlimit ms hold
    · exact hstage.length_openCollections_le hlimit

/-! ### Turns -/

theorem Stage.dispatch {sh : Shared σ ω} {stage : ParallelStage ω} (hc : c.Quiet)
    (h : S.Stage limit sh stage) : S.Stage limit (sh.dispatch c) stage := by
  have hsame : (sh.dispatch c).sent = sh.sent := Shared.sent_dispatch_of_quiet hc
  have hle : sh.bus.sent ≤ (sh.dispatch c).bus.sent := Nat.le_of_eq Shared.sent_dispatch.symm
  cases h with
  | opening hserved hsent hruns =>
    refine .opening (hserved.mono hle) (hsame ▸ hsent) ?_
    rw [Shared.world_dispatch]
    exact hruns
  | inside s hsent hperm hfits hadmitted =>
    exact .inside s (hsame.trans hsent) hperm hfits.dispatch hadmitted
  | @closing t inner rest w hserved hinner hhead hsent hruns =>
    refine .closing (w := w) (hserved.mono hle) hinner (hsame ▸ hhead) (hsame ▸ hsent) ?_
    rw [Shared.world_dispatch]
    exact hruns

theorem Holds.dispatch (hc : c.Quiet) (h : S.Holds limit run) :
    S.Holds limit { run with shared := run.shared.dispatch c } :=
  h.of_stage (h.calm.dispatch hc) (h.stage.dispatch hc)
    ((Shared.sent_dispatch_of_quiet hc).trans (List.append_nil _).symm) (Nat.zero_le 1)

/-- The stage changes, and nothing else. -/
theorem Holds.of_stage_eq {stage : ParallelStage ω} (h : S.Holds limit run)
    (hstage : S.Stage limit run.shared stage) : S.Holds limit { run with stage } :=
  h.of_stage h.calm hstage (List.append_nil _).symm (Nat.zero_le 1)

/-- The roles are found, and nothing of them was told. -/
theorem Stage.found {sh : Shared σ ω} (hsent : sh.sent = S.head) (hworld : sh.world = S.found) :
    S.Stage limit sh (.inside (S.roles.map (·.process)) [] 0) := by
  refine .inside ⟨[], [], S.roles⟩ (hsent.trans (List.append_nil _).symm) .rfl
    ⟨List.forall_mem_nil _, List.forall_mem_nil _, List.forall_mem_nil _, fun j hj => ⟨rfl, ?_⟩⟩
    fun n _ => Nat.zero_le n
  rw [hworld]
  exact S.ready j hj

/-- The calling thread begins to end the run. -/
theorem Stage.close {sh : Shared σ ω} {inner : List Message} {s : Standing ω}
    (hsent : sh.sent = S.head ++ inner) (hperm : s.roles.Perm S.roles)
    (hfits : s.Fits view inner sh) (hactive : s.active = []) (hidle : s.idle = []) :
    S.Stage limit sh (.closing (.ready (r.closing (Role.total s.past)))) := by
  have hroles : s.roles = s.past := by
    unfold Standing.roles
    rw [hactive, hidle, List.map_nil, List.append_nil, List.append_nil]
  have htotal : Role.total s.past = Role.total S.roles := by
    rw [← hroles]
    exact (hperm.map _).sum_eq
  have hinner : S.Interleaves inner := by
    refine ⟨fun m hm => ?_, fun j hj => hfits.past j (hroles ▸ hperm.symm.subset hj)⟩
    obtain ⟨j, hj, hid⟩ := hfits.owned m hm
    exact ⟨j, hperm.subset hj, hid⟩
  have hlast : (r.closing (Role.total S.roles)).Runs .whole sh.world [S.last] (Role.total S.roles)
      sh.world := .queue trivial (.done _ _)
  rw [htotal]
  exact .closing (Thread.served_ready _) hinner (hsent ▸ List.prefix_rfl) (by rw [hsent]) hlast

theorem Holds.stepCaller (hc : c.Quiet) (h : S.Holds limit run) :
    S.Holds limit (run.stepCaller r c) := by
  obtain ⟨stage, sh⟩ := run
  have hstage : S.Stage limit sh stage := h.stage
  cases hstage with
  | @opening t rest hserved hsent hruns =>
    cases hvalue : t.value? with
    | some value =>
      obtain rfl := Thread.eq_of_value? hvalue
      obtain ⟨rfl, rfl, hfound⟩ := hruns.eq_of_done
      rw [List.append_nil] at hsent
      exact h.of_stage_eq (.found hsent hfound)
    | none =>
      cases hs : t.step? c sh with
      | none =>
        simp only [ParallelRun.stepCaller, hvalue, hs]
        exact h
      | some next =>
        simp only [ParallelRun.stepCaller, hvalue, hs]
        obtain ⟨told, rest', rfl, hone, hadvances, hserved', hruns'⟩ :=
          Thread.exists_advance hc h.calm hruns hs
        refine h.of_stage hadvances.calm (.opening hserved' ?_ hruns') hadvances.sent_eq hone
        rw [hadvances.sent_eq, List.append_assoc]
        exact hsent
  | @inside s inner hsent hperm hfits hadmitted =>
    obtain ⟨past, active, idle⟩ := s
    cases active with
    | cons x active => cases idle <;> exact h
    | nil =>
      cases idle with
      | cons j idle => exact h
      | nil => exact h.of_stage_eq (.close hsent hperm hfits rfl rfl)
  | @closing t inner rest w hserved hinner hhead hsent hruns =>
    cases hs : t.step? c sh with
    | none =>
      simp only [ParallelRun.stepCaller, hs]
      exact h
    | some next =>
      simp only [ParallelRun.stepCaller, hs]
      obtain ⟨told, rest', rfl, hone, hadvances, hserved', hruns'⟩ :=
        Thread.exists_advance hc h.calm hruns hs
      refine h.of_stage hadvances.calm (.closing hserved' hinner ?_ ?_ hruns') hadvances.sent_eq
        hone
      · rw [hadvances.sent_eq]
        exact hhead.trans (List.prefix_append _ _)
      · rw [hadvances.sent_eq, List.append_assoc]
        exact hsent

theorem Holds.stepTake (h : S.Holds limit run) : S.Holds limit (run.stepTake limit) := by
  obtain ⟨stage, sh⟩ := run
  have hstage : S.Stage limit sh stage := h.stage
  cases hstage with
  | opening _ _ _ => exact h
  | closing _ _ _ _ _ => exact h
  | @inside s inner hsent hperm hfits hadmitted =>
    obtain ⟨past, active, idle⟩ := s
    cases idle with
    | nil => exact h
    | cons j idle =>
      cases hadmits : limit.admits (active.map (·.2)).length with
      | false =>
        simp only [ParallelRun.stepTake, List.map_cons, hadmits]
        exact h
      | true =>
        have hstage : S.Stage limit sh (.inside (idle.map (·.process))
            ((active ++ [(j, Thread.ready (unlessCancelled j.process))]).map (·.2))
            (Role.total past)) := by
          refine .inside ⟨past, active ++ [(j, .ready (unlessCancelled j.process))], idle⟩ hsent ?_
            hfits.take fun n hlimit => ?_
          · refine .trans (.of_eq ?_) hperm
            simp only [Standing.roles, List.map_append, List.map_cons, List.map_nil,
              List.append_assoc, List.cons_append, List.nil_append]
          · rw [hlimit, List.length_map] at hadmits
            rw [List.length_append, List.length_singleton]
            exact of_decide_eq_true hadmits
        rw [List.map_append] at hstage
        simp only [ParallelRun.stepTake, List.map_cons, hadmits, if_true]
        exact h.of_stage_eq hstage

/-- A worker is free again, and its role is counted. -/
theorem Stage.free {inner : List Message} {past idle : List (Role ω)}
    {before after : List (Role ω × Thread ω Counts)} {j : Role ω} {counts : Counts}
    (hsent : sh.sent = S.head ++ inner)
    (hperm : (⟨past, before ++ (j, .ready (.done counts)) :: after, idle⟩ :
      Standing ω).roles.Perm S.roles)
    (hfits : (⟨past, before ++ (j, .ready (.done counts)) :: after, idle⟩ : Standing ω).Fits view
      inner sh)
    (hadmitted : ∀ n, limit = .atMost n →
      (before ++ (j, Thread.ready (.done counts)) :: after).length ≤ n) :
    S.Stage limit sh (.inside (idle.map (·.process)) ((before ++ after).map (·.2))
      (Role.total past + counts)) := by
  obtain ⟨rfl, hfits'⟩ := hfits.finish
  have htotal : Role.total past + j.counts = Role.total (past ++ [j]) := by
    simp [Role.total]
  rw [htotal]
  refine .inside ⟨past ++ [j], before ++ after, idle⟩ hsent
    ((Standing.perm_finish ..).trans hperm) hfits' fun n hlimit => ?_
  have hle := hadmitted n hlimit
  simp only [List.length_append, List.length_cons] at hle ⊢
  omega

/-- A worker makes a step of its role. -/
theorem Stage.advance {sh' : Shared σ ω} {inner : List Message} {past idle : List (Role ω)}
    {before after : List (Role ω × Thread ω Counts)} {j : Role ω} {t t' : Thread ω Counts}
    (hc : c.Quiet) (hcalm : sh.Calm) (hsent : sh.sent = S.head ++ inner)
    (hperm : (⟨past, before ++ (j, t) :: after, idle⟩ : Standing ω).roles.Perm S.roles)
    (hfits : (⟨past, before ++ (j, t) :: after, idle⟩ : Standing ω).Fits view inner sh)
    (hadmitted : ∀ n, limit = .atMost n → (before ++ (j, t) :: after).length ≤ n)
    (hs : t.step? c sh = some (t', sh')) :
    ∃ told, told.length ≤ 1 ∧ sh.Advances (.ofCollection view j.id) told sh' ∧
      S.Stage limit sh' (.inside (idle.map (·.process))
        ((before ++ (j, t') :: after).map (·.2)) (Role.total past)) := by
  have hnodup := ((hperm.map (·.id)).nodup_iff).mpr S.nodup
  obtain ⟨-, rest, v, hruns, htold⟩ := hfits.active (j, t) (by simp)
  obtain ⟨told, rest', rfl, hone, hadvances, hserved, hruns'⟩ :=
    Thread.exists_advance hc hcalm hruns hs
  have howned : ∀ m ∈ told, m.ids.collection = some j.id := fun m hm =>
    hruns.owns m (List.mem_append_left _ hm)
  have hfits' := hfits.advance hnodup hadvances howned hserved
    ⟨rest', v, hruns', by rw [List.append_assoc]; exact htold⟩
  have hsent' : sh'.sent = S.head ++ (inner ++ told) := by
    rw [hadvances.sent_eq, hsent, List.append_assoc]
  refine ⟨told, hone, hadvances, .inside ⟨past, before ++ (j, t') :: after, idle⟩ hsent'
    (.trans (.of_eq ?_) hperm) hfits' fun n hlimit => ?_⟩
  · simp only [Standing.roles, List.map_append, List.map_cons]
  · have hle := hadmitted n hlimit
    simp only [List.length_append, List.length_cons] at hle ⊢
    exact hle

theorem Holds.stepWorker (hc : c.Quiet) (h : S.Holds limit run) (place : Nat) :
    S.Holds limit (run.stepWorker c place) := by
  obtain ⟨stage, sh⟩ := run
  have hstage : S.Stage limit sh stage := h.stage
  cases hstage with
  | opening _ _ _ => exact h
  | closing _ _ _ _ _ => exact h
  | @inside s inner hsent hperm hfits hadmitted =>
    obtain ⟨past, active, idle⟩ := s
    cases hplace : (active.map (·.2))[place]? with
    | none =>
      simp only [ParallelRun.stepWorker, hplace]
      exact h
    | some t =>
      obtain ⟨j, before, after, rfl, rfl⟩ := exists_split_of_getElem? hplace
      cases hvalue : t.value? with
      | some counts =>
        obtain rfl := Thread.eq_of_value? hvalue
        simp only [ParallelRun.stepWorker, hplace, hvalue]
        rw [eraseIdx_map_snd]
        exact h.of_stage_eq (.free hsent hperm hfits hadmitted)
      | none =>
        cases hs : t.step? c sh with
        | none =>
          simp only [ParallelRun.stepWorker, hplace, hvalue, hs]
          exact h
        | some next =>
          obtain ⟨told, hone, hadvances, hstage⟩ :=
            Stage.advance hc h.calm hsent hperm hfits hadmitted hs
          simp only [ParallelRun.stepWorker, hplace, hvalue, hs]
          rw [set_map_snd before after (j, t) (j, next.1)]
          exact h.of_stage hadvances.calm hstage hadvances.sent_eq hone

theorem Holds.turn (hc : c.Quiet) (h : S.Holds limit run) (x : ParallelTurn) :
    S.Holds limit (run.turn r c limit x) := by
  cases x with
  | caller => exact h.stepCaller hc
  | take => exact h.stepTake
  | worker place => exact h.stepWorker hc place
  | dispatcher => exact h.dispatch hc

theorem Holds.after (hc : c.Quiet) (h : S.Holds limit run) (turns : List ParallelTurn) :
    S.Holds limit (run.after r c limit turns) :=
  List.foldlRecOn turns (ParallelRun.turn r c limit) h fun _ h x _ => h.turn hc x

/-! ### The whole run -/

variable (S) in
theorem runs_opening :
    r.opening.Runs .whole world S.head (some (S.roles.map (·.process))) S.found := by
  have hfound : (some <$> r.collectionRuns).Runs .whole world S.preface
      (some (S.roles.map (·.process))) S.found := by
    have hruns := S.runs_found.bind (f := fun runs => pure (some runs)) (.done _ _)
    rw [List.append_nil] at hruns
    exact hruns
  exact .queue trivial hfound

variable (S) in
theorem holds_start (limit : ConcurrencyLimit) (sink : σ) :
    S.Holds limit (ParallelRun.start r sink world) where
  calm := Shared.calm_start sink world
  stage := .opening (Thread.served_ready _) (List.nil_append _) S.runs_opening
  bounded := by
    intro n _ ms hms
    rw [List.prefix_nil.mp hms]
    exact Nat.zero_le n

/-- **What a run has told when it is over**, and what it answers. -/
theorem Holds.of_counts? {counts : Counts} (h : S.Holds limit run)
    (hover : run.counts? = some counts) : counts = Role.total S.roles ∧
      ∃ inner, S.Interleaves inner ∧ run.shared.delivered = S.head ++ inner ++ [S.last] := by
  obtain ⟨stage, sh⟩ := run
  have hstage : S.Stage limit sh stage := h.stage
  cases hstage with
  | opening _ _ _ => cases hover
  | inside _ _ _ _ _ => cases hover
  | @closing t inner rest w _ hinner _ hsent hruns =>
    simp only [ParallelRun.counts?] at hover
    split at hover
    · next hdrained =>
      obtain rfl := Thread.eq_of_value? hover
      obtain ⟨rfl, hcounts, -⟩ := hruns.eq_of_done
      refine ⟨hcounts, inner, hinner, ?_⟩
      rw [List.append_nil, Shared.sent, List.isEmpty_iff.mp hdrained, List.append_nil] at hsent
      exact hsent
    · cases hover

/-! ### Every run can be ended -/

theorem Stage.served (h : S.Stage limit sh stage) : stage.Served sh := by
  cases h with
  | opening hserved _ _ => exact hserved
  | closing hserved _ _ _ _ => exact hserved
  | inside s _ _ hfits _ =>
    intro t ht
    obtain ⟨x, hx, rfl⟩ := List.mem_map.mp ht
    exact (hfits.active x hx).1

theorem Holds.lively (h : S.Holds limit run) : run.Lively := ⟨h.calm.counted, h.stage.served⟩

/-- It ends with the counts of all roles. -/
theorem Holds.exists_counts? (hc : c.Quiet) (hadmits : limit.admits 0 = true)
    (h : S.Holds limit run) :
    ∃ more, (run.after r c limit more).counts? = some (Role.total S.roles) := by
  obtain ⟨more, counts, hover⟩ := h.lively.canEnd hadmits
  obtain ⟨rfl, -⟩ := (h.after hc more).of_counts? hover
  exact ⟨more, hover⟩

end AssemblyRun.Script

end TestEngine
