import Mathlib.Algebra.BigOperators.Group.List.Basic
import Mathlib.Data.List.Dedup
import TestEngine.Proofs.Run.Quiet
import TestEngine.Run.Parallel

/-!
# Scripts

When the collections of a run keep to regions of their own and the sink is quiet, it is known
beforehand what each collection tells and how many tests it counts. Each collection has a *role*,
and the roles make the *script* of the run.

* `ofCollection`, `openCollections` — what a stream of messages says about collections.
* `AssemblyRun.Script` — what the parts of a run tell.
* `Standing.Fits` — how far the roles have come, when they are played side by side. What one of them
  does makes no difference to the others.
-/

namespace TestEngine

open Process

variable {σ ω ν : Type}

/-- What is at a place among the second parts of some pairs is part of a pair. -/
theorem exists_split_of_getElem? {ρ τ : Type} {pairs : List (ρ × τ)} {t : τ} {place : Nat}
    (h : (pairs.map (·.2))[place]? = some t) : ∃ j before after,
      pairs = before ++ (j, t) :: after ∧ place = before.length := by
  rw [List.getElem?_map, Option.map_eq_some_iff] at h
  obtain ⟨⟨j, t⟩, hplace, rfl⟩ := h
  obtain ⟨hlt, hget⟩ := List.getElem?_eq_some_iff.mp hplace
  refine ⟨j, pairs.take place, pairs.drop (place + 1), ?_, ?_⟩
  · rw [← hget, List.getElem_cons_drop, List.take_append_drop]
  · rw [List.length_take, Nat.min_eq_left (Nat.le_of_lt hlt)]

theorem eraseIdx_map_snd {ρ τ : Type} (before after : List (ρ × τ)) (x : ρ × τ) :
    ((before ++ x :: after).map (·.2)).eraseIdx before.length = (before ++ after).map (·.2) := by
  simp [List.eraseIdx_append_of_length_le]

theorem set_map_snd {ρ τ : Type} (before after : List (ρ × τ)) (x y : ρ × τ) :
    ((before ++ x :: after).map (·.2)).set before.length y.2 =
      (before ++ y :: after).map (·.2) := by
  simp [List.set_append_right]

/-! ## Messages of collections -/

/-- The messages with the ID of a collection, in order. -/
def ofCollection (id : String) (ms : List Message) : List Message :=
  ms.filter fun m => m.ids.collection == some id

/-- The collection that a message starts. -/
def Message.startedCollection? (m : Message) : Option String :=
  match m.event with
  | .starting (.collection ..) => m.ids.collection
  | _ => none

/-- The collection that a message ends. -/
def Message.finishedCollection? (m : Message) : Option String :=
  match m.event with
  | .finished .collection _ => m.ids.collection
  | _ => none

/-- The collections that have started and not finished, each once. -/
def openCollections (ms : List Message) : List String :=
  (ms.filterMap (·.startedCollection?)).dedup.filter fun id =>
    id ∉ ms.filterMap (·.finishedCollection?)

theorem ofCollection_append (id : String) (ms ns : List Message) :
    ofCollection id (ms ++ ns) = ofCollection id ms ++ ofCollection id ns := List.filter_append ..

theorem ofCollection_eq_self {id : String} {ms : List Message}
    (h : ∀ m ∈ ms, m.ids.collection = some id) : ofCollection id ms = ms :=
  List.filter_eq_self.mpr fun m hm => beq_iff_eq.mpr (h m hm)

theorem ofCollection_eq_nil {id : String} {ms : List Message}
    (h : ∀ m ∈ ms, m.ids.collection ≠ some id) : ofCollection id ms = [] :=
  List.filter_eq_nil_iff.mpr fun m hm he => h m hm (beq_iff_eq.mp he)

theorem mem_openCollections {id : String} {ms : List Message} :
    id ∈ openCollections ms ↔
      (∃ m ∈ ms, m.startedCollection? = some id) ∧ ∀ m ∈ ms, m.finishedCollection? ≠ some id := by
  simp [openCollections, List.mem_filterMap]

theorem nodup_openCollections (ms : List Message) : (openCollections ms).Nodup :=
  (List.nodup_dedup _).filter _

theorem collection_eq_of_startedCollection? {m : Message} {id : String}
    (h : m.startedCollection? = some id) : m.ids.collection = some id := by
  unfold Message.startedCollection? at h
  split at h
  · exact h
  · cases h

/-! ## Scripts -/

instance : AddCommMonoid Counts where
  add_assoc := Counts.add_assoc
  zero_add := Counts.zero_add
  add_zero := Counts.add_zero
  add_comm := Counts.add_comm
  nsmul := nsmulRec

/-- The run of a collection: the ID of the collection, what is told, and how many tests count. -/
structure Role (ω : Type) where
  id : String
  process : Process ω Counts
  tells : List Message
  counts : Counts

namespace Role

/-- The counts of some roles. -/
def total (roles : List (Role ω)) : Counts := (roles.map (·.counts)).sum

@[simp] theorem total_nil : total ([] : List (Role ω)) = 0 := rfl

@[simp] theorem total_cons (j : Role ω) (roles : List (Role ω)) :
    total (j :: roles) = j.counts + total roles := List.sum_cons

/-- All messages are about the collection, and one of them says that it has finished. -/
structure Sound (j : Role ω) : Prop where
  owned : ∀ m ∈ j.tells, m.ids.collection = some j.id
  finishes : ∃ m ∈ j.tells, m.finishedCollection? = some j.id

/-- When the role has told `told`, the process `p` tells the rest. -/
def Ahead (view : String → ω → ν) (world : ω) (told : List Message) (p : Process ω Counts)
    (j : Role ω) : Prop :=
  ∃ rest v, p.Runs (.ofCollection view j.id) (view j.id world) rest j.counts v ∧
    told ++ rest = j.tells

end Role

/-- What a run tells: the collections are found, and each of them is a role. -/
structure AssemblyRun.Script (r : AssemblyRun ω) (view : String → ω → ν) (world : ω) where
  /-- What is told while the collections are found. -/
  preface : List Message
  roles : List (Role ω)
  /-- The world when the collections are found. -/
  found : ω
  runs_found : r.collectionRuns.Runs .whole world preface (roles.map (·.process)) found
  preface_starts : ∀ m ∈ preface, m.startedCollection? = none
  nodup : (roles.map (·.id)).Nodup
  sound : ∀ j ∈ roles, j.Sound
  ready : ∀ j ∈ roles, j.Ahead view found [] j.process

namespace AssemblyRun.Script

variable {r : AssemblyRun ω} {view : String → ω → ν} {world : ω} (S : r.Script view world)

/-- What is told before the collections run. -/
def head : List Message := ⟨r.ids, .starting r.start⟩ :: S.preface

/-- What is told last. -/
def last : Message := ⟨r.ids, .finished .assembly (.ofCounts (Role.total S.roles))⟩

/-- The messages of all roles in some order, those of each role in theirs. -/
structure Interleaves (inner : List Message) : Prop where
  owned : ∀ m ∈ inner, ∃ j ∈ S.roles, m.ids.collection = some j.id
  told : ∀ j ∈ S.roles, ofCollection j.id inner = j.tells

end AssemblyRun.Script

/-! ## Side by side -/

/-- Where the roles of a parallel run stand: those that have ended, those that run, each with its
thread, and those that wait. -/
structure Standing (ω : Type) where
  past : List (Role ω)
  active : List (Role ω × Thread ω Counts)
  idle : List (Role ω)

namespace Standing

/-- All roles. -/
def roles (s : Standing ω) : List (Role ω) := s.past ++ s.active.map (·.1) ++ s.idle

/-- The messages `inner` were told by the roles, as far as they are. -/
structure Fits (view : String → ω → ν) (inner : List Message) (sh : Shared σ ω) (s : Standing ω) :
    Prop where
  owned : ∀ m ∈ inner, ∃ j ∈ s.roles, m.ids.collection = some j.id
  past : ∀ j ∈ s.past, ofCollection j.id inner = j.tells
  active : ∀ x ∈ s.active, x.2.Served sh ∧
    x.1.Ahead view sh.world (ofCollection x.1.id inner) x.2.ahead
  idle : ∀ j ∈ s.idle, ofCollection j.id inner = [] ∧ j.Ahead view sh.world [] j.process

variable {view : String → ω → ν} {inner : List Message} {sh sh' : Shared σ ω} {s : Standing ω}
  {past idle : List (Role ω)} {before after : List (Role ω × Thread ω Counts)} {j : Role ω}
  {t t' : Thread ω Counts}

/-- The other roles have other IDs. -/
theorem id_ne_of_nodup
    (h : ((⟨past, before ++ (j, t) :: after, idle⟩ : Standing ω).roles.map (·.id)).Nodup) :
    (∀ j' ∈ past, j'.id ≠ j.id) ∧ (∀ x ∈ before ++ after, x.1.id ≠ j.id) ∧
      ∀ j' ∈ idle, j'.id ≠ j.id := by
  simp only [roles, List.map_append, List.map_cons, List.append_assoc, List.cons_append] at h
  rw [← List.append_assoc, List.nodup_middle, List.nodup_cons] at h
  simp only [List.mem_append, List.mem_map, not_or, not_exists, not_and] at h
  obtain ⟨⟨⟨hpast, hbefore⟩, hafter, hidle⟩, -⟩ := h
  refine ⟨hpast, fun x hx => ?_, hidle⟩
  rcases List.mem_append.mp hx with hx | hx
  · exact hbefore x.1 ⟨x, hx, rfl⟩
  · exact hafter x.1 ⟨x, hx, rfl⟩

namespace Fits

/-- What the dispatcher does makes no difference. -/
theorem dispatch {c : Transport σ} (h : s.Fits view inner sh) :
    s.Fits view inner (sh.dispatch c) where
  owned := h.owned
  past := h.past
  active := fun x hx => ⟨(h.active x hx).1.mono (Nat.le_of_eq Shared.sent_dispatch.symm), by
    rw [Shared.world_dispatch]
    exact (h.active x hx).2⟩
  idle := fun j hj => ⟨(h.idle j hj).1, by
    rw [Shared.world_dispatch]
    exact (h.idle j hj).2⟩

/-- A role that runs tells some messages; the others do not notice it. -/
theorem advance {told : List Message}
    (h : (⟨past, before ++ (j, t) :: after, idle⟩ : Standing ω).Fits view inner sh)
    (hnodup : ((⟨past, before ++ (j, t) :: after, idle⟩ : Standing ω).roles.map (·.id)).Nodup)
    (hadvances : sh.Advances (.ofCollection view j.id) told sh')
    (howned : ∀ m ∈ told, m.ids.collection = some j.id) (hserved : t'.Served sh')
    (hahead : j.Ahead view sh'.world (ofCollection j.id inner ++ told) t'.ahead) :
    (⟨past, before ++ (j, t') :: after, idle⟩ : Standing ω).Fits view (inner ++ told) sh' := by
  obtain ⟨hpast, hactive, hidle⟩ := id_ne_of_nodup hnodup
  have hother : ∀ id, id ≠ j.id → ofCollection id (inner ++ told) = ofCollection id inner := by
    intro id hne
    have hnone : ofCollection id told = [] := ofCollection_eq_nil fun m hm he =>
      hne (Option.some.inj (he.symm.trans (howned m hm)))
    rw [ofCollection_append, hnone, List.append_nil]
  have hframe : ∀ {j' : Role ω} {ms : List Message} {p : Process ω Counts}, j'.id ≠ j.id →
      j'.Ahead view sh.world ms p → j'.Ahead view sh'.world ms p := by
    intro j' ms p hne hj
    unfold Role.Ahead
    rw [hadvances.spares j'.id hne]
    exact hj
  have hrest : ∀ x ∈ before ++ after, x.2.Served sh' ∧
      x.1.Ahead view sh'.world (ofCollection x.1.id (inner ++ told)) x.2.ahead := by
    intro x hx
    have hne := hactive x hx
    obtain ⟨hserved, hahead⟩ := h.active x (by
      rw [List.mem_append, List.mem_cons]
      exact (List.mem_append.mp hx).imp_right .inr)
    rw [hother _ hne]
    exact ⟨hserved.mono hadvances.sent_le, hframe hne hahead⟩
  refine ⟨?_, ?_, ?_, ?_⟩
  · have hroles : (⟨past, before ++ (j, t') :: after, idle⟩ : Standing ω).roles =
        (⟨past, before ++ (j, t) :: after, idle⟩ : Standing ω).roles := by
      simp only [roles, List.map_append, List.map_cons]
    rw [hroles]
    refine List.forall_mem_append.mpr ⟨h.owned, fun m hm => ⟨j, ?_, howned m hm⟩⟩
    simp [roles]
  · intro j' hj'
    rw [hother _ (hpast j' hj')]
    exact h.past j' hj'
  · intro x hx
    rw [List.mem_append, List.mem_cons] at hx
    rcases hx with hx | rfl | hx
    · exact hrest x (List.mem_append_left _ hx)
    · refine ⟨hserved, ?_⟩
      rw [ofCollection_append, ofCollection_eq_self howned]
      exact hahead
    · exact hrest x (List.mem_append_right _ hx)
  · intro j' hj'
    rw [hother _ (hidle j' hj')]
    exact ⟨(h.idle j' hj').1, hframe (hidle j' hj') (h.idle j' hj').2⟩

/-- A worker takes the next role. -/
theorem take {active : List (Role ω × Thread ω Counts)}
    (h : (⟨past, active, j :: idle⟩ : Standing ω).Fits view inner sh) :
    (⟨past, active ++ [(j, .ready (unlessCancelled j.process))], idle⟩ : Standing ω).Fits view inner
      sh where
  owned := by
    have hroles : (⟨past, active ++ [(j, .ready (unlessCancelled j.process))], idle⟩ :
        Standing ω).roles = (⟨past, active, j :: idle⟩ : Standing ω).roles := by
      simp only [roles, List.map_append, List.map_cons, List.map_nil, List.append_assoc,
        List.cons_append, List.nil_append]
    rw [hroles]
    exact h.owned
  past := h.past
  active := by
    refine List.forall_mem_append.mpr ⟨h.active, List.forall_mem_singleton.mpr ?_⟩
    refine ⟨Thread.served_ready _, ?_⟩
    obtain ⟨hnone, rest, v, hruns, htold⟩ := h.idle j List.mem_cons_self
    rw [hnone]
    exact ⟨rest, v, .askCancelled hruns, htold⟩
  idle := fun j' hj' => h.idle j' (List.mem_cons_of_mem _ hj')

/-- A role that has come to its end has told everything, and its counts are as they should be. -/
theorem finish {counts : Counts}
    (h : (⟨past, before ++ (j, .ready (.done counts)) :: after, idle⟩ : Standing ω).Fits view inner
      sh) :
    counts = j.counts ∧
      (⟨past ++ [j], before ++ after, idle⟩ : Standing ω).Fits view inner sh := by
  obtain ⟨-, rest, v, hruns, htold⟩ := h.active (j, .ready (.done counts)) (by simp)
  obtain ⟨rfl, hcounts, -⟩ := hruns.eq_of_done
  rw [List.append_nil] at htold
  refine ⟨hcounts, ?_, ?_, ?_, h.idle⟩
  · intro m hm
    obtain ⟨j', hj', hid⟩ := h.owned m hm
    refine ⟨j', ?_, hid⟩
    simp only [roles, List.map_append, List.map_cons, List.mem_append, List.mem_cons] at hj' ⊢
    tauto
  · exact List.forall_mem_append.mpr ⟨h.past, List.forall_mem_singleton.mpr htold⟩
  · intro x hx
    refine h.active x ?_
    rw [List.mem_append, List.mem_cons]
    exact (List.mem_append.mp hx).imp_right .inr

end Fits

theorem perm_finish (past idle : List (Role ω)) (before after : List (Role ω × Thread ω Counts))
    (j : Role ω) (t : Thread ω Counts) :
    (⟨past ++ [j], before ++ after, idle⟩ : Standing ω).roles.Perm
      (⟨past, before ++ (j, t) :: after, idle⟩ : Standing ω).roles := by
  simp only [roles, List.map_append, List.map_cons, List.append_assoc, List.cons_append,
    List.nil_append]
  refine List.Perm.append_left past ?_
  exact List.perm_middle.symm

end Standing

end TestEngine
