import TestEngine.Proofs.Process.Trace
import TestEngine.Run.Interpreter

/-!
# Chronicles

What happened during a run is a list. A *chronicle* is the same as a tree: a node encloses what
happened between its starting message and its finished message, and whatever is no such message
stands as an entry inside of the node that was open.

* `Chronicle.WellNested` — the tree is the one that the life cycles describe: the IDs of a node
  reach its level, its children are one level below and name it as their parent, and no entry is a
  message of a life cycle.
* `Chronicle.eq_of_occurrences_eq` — a list has at most one well-nested chronicle.
-/

namespace TestEngine

/-- What happened, as seen by the thread of a run: calls of the sink are left out. -/
def Occurrence.isOwn : Occurrence → Bool
  | .handed _ => false
  | _ => true

/-- An occurrence that neither starts nor ends a node. -/
def Occurrence.IsPlain : Occurrence → Prop
  | .handed _ => False
  | .queued m _ => m.event.lifecycle? = none
  | .activity _ => True

/-- The messages that were queued. -/
def messages (os : List Occurrence) : List Message :=
  os.filterMap fun
    | .queued m _ => some m
    | _ => none

@[simp] theorem messages_append (os ps : List Occurrence) :
    messages (os ++ ps) = messages os ++ messages ps := List.filterMap_append

theorem mem_messages {os : List Occurrence} {m : Message} {b : Bool} (h : .queued m b ∈ os) :
    m ∈ messages os := List.mem_filterMap.mpr ⟨_, h, rfl⟩

/-- What shows of a step: neither the cancellation of a run nor a question about it does. -/
def Action.occurrence? : Action → Option Occurrence
  | .queued m goesOn => some (.queued m goesOn)
  | .activity entry => some (.activity entry)
  | _ => none

/-- What shows of some steps. -/
def visible (as : List Action) : List Occurrence := as.filterMap Action.occurrence?

@[simp] theorem visible_append (as bs : List Action) :
    visible (as ++ bs) = visible as ++ visible bs := List.filterMap_append

/-! ## The tree -/

/-- The two ends of a node: its starting message, the report of a failure to tear it down, and its
finished message, with the answers to them. -/
structure Frame where
  ids : NodeIds
  start : NodeStart
  goesOn : Bool
  cleanup : Option (ErrorRecord × Bool)
  finish : Event
  finishGoesOn : Bool

namespace Frame

/-- How a node begins. -/
def opening (f : Frame) : Occurrence := .queued ⟨f.ids, .starting f.start⟩ f.goesOn

/-- How a node ends: nothing stands between a cleanup failure and the finished message. -/
def closing (f : Frame) : List Occurrence :=
  (f.cleanup.map fun c => .queued ⟨f.ids, .cleanupFailure f.start.level c.1⟩ c.2).toList
    ++ [.queued ⟨f.ids, f.finish⟩ f.finishGoesOn]

/-- The messages at the end of a node are its finished message and the report of a failure. -/
theorem of_mem_messages_closing {f : Frame} {m : Message} (h : m ∈ messages f.closing) :
    m.ids = f.ids ∧ (m.event = f.finish ∨
      ∃ error, m.event = .cleanupFailure f.start.level error) := by
  unfold closing at h
  rw [messages_append, List.mem_append] at h
  rcases h with h | h
  · cases hc : f.cleanup with
    | none =>
      rw [hc] at h
      cases h
    | some c =>
      rw [hc] at h
      rcases List.mem_singleton.mp h with rfl
      exact ⟨rfl, .inr ⟨c.1, rfl⟩⟩
  · rcases List.mem_singleton.mp h with rfl
    exact ⟨rfl, .inl rfl⟩

end Frame

/-- What happened inside of a node: entries of its own, and nodes, each with what happened inside of
it, in order. -/
inductive Chronicle where
  | nil
  | entry (o : Occurrence) (rest : Chronicle)
  | node (frame : Frame) (inside rest : Chronicle)

namespace Chronicle

/-- The list that a chronicle tells. -/
def occurrences : Chronicle → List Occurrence
  | nil => []
  | entry o rest => o :: rest.occurrences
  | node f inside rest => f.opening :: inside.occurrences ++ f.closing ++ rest.occurrences

/-- One chronicle after another. -/
def append : Chronicle → Chronicle → Chronicle
  | nil, d => d
  | entry o rest, d => entry o (rest.append d)
  | node f inside rest, d => node f inside (rest.append d)

instance : Append Chronicle := ⟨append⟩

/-- Entries without nodes. -/
def ofEntries : List Occurrence → Chronicle
  | [] => nil
  | o :: os => entry o (ofEntries os)

/-- The entries that are not inside of a node. -/
def own : Chronicle → List Occurrence
  | nil => []
  | entry o rest => o :: rest.own
  | node _ _ rest => rest.own

/-- The nodes that are not inside of another one, each with what happened inside of it. -/
def nodes : Chronicle → List (Frame × Chronicle)
  | nil => []
  | entry _ rest => rest.nodes
  | node f inside rest => (f, inside) :: rest.nodes

/-- The law `P` holds at every node. -/
def Every (P : Frame → Chronicle → Prop) : Chronicle → Prop
  | nil => True
  | entry _ rest => rest.Every P
  | node f inside rest => P f inside ∧ inside.Every P ∧ rest.Every P

section Append

variable (c d : Chronicle) (os : List Occurrence)

@[simp] theorem nil_append : nil ++ d = d := rfl

@[simp] theorem entry_append (o : Occurrence) : entry o c ++ d = entry o (c ++ d) := rfl

@[simp] theorem node_append (f : Frame) (i : Chronicle) : node f i c ++ d = node f i (c ++ d) := rfl

@[simp] theorem occurrences_append : (c ++ d).occurrences = c.occurrences ++ d.occurrences := by
  induction c with
  | nil => rfl
  | entry o rest ih => simp only [entry_append, occurrences, ih, List.cons_append]
  | node f i rest _ ih => simp only [node_append, occurrences, ih, List.cons_append,
      List.append_assoc]

/-- The messages of a node come between those of its ends. -/
theorem messages_node (f : Frame) : messages (node f c d).occurrences =
    messages [f.opening] ++ (messages c.occurrences ++ (messages f.closing ++
      messages d.occurrences)) := by
  rw [← messages_append, ← messages_append, ← messages_append, ← List.append_assoc,
    ← List.append_assoc]
  rfl

theorem messages_entry (o : Occurrence) :
    messages (entry o c).occurrences = messages [o] ++ messages c.occurrences := by
  rw [← messages_append]
  rfl

@[simp] theorem own_append : (c ++ d).own = c.own ++ d.own := by
  induction c with
  | nil => rfl
  | entry o rest ih => simp only [entry_append, own, ih, List.cons_append]
  | node f i rest _ ih => simp only [node_append, own, ih]

@[simp] theorem nodes_append : (c ++ d).nodes = c.nodes ++ d.nodes := by
  induction c with
  | nil => rfl
  | entry o rest ih => simp only [entry_append, nodes, ih]
  | node f i rest _ ih => simp only [node_append, nodes, ih, List.cons_append]

@[simp] theorem every_append {P : Frame → Chronicle → Prop} :
    (c ++ d).Every P ↔ c.Every P ∧ d.Every P := by
  induction c with
  | nil => simp only [nil_append, Every, true_and]
  | entry o rest ih => simp only [entry_append, Every, ih]
  | node f i rest _ ih => simp only [node_append, Every, ih, and_assoc]

@[simp] theorem occurrences_ofEntries : (ofEntries os).occurrences = os := by
  induction os with
  | nil => rfl
  | cons o os ih => simp only [ofEntries, occurrences, ih]

@[simp] theorem own_ofEntries : (ofEntries os).own = os := by
  induction os with
  | nil => rfl
  | cons o os ih => simp only [ofEntries, own, ih]

@[simp] theorem nodes_ofEntries : (ofEntries os).nodes = [] := by
  induction os with
  | nil => rfl
  | cons o os ih => simp only [ofEntries, nodes, ih]

@[simp] theorem every_ofEntries {P : Frame → Chronicle → Prop} : (ofEntries os).Every P := by
  induction os with
  | nil => trivial
  | cons o os ih => exact ih

end Append

/-- Entries, a chronicle, and entries again. -/
def between (before : List Occurrence) (c : Chronicle) (after : List Occurrence) : Chronicle :=
  ofEntries before ++ c ++ ofEntries after

section Between

variable (before : List Occurrence) (c : Chronicle) (after : List Occurrence)

theorem occurrences_between :
    (between before c after).occurrences = before ++ c.occurrences ++ after := by
  simp only [between, occurrences_append, occurrences_ofEntries]

theorem own_between : (between before c after).own = before ++ c.own ++ after := by
  simp only [between, own_append, own_ofEntries]

theorem nodes_between : (between before c after).nodes = c.nodes := by
  simp only [between, nodes_append, nodes_ofEntries, List.nil_append, List.append_nil]

theorem every_between {P : Frame → Chronicle → Prop} :
    (between before c after).Every P ↔ c.Every P := by
  simp only [between, every_append, every_ofEntries, true_and, and_true]

end Between

theorem Every.imp {P Q : Frame → Chronicle → Prop} (h : ∀ f i, P f i → Q f i) {c : Chronicle}
    (hc : c.Every P) : c.Every Q := by
  induction c with
  | nil => trivial
  | entry o rest ih => exact ih hc
  | node f i rest ihi ih => exact ⟨h f i hc.1, ihi hc.2.1, ih hc.2.2⟩

/-! ## Well-nested chronicles -/

/-- A node of a well-nested chronicle. -/
structure NestedNode (f : Frame) (inside : Chronicle) : Prop where
  level_eq : f.ids.level = f.start.level
  finish_eq : f.finish.lifecycle? = some (f.ids.level, .finished)
  plain : ∀ o ∈ inside.own, o.IsPlain
  parent_eq : ∀ n ∈ inside.nodes, n.1.ids.parent? = some f.ids
  depth_eq : ∀ n ∈ inside.nodes, n.1.ids.level.depth = f.ids.level.depth + 1

/-- Every message of a life cycle is an end of a node, and the nodes nest as the levels do. -/
def WellNested (c : Chronicle) : Prop := (∀ o ∈ c.own, o.IsPlain) ∧ c.Every NestedNode

theorem WellNested.inside {f : Frame} {i rest : Chronicle} (h : (node f i rest).WellNested) :
    i.WellNested :=
  ⟨h.2.1.plain, h.2.2.1⟩

theorem WellNested.rest {f : Frame} {i rest : Chronicle} (h : (node f i rest).WellNested) :
    rest.WellNested :=
  ⟨h.1, h.2.2.2⟩

theorem WellNested.of_entry {o : Occurrence} {rest : Chronicle} (h : (entry o rest).WellNested) :
    o.IsPlain ∧ rest.WellNested :=
  ⟨h.1 o List.mem_cons_self, fun p hp => h.1 p (List.mem_cons_of_mem _ hp), h.2⟩

/-! ## A list is read in only one way -/

/-- The list is over, or the node around it ends. -/
def Ends : List Occurrence → Prop
  | .queued m _ :: _ => ∃ l p, m.event.lifecycle? = some (l, p) ∧ p ≠ .starting
  | [] => True
  | _ => False

theorem not_ends_of_plain {o : Occurrence} {os : List Occurrence} (h : o.IsPlain) :
    ¬Ends (o :: os) := by
  cases o with
  | handed c => exact fun he => he
  | activity a => exact fun he => he
  | queued m b =>
    rintro ⟨l, p, hp, -⟩
    rw [Occurrence.IsPlain, hp] at h
    cases h

theorem not_ends_opening (f : Frame) (os : List Occurrence) : ¬Ends (f.opening :: os) := by
  rintro ⟨l, p, hp, hne⟩
  simp only [Event.lifecycle?, Option.some.injEq, Prod.mk.injEq] at hp
  exact hne hp.2.symm

theorem not_plain_opening (f : Frame) : ¬f.opening.IsPlain := nofun

theorem ends_closing {f : Frame} {l : Level} (h : f.finish.lifecycle? = some (l, .finished))
    (os : List Occurrence) : Ends (f.closing ++ os) := by
  unfold Frame.closing
  cases hc : f.cleanup with
  | none => exact ⟨l, .finished, h, nofun⟩
  | some c => exact ⟨f.start.level, .cleanupFailure, rfl, nofun⟩

theorem frame_eq_of_closing_eq {f g : Frame} {k l : Level} {os ps : List Occurrence}
    (hf : f.finish.lifecycle? = some (k, .finished))
    (hg : g.finish.lifecycle? = some (l, .finished)) (ho : f.opening = g.opening)
    (h : f.closing ++ os = g.closing ++ ps) : f = g ∧ os = ps := by
  obtain ⟨ids, start, b, cleanup, finish, b'⟩ := f
  obtain ⟨ids', start', d, cleanup', finish', d'⟩ := g
  simp only [Frame.opening, Occurrence.queued.injEq, Message.mk.injEq, Event.starting.injEq] at ho
  obtain ⟨⟨rfl, rfl⟩, rfl⟩ := ho
  unfold Frame.closing at h
  -- a finished message is no report of a failure, so either both ends have one or neither has
  cases cleanup with
  | none =>
    cases cleanup' with
    | none =>
      simp only [Option.map_none, Option.toList_none, List.nil_append, List.cons_append,
        List.cons.injEq, Occurrence.queued.injEq, Message.mk.injEq, true_and] at h
      obtain ⟨⟨rfl, rfl⟩, rfl⟩ := h
      exact ⟨rfl, rfl⟩
    | some e =>
      injection h with h
      injection h with h
      rw [(Message.mk.inj h).2] at hf
      cases hf
  | some c =>
    cases cleanup' with
    | none =>
      injection h with h
      injection h with h
      rw [← (Message.mk.inj h).2] at hg
      cases hg
    | some e =>
      obtain ⟨c₁, c₂⟩ := c
      obtain ⟨e₁, e₂⟩ := e
      simp only [Option.map_some, Option.toList_some, List.cons_append, List.nil_append,
        List.cons.injEq, Occurrence.queued.injEq, Message.mk.injEq, Event.cleanupFailure.injEq,
        true_and] at h
      obtain ⟨⟨rfl, rfl⟩, ⟨rfl, rfl⟩, rfl⟩ := h
      exact ⟨rfl, rfl⟩

/-- Of two lists that start alike, each with a well-nested chronicle up to the end of the node
around it, the chronicles are the same, and what follows is too. -/
theorem eq_of_occurrences_append_eq {c d : Chronicle} (hc : c.WellNested) (hd : d.WellNested)
    {os ps : List Occurrence} (hos : Ends os) (hps : Ends ps)
    (h : c.occurrences ++ os = d.occurrences ++ ps) : c = d ∧ os = ps := by
  -- the first occurrence tells whether an entry, a node or the end comes next
  induction c generalizing d os ps with
  | nil =>
    cases d with
    | nil => exact ⟨rfl, h⟩
    | entry o rest =>
      rw [occurrences, List.nil_append] at h
      rw [h] at hos
      exact absurd hos (not_ends_of_plain hd.of_entry.1)
    | node f i rest =>
      rw [occurrences, List.nil_append] at h
      rw [h] at hos
      exact absurd hos (not_ends_opening f _)
  | entry o rest ih =>
    obtain ⟨ho, hrest⟩ := hc.of_entry
    cases d with
    | nil =>
      rw [occurrences, occurrences, List.nil_append] at h
      rw [← h] at hps
      exact absurd hps (not_ends_of_plain ho)
    | entry p rest' =>
      simp only [occurrences, List.cons_append, List.cons.injEq] at h
      obtain ⟨rfl, h⟩ := h
      obtain ⟨rfl, rfl⟩ := ih hrest hd.of_entry.2 hos hps h
      exact ⟨rfl, rfl⟩
    | node f i rest' =>
      simp only [occurrences, List.cons_append, List.cons.injEq] at h
      exact absurd (h.1 ▸ ho) (not_plain_opening f)
  | node f i rest ihi ih =>
    cases d with
    | nil =>
      rw [occurrences, occurrences, List.nil_append] at h
      rw [← h] at hps
      exact absurd hps (not_ends_opening f _)
    | entry p rest' =>
      simp only [occurrences, List.cons_append, List.cons.injEq] at h
      exact absurd (h.1 ▸ hd.of_entry.1) (not_plain_opening f)
    | node g j rest' =>
      have hf := hc.2.1.finish_eq
      have hg := hd.2.1.finish_eq
      simp only [occurrences, List.cons_append, List.append_assoc, List.cons.injEq] at h
      obtain ⟨ho, h⟩ := h
      -- reading the inside stops where the node ends, in both lists
      obtain ⟨rfl, hclose⟩ := ihi hc.inside hd.inside (ends_closing hf _) (ends_closing hg _) h
      obtain ⟨rfl, hafter⟩ := frame_eq_of_closing_eq hf hg ho hclose
      obtain ⟨rfl, rfl⟩ := ih hc.rest hd.rest hos hps hafter
      exact ⟨rfl, rfl⟩

/-- **A list has at most one well-nested chronicle.** -/
theorem eq_of_occurrences_eq {c d : Chronicle} (hc : c.WellNested) (hd : d.WellNested)
    (h : c.occurrences = d.occurrences) : c = d := by
  have hover : Ends [] := trivial
  have happend : c.occurrences ++ [] = d.occurrences ++ [] := by rw [h]
  exact (eq_of_occurrences_append_eq hc hd hover hover happend).1

end Chronicle

end TestEngine
