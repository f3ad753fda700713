import TestEngine.Proofs.Run.Nodes
import TestEngine.Proofs.Tree.TestIds

/-!
# The messages of a run are bracketed

The messages that a serial run queues are those of one tree: each node encloses what happens between
its starting and its finished message, whatever user code, the sink and the bus do.

* `SerialRun.isBracketed` — there is exactly one well-nested chronicle of a run, and it is a node of
  the assembly; so each starting message has its finished message. Nodes start only once if the
  cases have different IDs.
-/

namespace TestEngine

variable {σ ω : Type} {known : List String}

/-! ## Beginnings and ends -/

/-- A node has finished. -/
def Event.isFinished : Event → Bool
  | finished .. => true
  | testFinished .. => true
  | _ => false

/-- The IDs of the messages whose events satisfy `p`. -/
def idsWhere (p : Event → Bool) (ms : List Message) : List NodeIds :=
  (ms.filter fun m => p m.event).map (·.ids)

/-- The IDs of the nodes that started, in order. -/
def startedIds (ms : List Message) : List NodeIds := idsWhere Event.isStarting ms

/-- The IDs of the nodes that finished, in order. -/
def finishedIds (ms : List Message) : List NodeIds := idsWhere Event.isFinished ms

theorem idsWhere_append (p : Event → Bool) (ms ns : List Message) :
    idsWhere p (ms ++ ns) = idsWhere p ms ++ idsWhere p ns := by
  unfold idsWhere
  rw [List.filter_append, List.map_append]

theorem isStarting_of_lifecycle? (e : Event) (h : e.lifecycle? = none) : e.isStarting = false := by
  cases e <;> first | rfl | cases h

theorem isFinished_of_lifecycle? (e : Event) (h : e.lifecycle? = none) : e.isFinished = false := by
  cases e <;> first | rfl | cases h

theorem idsWhere_plain {p : Event → Bool} (hp : ∀ e, e.lifecycle? = none → p e = false)
    {o : Occurrence} (h : o.IsPlain) : idsWhere p (messages [o]) = [] := by
  cases o with
  | handed _ => rfl
  | activity _ => rfl
  | queued m b => simp [messages, idsWhere, hp _ h]

namespace Chronicle

theorem startedIds_entry {o : Occurrence} (h : o.IsPlain) (c : Chronicle) :
    startedIds (messages (entry o c).occurrences) = startedIds (messages c.occurrences) := by
  unfold startedIds
  rw [messages_entry, idsWhere_append,
    idsWhere_plain isStarting_of_lifecycle? h, List.nil_append]

theorem finishedIds_entry {o : Occurrence} (h : o.IsPlain) (c : Chronicle) :
    finishedIds (messages (entry o c).occurrences) = finishedIds (messages c.occurrences) := by
  unfold finishedIds
  rw [messages_entry, idsWhere_append,
    idsWhere_plain isFinished_of_lifecycle? h, List.nil_append]

section Node

variable {f : Frame} {l : Level} (hf : f.finish.lifecycle? = some (l, .finished))
include hf

theorem isStarting_finish : f.finish.isStarting = false := by
  cases he : f.finish <;> rw [he] at hf <;> first | rfl | cases hf

theorem isFinished_finish : f.finish.isFinished = true := by
  cases he : f.finish <;> rw [he] at hf <;> first | rfl | cases hf

theorem startedIds_node (i c : Chronicle) :
    startedIds (messages (node f i c).occurrences) =
      f.ids :: startedIds (messages i.occurrences) ++ startedIds (messages c.occurrences) := by
  have hopening : startedIds (messages [f.opening]) = [f.ids] := rfl
  have hclosing : startedIds (messages f.closing) = [] := by
    have hfinish := isStarting_finish hf
    have hcleanup : ∀ k e, (Event.cleanupFailure k e).isStarting = false := fun _ _ => rfl
    unfold Frame.closing
    cases f.cleanup <;> simp [messages, startedIds, idsWhere, hfinish, hcleanup]
  unfold startedIds at hopening hclosing ⊢
  simp only [messages_node, idsWhere_append, hopening, hclosing, List.nil_append,
    List.cons_append]

theorem finishedIds_node (i c : Chronicle) :
    finishedIds (messages (node f i c).occurrences) =
      finishedIds (messages i.occurrences) ++ f.ids :: finishedIds (messages c.occurrences) := by
  have hopening : finishedIds (messages [f.opening]) = [] := rfl
  have hclosing : finishedIds (messages f.closing) = [f.ids] := by
    have hfinish := isFinished_finish hf
    have hcleanup : ∀ k e, (Event.cleanupFailure k e).isFinished = false := fun _ _ => rfl
    unfold Frame.closing
    cases f.cleanup <;> simp [messages, finishedIds, idsWhere, hfinish, hcleanup]
  unfold finishedIds at hopening hclosing ⊢
  simp only [messages_node, idsWhere_append, hopening, hclosing, List.nil_append,
    List.cons_append]

end Node

/-- Each outermost node starts. -/
theorem length_nodes_le {c : Chronicle} (h : c.WellNested) :
    c.nodes.length ≤ (startedIds (messages c.occurrences)).length := by
  induction c with
  | nil => exact Nat.le_refl 0
  | entry o rest ih =>
    rw [startedIds_entry h.of_entry.1]
    exact ih h.of_entry.2
  | node f i rest _ ih =>
    have hrest := ih h.rest
    rw [startedIds_node h.2.1.finish_eq, nodes, List.length_cons, List.length_append,
      List.length_cons]
    omega

/-- As many nodes finish as start, and they have the same IDs. -/
theorem startedIds_perm_finishedIds {c : Chronicle} (h : c.WellNested) :
    (startedIds (messages c.occurrences)).Perm (finishedIds (messages c.occurrences)) := by
  induction c with
  | nil => exact .refl _
  | entry o rest ih =>
    rw [startedIds_entry h.of_entry.1, finishedIds_entry h.of_entry.1]
    exact ih h.of_entry.2
  | node f i rest ihi ih =>
    have hf := h.2.1.finish_eq
    rw [startedIds_node hf, finishedIds_node hf]
    exact ((ihi h.inside).append (ih h.rest)).cons f.ids |>.trans List.perm_middle.symm

/-- The IDs of a message of a life cycle reach the level that it reports. -/
theorem level_eq_of_lifecycle? {c : Chronicle} (h : c.WellNested) {m : Message}
    (hm : m ∈ messages c.occurrences) {level : Level} {phase : Phase}
    (hphase : m.event.lifecycle? = some (level, phase)) : m.ids.level = level := by
  induction c with
  | nil => cases hm
  | entry o rest ih =>
    rw [messages_entry, List.mem_append] at hm
    rcases hm with hm | hm
    · obtain ⟨ho, -⟩ := h.of_entry
      cases o with
      | handed _ => cases hm
      | activity _ => cases hm
      | queued m' b =>
        rcases List.mem_singleton.mp hm with rfl
        rw [ho] at hphase
        cases hphase
    · exact ih h.of_entry.2 hm
  | node f i rest ihi ih =>
    have hlevel := h.2.1.level_eq
    simp only [messages_node, List.mem_append] at hm
    rcases hm with hm | hm | hm | hm
    · rcases List.mem_singleton.mp hm with rfl
      cases hphase
      exact hlevel
    · exact ihi h.inside hm
    · obtain ⟨hids, hevent | ⟨error, hevent⟩⟩ := Frame.of_mem_messages_closing hm
      · rw [hevent, h.2.1.finish_eq] at hphase
        cases hphase
        rw [hids]
      · rw [hevent] at hphase
        cases hphase
        rw [hids, hlevel]
    · exact ih h.rest hm

end Chronicle

/-! ## Every node starts once -/

/-- The node `ids` is `ancestor`, or inside of it. -/
def NodeIds.IsWithin (ids ancestor : NodeIds) : Prop :=
  ∀ l : Level, l.depth ≤ ancestor.level.depth → ids.at? l = ancestor.at? l

namespace NodeIds

variable {a b ids : NodeIds} {l : Level} {name : String}

theorem isWithin_refl (ids : NodeIds) : ids.IsWithin ids := fun _ _ => rfl

/-- A node has an ID at its own level. -/
theorem at?_level_ne_none (ids : NodeIds) : ids.at? ids.level ≠ none := by
  unfold level
  split
  · next h => exact Option.isSome_iff_ne_none.mp h
  split
  · next h => exact Option.isSome_iff_ne_none.mp h
  split
  · next h => exact Option.isSome_iff_ne_none.mp h
  split
  · next h => exact Option.isSome_iff_ne_none.mp h
  split
  · next h => exact Option.isSome_iff_ne_none.mp h
  · exact nofun

theorem IsWithin.child (h : ids.IsWithin (a.child l name)) (hl : a.level.depth < l.depth) :
    ids.IsWithin a := by
  intro k hk
  have hne : k ≠ l := by
    rintro rfl
    omega
  rw [h k (by rw [level_child name hl]; omega), at?_child_of_ne a name hne]

/-- What is within a node strictly below `a` is within `a`, and is another node. -/
theorem IsWithin.below (h : ids.IsWithin b) (hb : b.IsWithin a)
    (hlevel : a.level.depth < b.level.depth) : ids.IsWithin a ∧ ids ≠ a := by
  constructor
  · intro k hk
    rw [h k (by omega), hb k hk]
  · rintro rfl
    have hat := h b.level (Nat.le_refl _)
    rw [at?_eq_none_of_level_lt hlevel] at hat
    exact at?_level_ne_none b hat.symm

/-- Nodes of one level with different IDs there have nothing in common. -/
theorem IsWithin.at?_eq (ha : ids.IsWithin a) (hb : ids.IsWithin b) (hal : a.level = l)
    (hbl : b.level = l) : a.at? l = b.at? l := by
  rw [← ha l (Nat.le_of_eq (by rw [hal])), hb l (Nat.le_of_eq (by rw [hbl]))]

end NodeIds

/-- The first children of a node are called differently, if the cases of the run and the tests of a
case are. -/
theorem Named.nodup_take {ids : NodeIds} {names : List String} {k n : Nat}
    (h : Named known ids names) (hknown : known.Nodup) (htests : NodePath.TestPathsApart known n)
    (hk : k ≤ n) (hcase : ids.level = .testCase → ids.nodeId ∈ known) : (names.take k).Nodup := by
  unfold Named at h
  split at h
  · exact h.sublist (List.take_sublist _ _)
  · exact h.sublist (List.take_sublist _ _)
  · exact h.sublist (List.take_sublist _ _)
  · obtain ⟨_, hperm, hsub⟩ := h
    exact (hperm.nodup_iff.mp (hknown.sublist hsub)).sublist (List.take_sublist _ _)
  · next hl =>
    obtain ⟨count, rfl⟩ := h
    rw [← List.map_take, List.take_range]
    exact NodePath.nodup_testIds htests (hcase hl) (Nat.le_trans (Nat.min_le_left _ _) hk)
  · rw [h, List.take_nil]
    exact List.nodup_nil

namespace NodeLaw

variable {f : Frame} {i : Chronicle} {n : Nat}

/-- The children of a node are told apart by their IDs at one level, if the cases of the run and the
tests of a case are. -/
theorem exists_nodup_at (h : NodeLaw known f i) (hknown : known.Nodup)
    (htests : NodePath.TestPathsApart known n) (hlen : i.nodes.length ≤ n)
    (hcase : f.ids.level = .testCase → f.ids.nodeId ∈ known) :
    ∃ l, (i.nodes.map fun x => x.1.ids.at? l).Nodup ∧
      ∀ x ∈ i.nodes, x.1.ids.level = l ∧ x.1.ids.IsWithin f.ids := by
  obtain ⟨l, names, hdepth, hinitial, hnamed⟩ := h.siblings
  have hids : i.nodes.map (·.1.ids) = (names.take i.nodes.length).map (f.ids.child l) := by
    have htake := List.prefix_iff_eq_take.mp hinitial
    rwa [List.length_map, ← List.map_take] at htake
  have hnodup := hnamed.nodup_take hknown htests hlen hcase
  refine ⟨l, ?_, ?_⟩
  · have hat : i.nodes.map (fun x => x.1.ids.at? l) =
        (names.take i.nodes.length).map some := by
      have hmap := congrArg (List.map fun ids : NodeIds => ids.at? l) hids
      rw [List.map_map, List.map_map] at hmap
      refine hmap.trans (List.map_congr_left fun name _ => ?_)
      exact NodeIds.at?_child_self f.ids l name
    rw [hat]
    exact hnodup.map fun _ _ h => Option.some.inj h
  · intro x hx
    obtain ⟨name, -, hx, hlevel⟩ := exists_child_of_mem hdepth hinitial hx
    have hlt : f.ids.level.depth < l.depth := by omega
    rw [hx]
    exact ⟨NodeIds.level_child name hlt, (NodeIds.isWithin_refl _).child hlt⟩

/-- A case of a method is one of the run. -/
theorem nodeId_mem (h : NodeLaw known f i) {x : Frame × Chronicle} (hx : x ∈ i.nodes)
    (hlevel : x.1.ids.level = .testCase) : x.1.ids.nodeId ∈ known := by
  obtain ⟨l, names, hdepth, hinitial, hnamed⟩ := h.siblings
  obtain ⟨name, hname, hids, hl⟩ := exists_child_of_mem hdepth hinitial hx
  have hchild : (f.ids.child l name).level = l := NodeIds.level_child name (by omega)
  have hxl : l = .testCase := by rw [← hchild, ← hids, hlevel]
  subst hxl
  have hmethod : f.ids.level = .method := Level.depth_injective (Nat.succ.inj hl.symm)
  unfold Named at hnamed
  rw [hmethod] at hnamed
  rw [hids, NodeIds.nodeId, hchild, NodeIds.at?_child_self]
  exact hnamed.subset hname

end NodeLaw

/-- **No node starts twice**, if the cases of the run and the tests of a case have different IDs. -/
theorem nodup_startedIds {n : Nat} (hknown : known.Nodup) (htests : NodePath.TestPathsApart known n)
    {c : Chronicle} (hc : c.WellNested) (hlaw : c.Every (NodeLaw known))
    (hlen : (startedIds (messages c.occurrences)).length ≤ n) {l : Level}
    (hl : ∀ x ∈ c.nodes, x.1.ids.level = l)
    (hcases : ∀ x ∈ c.nodes, x.1.ids.level = .testCase → x.1.ids.nodeId ∈ known)
    (hnodup : (c.nodes.map fun x => x.1.ids.at? l).Nodup) :
    (startedIds (messages c.occurrences)).Nodup ∧
      ∀ ids ∈ startedIds (messages c.occurrences), ∃ x ∈ c.nodes, ids.IsWithin x.1.ids := by
  induction c generalizing l with
  | nil => exact ⟨List.nodup_nil, nofun⟩
  | entry o rest ih =>
    rw [Chronicle.startedIds_entry hc.of_entry.1] at hlen ⊢
    exact ih hc.of_entry.2 hlaw hlen hl hcases hnodup
  | node f i rest ihi ih =>
    obtain ⟨hf, hi, hrest⟩ := hlaw
    rw [Chronicle.startedIds_node hf.nested.finish_eq] at hlen ⊢
    rw [List.length_append, List.length_cons] at hlen
    have hself : (f, i) ∈ (Chronicle.node f i rest).nodes := List.mem_cons_self
    have hlater : ∀ x ∈ rest.nodes, x ∈ (Chronicle.node f i rest).nodes :=
      fun x hx => List.mem_cons_of_mem _ hx
    -- inside of the node
    have hnodes := Chronicle.length_nodes_le hc.inside
    obtain ⟨k, hk, hchildren⟩ :=
      hf.exists_nodup_at hknown htests (by omega) (hcases (f, i) hself)
    obtain ⟨hinside, hwithin⟩ := ihi hc.inside hi (by omega)
      (fun x hx => (hchildren x hx).1) (fun x hx => hf.nodeId_mem hx) hk
    have hbelow : ∀ ids ∈ startedIds (messages i.occurrences),
        ids.IsWithin f.ids ∧ ids ≠ f.ids := by
      intro ids hids
      obtain ⟨x, hx, hw⟩ := hwithin ids hids
      have hdepth := hf.nested.depth_eq x hx
      exact hw.below (hchildren x hx).2 (by omega)
    -- after it
    rw [Chronicle.nodes, List.map_cons, List.nodup_cons] at hnodup
    obtain ⟨hafter, hafterWithin⟩ := ih hc.rest hrest (by omega) (fun x hx => hl x (hlater x hx))
      (fun x hx => hcases x (hlater x hx)) hnodup.2
    have happart : ∀ a, a.IsWithin f.ids → a ∉ startedIds (messages rest.occurrences) := by
      intro a ha hmem
      obtain ⟨x, hx, hw⟩ := hafterWithin a hmem
      have heq := hw.at?_eq ha (hl x (hlater x hx)) (hl (f, i) hself)
      exact hnodup.1 (List.mem_map.mpr ⟨x, hx, heq⟩)
    -- the node, those inside of it and those after it have no IDs in common
    constructor
    · rw [List.cons_append, List.nodup_cons, List.nodup_append]
      refine ⟨?_, hinside, hafter, ?_⟩
      · rw [List.mem_append]
        rintro (hmem | hmem)
        · exact (hbelow _ hmem).2 rfl
        · exact happart _ (NodeIds.isWithin_refl _) hmem
      · rintro a ha b hb rfl
        exact happart a (hbelow a ha).1 hb
    · intro ids hids
      rw [List.cons_append, List.mem_cons, List.mem_append] at hids
      rcases hids with rfl | hids | hids
      · exact ⟨_, hself, NodeIds.isWithin_refl _⟩
      · exact ⟨_, hself, (hbelow ids hids).1⟩
      · obtain ⟨x, hx, hw⟩ := hafterWithin ids hids
        exact ⟨x, hlater x hx, hw⟩

/-! ## The tree of a run -/

namespace SerialRun

variable {c : Transport σ} {r : AssemblyRun ω} (e : SerialRun r c)

/-- The well-nested chronicle of a run: a node of the assembly, which finishes with the answer of
the run. -/
theorem exists_wellNested : ∃ f i, f.ids = r.ids ∧ f.start.level = .assembly ∧
    f.finish = .finished .assembly (.ofCounts e.counts) ∧
    (Chronicle.node f i .nil).WellNested ∧ (Chronicle.node f i .nil).Every (NodeLaw r.caseIds) ∧
    e.record = (Chronicle.node f i .nil).occurrences := by
  obtain ⟨f, i, hids, hrecord, hlaw, hbelow, hcounts⟩ := e.exists_node
  have hevery : (Chronicle.node f i .nil).Every (NodeLaw r.caseIds) := ⟨hlaw, hbelow, trivial⟩
  have hlevel : f.ids.level = .assembly := by rw [hids]; rfl
  have hown : ∀ o ∈ (Chronicle.node f i .nil).own, o.IsPlain := by
    intro o ho
    cases ho
  refine ⟨f, i, hids, hlaw.nested.level_eq.symm.trans hlevel, ?_,
    ⟨hown, hevery.imp fun _ _ h => h.nested⟩, hevery, hrecord⟩
  cases hlaw.ended with
  | group g hg hfinish =>
    have hassembly : g = .assembly := by
      rw [hlevel] at hg
      cases g <;> first | rfl | cases hg
    rw [hfinish, hassembly, hcounts]
  | test _ htest =>
    rw [hlevel] at htest
    cases htest

/-- **The messages of a serial run are those of one tree**, whatever user code, the sink and the bus
do. There is just one well-nested chronicle of the run, and it is a node of the assembly: so the
first message is that the assembly starts, and the last that it has finished. The nodes that finish
are those that start, and the IDs of each message of a life cycle reach the level that it reports.
If the cases have different IDs, and SHA-256 tells the paths of the tests of a case apart, no node
starts twice. -/
theorem isBracketed :
    (∃ f i, f.ids = r.ids ∧ ∀ tree : Chronicle,
      tree.WellNested ∧ tree.occurrences = e.record ↔ tree = .node f i .nil) ∧
    (∃ start, start.level = .assembly ∧ e.queued.head? = some ⟨r.ids, .starting start⟩) ∧
    (∃ summary, e.queued.getLast? = some ⟨r.ids, .finished .assembly summary⟩) ∧
    (startedIds e.queued).Perm (finishedIds e.queued) ∧
    (∀ m ∈ e.queued, ∀ level phase, m.event.lifecycle? = some (level, phase) →
      m.ids.level = level) ∧
    (r.caseIds.Nodup → NodePath.TestPathsApart r.caseIds (startedIds e.queued).length →
      (startedIds e.queued).Nodup) := by
  obtain ⟨f, i, hids, hstart, hfinish, hnested, hlaw, hrecord⟩ := e.exists_wellNested
  have hqueued : e.queued = messages (Chronicle.node f i .nil).occurrences := by
    rw [queued, hrecord]
  rw [hqueued]
  refine ⟨⟨f, i, hids, ?_⟩, ⟨f.start, hstart, ?_⟩,
    ⟨.ofCounts e.counts, ?_⟩,
    Chronicle.startedIds_perm_finishedIds hnested, ?_, ?_⟩
  · intro tree
    constructor
    · rintro ⟨htree, hocc⟩
      exact Chronicle.eq_of_occurrences_eq htree hnested (hocc.trans hrecord)
    · rintro rfl
      exact ⟨hnested, hrecord.symm⟩
  · rw [Chronicle.messages_node, ← hids]
    rfl
  · have hlast : messages f.closing = messages ((f.cleanup.map fun c =>
        Occurrence.queued ⟨f.ids, .cleanupFailure f.start.level c.1⟩ c.2).toList) ++
          [⟨f.ids, f.finish⟩] := messages_append _ _
    rw [Chronicle.messages_node, hlast, ← hids, ← hfinish]
    simp only [Chronicle.occurrences, messages, List.filterMap_nil, List.append_nil,
      ← List.append_assoc, List.getLast?_append, List.getLast?_singleton, Option.some_or]
  · exact fun m hm level phase => Chronicle.level_eq_of_lifecycle? hnested hm
  · intro hcases htests
    refine (nodup_startedIds (l := .assembly) hcases htests hnested hlaw (Nat.le_refl _) ?_ ?_
      (List.nodup_singleton _)).1
    · rintro x hx
      rcases List.mem_singleton.mp hx with rfl
      exact hlaw.1.nested.level_eq.trans hstart
    · rintro x hx hcase
      rcases List.mem_singleton.mp hx with rfl
      rw [hlaw.1.nested.level_eq, hstart] at hcase
      cases hcase

end SerialRun

/-! ### A method with two rows

Each row is a case with a single test. -/

namespace TwoRows

def assembly : Assembly Unit where
  name := "rows"

def testCase (row : Int) : TestCase Unit where
  method :=
    { testClass :=
        { collection := { assembly, displayName := "tables" }
          name := "Table" }
      name := "holds"
      body := .sync fun _ => .finish (.returned ()) }
  kind := .row [.of (.int row)]
  displayName := "Table.holds"

def run : AssemblyRun Unit where
  assembly := assembly
  cases := [testCase 1, testCase 2]
  setup :=
    { options := { collectionOrderer := some "declaration", caseOrderer := some "declaration" }
      collectionOrderers := .builtin .collection (·.id) id
      caseOrderers := .builtin .testCase (·.id) id }
  processors := 1
  startTime := .epoch

/-- A bus whose sink takes everything. -/
def bus : Transport Unit := ⟨.synchronous, fun _ _ => ((), .goOn), false⟩

/-- The thread alone makes the steps of the run. -/
def turns : List SoloTurn := List.replicate 27 .thread

/-- The run ends with two passed tests. Eight nodes start, and SHA-256 tells the paths of as many
tests apart, of each of the two cases. -/
theorem exists_whole : ∃ h : ((SoloRun.start run.inTurn () ()).after bus turns).value? =
      some { total := 2 },
    (startedIds (SerialRun.mk () () turns { total := 2 } h : SerialRun run bus).queued).length = 8 ∧
      run.caseIds.Nodup ∧
      ∀ id ∈ run.caseIds, ∀ i < 8, ∀ j < 8,
        Sha256.digest (NodePath.test id i).bytes = Sha256.digest (NodePath.test id j).bytes →
          (NodePath.test id i).bytes = (NodePath.test id j).bytes := by
  decide +kernel

end TwoRows

/-- No node of a run with two cases starts twice. -/
theorem SerialRun.isBracketed_twoRows : ∃ e : SerialRun TwoRows.run TwoRows.bus,
    TwoRows.run.caseIds.length = 2 ∧ TwoRows.run.caseIds.Nodup ∧
      (startedIds e.queued).length = 8 ∧
      NodePath.TestPathsApart TwoRows.run.caseIds (startedIds e.queued).length ∧
      (startedIds e.queued).Nodup := by
  obtain ⟨h, hlength, hcases, hpaths⟩ := TwoRows.exists_whole
  obtain ⟨-, -, -, -, -, hnodup⟩ :=
    (SerialRun.mk () () TwoRows.turns { total := 2 } h : SerialRun TwoRows.run _).isBracketed
  rw [hlength] at hnodup
  refine ⟨_, rfl, hcases, hlength, ?_, hnodup hcases hpaths⟩
  rw [hlength]
  exact hpaths

end TestEngine
