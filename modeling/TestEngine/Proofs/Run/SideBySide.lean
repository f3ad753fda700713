import TestEngine.Proofs.Run.Answers
import TestEngine.Proofs.Run.Apart
import TestEngine.Proofs.Run.Workers

/-!
# Side by side or in turn

Collections that share nothing can run side by side as well as in turn. With a quiet sink each of
them tells the same messages in the same order, whatever the workers and the dispatcher do, and the
run counts the same tests. What tells the two runs apart is how the messages of different
collections are interleaved, and how the environment is described.

* `AssemblyRun.Apart.exists_script` — a run whose collections share nothing has a script.
* `SerialRun.delivered_eq` — a serial run plays its script from the first role to the last.
* `ParallelRun.agrees` — a parallel run agrees with the serial one.
-/

namespace TestEngine

open Process

variable {σ τ ω ν : Type}

/-! ## Every run has a script -/

namespace AssemblyRun

variable {r : AssemblyRun ω} {view : String → ω → ν}

/-- What the run of a collection tells. -/
theorem Apart.exists_role (h : r.Apart view) {l : Collection ω}
    (hl : l.KeepsTo (.ofCollection view l.id)) (hcase : ∃ c ∈ r.cases, c.collection.id = l.id)
    (found : ω) : ∃ j : Role ω, j.id = l.id ∧
      j.process = l.run r.setup r.ids (withKey (·.collection.id) l.id r.cases) ∧ j.Sound ∧
      j.Ahead view found [] j.process := by
  have hcases : ∀ c ∈ withKey (·.collection.id) l.id r.cases,
      c.KeepsTo (.ofCollection view l.id) := by
    intro c hc
    obtain ⟨hmem, hkey⟩ := List.mem_filter.mp hc
    rw [← eq_of_beq hkey]
    exact h.cases c hmem
  have horderers : r.setup.caseOrderers.KeepsTo (.ofCollection view l.id)
      fun c => c.KeepsTo (.ofCollection view l.id) := by
    obtain ⟨c, hc, hid⟩ := hcase
    rw [← hid]
    exact h.caseOrderers c hc
  have howns : (Region.ofCollection view l.id).owns (r.ids.child .collection l.id) := rfl
  obtain ⟨ms, counts, v, hruns⟩ := Collection.exists_runs horderers hl howns hcases found
  refine ⟨⟨l.id, _, _, counts⟩, rfl, rfl, ⟨hruns.owns, ?_⟩, _, v, hruns, List.nil_append _⟩
  exact ⟨_, List.mem_append_right _ (List.mem_singleton_self _), rfl⟩

/-- The roles of some collections, in order. -/
theorem Apart.exists_roles (h : r.Apart view) {collections : List (Collection ω)}
    (hl : ∀ l ∈ collections, l.KeepsTo (.ofCollection view l.id))
    (hcase : ∀ l ∈ collections, ∃ c ∈ r.cases, c.collection.id = l.id) (found : ω) :
    ∃ roles : List (Role ω), roles.map (·.id) = collections.map (·.id) ∧
      roles.map (·.process) = Collection.runs r.setup r.ids r.cases collections ∧
      ∀ j ∈ roles, j.Sound ∧ j.Ahead view found [] j.process := by
  induction collections with
  | nil => exact ⟨[], rfl, rfl, List.forall_mem_nil _⟩
  | cons l collections ih =>
    obtain ⟨hl, hrest⟩ := List.forall_mem_cons.mp hl
    obtain ⟨hcase, hcases⟩ := List.forall_mem_cons.mp hcase
    obtain ⟨j, hid, hprocess, hj⟩ := h.exists_role hl hcase found
    obtain ⟨roles, hids, hprocesses, hroles⟩ := ih hrest hcases
    refine ⟨j :: roles, ?_, ?_, List.forall_mem_cons.mpr ⟨hj, hroles⟩⟩
    · rw [List.map_cons, List.map_cons, hid, hids]
    · rw [List.map_cons, hprocess, hprocesses]
      rfl

/-- User code outside of the tests starts no collection. -/
theorem starts_of_userBlocks {as : List Action} (h : MadeOf UserBlock as) :
    ∀ m ∈ messages (visible as), m.startedCollection? = none := by
  refine h.forall_mem (f := fun as => messages (visible as)) rfl (fun as bs => ?_) fun as has => ?_
  · rw [visible_append, messages_append]
  · cases has with
    | diagnostic ids text b => exact List.forall_mem_singleton.mpr rfl
    | note text => exact List.forall_mem_nil _

/-- **A run whose collections share nothing has a script.** -/
theorem Apart.exists_script (h : r.Apart view) (world : ω) : Nonempty (r.Script view world) := by
  have htold : (r.setup.collectionOrderers.tellBy fun l : Collection ω => l.id).KeepsTo .whole
      fun l => l.KeepsTo (.ofCollection view l.id) := h.collectionOrderers
  have hitems : ∀ l ∈ firstSeen (·.id) (r.cases.map (·.collection)),
      l.KeepsTo (.ofCollection view l.id) := by
    intro l hl
    obtain ⟨c, hc, rfl⟩ := List.mem_map.mp ((firstSeen_sublist _ _).subset hl)
    exact h.collections c hc
  have hordered : (Collection.ordered r.setup r.assembly r.ids r.cases).KeepsTo .whole
      fun ls => ∀ l ∈ ls, l.KeepsTo (.ofCollection view l.id) :=
    Orderers.keepsTo_order htold trivial hitems _
  obtain ⟨preface, collections, found, hruns, hcollections⟩ := hordered world
  obtain ⟨as, htrace, rfl⟩ := hruns.exists_trace
  obtain ⟨hblocks, hagree⟩ := Orderers.yields_order _ _ _ _ as collections htrace
  have hids : (collections.map (·.id)).Perm
      ((firstSeen (·.id) (r.cases.map (·.collection))).map (·.id)) := hagree
  have hcase : ∀ l ∈ collections, ∃ c ∈ r.cases, c.collection.id = l.id := by
    intro l hl
    obtain ⟨l', hl', hid⟩ := List.mem_map.mp (hids.subset (List.mem_map_of_mem hl))
    obtain ⟨c, hc, rfl⟩ := List.mem_map.mp ((firstSeen_sublist _ _).subset hl')
    exact ⟨c, hc, hid⟩
  obtain ⟨roles, hroleIds, hprocesses, hroles⟩ := h.exists_roles hcollections hcase found
  have hfound : r.collectionRuns.Runs .whole world (messages (visible as) ++ [])
      (roles.map (·.process)) found := by
    rw [hprocesses]
    exact hruns.bind (.done _ _)
  rw [List.append_nil] at hfound
  refine ⟨⟨messages (visible as), roles, found, hfound, starts_of_userBlocks hblocks, ?_,
    fun j hj => (hroles j hj).1, fun j hj => (hroles j hj).2⟩⟩
  rw [hroleIds]
  exact hids.nodup_iff.mpr (firstSeen_nodup _ _)

end AssemblyRun

/-! ## The serial run -/

/-- Roles that are played one after the other. -/
theorem Role.exists_runs {view : String → ω → ν} {roles : List (Role ω)}
    (hnodup : (roles.map (·.id)).Nodup) {w : ω}
    (hready : ∀ j ∈ roles, j.Ahead view w [] j.process) (sum : Counts) :
    ∃ w', (untilCancelled (roles.map (·.process)) sum).Runs .whole w (roles.flatMap (·.tells))
      (sum + Role.total roles) w' := by
  induction roles generalizing w sum with
  | nil =>
    refine ⟨w, ?_⟩
    rw [Role.total_nil, add_zero]
    exact .done sum w
  | cons j roles ih =>
    obtain ⟨hnew, hnodup⟩ := List.nodup_cons.mp hnodup
    obtain ⟨⟨rest, v, hruns, htold⟩, hready⟩ := List.forall_mem_cons.mp hready
    obtain ⟨w', hwhole, -, hspared⟩ := hruns.exists_whole
    -- the other roles do not notice what the first one did
    have hready' : ∀ j' ∈ roles, j'.Ahead view w' [] j'.process := by
      intro j' hj'
      have hne : j'.id ≠ j.id := fun he => hnew (List.mem_map.mpr ⟨j', hj', he⟩)
      unfold Role.Ahead
      rw [hspared j'.id hne]
      exact hready j' hj'
    obtain ⟨w'', hrest⟩ := ih hnodup hready' (sum + j.counts)
    refine ⟨w'', ?_⟩
    rw [List.flatMap_cons, ← htold, List.nil_append, Role.total_cons, ← add_assoc]
    exact .askCancelled (hwhole.bind hrest)

namespace AssemblyRun

/-- The same run, on the calling thread alone. -/
def serially (r : AssemblyRun ω) : AssemblyRun ω :=
  { r with setup := { r.setup with
      options := { r.setup.options with disableParallelization := some true } } }

variable {r : AssemblyRun ω} {view : String → ω → ν} {world : ω}

/-- It finds the same collections, and they run as before. -/
theorem collectionRuns_serially (r : AssemblyRun ω) :
    r.serially.collectionRuns = r.collectionRuns := rfl

/-- The script of the run on the calling thread alone. -/
def Script.serially (S : r.Script view world) : r.serially.Script view world where
  preface := S.preface
  roles := S.roles
  found := S.found
  runs_found := by
    rw [collectionRuns_serially]
    exact S.runs_found
  preface_starts := S.preface_starts
  nodup := S.nodup
  sound := S.sound
  ready := S.ready

/-- A serial run plays its roles one after the other. -/
theorem Script.exists_runs_inTurn (S : r.Script view world) :
    ∃ w, r.inTurn.Runs .whole world (S.head ++ S.roles.flatMap (·.tells) ++ [S.last])
      (Role.total S.roles) w := by
  obtain ⟨w, hroles⟩ := Role.exists_runs S.nodup S.ready 0
  rw [zero_add] at hroles
  have hlast : (r.closing (Role.total S.roles)).Runs .whole w [S.last] (Role.total S.roles) w :=
    .queue trivial (.done _ _)
  refine ⟨w, ?_⟩
  rw [inTurn_eq, List.append_assoc]
  exact S.runs_opening.bind (hroles.bind hlast)

end AssemblyRun

namespace Transport.Quiet

variable {c : Transport σ} (hc : c.Quiet)
include hc

theorem stopped_deliverAll (ms : List Message) (d : Delivery σ) :
    (Delivery.deliverAll c.sink c.stopOnFail ms d).stopped = d.stopped := by
  induction ms generalizing d with
  | nil => rfl
  | cons m ms ih =>
    show (Delivery.deliverAll c.sink c.stopOnFail ms
      (d.deliver c.sink c.stopOnFail m).1).stopped = d.stopped
    rw [ih, hc.deliver_eq]

/-- The sink is handed every message once. -/
theorem map_message_callsAll (ms : List Message) (d : Delivery σ) :
    (Delivery.callsAll c.sink c.stopOnFail ms d).map (·.message) = ms := by
  induction ms generalizing d with
  | nil => rfl
  | cons m ms ih =>
    rw [Delivery.callsAll, hc.deliver_eq, List.map_append, ih]
    rfl

end Transport.Quiet

namespace SerialRun

variable {r : AssemblyRun ω} {c : Transport σ} (e : SerialRun r c)

/-- With a quiet sink a serial run tells what its process tells in the whole world. -/
theorem eq_of_runs (hc : c.Quiet) {ms : List Message} {counts : Counts} {w : ω}
    (h : r.inTurn.Runs .whole e.world ms counts w) :
    e.final.delivered = ms ∧ e.counts = counts := by
  obtain ⟨as, hcourse, hvisible, htruthful⟩ := e.exists_course
  obtain ⟨-, -, -, -, hcalls⟩ := e.exists_trace
  have hanswers : ∀ m goesOn, .queued m goesOn ∈ as → goesOn = true := by
    intro m goesOn hm
    refine e.goesOn_of_never (hc.stopped_deliverAll _ _) (m := m) ?_
    rw [← hvisible]
    exact List.mem_filterMap.mpr ⟨_, hm, rfl⟩
  obtain ⟨hmessages, hcounts⟩ := h.eq_of_course hcourse hanswers htruthful
  refine ⟨?_, hcounts⟩
  rw [Shared.delivered, hcalls, hc.map_message_callsAll, queued, ← hvisible, hmessages]

/-- **A serial run plays its script from the first role to the last.** -/
theorem delivered_eq (hc : c.Quiet) {view : String → ω → ν} (S : r.Script view e.world) :
    e.final.delivered = S.head ++ S.roles.flatMap (·.tells) ++ [S.last] ∧
      e.counts = Role.total S.roles := by
  obtain ⟨w, hruns⟩ := S.exists_runs_inTurn
  exact e.eq_of_runs hc hruns

end SerialRun

/-! ## Both runs tell the same -/

/-- The messages without the ID of a collection, in order. -/
def ofNoCollection (ms : List Message) : List Message := ms.filter (·.ids.collection.isNone)

/-- The message without the description of the environment, if it has one. -/
def Message.withoutEnvironment (m : Message) : Message :=
  match m.event with
  | .starting (.assembly name path configFile _ time) =>
    { m with event := .starting (.assembly name path configFile "" time) }
  | _ => m

theorem ofNoCollection_append (ms ns : List Message) :
    ofNoCollection (ms ++ ns) = ofNoCollection ms ++ ofNoCollection ns := List.filter_append ..

/-- When the roles are played in turn, each tells its messages. -/
theorem Role.ofCollection_flatMap {roles : List (Role ω)} (hsound : ∀ j ∈ roles, j.Sound)
    (hnodup : (roles.map (·.id)).Nodup) {j : Role ω} (hj : j ∈ roles) :
    ofCollection j.id (roles.flatMap (·.tells)) = j.tells := by
  induction roles with
  | nil => cases hj
  | cons k roles ih =>
    obtain ⟨hk, hroles⟩ := List.forall_mem_cons.mp hsound
    obtain ⟨hnew, hnodup⟩ := List.nodup_cons.mp hnodup
    rw [List.flatMap_cons, ofCollection_append]
    rcases List.mem_cons.mp hj with rfl | hj
    · have hrest : ofCollection j.id (roles.flatMap (·.tells)) = [] := by
        refine ofCollection_eq_nil fun m hm he => ?_
        obtain ⟨j', hj', hm⟩ := List.mem_flatMap.mp hm
        have hid := Option.some.inj (((hroles j' hj').owned m hm).symm.trans he)
        exact hnew (List.mem_map.mpr ⟨j', hj', hid⟩)
      rw [hrest, ofCollection_eq_self hk.owned, List.append_nil]
    · have hfirst : ofCollection j.id k.tells = [] := by
        refine ofCollection_eq_nil fun m hm he => ?_
        have hid := Option.some.inj ((hk.owned m hm).symm.trans he)
        exact hnew (List.mem_map.mpr ⟨j, hj, hid.symm⟩)
      rw [hfirst, ih hroles hnodup hj, List.nil_append]

/-- Roles that are played in turn are interleaved in one way. -/
theorem AssemblyRun.Script.interleaves_flatMap {r : AssemblyRun ω} {view : String → ω → ν}
    {world : ω} (S : r.Script view world) : S.Interleaves (S.roles.flatMap (·.tells)) where
  owned := by
    intro m hm
    obtain ⟨j, hj, hm⟩ := List.mem_flatMap.mp hm
    exact ⟨j, hj, (S.sound j hj).owned m hm⟩
  told := fun _ hj => Role.ofCollection_flatMap S.sound S.nodup hj

namespace AssemblyRun.Script.Interleaves

variable {r : AssemblyRun ω} {view : String → ω → ν} {world : ω} {S : r.Script view world}
  {inner inner' : List Message}

/-- All ways to interleave the roles agree on each collection. -/
theorem ofCollection_eq (h : S.Interleaves inner) (h' : S.Interleaves inner') (id : String) :
    ofCollection id inner = ofCollection id inner' := by
  by_cases hid : ∃ j ∈ S.roles, j.id = id
  · obtain ⟨j, hj, rfl⟩ := hid
    rw [h.told j hj, h'.told j hj]
  · have hnone : ∀ {inner}, S.Interleaves inner → ofCollection id inner = [] := by
      refine fun h => ofCollection_eq_nil fun m hm he => hid ?_
      obtain ⟨j, hj, hm⟩ := h.owned m hm
      exact ⟨j, hj, Option.some.inj (hm.symm.trans he)⟩
    rw [hnone h, hnone h']

theorem ofNoCollection_eq_nil (h : S.Interleaves inner) : ofNoCollection inner = [] := by
  refine List.filter_eq_nil_iff.mpr fun m hm hnone => ?_
  obtain ⟨j, -, hm⟩ := h.owned m hm
  rw [hm] at hnone
  cases hnone

/-- What is told of a collection is the same in both modes. -/
theorem ofCollection_told (h : S.Interleaves inner) (h' : S.Interleaves inner') (id : String) :
    ofCollection id (S.head ++ inner ++ [S.last]) =
      ofCollection id (S.serially.head ++ inner' ++ [S.serially.last]) := by
  have hhead : ofCollection id S.head = ofCollection id S.serially.head := rfl
  have hlast : S.last = S.serially.last := rfl
  simp only [ofCollection_append, hhead, hlast, h.ofCollection_eq h' id]

/-- What else is told is the same apart from the description of the environment. -/
theorem ofNoCollection_told (h : S.Interleaves inner) (h' : S.Interleaves inner') :
    (ofNoCollection (S.head ++ inner ++ [S.last])).map (·.withoutEnvironment) =
      (ofNoCollection (S.serially.head ++ inner' ++ [S.serially.last])).map
        (·.withoutEnvironment) := by
  have hhead : (ofNoCollection S.head).map (·.withoutEnvironment) =
      (ofNoCollection S.serially.head).map (·.withoutEnvironment) := rfl
  have hlast : S.last = S.serially.last := rfl
  simp only [ofNoCollection_append, List.map_append, hhead, hlast, h.ofNoCollection_eq_nil,
    h'.ofNoCollection_eq_nil]

end AssemblyRun.Script.Interleaves

/-- There is at least one worker. -/
theorem ThreadLimit.admits_concurrency (threads : ThreadLimit) (processors : Nat) :
    (threads.concurrency processors).admits 0 = true := by
  cases threads with
  | processors => exact decide_eq_true (Nat.lt_of_lt_of_le Nat.zero_lt_one (Nat.le_max_left ..))
  | count n positive => exact decide_eq_true positive
  | unlimited => rfl

theorem AssemblyRun.admits_of_parallelLimit? {r : AssemblyRun ω} {limit : ConcurrencyLimit}
    (h : r.parallelLimit? = some limit) : limit.admits 0 = true := by
  unfold parallelLimit? Options.parallelLimit? at h
  split at h
  · cases h
  · cases h
    exact ThreadLimit.admits_concurrency _ _

/-- **A parallel run agrees with the serial one**, if its collections share nothing and both sinks
are quiet. However its turns began, it can be ended with the counts of the serial run, and at no
time more collections are open than the limit says. When it is over, its counts are those of the
serial run; about each collection, the same was told in the same order; what else was told is the
same apart from the description of the environment; and the end of the assembly was told last, with
these counts. -/
theorem ParallelRun.agrees {r : AssemblyRun ω} {view : String → ω → ν} (hapart : r.Apart view)
    {limit : ConcurrencyLimit} (hlimit : r.parallelLimit? = some limit) {c : Transport σ}
    {c' : Transport τ} (hc : c.Quiet) (hc' : c'.Quiet) (e : SerialRun r.serially c') (sink : σ)
    (turns : List ParallelTurn) :
    (∃ more, ((start r sink e.world).after r c limit (turns ++ more)).counts? = some e.counts) ∧
    (∀ n, limit = .atMost n →
      ∀ ms, ms <+: ((start r sink e.world).after r c limit turns).shared.delivered →
        (openCollections ms).length ≤ n) ∧
    ∀ counts, ((start r sink e.world).after r c limit turns).counts? = some counts →
      counts = e.counts ∧
      (∀ id, ofCollection id ((start r sink e.world).after r c limit turns).shared.delivered =
        ofCollection id e.final.delivered) ∧
      (ofNoCollection ((start r sink e.world).after r c limit turns).shared.delivered).map
          (·.withoutEnvironment) =
        (ofNoCollection e.final.delivered).map (·.withoutEnvironment) ∧
      ∃ before, ((start r sink e.world).after r c limit turns).shared.delivered =
        before ++ [⟨r.ids, .finished .assembly (.ofCounts e.counts)⟩] := by
  obtain ⟨S⟩ := hapart.exists_script e.world
  obtain ⟨hserial, htotal⟩ := e.delivered_eq hc' S.serially
  have hcounts : e.counts = Role.total S.roles := htotal
  have hholds := (S.holds_start limit sink).after hc turns
  refine ⟨?_, fun n hn ms hms => ?_, fun counts hover => ?_⟩
  · obtain ⟨more, hmore⟩ := hholds.exists_counts? hc (r.admits_of_parallelLimit? hlimit)
    refine ⟨more, ?_⟩
    rw [after_append, hmore, hcounts]
  · exact hholds.bounded n hn ms (hms.trans (List.prefix_append _ _))
  · obtain ⟨hsum, inner, hinner, hdelivered⟩ := hholds.of_counts? hover
    rw [hdelivered, hserial]
    refine ⟨hsum.trans hcounts.symm, hinner.ofCollection_told S.interleaves_flatMap,
      hinner.ofNoCollection_told S.interleaves_flatMap, S.head ++ inner, ?_⟩
    rw [hcounts]
    rfl

/-! Two collections, each of which keeps a tally of its own. -/
namespace Tallies

def assembly : Assembly (String → Nat) where
  name := "tallies"

/-- The one case of a collection, whose test adds to the tally of the collection. -/
def testCase (collection : String) : TestCase (String → Nat) where
  method :=
    { testClass :=
        { collection := { assembly, displayName := collection }
          name := "Tally" }
      name := "adds"
      body := .sync fun ctx =>
        .world (fun w id => if ctx.ids.collection = some id then w id + 1 else w id) fun _ =>
          .finish (.returned ()) }
  kind := .fact
  displayName := "Tally.adds"

def run : AssemblyRun (String → Nat) where
  assembly := assembly
  cases := [testCase "left", testCase "right"]
  setup :=
    { options :=
        { collectionOrderer := some "declaration"
          caseOrderer := some "declaration"
          maxThreads := some .processors }
      collectionOrderers := .ofOrders .collection (·.id) [("declaration", id)]
      caseOrderers := .ofOrders .testCase (·.id) [("declaration", id)] }
  processors := 2
  startTime := .epoch

/-- The test of a case touches the tally of its own collection and no other. -/
theorem keepsTo_testCase (collection id : String) :
    (testCase collection).KeepsTo (.ofCollection (fun id w => w id) id) := by
  refine ⟨trivial, fun ctx howns output w => ?_, List.forall_mem_nil _, nofun,
    List.forall_mem_nil _⟩
  have hid : ctx.ids.collection = some id := howns
  refine ⟨[], _, w id + 1, .world (u := w id + 1) ?_ ?_ fun _ _ => .done _ _, fun _ _ => trivial⟩
  · intro w' hw
    exact (if_pos hid).trans (congrArg (· + 1) hw)
  · intro w' _ other hne
    refine if_neg fun hother => hne ?_
    exact Option.some.inj (hother.symm.trans hid)

/-- The collections share nothing: each sees its own tally. -/
theorem apart : run.Apart fun id w => w id := by
  have horder : ∀ {α : Type} (name : String) (order : List α → List α),
      [("declaration", id)].lookup name = some order → ∀ items, order items ⊆ items := by
    intro α name order h items
    rw [List.lookup_cons, List.lookup_nil] at h
    split at h
    · cases h
      exact List.Subset.refl _
    · cases h
  have hcases : ∀ c ∈ run.cases, ∃ collection, c = testCase collection := by
    intro c hc
    rcases List.mem_pair.mp hc with rfl | rfl <;> exact ⟨_, rfl⟩
  refine ⟨fun c hc => ?_, fun c hc => ?_, fun _ _ => Orderers.keepsTo_ofOrders _ _ horder,
    Orderers.keepsTo_ofOrders _ _ horder⟩
  · obtain ⟨collection, rfl⟩ := hcases c hc
    rintro _ ⟨⟩
  · obtain ⟨collection, rfl⟩ := hcases c hc
    exact keepsTo_testCase ..

theorem parallelLimit?_run : run.parallelLimit? = some (.atMost 2) := rfl

/-- A sink that counts the messages. -/
def count : Sink Nat := fun seen _ => (seen + 1, .goOn)

end Tallies

/-- Two collections side by side that tell what they tell in turn. -/
theorem ParallelRun.agrees_tallies :
    ∃ (e : SerialRun Tallies.run.serially ⟨.asynchronous, Tallies.count, false⟩)
      (turns : List ParallelTurn) (run : ParallelRun Nat (String → Nat)),
      Tallies.run.Apart (fun id w => w id) ∧
      Tallies.run.parallelLimit? = some (.atMost 2) ∧
      (⟨.asynchronous, Tallies.count, false⟩ : Transport Nat).Quiet ∧
      run = (start Tallies.run 0 e.world).after Tallies.run
        ⟨.asynchronous, Tallies.count, false⟩ (.atMost 2) turns ∧
      (∀ ms, ms <+: run.shared.delivered → (openCollections ms).length ≤ 2) ∧
      run.counts? = some e.counts ∧
      (∀ id, ofCollection id run.shared.delivered = ofCollection id e.final.delivered) ∧
      (ofNoCollection run.shared.delivered).map (·.withoutEnvironment) =
        (ofNoCollection e.final.delivered).map (·.withoutEnvironment) ∧
      ∃ before, run.shared.delivered =
        before ++ [⟨Tallies.run.ids, .finished .assembly (.ofCounts e.counts)⟩] := by
  have hquiet : (⟨.asynchronous, Tallies.count, false⟩ : Transport Nat).Quiet :=
    ⟨fun _ _ => rfl, rfl⟩
  obtain ⟨e, -⟩ := SerialRun.nonempty Tallies.run.serially
    ⟨.asynchronous, Tallies.count, false⟩ 0 (fun _ => 0) []
  obtain ⟨⟨more, hover⟩, -⟩ := ParallelRun.agrees Tallies.apart Tallies.parallelLimit?_run hquiet
    hquiet e 0 []
  obtain ⟨-, hbounded, hagrees⟩ := ParallelRun.agrees Tallies.apart Tallies.parallelLimit?_run
    hquiet hquiet e 0 ([] ++ more)
  exact ⟨e, _, _, Tallies.apart, Tallies.parallelLimit?_run, hquiet, rfl, hbounded 2 rfl, hover,
    (hagrees _ hover).2⟩

end TestEngine
