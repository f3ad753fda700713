import TestEngine.Proofs.Run.Calm
import TestEngine.Proofs.Run.CleanupReports

/-!
# Failures to tear down stay apart

How teardowns end makes no difference to anything but the reports of failures to tear down. No test
gets another result, none is hidden or started because of it, and no count changes. And what these
reports say is about teardowns alone.

* `Likeness.ofTeardowns` — runs that differ in how teardowns end.
* `SerialRun.separates` — such runs report the same but for failures to tear down.
-/

namespace TestEngine

variable {σ τ ω : Type} {c : Transport σ} {c' : Transport τ}

/-- A failure to tear a node down. -/
def Event.isCleanupFailure : Event → Bool
  | .cleanupFailure .. => true
  | _ => false

/-- Runs are alike if they are the same but for how the parts of their teardowns end. Each part may
return, fail or panic in either run; what it does before that is the same. -/
def Likeness.ofTeardowns (ω : Type) (stopOnFail : Bool) : Likeness ω ω where
  stopOnFail := stopOnFail
  view := id
  shows := Option.guard fun m => !m.event.isCleanupFailure
  loose := True
  varies := fun _ => False
  varies_parent := fun _ h => h
  varies_inside := fun _ _ h => h
  cleanups := fun _ _ _ _ => rfl
  hides := fun h => h.elim
  blurs := fun h => h.elim
  steady := fun h => h.elim

namespace SerialRun

variable {r r' : AssemblyRun ω}

/-- **Failures to tear down neither hide other failures nor are hidden by them.** Take two runs that
differ in nothing but how parts of teardowns end, stop at failures or not alike, and whose sinks
never ask to stop. They queue the same messages, apart from reports of failures to tear down, and
count the same; and in each of them every node reports exactly what failed when it was torn down. -/
theorem separates (e : SerialRun r c) (e' : SerialRun r' c')
    (halike : r.Alike (.ofTeardowns ω c.stopOnFail) r') (hcalm : c.NeverAsks)
    (hcalm' : c'.NeverAsks) (hstop : c'.stopOnFail = c.stopOnFail) (hworld : e.world = e'.world) :
    e.queued.filter (!·.event.isCleanupFailure) = e'.queued.filter (!·.event.isCleanupFailure) ∧
      e.counts = e'.counts ∧ e.CleansUp ∧ e'.CleansUp := by
  obtain ⟨hqueued, hcounts⟩ := e.observe_eq halike e' hcalm hcalm' rfl hstop hworld
  refine ⟨?_, hcounts.resolve_left id, e.cleansUp, e'.cleansUp⟩
  rw [← List.filterMap_eq_filter]
  exact hqueued

end SerialRun

/-! A ledger that is closed behind a test that fails, well or not. -/
namespace Ledgers

def assembly : Assembly Nat where
  name := "ledgers"

/-- The class of the ledger; closing it ends with `ending`. -/
def testClass (ending : Outcome Unit) : TestClass Nat where
  collection := { assembly, displayName := "books" }
  name := "Ledger"
  constructor := some {
    typeName := "Ledger"
    constructors := [{
      parameters := []
      build := fun _ _ => .finish (.returned {
        value := ⟨"Ledger", "0"⟩
        teardown := { syncPart := some (.world (· + 1) fun _ => .finish ending) } }) }] }

/-- The body fails, and counts how often it did. -/
def body : Body Nat :=
  .sync fun _ => .world (· + 1) fun _ => .finish (.failed (.ofMessage "out of balance"))

def testCase (ending : Outcome Unit) : TestCase Nat where
  method := { testClass := testClass ending, name := "balances", body }
  kind := .fact
  displayName := "Ledger.balances"

def run (ending : Outcome Unit) : AssemblyRun Nat where
  assembly := assembly
  cases := [testCase ending]
  setup :=
    { options := { collectionOrderer := some "declaration", caseOrderer := some "declaration" }
      collectionOrderers := .ofOrders .collection (·.id) [("declaration", id)]
      caseOrderers := .ofOrders .testCase (·.id) [("declaration", id)] }
  processors := 2
  startTime := .epoch

variable (stopOnFail : Bool) (ending ending' : Outcome Unit)

theorem alike_testClass :
    (testClass ending).Alike (.ofTeardowns Nat stopOnFail) (testClass ending') where
  collection := ⟨⟨rfl, rfl, rfl, rfl, rfl, rfl, rfl, .nil⟩, rfl, rfl, .none⟩
  name_eq := rfl
  caseOrderer_eq := rfl
  id_eq := rfl
  constructor := by
    refine .some ⟨rfl, .cons ⟨rfl, fun _ _ => .finish (.returned ⟨rfl, fun part => ?_⟩)⟩ .nil⟩
    cases part with
    | async => exact .none
    | sync =>
      refine .some (.world (fun w w' hw => congrArg (· + 1) hw) fun _ _ _ => .finish ?_)
      exact .inl trivial
  fixtures := .nil
  hooks := .nil

/-- However the ledger is closed, the runs are alike. -/
theorem alike : (run ending).Alike (.ofTeardowns Nat stopOnFail) (run ending') where
  assembly := ⟨rfl, rfl, rfl, rfl, rfl, rfl, rfl, .nil⟩
  cases := by
    refine .cons ⟨⟨alike_testClass stopOnFail ending ending', rfl, rfl, .inl ⟨?_, .nil⟩⟩, .fact,
      rfl, rfl, rfl, rfl, rfl⟩ .nil
    exact fun ctx => Code.Mirrors.refl (R := SameFailure) (fun _ => rfl) (body.code ctx)
  setup :=
    { options_eq := rfl
      collectionOrderers := Orderers.alike_ofOrders _ _ fun o ho _ _ h => by
        rwa [List.mem_singleton.mp ho]
      caseOrderers := fun _ => Orderers.alike_ofOrders _ _ fun o ho _ _ h => by
        rwa [List.mem_singleton.mp ho] }
  processors_eq := rfl
  startTime_eq := rfl

/-- A sink that panics over every message, but never asks to stop. -/
def clumsy : Transport Nat where
  kind := .asynchronous
  sink := fun seen _ => (seen + 1, .panic .other)
  stopOnFail := true

theorem neverAsks_clumsy : clumsy.NeverAsks := fun _ _ => nofun

end Ledgers

/-- A ledger that is closed well, and one that is not. -/
theorem SerialRun.separates_ledgers :
    ∃ (e : SerialRun (Ledgers.run (.returned ())) Ledgers.clumsy)
      (e' : SerialRun (Ledgers.run (.failed (.ofMessage "no ink"))) Ledgers.clumsy),
      (Ledgers.run (.returned ())).Alike (.ofTeardowns Nat Ledgers.clumsy.stopOnFail)
        (Ledgers.run (.failed (.ofMessage "no ink"))) ∧
      Ledgers.clumsy.NeverAsks ∧ e.world = e'.world ∧
      e.queued.filter (!·.event.isCleanupFailure) = e'.queued.filter (!·.event.isCleanupFailure) ∧
      e.counts = e'.counts ∧ e.CleansUp ∧ e'.CleansUp := by
  obtain ⟨e, -, hworld, -⟩ :=
    SerialRun.nonempty (Ledgers.run (.returned ())) Ledgers.clumsy 0 0 []
  obtain ⟨e', -, hworld', -⟩ :=
    SerialRun.nonempty (Ledgers.run (.failed (.ofMessage "no ink"))) Ledgers.clumsy 0 0 []
  have halike := Ledgers.alike Ledgers.clumsy.stopOnFail (.returned ())
    (.failed (.ofMessage "no ink"))
  have hsame : e.world = e'.world := hworld.trans hworld'.symm
  obtain ⟨hqueued, hcounts, hcleans, hcleans'⟩ := SerialRun.separates e e' halike
    Ledgers.neverAsks_clumsy Ledgers.neverAsks_clumsy rfl hsame
  exact ⟨e, e', halike, Ledgers.neverAsks_clumsy, hsame, hqueued, hcounts, hcleans, hcleans'⟩

end TestEngine
