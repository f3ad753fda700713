import TestEngine.Proofs.Order.Permutations

/-!
# Orderers that answer by a function

Orderers are user code, and most of them are functions of what they are given: neither the state of
the world nor chance has a say. Then the order that the engine uses is a function too, whatever else
is wrong with the orderers. They may be missing, fail, panic, or drop and double items.

* `Code.Settles` — how code ends whatever the world is like.
* `Orderers.AnswersBy` — what the orderers of a run answer.
* `Orderers.guarded` — the order that the engine makes of it.
* `Orderers.AnswersBy.yields_order` — the engine uses that order unless the run is to stop.
-/

namespace TestEngine

open Process

variable {ω α β : Type}

/-! ## Being told to stop -/

/-- Some message was answered with stop. -/
def toldToStop (as : List Action) : Bool :=
  as.any fun
    | .queued _ false => true
    | _ => false

theorem toldToStop_append (as bs : List Action) :
    toldToStop (as ++ bs) = (toldToStop as || toldToStop bs) := List.any_append

theorem toldToStop_reported (m : Message) (b : Bool) : toldToStop (reported m b) = !b := by
  cases b <;> rfl

/-! ## Code that settles -/

namespace Code

/-- Whatever the world is like, the code ends like this if it is told to go on. -/
def Settles : SetupCode ω α → Outcome α → Prop
  | finish o, outcome => o = outcome
  | note _ next, outcome => Settles next outcome
  | world _ next, outcome => ∀ w, Settles (next w) outcome
  | diagnose _ _ next, outcome => Settles (next true) outcome
  | request r _, _ => r.elim

/-- What comes next settles as well, unless the code fails. -/
theorem yields_run_of_settles {code : SetupCode ω α} {f : α → SetupCode ω β} {outcome : Outcome β}
    (h : (code >>= f).Settles outcome) : code.run.Yields fun as o => toldToStop as = false →
      match o with
      | .returned a => (f a).Settles outcome
      | .failed e => outcome = .failed e
      | .panicked p => outcome = .panicked p := by
  have hperform : (code.perform (fun r (_ : Unit) => r.elim) ()).Yields fun as o =>
      toldToStop as = false →
        match o.1 with
        | .returned a => (f a).Settles outcome
        | .failed e => outcome = .failed e
        | .panicked p => outcome = .panicked p := by
    induction code with
    | finish o =>
      refine .pure fun _ => ?_
      cases o with
      | returned a => exact h
      | failed e => exact h.symm
      | panicked p => exact h.symm
    | note text next ih => exact .journal (ih h)
    | world change next ih => exact .world fun w => ih w (h w)
    | diagnose ids text next ih =>
      refine .queue fun b => ?_
      cases b with
      | true => exact ih true h
      | false => exact fun as o _ htold => nomatch htold
    | request r next => exact r.elim
  refine hperform.bind ?_
  rintro as ⟨o, _⟩ ho
  refine .pure fun htold => ho ?_
  rwa [List.append_nil] at htold

/-- Code that settles ends as it should. -/
theorem Settles.yields_run {code : SetupCode ω α} {outcome : Outcome α}
    (h : code.Settles outcome) :
    code.run.Yields fun as o => toldToStop as = false → o = outcome := by
  have hbind : (code >>= fun a => finish (.returned a)).Settles outcome := by
    have heq : (code >>= fun a => finish (.returned a)) = code := bind_finish code
    rwa [heq]
  refine (yields_run_of_settles hbind).mono fun as o ho htold => ?_
  have hend := ho htold
  cases o with
  | returned a => exact hend
  | failed e => exact hend.symm
  | panicked p => exact hend.symm

end Code

/-! ## Orders -/

/-- The value, unless something went wrong. -/
def Outcome.value? : Outcome α → Option α
  | .returned a => some a
  | _ => none

namespace Orderers

/-- What an orderer with a name answers on behalf of a node: a list, unless it is not made or does
not answer. -/
abbrev Answers (α : Type) := String → NodeIds → List α → Option (List α)

/-- Each orderer that is registered is made and answers by a function. -/
def AnswersBy (os : Orderers ω α) (answers : Answers α) : Prop :=
  ∀ name factory, os.factories.lookup name = some factory → ∀ ids items,
    ∃ outcome, (factory ids >>= fun orderer => orderer items).Settles outcome ∧
      outcome.value? = answers name ids items

/-- The order that the engine makes of an answer: the answer itself if it is a permutation of the
IDs, and else the default order. -/
def trusted (os : Orderers ω α) (items : List α) : Option (List α) → List α
  | some ordered =>
    if os.samePermutation items ordered then ordered else defaultOrder os.idOf items
  | none => defaultOrder os.idOf items

/-- The order of the orderer with a name, on behalf of a node. One that is not registered answers
nothing. -/
def guarded (os : Orderers ω α) (answers : Answers α) (name : Option String) (ids : NodeIds)
    (items : List α) : List α :=
  let name := name.getD defaultName
  os.trusted items ((os.factories.lookup name).bind fun _ => answers name ids items)

variable {os : Orderers ω α} {answers : Answers α} (ids : NodeIds) (items : List α)

/-- Whatever is answered, the IDs are permuted. -/
theorem agree_trusted (os : Orderers ω α) (answer : Option (List α)) :
    os.Agree items (os.trusted items answer) := by
  have hdefault : os.Agree items (defaultOrder os.idOf items) :=
    (defaultOrder_perm os.idOf items).map os.idOf
  unfold trusted
  split
  · split
    · next h => exact os.agree_of_samePermutation items h
    · exact hdefault
  · exact hdefault

/-- The order that comes of trying an orderer. -/
def orderOf (os : Orderers ω α) (items : List α) : Except String (List α) → List α
  | .ok ordered => ordered
  | .error _ => defaultOrder os.idOf items

theorem AnswersBy.yields_tryOrder (h : os.AnswersBy answers) (name : String) :
    (os.tryOrder name ids items).Yields fun as result => toldToStop as = false →
      os.orderOf items result = os.guarded answers (some name) ids items := by
  unfold tryOrder guarded
  simp only [Option.getD_some]
  cases hf : os.factories.lookup name with
  | none => exact .pure fun _ => rfl
  | some factory =>
    obtain ⟨outcome, hsettles, hanswer⟩ := h name factory hf ids items
    simp only [Option.bind_some, ← hanswer]
    refine (Code.yields_run_of_settles hsettles).bind fun as made hmade => ?_
    cases made with
    | failed e | panicked p =>
      refine .pure fun htold => ?_
      rw [List.append_nil] at htold
      rw [hmade htold]
      rfl
    | returned orderer =>
      -- if nobody was told to stop so far, the answer is the one that it should be
      have hanswered : ((orderer items).run).Yields fun bs o =>
          toldToStop (as ++ bs) = false → o = outcome := by
        intro bs o ht htold
        rw [toldToStop_append, Bool.or_eq_false_iff] at htold
        exact (hmade htold.1).yields_run bs o ht htold.2
      refine hanswered.bind fun bs o ho => ?_
      cases o with
      | failed e | panicked p =>
        refine .pure fun htold => ?_
        rw [List.append_nil] at htold
        rw [← ho htold]
        rfl
      | returned ordered =>
        simp only [Outcome.toExcept]
        split
        · next hperm =>
          refine .pure fun htold => ?_
          rw [List.append_nil] at htold
          rw [← ho htold]
          exact (if_pos hperm).symm
        · next hperm =>
          refine .pure fun htold => ?_
          rw [List.append_nil] at htold
          rw [← ho htold]
          exact (if_neg hperm).symm

/-- **The engine uses the guarded order** unless the run is to stop. -/
theorem AnswersBy.yields_order (h : os.AnswersBy answers) (name : Option String) :
    (os.order name ids items).Yields fun as ordered => toldToStop as = false →
      ordered = os.guarded answers name ids items := by
  unfold order
  refine (h.yields_tryOrder ids items (name.getD defaultName)).bind fun as result hresult => ?_
  cases result with
  | ok ordered =>
    refine .pure fun htold => ?_
    rw [List.append_nil] at htold
    exact hresult htold
  | error reason =>
    refine .queue fun b => .pure fun htold => ?_
    rw [toldToStop_append, Bool.or_eq_false_iff] at htold
    exact hresult htold.1

/-! ## Orderers without code -/

/-- Orderers that need no code. -/
def ofOrders (kind : OrdererKind) (idOf : α → String) (orders : List (String × (List α → List α))) :
    Orderers ω α where
  kind := kind
  idOf := idOf
  factories := orders.map fun x => (x.1, pureFactory x.2)

theorem lookup_map_snd {β : Type} (f : α → β) (entries : List (String × α)) (name : String) :
    (entries.map fun x => (x.1, f x.2)).lookup name = (entries.lookup name).map f := by
  induction entries with
  | nil => rfl
  | cons x rest ih =>
    obtain ⟨key, value⟩ := x
    rw [List.map_cons, List.lookup_cons, List.lookup_cons, ih]
    cases name == key <;> rfl

/-- Orderers that need no code answer by their functions. -/
theorem answersBy_ofOrders (kind : OrdererKind) (idOf : α → String)
    (orders : List (String × (List α → List α))) :
    (ofOrders kind idOf orders : Orderers ω α).AnswersBy fun name _ items =>
      (orders.lookup name).map fun order => order items := by
  intro name factory hf ids items
  rw [ofOrders, lookup_map_snd, Option.map_eq_some_iff] at hf
  obtain ⟨order, horder, rfl⟩ := hf
  refine ⟨.returned (order items), rfl, ?_⟩
  show some (order items) = (orders.lookup name).map _
  rw [horder]
  rfl

end Orderers

end TestEngine
