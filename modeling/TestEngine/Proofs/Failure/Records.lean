import TestEngine.Failure.Basic

/-!
# Records are lossless

The record of a failure lists the whole tree behind it. Each entry names its parent, which stands
before it; so the tree can be grown again from the entries, one after another, and two failures have
the same record only if nothing that is told of them differs.

This holds as long as the indices fit into 32 bits.

* `ErrorTree.grow`, `ErrorRecord.tree?` — the tree of a record: each entry in turn becomes the last
  child of its parent.
* `Failure.record_eq` — the record lists what is told of a failure, from the root down.
* `Failure.isListedBy_record` — nothing of a failure is lost in its record.
-/

namespace TestEngine

/-! ## Trees of errors -/

/-- A tree of errors, of each of which `α` is known. -/
inductive ErrorTree (α : Type) where
  | node (label : α) (children : List (ErrorTree α))

namespace ErrorTree

variable {α β : Type}

mutual

/-- Replaces the labels. -/
def map (f : α → β) : ErrorTree α → ErrorTree β
  | node a cs => node (f a) (mapAll f cs)

def mapAll (f : α → β) : List (ErrorTree α) → List (ErrorTree β)
  | [] => []
  | c :: cs => map f c :: mapAll f cs

end

mutual

/-- All labels satisfy `P`. -/
def All (P : α → Prop) : ErrorTree α → Prop
  | node a cs => P a ∧ AllIn P cs

def AllIn (P : α → Prop) : List (ErrorTree α) → Prop
  | [] => True
  | c :: cs => All P c ∧ AllIn P cs

end

mutual

/-- Puts trees behind the children of the node that is `here`. -/
def attach (here : α → Bool) (ts : List (ErrorTree α)) : ErrorTree α → ErrorTree α
  | node a cs => if here a then node a (cs ++ ts) else node a (attachAll here ts cs)

def attachAll (here : α → Bool) (ts : List (ErrorTree α)) :
    List (ErrorTree α) → List (ErrorTree α)
  | [] => []
  | c :: cs => attach here ts c :: attachAll here ts cs

end

mutual

/-- The number of errors. -/
def size : ErrorTree α → Nat
  | node _ cs => 1 + sizeAll cs

def sizeAll : List (ErrorTree α) → Nat
  | [] => 0
  | c :: cs => size c + sizeAll cs

end

/-! ### Attaching -/

section Attaching

variable {P Q : α → Prop} {here there : α → Bool}

theorem allIn_append (ts us : List (ErrorTree α)) :
    AllIn P (ts ++ us) ↔ AllIn P ts ∧ AllIn P us := by
  induction ts with
  | nil => simp [AllIn]
  | cons t ts ih => simp only [List.cons_append, AllIn, ih, and_assoc]

theorem attachAll_append (ts cs ds : List (ErrorTree α)) :
    attachAll here ts (cs ++ ds) = attachAll here ts cs ++ attachAll here ts ds := by
  induction cs with
  | nil => rfl
  | cons c cs ih => simp only [List.cons_append, attachAll, ih]

mutual

theorem All.imp (h : ∀ a, P a → Q a) : ∀ {t : ErrorTree α}, t.All P → t.All Q
  | node _ _, ht => ⟨h _ ht.1, AllIn.imp h ht.2⟩

theorem AllIn.imp (h : ∀ a, P a → Q a) : ∀ {cs : List (ErrorTree α)}, AllIn P cs → AllIn Q cs
  | [], _ => trivial
  | _ :: _, hcs => ⟨All.imp h hcs.1, AllIn.imp h hcs.2⟩

end

mutual

/-- Nothing is attached where no node is meant. -/
theorem attach_eq_self (ts : List (ErrorTree α)) :
    ∀ {t : ErrorTree α}, t.All (fun a => here a = false) → t.attach here ts = t
  | node a cs, ht => by
    unfold attach
    rw [if_neg (by simp [ht.1]), attachAll_eq_self ts ht.2]

theorem attachAll_eq_self (ts : List (ErrorTree α)) :
    ∀ {cs : List (ErrorTree α)}, AllIn (fun a => here a = false) cs → attachAll here ts cs = cs
  | [], _ => rfl
  | c :: cs, hcs => by
    unfold attachAll
    rw [attach_eq_self ts hcs.1, attachAll_eq_self ts hcs.2]

end

mutual

theorem attach_nil : ∀ t : ErrorTree α, t.attach here [] = t
  | node a cs => by
    unfold attach
    rw [List.append_nil, attachAll_nil cs, ite_self]

theorem attachAll_nil : ∀ cs : List (ErrorTree α), attachAll here [] cs = cs
  | [] => rfl
  | c :: cs => by
    unfold attachAll
    rw [attach_nil c, attachAll_nil cs]

end

mutual

/-- More trees at the same place. -/
theorem attach_attach (ts us : List (ErrorTree α)) :
    ∀ t : ErrorTree α, (t.attach here ts).attach here us = t.attach here (ts ++ us)
  | node a cs => by
    by_cases h : here a = true
    · simp only [attach, if_pos h, List.append_assoc]
    · simp only [attach, if_neg h, attachAll_attachAll ts us cs]

theorem attachAll_attachAll (ts us : List (ErrorTree α)) :
    ∀ cs : List (ErrorTree α),
      attachAll here us (attachAll here ts cs) = attachAll here (ts ++ us) cs
  | [] => rfl
  | c :: cs => by
    simp only [attachAll, attach_attach ts us c, attachAll_attachAll ts us cs]

end

mutual

/-- Trees below a leaf that was just attached. -/
theorem attach_attach_leaf {b : α} (hb : there b = true) (ts : List (ErrorTree α)) :
    ∀ {t : ErrorTree α}, t.All (fun a => there a = false) →
      (t.attach here [node b []]).attach there ts = t.attach here [node b ts]
  | node a cs, ht => by
    have hleaf : attachAll there ts [node b []] = [node b ts] := by
      simp only [attachAll, attach, if_pos hb, List.nil_append]
    have ha : ¬there a = true := by simp [ht.1]
    by_cases h : here a = true
    · simp only [attach, if_pos h, if_neg ha, attachAll_append, hleaf, attachAll_eq_self ts ht.2]
    · simp only [attach, if_neg h, if_neg ha, attachAll_attachAll_leaf hb ts ht.2]

theorem attachAll_attachAll_leaf {b : α} (hb : there b = true) (ts : List (ErrorTree α)) :
    ∀ {cs : List (ErrorTree α)}, AllIn (fun a => there a = false) cs →
      attachAll there ts (attachAll here [node b []] cs) = attachAll here [node b ts] cs
  | [], _ => rfl
  | c :: cs, hcs => by
    simp only [attachAll, attach_attach_leaf hb ts hcs.1, attachAll_attachAll_leaf hb ts hcs.2]

end

mutual

theorem All.attach {ts : List (ErrorTree α)} (hts : AllIn P ts) :
    ∀ {t : ErrorTree α}, t.All P → (t.attach here ts).All P
  | node a cs, ht => by
    unfold ErrorTree.attach
    split
    · exact ⟨ht.1, (allIn_append cs ts).mpr ⟨ht.2, hts⟩⟩
    · exact ⟨ht.1, AllIn.attachAll hts ht.2⟩

theorem AllIn.attachAll {ts : List (ErrorTree α)} (hts : AllIn P ts) :
    ∀ {cs : List (ErrorTree α)}, AllIn P cs → AllIn P (attachAll here ts cs)
  | [], _ => trivial
  | _ :: _, hcs => ⟨All.attach hts hcs.1, AllIn.attachAll hts hcs.2⟩

end

end Attaching

end ErrorTree

/-! ## From records to trees -/

/-- What is told of a single error. -/
structure ErrorReport where
  typeName : Option String
  message : String
  stackTrace : Option String
  deriving DecidableEq, Repr

/-- What an entry tells of its error. -/
def ErrorEntry.report (e : ErrorEntry) : ErrorReport := ⟨e.typeName, e.message, e.stackTrace⟩

/-- What is told of an error, and the index of its entry. -/
abbrev IndexedReport := Nat × ErrorReport

/-- The error is that of the entry `index`. -/
def hasIndex (index : Int) (x : IndexedReport) : Bool := (x.1 : Int) == index

/-- Adds an entry with its index to a tree, as the last child of its parent. -/
def ErrorTree.grow (t : ErrorTree IndexedReport) (x : ErrorEntry × Nat) : ErrorTree IndexedReport :=
  t.attach (hasIndex x.1.parent) [.node (x.2, x.1.report) []]

namespace ErrorRecord

/-- The entries of a record, as far as all of its lists go. -/
def entries (r : ErrorRecord) : List ErrorEntry :=
  (r.types.zip (r.messages.zip (r.stackTraces.zip r.parents))).map
    fun (typeName, message, stackTrace, parent) => { typeName, message, stackTrace, parent }

/-- The tree of a record: the first entry is the root, and every other one in turn becomes the last
child of its parent. -/
def tree? (r : ErrorRecord) : Option (ErrorTree ErrorReport) :=
  match r.entries.zipIdx with
  | [] => none
  | (root, index) :: rest =>
    some ((rest.foldl ErrorTree.grow (.node (index, root.report) [])).map (·.2))

theorem entries_ofEntries (es : List ErrorEntry) : (ofEntries es).entries = es := by
  induction es with
  | nil => rfl
  | cons e es ih => exact congrArg (e :: ·) ih

end ErrorRecord

/-! ## From trees to records -/

namespace ErrorTree

mutual

/-- The entries of a tree, the root first. The root is entry `index`, below the entry `parent`. -/
def entries (parent : Int) (index : Nat) : ErrorTree ErrorReport → List ErrorEntry
  | node report cs =>
    { report with parent } :: entriesAll index (index + 1) cs

/-- The entries of the trees below the entry `parent`, from the entry `index` on. -/
def entriesAll (parent : Int) (index : Nat) : List (ErrorTree ErrorReport) → List ErrorEntry
  | [] => []
  | c :: cs => entries parent index c ++ entriesAll parent (index + size c) cs

end

mutual

/-- The tree with the indices of its entries. -/
def numbered (index : Nat) : ErrorTree ErrorReport → ErrorTree IndexedReport
  | node report cs => node (index, report) (numberedAll (index + 1) cs)

def numberedAll (index : Nat) : List (ErrorTree ErrorReport) → List (ErrorTree IndexedReport)
  | [] => []
  | c :: cs => numbered index c :: numberedAll (index + size c) cs

end

mutual

theorem length_entries (parent : Int) (index : Nat) :
    ∀ t : ErrorTree ErrorReport, (entries parent index t).length = size t
  | node report cs => by
    unfold entries size
    rw [List.length_cons, length_entriesAll index (index + 1) cs, Nat.add_comm]

theorem length_entriesAll (parent : Int) (index : Nat) :
    ∀ cs : List (ErrorTree ErrorReport), (entriesAll parent index cs).length = sizeAll cs
  | [] => rfl
  | c :: cs => by
    unfold entriesAll sizeAll
    rw [List.length_append, length_entries parent index c,
      length_entriesAll parent (index + size c) cs]

end

mutual

theorem map_numbered (index : Nat) : ∀ t : ErrorTree ErrorReport, (numbered index t).map (·.2) = t
  | node report cs => by
    unfold numbered map
    rw [mapAll_numberedAll (index + 1) cs]

theorem mapAll_numberedAll (index : Nat) :
    ∀ cs : List (ErrorTree ErrorReport), mapAll (·.2) (numberedAll index cs) = cs
  | [] => rfl
  | c :: cs => by
    unfold numberedAll mapAll
    rw [map_numbered index c, mapAll_numberedAll (index + size c) cs]

end

mutual

/-- The indices of a tree come before those of what follows. -/
theorem all_numbered {index bound : Nat} :
    ∀ {t : ErrorTree ErrorReport}, index + size t ≤ bound →
      (numbered index t).All fun x => x.1 < bound
  | node report cs, h => by
    unfold size at h
    exact ⟨by omega, allIn_numberedAll (by omega)⟩

theorem allIn_numberedAll {index bound : Nat} :
    ∀ {cs : List (ErrorTree ErrorReport)}, index + sizeAll cs ≤ bound →
      AllIn (fun x => x.1 < bound) (numberedAll index cs)
  | [], _ => trivial
  | c :: cs, h => by
    unfold sizeAll at h
    exact ⟨all_numbered (by omega), allIn_numberedAll (by omega)⟩

end

/-! ### Growing a tree from its entries -/

/-- No node of a tree has an index that is still to come. -/
theorem All.hasIndex_eq_false {index : Nat} {t : ErrorTree IndexedReport}
    (h : t.All fun x => x.1 < index) : t.All fun x => hasIndex index x = false := by
  refine h.imp fun x hx => ?_
  simp only [hasIndex, beq_eq_false_iff_ne]
  omega

mutual

/-- The entries of a tree grow the tree, below the entry that is their root's parent. What was there
before has smaller indices. -/
theorem foldl_grow_entries {index : Nat} (parent : Int) :
    ∀ (s : ErrorTree ErrorReport) {t : ErrorTree IndexedReport}, t.All (fun x => x.1 < index) →
      ((entries parent index s).zipIdx index).foldl grow t =
        t.attach (hasIndex parent) [numbered index s]
  | node report cs, t, ht => by
    have hleaf : AllIn (fun x => x.1 < index + 1) [node (index, report) []] :=
      ⟨⟨Nat.lt_succ_self index, trivial⟩, trivial⟩
    have hgrown : (t.attach (hasIndex parent) [node (index, report) []]).All
        (fun x => x.1 < index + 1) := .attach hleaf (ht.imp fun _ hx => Nat.lt_succ_of_lt hx)
    unfold entries numbered
    rw [List.zipIdx_cons, List.foldl_cons]
    show (List.zipIdx _ _).foldl grow (t.attach (hasIndex parent) [node (index, report) []]) = _
    rw [foldl_grow_entriesAll index cs hgrown]
    exact attach_attach_leaf (by simp [hasIndex]) _ ht.hasIndex_eq_false

theorem foldl_grow_entriesAll {index : Nat} (parent : Int) :
    ∀ (cs : List (ErrorTree ErrorReport)) {t : ErrorTree IndexedReport},
      t.All (fun x => x.1 < index) →
      ((entriesAll parent index cs).zipIdx index).foldl grow t =
        t.attach (hasIndex parent) (numberedAll index cs)
  | [], t, _ => (attach_nil t).symm
  | c :: cs, t, ht => by
    have hfirst : AllIn (fun x => x.1 < index + size c) [numbered index c] :=
      ⟨all_numbered (Nat.le_refl _), trivial⟩
    have hgrown : (t.attach (hasIndex parent) [numbered index c]).All
        (fun x => x.1 < index + size c) :=
      .attach hfirst (ht.imp fun _ hx => Nat.lt_of_lt_of_le hx (Nat.le_add_right _ _))
    unfold entriesAll numberedAll
    rw [List.zipIdx_append, List.foldl_append, length_entries, foldl_grow_entries parent c ht,
      foldl_grow_entriesAll parent cs hgrown, attach_attach, List.singleton_append]

end

mutual

/-- The parent of an entry comes before it. -/
theorem parent_lt_of_mem_entries {index : Nat} {parent : Nat} (hparent : parent < index) :
    ∀ (t : ErrorTree ErrorReport) {x : ErrorEntry × Nat},
      x ∈ (entries parent index t).zipIdx index → ∃ p : Nat, p < x.2 ∧ x.1.parent = p
  | node report cs, x, hx => by
    unfold entries at hx
    rcases List.mem_cons.mp hx with rfl | hx
    · exact ⟨parent, hparent, rfl⟩
    · exact parent_lt_of_mem_entriesAll (Nat.lt_succ_self index) cs hx

theorem parent_lt_of_mem_entriesAll {index : Nat} {parent : Nat} (hparent : parent < index) :
    ∀ (cs : List (ErrorTree ErrorReport)) {x : ErrorEntry × Nat},
      x ∈ (entriesAll parent index cs).zipIdx index → ∃ p : Nat, p < x.2 ∧ x.1.parent = p
  | [], _, hx => absurd hx List.not_mem_nil
  | c :: cs, x, hx => by
    unfold entriesAll at hx
    rw [List.zipIdx_append, length_entries] at hx
    rcases List.mem_append.mp hx with hx | hx
    · exact parent_lt_of_mem_entries hparent c hx
    · exact parent_lt_of_mem_entriesAll (Nat.lt_add_right _ hparent) cs hx

end

/-- The record of a tree. -/
def record (t : ErrorTree ErrorReport) : ErrorRecord := .ofEntries (entries (-1) 0 t)

/-- A tree grows again from its record. -/
theorem tree?_record : ∀ t : ErrorTree ErrorReport, t.record.tree? = some t
  | node report cs => by
    have hroot : ErrorTree.All (fun x : IndexedReport => x.1 < 1) (node (0, report) []) :=
      ⟨Nat.zero_lt_one, trivial⟩
    have hgrown : ((entriesAll 0 1 cs).zipIdx 1).foldl grow (node (0, report) []) =
        numbered 0 (node report cs) := by
      rw [foldl_grow_entriesAll 0 cs hroot]
      simp only [attach, hasIndex, numbered]
      rfl
    unfold record ErrorRecord.tree?
    rw [ErrorRecord.entries_ofEntries]
    show some (((entriesAll 0 1 cs).zipIdx 1).foldl grow (node (0, report) [])|>.map (·.2)) = _
    rw [hgrown, map_numbered]

/-- Every entry but the first has a parent before it. -/
theorem exists_parent {i : Nat} (hi : 0 < i) :
    ∀ {t : ErrorTree ErrorReport}, i < t.size →
      ∃ p : Nat, p < i ∧ t.record.parents[i]? = some (p : Int)
  | node report cs, h => by
    obtain ⟨j, rfl⟩ := Nat.exists_eq_add_of_lt hi
    rw [Nat.zero_add] at h ⊢
    have hj : j < (entriesAll 0 1 cs).length := by
      rw [length_entriesAll]
      unfold size at h
      omega
    have hentry := List.getElem?_eq_getElem hj
    have hmem : ((entriesAll 0 1 cs)[j], 1 + j) ∈ (entriesAll 0 1 cs).zipIdx 1 :=
      List.mk_add_mem_zipIdx_iff_getElem?.mpr hentry
    have hroot : (0 : Nat) < 1 := Nat.zero_lt_one
    obtain ⟨p, hp, hparent⟩ := parent_lt_of_mem_entriesAll hroot cs hmem
    refine ⟨p, by omega, ?_⟩
    show (List.map (·.parent) (entriesAll 0 1 cs))[j]? = _
    rw [List.getElem?_map, hentry]
    exact congrArg some hparent

end ErrorTree

/-! ## The record of a failure -/

namespace Failure

mutual

/-- What is told of a failure and of those inside of it. -/
def shape : Failure → ErrorTree ErrorReport
  | mk origin message stackTrace inner =>
    .node { typeName := origin.typeName, message, stackTrace } (shapes inner)

def shapes : List Failure → List (ErrorTree ErrorReport)
  | [] => []
  | f :: rest => shape f :: shapes rest

end

mutual

theorem size_shape : ∀ f : Failure, f.shape.size = f.size
  | mk origin message stackTrace inner => by
    unfold shape ErrorTree.size size
    rw [sizeAll_shapes inner]

theorem sizeAll_shapes : ∀ fs : List Failure, ErrorTree.sizeAll (shapes fs) = sizeAll fs
  | [] => rfl
  | f :: rest => by
    unfold shapes ErrorTree.sizeAll sizeAll
    rw [size_shape f, sizeAll_shapes rest]

end

mutual

/-- What is added to a record comes behind what is there, as long as the indices fit. -/
theorem pushOnto_ofEntries (parent : Int32) :
    ∀ (f : Failure) {es : List ErrorEntry}, es.length + f.size ≤ 2147483648 →
      pushOnto (.ofEntries es) parent f =
        .ofEntries (es ++ f.shape.entries parent.toInt es.length)
  | mk origin message stackTrace inner, es, h => by
    unfold size at h
    have hindex : (ErrorRecord.ofEntries es).nextIndex.toInt = es.length := by
      rw [ErrorRecord.toInt_nextIndex (by rw [ErrorRecord.length_ofEntries]; omega),
        ErrorRecord.length_ofEntries]
    simp only [pushOnto, shape, ErrorTree.entries]
    rw [ErrorRecord.push_ofEntries, pushAllOnto_ofEntries _ inner (by simp; omega), hindex,
      List.length_append, List.append_assoc]
    rfl

theorem pushAllOnto_ofEntries (parent : Int32) :
    ∀ (fs : List Failure) {es : List ErrorEntry}, es.length + sizeAll fs ≤ 2147483648 →
      pushAllOnto (.ofEntries es) parent fs =
        .ofEntries (es ++ ErrorTree.entriesAll parent.toInt es.length (shapes fs))
  | [], es, _ => congrArg ErrorRecord.ofEntries (List.append_nil es).symm
  | f :: rest, es, h => by
    unfold sizeAll at h
    have hlength : (es ++ f.shape.entries parent.toInt es.length).length = es.length + f.size := by
      rw [List.length_append, ErrorTree.length_entries, size_shape]
    unfold pushAllOnto shapes ErrorTree.entriesAll
    rw [pushOnto_ofEntries parent f (by omega),
      pushAllOnto_ofEntries parent rest (by rw [hlength]; omega), hlength, List.append_assoc,
      size_shape]

end

/-- **The record lists what is told of a failure**, from the root down. -/
theorem record_eq {f : Failure} (h : f.size < 2147483648) : f.record = f.shape.record := by
  have hfits : ([] : List ErrorEntry).length + f.size ≤ 2147483648 := by
    rw [List.length_nil, Nat.zero_add]
    exact Nat.le_of_lt h
  exact pushOnto_ofEntries (-1) f hfits

/-- A record lists a failure and all that is inside of it: its lists have an entry for each failure,
the first is that of the root, every other one has a parent before it, and growing a tree from the
entries gives what is told of the failure. -/
structure IsListedBy (f : Failure) (r : ErrorRecord) : Prop where
  length_types : r.types.length = f.size
  length_messages : r.messages.length = f.size
  length_stackTraces : r.stackTraces.length = f.size
  length_parents : r.parents.length = f.size
  root : r.entries.head? = some
    { typeName := f.typeName, message := f.message, stackTrace := f.stackTrace, parent := -1 }
  parent : ∀ i, 0 < i → i < f.size → ∃ p : Nat, p < i ∧ r.parents[i]? = some (p : Int)
  tree?_eq : r.tree? = some f.shape

theorem isListedBy_of_eq {f : Failure} {r : ErrorRecord} (h : r = f.shape.record) :
    f.IsListedBy r := by
  have hlength : (f.shape.entries (-1) 0).length = f.size := by
    rw [ErrorTree.length_entries, size_shape]
  subst h
  refine ⟨?_, ?_, ?_, ?_, ?_, fun i hi hlt => ?_, ErrorTree.tree?_record _⟩
  · exact (List.length_map _).trans hlength
  · exact (List.length_map _).trans hlength
  · exact (List.length_map _).trans hlength
  · exact (List.length_map _).trans hlength
  · rw [ErrorTree.record, ErrorRecord.entries_ofEntries]
    cases f
    rfl
  · rw [← size_shape] at hlt
    exact ErrorTree.exists_parent hi hlt

/-- **Nothing is lost in the record of a failure**, and nothing is added: it lists the failure, and
two failures have the same record if and only if the same is told of them and of those inside. -/
theorem isListedBy_record (f : Failure) (h : f.size < 2147483648) :
    f.IsListedBy f.record ∧
      ∀ g : Failure, g.size < 2147483648 → (f.record = g.record ↔ f.shape = g.shape) := by
  refine ⟨isListedBy_of_eq (record_eq h), fun g hg => ⟨fun heq => ?_, fun heq => ?_⟩⟩
  · have htree : some f.shape = some g.shape := by
      rw [← (isListedBy_of_eq (record_eq h)).tree?_eq, ← (isListedBy_of_eq (record_eq hg)).tree?_eq,
        heq]
    exact Option.some.inj htree
  · rw [record_eq h, record_eq hg, heq]

/-- Two failures: an error with a chain of errors behind it, and a panic with an error behind it. -/
def wreck : Failure :=
  combine [ofError "Hull" "sank" ["leak", "rust"],
    (ofPanic (.text "mutiny")).withInner (ofMessage "hunger")]

/-- The same failures, but that the panic is an error which is only called one. -/
def wreckRetold : Failure :=
  combine [ofError "Hull" "sank" ["leak", "rust"],
    (typed "panic" "mutiny").withInner (ofMessage "hunger")]

example : wreck.record.parents = [-1, 0, 1, 2, 0, 4] := by decide

/-- What a failure comes from is told by its type only. -/
theorem isListedBy_record_wreck :
    wreck.size < 2147483648 ∧ wreckRetold.size < 2147483648 ∧ wreck.IsListedBy wreck.record ∧
      (wreck.record = wreckRetold.record ↔ wreck.shape = wreckRetold.shape) := by
  have h : wreck.size < 2147483648 := by decide
  have hretold : wreckRetold.size < 2147483648 := by decide
  obtain ⟨hlisted, hiff⟩ := isListedBy_record wreck h
  exact ⟨h, hretold, hlisted, hiff wreckRetold hretold⟩

end Failure

end TestEngine
