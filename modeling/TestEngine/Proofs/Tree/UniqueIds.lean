import Mathlib.Data.List.Induction
import Mathlib.Data.String.Basic
import TestEngine.Proofs.Tree.TestIds
import TestEngine.Tree.Recipe

/-!
# Unique IDs identify paths

The bytes of a path can be read in one way only: each part is either of a known length or has its
length in front. So different paths have different bytes, and two nodes have the same ID only if
they have the same path, as long as SHA-256 does not collide on these bytes.

* `NodePath.bytes_injective` — different paths have different bytes.
* `TestCase.id_eq_iff` — two cases have the same ID exactly if they have the same address.
* `CaseRecipe.address_build` — that address is the one that the calls spell out which build the
  case.
* `CaseRecipe.identifies` — both for all calls that build two cases.
-/

namespace TestEngine

/-! ## Texts whose length can be written -/

/-- The number of the bytes of a text fits into 64 bits. -/
def IsShort (s : String) : Prop := s.utf8ByteSize < 18446744073709551616

instance (s : String) : Decidable (IsShort s) := by
  unfold IsShort
  infer_instance

/-- The length of a list and those of its texts fit into 64 bits. -/
def AreShort (texts : List String) : Prop :=
  texts.length < 18446744073709551616 ∧ ∀ s ∈ texts, IsShort s

instance (texts : List String) : Decidable (AreShort texts) := by
  unfold AreShort
  infer_instance

namespace Hexadecimal

theorem utf8Size_digit {n : Nat} (h : n < 16) : (digit n).utf8Size = 1 := by
  have all : ∀ m ∈ List.range 16, (digit m).utf8Size = 1 := by decide
  exact all n (List.mem_range.mpr h)

theorem utf8ByteSize_ofBytes (bytes : List UInt8) :
    (ofBytes bytes).utf8ByteSize = 2 * bytes.length := by
  rw [ofBytes, String.utf8ByteSize_ofList]
  induction bytes with
  | nil => rfl
  | cons b bytes ih =>
    have hb := b.toNat_lt
    rw [List.flatMap_cons, String.utf8Len_append, ih, List.length_cons]
    simp only [ofByte, String.utf8Len, utf8Size_digit (show b.toNat / 16 < 16 by omega),
      utf8Size_digit (show b.toNat % 16 < 16 by omega)]
    omega

end Hexadecimal

namespace NodePath

/-- Unique IDs are short. -/
theorem isShort_uniqueId (p : NodePath) : IsShort p.uniqueId := by
  unfold IsShort uniqueId
  rw [Hexadecimal.utf8ByteSize_ofBytes, Sha256.length_digest]
  decide

/-! ## Reading the parts of a path -/

theorem length_toUTF8_toList (s : String) : s.toUTF8.toList.length = s.utf8ByteSize := by
  rw [ByteArray.toList, toList_loop_eq]
  rfl

/-- The digits to the base 256 determine a number. -/
theorem eq_of_digits_eq {k m n : Nat} (hm : m < 256 ^ k) (hn : n < 256 ^ k)
    (h : ∀ j < k, m / 256 ^ j % 256 = n / 256 ^ j % 256) : m = n := by
  induction k generalizing m n with
  | zero =>
    rw [Nat.pow_zero, Nat.lt_one_iff] at hm hn
    rw [hm, hn]
  | succ k ih =>
    rw [Nat.pow_succ'] at hm hn
    have hlast := h 0 (Nat.succ_pos k)
    rw [Nat.pow_zero, Nat.div_one, Nat.div_one] at hlast
    have hrest : m / 256 = n / 256 := by
      refine ih (Nat.div_lt_of_lt_mul hm) (Nat.div_lt_of_lt_mul hn) fun j hj => ?_
      rw [Nat.div_div_eq_div_mul, Nat.div_div_eq_div_mul, ← Nat.pow_succ']
      exact h (j + 1) (Nat.succ_lt_succ hj)
    rw [← Nat.div_add_mod m 256, ← Nat.div_add_mod n 256, hrest, hlast]

/-- Eight bytes determine a length of 64 bits. -/
theorem lengthBytes_injective {m n : Nat} (hm : m < 18446744073709551616)
    (hn : n < 18446744073709551616) (h : lengthBytes m = lengthBytes n) : m = n := by
  refine eq_of_digits_eq (k := 8) hm hn fun j hj => ?_
  have hmem : ∀ j < 8, 8 * j ∈ [0, 8, 16, 24, 32, 40, 48, 56] := by decide
  have hbyte := List.map_inj_left.mp h (8 * j) (hmem j hj)
  simpa [← UInt8.toNat_inj, Nat.shiftRight_eq_div_pow, Nat.pow_mul] using hbyte

variable {s t : String} {xs ys : List UInt8}

/-- A length in front of other bytes can be read. -/
theorem lengthBytes_append_inj {m n : Nat} (hm : m < 18446744073709551616)
    (hn : n < 18446744073709551616) (h : lengthBytes m ++ xs = lengthBytes n ++ ys) :
    m = n ∧ xs = ys := by
  obtain ⟨hlength, hrest⟩ := List.append_inj h
    ((length_lengthBytes m).trans (length_lengthBytes n).symm)
  exact ⟨lengthBytes_injective hm hn hlength, hrest⟩

/-- A text in front of other bytes can be read: its length tells where it ends. -/
theorem textBytes_append_inj (hs : IsShort s) (ht : IsShort t)
    (h : textBytes s ++ xs = textBytes t ++ ys) : s = t ∧ xs = ys := by
  simp only [textBytes, List.cons_append, List.append_assoc] at h
  obtain ⟨hsize, hrest⟩ := lengthBytes_append_inj hs ht (List.cons.inj h).2
  obtain ⟨hbytes, htail⟩ := List.append_inj hrest (by
    rw [length_toUTF8_toList, length_toUTF8_toList, hsize])
  exact ⟨eq_of_toUTF8_toList_eq hbytes, htail⟩

/-- The marker in front tells whether there is a text. -/
theorem optionalBytes_append_inj {o p : Option String} (ho : ∀ s ∈ o, IsShort s)
    (hp : ∀ s ∈ p, IsShort s) (h : optionalBytes o ++ xs = optionalBytes p ++ ys) :
    o = p ∧ xs = ys := by
  cases o with
  | none =>
    cases p with
    | none => exact ⟨rfl, (List.cons.inj h).2⟩
    | some t => exact absurd (List.cons.inj h).1 (by decide)
  | some s =>
    cases p with
    | none => exact absurd (List.cons.inj h).1 (by decide)
    | some t =>
      obtain ⟨rfl, hrest⟩ := textBytes_append_inj (ho s rfl) (hp t rfl) h
      exact ⟨rfl, hrest⟩

/-- As many texts, one after the other, can be read. -/
theorem flatMap_textBytes_append_inj {ss ts : List String} (hlength : ss.length = ts.length)
    (hs : ∀ s ∈ ss, IsShort s) (ht : ∀ t ∈ ts, IsShort t)
    (h : ss.flatMap textBytes ++ xs = ts.flatMap textBytes ++ ys) : ss = ts ∧ xs = ys := by
  induction ss generalizing ts with
  | nil =>
    rw [List.length_nil, eq_comm, List.length_eq_zero_iff] at hlength
    subst hlength
    exact ⟨rfl, h⟩
  | cons s ss ih =>
    cases ts with
    | nil => cases hlength
    | cons t ts =>
      rw [List.flatMap_cons, List.flatMap_cons, List.append_assoc, List.append_assoc] at h
      obtain ⟨rfl, hrest⟩ := textBytes_append_inj (hs s List.mem_cons_self)
        (ht t List.mem_cons_self) h
      obtain ⟨rfl, htail⟩ := ih (Nat.succ.inj hlength)
        (fun s hm => hs s (List.mem_cons_of_mem _ hm))
        (fun t hm => ht t (List.mem_cons_of_mem _ hm)) hrest
      exact ⟨rfl, htail⟩

/-- A list of texts can be read: their number tells where it ends. -/
theorem listBytes_append_inj {ss ts : List String} (hs : AreShort ss) (ht : AreShort ts)
    (h : listBytes ss ++ xs = listBytes ts ++ ys) : ss = ts ∧ xs = ys := by
  simp only [listBytes, List.append_assoc] at h
  obtain ⟨hlength, hrest⟩ := lengthBytes_append_inj hs.1 ht.1 h
  exact flatMap_textBytes_append_inj hlength hs.2 ht.2 hrest

/-! ## Paths -/

/-- Lengths fit into 64 bits, as they do for everything that is in memory. -/
def IsWritable : NodePath → Prop
  | assembly name path configFile =>
    IsShort name ∧ (∀ s ∈ path, IsShort s) ∧ ∀ s ∈ configFile, IsShort s
  | collection parent displayName definition =>
    IsShort parent ∧ IsShort displayName ∧ ∀ s ∈ definition, IsShort s
  | testClass parent name => IsShort parent ∧ IsShort name
  | method parent name => IsShort parent ∧ IsShort name
  | testCase parent bindings arguments => IsShort parent ∧ AreShort bindings ∧ AreShort arguments
  | test parent _ => IsShort parent

instance (p : NodePath) : Decidable p.IsWritable := by
  cases p <;> (dsimp only [IsWritable]; infer_instance)

/-- The word for the kind of a node that its path begins with. -/
def tag : NodePath → String
  | assembly .. => "assembly"
  | collection .. => "collection"
  | testClass .. => "class"
  | method .. => "method"
  | testCase .. => "test-case"
  | test .. => "test"

/-- The bytes behind the word for the kind of the node. -/
def body : NodePath → List UInt8
  | assembly name path configFile =>
    textBytes name ++ (optionalBytes path ++ optionalBytes configFile)
  | collection parent displayName definition =>
    textBytes parent ++ (textBytes displayName ++ optionalBytes definition)
  | testClass parent name => textBytes parent ++ textBytes name
  | method parent name => textBytes parent ++ textBytes name
  | testCase parent bindings arguments =>
    textBytes parent ++ (listBytes bindings ++ listBytes arguments)
  | test parent index => textBytes parent ++ textBytes (toString index)

theorem bytes_eq (p : NodePath) : p.bytes = textBytes p.tag ++ p.body := by
  cases p <;> simp only [bytes, tag, body, List.append_assoc]

theorem isShort_tag (p : NodePath) : IsShort p.tag := by
  cases p <;> (dsimp only [tag]; decide)

/-- What is last in a path needs nothing behind it to be read. -/
theorem eq_of_append_inj {α : Type} {encode : α → List UInt8} {a b : α}
    (hread : ∀ xs ys, encode a ++ xs = encode b ++ ys → a = b ∧ xs = ys)
    (h : encode a = encode b) : a = b :=
  (hread [] [] (by rw [List.append_nil, List.append_nil, h])).1

/-- **Different paths have different bytes.** -/
theorem bytes_injective {p q : NodePath} (hp : p.IsWritable) (hq : q.IsWritable)
    (h : p.bytes = q.bytes) : p = q := by
  rw [bytes_eq, bytes_eq] at h
  obtain ⟨htag, hbody⟩ := textBytes_append_inj p.isShort_tag q.isShort_tag h
  -- the words for two kinds of nodes differ
  cases p with
  | assembly name path configFile =>
    cases q with
    | assembly name' path' configFile' =>
      obtain ⟨rfl, htail⟩ := textBytes_append_inj hp.1 hq.1 hbody
      obtain ⟨rfl, hlast⟩ := optionalBytes_append_inj hp.2.1 hq.2.1 htail
      rw [eq_of_append_inj (fun _ _ => optionalBytes_append_inj hp.2.2 hq.2.2) hlast]
    | _ => exact absurd htag (by simp [tag])
  | collection parent name definition =>
    cases q with
    | collection parent' name' definition' =>
      obtain ⟨rfl, htail⟩ := textBytes_append_inj hp.1 hq.1 hbody
      obtain ⟨rfl, hlast⟩ := textBytes_append_inj hp.2.1 hq.2.1 htail
      rw [eq_of_append_inj (fun _ _ => optionalBytes_append_inj hp.2.2 hq.2.2) hlast]
    | _ => exact absurd htag (by simp [tag])
  | testClass parent name =>
    cases q with
    | testClass parent' name' =>
      obtain ⟨rfl, hlast⟩ := textBytes_append_inj hp.1 hq.1 hbody
      rw [eq_of_textBytes_eq hlast]
    | _ => exact absurd htag (by simp [tag])
  | method parent name =>
    cases q with
    | method parent' name' =>
      obtain ⟨rfl, hlast⟩ := textBytes_append_inj hp.1 hq.1 hbody
      rw [eq_of_textBytes_eq hlast]
    | _ => exact absurd htag (by simp [tag])
  | testCase parent bindings arguments =>
    cases q with
    | testCase parent' bindings' arguments' =>
      obtain ⟨rfl, htail⟩ := textBytes_append_inj hp.1 hq.1 hbody
      obtain ⟨rfl, hlast⟩ := listBytes_append_inj hp.2.1 hq.2.1 htail
      rw [eq_of_append_inj (fun _ _ => listBytes_append_inj hp.2.2 hq.2.2) hlast]
    | _ => exact absurd htag (by simp [tag])
  | test parent index =>
    cases q with
    | test parent' index' =>
      obtain ⟨rfl, hlast⟩ := textBytes_append_inj hp hq hbody
      rw [eq_of_toString_eq (eq_of_textBytes_eq hlast)]
    | _ => exact absurd htag (by simp [tag])

/-- The bytes of two paths differ, but SHA-256 has the same digest for them. -/
def Collides (p q : NodePath) : Prop :=
  p.bytes ≠ q.bytes ∧ Sha256.digest p.bytes = Sha256.digest q.bytes

theorem digest_eq_of_uniqueId_eq {p q : NodePath} (h : p.uniqueId = q.uniqueId) :
    Sha256.digest p.bytes = Sha256.digest q.bytes :=
  Hexadecimal.ofBytes_injective h

/-- Without a collision equal IDs come from equal paths. -/
theorem eq_of_uniqueId_eq {p q : NodePath} (hcollides : ¬p.Collides q) (hp : p.IsWritable)
    (hq : q.IsWritable) (h : p.uniqueId = q.uniqueId) : p = q := by
  refine bytes_injective hp hq (Decidable.not_not.mp fun hne => ?_)
  exact hcollides ⟨hne, digest_eq_of_uniqueId_eq h⟩

end NodePath

/-! ## Addresses of cases -/

/-- The names that lead to a case, and what tells it from the other cases of its method. -/
@[ext]
structure CaseAddress where
  assembly : String
  path : Option String
  configFile : Option String
  collection : String
  definition : Option String
  testClass : String
  method : String
  bindings : List String
  arguments : List String
  deriving DecidableEq, Repr

/-- All lengths fit into 64 bits. -/
def CaseAddress.IsWritable (a : CaseAddress) : Prop :=
  (IsShort a.assembly ∧ (∀ s ∈ a.path, IsShort s) ∧ ∀ s ∈ a.configFile, IsShort s) ∧
    (IsShort a.collection ∧ ∀ s ∈ a.definition, IsShort s) ∧
    IsShort a.testClass ∧ IsShort a.method ∧ AreShort a.bindings ∧ AreShort a.arguments

instance (a : CaseAddress) : Decidable a.IsWritable := by
  unfold CaseAddress.IsWritable
  infer_instance

section IsShort

variable {ω : Type}

theorem Assembly.isShort_id (a : Assembly ω) : IsShort a.id :=
  a.id_eq ▸ NodePath.isShort_uniqueId _

theorem Collection.isShort_id (l : Collection ω) : IsShort l.id :=
  l.id_eq ▸ NodePath.isShort_uniqueId _

theorem TestClass.isShort_id (k : TestClass ω) : IsShort k.id :=
  k.id_eq ▸ NodePath.isShort_uniqueId _

theorem Method.isShort_id (m : Method ω) : IsShort m.id :=
  m.id_eq ▸ NodePath.isShort_uniqueId _

end IsShort

namespace TestCase

open NodePath

variable {ω : Type} (c d : TestCase ω)

/-- The address of a case. A case whose arguments are found only when it runs has none in it. -/
def address : CaseAddress where
  assembly := c.assembly.name
  path := c.assembly.path
  configFile := c.assembly.configFile
  collection := c.collection.displayName
  definition := c.collection.definition.map (·.typeName)
  testClass := c.testClass.name
  method := c.method.name
  bindings := c.bindings
  arguments := c.kind.arguments.map (·.display)

/-- The paths of the nodes that lead to a case, from the top down. -/
def paths : List NodePath :=
  [.assembly c.assembly.name c.assembly.path c.assembly.configFile,
    .collection c.assembly.id c.collection.displayName
      (c.collection.definition.map (·.typeName)),
    .testClass c.collection.id c.testClass.name,
    .method c.testClass.id c.method.name,
    .testCase c.method.id c.bindings (c.kind.arguments.map (·.display))]

/-- SHA-256 tells two cases and the nodes that lead to them apart. -/
def Apart : Prop := ∀ pq ∈ c.paths.zip d.paths, ¬pq.1.Collides pq.2

instance : Decidable (c.Apart d) := by
  unfold Apart Collides
  infer_instance

variable {c d : TestCase ω}

/-- **Two cases have the same ID exactly if they have the same address.** -/
theorem id_eq_iff (hc : c.address.IsWritable) (hd : d.address.IsWritable) (hapart : c.Apart d) :
    c.id = d.id ↔ c.address = d.address := by
  constructor
  · -- from the case up: equal IDs come from equal paths, which have the IDs of the parents in them
    intro hid
    obtain ⟨hassembly, hcollection, hclass, hmethod, hcase⟩ := hc
    obtain ⟨hassembly', hcollection', hclass', hmethod', hcase'⟩ := hd
    simp only [Apart, paths, List.zip_cons_cons, List.zip_nil_left, List.forall_mem_cons,
      List.not_mem_nil, false_implies, implies_true, and_true] at hapart
    obtain ⟨hfirst, hsecond, hthird, hfourth, hfifth⟩ := hapart
    have hpath := eq_of_uniqueId_eq hfifth ⟨c.method.isShort_id, hcase⟩
      ⟨d.method.isShort_id, hcase'⟩ (c.id_eq.symm.trans (hid.trans d.id_eq))
    injection hpath with hid hbindings harguments
    have hpath := eq_of_uniqueId_eq hfourth ⟨c.testClass.isShort_id, hmethod⟩
      ⟨d.testClass.isShort_id, hmethod'⟩ (c.method.id_eq.symm.trans (hid.trans d.method.id_eq))
    injection hpath with hid hmethod
    have hpath := eq_of_uniqueId_eq hthird ⟨c.collection.isShort_id, hclass⟩
      ⟨d.collection.isShort_id, hclass'⟩
      (c.testClass.id_eq.symm.trans (hid.trans d.testClass.id_eq))
    injection hpath with hid hclass
    have hpath := eq_of_uniqueId_eq hsecond ⟨c.assembly.isShort_id, hcollection⟩
      ⟨d.assembly.isShort_id, hcollection'⟩
      (c.collection.id_eq.symm.trans (hid.trans d.collection.id_eq))
    injection hpath with hid hcollection hdefinition
    have hpath := eq_of_uniqueId_eq hfirst hassembly hassembly'
      (c.assembly.id_eq.symm.trans (hid.trans d.assembly.id_eq))
    injection hpath with hassembly hpath hconfig
    exact CaseAddress.ext hassembly hpath hconfig hcollection hdefinition hclass hmethod
      hbindings harguments
  · -- from the assembly down: an ID is computed from the ID of the parent and the names
    intro haddress
    injection haddress with hassembly hpath hconfig hcollection hdefinition hclass hmethod
      hbindings harguments
    have hfirst : c.assembly.id = d.assembly.id := by
      rw [c.assembly.id_eq, d.assembly.id_eq, hassembly, hpath, hconfig]
    have hsecond : c.collection.id = d.collection.id := by
      rw [c.collection.id_eq, d.collection.id_eq, hcollection, hdefinition]
      exact congrArg (fun id => (NodePath.collection id _ _).uniqueId) hfirst
    have hthird : c.testClass.id = d.testClass.id := by
      rw [c.testClass.id_eq, d.testClass.id_eq, hclass]
      exact congrArg (fun id => (NodePath.testClass id _).uniqueId) hsecond
    have hfourth : c.method.id = d.method.id := by
      rw [c.method.id_eq, d.method.id_eq, hmethod]
      exact congrArg (fun id => (NodePath.method id _).uniqueId) hthird
    rw [c.id_eq, d.id_eq, hfourth, hbindings, harguments]

end TestCase

/-! ## Recipes -/

/-- What a call does not change is as it was after all calls. -/
theorem foldl_keeps {α β γ : Type} (change : α → β → α) (view : α → γ)
    (h : ∀ a b, view (change a b) = view a) (calls : List β) (a : α) :
    view (calls.foldl change a) = view a := by
  induction calls generalizing a with
  | nil => rfl
  | cons b calls ih => rw [List.foldl_cons, ih, h]

/-- What calls may set is as the last of them that sets it says. -/
theorem foldl_sets {α β γ : Type} (change : α → β → α) (view : α → Option γ)
    (sets : β → Option γ) (h : ∀ a b, view (change a b) = (sets b).or (view a))
    (calls : List β) (a : α) :
    view (calls.foldl change a) = (calls.filterMap sets).getLast?.or (view a) := by
  induction calls using List.reverseRecOn with
  | nil => rfl
  | append_singleton calls b ih =>
    rw [List.foldl_concat, h, ih, List.filterMap_append, List.getLast?_append]
    cases hb : sets b <;> simp [hb]

/-- What a call sets as the path of an assembly. -/
def AssemblyCall.path? {ω : Type} : AssemblyCall ω → Option String
  | .path s => some s
  | _ => none

/-- What a call sets as the configuration file of an assembly. -/
def AssemblyCall.configFile? {ω : Type} : AssemblyCall ω → Option String
  | .configFile s => some s
  | _ => none

/-- What a call sets as the generic bindings of a case. -/
def CaseCall.bindings? : CaseCall → Option (List String)
  | .bindings texts => some texts
  | _ => none

section Builders

variable {ω : Type}

@[simp]
theorem Assembly.name_build (name : String) (calls : List (AssemblyCall ω)) :
    (build name calls).name = name :=
  foldl_keeps change (·.name) (fun _ call => by cases call <;> rfl) calls _

@[simp]
theorem Assembly.path_build (name : String) (calls : List (AssemblyCall ω)) :
    (build name calls).path = (calls.filterMap AssemblyCall.path?).getLast? := by
  rw [build, foldl_sets change path AssemblyCall.path? (fun _ call => by cases call <;> rfl)]
  exact Option.or_none

@[simp]
theorem Assembly.configFile_build (name : String) (calls : List (AssemblyCall ω)) :
    (build name calls).configFile = (calls.filterMap AssemblyCall.configFile?).getLast? := by
  rw [build, foldl_sets change configFile AssemblyCall.configFile?
    (fun _ call => by cases call <;> rfl)]
  exact Option.or_none

@[simp]
theorem CollectionDefinition.typeName_build (typeName : String)
    (calls : List (DefinitionCall ω)) : (build typeName calls).typeName = typeName :=
  foldl_keeps change (·.typeName) (fun _ call => by cases call <;> rfl) calls _

@[simp]
theorem TestClass.collection_build (collection : Collection ω) (name : String)
    (calls : List (ClassCall ω)) : (build collection name calls).collection = collection :=
  foldl_keeps change (·.collection) (fun _ call => by cases call <;> rfl) calls _

@[simp]
theorem TestClass.name_build (collection : Collection ω) (name : String)
    (calls : List (ClassCall ω)) : (build collection name calls).name = name :=
  foldl_keeps change (·.name) (fun _ call => by cases call <;> rfl) calls _

@[simp]
theorem Method.testClass_build (testClass : TestClass ω) (name : String) (body : Body ω)
    (calls : List (MethodCall ω)) : (build testClass name body calls).testClass = testClass :=
  foldl_keeps change (·.testClass) (fun _ _ => rfl) calls _

@[simp]
theorem Method.name_build (testClass : TestClass ω) (name : String) (body : Body ω)
    (calls : List (MethodCall ω)) : (build testClass name body calls).name = name :=
  foldl_keeps change (·.name) (fun _ _ => rfl) calls _

@[simp]
theorem TestCase.method_build (method : Method ω) (kind : CaseKind ω) (calls : List CaseCall) :
    (build method kind calls).method = method :=
  foldl_keeps change (·.method) (fun _ call => by cases call <;> rfl) calls _

@[simp]
theorem TestCase.kind_build (method : Method ω) (kind : CaseKind ω) (calls : List CaseCall) :
    (build method kind calls).kind = kind :=
  foldl_keeps change (·.kind) (fun _ call => by cases call <;> rfl) calls _

@[simp]
theorem TestCase.bindings_build (method : Method ω) (kind : CaseKind ω) (calls : List CaseCall) :
    (build method kind calls).bindings =
      (calls.filterMap CaseCall.bindings?).getLast?.getD [] := by
  have h := foldl_sets change (fun c : TestCase ω => some c.bindings) CaseCall.bindings?
    (fun _ call => by cases call <;> rfl) calls (ofKind method kind)
  rw [show (ofKind method kind).bindings = [] from rfl, Option.or_some] at h
  exact Option.some.inj h

end Builders

namespace CaseRecipe

variable {ω : Type} (r : CaseRecipe ω)

/-- The address that a recipe spells out. Of the calls that set the same thing, the last one
counts; a call that sets something else, such as a name to show, does not matter. -/
def address : CaseAddress where
  assembly := r.assemblyName
  path := (r.assemblyCalls.filterMap AssemblyCall.path?).getLast?
  configFile := (r.assemblyCalls.filterMap AssemblyCall.configFile?).getLast?
  collection := r.collectionName
  definition := r.definition.map (·.typeName)
  testClass := r.className
  method := r.methodName
  bindings := (r.caseCalls.filterMap CaseCall.bindings?).getLast?.getD []
  arguments := r.kind.arguments.map (·.display)

/-- A case has the address that its recipe spells out. -/
theorem address_build : r.build.address = r.address := by
  simp [TestCase.address, TestCase.assembly, TestCase.collection, TestCase.testClass, build,
    CaseRecipe.method, CaseRecipe.testClass, CaseRecipe.collection, CaseRecipe.assembly, address,
    Function.comp_def]

/-- **Unique IDs identify paths.** Different paths have different bytes, so they have the same ID
only if SHA-256 collides. Where it does not, two cases have the same ID exactly if their recipes
spell out the same address. -/
theorem identifies :
    (∀ p q : NodePath, p.IsWritable → q.IsWritable → p ≠ q →
      p.bytes ≠ q.bytes ∧ (p.uniqueId = q.uniqueId → p.Collides q)) ∧
    ∀ {ω : Type} (r s : CaseRecipe ω), r.address.IsWritable → s.address.IsWritable →
      r.build.Apart s.build → (r.build.id = s.build.id ↔ r.address = s.address) := by
  refine ⟨fun p q hp hq hne => ?_, fun r s hr hs hapart => ?_⟩
  · have hbytes : p.bytes ≠ q.bytes := fun h => hne (NodePath.bytes_injective hp hq h)
    exact ⟨hbytes, fun h => ⟨hbytes, NodePath.digest_eq_of_uniqueId_eq h⟩⟩
  · rw [← r.address_build, ← s.address_build]
    refine TestCase.id_eq_iff ?_ ?_ hapart <;> rwa [address_build]

/-- A case that is built with the given calls. -/
def adds (assemblyCalls : List (AssemblyCall Unit)) (caseCalls : List CaseCall) :
    CaseRecipe Unit where
  assemblyName := "calc"
  assemblyCalls := assemblyCalls
  collectionName := "sums"
  className := "Calc"
  methodName := "adds"
  body := .sync fun _ => .finish (.returned ())
  kind := .row [.of (.bool true)]
  caseCalls := caseCalls

/-- Bindings make a case another one. -/
theorem identifies_adds :
    (adds [.path "old", .configFile "", .path "calc.so"] []).build.id ≠
        (adds [.path "calc.so", .configFile ""] [.bindings ["1"], .displayName "sum"]).build.id ∧
      (NodePath.testCase "calc" ["1"] []).bytes ≠ (NodePath.testCase "calc" [] ["1"]).bytes := by
  constructor
  · exact (identifies.2 _ _ (by decide +kernel) (by decide +kernel) (by decide +kernel)).not.mpr
      (by decide +kernel)
  · exact (identifies.1 _ _ (by decide) (by decide) (by decide)).1

end CaseRecipe

end TestEngine
