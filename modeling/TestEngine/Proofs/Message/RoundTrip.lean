import TestEngine.Message.Codec
import TestEngine.Proofs.Time.DurationText
import TestEngine.Proofs.Time.Timestamp

/-!
# Messages are read as they were written

Each part of a message is read as it was written, whichever of its optional fields are left out. A
count or an index is read only if it is in range, so what was read can be written and read again.

* `Event.ofFields?_fields` — reading the fields of an event gives the event back.
* `Event.inRange_of_ofFields?` — whatever is read is in range.
* `Message.survives` — both for whole messages.
-/

namespace TestEngine

/-! ## Fields -/

namespace Json

variable {α β : Type} {fields rest : List (String × Json)} {name key : String}

theorem lookup_field (v : Json) :
    ((name, v) :: rest).lookup key = if key = name then some v else rest.lookup key := by
  by_cases h : key = name <;> simp [List.lookup_cons, h, beq_eq_false_iff_ne.mpr]

theorem lookup_fieldIf_append (o : Option Json) :
    (fieldIf name o ++ rest).lookup key =
      if key = name then o.or (rest.lookup key) else rest.lookup key := by
  cases o with
  | none => simp [fieldIf]
  | some v => exact lookup_field v

theorem lookup_fieldIf (o : Option Json) :
    (fieldIf name o).lookup key = if key = name then o else none := by
  cases o with
  | none => simp [fieldIf]
  | some v => exact lookup_field v

/-- A field that is there is read. -/
theorem required?_object {v : Json} (read : Json → Option α) (h : fields.lookup name = some v) :
    (object fields).required? name read = read v := by
  simp [required?, field?, h]

/-- An optional text is read as it was written, also if it was left out. -/
theorem optionalText?_object {o : Option String} (h : fields.lookup name = o.map .str) :
    (object fields).optionalText? name = some o := by
  unfold optionalText?
  rw [field?, h]
  cases o <;> rfl

/-- Items are read as they were written. -/
theorem mapM_map {read : β → Option α} {write : α → β} {xs : List α}
    (h : ∀ x ∈ xs, read (write x) = some x) : (xs.map write).mapM read = some xs := by
  induction xs with
  | nil => rfl
  | cons x xs ih =>
    rw [List.map_cons, List.mapM_cons, h x List.mem_cons_self,
      ih fun y hy => h y (List.mem_cons_of_mem _ hy)]
    rfl

theorem listOf?_map {read : Json → Option α} {write : α → Json} {xs : List α}
    (h : ∀ x ∈ xs, read (write x) = some x) : listOf? read (.array (xs.map write)) = some xs :=
  mapM_map h

theorem textOrNull?_ofText? (o : Option String) : textOrNull? (ofText? o) = some o := by
  cases o <;> rfl

theorem count?_ofNat {n : Nat} (h : n < 18446744073709551616) : count? (ofNat n) = some n := by
  rw [ofNat, count?, if_pos (by omega), Int.toNat_natCast]

end Json

open Json

/-! ## The parts of a message -/

namespace NodeIds

/-- Fields that have the IDs at their keys are read as these IDs. -/
theorem ofJson?_object {ids : NodeIds} {fields : List (String × Json)}
    (h : ∀ l : Level, fields.lookup l.key = (ids.at? l).map .str) :
    ofJson? (.object fields) = some ids := by
  have hassembly : (object fields).required? "assembly" Json.text? = some ids.assembly :=
    required?_object _ (h .assembly)
  have hcollection : (object fields).optionalText? "collection" = some ids.collection :=
    optionalText?_object (h .collection)
  have hclass : (object fields).optionalText? "class" = some ids.testClass :=
    optionalText?_object (h .testClass)
  have hmethod : (object fields).optionalText? "method" = some ids.method :=
    optionalText?_object (h .method)
  have hcase : (object fields).optionalText? "test-case" = some ids.testCase :=
    optionalText?_object (h .testCase)
  have htest : (object fields).optionalText? "test" = some ids.test :=
    optionalText?_object (h .test)
  simp only [ofJson?, record?, Option.bind_eq_bind, Option.bind_some, hassembly, hcollection,
    hclass, hmethod, hcase, htest]

/-- Any IDs are read as they were written, also if an ID in between is not set. -/
theorem ofJson?_toJson (ids : NodeIds) : ofJson? ids.toJson = some ids := by
  refine ofJson?_object fun l => ?_
  cases l <;> simp [Level.all, Level.key, Level.words, lookup_fieldIf_append, lookup_fieldIf]

end NodeIds

theorem Duration.ofJson?_toJson (d : Duration) : ofJson? d.toJson = some d := by
  rw [toJson, ofJson?, Json.text?, Option.bind_eq_bind, Option.bind_some, ofText?_text]

theorem Timestamp.ofJson?_toJson (t : Timestamp) : ofJson? t.toJson = some t := by
  rw [toJson, ofJson?, Json.text?, Option.bind_eq_bind, Option.bind_some, ofText?_text]

namespace Summary

/-- The counts fit into 64 bits. -/
def InRange (s : Summary) : Prop :=
  s.total < 18446744073709551616 ∧ s.failed < 18446744073709551616 ∧
    s.skipped < 18446744073709551616

instance (s : Summary) : Decidable s.InRange := by
  unfold InRange
  infer_instance

/-- Fields that have the parts of a summary are read as this summary. -/
theorem ofJson?_object {s : Summary} {fields : List (String × Json)}
    (htotal : (object fields).required? "total" count? = some s.total)
    (hfailed : (object fields).required? "failed" count? = some s.failed)
    (hskipped : (object fields).required? "skipped" count? = some s.skipped)
    (htime : (object fields).required? "time" Duration.ofJson? = some s.time) :
    ofJson? (.object fields) = some s := by
  simp only [ofJson?, record?, htotal, hfailed, hskipped, htime, Option.bind_eq_bind,
    Option.bind_some]

theorem ofJson?_toJson {s : Summary} (h : s.InRange) : ofJson? s.toJson = some s := by
  obtain ⟨htotal, hfailed, hskipped⟩ := h
  apply ofJson?_object
  · exact (required?_object _ rfl).trans (count?_ofNat htotal)
  · exact (required?_object _ rfl).trans (count?_ofNat hfailed)
  · exact (required?_object _ rfl).trans (count?_ofNat hskipped)
  · exact (required?_object _ rfl).trans s.time.ofJson?_toJson

end Summary

namespace ErrorRecord

/-- The indices of parents fit into 32 bits with a sign. -/
def InRange (r : ErrorRecord) : Prop := ∀ n ∈ r.parents, FitsInt32 n

instance (r : ErrorRecord) : Decidable r.InRange := by
  unfold InRange
  infer_instance

theorem ofJson?_toJson {r : ErrorRecord} (h : r.InRange) : ofJson? r.toJson = some r := by
  have htypes : listOf? textOrNull? (.array (r.types.map Json.ofText?)) = some r.types :=
    listOf?_map fun o _ => textOrNull?_ofText? o
  have hmessages : listOf? Json.text? (ofTexts r.messages) = some r.messages :=
    listOf?_map fun s _ => rfl
  have htraces :
      listOf? textOrNull? (.array (r.stackTraces.map Json.ofText?)) = some r.stackTraces :=
    listOf?_map fun o _ => textOrNull?_ofText? o
  have hparents : listOf? index? (.array (r.parents.map .int)) = some r.parents :=
    listOf?_map fun n hn => if_pos (h n hn)
  simp [ofJson?, toJson, record?, required?, field?, lookup_field, htypes, hmessages, htraces,
    hparents]

end ErrorRecord

namespace Traits

/-- A key behind all others goes to the end. -/
theorem insert_eq_append {key : String} {values : List String}
    {entries : List (String × List String)} (h : ∀ e ∈ entries, e.1 < key) :
    insert key values entries = entries ++ [(key, values)] := by
  induction entries with
  | nil => rfl
  | cons e entries ih =>
    have he := h e List.mem_cons_self
    have hne : key ≠ e.1 := fun heq => String.lt_irrefl _ (heq ▸ he)
    rw [insert, if_neg (String.lt_asymm he), if_neg hne,
      ih fun f hf => h f (List.mem_cons_of_mem _ hf)]
    rfl

/-- Sorted entries are put together again in their order. -/
theorem entries_foldl (entries : List (String × List String)) (t : Traits)
    (hsorted : (t.entries ++ entries).Pairwise fun a b => a.1 < b.1) :
    (entries.foldl (fun t e => t.addAll e.1 e.2) t).entries = t.entries ++ entries := by
  induction entries generalizing t with
  | nil => rw [List.foldl_nil, List.append_nil]
  | cons e entries ih =>
    have hlast : (t.addAll e.1 e.2).entries = t.entries ++ [e] :=
      insert_eq_append fun f hf => (List.pairwise_append.mp hsorted).2.2 f hf e List.mem_cons_self
    rw [List.foldl_cons, ih _ (by rwa [hlast, List.append_assoc]), hlast, List.append_assoc]
    rfl

theorem eq_of_entries_eq {s t : Traits} (h : s.entries = t.entries) : s = t := by
  cases s
  cases t
  cases h
  rfl

theorem ofList_entries (t : Traits) : ofList t.entries = t :=
  eq_of_entries_eq (entries_foldl t.entries empty t.sorted)

theorem eq_empty_of_isEmpty {t : Traits} (h : t.isEmpty) : t = empty :=
  eq_of_entries_eq (List.isEmpty_iff.mp h)

theorem ofJson?_toJson (t : Traits) : ofJson? t.toJson = some t := by
  have hvalues : ∀ values, listOf? Json.text? (ofTexts values) = some values :=
    fun values => listOf?_map fun s _ => rfl
  have hentries : ((t.entries.map fun e => (e.1, ofTexts e.2)).mapM fun f =>
      (listOf? Json.text? f.2).map fun values => (f.1, values)) = some t.entries :=
    mapM_map fun e _ => by rw [hvalues]; rfl
  rw [ofJson?, toJson, fields?, Option.bind_eq_bind, Option.bind_some, hentries,
    Option.bind_eq_bind, Option.bind_some, ofList_entries]

end Traits

/-! ## Events -/

section Fields

variable (a b : Json)

/-- Fields behind those that every message has. -/
def behind (fields : List (String × Json)) : Json :=
  .object (("ids", a) :: ("type", b) :: fields)

variable {a b} in
/-- A field of a message is one of those of its event. -/
theorem field?_behind {name : String} {fields : List (String × Json)} (hids : name ≠ "ids")
    (htype : name ≠ "type") : (behind a b fields).field? name = fields.lookup name := by
  rw [behind, field?, lookup_field, if_neg hids, lookup_field, if_neg htype]

variable {a b} in
/-- The first field of an event is read. -/
theorem required?_behind {α : Type} {name : String} (v : Json) (rest : List (String × Json))
    (read : Json → Option α) (hids : name ≠ "ids") (htype : name ≠ "type") :
    (behind a b ((name, v) :: rest)).required? name read = read v := by
  rw [required?, field?_behind hids htype, lookup_field, if_pos rfl]
  rfl

namespace NodeStart

/-- What a starting message says is read as it was written. -/
theorem ofFields?_fields (node : NodeStart) :
    ofFields? (behind a b node.fields) node.level = some node := by
  cases node with
  | assembly name path configFile environment time =>
    cases path <;> cases configFile <;>
      simp [ofFields?, level, fields, behind, required?, optionalText?, field?, lookup_field,
        fieldIf, text?, Timestamp.ofJson?_toJson]
  | collection displayName definition =>
    cases definition <;>
      simp [ofFields?, level, fields, behind, required?, optionalText?, field?, lookup_field,
        fieldIf, text?]
  | testClass name =>
    simp [ofFields?, level, fields, behind, required?, field?, lookup_field, text?]
  | method name =>
    simp [ofFields?, level, fields, behind, required?, field?, lookup_field, text?]
  | testCase displayName skipReason traits =>
    have htraits : (behind a b (testCase displayName skipReason traits).fields).defaulted? "traits"
        Traits.empty Traits.ofJson? = some traits := by
      cases hempty : traits.isEmpty with
      | true =>
        have hfield : (behind a b (testCase displayName skipReason traits).fields).field? "traits" =
            none := by
          cases skipReason <;> simp [fields, behind, field?, lookup_field, fieldIf, hempty]
        rw [defaulted?, hfield, Traits.eq_empty_of_isEmpty hempty]
      | false =>
        have hfield : (behind a b (testCase displayName skipReason traits).fields).field? "traits" =
            some traits.toJson := by
          cases skipReason <;> simp [fields, behind, field?, lookup_field, fieldIf, hempty]
        rw [defaulted?, hfield]
        exact traits.ofJson?_toJson
    have hname : (behind a b (testCase displayName skipReason traits).fields).required?
        "display-name" Json.text? = some displayName :=
      required?_behind _ _ _ (by decide) (by decide)
    have hreason : (behind a b (testCase displayName skipReason traits).fields).optionalText?
        "skip-reason" = some skipReason := by
      cases skipReason <;> cases hempty : traits.isEmpty <;>
        simp [fields, behind, optionalText?, field?, lookup_field, fieldIf, hempty, text?]
    simp only [level, ofFields?, hname, hreason, htraits, Option.bind_eq_bind, Option.bind_some]
  | test displayName =>
    simp [ofFields?, level, fields, behind, required?, field?, lookup_field, text?]

end NodeStart

namespace Event

section Reading

variable {v : Json} {time : Duration} {written : String} {record : ErrorRecord}

theorem ofFields?_starting (v : Json) (l : Level) :
    ofFields? v (stem l ++ "-starting") = (NodeStart.ofFields? v l).map .starting := by
  cases l <;> rfl

theorem ofFields?_finished {summary : Summary} (group : GroupLevel)
    (h : v.required? "summary" Summary.ofJson? = some summary) :
    ofFields? v (stem group.level ++ "-finished") = some (.finished group summary) := by
  have hread : ofFields? v (stem group.level ++ "-finished") = finished? v group := by
    cases group <;> rfl
  rw [hread, finished?, h]
  rfl

theorem ofFields?_cleanupFailure (l : Level)
    (h : v.required? "error" ErrorRecord.ofJson? = some record) :
    ofFields? v (stem l ++ "-cleanup-failure") = some (.cleanupFailure l record) := by
  have hread : ofFields? v (stem l ++ "-cleanup-failure") = cleanupFailure? v l := by
    cases l <;> rfl
  rw [hread, cleanupFailure?, h]
  rfl

theorem ofFields?_passed (htime : executionTime? v = some time)
    (houtput : output? v = some written) :
    ofFields? v "test-passed" = some (.passed time written) := by
  show (executionTime? v).bind _ = _
  rw [htime, Option.bind_some, houtput]
  rfl

theorem ofFields?_failed (htime : executionTime? v = some time)
    (houtput : output? v = some written)
    (herror : v.required? "error" ErrorRecord.ofJson? = some record) :
    ofFields? v "test-failed" = some (.failed time written record) := by
  show (executionTime? v).bind _ = _
  rw [htime, Option.bind_some, houtput]
  show (v.required? "error" ErrorRecord.ofJson?).bind _ = _
  rw [herror]
  rfl

theorem ofFields?_testFinished (htime : executionTime? v = some time)
    (houtput : output? v = some written) :
    ofFields? v "test-finished" = some (.testFinished time written) := by
  show (executionTime? v).bind _ = _
  rw [htime, Option.bind_some, houtput]
  rfl

theorem ofFields?_error (h : v.required? "error" ErrorRecord.ofJson? = some record) :
    ofFields? v "error" = some (.error record) := by
  show (v.required? "error" ErrorRecord.ofJson?).map _ = _
  rw [h]
  rfl

end Reading

variable {a b} in
theorem executionTime?_behind (time : Duration) (rest : List (String × Json)) :
    executionTime? (behind a b (("execution-time", time.toJson) :: rest)) = some time :=
  (required?_behind _ _ _ (by decide) (by decide)).trans time.ofJson?_toJson

variable {a b} in
theorem output?_behind (v : Json) (written : String) (rest : List (String × Json)) :
    output? (behind a b (("execution-time", v) :: ("output", .str written) :: rest)) =
      some written := rfl

/-- The counts of a summary and the parents in an error record are in range. -/
def InRange : Event → Prop
  | finished _ summary => summary.InRange
  | cleanupFailure _ record => record.InRange
  | failed _ _ record => record.InRange
  | error record => record.InRange
  | _ => True

/-- What happened is read as it was written. -/
theorem ofFields?_fields {e : Event} (h : e.InRange) :
    ofFields? (behind a b e.fields) e.name = some e := by
  cases e with
  | starting node =>
    have hnode := NodeStart.ofFields?_fields a b node
    have hread := ofFields?_starting (behind a b node.fields) node.level
    rw [hnode] at hread
    exact hread
  | finished group summary =>
    have hsummary : (behind a b (finished group summary).fields).required? "summary"
        Summary.ofJson? = some summary :=
      (required?_behind _ _ _ (by decide) (by decide)).trans (Summary.ofJson?_toJson h)
    exact ofFields?_finished group hsummary
  | cleanupFailure level record =>
    have herror : (behind a b (cleanupFailure level record).fields).required? "error"
        ErrorRecord.ofJson? = some record :=
      (required?_behind _ _ _ (by decide) (by decide)).trans (ErrorRecord.ofJson?_toJson h)
    exact ofFields?_cleanupFailure level herror
  | construction edge => cases edge <;> rfl
  | before edge hook => cases edge <;> rfl
  | after edge hook => cases edge <;> rfl
  | disposal edge => cases edge <;> rfl
  | output text => rfl
  | passed time written =>
    exact ofFields?_passed (executionTime?_behind time _) (output?_behind _ written _)
  | failed time written record =>
    have herror : (behind a b (failed time written record).fields).required? "error"
        ErrorRecord.ofJson? = some record :=
      (required?_object _ rfl).trans (ErrorRecord.ofJson?_toJson h)
    exact ofFields?_failed (executionTime?_behind time _) (output?_behind _ written _) herror
  | skipped reason => rfl
  | testFinished time written =>
    exact ofFields?_testFinished (executionTime?_behind time _) (output?_behind _ written _)
  | diagnostic text => rfl
  | error record =>
    have herror : (behind a b (error record).fields).required? "error" ErrorRecord.ofJson? =
        some record :=
      (required?_behind _ _ _ (by decide) (by decide)).trans (ErrorRecord.ofJson?_toJson h)
    exact ofFields?_error herror

end Event

end Fields

/-! ## What is read is in range -/

namespace Json

variable {α : Type} {v : Json}

theorem exists_of_required? {name : String} {read : Json → Option α} {x : α}
    (h : v.required? name read = some x) : ∃ w, read w = some x := by
  obtain ⟨w, -, hw⟩ := Option.bind_eq_some_iff.mp h
  exact ⟨w, hw⟩

theorem lt_of_count? {n : Nat} (h : count? v = some n) : n < 18446744073709551616 := by
  unfold count? at h
  split at h
  · split at h
    · rename_i k hk
      cases h
      omega
    · cases h
  · cases h

theorem fitsInt32_of_index? {n : Int} (h : index? v = some n) : FitsInt32 n := by
  unfold index? at h
  split at h
  · split at h
    · rename_i k hk
      cases h
      exact hk
    · cases h
  · cases h

/-- The items of a list that was read were read. -/
theorem exists_of_mem_mapM {β : Type} {read : β → Option α} {ws : List β} {xs : List α}
    (h : ws.mapM read = some xs) : ∀ x ∈ xs, ∃ w, read w = some x := by
  induction ws generalizing xs with
  | nil =>
    cases h
    simp
  | cons w ws ih =>
    rw [List.mapM_cons] at h
    obtain ⟨y, hy, h⟩ := Option.bind_eq_some_iff.mp h
    obtain ⟨ys, hys, h⟩ := Option.bind_eq_some_iff.mp h
    cases h
    rintro x (_ | ⟨_, hx⟩)
    · exact ⟨w, hy⟩
    · exact ih hys x hx

theorem exists_of_mem_listOf? {read : Json → Option α} {xs : List α}
    (h : listOf? read v = some xs) : ∀ x ∈ xs, ∃ w, read w = some x := by
  obtain ⟨items, -, hitems⟩ := Option.bind_eq_some_iff.mp h
  exact exists_of_mem_mapM hitems

end Json

theorem Summary.inRange_of_ofJson? {v : Json} {s : Summary} (h : ofJson? v = some s) :
    s.InRange := by
  obtain ⟨w, -, h⟩ := Option.bind_eq_some_iff.mp h
  obtain ⟨total, htotal, h⟩ := Option.bind_eq_some_iff.mp h
  obtain ⟨failed, hfailed, h⟩ := Option.bind_eq_some_iff.mp h
  obtain ⟨skipped, hskipped, h⟩ := Option.bind_eq_some_iff.mp h
  obtain ⟨time, -, h⟩ := Option.bind_eq_some_iff.mp h
  cases h
  obtain ⟨_, htotal⟩ := exists_of_required? htotal
  obtain ⟨_, hfailed⟩ := exists_of_required? hfailed
  obtain ⟨_, hskipped⟩ := exists_of_required? hskipped
  exact ⟨lt_of_count? htotal, lt_of_count? hfailed, lt_of_count? hskipped⟩

theorem ErrorRecord.inRange_of_ofJson? {v : Json} {r : ErrorRecord} (h : ofJson? v = some r) :
    r.InRange := by
  obtain ⟨w, -, h⟩ := Option.bind_eq_some_iff.mp h
  obtain ⟨types, -, h⟩ := Option.bind_eq_some_iff.mp h
  obtain ⟨messages, -, h⟩ := Option.bind_eq_some_iff.mp h
  obtain ⟨stackTraces, -, h⟩ := Option.bind_eq_some_iff.mp h
  obtain ⟨parents, hparents, h⟩ := Option.bind_eq_some_iff.mp h
  cases h
  obtain ⟨_, hparents⟩ := exists_of_required? hparents
  intro n hn
  obtain ⟨_, hindex⟩ := exists_of_mem_listOf? hparents n hn
  exact fitsInt32_of_index? hindex

namespace Event

variable {v : Json} {e : Event}

theorem inRange_of_map {α : Type} {o : Option α} {f : α → Event} (h : o.map f = some e)
    (hf : ∀ x, o = some x → (f x).InRange) : e.InRange := by
  obtain ⟨x, hx, rfl⟩ := Option.map_eq_some_iff.mp h
  exact hf x hx

theorem inRange_of_finished? {group : GroupLevel} (h : finished? v group = some e) : e.InRange :=
  inRange_of_map h fun _ hsummary =>
    Summary.inRange_of_ofJson? (exists_of_required? hsummary).choose_spec

theorem inRange_of_cleanupFailure? {level : Level} (h : cleanupFailure? v level = some e) :
    e.InRange :=
  inRange_of_map h fun _ hrecord =>
    ErrorRecord.inRange_of_ofJson? (exists_of_required? hrecord).choose_spec

/-- A passed test, or the end of a test. -/
theorem inRange_of_executed {f : Duration → String → Event}
    (h : ((executionTime? v).bind fun time => (output? v).bind fun written =>
      some (f time written)) = some e) (hf : ∀ t s, (f t s).InRange) : e.InRange := by
  obtain ⟨time, -, h⟩ := Option.bind_eq_some_iff.mp h
  obtain ⟨written, -, h⟩ := Option.bind_eq_some_iff.mp h
  cases h
  exact hf time written

theorem inRange_of_failed (h : ofFields? v "test-failed" = some e) : e.InRange := by
  obtain ⟨time, -, h⟩ := Option.bind_eq_some_iff.mp h
  obtain ⟨written, -, h⟩ := Option.bind_eq_some_iff.mp h
  obtain ⟨record, hrecord, h⟩ := Option.bind_eq_some_iff.mp h
  cases h
  exact ErrorRecord.inRange_of_ofJson? (exists_of_required? hrecord).choose_spec

theorem inRange_of_error (h : ofFields? v "error" = some e) : e.InRange :=
  inRange_of_map h fun _ hrecord =>
    ErrorRecord.inRange_of_ofJson? (exists_of_required? hrecord).choose_spec

/-- The event that is read is in range. -/
theorem inRange_of_ofFields? {name : String} (h : ofFields? v name = some e) : e.InRange := by
  unfold ofFields? at h
  split at h
  -- one case for each name, and one for texts that are no name
  all_goals first
    | exact inRange_of_finished? h
    | exact inRange_of_cleanupFailure? h
    | exact inRange_of_map h fun _ _ => trivial
    | exact inRange_of_executed h fun _ _ => trivial
    | exact inRange_of_failed h
    | exact inRange_of_error h
    | (cases h <;> trivial)

end Event

/-! ## Messages -/

namespace Message

/-- The counts and the indices of parents are in range. -/
def InRange (m : Message) : Prop := m.event.InRange

/-- No field is written twice. -/
theorem nodup_keys (m : Message) :
    ((("ids", m.ids.toJson) :: ("type", .str m.event.name) :: m.event.fields).map (·.1)).Nodup := by
  cases m.event with
  | starting node =>
    cases node with
    | assembly name path configFile environment time =>
      cases path <;> cases configFile <;> simp [Event.fields, NodeStart.fields, fieldIf]
    | collection displayName definition =>
      cases definition <;> simp [Event.fields, NodeStart.fields, fieldIf]
    | testCase displayName skipReason traits =>
      cases skipReason <;> cases hempty : traits.isEmpty <;>
        simp [Event.fields, NodeStart.fields, fieldIf, hempty]
    | _ => simp [Event.fields, NodeStart.fields]
  | _ => simp [Event.fields]

/-- A message is read as it was written. -/
theorem ofJson?_toJson {m : Message} (h : m.InRange) : ofJson? m.toJson = some m := by
  have hids : m.toJson.required? "ids" NodeIds.ofJson? = some m.ids := m.ids.ofJson?_toJson
  have hname : m.toJson.required? "type" Event.nameOf? = some m.event.name := rfl
  have hevent : Event.ofFields? m.toJson m.event.name = some m.event :=
    Event.ofFields?_fields _ _ h
  simp only [ofJson?, hids, hname, hevent, Option.bind_eq_bind, Option.bind_some]

/-- A message that was read is in range. -/
theorem inRange_of_ofJson? {v : Json} {m : Message} (h : ofJson? v = some m) : m.InRange := by
  obtain ⟨ids, -, h⟩ := Option.bind_eq_some_iff.mp h
  obtain ⟨name, -, h⟩ := Option.bind_eq_some_iff.mp h
  obtain ⟨event, hevent, h⟩ := Option.bind_eq_some_iff.mp h
  cases h
  exact Event.inRange_of_ofFields? hevent

/-- **Messages survive being written and read.** A message in range is written as an object with
the name of its event under `type`, and read as it was. A message that was read, in whatever form,
is read again from what is written for it. -/
theorem survives :
    (∀ m : Message, m.InRange → ofJson? m.toJson = some m ∧
      ∃ fields, m.toJson = .object fields ∧ (fields.map (·.1)).Nodup ∧
        fields.lookup "type" = some (.str m.event.name)) ∧
    ∀ (v : Json) (m : Message), ofJson? v = some m → ofJson? m.toJson = some m :=
  ⟨fun m h => ⟨ofJson?_toJson h, _, rfl, m.nodup_keys, rfl⟩,
    fun _ _ h => ofJson?_toJson (inRange_of_ofJson? h)⟩

/-- The largest counts and the longest time, below an ID that is not set; and a message that is read
from numbers and arrays. -/
theorem survives_extremes :
    let summary : Summary :=
      { total := 18446744073709551615, failed := 18446744073709551615
        time := { seconds := 18446744073709551615, nanos := 999999999 } }
    let m : Message :=
      { ids := { assembly := "a", method := some "m" }, event := .finished .method summary }
    let v : Json :=
      .object [("type", .int 24), ("ids", .array [.str "a", .null]), ("output", .str "\u2028")]
    let written : Message := { ids := { assembly := "a" }, event := .output "\u2028" }
    (m.InRange ∧ ofJson? m.toJson = some m) ∧
      ofJson? v = some written ∧ ofJson? written.toJson = some written := by
  intro summary m v written
  have hrange : m.InRange := by
    show summary.InRange
    decide
  exact ⟨⟨hrange, (survives.1 m hrange).1⟩, rfl, survives.2 v written rfl⟩

end Message

end TestEngine
