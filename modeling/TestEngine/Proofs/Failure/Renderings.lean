import Mathlib.Algebra.GroupWithZero.Nat
import TestEngine.Proofs.Failure.Records

/-!
# What the texts of a failure show

The record of a failure lists all messages of its tree from the root down, and so does its detailed
text, with one exception: failures that were combined are shown by their plain texts, which say
nothing of what is behind them. What is shown is in the order of the record in any case.

* `Failure.messages_record` — the record lists the messages from the root down.
* `Failure.shows_detailed` — which messages the detailed text shows.
* `Failure.length_shown_eq_iff` — when these are all of them.
* `Failure.shows_detailed_iff` — the detailed text leaves out nothing if and only if each failure
  that was combined has nothing behind it or was combined itself.
* `Failure.outage_not_shown` — an error that was combined with another one, and whose cause is left
  out.
-/

namespace TestEngine

/-! ## Texts that show others -/

/-- The texts stand in a text one behind the other. -/
def ShowsInOrder : String → List String → Prop
  | _, [] => True
  | text, m :: ms => ∃ before after, text = before ++ m ++ after ∧ ShowsInOrder after ms

namespace ShowsInOrder

theorem behind (lead : String) {text : String} {ms : List String} (h : ShowsInOrder text ms) :
    ShowsInOrder (lead ++ text) ms := by
  cases ms with
  | nil => trivial
  | cons m ms =>
    obtain ⟨before, after, rfl, hrest⟩ := h
    exact ⟨lead ++ before, after, by simp only [String.append_assoc], hrest⟩

theorem cons {text : String} {ms : List String} (m : String) (h : ShowsInOrder text ms) :
    ShowsInOrder (m ++ text) (m :: ms) :=
  ⟨"", text, by rw [String.empty_append], h⟩

theorem append {text text' : String} {ms ms' : List String} (h : ShowsInOrder text ms)
    (h' : ShowsInOrder text' ms') : ShowsInOrder (text ++ text') (ms ++ ms') := by
  induction ms generalizing text with
  | nil => exact h'.behind text
  | cons m ms ih =>
    obtain ⟨before, after, rfl, hrest⟩ := h
    exact ⟨before, after ++ text', by simp only [String.append_assoc], ih hrest⟩

end ShowsInOrder

/-- How often the letter f occurs. It tells texts apart from what stands between them: neither the
number of a line nor the words before a cause have one. -/
def effs (text : String) : Nat := text.toList.count 'f'

@[simp] theorem effs_append (s t : String) : effs (s ++ t) = effs s + effs t := by
  unfold effs
  rw [String.toList_append, List.count_append]

theorem effs_toString (n : Nat) : effs (toString n) = 0 := by
  unfold effs
  rw [Nat.toString_eq_repr, Nat.toList_repr]
  refine List.count_eq_zero.mpr fun h => ?_
  have hdigit := Nat.isDigit_of_mem_toDigits (by decide) (by decide) h
  exact absurd hdigit (by decide)

/-- What a text shows is in it. -/
theorem ShowsInOrder.sum_effs_le {text : String} {ms : List String} (h : ShowsInOrder text ms) :
    (ms.map effs).sum ≤ effs text := by
  induction ms generalizing text with
  | nil => exact Nat.zero_le _
  | cons m ms ih =>
    obtain ⟨before, after, rfl, hrest⟩ := h
    have hle := ih hrest
    rw [List.map_cons, List.sum_cons, effs_append, effs_append]
    omega

namespace Failure

/-! ## All messages -/

mutual

/-- A failure and all that is inside of it, each before what is inside of it. -/
def within : Failure → List Failure
  | mk origin message stackTrace inner => mk origin message stackTrace inner :: withinAll inner

def withinAll : List Failure → List Failure
  | [] => []
  | f :: rest => within f ++ withinAll rest

end

theorem withinAll_append (fs gs : List Failure) :
    withinAll (fs ++ gs) = withinAll fs ++ withinAll gs := by
  induction fs with
  | nil => rfl
  | cons f rest ih => simp only [List.cons_append, withinAll, ih, List.append_assoc]

theorem withinAll_eq_nil_iff {fs : List Failure} : withinAll fs = [] ↔ fs = [] := by
  cases fs with
  | nil => simp only [withinAll]
  | cons f rest =>
    cases f
    simp only [withinAll, within, List.cons_append, reduceCtorEq]

mutual

theorem messages_pushOnto (r : ErrorRecord) (parent : Int32) :
    ∀ f : Failure, (pushOnto r parent f).messages = r.messages ++ f.within.map message
  | mk origin message stackTrace inner => by
    unfold pushOnto within
    rw [messages_pushAllOnto _ _ inner, List.map_cons, ErrorRecord.push, List.append_assoc]
    rfl

theorem messages_pushAllOnto (r : ErrorRecord) (parent : Int32) :
    ∀ fs : List Failure,
      (pushAllOnto r parent fs).messages = r.messages ++ (withinAll fs).map message
  | [] => (List.append_nil _).symm
  | f :: rest => by
    unfold pushAllOnto withinAll
    rw [messages_pushAllOnto _ _ rest, messages_pushOnto r parent f, List.map_append,
      List.append_assoc]

end

/-- The record lists the messages from the root down. -/
theorem messages_record (f : Failure) : f.record.messages = f.within.map message :=
  messages_pushOnto {} (-1) f

/-! ## The messages that are shown -/

mutual

/-- The messages that a text shows, in full or plainly. A plain text shows of failures only those
that were combined, and so does a full text below several failures that were. -/
def shown (inFull : Bool) : Failure → List String
  | mk origin message _ inner =>
    if origin = .multiple then message :: shownAll false inner
    else if inFull then message :: shownAll true inner
    else [message]

def shownAll (inFull : Bool) : List Failure → List String
  | [] => []
  | f :: rest => shown inFull f ++ shownAll inFull rest

end

mutual

theorem shows_display : ∀ f : Failure, ShowsInOrder f.display (f.shown false)
  | mk origin message _ inner => by
    unfold display shown
    split
    · exact (shows_displayAll 1 inner).cons message
    · exact ⟨"", "", by simp, trivial⟩

theorem shows_displayAll (number : Nat) :
    ∀ fs : List Failure, ShowsInOrder (String.join (displayAll number fs)) (shownAll false fs)
  | [] => trivial
  | f :: rest => by
    unfold displayAll shownAll
    rw [String.join_cons]
    exact ((shows_display f).behind _).append (shows_displayAll (number + 1) rest)

end

mutual

/-- The detailed text shows these messages in order. -/
theorem shows_detailed : ∀ f : Failure, ShowsInOrder f.detailed (f.shown true)
  | mk origin message _ inner => by
    unfold detailed shown
    split
    · exact (shows_displayAll 1 inner).cons message
    · exact (shows_detailedAll inner).cons message

theorem shows_detailedAll :
    ∀ fs : List Failure, ShowsInOrder (String.join (detailedAll fs)) (shownAll true fs)
  | [] => trivial
  | f :: rest => by
    unfold detailedAll shownAll
    rw [String.join_cons]
    exact ((shows_detailed f).behind _).append (shows_detailedAll rest)

end

mutual

theorem effs_display : ∀ f : Failure, effs f.display = ((f.shown false).map effs).sum
  | mk origin message _ inner => by
    unfold display shown
    split
    · rw [effs_append, effs_displayAll 1 inner, List.map_cons, List.sum_cons]
    · simp

theorem effs_displayAll (number : Nat) :
    ∀ fs : List Failure, effs (String.join (displayAll number fs)) =
      ((shownAll false fs).map effs).sum
  | [] => rfl
  | f :: rest => by
    have hlead : effs ("\n  " ++ toString number ++ ". ") = 0 := by
      rw [effs_append, effs_append, effs_toString]
      decide
    unfold displayAll shownAll
    rw [String.join_cons, effs_append, effs_append, hlead, effs_display f,
      effs_displayAll (number + 1) rest, List.map_append, List.sum_append, Nat.zero_add]

end

mutual

/-- The detailed text has nothing besides these messages but what stands between them. -/
theorem effs_detailed : ∀ f : Failure, effs f.detailed = ((f.shown true).map effs).sum
  | mk origin message _ inner => by
    unfold detailed shown
    split
    · rw [effs_append, effs_displayAll 1 inner, List.map_cons, List.sum_cons]
    · rw [effs_append, effs_detailedAll inner, if_pos rfl, List.map_cons, List.sum_cons]

theorem effs_detailedAll :
    ∀ fs : List Failure, effs (String.join (detailedAll fs)) = ((shownAll true fs).map effs).sum
  | [] => rfl
  | f :: rest => by
    have hlead : effs "\n  caused by: " = 0 := by decide
    unfold detailedAll shownAll
    rw [String.join_cons, effs_append, effs_append, hlead, effs_detailed f, effs_detailedAll rest,
      List.map_append, List.sum_append, Nat.zero_add]

end

mutual

/-- Nothing is shown that is not in the tree, and the order is that of the tree. -/
theorem shown_sublist (inFull : Bool) :
    ∀ f : Failure, (f.shown inFull).Sublist (f.within.map message)
  | mk origin message _ inner => by
    unfold shown within
    rw [List.map_cons]
    split
    · exact (shownAll_sublist false inner).cons_cons _
    · split
      · exact (shownAll_sublist true inner).cons_cons _
      · exact (List.nil_sublist _).cons_cons _

theorem shownAll_sublist (inFull : Bool) :
    ∀ fs : List Failure, (shownAll inFull fs).Sublist ((withinAll fs).map message)
  | [] => List.Sublist.refl _
  | f :: rest => by
    unfold shownAll withinAll
    rw [List.map_append]
    exact (shown_sublist inFull f).append (shownAll_sublist inFull rest)

end

theorem length_shown_le (inFull : Bool) (f : Failure) :
    (f.shown inFull).length ≤ f.within.length := by
  rw [← List.length_map (f := message)]
  exact (shown_sublist inFull f).length_le

theorem length_shownAll_le (inFull : Bool) (fs : List Failure) :
    (shownAll inFull fs).length ≤ (withinAll fs).length := by
  rw [← List.length_map (f := message)]
  exact (shownAll_sublist inFull fs).length_le

/-! ## When all of them are shown -/

/-- Nothing is behind the failure, or it was combined from those that are. -/
def Plain (f : Failure) : Prop := f.origin = .multiple ∨ f.inner = []

/-- If the failure was combined, then from plain ones. -/
def Overt (f : Failure) : Prop := f.origin = .multiple → ∀ g ∈ f.inner, g.Plain

mutual

/-- All messages are shown if what was combined is plain; in a plain text the failure itself has to
be plain as well. -/
theorem length_shown_eq_iff (inFull : Bool) :
    ∀ f : Failure, (f.shown inFull).length = f.within.length ↔
      (∀ c ∈ f.within, c.Overt) ∧ (inFull = false → f.Plain)
  | mk origin message stackTrace inner => by
    unfold shown within
    rw [List.forall_mem_cons]
    by_cases horigin : origin = .multiple
    · have hplain : (mk origin message stackTrace inner).Plain := .inl horigin
      have hovert : (mk origin message stackTrace inner).Overt ↔ ∀ g ∈ inner, g.Plain :=
        ⟨fun h => h horigin, fun h _ => h⟩
      have hinner := length_shownAll_eq_iff false inner
      rw [if_pos horigin, List.length_cons, List.length_cons, Nat.add_right_cancel_iff, hinner,
        hovert]
      exact ⟨fun ⟨h, h'⟩ => ⟨⟨h' rfl, h⟩, fun _ => hplain⟩, fun ⟨⟨h, h'⟩, _⟩ => ⟨h', fun _ => h⟩⟩
    · have hovert : (mk origin message stackTrace inner).Overt := fun h => absurd h horigin
      have hinner := length_shownAll_eq_iff true inner
      rw [if_neg horigin]
      cases inFull with
      | true =>
        rw [if_pos rfl, List.length_cons, List.length_cons, Nat.add_right_cancel_iff, hinner]
        exact ⟨fun ⟨h, _⟩ => ⟨⟨hovert, h⟩, nofun⟩, fun ⟨⟨_, h⟩, _⟩ => ⟨h, nofun⟩⟩
      | false =>
        have hplain : (mk origin message stackTrace inner).Plain ↔ inner = [] :=
          ⟨fun h => h.resolve_left horigin, .inr⟩
        rw [if_neg Bool.false_ne_true, List.length_cons, List.length_cons,
          Nat.add_right_cancel_iff, hplain]
        constructor
        · intro h
          have hnil : inner = [] := withinAll_eq_nil_iff.mp (List.length_eq_zero_iff.mp h.symm)
          subst hnil
          exact ⟨⟨hovert, nofun⟩, fun _ => rfl⟩
        · rintro ⟨-, h⟩
          rw [h rfl]
          rfl

theorem length_shownAll_eq_iff (inFull : Bool) :
    ∀ fs : List Failure, (shownAll inFull fs).length = (withinAll fs).length ↔
      (∀ c ∈ withinAll fs, c.Overt) ∧ (inFull = false → ∀ g ∈ fs, g.Plain)
  | [] => ⟨fun _ => ⟨nofun, fun _ => nofun⟩, fun _ => rfl⟩
  | f :: rest => by
    have hfirst := length_shown_eq_iff inFull f
    have hrest := length_shownAll_eq_iff inFull rest
    have hle := length_shown_le inFull f
    have hle' := length_shownAll_le inFull rest
    have hboth : (shownAll inFull (f :: rest)).length = (withinAll (f :: rest)).length ↔
        (f.shown inFull).length = f.within.length ∧
          (shownAll inFull rest).length = (withinAll rest).length := by
      rw [shownAll, withinAll, List.length_append, List.length_append]
      omega
    rw [hboth, hfirst, hrest]
    simp only [withinAll, List.mem_append, List.forall_mem_cons]
    exact ⟨fun ⟨⟨h₁, h₂⟩, h₃, h₄⟩ => ⟨fun c hc => hc.elim (h₁ c) (h₃ c), fun h => ⟨h₂ h, h₄ h⟩⟩,
      fun ⟨h₁, h₂⟩ => ⟨⟨fun c hc => h₁ c (.inl hc), fun h => (h₂ h).1⟩,
        fun c hc => h₁ c (.inr hc), fun h => (h₂ h).2⟩⟩

end

/-- Where what was combined is plain, all messages are shown. -/
theorem shown_eq_of_overt {f : Failure} (h : ∀ c ∈ f.within, c.Overt) :
    f.shown true = f.record.messages := by
  have hlength := (length_shown_eq_iff true f).mpr ⟨h, nofun⟩
  rw [← List.length_map (f := message)] at hlength
  rw [messages_record]
  exact (shown_sublist true f).eq_of_length hlength

/-! ## Other words -/

mutual

/-- The failure with other messages. How many failures were combined is told as before. -/
def reworded (words : String → String) : Failure → Failure
  | mk origin message stackTrace inner =>
    mk origin (if origin = .multiple then message else words message) stackTrace
      (rewordedAll words inner)

def rewordedAll (words : String → String) : List Failure → List Failure
  | [] => []
  | f :: rest => reworded words f :: rewordedAll words rest

end

section Reworded

variable (words : String → String)

theorem origin_reworded (f : Failure) : (f.reworded words).origin = f.origin := by
  cases f
  rfl

theorem rewordedAll_eq_map (fs : List Failure) :
    rewordedAll words fs = fs.map (reworded words) := by
  induction fs with
  | nil => rfl
  | cons f rest ih => rw [rewordedAll, ih, List.map_cons]

theorem inner_reworded (f : Failure) :
    (f.reworded words).inner = f.inner.map (reworded words) := by
  cases f
  exact rewordedAll_eq_map words _

mutual

theorem within_reworded : ∀ f : Failure, (f.reworded words).within = f.within.map (reworded words)
  | mk origin message stackTrace inner => by
    unfold reworded within
    rw [withinAll_rewordedAll inner, List.map_cons]
    rfl

theorem withinAll_rewordedAll :
    ∀ fs : List Failure, withinAll (rewordedAll words fs) = (withinAll fs).map (reworded words)
  | [] => rfl
  | f :: rest => by
    unfold rewordedAll withinAll
    rw [within_reworded f, withinAll_rewordedAll rest, List.map_append]

end

theorem plain_reworded {f : Failure} : (f.reworded words).Plain ↔ f.Plain := by
  unfold Plain
  rw [origin_reworded, inner_reworded, List.map_eq_nil_iff]

theorem overt_reworded {f : Failure} : (f.reworded words).Overt ↔ f.Overt := by
  unfold Overt
  rw [origin_reworded, inner_reworded]
  simp only [List.forall_mem_map, plain_reworded]

/-- What is shown does not depend on the words. -/
theorem forall_overt_reworded {f : Failure} :
    (∀ c ∈ (f.reworded words).within, c.Overt) ↔ ∀ c ∈ f.within, c.Overt := by
  rw [within_reworded]
  simp only [List.forall_mem_map, overt_reworded]

end Reworded

/-! ## Failures that are built -/

/-- The failures that can be made. -/
inductive Built : Failure → Prop where
  | error (typeName message : String) (sources : List String) :
    Built (ofError typeName message sources)
  | typed (typeName message : String) : Built (typed typeName message)
  | message (message : String) : Built (ofMessage message)
  | panic (payload : Payload) : Built (ofPanic payload)
  | combine {fs : List Failure} (h : ∀ f ∈ fs, Built f) : Built (combine fs)
  | withInner {f g : Failure} (hf : Built f) (hg : Built g) : Built (f.withInner g)

/-- The message of failures that were combined tells their number. -/
def TellsNumber (f : Failure) : Prop :=
  f.origin = .multiple → ∃ n : Nat, f.message = toString n ++ " failures occurred"

theorem tellsNumber_chain (sources : List String) :
    ∀ c ∈ withinAll (chain sources), c.TellsNumber := by
  induction sources with
  | nil => exact nofun
  | cons m rest ih =>
    rw [chain, withinAll, within, withinAll, List.append_nil, List.forall_mem_cons]
    exact ⟨nofun, ih⟩

theorem mem_withinAll {fs : List Failure} {c : Failure} (h : c ∈ withinAll fs) :
    ∃ f ∈ fs, c ∈ f.within := by
  induction fs with
  | nil => exact absurd h List.not_mem_nil
  | cons f rest ih =>
    rcases List.mem_append.mp h with h | h
    · exact ⟨f, List.mem_cons_self, h⟩
    · obtain ⟨g, hg, h⟩ := ih h
      exact ⟨g, List.mem_cons_of_mem _ hg, h⟩

theorem Built.tellsNumber {f : Failure} (h : f.Built) : ∀ c ∈ f.within, c.TellsNumber := by
  induction h with
  | error typeName message sources =>
    unfold ofError within
    exact List.forall_mem_cons.mpr ⟨nofun, tellsNumber_chain sources⟩
  | typed | message | panic => exact List.forall_mem_singleton.mpr nofun
  | @combine fs _ ih =>
    have hall : ∀ c ∈ withinAll fs, c.TellsNumber := fun c hc => by
      obtain ⟨f, hf, hc⟩ := mem_withinAll hc
      exact ih f hf c hc
    unfold Failure.combine
    split
    · exact ih _ (List.mem_singleton.mpr rfl)
    · unfold within
      exact List.forall_mem_cons.mpr ⟨fun _ => ⟨fs.length, rfl⟩, hall⟩
  | @withInner f g _ _ ihf ihg =>
    obtain ⟨origin, message, stackTrace, inner⟩ := f
    unfold within at ihf
    obtain ⟨hroot, hinner⟩ := List.forall_mem_cons.mp ihf
    unfold Failure.withInner within
    refine List.forall_mem_cons.mpr ⟨hroot, fun c hc => ?_⟩
    rw [Failure.inner, withinAll_append] at hc
    rcases List.mem_append.mp hc with hc | hc
    · exact hinner c hc
    · obtain ⟨g', hg', hc⟩ := mem_withinAll hc
      cases List.mem_singleton.mp hg'
      exact ihg c hc

/-! ## Nothing is left out -/

/-- If all errors and panics say "f", then each message has the letter once. -/
theorem effs_message_reworded {f : Failure} (h : ∀ c ∈ f.within, c.TellsNumber) :
    ∀ m ∈ (f.reworded fun _ => "f").within.map message, effs m = 1 := by
  rw [within_reworded, List.map_map, List.forall_mem_map]
  intro c hc
  have hnumber := h c hc
  obtain ⟨origin, message, stackTrace, inner⟩ := c
  show effs (if origin = .multiple then message else "f") = 1
  split
  · rename_i horigin
    obtain ⟨n, hn⟩ := hnumber horigin
    have hword : effs " failures occurred" = 1 := by decide
    show effs message = 1
    rw [show message = _ from hn, effs_append, effs_toString, hword]
  · decide

theorem sum_effs_eq_length {ms : List String} (h : ∀ m ∈ ms, effs m = 1) :
    (ms.map effs).sum = ms.length := by
  rw [List.map_congr_left h, List.map_const', List.sum_replicate_nat, Nat.mul_one]

/-- A failure of which something is left out shows it, if all errors and panics say "f". -/
theorem overt_of_shows {f : Failure} (h : ∀ c ∈ f.within, c.TellsNumber)
    (hshows : ShowsInOrder (f.reworded fun _ => "f").detailed
      (f.reworded fun _ => "f").record.messages) : ∀ c ∈ f.within, c.Overt := by
  have hone := effs_message_reworded h
  have hsub := shown_sublist true (f.reworded fun _ => "f")
  have hle := hshows.sum_effs_le
  rw [messages_record, effs_detailed, sum_effs_eq_length hone,
    sum_effs_eq_length fun m hm => hone m (hsub.subset hm), List.length_map] at hle
  have hlength := Nat.le_antisymm (length_shown_le true _) hle
  exact (forall_overt_reworded _).mp ((length_shown_eq_iff true _).mp hlength).1

/-- **The detailed text shows messages in the order of the record.** It shows **all of them**,
whatever the errors and panics say, **if and only if each failure that was combined has nothing
behind it or was combined itself**. -/
theorem shows_detailed_iff {f : Failure} (h : f.Built) :
    ShowsInOrder f.detailed (f.shown true) ∧ (f.shown true).Sublist f.record.messages ∧
      ((∀ words, ShowsInOrder (f.reworded words).detailed (f.reworded words).record.messages) ↔
        ∀ c ∈ f.within, c.Overt) := by
  refine ⟨shows_detailed f, ?_, fun hall => ?_, fun hovert words => ?_⟩
  · rw [messages_record]
    exact shown_sublist true f
  · exact overt_of_shows h.tellsNumber (hall fun _ => "f")
  · rw [← shown_eq_of_overt ((forall_overt_reworded words).mpr hovert)]
    exact shows_detailed (f.reworded words)

/-- The leak behind the ship that sank is not shown, nor is the hunger behind the mutiny. -/
theorem shows_detailed_iff_wreck :
    wreck.Built ∧ ShowsInOrder wreck.detailed ["2 failures occurred", "sank", "mutiny"] ∧
      ¬∀ words, ShowsInOrder (wreck.reworded words).detailed
        (wreck.reworded words).record.messages := by
  have hmutiny : ((ofPanic (.text "mutiny")).withInner (ofMessage "hunger")).Built :=
    .withInner (.panic _) (.message _)
  have hbuilt : wreck.Built := .combine
    (List.forall_mem_cons.mpr ⟨.error _ _ _, List.forall_mem_singleton.mpr hmutiny⟩)
  obtain ⟨hshows, -, hiff⟩ := shows_detailed_iff hbuilt
  refine ⟨hbuilt, hshows, fun hall => ?_⟩
  have hroot := hiff.mp hall wreck List.mem_cons_self
  rcases hroot rfl _ List.mem_cons_self with h | h <;> cases h

/-- An error with a cause, and another error. -/
def outage : Failure :=
  combine [ofError "Store" "opening the database failed" ["disk is full"], ofMessage "no network"]

/-- **The cause of an error that was combined with another one is not shown.** -/
theorem outage_not_shown :
    outage.Built ∧ ¬ShowsInOrder outage.detailed outage.record.messages := by
  have hbuilt : outage.Built := .combine
    (List.forall_mem_cons.mpr ⟨.error _ _ _, List.forall_mem_singleton.mpr (.message _)⟩)
  refine ⟨hbuilt, fun h => ?_⟩
  -- three of the messages have the letter f, and so do two lines of the text
  have hle := h.sum_effs_le
  rw [messages_record] at hle
  exact absurd hle (by decide)

end Failure

end TestEngine
