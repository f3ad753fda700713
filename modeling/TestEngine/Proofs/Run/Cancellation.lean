import TestEngine.Proofs.Run.Blocks
import TestEngine.Proofs.Run.SerialRun

/-!
# Cancellation

A run learns from the answers to its messages that it is to stop. What it makes of that is in the
steps it goes through; what the answers are depends on the messages that are handled.

* `Obeys.not_starting_after` — after a message of the engine that was answered with stop, no node
  starts.
* `answerFits_of_fits` — each answer is as it should be.
* `AnswerFits.eq_false_of_handled`, `AnswerFits.eq_false_of_failure` — the answers that are certain.
-/

namespace TestEngine

open Process (reported)
open Delivery

variable {σ : Type} {t : Transport σ} {s : σ}

/-! ## Places in a list -/

section Places

variable {α : Type} {xs ys before after : List α} {a : α}

/-- A place in two lists in a row is in one of them. -/
theorem split_of_append_eq (h : xs ++ ys = before ++ a :: after) :
    (∃ zs, xs = before ++ a :: zs ∧ after = zs ++ ys) ∨
      ∃ zs, before = xs ++ zs ∧ ys = zs ++ a :: after := by
  rcases List.append_eq_append_iff.mp h with ⟨zs, hbefore, hys⟩ | ⟨zs, hxs, hafter⟩
  · exact .inr ⟨zs, hbefore, hys⟩
  · cases zs with
    | nil =>
      rw [List.append_nil] at hxs
      exact .inr ⟨[], by rw [hxs, List.append_nil], hafter.symm⟩
    | cons z zs =>
      obtain ⟨rfl, hrest⟩ := List.cons.inj hafter
      exact .inl ⟨zs, hxs, hrest⟩

end Places

/-- A message was queued at some place. -/
theorem exists_split_of_mem_messages {os : List Occurrence} {m : Message} (h : m ∈ messages os) :
    ∃ x b y, os = x ++ .queued m b :: y := by
  obtain ⟨o, ho, hm⟩ := List.mem_filterMap.mp h
  cases o with
  | handed _ => cases hm
  | activity _ => cases hm
  | queued m' b =>
    cases hm
    obtain ⟨x, y, rfl⟩ := List.append_of_mem ho
    exact ⟨x, b, y, rfl⟩

/-- No message among some occurrences has an event that satisfies `p`. -/
def NoMessage (p : Event → Bool) (os : List Occurrence) : Prop :=
  ∀ m ∈ messages os, p m.event = false

namespace NoMessage

variable {p : Event → Bool} {os ps : List Occurrence}

theorem nil : NoMessage p [] := by
  intro m hm
  cases hm

theorem append_iff : NoMessage p (os ++ ps) ↔ NoMessage p os ∧ NoMessage p ps := by
  unfold NoMessage
  rw [messages_append]
  exact List.forall_mem_append

theorem queued_iff {m : Message} {b : Bool} :
    NoMessage p (.queued m b :: os) ↔ p m.event = false ∧ NoMessage p os :=
  List.forall_mem_cons

theorem countP_eq_zero (h : NoMessage p os) : (messages os).countP (fun m => p m.event) = 0 :=
  List.countP_eq_zero.mpr fun m hm => by rw [h m hm]; exact nofun

theorem isResult_iff : NoMessage Event.isResult os ↔ results (messages os) = [] := by
  unfold NoMessage results
  rw [List.filter_eq_nil_iff]
  simp only [Bool.not_eq_true]

/-- Either no message satisfies `p`, or there is a first one. -/
theorem or_exists_first (p : Event → Bool) (os : List Occurrence) :
    NoMessage p os ∨ ∃ x m b y, os = x ++ .queued m b :: y ∧ p m.event = true ∧ NoMessage p x := by
  induction os with
  | nil => exact .inl nil
  | cons o os ih =>
    cases o with
    | handed _ | activity _ =>
      rcases ih with ih | ⟨x, m, b, y, rfl, hm, hx⟩
      · exact .inl ih
      · exact .inr ⟨_ :: x, m, b, y, rfl, hm, hx⟩
    | queued m b =>
      cases hm : p m.event with
      | true => exact .inr ⟨[], m, b, os, rfl, hm, nil⟩
      | false =>
        rcases ih with ih | ⟨x, m', b', y, rfl, hm', hx⟩
        · exact .inl (queued_iff.mpr ⟨hm, ih⟩)
        · exact .inr ⟨.queued m b :: x, m', b', y, rfl, hm', queued_iff.mpr ⟨hm, hx⟩⟩

/-- At most one message satisfies `p` if none does after one that does. -/
theorem countP_le_one (h : ∀ x m b y, os = x ++ .queued m b :: y → p m.event = true →
    NoMessage p y) : (messages os).countP (fun m => p m.event) ≤ 1 := by
  rcases or_exists_first p os with hnone | ⟨x, m, b, y, rfl, hm, hx⟩
  · exact Nat.le_trans (Nat.le_of_eq hnone.countP_eq_zero) (Nat.zero_le 1)
  · have hsplit : messages (x ++ .queued m b :: y) = messages x ++ m :: messages y :=
      messages_append x _
    have hbefore := hx.countP_eq_zero
    have hafter := (h x m b y rfl hm).countP_eq_zero
    rw [hsplit, List.countP_append, List.countP_cons, if_pos hm]
    omega

end NoMessage

/-! ## What a cancelled run does -/

namespace Obeys

variable {c : Bool} {as : List Action} {before : List Message}

/-- No node starts in a run that is cancelled. -/
theorem not_starting (h : Obeys c as) (hfits : Fits t s before c as) (hc : c = true) :
    NoMessage Event.isStarting (visible as) := by
  induction h generalizing before with
  | nil => exact .nil
  | @report c b m as hm _ ih =>
    rw [fits_append, cancelledAfter_reported] at hfits
    have hrest := ih hfits.2 (by rw [hc]; rfl)
    rw [visible_append, visible_reported]
    refine NoMessage.queued_iff.mpr ⟨?_, hrest⟩
    cases hstarting : m.event.isStarting with
    | false => rfl
    | true =>
      rw [hm hstarting] at hc
      cases hc
  | diagnostic _ ih => exact NoMessage.queued_iff.mpr ⟨rfl, ih hfits.2 hc⟩
  | asked _ ih => exact ih hfits.1 hfits.2 hc
  | activity _ ih => exact ih hfits hc

/-- **Once the engine was told to stop, no node starts**: it learns of that from the answer to any
of its own messages. -/
theorem not_starting_after (h : Obeys c as) (hfits : Fits t s before c as) {x y : List Occurrence}
    {m : Message} (hvisible : visible as = x ++ .queued m false :: y)
    (hm : m.event.isDiagnostic = false) : NoMessage Event.isStarting y := by
  induction h generalizing before x with
  | nil c =>
    have hlen := congrArg List.length hvisible
    simp [visible] at hlen
  | @report c b m₁ as _ hobeys ih =>
    rw [fits_append, cancelledAfter_reported] at hfits
    rw [visible_append, visible_reported, List.singleton_append] at hvisible
    cases x with
    | nil =>
      obtain ⟨hfirst, rfl⟩ := List.cons.inj hvisible
      cases hfirst
      exact hobeys.not_starting hfits.2 (Bool.or_true c)
    | cons o x => exact ih hfits.2 (List.cons.inj hvisible).2
  | diagnostic _ ih =>
    cases x with
    | nil =>
      obtain ⟨hfirst, rfl⟩ := List.cons.inj hvisible
      cases hfirst
      cases hm
    | cons o x => exact ih hfits.2 (List.cons.inj hvisible).2
  | asked _ ih => exact ih hfits.1 hfits.2 hvisible
  | activity _ ih =>
    cases x with
    | nil => cases (List.cons.inj hvisible).1
    | cons o x => exact ih hfits (List.cons.inj hvisible).2

end Obeys

/-! ## Which answers are certain -/

/-- Whether a run is to stop once some messages are handled. -/
def stoppedBy (t : Transport σ) (s : σ) (ms : List Message) : Bool :=
  (deliverAll t.sink t.stopOnFail ms { sink := s }).stopped

/-- The wish to stop is never taken back. -/
theorem stoppedBy_append {ms : List Message} (h : stoppedBy t s ms = true) (ns : List Message) :
    stoppedBy t s (ms ++ ns) = true := by
  unfold stoppedBy
  rw [deliverAll_append]
  exact stopped_deliverAll_of_stopped h

/-- A failed test stops a run that stops at failures. -/
theorem stoppedBy_of_failure (hstop : t.stopOnFail = true) {ms : List Message} {m : Message}
    (hm : m ∈ ms) (hfailed : m.event.isTestFailure = true) : stoppedBy t s ms = true := by
  unfold stoppedBy
  rw [hstop]
  exact stopped_deliverAll_of_failure hm hfailed _

/-- Each answer is as it should be. -/
theorem answerFits_of_fits {as : List Action} {before : List Message} {c : Bool}
    (hfits : Fits t s before c as) {x y : List Occurrence} {m : Message} {b : Bool}
    (hvisible : visible as = x ++ .queued m b :: y) :
    AnswerFits t s (before ++ messages x) m b := by
  induction as generalizing before c x with
  | nil =>
    have hlen := congrArg List.length hvisible
    simp [visible] at hlen
  | cons a as ih =>
    cases a with
    | queued m₁ b₁ =>
      have hcons : Occurrence.queued m₁ b₁ :: visible as = x ++ .queued m b :: y := hvisible
      cases x with
      | nil =>
        cases (List.cons.inj hcons).1
        have hnil : messages [] = [] := rfl
        rw [hnil, List.append_nil]
        exact hfits.1
      | cons o x =>
        obtain ⟨rfl, hrest⟩ := List.cons.inj hcons
        have h := ih hfits.2 hrest
        rwa [List.append_assoc] at h
    | cancelled => exact ih (c := true) hfits hvisible
    | asked answer => exact ih (c := c) hfits.2 hvisible
    | activity entry =>
      have hcons : Occurrence.activity entry :: visible as = x ++ .queued m b :: y := hvisible
      cases x with
      | nil => cases (List.cons.inj hcons).1
      | cons o x =>
        obtain ⟨rfl, hrest⟩ := List.cons.inj hcons
        exact ih (c := c) (x := x) hfits hrest

namespace AnswerFits

variable {before : List Message} {m : Message} {b : Bool}

/-- A message is answered with stop when it was handled and the run is to stop. -/
theorem eq_false_of_handled (h : AnswerFits t s before m b)
    (hwait : t.kind = .synchronous ∨ m.event.isStarting = true)
    (hstopped : stoppedBy t s (before ++ [m]) = true) : b = false := by
  obtain ⟨handled, hhandled, rfl⟩ := h
  have hall : (before ++ [m]).take handled = before ++ [m] := by
    rw [hhandled hwait]
    exact List.take_of_length_le (by simp)
  unfold stoppedBy at hstopped
  rw [hall, hstopped]
  rfl

/-- A failed test is answered with stop on either kind of bus, if it stops the run. -/
theorem eq_false_of_failure (h : AnswerFits t s before m b) (hstop : t.stopOnFail = true)
    (hfailed : m.event.isTestFailure = true) : b = false := by
  cases hk : t.kind with
  | synchronous =>
    exact h.eq_false_of_handled (.inl hk)
      (stoppedBy_of_failure hstop (List.mem_append_right _ (List.mem_singleton_self m)) hfailed)
  | asynchronous =>
    obtain ⟨handled, -, rfl⟩ := h
    simp [Transport.noted, hk, hstop, hfailed]

end AnswerFits

end TestEngine
