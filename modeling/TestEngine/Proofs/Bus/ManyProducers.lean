import TestEngine.Bus.Traffic
import TestEngine.Proofs.Bus.Deliveries
import TestEngine.Proofs.Histories

/-!
# Many producers

Any number of producers queue messages on the asynchronous bus, while its dispatcher is late by any
number of messages and somebody shuts the bus down. What one step keeps is `Traffic.Sound`: how the
channel, the calls in flight and the wish to stop stand to the history. Every event obeys a law that
speaks of nothing but the events before it.

* `EventLaw` — what is known when something happens on a bus.
* `Traffic.sound_after` — every interleaving is sound.
* `Traffic.exists_idle` — every interleaving can go on until all calls have returned.
* `Traffic.isOrderly` — what producers, the sink and whoever shuts the bus down can rely on.
-/

namespace TestEngine

open Delivery

variable {σ : Type}

/-! ## What a history tells -/

/-- The messages that went into the channel, in order. -/
def sentMessages (h : List BusEvent) : List Message :=
  h.filterMap fun
    | .sent _ m => some m
    | _ => none

/-- The messages that were delivered, in order. -/
def deliveredMessages (h : List BusEvent) : List Message :=
  h.filterMap fun
    | .delivered m _ => some m
    | _ => none

/-- The calls of the sink, in order. -/
def sinkCalls (h : List BusEvent) : List Call :=
  h.flatMap fun
    | .delivered _ calls => calls
    | _ => []

/-- The producer that made an event. -/
def BusEvent.producer? : BusEvent → Option Nat
  | .entered p _ => some p
  | .refused p _ => some p
  | .sent p _ => some p
  | .returned p _ _ => some p
  | _ => none

/-- The call that an event begins. -/
def BusEvent.entered? : BusEvent → Option (Nat × Message)
  | .entered p m => some (p, m)
  | _ => none

/-- The turn begins a call. -/
def BusTurn.begins : BusTurn → Bool
  | .enter .. => true
  | .shutdown => true
  | _ => false

section Append

variable (h k : List BusEvent)

@[simp] theorem sentMessages_append :
    sentMessages (h ++ k) = sentMessages h ++ sentMessages k := List.filterMap_append

@[simp] theorem deliveredMessages_append :
    deliveredMessages (h ++ k) = deliveredMessages h ++ deliveredMessages k :=
  List.filterMap_append

@[simp] theorem sinkCalls_append : sinkCalls (h ++ k) = sinkCalls h ++ sinkCalls k :=
  List.flatMap_append

end Append

/-- The message was sent by the call that the producer is in, after `ticket` others. -/
def SentLast (h : List BusEvent) (producer : Nat) (m : Message) (ticket : Nat) : Prop :=
  ∃ past later, h = past ++ .sent producer m :: later ∧ (sentMessages past).length = ticket ∧
    ∀ e ∈ later, e.producer? ≠ some producer

/-- What others do does not matter to the call of a producer. -/
theorem SentLast.append {h es : List BusEvent} {producer ticket : Nat} {m : Message}
    (hs : SentLast h producer m ticket) (hes : ∀ e ∈ es, e.producer? ≠ some producer) :
    SentLast (h ++ es) producer m ticket := by
  obtain ⟨past, later, rfl, hticket, hlater⟩ := hs
  exact ⟨past, later ++ es, by simp, hticket, List.forall_mem_append.mpr ⟨hlater, hes⟩⟩

/-! ## The law of an event -/

/-- How a message was handed to the sink: by one call, or by two if the sink panicked. The second
one reports the panic, and names the same assembly. -/
def HandedOver (m : Message) (calls : List Call) : Prop :=
  (∃ answer, (∀ payload, answer ≠ .panic payload) ∧ calls = [⟨m, answer⟩]) ∨
    ∃ payload report answer, calls = [⟨m, .panic payload⟩, ⟨report, answer⟩] ∧
      report.ids = { assembly := m.ids.assembly } ∧
      report.event = .error (Failure.ofPanic payload).record

theorem handedOver_deliver (sink : Sink σ) (stopOnFail : Bool) (m : Message) (d : Delivery σ) :
    HandedOver m (d.deliver sink stopOnFail m).2 := by
  simp only [deliver]
  split
  · next payload _ => exact .inr ⟨payload, panicReport m payload, _, rfl, rfl, rfl⟩
  · next hne => exact .inl ⟨_, hne, rfl⟩

section Law

variable (sink : Sink σ) (stopOnFail : Bool) (s : σ)

/-- Handling the messages `ms` one after the other stops a run. -/
def StoppedAfter (ms : List Message) : Prop :=
  (deliverAll sink stopOnFail ms { sink := s }).stopped = true

/-- What is known when the call that queued the message `m` returns, after the events `before`. -/
def ReturnLaw (before : List BusEvent) (producer : Nat) (m : Message) (goesOn : Bool) : Prop :=
  ∃ past later, before = past ++ .sent producer m :: later ∧
    (∀ e ∈ later, e.producer? ≠ some producer) ∧
    -- a node that starts is answered once its message and all before it were handled
    (m.event.isStarting = true → sentMessages past ++ [m] <+: deliveredMessages before ∧
      (StoppedAfter sink stopOnFail s (sentMessages past ++ [m]) → goesOn = false)) ∧
    (stopOnFail = true → m.event.isTestFailure = true → goesOn = false) ∧
    (StoppedAfter sink stopOnFail s (deliveredMessages before) → goesOn = false) ∧
    (goesOn = false → StoppedAfter sink stopOnFail s (deliveredMessages before) ∨
      stopOnFail = true ∧ ∃ p failure, .entered p failure ∈ before ∧
        failure.event.isTestFailure = true)

/-- What is known when something happens after the events `before`. -/
def EventLaw (before : List BusEvent) : BusEvent → Prop
  | .entered .. => .closed ∉ before
  | .refused .. => .closed ∈ before
  | .sent producer m => .closed ∉ before ∧ .entered producer m ∈ before
  | .delivered m calls =>
    (sentMessages before)[(deliveredMessages before).length]? = some m ∧ HandedOver m calls
  | .returned producer m goesOn =>
    .closed ∉ before ∧ ReturnLaw sink stopOnFail s before producer m goesOn
  | .closed => .closed ∉ before
  | .shutDown => .closed ∈ before ∧ deliveredMessages before = sentMessages before
  | .shutdownRefused => .closed ∈ before

/-- Every event of a history obeys the law. -/
def Lawful (h : List BusEvent) : Prop :=
  ∀ before e after, h = before ++ e :: after → EventLaw sink stopOnFail s before e

end Law

variable {sink : Sink σ} {stopOnFail : Bool} {s : σ}

theorem Lawful.snoc {h : List BusEvent} {e : BusEvent} (hl : Lawful sink stopOnFail s h)
    (he : EventLaw sink stopOnFail s h e) : Lawful sink stopOnFail s (h ++ [e]) :=
  KeepsLaw.snoc hl he

/-- A message that went into the channel was queued by a call. -/
theorem Lawful.exists_entered {h : List BusEvent} {m : Message}
    (hl : Lawful sink stopOnFail s h) (hm : m ∈ sentMessages h) :
    ∃ producer, .entered producer m ∈ h := by
  obtain ⟨e, he, heq⟩ := List.mem_filterMap.mp hm
  obtain ⟨before, after, rfl⟩ := List.append_of_mem he
  have hlaw := hl before e after rfl
  cases e with
  | sent producer m' =>
    cases heq
    exact ⟨producer, List.mem_append_left _ hlaw.2⟩
  | _ => cases heq

/-! ## What every step keeps -/

namespace Traffic

/-- The message was noted: it was sent, or its call is about to send it. -/
def Noted (t : Traffic σ) (m : Message) : Prop :=
  m ∈ sentMessages t.history ∨ ∃ p, t.inFlight.lookup p = some ⟨m, .noted⟩

/-- What is in the channel, what the sink was handed and whether the run is to stop follow from the
messages that were sent and noted. -/
structure Tracked (sink : Sink σ) (stopOnFail : Bool) (s : σ) (t : Traffic σ) : Prop where
  tracks : ∃ noted, t.bus.Tracks sink stopOnFail s (sentMessages t.history) noted
    (sinkCalls t.history) ∧ ∀ m, m ∈ noted ↔ t.Noted m
  delivered_eq : deliveredMessages t.history = (sentMessages t.history).take t.bus.handled

/-- A call is in flight from the time it was entered until it returns. -/
structure CallsKept (t : Traffic σ) : Prop where
  entered : ∀ p call, t.inFlight.lookup p = some call → .entered p call.message ∈ t.history
  sentLast : ∀ p m ticket, t.inFlight.lookup p = some ⟨m, .sent ticket⟩ →
    SentLast t.history p m ticket
  returns : ∀ past p m later, t.history = past ++ .entered p m :: later →
    (∃ goesOn, .returned p m goesOn ∈ later) ∨ ∃ stage, t.inFlight.lookup p = some ⟨m, stage⟩

/-- A bus is closed once, by a shutdown that begins when no call is in flight. -/
structure ShutdownKept (t : Traffic σ) : Prop where
  closed_iff : t.bus.closed = true ↔ .closed ∈ t.history
  idle : t.bus.closed = true → t.inFlight = []
  closing : t.closing = true → t.bus.closed = true
  ended : t.bus.closed = true → t.closing = true ∨ .shutDown ∈ t.history

/-- How the state of the traffic stands to its history. -/
structure Sound (sink : Sink σ) (stopOnFail : Bool) (s : σ) (t : Traffic σ) : Prop extends
    Tracked sink stopOnFail s t, CallsKept t, ShutdownKept t where
  lawful : Lawful sink stopOnFail s t.history

variable {t : Traffic σ} {p ticket : Nat} {m : Message}

theorem tracked_start (sink : Sink σ) (stopOnFail : Bool) (s : σ) :
    Tracked sink stopOnFail s (start s) where
  tracks := by
    refine ⟨[], .new s, fun m => ⟨nofun, ?_⟩⟩
    rintro (hm | ⟨p, hp⟩)
    · cases hm
    · cases hp
  delivered_eq := rfl

theorem sound_start (sink : Sink σ) (stopOnFail : Bool) (s : σ) :
    Sound sink stopOnFail s (start s) where
  toTracked := tracked_start sink stopOnFail s
  entered := by
    intro p call hp
    cases hp
  sentLast := by
    intro p m ticket hp
    cases hp
  returns := by
    intro past p m later h
    exact absurd h.symm (by simp [start])
  closed_iff := ⟨nofun, fun h => absurd h List.not_mem_nil⟩
  idle := nofun
  closing := nofun
  ended := nofun
  lawful := by
    intro before e after h
    exact absurd h.symm (by simp [start])

/-! ### What is known of the state -/

/-- The run is to stop because of what was delivered, or because of a failed test that was noted. -/
theorem Tracked.goesOn_eq_false_iff (h : Tracked sink stopOnFail s t) :
    t.bus.goesOn = false ↔ StoppedAfter sink stopOnFail s (deliveredMessages t.history) ∨
      stopOnFail = true ∧ ∃ m, t.Noted m ∧ m.event.isTestFailure = true := by
  obtain ⟨noted, ht, hnoted⟩ := h.tracks
  rw [AsynchronousBus.goesOn, ht.stopped_eq, StoppedAfter, h.delivered_eq]
  simp only [Bool.not_eq_false', Bool.or_eq_true, Bool.and_eq_true, List.any_eq_true, hnoted]

/-- The messages that were delivered are the first of those that were sent. -/
theorem Tracked.isPrefix_delivered (h : Tracked sink stopOnFail s t) :
    deliveredMessages t.history <+: sentMessages t.history := by
  rw [h.delivered_eq]
  exact List.take_prefix _ _

theorem Tracked.length_delivered (h : Tracked sink stopOnFail s t) :
    (deliveredMessages t.history).length = t.bus.handled := by
  obtain ⟨noted, ht, -⟩ := h.tracks
  rw [h.delivered_eq, List.length_take, Nat.min_eq_left ht.handled_le]

theorem Tracked.sinkCalls_eq (h : Tracked sink stopOnFail s t) : sinkCalls t.history =
    callsAll sink stopOnFail (deliveredMessages t.history) { sink := s } := by
  obtain ⟨noted, ht, -⟩ := h.tracks
  rw [ht.calls_eq, h.delivered_eq]

theorem Tracked.delivered_eq_sent (h : Tracked sink stopOnFail s t) (hch : t.bus.channel = []) :
    deliveredMessages t.history = sentMessages t.history := by
  obtain ⟨noted, ht, -⟩ := h.tracks
  have hdrop := ht.channel_eq
  rw [hch] at hdrop
  rw [h.delivered_eq, List.take_of_length_le (List.drop_eq_nil_iff.mp hdrop.symm)]

/-- As long as a call is in flight the bus is open. -/
theorem ShutdownKept.open_of_call (h : ShutdownKept t) {call : QueueCall}
    (hp : t.inFlight.lookup p = some call) : .closed ∉ t.history := by
  intro hclosed
  rw [h.idle (h.closed_iff.mpr hclosed)] at hp
  cases hp

/-- Once a run is stopped it stays so. -/
theorem stoppedAfter_append {ms : List Message} (h : StoppedAfter sink stopOnFail s ms)
    (ns : List Message) : StoppedAfter sink stopOnFail s (ms ++ ns) := by
  rw [StoppedAfter, deliverAll_append]
  exact stopped_deliverAll_of_stopped h

theorem mem_sentMessages_of_sentLast {h : List BusEvent} (hs : SentLast h p m ticket) :
    m ∈ sentMessages h := by
  obtain ⟨past, later, rfl, -⟩ := hs
  rw [sentMessages_append]
  exact List.mem_append_right _ List.mem_cons_self

/-- A call that may be answered is answered by the law. -/
theorem Sound.returnLaw (h : Sound sink stopOnFail s t)
    (hp : t.inFlight.lookup p = some ⟨m, .sent ticket⟩) (hans : t.bus.answers m ticket = true) :
    ReturnLaw sink stopOnFail s t.history p m t.bus.goesOn := by
  have hlast := h.sentLast p m ticket hp
  have hsent := mem_sentMessages_of_sentLast hlast
  obtain ⟨past, later, heq, hticket, hlater⟩ := hlast
  refine ⟨past, later, heq, hlater, ?_, ?_, ?_, ?_⟩
  · intro hstarting
    -- the sink has handled more messages than were sent before this one
    have hlt : ticket < t.bus.handled := by
      simpa [AsynchronousBus.answers, AsynchronousBus.waitsForDelivery, hstarting] using hans
    have hfirst : sentMessages past ++ [m] <+: sentMessages t.history := by
      rw [heq, sentMessages_append]
      exact ⟨sentMessages later, by rw [List.append_assoc]; rfl⟩
    have hlength : (sentMessages past ++ [m]).length ≤ (deliveredMessages t.history).length := by
      rw [List.length_append, hticket, h.length_delivered]
      exact hlt
    have hdelivered := List.prefix_of_prefix_length_le hfirst h.isPrefix_delivered hlength
    refine ⟨hdelivered, fun hstop => h.goesOn_eq_false_iff.mpr (.inl ?_)⟩
    obtain ⟨more, hmore⟩ := hdelivered
    rw [← hmore]
    exact stoppedAfter_append hstop more
  · intro hfail hm
    exact h.goesOn_eq_false_iff.mpr (.inr ⟨hfail, m, .inl hsent, hm⟩)
  · exact fun hstop => h.goesOn_eq_false_iff.mpr (.inl hstop)
  · intro hgoes
    rcases h.goesOn_eq_false_iff.mp hgoes with hstop | ⟨hfail, failure, hnoted, hf⟩
    · exact .inl hstop
    · refine .inr ⟨hfail, ?_⟩
      rcases hnoted with hin | ⟨q, hq⟩
      · obtain ⟨q, hq⟩ := h.lawful.exists_entered hin
        exact ⟨q, failure, hq, hf⟩
      · exact ⟨q, failure, h.entered q _ hq, hf⟩

/-! ### Steps that leave the calls in flight as they are -/

/-- An event that says nothing about messages changes nothing that the sink is handed. -/
theorem Tracked.record {t' : Traffic σ} {e : BusEvent} (h : Tracked sink stopOnFail s t)
    (hbus : t'.bus = { t.bus with closed := t'.bus.closed })
    (hhistory : t'.history = t.history ++ [e]) (hsent : sentMessages [e] = [])
    (hdelivered : deliveredMessages [e] = []) (hcalls : sinkCalls [e] = [])
    (hnoted : ∀ m, (∃ q, t'.inFlight.lookup q = some ⟨m, .noted⟩) ↔
      ∃ q, t.inFlight.lookup q = some ⟨m, .noted⟩) :
    Tracked sink stopOnFail s t' where
  tracks := by
    obtain ⟨noted, ht, hn⟩ := h.tracks
    refine ⟨noted, ?_, ?_⟩
    · rw [hbus, hhistory, sentMessages_append, sinkCalls_append, hsent, hcalls, List.append_nil,
        List.append_nil]
      exact ⟨ht.sent_eq, ht.handled_le, ht.channel_eq, ht.sink_eq, ht.stopped_eq, ht.calls_eq⟩
    · intro m
      rw [hn m, Noted, Noted, hhistory, sentMessages_append, hsent, List.append_nil, hnoted m]
  delivered_eq := by
    have hhandled : t'.bus.handled = t.bus.handled := congrArg (·.handled) hbus
    rw [hhistory, deliveredMessages_append, sentMessages_append, hsent, hdelivered, List.append_nil,
      List.append_nil, hhandled]
    exact h.delivered_eq

/-- An event of nobody in a call leaves the calls in flight. -/
theorem CallsKept.record {t' : Traffic σ} {e : BusEvent} (h : CallsKept t)
    (hinFlight : t'.inFlight = t.inFlight) (hhistory : t'.history = t.history ++ [e])
    (hentered : e.entered? = none)
    (hidle : ∀ p, e.producer? = some p → t.inFlight.lookup p = none) : CallsKept t' where
  entered := by
    intro p call hp
    rw [hinFlight] at hp
    rw [hhistory]
    exact List.mem_append_left _ (h.entered p call hp)
  sentLast := by
    intro p m ticket hp
    rw [hinFlight] at hp
    rw [hhistory]
    refine (h.sentLast p m ticket hp).append (List.forall_mem_singleton.mpr fun he => ?_)
    rw [hidle p he] at hp
    cases hp
  returns := by
    intro past p m later heq
    rw [hhistory] at heq
    rw [hinFlight]
    rcases split_of_snoc_eq heq with ⟨-, he, -⟩ | ⟨later', rfl, hold⟩
    · rw [← he] at hentered
      cases hentered
    · rcases h.returns past p m later' hold with ⟨b, hb⟩ | hstage
      · exact .inl ⟨b, List.mem_append_left _ hb⟩
      · exact .inr hstage

/-- An event that has to do with no shutdown. -/
theorem ShutdownKept.record {t' : Traffic σ} {e : BusEvent} (h : ShutdownKept t)
    (hclosed : t'.bus.closed = t.bus.closed) (hclosing : t'.closing = t.closing)
    (hhistory : t'.history = t.history ++ [e]) (he : e ≠ .closed)
    (hidle : t.bus.closed = true → t'.inFlight = []) : ShutdownKept t' where
  closed_iff := by
    rw [hclosed, h.closed_iff, hhistory, List.mem_append, List.mem_singleton]
    exact (or_iff_left (Ne.symm he)).symm
  idle := by
    rw [hclosed]
    exact hidle
  closing := by
    rw [hclosed, hclosing]
    exact h.closing
  ended := by
    rw [hclosed, hclosing, hhistory]
    intro hc
    exact (h.ended hc).imp_right (List.mem_append_left _)

theorem Sound.dispatch (h : Sound sink stopOnFail s t) :
    Sound sink stopOnFail s (t.dispatch sink stopOnFail) := by
  unfold Traffic.dispatch
  split
  · exact h
  · next next rest hch =>
    obtain ⟨noted, ht, hnoted⟩ := h.tracks
    have hdispatch := ht.dispatch hch
    have hhandled : (t.bus.dispatch sink stopOnFail).handled = t.bus.handled + 1 := by
      simp only [AsynchronousBus.dispatch, hch]
    have hclosed : (t.bus.dispatch sink stopOnFail).closed = t.bus.closed := by
      simp only [AsynchronousBus.dispatch, hch]
    have hnext : (sentMessages t.history)[t.bus.handled]? = some next := by
      have hdrop := ht.channel_eq.symm.trans hch
      rw [← List.head?_drop, hdrop, List.head?_cons]
    refine ⟨⟨?_, ?_⟩, h.toCallsKept.record rfl rfl rfl (by rintro _ ⟨⟩),
      h.toShutdownKept.record hclosed rfl rfl (by rintro ⟨⟩) h.idle, h.lawful.snoc ?_⟩
    · refine ⟨noted, ?_, ?_⟩
      · simpa [Traffic.record, sentMessages, sinkCalls] using hdispatch
      · simpa [Noted, Traffic.record, sentMessages] using hnoted
    · show deliveredMessages (t.history ++ [.delivered next _]) =
        (sentMessages (t.history ++ [.delivered next _])).take (t.bus.dispatch sink _).handled
      have hsent : ∀ calls, sentMessages [.delivered next calls] = [] := fun _ => rfl
      rw [deliveredMessages_append, sentMessages_append, hsent, List.append_nil, hhandled,
        List.take_add_one, hnext, h.delivered_eq]
      rfl
    · refine ⟨?_, handedOver_deliver sink stopOnFail next _⟩
      rw [h.length_delivered]
      exact hnext

theorem Sound.shutdown (h : Sound sink stopOnFail s t) :
    Sound sink stopOnFail s t.shutdown := by
  unfold Traffic.shutdown AsynchronousBus.close
  cases hclosed : t.bus.closed with
  | true =>
    have hmem := h.closed_iff.mp hclosed
    exact ⟨h.toTracked.record rfl rfl rfl rfl rfl fun _ => .rfl,
      h.toCallsKept.record rfl rfl rfl (fun _ he => nomatch he),
      h.toShutdownKept.record rfl rfl rfl nofun h.idle,
      h.lawful.snoc hmem⟩
  | false =>
    have hmem : .closed ∉ t.history := fun hm => by
      rw [h.closed_iff.mpr hm] at hclosed
      cases hclosed
    simp only [Bool.false_eq_true, if_false]
    split
    · next hempty =>
      refine ⟨h.toTracked.record rfl rfl rfl rfl rfl fun _ => .rfl,
        h.toCallsKept.record rfl rfl rfl (fun _ he => nomatch he), ?_, h.lawful.snoc hmem⟩
      exact ⟨⟨fun _ => List.mem_append_right _ List.mem_cons_self, fun _ => rfl⟩,
        fun _ => List.isEmpty_iff.mp hempty, fun _ => rfl, fun _ => .inl rfl⟩
    · exact h

theorem Sound.endShutdown (h : Sound sink stopOnFail s t) :
    Sound sink stopOnFail s t.endShutdown := by
  unfold Traffic.endShutdown
  split
  · next hend =>
    obtain ⟨hclosing, hempty⟩ := Bool.and_eq_true _ _ ▸ hend
    have hclosed := h.closing hclosing
    refine ⟨h.toTracked.record rfl rfl rfl rfl rfl fun _ => .rfl,
      h.toCallsKept.record rfl rfl rfl (fun _ he => nomatch he), ?_,
      h.lawful.snoc ⟨h.closed_iff.mp hclosed, h.delivered_eq_sent (List.isEmpty_iff.mp hempty)⟩⟩
    refine ⟨?_, h.idle, nofun, fun _ => .inr (List.mem_append_right _ List.mem_cons_self)⟩
    show t.bus.closed = true ↔ .closed ∈ t.history ++ [.shutDown]
    rw [h.closed_iff, List.mem_append, List.mem_singleton]
    exact (or_iff_left nofun).symm
  · exact h

/-! ### Steps of a call -/

/-- A call that is in flight was entered, and the others are as before. -/
theorem CallsKept.entered_put (h : CallsKept t) (call : QueueCall) (es : List BusEvent)
    (hnow : .entered p call.message ∈ t.history ++ es) (q : Nat) (call' : QueueCall)
    (hq : (Keyed.put p call t.inFlight).lookup q = some call') :
    .entered q call'.message ∈ t.history ++ es := by
  rw [Keyed.lookup_put] at hq
  split at hq
  · next he =>
    cases hq
    rw [he]
    exact hnow
  · exact List.mem_append_left _ (h.entered q call' hq)

/-- What a call has sent is the last thing of its producer, and the others are as before. -/
theorem CallsKept.sentLast_put (h : CallsKept t) (call : QueueCall) (es : List BusEvent)
    (hes : ∀ e ∈ es, e.producer? = some p)
    (hnow : ∀ ticket, call.stage = .sent ticket → SentLast (t.history ++ es) p call.message ticket)
    (q : Nat) (m : Message) (ticket : Nat)
    (hq : (Keyed.put p call t.inFlight).lookup q = some ⟨m, .sent ticket⟩) :
    SentLast (t.history ++ es) q m ticket := by
  rw [Keyed.lookup_put] at hq
  split at hq
  · next he =>
    cases hq
    rw [he]
    exact hnow ticket rfl
  · next he =>
    refine (h.sentLast q m ticket hq).append fun e hmem hp => he ?_
    rw [hes e hmem] at hp
    exact (Option.some.inj hp).symm

theorem Sound.enter (h : Sound sink stopOnFail s t) (p : Nat) (m : Message) :
    Sound sink stopOnFail s (t.enter p m) := by
  unfold Traffic.enter
  split
  · exact h
  · next hidle =>
    rw [Bool.not_eq_true, Option.isSome_eq_false_iff, Option.isNone_iff_eq_none] at hidle
    split
    · next hclosed =>
      refine ⟨h.toTracked.record rfl rfl rfl rfl rfl fun _ => .rfl,
        h.toCallsKept.record rfl rfl rfl ?_, h.toShutdownKept.record rfl rfl rfl nofun h.idle,
        h.lawful.snoc (h.closed_iff.mp hclosed)⟩
      intro q hq
      cases hq
      exact hidle
    · next hopen =>
      refine ⟨h.toTracked.record rfl rfl rfl rfl rfl ?_, ⟨?_, ?_, ?_⟩,
        h.toShutdownKept.record rfl rfl rfl nofun fun hc => absurd hc hopen,
        h.lawful.snoc fun hm => hopen (h.closed_iff.mpr hm)⟩
      · intro m'
        refine exists_congr fun q => ?_
        show (Keyed.put p _ t.inFlight).lookup q = _ ↔ _
        rw [Keyed.lookup_put]
        split
        · next hq =>
          subst hq
          rw [hidle]
          exact ⟨nofun, nofun⟩
        · exact .rfl
      · exact h.entered_put _ _ (List.mem_append_right _ List.mem_cons_self)
      · exact h.sentLast_put _ _ (List.forall_mem_singleton.mpr rfl) fun _ hs => nomatch hs
      · intro past q m' later heq
        change t.history ++ [_] = _ at heq
        show _ ∨ ∃ stage, (Keyed.put p _ t.inFlight).lookup q = _
        rw [Keyed.lookup_put]
        rcases split_of_snoc_eq heq with ⟨-, he, -⟩ | ⟨later', rfl, hold⟩
        · cases he
          rw [if_pos rfl]
          exact .inr ⟨_, rfl⟩
        · rcases h.returns past q m' later' hold with ⟨b, hb⟩ | hstage
          · exact .inl ⟨b, List.mem_append_left _ hb⟩
          · have hne : q ≠ p := by
              rintro rfl
              rw [hidle] at hstage
              obtain ⟨_, hnone⟩ := hstage
              cases hnone
            rw [if_neg hne]
            exact .inr hstage

/-- A call that goes on with the message it queues is still in flight. -/
theorem lookup_put_call {call call' : QueueCall} {q : Nat}
    (hp : t.inFlight.lookup p = some call) (hm : call'.message = call.message)
    (hq : ∃ stage, t.inFlight.lookup q = some ⟨m, stage⟩) :
    ∃ stage, (Keyed.put p call' t.inFlight).lookup q = some ⟨m, stage⟩ := by
  rw [Keyed.lookup_put]
  split
  · next he =>
    obtain ⟨stage, hq⟩ := hq
    rw [he, hp] at hq
    cases hq
    obtain ⟨m', stage'⟩ := call'
    cases hm
    exact ⟨stage', rfl⟩
  · exact hq

/-- A call notes its message. -/
theorem Sound.noted (h : Sound sink stopOnFail s t)
    (hp : t.inFlight.lookup p = some ⟨m, .entered⟩) :
    Sound sink stopOnFail s { t with
      bus := t.bus.note stopOnFail m
      inFlight := Keyed.put p ⟨m, .noted⟩ t.inFlight } := by
  have hopen : t.bus.closed = true → Keyed.put p ⟨m, .noted⟩ t.inFlight = [] := fun hc =>
    absurd (h.closed_iff.mp hc) (h.open_of_call hp)
  refine ⟨⟨?_, h.delivered_eq⟩, ⟨?_, ?_, ?_⟩, ⟨h.closed_iff, hopen, h.closing, h.ended⟩, h.lawful⟩
  · obtain ⟨noted, ht, hnoted⟩ := h.tracks
    refine ⟨noted ++ [m], ht.note m, fun m' => ?_⟩
    rw [List.mem_append, List.mem_singleton, hnoted m', Noted, Noted, or_assoc]
    refine or_congr_right ⟨?_, ?_⟩
    · rintro (⟨q, hq⟩ | rfl)
      · refine ⟨q, ?_⟩
        rw [Keyed.lookup_put, if_neg ?_]
        · exact hq
        · rintro rfl
          cases hp.symm.trans hq
      · exact ⟨p, by rw [Keyed.lookup_put, if_pos rfl]⟩
    · rintro ⟨q, hq⟩
      rw [Keyed.lookup_put] at hq
      split at hq
      · cases hq
        exact .inr rfl
      · exact .inl ⟨q, hq⟩
  · have hentered := h.entered_put ⟨m, .noted⟩ []
      (List.mem_append_left _ (h.entered p ⟨m, .entered⟩ hp))
    rw [List.append_nil] at hentered
    exact hentered
  · have hsentLast := h.sentLast_put (p := p) ⟨m, .noted⟩ []
      (List.forall_mem_nil _) fun _ hs => nomatch hs
    rw [List.append_nil] at hsentLast
    exact hsentLast
  · intro past q m' later heq
    exact (h.returns past q m' later heq).imp_right (lookup_put_call hp rfl)

/-- A call sends its message. -/
theorem Sound.sent (h : Sound sink stopOnFail s t)
    (hp : t.inFlight.lookup p = some ⟨m, .noted⟩) :
    Sound sink stopOnFail s ({ t with
      bus := t.bus.push m
      inFlight := Keyed.put p ⟨m, .sent t.bus.sent⟩ t.inFlight }.record (.sent p m)) := by
  have hopen := h.open_of_call hp
  obtain ⟨noted, ht, hnoted⟩ := h.tracks
  refine ⟨⟨⟨noted, ?_, fun m' => ?_⟩, ?_⟩, ⟨?_, ?_, ?_⟩,
    h.toShutdownKept.record rfl rfl rfl nofun fun hc => absurd (h.closed_iff.mp hc) hopen,
    h.lawful.snoc ⟨hopen, h.entered p _ hp⟩⟩
  · simpa [Traffic.record, sentMessages, sinkCalls] using ht.push m
  · -- the message is among those that were sent now
    have hsent : m' ∈ sentMessages (t.history ++ [.sent p m]) ↔
        m' ∈ sentMessages t.history ∨ m' = m := by
      simp [sentMessages]
    show m' ∈ noted ↔ m' ∈ sentMessages (t.history ++ [.sent p m]) ∨
      ∃ q, (Keyed.put p _ t.inFlight).lookup q = _
    rw [hnoted m', Noted, hsent, or_assoc]
    refine or_congr_right ⟨?_, ?_⟩
    · rintro ⟨q, hq⟩
      by_cases he : q = p
      · subst he
        cases hp.symm.trans hq
        exact .inl rfl
      · exact .inr ⟨q, by rw [Keyed.lookup_put, if_neg he, hq]⟩
    · rintro (rfl | ⟨q, hq⟩)
      · exact ⟨p, hp⟩
      · rw [Keyed.lookup_put] at hq
        split at hq
        · cases hq
        · exact ⟨q, hq⟩
  · show deliveredMessages (t.history ++ [.sent p m]) =
      (sentMessages (t.history ++ [.sent p m])).take t.bus.handled
    rw [deliveredMessages_append, sentMessages_append, List.take_append_of_le_length ht.handled_le,
      ← h.delivered_eq]
    exact List.append_nil _
  · exact h.entered_put _ _ (List.mem_append_left _ (h.entered p ⟨m, .noted⟩ hp))
  · refine h.sentLast_put _ _ (List.forall_mem_singleton.mpr rfl) ?_
    rintro _ ⟨⟩
    exact ⟨t.history, [], rfl, ht.sent_eq.symm, List.forall_mem_nil _⟩
  · intro past q m' later heq
    rcases split_of_snoc_eq heq with ⟨-, he, -⟩ | ⟨later', rfl, hold⟩
    · cases he
    · exact (h.returns past q m' later' hold).imp
        (fun ⟨b, hb⟩ => ⟨b, List.mem_append_left _ hb⟩) (lookup_put_call hp rfl)

/-- A call returns. -/
theorem Sound.returned (h : Sound sink stopOnFail s t)
    (hp : t.inFlight.lookup p = some ⟨m, .sent ticket⟩) (hans : t.bus.answers m ticket = true) :
    Sound sink stopOnFail s ({ t with inFlight := Keyed.remove p t.inFlight }.record
      (.returned p m t.bus.goesOn)) := by
  have hopen := h.open_of_call hp
  refine ⟨h.toTracked.record rfl rfl rfl rfl rfl fun m' => exists_congr fun q => ?_,
    ⟨?_, ?_, ?_⟩,
    h.toShutdownKept.record rfl rfl rfl nofun fun hc => absurd (h.closed_iff.mp hc) hopen,
    h.lawful.snoc ⟨hopen, h.returnLaw hp hans⟩⟩
  · show (Keyed.remove p t.inFlight).lookup q = _ ↔ _
    rw [Keyed.lookup_remove]
    split
    · next he =>
      rw [he, hp]
      exact ⟨nofun, nofun⟩
    · exact .rfl
  · intro q call hq
    change (Keyed.remove p t.inFlight).lookup q = _ at hq
    rw [Keyed.lookup_remove] at hq
    split at hq
    · cases hq
    · exact List.mem_append_left _ (h.entered q call hq)
  · intro q m' ticket' hq
    change (Keyed.remove p t.inFlight).lookup q = _ at hq
    rw [Keyed.lookup_remove] at hq
    split at hq
    · cases hq
    · next he =>
      refine (h.sentLast q m' ticket' hq).append (List.forall_mem_singleton.mpr fun hp => he ?_)
      cases hp
      rfl
  · intro past q m' later heq
    show _ ∨ ∃ stage, (Keyed.remove p t.inFlight).lookup q = _
    rcases split_of_snoc_eq heq with ⟨-, he, -⟩ | ⟨later', rfl, hold⟩
    · cases he
    · rcases h.returns past q m' later' hold with ⟨b, hb⟩ | ⟨stage, hq⟩
      · exact .inl ⟨b, List.mem_append_left _ hb⟩
      · by_cases he : q = p
        · subst he
          cases hp.symm.trans hq
          exact .inl ⟨_, List.mem_append_right _ List.mem_cons_self⟩
        · rw [Keyed.lookup_remove, if_neg he]
          exact .inr ⟨stage, hq⟩

theorem Sound.advance (h : Sound sink stopOnFail s t) (p : Nat) :
    Sound sink stopOnFail s (t.advance stopOnFail p) := by
  unfold Traffic.advance
  split
  · exact h
  · next hp => exact h.noted hp
  · next hp => exact h.sent hp
  · next hp =>
    split
    · next hans => exact h.returned hp hans
    · exact h

/-! ## Every interleaving -/

theorem Sound.turn (h : Sound sink stopOnFail s t) (x : BusTurn) :
    Sound sink stopOnFail s (t.turn sink stopOnFail x) := by
  cases x with
  | enter p m => exact h.enter p m
  | advance p => exact h.advance p
  | dispatch => exact h.dispatch
  | shutdown => exact h.shutdown
  | endShutdown => exact h.endShutdown

theorem Sound.after (h : Sound sink stopOnFail s t) (turns : List BusTurn) :
    Sound sink stopOnFail s (t.after sink stopOnFail turns) := by
  induction turns generalizing t with
  | nil => exact h
  | cons x turns ih => exact ih (h.turn x)

/-- **Every interleaving is sound.** -/
theorem sound_after (sink : Sink σ) (stopOnFail : Bool) (s : σ) (turns : List BusTurn) :
    Sound sink stopOnFail s ((start s).after sink stopOnFail turns) :=
  (sound_start sink stopOnFail s).after turns

/-! ## The wish to stop is never taken back -/

/-- From `t` to `t'` the run is to stop, and every call that returns answers so. -/
def KeepsStop (t t' : Traffic σ) : Prop :=
  t'.bus.goesOn = false ∧ ∃ later, t'.history = t.history ++ later ∧
    ∀ p m goesOn, .returned p m goesOn ∈ later → goesOn = false

namespace KeepsStop

variable {t' t'' : Traffic σ}

theorem same (h : t'.bus.goesOn = false) (hhistory : t'.history = t.history) : KeepsStop t t' :=
  ⟨h, [], by rw [hhistory, List.append_nil], fun _ _ _ hm => absurd hm List.not_mem_nil⟩

theorem record {e : BusEvent} (h : t'.bus.goesOn = false)
    (hhistory : t'.history = t.history ++ [e])
    (he : ∀ p m goesOn, .returned p m goesOn = e → goesOn = false) : KeepsStop t t' :=
  ⟨h, [e], hhistory, fun p m goesOn hm => he p m goesOn (List.mem_singleton.mp hm)⟩

theorem trans (h : KeepsStop t t') (h' : KeepsStop t' t'') : KeepsStop t t'' := by
  obtain ⟨-, first, hfirst, hfalse⟩ := h
  obtain ⟨hstill, rest, hrest, hfalse'⟩ := h'
  refine ⟨hstill, first ++ rest, ?_, fun p m goesOn hm => ?_⟩
  · rw [hrest, hfirst, List.append_assoc]
  · exact (List.mem_append.mp hm).elim (hfalse p m goesOn) (hfalse' p m goesOn)

end KeepsStop

theorem keepsStop_enter (h : t.bus.goesOn = false) : KeepsStop t (t.enter p m) := by
  unfold enter
  split
  · exact .same h rfl
  · split
    · exact .record h rfl (fun _ _ _ he => nomatch he)
    · exact .record h rfl (fun _ _ _ he => nomatch he)

theorem keepsStop_advance (h : t.bus.goesOn = false) :
    KeepsStop t (t.advance stopOnFail p) := by
  unfold advance
  split
  · exact .same h rfl
  · refine .same ?_ rfl
    rw [AsynchronousBus.goesOn, Bool.not_eq_false'] at h ⊢
    exact stopped_noteFailure h
  · exact .record h rfl (fun _ _ _ he => nomatch he)
  · split
    · refine .record h rfl fun p m goesOn he => ?_
      cases he
      exact h
    · exact .same h rfl

theorem keepsStop_dispatch (h : t.bus.goesOn = false) :
    KeepsStop t (t.dispatch sink stopOnFail) := by
  unfold dispatch
  split
  · exact .same h rfl
  · next next rest hch =>
    refine .record ?_ rfl (fun _ _ _ he => nomatch he)
    show (t.bus.dispatch sink stopOnFail).goesOn = false
    rw [AsynchronousBus.goesOn, Bool.not_eq_false'] at h ⊢
    simpa only [AsynchronousBus.dispatch, hch] using stopped_deliver h

theorem keepsStop_shutdown (h : t.bus.goesOn = false) : KeepsStop t t.shutdown := by
  unfold shutdown AsynchronousBus.close
  cases t.bus.closed with
  | true => exact .record h rfl (fun _ _ _ he => nomatch he)
  | false =>
    simp only [Bool.false_eq_true, if_false]
    split
    · exact .record h rfl (fun _ _ _ he => nomatch he)
    · exact .same h rfl

theorem keepsStop_endShutdown (h : t.bus.goesOn = false) : KeepsStop t t.endShutdown := by
  unfold endShutdown
  split
  · exact .record h rfl (fun _ _ _ he => nomatch he)
  · exact .same h rfl

theorem keepsStop_turn (h : t.bus.goesOn = false) (x : BusTurn) :
    KeepsStop t (t.turn sink stopOnFail x) := by
  cases x with
  | enter p m => exact keepsStop_enter h
  | advance p => exact keepsStop_advance h
  | dispatch => exact keepsStop_dispatch h
  | shutdown => exact keepsStop_shutdown h
  | endShutdown => exact keepsStop_endShutdown h

/-- **Once a run is to stop, every call that returns answers so.** -/
theorem keepsStop_after (h : t.bus.goesOn = false) (turns : List BusTurn) :
    KeepsStop t (t.after sink stopOnFail turns) := by
  induction turns generalizing t with
  | nil => exact .same h rfl
  | cons x turns ih =>
    have first : KeepsStop t (t.turn sink stopOnFail x) := keepsStop_turn h x
    exact first.trans (ih first.1)

/-! ## Every interleaving can go on -/

/-- The dispatcher can deliver everything that was sent. -/
theorem exists_drained (sink : Sink σ) (stopOnFail : Bool) (t : Traffic σ) :
    ∃ turns, (∀ x ∈ turns, x.begins = false) ∧
      (t.after sink stopOnFail turns).inFlight = t.inFlight ∧
      (t.after sink stopOnFail turns).bus.channel = [] := by
  generalize hch : t.bus.channel = ms
  induction ms generalizing t with
  | nil => exact ⟨[], List.forall_mem_nil _, rfl, hch⟩
  | cons m ms ih =>
    have hrest : (t.turn sink stopOnFail .dispatch).bus.channel = ms := by
      simp only [turn, dispatch, hch]
      exact AsynchronousBus.length_channel_dispatch hch
    have hsame : (t.turn sink stopOnFail .dispatch).inFlight = t.inFlight := by
      simp only [turn, dispatch, hch]
      rfl
    obtain ⟨turns, hbegins, hinFlight, hdone⟩ := ih _ hrest
    exact ⟨.dispatch :: turns, List.forall_mem_cons.mpr ⟨rfl, hbegins⟩, hinFlight.trans hsame,
      hdone⟩

/-- A call whose message was sent can return. -/
theorem Sound.exists_returned_of_sent (h : Sound sink stopOnFail s t)
    (hp : t.inFlight.lookup p = some ⟨m, .sent ticket⟩) :
    ∃ turns, (∀ x ∈ turns, x.begins = false) ∧
      (t.after sink stopOnFail turns).inFlight.length < t.inFlight.length := by
  obtain ⟨turns, hbegins, hinFlight, hdone⟩ := exists_drained sink stopOnFail t
  have hsound := h.after turns
  rw [← hinFlight] at hp ⊢
  have hans : (t.after sink stopOnFail turns).bus.answers m ticket = true := by
    -- the message is one of those that were sent, and the sink has handled them all
    obtain ⟨past, later, heq, hticket, -⟩ := hsound.sentLast p m ticket hp
    have hlt : ticket < (t.after sink stopOnFail turns).bus.handled := by
      rw [← hsound.length_delivered, hsound.delivered_eq_sent hdone, heq, sentMessages_append,
        List.length_append, ← hticket]
      exact Nat.lt_add_of_pos_right (Nat.succ_pos _)
    simp only [AsynchronousBus.answers, hlt, decide_true, Bool.or_true]
  refine ⟨turns ++ [.advance p], ?_, ?_⟩
  · intro x hx
    rcases List.mem_append.mp hx with hx | hx
    · exact hbegins x hx
    · rw [List.mem_singleton.mp hx]
      rfl
  · rw [after_append]
    show ((t.after sink stopOnFail turns).advance stopOnFail p).inFlight.length < _
    simp only [Traffic.advance, hp, hans, if_true]
    exact Keyed.length_remove_lt hp

/-- A call that can return after one more step can return. -/
theorem exists_returned_of_advance {call : QueueCall}
    (hstep : (t.advance stopOnFail p).inFlight = Keyed.put p call t.inFlight)
    (hp : (t.inFlight.lookup p).isSome = true)
    (h : ∃ turns, (∀ x ∈ turns, x.begins = false) ∧
      ((t.advance stopOnFail p).after sink stopOnFail turns).inFlight.length <
        (t.advance stopOnFail p).inFlight.length) :
    ∃ turns, (∀ x ∈ turns, x.begins = false) ∧
      (t.after sink stopOnFail turns).inFlight.length < t.inFlight.length := by
  obtain ⟨turns, hbegins, hlt⟩ := h
  rw [hstep, Keyed.length_put call hp] at hlt
  exact ⟨.advance p :: turns, List.forall_mem_cons.mpr ⟨rfl, hbegins⟩, hlt⟩

/-- A call can return. -/
theorem Sound.exists_returned (h : Sound sink stopOnFail s t) {call : QueueCall}
    (hp : t.inFlight.lookup p = some call) :
    ∃ turns, (∀ x ∈ turns, x.begins = false) ∧
      (t.after sink stopOnFail turns).inFlight.length < t.inFlight.length := by
  obtain ⟨m, stage⟩ := call
  have ofNoted : ∀ {t : Traffic σ}, Sound sink stopOnFail s t →
      t.inFlight.lookup p = some ⟨m, .noted⟩ →
      ∃ turns, (∀ x ∈ turns, x.begins = false) ∧
        (t.after sink stopOnFail turns).inFlight.length < t.inFlight.length := by
    intro t h hp
    have hstep : (t.advance stopOnFail p).inFlight =
        Keyed.put p ⟨m, .sent t.bus.sent⟩ t.inFlight := by
      simp only [Traffic.advance, hp]
      rfl
    have hsent : (t.advance stopOnFail p).inFlight.lookup p = some ⟨m, .sent t.bus.sent⟩ := by
      rw [hstep, Keyed.lookup_put, if_pos rfl]
    exact exists_returned_of_advance hstep (by rw [hp]; rfl)
      ((h.advance p).exists_returned_of_sent hsent)
  cases stage with
  | entered =>
    have hstep : (t.advance stopOnFail p).inFlight = Keyed.put p ⟨m, .noted⟩ t.inFlight := by
      simp only [Traffic.advance, hp]
    refine exists_returned_of_advance hstep (by rw [hp]; rfl) (ofNoted (h.advance p) ?_)
    rw [hstep, Keyed.lookup_put, if_pos rfl]
  | noted => exact ofNoted h hp
  | sent ticket => exact h.exists_returned_of_sent hp

/-- All calls can return. -/
theorem Sound.exists_allReturned (h : Sound sink stopOnFail s t) :
    ∃ turns, (∀ x ∈ turns, x.begins = false) ∧
      (t.after sink stopOnFail turns).inFlight = [] := by
  -- on the number of calls in flight
  induction hn : t.inFlight.length using Nat.strongRecOn generalizing t with
  | ind n ih =>
    cases hin : t.inFlight with
    | nil => exact ⟨[], List.forall_mem_nil _, hin⟩
    | cons entry rest =>
      obtain ⟨p, call⟩ := entry
      have hp : t.inFlight.lookup p = some call := by rw [hin, List.lookup_cons_self]
      obtain ⟨turns, hbegins, hlt⟩ := h.exists_returned hp
      obtain ⟨more, hmore, hdone⟩ := ih _ (hn ▸ hlt) (h.after turns) rfl
      refine ⟨turns ++ more, ?_, by rw [after_append]; exact hdone⟩
      intro x hx
      exact (List.mem_append.mp hx).elim (hbegins x) (hmore x)

/-- **Every interleaving can go on until all calls have returned**, without any other call, and the
shutdown too if there is one. -/
theorem Sound.exists_idle (h : Sound sink stopOnFail s t) :
    ∃ turns, (∀ x ∈ turns, x.begins = false) ∧
      (t.after sink stopOnFail turns).inFlight = [] ∧
      (t.after sink stopOnFail turns).bus.channel = [] ∧
      (t.after sink stopOnFail turns).closing = false := by
  obtain ⟨turns, hbegins, hreturned⟩ := h.exists_allReturned
  obtain ⟨more, hmore, hinFlight, hch⟩ :=
    exists_drained sink stopOnFail (t.after sink stopOnFail turns)
  refine ⟨turns ++ (more ++ [.endShutdown]), ?_, ?_⟩
  · intro x hx
    rcases List.mem_append.mp hx with hx | hx
    · exact hbegins x hx
    · rcases List.mem_append.mp hx with hx | hx
      · exact hmore x hx
      · rw [List.mem_singleton.mp hx]
        rfl
  · rw [after_append, after_append]
    generalize (t.after sink stopOnFail turns).after sink stopOnFail more = t' at hinFlight hch
    show (t'.endShutdown).inFlight = [] ∧ t'.endShutdown.bus.channel = [] ∧
      t'.endShutdown.closing = false
    unfold Traffic.endShutdown
    cases hc : t'.closing with
    | true =>
      rw [hch]
      exact ⟨hinFlight.trans hreturned, hch, rfl⟩
    | false => exact ⟨hinFlight.trans hreturned, hch, hc⟩

/-! ## What can be relied on -/

/-- What producers, the sink and whoever shuts the bus down can rely on. -/
structure Orderly (sink : Sink σ) (stopOnFail : Bool) (s : σ) (t : Traffic σ) : Prop where
  /-- Messages are delivered once each, in the order in which they were sent. -/
  delivered : deliveredMessages t.history <+: sentMessages t.history
  /-- The sink is called for what is delivered and for nothing else. -/
  handed : sinkCalls t.history =
    callsAll sink stopOnFail (deliveredMessages t.history) { sink := s }
  /-- It answers each call from its own state, and after a panic it is told of that. -/
  replied : Replies sink s (deliveredMessages t.history) (sinkCalls t.history)
  /-- Everything that happens obeys the law. -/
  lawful : Lawful sink stopOnFail s t.history
  /-- What stops a run. -/
  stops : t.bus.goesOn = false ↔
    StoppedAfter sink stopOnFail s (deliveredMessages t.history) ∨
      stopOnFail = true ∧ ∃ m, t.Noted m ∧ m.event.isTestFailure = true
  /-- Once a run is to stop, all calls that return answer so. -/
  staysStopped : t.bus.goesOn = false → ∀ more,
    ∃ later, (t.after sink stopOnFail more).history = t.history ++ later ∧
      ∀ p m goesOn, .returned p m goesOn ∈ later → goesOn = false
  /-- A bus that was closed is not shut down again. -/
  closedOnce : .closed ∈ t.history →
    t.bus.close = .error .alreadyShutDown ∧ t.shutdown = t.record .shutdownRefused
  /-- Nobody waits in vain: without any other call, all calls return and so does the shutdown, when
  everything that was sent is delivered. -/
  progress : ∃ more, (∀ x ∈ more, x.begins = false) ∧
    let t' := t.after sink stopOnFail more
    (∀ past p m later, t'.history = past ++ .entered p m :: later →
      ∃ goesOn, .returned p m goesOn ∈ later) ∧
    (.closed ∈ t'.history → .shutDown ∈ t'.history) ∧
    deliveredMessages t'.history = sentMessages t'.history

theorem Sound.orderly (h : Sound sink stopOnFail s t) : Orderly sink stopOnFail s t where
  delivered := h.isPrefix_delivered
  handed := h.sinkCalls_eq
  replied := by
    rw [h.sinkCalls_eq]
    exact replies_callsAll (deliveredMessages t.history) { sink := s }
  lawful := h.lawful
  stops := h.goesOn_eq_false_iff
  staysStopped := fun hstop more => (keepsStop_after hstop more).2
  closedOnce := by
    intro hc
    have hclosed := h.closed_iff.mpr hc
    have hclose : t.bus.close = .error .alreadyShutDown := by
      rw [AsynchronousBus.close, hclosed]
      rfl
    exact ⟨hclose, by rw [Traffic.shutdown, hclose]⟩
  progress := by
    obtain ⟨more, hbegins, hinFlight, hch, hclosing⟩ := h.exists_idle
    have hsound := h.after more
    refine ⟨more, hbegins, ?_, ?_, hsound.delivered_eq_sent hch⟩
    · intro past p m later heq
      rcases hsound.returns past p m later heq with hreturned | ⟨stage, hp⟩
      · exact hreturned
      · rw [hinFlight] at hp
        cases hp
    · intro hc
      refine (hsound.ended (hsound.closed_iff.mpr hc)).resolve_left fun hclosing' => ?_
      rw [hclosing] at hclosing'
      cases hclosing'

/-- **Any number of producers, a dispatcher and whoever shuts the bus down can rely on it**, in
every interleaving. -/
theorem isOrderly (sink : Sink σ) (stopOnFail : Bool) (s : σ) (turns : List BusTurn) :
    Orderly sink stopOnFail s ((start s).after sink stopOnFail turns) :=
  (sound_after sink stopOnFail s turns).orderly

end Traffic

end TestEngine
