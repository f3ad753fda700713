import TestEngine.Bus.Asynchronous

/-!
# Deliveries in a row

What a sink is handed, and whether the run is to stop, depends on nothing but the messages and their
order: it does not matter who delivers them, or when.

* `Delivery.latches` — handling a message stops a run that was to go on.
* `Delivery.Replies` — a sink is called for messages one after the other, and replies to each call
  from its own state. The calls of a bus are such calls: `Delivery.replies_callsAll`.
* `AsynchronousBus.Tracks` — how a bus stands to the messages that were sent on it. Every step of
  the bus keeps this.
-/

namespace TestEngine

variable {σ : Type} {sink : Sink σ} {stopOnFail : Bool}

namespace Delivery

/-- Handling a message stops the run: the sink asks for it, when it is handed the message or the
report of its own panic, or the message is a failed test that stops the run. -/
def latches (sink : Sink σ) (stopOnFail : Bool) (m : Message) (s : σ) : Bool :=
  (deliver sink stopOnFail m { sink := s }).1.stopped

/-- The delivering side after a list of messages. -/
def deliverAll (sink : Sink σ) (stopOnFail : Bool) (ms : List Message) (d : Delivery σ) :
    Delivery σ :=
  ms.foldl (fun d m => (d.deliver sink stopOnFail m).1) d

/-- The calls of the sink for a list of messages. -/
def callsAll (sink : Sink σ) (stopOnFail : Bool) : List Message → Delivery σ → List Call
  | [], _ => []
  | m :: ms, d =>
    (d.deliver sink stopOnFail m).2 ++ callsAll sink stopOnFail ms (d.deliver sink stopOnFail m).1

theorem deliverAll_append (ms ns : List Message) (d : Delivery σ) :
    deliverAll sink stopOnFail (ms ++ ns) d =
      deliverAll sink stopOnFail ns (deliverAll sink stopOnFail ms d) := List.foldl_append

theorem callsAll_append (ms ns : List Message) (d : Delivery σ) :
    callsAll sink stopOnFail (ms ++ ns) d =
      callsAll sink stopOnFail ms d ++
        callsAll sink stopOnFail ns (deliverAll sink stopOnFail ms d) := by
  induction ms generalizing d with
  | nil => rfl
  | cons m ms ih =>
    rw [List.cons_append, callsAll, callsAll, ih, List.append_assoc]
    rfl

/-! ## The state of the sink does not depend on the wish to stop -/

theorem sink_noteFailure (m : Message) (d : Delivery σ) :
    (d.noteFailure stopOnFail m).sink = d.sink := by
  unfold noteFailure
  split <;> rfl

theorem stopped_noteFailure_eq (m : Message) (d : Delivery σ) :
    (d.noteFailure stopOnFail m).stopped =
      (d.stopped || (stopOnFail && m.event.isTestFailure)) := by
  unfold noteFailure
  split
  · next h => simp only [stop, h, Bool.or_true]
  · next h => simp only [h, Bool.or_false]

/-- Whether the run was to stop has no influence on a delivery but that it stays so. -/
theorem deliver_eq (m : Message) (d : Delivery σ) :
    d.deliver sink stopOnFail m =
      ({ sink := (deliver sink stopOnFail m { sink := d.sink }).1.sink,
         stopped := d.stopped || latches sink stopOnFail m d.sink },
        (deliver sink stopOnFail m { sink := d.sink }).2) := by
  simp only [latches, deliver, call, sink_noteFailure, stopped_noteFailure_eq]
  split <;> simp only [Bool.false_or, Bool.or_assoc]

theorem stopped_deliver_eq (m : Message) (d : Delivery σ) :
    (d.deliver sink stopOnFail m).1.stopped =
      (d.stopped || latches sink stopOnFail m d.sink) := by
  rw [deliver_eq]

/-- What stops a run: the sink asks for it, or it panics and asks for it when it is told of that, or
a test failed in a run that stops at failures. -/
theorem latches_iff (m : Message) (s : σ) : latches sink stopOnFail m s = true ↔
    (sink s m).2 = .stop ∨
      (∃ payload, (sink s m).2 = .panic payload ∧
        (sink (sink s m).1 (panicReport m payload)).2 = .stop) ∨
      (stopOnFail = true ∧ m.event.isTestFailure = true) := by
  have hnote : (noteFailure stopOnFail m ({ sink := s } : Delivery σ)).stopped =
      (stopOnFail && m.event.isTestFailure) := stopped_noteFailure_eq m { sink := s }
  have hsink : (noteFailure stopOnFail m ({ sink := s } : Delivery σ)).sink = s :=
    sink_noteFailure m { sink := s }
  simp only [latches, deliver, call, hsink, hnote]
  cases h : (sink s m).2 <;> simp [or_comm]

/-- A failed test stops a run that stops at failures. -/
theorem latches_of_failure {m : Message} (h : m.event.isTestFailure = true) (s : σ) :
    latches sink true m s = true := by
  have first :
      ((({ sink := s } : Delivery σ).noteFailure true m).call sink m).1.stopped = true := by
    refine stopped_call ?_
    rw [stopped_noteFailure_eq, h]
    rfl
  simp only [latches, deliver]
  split
  · exact stopped_call first
  · exact first

/-! ## The answers are those of the sink -/

/-- A sink in the state `s` replies to messages by these calls. It is called once for each message,
in order, and answers from the state that the call before has left it in. After a panic it is called
once more, with an error of the same assembly that tells of the panic. -/
inductive Replies (sink : Sink σ) : σ → List Message → List Call → Prop
  | nil (s : σ) : Replies sink s [] []
  | taken {s : σ} {m : Message} {ms : List Message} {calls : List Call}
      (answer : ∀ payload, (sink s m).2 ≠ .panic payload)
      (rest : Replies sink (sink s m).1 ms calls) :
      Replies sink s (m :: ms) (⟨m, (sink s m).2⟩ :: calls)
  | reported {s : σ} {m report : Message} {ms : List Message} {calls : List Call}
      {payload : Payload} (answer : (sink s m).2 = .panic payload)
      (ids_eq : report.ids = { assembly := m.ids.assembly })
      (event_eq : report.event = .error (Failure.ofPanic payload).record)
      (rest : Replies sink (sink (sink s m).1 report).1 ms calls) :
      Replies sink s (m :: ms)
        (⟨m, .panic payload⟩ :: ⟨report, (sink (sink s m).1 report).2⟩ :: calls)

/-- What a sink is handed for one message comes before what it is handed for the others. -/
theorem Replies.deliver (m : Message) (d : Delivery σ) {ms : List Message} {calls : List Call}
    (h : Replies sink (d.deliver sink stopOnFail m).1.sink ms calls) :
    Replies sink d.sink (m :: ms) ((d.deliver sink stopOnFail m).2 ++ calls) := by
  revert h
  simp only [Delivery.deliver, call, sink_noteFailure]
  split
  · next payload hanswer => exact .reported hanswer rfl rfl
  · next hanswer => exact .taken hanswer

/-- **The calls of a bus are those of its sink**, each answered from its own state. -/
theorem replies_callsAll (ms : List Message) (d : Delivery σ) :
    Replies sink d.sink ms (callsAll sink stopOnFail ms d) := by
  induction ms generalizing d with
  | nil => exact .nil _
  | cons m ms ih => exact (ih _).deliver m d

/-! ## Runs that are to stop -/

theorem stopped_deliverAll_of_stopped {ms : List Message} {d : Delivery σ} (h : d.stopped = true) :
    (deliverAll sink stopOnFail ms d).stopped = true := by
  induction ms generalizing d with
  | nil => exact h
  | cons m ms ih => exact ih (stopped_deliver h)

/-- Delivering a failed test stops a run that stops at failures. -/
theorem stopped_deliverAll_of_failure {ms : List Message} {m : Message} (hm : m ∈ ms)
    (h : m.event.isTestFailure = true) (d : Delivery σ) :
    (deliverAll sink true ms d).stopped = true := by
  obtain ⟨ns, ps, rfl⟩ := List.append_of_mem hm
  rw [deliverAll_append]
  show (deliverAll sink true ps _).stopped = true
  refine stopped_deliverAll_of_stopped ?_
  rw [stopped_deliver_eq, latches_of_failure h, Bool.or_true]

end Delivery

namespace AsynchronousBus

open Delivery

/-- How a bus stands to the messages `sent` on it and to those that were `noted`, when the sink
began in the state `s` and has had these calls: what is not in the channel any more was delivered,
in order. -/
structure Tracks (sink : Sink σ) (stopOnFail : Bool) (s : σ) (sent noted : List Message)
    (bus : AsynchronousBus σ) (calls : List Call) : Prop where
  sent_eq : bus.sent = sent.length
  handled_le : bus.handled ≤ sent.length
  channel_eq : bus.channel = sent.drop bus.handled
  sink_eq : bus.delivery.sink =
    (deliverAll sink stopOnFail (sent.take bus.handled) { sink := s }).sink
  stopped_eq : bus.delivery.stopped =
    ((deliverAll sink stopOnFail (sent.take bus.handled) { sink := s }).stopped ||
      (stopOnFail && noted.any (·.event.isTestFailure)))
  calls_eq : calls = callsAll sink stopOnFail (sent.take bus.handled) { sink := s }

namespace Tracks

variable {s : σ} {sent noted : List Message} {bus : AsynchronousBus σ} {calls : List Call}

theorem new (s : σ) : Tracks sink stopOnFail s [] [] (AsynchronousBus.new s) [] where
  sent_eq := rfl
  handled_le := Nat.le_refl 0
  channel_eq := rfl
  sink_eq := rfl
  stopped_eq := by simp [AsynchronousBus.new, deliverAll]
  calls_eq := rfl

theorem note (h : Tracks sink stopOnFail s sent noted bus calls) (m : Message) :
    Tracks sink stopOnFail s sent (noted ++ [m]) (bus.note stopOnFail m) calls where
  sent_eq := h.sent_eq
  handled_le := h.handled_le
  channel_eq := h.channel_eq
  sink_eq := (sink_noteFailure m bus.delivery).trans h.sink_eq
  stopped_eq := by
    simp only [AsynchronousBus.note, stopped_noteFailure_eq, h.stopped_eq, List.any_append,
      List.any_cons, List.any_nil, Bool.or_false, Bool.and_or_distrib_left, Bool.or_assoc]
  calls_eq := h.calls_eq

theorem push (h : Tracks sink stopOnFail s sent noted bus calls) (m : Message) :
    Tracks sink stopOnFail s (sent ++ [m]) noted (bus.push m) calls := by
  have htake : (sent ++ [m]).take bus.handled = sent.take bus.handled :=
    List.take_append_of_le_length h.handled_le
  refine ⟨?_, ?_, ?_, ?_, ?_, ?_⟩
  · simp [AsynchronousBus.push, h.sent_eq]
  · exact Nat.le_trans h.handled_le (by simp)
  · show bus.channel ++ [m] = (sent ++ [m]).drop bus.handled
    rw [h.channel_eq, List.drop_append_of_le_length h.handled_le]
  · show bus.delivery.sink = (deliverAll sink stopOnFail ((sent ++ [m]).take bus.handled) _).sink
    rw [htake]
    exact h.sink_eq
  · show bus.delivery.stopped =
      ((deliverAll sink stopOnFail ((sent ++ [m]).take bus.handled) _).stopped || _)
    rw [htake]
    exact h.stopped_eq
  · show calls = callsAll sink stopOnFail ((sent ++ [m]).take bus.handled) _
    rw [htake]
    exact h.calls_eq

/-- The next message is delivered. -/
theorem dispatch {m : Message} {rest : List Message}
    (h : Tracks sink stopOnFail s sent noted bus calls) (hm : bus.channel = m :: rest) :
    Tracks sink stopOnFail s sent noted (bus.dispatch sink stopOnFail)
      (calls ++ (bus.delivery.deliver sink stopOnFail m).2) := by
  -- the next message in the channel is the first one sent that was not handled
  have hdrop : sent.drop bus.handled = m :: rest := h.channel_eq.symm.trans hm
  have hlt : bus.handled < sent.length := by
    refine Nat.lt_of_not_le fun hle => ?_
    rw [List.drop_eq_nil_of_le hle] at hdrop
    cases hdrop
  have hget : sent[bus.handled] = m := by
    rw [List.drop_eq_getElem_cons hlt] at hdrop
    exact (List.cons.inj hdrop).1
  have htake : sent.take (bus.handled + 1) = sent.take bus.handled ++ [m] := by
    rw [List.take_succ_eq_append_getElem hlt, hget]
  have hbus : bus.dispatch sink stopOnFail =
      { bus with
        delivery := (bus.delivery.deliver sink stopOnFail m).1
        channel := rest
        calls := bus.calls ++ (bus.delivery.deliver sink stopOnFail m).2
        handled := bus.handled + 1 } := by
    unfold AsynchronousBus.dispatch
    rw [hm]
  rw [hbus]
  refine ⟨h.sent_eq, hlt, ?_, ?_, ?_, ?_⟩
  · show rest = sent.drop (bus.handled + 1)
    rw [← List.tail_drop, hdrop, List.tail_cons]
  · show (bus.delivery.deliver sink stopOnFail m).1.sink =
      (deliverAll sink stopOnFail (sent.take (bus.handled + 1)) _).sink
    rw [htake, deliverAll_append, deliver_eq, h.sink_eq]
    exact (congrArg (fun r => r.1.sink) (deliver_eq m _)).symm
  · show (bus.delivery.deliver sink stopOnFail m).1.stopped =
      ((deliverAll sink stopOnFail (sent.take (bus.handled + 1)) _).stopped || _)
    rw [htake, deliverAll_append, stopped_deliver_eq, h.sink_eq, h.stopped_eq]
    show _ = ((Delivery.deliver sink stopOnFail m _).1.stopped || _)
    rw [stopped_deliver_eq, Bool.or_assoc, Bool.or_assoc, Bool.or_comm (_ && _)]
  · show calls ++ _ = callsAll sink stopOnFail (sent.take (bus.handled + 1)) _
    rw [htake, callsAll_append, ← h.calls_eq, deliver_eq, h.sink_eq]
    show _ = calls ++ ((Delivery.deliver sink stopOnFail m _).2 ++ [])
    rw [List.append_nil, deliver_eq m (deliverAll _ _ _ _)]

end Tracks

end AsynchronousBus

end TestEngine
