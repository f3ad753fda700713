import Mathlib.Algebra.GroupWithZero.Nat
import TestEngine.Proofs.Run.Accounts

/-!
# The books of a parallel run

What the accounts of all threads of a run say together. Each message that was sent is answered or
waited for by one thread, the nodes that have not finished are those that the accounts owe, and a
result belongs to a test that was told to go on. The books are kept by every move of an account, by
the dispatcher, and when a thread joins or leaves.

* `Figures` — what the accounts say together about the answers so far.
* `Flight` — each message that was sent is answered or waited for.
* `Books.move` — every move keeps the books.
-/

namespace TestEngine

variable {σ ω : Type} {n debt past : Nat} {i : NodeIds} {c : Transport σ}
  {sh sh' : Shared σ ω} {accounts left right : List Account} {a a' : Account} {m : Message}

/-! ## Messages but the reports of panics -/

/-- The event is no part of a run, but an error of the sink. -/
def Event.isError : Event → Bool
  | .error _ => true
  | _ => false

/-- The messages that are no reports of errors, in order. -/
def news (ms : List Message) : List Message := ms.filter (!·.event.isError)

theorem news_append (ms ns : List Message) : news (ms ++ ns) = news ms ++ news ns :=
  List.filter_append ..

/-- What no error satisfies is as frequent among the news. -/
theorem countP_news {p : Message → Bool} (hp : ∀ m, m.event.isError = true → p m = false)
    (ms : List Message) : (news ms).countP p = ms.countP p := by
  rw [news, List.countP_filter]
  refine List.countP_congr fun m _ => ?_
  cases he : m.event.isError with
  | true => simp [hp m he]
  | false => simp

theorem idsWhere_news {p : Event → Bool} (hp : ∀ e, e.isError = true → p e = false)
    (ms : List Message) : idsWhere p (news ms) = idsWhere p ms := by
  unfold idsWhere news
  rw [List.filter_filter]
  refine congrArg (List.map _) (List.filter_congr fun m _ => ?_)
  cases he : m.event.isError with
  | true => simp [hp _ he]
  | false => simp

theorem startedIds_news (ms : List Message) : startedIds (news ms) = startedIds ms :=
  idsWhere_news (by rintro ⟨⟩ h <;> first | rfl | cases h) ms

theorem finishedIds_news (ms : List Message) : finishedIds (news ms) = finishedIds ms :=
  idsWhere_news (by rintro ⟨⟩ h <;> first | rfl | cases h) ms

/-- A message that starts a node is no report of an error. -/
theorem Message.beq_eq_false_of_isError {m : Message} (hm : m.event.isStarting = true)
    (m' : Message) (he : m'.event.isError = true) : (m' == m) = false := by
  refine beq_eq_false_iff_ne.mpr ?_
  rintro rfl
  obtain ⟨ids, event⟩ := m'
  cases event with
  | error _ => cases hm
  | _ => cases he

namespace Shared

/-- Delivering a message hands it to the sink, and maybe a report of a panic. -/
theorem exists_reports {m : Message} {rest : List Message} (h : sh.bus.channel = m :: rest) :
    ∃ reports, (sh.dispatch c).delivered = sh.delivered ++ m :: reports ∧
      ∀ m' ∈ reports, m'.event.isError = true := by
  have hcalls : ∃ reports,
      (sh.bus.delivery.deliver c.sink c.stopOnFail m).2.map (·.message) = m :: reports ∧
        ∀ m' ∈ reports, m'.event.isError = true := by
    simp only [Delivery.deliver]
    split
    · exact ⟨[_], rfl, List.forall_mem_singleton.mpr rfl⟩
    · exact ⟨[], rfl, List.forall_mem_nil _⟩
  obtain ⟨reports, hreports, herror⟩ := hcalls
  refine ⟨reports, ?_, herror⟩
  unfold dispatch
  rw [h, delivered, calls_record, List.map_append, List.filterMap_map, ← hreports]
  exact congrArg (sh.delivered ++ ·) (congrArg _ List.filterMap_some)

theorem news_eq_nil {ms : List Message} (h : ∀ m ∈ ms, m.event.isError = true) : news ms = [] :=
  List.filter_eq_nil_iff.mpr fun m hm => by rw [h m hm]; exact nofun

/-- What was sent does not change when it is delivered. -/
theorem news_sent_dispatch : news (sh.dispatch c).sent = news sh.sent := by
  cases hch : sh.bus.channel with
  | nil => rw [dispatch_eq_self hch]
  | cons m rest =>
    obtain ⟨reports, hdelivered, herror⟩ := exists_reports (c := c) hch
    have hsplit : ∀ ms, news (m :: ms) = news [m] ++ news ms := news_append [m]
    rw [sent, sent, hdelivered, channel_dispatch hch, hch, news_append, news_append, news_append,
      hsplit reports, hsplit rest, news_eq_nil herror, List.append_nil, List.append_assoc]

theorem answers_record (os : List Occurrence) : (sh.record os).answers =
    sh.answers ++ ({ sh with history := os } : Shared σ ω).answers := List.filterMap_append

theorem answers_dispatch : (sh.dispatch c).answers = sh.answers := by
  unfold dispatch
  split
  · rfl
  · rw [answers_record]
    refine List.append_right_eq_self.mpr (List.filterMap_eq_nil_iff.mpr fun o ho => ?_)
    obtain ⟨call, -, rfl⟩ := List.mem_map.mp ho
    rfl

theorem answers_answer (m : Message) : (sh.answer m).answers = sh.answers ++ [(m, sh.bus.goesOn)] :=
  answers_record _

theorem stopped_dispatch (h : sh.bus.delivery.stopped = true) :
    (sh.dispatch c).bus.delivery.stopped = true := by
  rw [bus_dispatch]
  unfold AsynchronousBus.dispatch
  split
  · exact h
  · exact Delivery.stopped_deliver h

/-- The messages that start a node and are not delivered yet, with their tickets. -/
def undelivered (sh : Shared σ ω) : List (Message × Nat) :=
  (sh.bus.channel.zipIdx sh.bus.handled).filter (·.1.event.isStarting)

theorem undelivered_push (hcounted : sh.Counted) (m : Message) :
    ({ sh with bus := sh.bus.push m } : Shared σ ω).undelivered =
      sh.undelivered ++ [(m, sh.bus.sent)].filter (·.1.event.isStarting) := by
  unfold undelivered
  simp only [AsynchronousBus.push, List.zipIdx_append, List.filter_append]
  rw [hcounted]
  rfl

theorem undelivered_dispatch : (sh.dispatch c).undelivered =
    sh.undelivered.filter fun x => (sh.dispatch c).bus.handled ≤ x.2 := by
  unfold undelivered
  rw [List.filter_filter]
  cases hch : sh.bus.channel with
  | nil =>
    rw [dispatch_eq_self hch, hch]
    rfl
  | cons m rest =>
    have hhandled : (sh.dispatch c).bus.handled = sh.bus.handled + 1 := by
      rw [bus_dispatch]
      unfold AsynchronousBus.dispatch
      rw [hch]
    have hpast : ¬sh.bus.handled + 1 ≤ sh.bus.handled := Nat.not_succ_le_self _
    rw [channel_dispatch hch, hhandled, List.zipIdx_cons, List.filter_cons_of_neg (by simp [hpast])]
    refine List.filter_congr fun x hx => ?_
    have hle := List.le_snd_of_mem_zipIdx hx
    simp [hle]

/-- The messages that were answered, in order. -/
def told (sh : Shared σ ω) : List Message := sh.answers.map (·.1)

theorem told_answer (m : Message) : (sh.answer m).told = sh.told ++ [m] := by
  rw [told, answers_answer, List.map_append]
  rfl

end Shared

/-! ## The books -/

namespace Account

/-- The message that the thread waits for. -/
def inChannel (a : Account) : List Message := (a.call.map (·.1)).toList

/-- The message that the thread waits for, with its ticket, if it starts a node and is not among the
first `handled` ones. -/
def waits (handled : Nat) (a : Account) : List (Message × Nat) :=
  a.call.toList.filter fun x => x.1.event.isStarting && decide (handled ≤ x.2)

theorem waits_eq_nil (h : a.call = none) (handled : Nat) : a.waits handled = [] := by
  rw [waits, h]
  rfl

theorem inChannel_eq_nil (h : a.call = none) : a.inChannel = [] := by
  rw [inChannel, h]
  rfl

/-- What a thread finishes next is part of what it owes. -/
theorem count_finishedIds_inChannel_le (h : ∀ m ticket, a.call = some (m, ticket) → a.Permits i m) :
    (finishedIds a.inChannel).count i ≤ a.owed := by
  unfold inChannel
  cases hcall : a.call with
  | none => exact Nat.zero_le _
  | some x => exact (h x.1 x.2 hcall).finished

end Account

/-- A test `i` was told to go on when it started. -/
def admits (i : NodeIds) (x : Message × Bool) : Bool :=
  x.1.event.startsTest && x.2 && decide (x.1.ids = i)

/-- A result of the test `i`. -/
def isResultOf (i : NodeIds) (m : Message) : Bool := m.event.isResult && decide (m.ids = i)

/-- Whether a test is open after a message was answered. -/
theorem Stance.openTest_after (s : Stance) (m : Message) (b : Bool) :
    (s.after (.queued m b)).openTest =
      if m.event.startsTest && b then some m.ids
      else if m.event.isResult then none else s.openTest := by
  simp only [Stance.after, Stance.afterAnswer, Stance.afterSending]
  split
  · rfl
  · split <;> rfl

/-- What a thread knows after a message was answered. -/
theorem Stance.notice_after (s : Stance) (m : Message) (b : Bool) :
    (s.after (.queued m b)).notice =
      if b || m.event.isDiagnostic || s.notice = .aware then s.notice else .told := by
  have hsending : (s.afterSending m).notice = s.notice := by
    unfold Stance.afterSending
    split <;> rfl
  simp only [Stance.after, Stance.afterAnswer, hsending]

namespace Account

/-- A thread tells the result of a test only once after it was told to go on with it. -/
theorem results_answered_le (h : a.Permits i m) (b : Bool) :
    [m].countP (isResultOf i) +
        [a.answered i m b].countP (fun a => decide (a.stance.openTest = some i)) ≤
      [(m, b)].countP (admits i) +
        [a].countP (fun a => decide (a.stance.openTest = some i)) := by
  simp only [List.countP_cons, List.countP_nil, isResultOf, admits, Account.answered,
    Stance.openTest_after, Nat.zero_add]
  by_cases hresult : m.event.isResult = true
  · have hstarts : m.event.startsTest = false := by
      obtain ⟨ids, event⟩ := m
      cases event <;> first | rfl | cases hresult
    by_cases hids : m.ids = i <;> simp [hresult, hstarts, h.result hresult, hids]
  · by_cases hadmitted : (m.event.startsTest && b) = true
    · by_cases hids : m.ids = i <;> simp [hresult, hadmitted, hids]
    · simp [hresult, hadmitted]

/-- The failed test of a thread was open, unless a test starts. -/
theorem failed_answered_le (h : a.Permits i m) {b : Bool}
    (hadmitted : (m.event.startsTest && b) = false) :
    (tally [m]).failed + [a.answered i m b].countP (·.stance.openTest.isSome) ≤
      [a].countP (·.stance.openTest.isSome) := by
  simp only [List.countP_cons, List.countP_nil, tally, Account.answered, Stance.openTest_after,
    Nat.zero_add, hadmitted, Bool.false_eq_true, if_false]
  by_cases hresult : m.event.isResult = true
  · by_cases hfailed : m.event.isTestFailure = true <;> simp [hresult, hfailed, h.result hresult]
  · have hfailed : m.event.isTestFailure ≠ true := fun hf =>
      hresult (Event.isResult_of_isTestFailure hf)
    simp [hresult, hfailed]

end Account

/-- What the accounts of at most `n` threads say together about the answers so far. The nodes `i`
that no account owes are `debt`, and the failed tests that no account has are `past`. -/
structure Figures (n : Nat) (i : NodeIds) (c : Transport σ) (debt past : Nat)
    (answers : List (Message × Bool)) (accounts : List Account) : Prop where
  length_le : accounts.length ≤ n
  owed_eq : (startedIds (answers.map (·.1))).count i =
    (finishedIds (answers.map (·.1))).count i + (accounts.map (·.owed)).sum + debt
  failed_eq : (tally (answers.map (·.1))).failed = past + (accounts.map (·.failed)).sum
  results_le : (answers.map (·.1)).countP (isResultOf i) +
    accounts.countP (fun a => decide (a.stance.openTest = some i)) ≤ answers.countP (admits i)
  failing_le : c.stopOnFail = true →
    (tally (answers.map (·.1))).failed + accounts.countP (·.stance.openTest.isSome) ≤ n

namespace Figures

variable {answers : List (Message × Bool)}

/-- An account changes only in what it says of its call and of the wish to stop. -/
theorem replace (h : Figures n i c debt past answers (left ++ a :: right))
    (howed : a'.owed = a.owed) (hfailed : a'.failed = a.failed)
    (hopen : a'.stance.openTest = a.stance.openTest) :
    Figures n i c debt past answers (left ++ a' :: right) := by
  obtain ⟨hlength, howes, hfails, hresults, hfailing⟩ := h
  simp only [List.length_append, List.length_cons, List.map_append, List.map_cons,
    List.countP_append, List.countP_cons, ← howed, ← hfailed, ← hopen] at *
  refine ⟨?_, ?_, ?_, ?_, ?_⟩ <;>
    simpa only [List.length_append, List.length_cons, List.map_append, List.map_cons,
      List.countP_append, List.countP_cons]

/-- A thread joins. It takes over what nobody's account had. -/
theorem join (h : Figures n i c (debt + a.owed) (past + a.failed) answers accounts)
    (hlength : accounts.length < n) (hopen : a.stance.openTest = none) :
    Figures n i c debt past answers (accounts ++ [a]) where
  length_le := by
    rw [List.length_append]
    exact hlength
  owed_eq := by
    have howes := h.owed_eq
    simp only [List.map_append, List.sum_append, List.map_cons, List.map_nil, List.sum_cons,
      List.sum_nil]
    omega
  failed_eq := by
    have hfails := h.failed_eq
    simp only [List.map_append, List.sum_append, List.map_cons, List.map_nil, List.sum_cons,
      List.sum_nil]
    omega
  results_le := by simpa [List.countP_append, hopen] using h.results_le
  failing_le := by simpa [List.countP_append, hopen] using h.failing_le

/-- A thread leaves. -/
theorem leave (h : Figures n i c debt past answers (left ++ a :: right)) :
    Figures n i c (debt + a.owed) (past + a.failed) answers (left ++ right) where
  length_le := by
    have hle := h.length_le
    simp only [List.length_append, List.length_cons] at hle ⊢
    omega
  owed_eq := by
    have howes := h.owed_eq
    simp only [List.map_append, List.sum_append, List.map_cons, List.sum_cons] at howes ⊢
    omega
  failed_eq := by
    have hfails := h.failed_eq
    simp only [List.map_append, List.sum_append, List.map_cons, List.sum_cons] at hfails ⊢
    omega
  results_le := by
    have hle := h.results_le
    simp only [List.countP_append, List.countP_cons] at hle ⊢
    omega
  failing_le := by
    intro hstop
    have hle := h.failing_le hstop
    simp only [List.countP_append, List.countP_cons] at hle ⊢
    omega

/-- A message is answered. With stop-on-fail a thread is told to go on only if no test failed. -/
theorem answer {m : Message} {b : Bool}
    (h : Figures n i c debt past answers (left ++ a :: right)) (hpermits : a.Permits i m)
    (hunfailed : c.stopOnFail = true → b = true → (tally (answers.map (·.1))).failed = 0) :
    Figures n i c debt past (answers ++ [(m, b)]) (left ++ a.answered i m b :: right) where
  length_le := by simpa using h.length_le
  owed_eq := by
    have howes := h.owed_eq
    have hle := hpermits.finished
    simp only [List.map_append, List.sum_append, List.map_cons, List.sum_cons, List.map_nil,
      startedIds, finishedIds, count_idsWhere_append, Account.answered] at howes hle ⊢
    omega
  failed_eq := by
    have hfails := h.failed_eq
    simp only [List.map_append, List.sum_append, List.map_cons, List.sum_cons, List.map_nil,
      tally_append, Counts.failed_add, Account.answered] at hfails ⊢
    omega
  results_le := by
    have hle := h.results_le
    have hstep := a.results_answered_le hpermits b
    simp only [List.map_append, List.countP_append, List.countP_cons, List.countP_nil,
      List.map_cons, List.map_nil] at hle hstep ⊢
    omega
  failing_le := by
    intro hstop
    have hle := h.failing_le hstop
    by_cases hadmitted : (m.event.startsTest && b) = true
    · -- a test that goes on is open now, but then no test has failed
      obtain ⟨hstarts, rfl⟩ := (Bool.and_eq_true _ _).mp hadmitted
      have hfailed : (tally [m]).failed = 0 := by
        obtain ⟨ids, event⟩ := m
        cases event <;> first | rfl | cases hstarts
      have hlength := h.length_le
      have hopen := List.countP_le_length (p := fun a : Account => a.stance.openTest.isSome)
        (l := left ++ a.answered i m true :: right)
      simp only [List.length_append, List.length_cons] at hlength hopen
      rw [List.map_append, tally_append, Counts.failed_add, hunfailed hstop rfl]
      show 0 + (tally [m]).failed + _ ≤ n
      omega
    · have hstep := a.failed_answered_le hpermits (Bool.not_eq_true _ ▸ hadmitted)
      simp only [List.map_append, List.countP_append, List.countP_cons, tally_append,
        Counts.failed_add, List.map_cons, List.map_nil] at hle hstep ⊢
      omega

end Figures

/-! ## Messages in flight -/

/-- What was sent is answered or waited for. -/
structure Flight (i : NodeIds) (c : Transport σ) (sh : Shared σ ω) (accounts : List Account) :
    Prop where
  counted : sh.Counted
  /-- Each message that starts a node and is not delivered has one thread that waits for it. -/
  waits_perm : sh.undelivered.Perm (accounts.flatMap (·.waits sh.bus.handled))
  sent_perm : (news sh.sent).Perm (news (sh.told ++ accounts.flatMap (·.inChannel)))
  unfailed : c.stopOnFail = true → sh.bus.delivery.stopped = false → (tally sh.sent).failed = 0
  permits : ∀ a ∈ accounts, ∀ m ticket, a.call = some (m, ticket) → a.Permits i m

theorem forall_mem_replace {P : Account → Prop} (h : ∀ x ∈ left ++ a :: right, P x) (ha : P a') :
    ∀ x ∈ left ++ a' :: right, P x := by
  obtain ⟨hleft, hright⟩ := List.forall_mem_append.mp h
  refine List.forall_mem_append.mpr ⟨hleft, List.forall_mem_cons.mpr ⟨ha, ?_⟩⟩
  exact (List.forall_mem_cons.mp hright).2

theorem Event.not_isTestFailure_of_isError (m : Message) (h : m.event.isError = true) :
    m.event.isTestFailure = false := by
  obtain ⟨ids, event⟩ := m
  cases event <;> first | rfl | cases h

theorem failed_news (ms : List Message) : (tally (news ms)).failed = (tally ms).failed :=
  countP_news Event.not_isTestFailure_of_isError ms

namespace Flight

/-- The bus changes only in the wish to stop, and a thread in no call makes a step. -/
theorem replace (h : Flight i c sh (left ++ a :: right)) (hcall : a.call = none)
    (hcall' : a'.call = none) (hcounted : sh'.Counted)
    (hundelivered : sh'.undelivered = sh.undelivered) (hhandled : sh'.bus.handled = sh.bus.handled)
    (hanswers : sh'.answers = sh.answers) (hsent : sh'.sent = sh.sent)
    (hstopped : sh.bus.delivery.stopped = true → sh'.bus.delivery.stopped = true) :
    Flight i c sh' (left ++ a' :: right) where
  counted := hcounted
  waits_perm := by
    have hwaits := h.waits_perm
    rw [hundelivered, hhandled]
    simp only [List.flatMap_append, List.flatMap_cons, Account.waits_eq_nil hcall,
      Account.waits_eq_nil hcall'] at hwaits ⊢
    exact hwaits
  sent_perm := by
    have hperm := h.sent_perm
    rw [hsent, Shared.told, hanswers]
    simp only [List.flatMap_append, List.flatMap_cons, Account.inChannel_eq_nil hcall,
      Account.inChannel_eq_nil hcall'] at hperm ⊢
    exact hperm
  unfailed := by
    intro hstop hgo
    rw [hsent]
    refine h.unfailed hstop (Bool.eq_false_iff.mpr fun hs => ?_)
    rw [hstopped hs] at hgo
    cases hgo
  permits := forall_mem_replace h.permits fun m ticket ha => by rw [hcall'] at ha; cases ha

/-- A message goes into the channel. -/
theorem push (h : Flight i c sh (left ++ a :: right)) (hcall : a.call = none)
    (hpermits : a.Permits i m)
    (hnoted : c.stopOnFail = true → m.event.isTestFailure = true →
      sh.bus.delivery.stopped = true) :
    Flight i c { sh with bus := sh.bus.push m }
      (left ++ { a with call := some (m, sh.bus.sent) } :: right) where
  counted := h.counted.push m
  waits_perm := by
    have hwaits := h.waits_perm
    -- the ticket of the new message is `sent`, and no more than that is handled
    have hle : sh.bus.handled ≤ sh.bus.sent := by
      rw [← h.counted]
      exact Nat.le_add_right _ _
    have hnew : ({ a with call := some (m, sh.bus.sent) } : Account).waits sh.bus.handled =
        [(m, sh.bus.sent)].filter (·.1.event.isStarting) := by
      simp [Account.waits, List.filter_singleton, hle]
    rw [Shared.undelivered_push h.counted]
    simp only [List.flatMap_append, List.flatMap_cons, Account.waits_eq_nil hcall,
      List.nil_append] at hwaits ⊢
    show (sh.undelivered ++ _).Perm (_ ++ (Account.waits sh.bus.handled _ ++ _))
    rw [hnew]
    refine (hwaits.append_right _).trans ?_
    rw [List.append_assoc]
    exact List.perm_append_comm.append_left _
  sent_perm := by
    have hperm := h.sent_perm
    rw [Shared.sent_push, news_append]
    simp only [List.flatMap_append, List.flatMap_cons, Account.inChannel_eq_nil hcall,
      List.nil_append] at hperm ⊢
    refine (hperm.append_right _).trans ?_
    rw [← news_append]
    refine List.Perm.filter _ ?_
    show (sh.told ++ (_ ++ _) ++ [m]).Perm (sh.told ++ (_ ++ ([m] ++ _)))
    rw [List.append_assoc, List.append_assoc]
    exact (List.perm_append_comm.append_left _).append_left _
  unfailed := by
    intro hstop hgo
    have hnot : m.event.isTestFailure ≠ true := fun hf =>
      Bool.false_ne_true (hgo.symm.trans (hnoted hstop hf))
    rw [Shared.sent_push, tally_append, Counts.failed_add, h.unfailed hstop hgo]
    simp [tally, hnot]
  permits := by
    refine forall_mem_replace h.permits ?_
    rintro m' ticket ⟨⟩
    exact ⟨hpermits.free, hpermits.starting, hpermits.result, hpermits.finished⟩

/-- A message is answered. -/
theorem answer {ticket : Nat} (h : Flight i c sh (left ++ a :: right))
    (hcall : a.call = some (m, ticket)) (hanswers : sh.bus.answers m ticket = true) :
    Flight i c (sh.answer m) (left ++ a.answered i m sh.bus.goesOn :: right) where
  counted := h.counted
  waits_perm := by
    have hwaits := h.waits_perm
    -- a message that starts a node is delivered when it is answered
    have hnone : a.waits sh.bus.handled = [] := by
      simp only [AsynchronousBus.answers, AsynchronousBus.waitsForDelivery, Bool.or_eq_true,
        Bool.not_eq_true', decide_eq_true_eq] at hanswers
      rcases hanswers with hstarts | hlt
      · simp [Account.waits, hcall, hstarts]
      · simp [Account.waits, hcall, hlt]
    simp only [List.flatMap_append, List.flatMap_cons, hnone, List.nil_append] at hwaits
    rw [List.flatMap_append, List.flatMap_cons, Account.waits_eq_nil rfl]
    exact hwaits
  sent_perm := by
    have hperm := h.sent_perm
    have hone : a.inChannel = [m] := by rw [Account.inChannel, hcall]; rfl
    rw [Shared.sent_answer, Shared.told_answer]
    simp only [List.flatMap_append, List.flatMap_cons, hone] at hperm
    rw [List.flatMap_append, List.flatMap_cons, Account.inChannel_eq_nil rfl, List.nil_append]
    refine hperm.trans (List.Perm.filter _ ?_)
    rw [List.append_assoc]
    exact List.perm_middle.append_left _
  unfailed := by
    intro hstop hgo
    rw [Shared.sent_answer]
    exact h.unfailed hstop hgo
  permits := forall_mem_replace h.permits fun _ _ ha => nomatch ha

/-- The dispatcher delivers a message. -/
theorem dispatch (h : Flight i c sh accounts) : Flight i c (sh.dispatch c) accounts where
  counted := h.counted.dispatch
  waits_perm := by
    have hle : sh.bus.handled ≤ (sh.dispatch c).bus.handled := by
      rw [Shared.bus_dispatch]
      unfold AsynchronousBus.dispatch
      split
      · exact Nat.le_refl _
      · exact Nat.le_succ _
    -- of what was waited for, only what has a later ticket still is
    have hfilter := h.waits_perm.filter fun x => decide ((sh.dispatch c).bus.handled ≤ x.2)
    rw [Shared.undelivered_dispatch]
    refine hfilter.trans (.of_eq ?_)
    rw [List.filter_flatMap]
    refine List.flatMap_congr fun a _ => ?_
    rw [Account.waits, Account.waits, List.filter_filter]
    refine List.filter_congr fun x _ => ?_
    by_cases hlater : (sh.dispatch c).bus.handled ≤ x.2
    · simp [hlater, Nat.le_trans hle hlater]
    · simp [hlater]
  sent_perm := by
    rw [Shared.news_sent_dispatch, Shared.told, Shared.answers_dispatch]
    exact h.sent_perm
  unfailed := by
    intro hstop hgo
    rw [← failed_news, Shared.news_sent_dispatch, failed_news]
    refine h.unfailed hstop (Bool.eq_false_iff.mpr fun hs => ?_)
    rw [Shared.stopped_dispatch hs] at hgo
    cases hgo
  permits := h.permits

/-- A thread joins. -/
theorem join (h : Flight i c sh accounts) (hcall : a.call = none) :
    Flight i c sh (accounts ++ [a]) where
  counted := h.counted
  waits_perm := by
    rw [List.flatMap_append, List.flatMap_singleton, Account.waits_eq_nil hcall, List.append_nil]
    exact h.waits_perm
  sent_perm := by
    rw [List.flatMap_append, List.flatMap_singleton, Account.inChannel_eq_nil hcall,
      List.append_nil]
    exact h.sent_perm
  unfailed := h.unfailed
  permits := by
    refine List.forall_mem_append.mpr
      ⟨h.permits, List.forall_mem_singleton.mpr fun m ticket ha => ?_⟩
    rw [hcall] at ha
    cases ha

/-- A thread in no call leaves. -/
theorem leave (h : Flight i c sh (left ++ a :: right)) (hcall : a.call = none) :
    Flight i c sh (left ++ right) where
  counted := h.counted
  waits_perm := by
    have hwaits := h.waits_perm
    rw [List.flatMap_append, List.flatMap_cons, Account.waits_eq_nil hcall,
      List.nil_append] at hwaits
    rw [List.flatMap_append]
    exact hwaits
  sent_perm := by
    have hperm := h.sent_perm
    rw [List.flatMap_append, List.flatMap_cons, Account.inChannel_eq_nil hcall,
      List.nil_append] at hperm
    rw [List.flatMap_append]
    exact hperm
  unfailed := h.unfailed
  permits := by
    obtain ⟨hleft, hright⟩ := List.forall_mem_append.mp h.permits
    exact List.forall_mem_append.mpr ⟨hleft, (List.forall_mem_cons.mp hright).2⟩

end Flight

/-! ## Keeping the books -/

/-- The books of the threads of a run that is to have `n` workers at most. -/
structure Books (n : Nat) (i : NodeIds) (c : Transport σ) (debt past : Nat) (sh : Shared σ ω)
    (accounts : List Account) : Prop where
  figures : Figures n i c debt past sh.answers accounts
  flight : Flight i c sh accounts

namespace Books

/-- With stop-on-fail, no test has failed while the run goes on. -/
theorem failed_told (h : Books n i c debt past sh accounts) (hstop : c.stopOnFail = true)
    (hgo : sh.bus.delivery.stopped = false) : (tally sh.told).failed = 0 := by
  have hsent := h.flight.unfailed hstop hgo
  have hperm : (tally (news sh.sent)).failed =
      (tally (news (sh.told ++ accounts.flatMap (·.inChannel)))).failed :=
    h.flight.sent_perm.countP_eq _
  rw [failed_news, failed_news, tally_append, Counts.failed_add] at hperm
  omega

/-- **Every move keeps the books.** -/
theorem move (h : Books n i c debt past sh (left ++ a :: right)) (hm : Moves i c a sh a' sh') :
    Books n i c debt past sh' (left ++ a' :: right) := by
  obtain ⟨hfigures, hflight⟩ := h
  cases hm with
  | idle hcall hbus hcancelled hanswers hdelivered =>
    refine ⟨hanswers ▸ hfigures, hflight.replace hcall hcall ?_ ?_ ?_ hanswers ?_ ?_⟩
    · rw [Shared.Counted, hbus]
      exact hflight.counted
    · rw [Shared.undelivered, hbus]
      rfl
    · rw [hbus]
    · rw [Shared.sent, hdelivered, hbus]
      rfl
    · rw [hbus]
      exact id
  | cancel hcall =>
    exact ⟨hfigures.replace rfl rfl rfl, hflight.replace hcall hcall hflight.counted rfl rfl rfl rfl
      id⟩
  | alert hcall hcancelled =>
    exact ⟨hfigures.replace rfl rfl rfl, hflight.replace hcall hcall hflight.counted rfl rfl rfl rfl
      id⟩
  | note m hcall =>
    exact ⟨hfigures, hflight.replace hcall hcall hflight.counted rfl rfl rfl rfl
      Delivery.stopped_noteFailure⟩
  | push hcall hpermits hnoted =>
    exact ⟨hfigures.replace rfl rfl rfl, hflight.push hcall hpermits hnoted⟩
  | answer hcall hpermits hanswers =>
    refine ⟨?_, hflight.answer hcall hanswers⟩
    rw [Shared.answers_answer]
    refine hfigures.answer hpermits fun hstop hgo => ?_
    exact failed_told ⟨hfigures, hflight⟩ hstop (Bool.not_eq_true' _ ▸ hgo)

theorem dispatch (h : Books n i c debt past sh accounts) :
    Books n i c debt past (sh.dispatch c) accounts where
  figures := by
    rw [Shared.answers_dispatch]
    exact h.figures
  flight := h.flight.dispatch

theorem join (h : Books n i c (debt + a.owed) (past + a.failed) sh accounts)
    (hlength : accounts.length < n) (hopen : a.stance.openTest = none) (hcall : a.call = none) :
    Books n i c debt past sh (accounts ++ [a]) :=
  ⟨h.figures.join hlength hopen, h.flight.join hcall⟩

theorem leave (h : Books n i c debt past sh (left ++ a :: right)) (hcall : a.call = none) :
    Books n i c (debt + a.owed) (past + a.failed) sh (left ++ right) :=
  ⟨h.figures.leave, h.flight.leave hcall⟩

/-! ### What the books say -/

/-- Among what was sent, no more nodes have finished than started. -/
theorem count_finishedIds_sent_le (h : Books n i c debt past sh accounts) :
    (finishedIds sh.sent).count i ≤ (startedIds sh.sent).count i := by
  have howes := h.figures.owed_eq
  have hcalls : ∀ {accounts : List Account},
      (∀ a ∈ accounts, ∀ m ticket, a.call = some (m, ticket) → a.Permits i m) →
      (finishedIds (accounts.flatMap (·.inChannel))).count i ≤ (accounts.map (·.owed)).sum := by
    intro accounts hpermits
    induction accounts with
    | nil => exact Nat.zero_le _
    | cons a accounts ih =>
      obtain ⟨ha, hrest⟩ := List.forall_mem_cons.mp hpermits
      rw [List.flatMap_cons, finishedIds, count_idsWhere_append, List.map_cons, List.sum_cons]
      exact Nat.add_le_add (Account.count_finishedIds_inChannel_le ha) (ih hrest)
  have hsum := hcalls h.flight.permits
  have hstarted : (startedIds (news sh.sent)).count i =
      (startedIds (news (sh.told ++ accounts.flatMap (·.inChannel)))).count i :=
    ((h.flight.sent_perm.filter _).map _).count_eq i
  have hfinished : (finishedIds (news sh.sent)).count i =
      (finishedIds (news (sh.told ++ accounts.flatMap (·.inChannel)))).count i :=
    ((h.flight.sent_perm.filter _).map _).count_eq i
  rw [startedIds_news, startedIds_news, startedIds, startedIds, count_idsWhere_append] at hstarted
  rw [finishedIds_news, finishedIds_news, finishedIds, finishedIds,
    count_idsWhere_append] at hfinished
  simp only [startedIds, finishedIds, Shared.told] at *
  omega

/-- What the threads wait for, if each thread that waits for a message of some kind is of another
kind. -/
theorem countP_inChannel_le {p : Message → Bool} {q : Account → Bool}
    (h : ∀ a ∈ accounts, ∀ m ticket, a.call = some (m, ticket) → p m = true → q a = true) :
    (accounts.flatMap (·.inChannel)).countP p ≤ accounts.countP q := by
  induction accounts with
  | nil => exact Nat.le_refl _
  | cons a accounts ih =>
    obtain ⟨ha, hrest⟩ := List.forall_mem_cons.mp h
    rw [List.flatMap_cons, List.countP_append, List.countP_cons, Nat.add_comm]
    refine Nat.add_le_add (ih hrest) ?_
    unfold Account.inChannel
    cases hcall : a.call with
    | none => exact Nat.zero_le _
    | some x =>
      by_cases hp : p x.1 = true
      · rw [if_pos (ha x.1 x.2 hcall hp)]
        exact List.countP_le_length
      · simp [hp]

/-- What was sent, but for reports of errors, was answered or is waited for. -/
theorem countP_sent (h : Books n i c debt past sh accounts) {p : Message → Bool}
    (hp : ∀ m, m.event.isError = true → p m = false) :
    sh.sent.countP p = sh.told.countP p + (accounts.flatMap (·.inChannel)).countP p := by
  rw [← countP_news hp, h.flight.sent_perm.countP_eq, countP_news hp, List.countP_append]

/-- A test has no more results than it was told to go on. -/
theorem results_sent_le (h : Books n i c debt past sh accounts) :
    sh.sent.countP (isResultOf i) ≤ sh.answers.countP (admits i) := by
  have hnone : ∀ m : Message, m.event.isError = true → isResultOf i m = false := by
    rintro ⟨ids, event⟩ he
    cases event <;> first | rfl | cases he
  have hcalls : (accounts.flatMap (·.inChannel)).countP (isResultOf i) ≤
      accounts.countP fun a => decide (a.stance.openTest = some i) := by
    refine countP_inChannel_le fun a ha m ticket hcall hm => ?_
    obtain ⟨hresult, hids⟩ := (Bool.and_eq_true _ _).mp hm
    rw [(h.flight.permits a ha m ticket hcall).result hresult, of_decide_eq_true hids]
    exact decide_eq_true rfl
  rw [h.countP_sent hnone]
  exact Nat.le_trans (Nat.add_le_add_left hcalls _) h.figures.results_le

/-- With stop-on-fail no more tests fail than there are workers. -/
theorem failed_sent_le (h : Books n i c debt past sh accounts) (hstop : c.stopOnFail = true) :
    (tally sh.sent).failed ≤ n := by
  have hcalls : (accounts.flatMap (·.inChannel)).countP (·.event.isTestFailure) ≤
      accounts.countP (·.stance.openTest.isSome) := by
    refine countP_inChannel_le fun a ha m ticket hcall hm => ?_
    rw [(h.flight.permits a ha m ticket hcall).result (Event.isResult_of_isTestFailure hm)]
    rfl
  have hsent : (tally sh.sent).failed = (tally sh.told).failed + _ :=
    h.countP_sent Event.not_isTestFailure_of_isError
  rw [hsent]
  exact Nat.le_trans (Nat.add_le_add_left hcalls _) (h.figures.failing_le hstop)

/-- A message that starts a node is answered no more often than it was delivered. -/
theorem count_told_le (h : Books n i c debt past sh accounts) {m : Message}
    (hm : m.event.isStarting = true) : sh.told.count m ≤ sh.delivered.count m := by
  have hsent : sh.sent.count m = sh.told.count m + (accounts.flatMap (·.inChannel)).count m :=
    h.countP_sent (Message.beq_eq_false_of_isError hm)
  rw [Shared.sent, List.count_append] at hsent
  -- each of those that are not delivered is waited for
  have hchannel : sh.bus.channel.count m = sh.undelivered.countP fun x => x.1 == m := by
    have hfst : (sh.bus.channel.zipIdx sh.bus.handled).map (·.1) = sh.bus.channel :=
      List.zipIdx_map_fst _ _
    rw [Shared.undelivered, List.countP_filter, List.count, ← hfst, List.countP_map, hfst]
    refine List.countP_congr fun x _ => ?_
    simp only [Function.comp, Bool.and_eq_true, beq_iff_eq]
    exact ⟨fun he => ⟨he, he ▸ hm⟩, And.left⟩
  have hwaits : (accounts.flatMap (·.waits sh.bus.handled)).countP (fun x => x.1 == m) ≤
      (accounts.flatMap (·.inChannel)).count m := by
    have hmap : accounts.flatMap (·.inChannel) =
        (accounts.flatMap (·.call.toList)).map (·.1) := by
      rw [List.map_flatMap]
      refine List.flatMap_congr fun a _ => ?_
      unfold Account.inChannel
      cases a.call <;> rfl
    have hfilter : accounts.flatMap (·.waits sh.bus.handled) =
        (accounts.flatMap (·.call.toList)).filter fun x =>
          x.1.event.isStarting && decide (sh.bus.handled ≤ x.2) := by
      rw [List.filter_flatMap]
      rfl
    rw [hmap, hfilter, List.count, List.countP_map]
    exact List.filter_sublist.countP_le
  rw [h.flight.waits_perm.countP_eq] at hchannel
  omega

end Books

end TestEngine
