import CallCapture.Proofs.Event.Subscriptions

/-!
What the owners of subscriptions see of a run: each gets its window of the published events, and
what is done with the other subscriptions does not reach it.
-/

namespace CallCapture

open StreamOperation (subscribed published Live)

namespace EventStream

variable {stream : EventStream} {id : Nat} {operations : List StreamOperation}

/-! ### Other subscriptions -/

theorem answer_congr {first second : EventStream} {operation : StreamOperation}
    (same : first.find? id = second.find? id) (own : operation.isOn id = true) :
    (first.perform operation).1 = (second.perform operation).1 := by
  have pending : first.pending id = second.pending id := by
    rw [EventStream.pending, EventStream.pending, same]
  cases operation with
  | receive other | drain other | unsubscribe other =>
      have on : other = id := by simpa [StreamOperation.isOn] using own
      simp [perform, receive, drain, on, pending]
  | clone | subscribe filter | publish event => cases own

/-- What is answered about a subscription depends on no other one. -/
theorem exchangesOn_congr {first second : EventStream} (same : first.find? id = second.find? id)
    (madeFirst : id < first.nextId) (madeSecond : id < second.nextId)
    (operations : List StreamOperation) :
    exchangesOn id (first.transcript operations) =
      exchangesOn id (second.transcript operations) := by
  induction operations generalizing first second with
  | nil => rfl
  | cons operation rest ih =>
      have next : (first.perform operation).2.find? id = (second.perform operation).2.find? id := by
        rw [find?_perform_of_lt madeFirst, find?_perform_of_lt madeSecond, same]
      have later := ih next (lt_nextId_perform madeFirst operation)
        (lt_nextId_perform madeSecond operation)
      rw [transcript, transcript, exchangesOn_cons, exchangesOn_cons, later]
      by_cases own : operation.isOn id = true
      · rw [answer_congr same own]
      · rw [if_neg own, if_neg own]

/-- Leaving out what is done with other subscriptions changes no answer about this one. -/
theorem exchangesOn_filter (made : id < stream.nextId) (operations : List StreamOperation) :
    exchangesOn id (stream.transcript (operations.filter (·.concerns id))) =
      exchangesOn id (stream.transcript operations) := by
  induction operations generalizing stream with
  | nil => rfl
  | cons operation rest ih =>
      have later := ih (lt_nextId_perform made operation)
      by_cases concerned : operation.concerns id = true
      · rw [List.filter_cons_of_pos concerned, transcript, transcript, exchangesOn_cons,
          exchangesOn_cons, later]
      · -- The run that leaves the operation out goes on from a stream that looks the same.
        have same : (stream.perform operation).2.find? id = stream.find? id := by
          rw [find?_perform_of_lt made]
          cases found : stream.find? id with
          | none => rfl
          | some subscription =>
              rw [Option.bind_some]
              apply Subscription.after_of_not_concerns
              rw [find?_id found]
              exact Bool.eq_false_iff.mpr concerned
        have other : ¬ operation.isOn id = true := by
          intro own
          simp [StreamOperation.concerns, own] at concerned
        rw [List.filter_cons_of_neg concerned, transcript, exchangesOn_cons, if_neg other, ← later]
        exact exchangesOn_congr same.symm made (lt_nextId_perform made operation) _

/-! ### Live subscriptions -/

/-- The subscriptions stand in the order of their numbers, all of which were given out. -/
structure Numbered (stream : EventStream) : Prop where
  ascending : stream.subscriptions.Pairwise (·.id < ·.id)
  made : ∀ subscription ∈ stream.subscriptions, subscription.id < stream.nextId

theorem Numbered.map (numbered : stream.Numbered) {change : Subscription → Subscription}
    (keeps : ∀ subscription, (change subscription).id = subscription.id) :
    Numbered { stream with subscriptions := stream.subscriptions.map change } where
  ascending := by
    rw [List.pairwise_map]
    simpa only [keeps] using numbered.ascending
  made := by
    intro subscription among
    rcases List.mem_map.mp among with ⟨original, listed, rfl⟩
    rw [keeps]
    exact numbered.made original listed

theorem Numbered.discard (numbered : stream.Numbered) (id count : Nat) :
    (stream.discard id count).Numbered := by
  apply numbered.map
  intro subscription
  split <;> rfl

theorem Numbered.perform (numbered : stream.Numbered) (operation : StreamOperation) :
    (stream.perform operation).2.Numbered := by
  cases operation with
  | clone => exact numbered
  | subscribe filter =>
      refine ⟨?_, ?_⟩
      · refine List.pairwise_append.mpr ⟨numbered.ascending, List.pairwise_singleton _ _, ?_⟩
        intro subscription among last latest
        cases List.mem_singleton.mp latest
        exact numbered.made subscription among
      · intro subscription among
        rcases List.mem_append.mp among with older | latest
        · exact Nat.lt_succ_of_lt (numbered.made subscription older)
        · cases List.mem_singleton.mp latest
          exact Nat.lt_succ_self _
  | publish event => exact numbered.map fun subscription => deliver_id subscription event
  | receive id => exact numbered.discard id 1
  | drain id => exact numbered.discard id _
  | unsubscribe id =>
      refine ⟨numbered.ascending.filter _, ?_⟩
      intro subscription among
      exact numbered.made subscription (List.mem_filter.mp among).1

theorem Numbered.run (numbered : stream.Numbered) (operations : List StreamOperation) :
    (stream.run operations).Numbered := by
  induction operations generalizing stream with
  | nil => exact numbered
  | cons operation rest ih => exact ih (numbered.perform operation)

theorem mem_ids_iff (stream : EventStream) (id : Nat) :
    id ∈ stream.subscriptions.map Subscription.id ↔ stream.find? id ≠ none := by
  simp [find?, List.find?_eq_none]

theorem find?_run_ne_none_iff (operations : List StreamOperation) (id : Nat) :
    (empty.run operations).find? id ≠ none ↔ Live operations id := by
  constructor
  · intro present
    by_cases made : id < subscribed operations
    · rcases StreamOperation.exists_subscribe made with ⟨before, filter, rest, split, number⟩
      refine ⟨before, filter, rest, split, number, ?_⟩
      intro dropped
      rcases List.append_of_mem dropped with ⟨during, after, rfl⟩
      subst number
      have silent := run_dropped (lt_nextId_run (opened_nextId before filter) during) after
      rw [split, List.append_cons, run_append, run_append] at present
      exact present silent.1
    · exact absurd (run_unmade (Nat.le_of_not_lt made)).1 present
  · intro live
    rcases live with ⟨before, filter, during, rfl, rfl, kept⟩
    rcases run_yields (opened_nextId before filter) (opened_subscription before filter) kept with
      ⟨last, found, _⟩
    rw [List.append_cons, run_append, found]
    exact Option.some_ne_none last

/-! ### Pending events -/

theorem pending_discard (stream : EventStream) (id count : Nat) :
    (stream.discard id count).pending id = (stream.pending id).drop count := by
  rw [EventStream.pending, EventStream.pending, find?_discard]
  cases found : stream.find? id with
  | none => simp
  | some subscription => simp [find?_id found, Subscription.discard]

/-- Receiving again and again yields what is pending, the oldest first. -/
theorem yielded_receives (stream : EventStream) (id count : Nat) :
    yielded id (stream.transcript (List.replicate count (.receive id))) =
      (stream.pending id).take count := by
  induction count generalizing stream with
  | zero => rfl
  | succ count ih =>
      have later := ih (stream.discard id 1)
      rw [pending_discard] at later
      have first : StreamExchange.yieldedBy id
          ⟨.receive id, (stream.perform (.receive id)).1⟩ = (stream.pending id).take 1 := by
        simp [perform, receive, StreamExchange.yieldedBy, List.take_one]
      calc yielded id (stream.transcript (List.replicate (count + 1) (.receive id)))
        _ = (stream.pending id).take 1 ++ ((stream.pending id).drop 1).take count := by
          rw [List.replicate_succ, transcript, yielded_cons, first]
          exact congrArg _ later
        _ = (stream.pending id).take (count + 1) := by
          rw [Nat.add_comm, List.take_add]

theorem yielded_drain (stream : EventStream) (id : Nat) :
    yielded id (stream.transcript [.drain id]) = stream.pending id := by
  simp [transcript, yielded, perform, drain, StreamExchange.yieldedBy]

theorem pending_drain (stream : EventStream) (id : Nat) :
    (stream.run [.drain id]).pending id = [] :=
  (pending_discard stream id (stream.pending id).length).trans List.drop_length

/-! ### What a run amounts to -/

/-- What the owners of subscriptions see of a run. -/
structure FansOut (operations : List StreamOperation) : Prop where
  /-- Until it is dropped, if it is, a subscription gets the published events that pass its filter,
  each once and in their order: they were yielded, or they are pending. -/
  window : ∀ before filter during after,
    operations = before ++ .subscribe filter :: (during ++ after) →
    .unsubscribe (subscribed before) ∉ during →
    (∀ first ∈ after.head?, first = .unsubscribe (subscribed before)) →
    ((empty.run before).perform (.subscribe filter)).1 = .subscribed (subscribed before) ∧
    yielded (subscribed before) (empty.transcript operations) ++
        (empty.run (before ++ .subscribe filter :: during)).pending (subscribed before) =
      (published during).filter (·.passes filter)
  /-- Each further event that is received is the oldest that is pending. -/
  receives : ∀ id count,
    yielded id (empty.transcript (operations ++ List.replicate count (.receive id))) =
      yielded id (empty.transcript operations) ++ ((empty.run operations).pending id).take count
  /-- Draining a subscription yields all that is pending, and leaves nothing. -/
  drains : ∀ id,
    yielded id (empty.transcript (operations ++ [.drain id])) =
        yielded id (empty.transcript operations) ++ (empty.run operations).pending id ∧
      (empty.run (operations ++ [.drain id])).pending id = []
  counted : ∃ ids : List Nat, ids.Pairwise (· < ·) ∧ (∀ id, id ∈ ids ↔ Live operations id) ∧
    (empty.run operations).size = ids.length
  /-- In another run in which the same is published and done with a subscription, its owner gets
  the same answers, whatever the two runs do with other subscriptions. -/
  apart : ∀ before filter rest before' rest',
    operations = before ++ .subscribe filter :: rest →
    subscribed before' = subscribed before →
    rest'.filter (·.concerns (subscribed before)) =
      rest.filter (·.concerns (subscribed before)) →
    exchangesOn (subscribed before)
        ((empty.run (before' ++ [.subscribe filter])).transcript rest') =
      exchangesOn (subscribed before)
        ((empty.run (before ++ [.subscribe filter])).transcript rest)

theorem run_window (before : List StreamOperation) (filter : Option EventKind)
    {during after : List StreamOperation} (kept : .unsubscribe (subscribed before) ∉ during)
    (ends : ∀ first ∈ after.head?, first = .unsubscribe (subscribed before)) :
    yielded (subscribed before)
        (empty.transcript (before ++ .subscribe filter :: (during ++ after))) ++
      (empty.run (before ++ .subscribe filter :: during)).pending (subscribed before) =
      (published during).filter (·.passes filter) := by
  let opened := empty.run (before ++ [.subscribe filter])
  have made := opened_nextId before filter
  have early := (run_unmade (Nat.le_refl (subscribed before))).2
  have late : yielded (subscribed before) ((opened.run during).transcript after) = [] := by
    cases after with
    | nil => rfl
    | cons first rest =>
        rw [ends first rfl]
        exact (run_dropped (lt_nextId_run made during) rest).2
  rcases run_yields made (opened_subscription before filter) kept with ⟨last, found, yields⟩
  have pending : (empty.run (before ++ .subscribe filter :: during)).pending (subscribed before) =
      last.pending := by
    rw [List.append_cons, run_append, EventStream.pending, found]
    rfl
  have whole : yielded (subscribed before)
      (empty.transcript (before ++ .subscribe filter :: (during ++ after))) =
        yielded (subscribed before) (opened.transcript during) := by
    rw [List.append_cons, transcript_append, yielded_append, transcript_append, yielded_append,
      transcript_append, yielded_append, early, late, List.append_nil]
    rfl
  rw [pending, whole, yields]
  rfl

/-- Every subscription gets its window of what is published, and nothing else reaches it. -/
theorem run_fans_out (operations : List StreamOperation) : FansOut operations where
  window := by
    rintro before filter during after rfl kept ends
    refine ⟨?_, run_window before filter kept ends⟩
    exact congrArg StreamAnswer.subscribed (empty_run_nextId before)
  receives id count := by
    rw [transcript_append, yielded_append, yielded_receives]
  drains id := by
    rw [transcript_append, yielded_append, yielded_drain, run_append]
    exact ⟨rfl, pending_drain _ id⟩
  counted := by
    have numbered : (empty.run operations).Numbered :=
      Numbered.run ⟨List.Pairwise.nil, by simp [empty]⟩ operations
    refine ⟨(empty.run operations).subscriptions.map Subscription.id, ?_, ?_, ?_⟩
    · exact List.pairwise_map.mpr numbered.ascending
    · intro id
      rw [mem_ids_iff, find?_run_ne_none_iff]
    · exact (List.length_map _).symm
  apart := by
    intro before filter rest before' rest' _ count concerned
    have made := opened_nextId before filter
    have made' := opened_nextId before' filter
    have found' := opened_subscription before' filter
    rw [count] at made' found'
    rw [← exchangesOn_filter made' rest', concerned, ← exchangesOn_filter made rest]
    exact exchangesOn_congr (found'.trans (opened_subscription before filter).symm) made' made _

def crossingOperations : List StreamOperation :=
  [.subscribe none, .publish .flush, .subscribe (some .flush), .publish .capturingStarted,
    .receive 0, .publish .flush, .clone, .drain 1, .unsubscribe 1, .publish .capturingStopped]

/-- The second subscription comes after the first event and is dropped before the last one. -/
theorem run_fans_out_crossing :
    yielded 0 (empty.transcript crossingOperations) ++ (empty.run crossingOperations).pending 0 =
        [.flush, .capturingStarted, .flush, .capturingStopped] ∧
      yielded 1 (empty.transcript crossingOperations) ++
        (empty.run (crossingOperations.take 8)).pending 1 = [.flush] := by
  have fansOut := run_fans_out crossingOperations
  have first := (fansOut.window [] none (crossingOperations.drop 1) [] rfl (by decide) nofun).2
  have second := (fansOut.window [.subscribe none, .publish .flush] (some .flush)
    [.publish .capturingStarted, .receive 0, .publish .flush, .clone, .drain 1]
    [.unsubscribe 1, .publish .capturingStopped] rfl (by decide) (by decide)).2
  exact ⟨first, second⟩

end EventStream

end CallCapture
