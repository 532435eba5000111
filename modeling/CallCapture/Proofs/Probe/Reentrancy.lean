import CallCapture.Probe.EntryPoint

/-!
Calls that a handler makes while it runs. The first of them finds the thread marked and runs
nothing, but takes the mark away, so that every further one runs the handler again.
-/

namespace CallCapture.EntryPoint

variable {Handler World : Type} {react : Handler → ProbeCall → World → Reaction World}

def unmark (point : EntryPoint Handler World) : EntryPoint Handler World :=
  { point with inProbe := false }

/-- The entry point as the first call that the handler makes finds it. -/
def enter (react : Handler → ProbeCall → World → Reaction World) (point : EntryPoint Handler World)
    (handler : Handler) (call : ProbeCall) : EntryPoint Handler World :=
  { point with inProbe := true, world := (react handler call point.world).world }

theorem reportFault_handler (point : EntryPoint Handler World) (fault : Option ProbeFault) :
    (point.reportFault fault).handler = point.handler := by
  cases fault with
  | none => rfl
  | some fault => rfl

theorem reportFault_world (point : EntryPoint Handler World) (fault : Option ProbeFault) :
    (point.reportFault fault).world = point.world := by
  cases fault with
  | none => rfl
  | some fault => rfl

theorem invokeWithin_marked {point : EntryPoint Handler World} (marked : point.inProbe = true)
    (levels : Nat) (call : ProbeCall) :
    invokeWithin react (levels + 1) point call = point.unmark := by
  simp only [invokeWithin, marked, if_true, unmark]

theorem invokeWithin_unmarked (react : Handler → ProbeCall → World → Reaction World)
    {point : EntryPoint Handler World} {handler : Handler} (unmarked : point.inProbe = false)
    (registered : point.handler = some handler) (levels : Nat) (call : ProbeCall) :
    invokeWithin react (levels + 1) point call =
      (((react handler call point.world).nested.foldl (invokeWithin react levels)
        (enter react point handler call)).reportFault
          (react handler call point.world).fault).unmark := by
  simp only [invokeWithin, unmarked, registered, Bool.false_eq_true, if_false, unmark, enter]

theorem invokeWithin_unregistered {point : EntryPoint Handler World}
    (unmarked : point.inProbe = false) (empty : point.handler = none) (levels : Nat)
    (call : ProbeCall) : invokeWithin react (levels + 1) point call = point := by
  simp only [invokeWithin, unmarked, empty, Bool.false_eq_true, if_false]

/-- No invocation leaves the thread marked. -/
theorem invokeWithin_unmarks (react : Handler → ProbeCall → World → Reaction World) (levels : Nat)
    (point : EntryPoint Handler World) (call : ProbeCall) :
    (invokeWithin react (levels + 1) point call).inProbe = false := by
  cases mark : point.inProbe with
  | true => rw [invokeWithin_marked mark, unmark]
  | false =>
      cases registered : point.handler with
      | none => rw [invokeWithin_unregistered mark registered, mark]
      | some handler => rw [invokeWithin_unmarked react mark registered, unmark]

theorem foldl_unmarks (react : Handler → ProbeCall → World → Reaction World) (levels : Nat)
    (first : ProbeCall) (rest : List ProbeCall) (point : EntryPoint Handler World) :
    ((first :: rest).foldl (invokeWithin react (levels + 1)) point).inProbe = false := by
  induction rest generalizing first point with
  | nil => exact invokeWithin_unmarks react levels point first
  | cons second others ih => exact ih second (invokeWithin react (levels + 1) point first)

/-- Points that each part of an invocation leads from one to the other. -/
structure Kept (react : Handler → ProbeCall → World → Reaction World)
    (related : EntryPoint Handler World → EntryPoint Handler World → Prop) : Prop where
  same : ∀ point, related point point
  joined : ∀ {first second third}, related first second → related second third →
    related first third
  unmarks : ∀ point, related point point.unmark
  enters : ∀ point handler call, related point (enter react point handler call)
  reports : ∀ point fault, related point (point.reportFault fault)

namespace Kept

variable {related : EntryPoint Handler World → EntryPoint Handler World → Prop}

theorem foldl (kept : Kept react related) {levels : Nat}
    (each : ∀ point call, related point (invokeWithin react levels point call))
    (calls : List ProbeCall) (point : EntryPoint Handler World) :
    related point (calls.foldl (invokeWithin react levels) point) := by
  induction calls generalizing point with
  | nil => exact kept.same point
  | cons call rest ih => exact kept.joined (each point call) (ih _)

/-- What every part of an invocation keeps, whole invocations keep, however deep they nest. -/
theorem invokeWithin (kept : Kept react related) (levels : Nat) (point : EntryPoint Handler World)
    (call : ProbeCall) : related point (invokeWithin react levels point call) := by
  induction levels generalizing point call with
  | zero => exact kept.same point
  | succ levels ih =>
      cases mark : point.inProbe with
      | true =>
          rw [invokeWithin_marked mark]
          exact kept.unmarks point
      | false =>
          cases registered : point.handler with
          | none =>
              rw [invokeWithin_unregistered mark registered]
              exact kept.same point
          | some handler =>
              rw [invokeWithin_unmarked react mark registered]
              have ran := kept.foldl ih (react handler call point.world).nested
                (enter react point handler call)
              have reported := kept.joined ran
                (kept.reports _ (react handler call point.world).fault)
              exact kept.joined (kept.enters point handler call)
                (kept.joined reported (kept.unmarks _))

end Kept

theorem handler_kept (react : Handler → ProbeCall → World → Reaction World) :
    Kept react fun before after => after.handler = before.handler where
  same _ := rfl
  joined first second := second.trans first
  unmarks _ := rfl
  enters _ _ _ := rfl
  reports := reportFault_handler

/-- Reacts as before, and notes the calls that the handler runs for. -/
def noting (react : Handler → ProbeCall → World → Reaction World) :
    Handler → ProbeCall → World × List ProbeCall → Reaction (World × List ProbeCall) :=
  fun handler call state =>
    let reaction := react handler call state.1
    ⟨(reaction.world, state.2 ++ [call]), reaction.nested, reaction.fault⟩

/-- The entry point with no calls noted so far. -/
def noted (point : EntryPoint Handler World) : EntryPoint Handler (World × List ProbeCall) :=
  ⟨point.handler, point.faults, point.inProbe, (point.world, []), point.events⟩

/-- The calls that the handler runs for in one invocation, those that it makes itself included. -/
def handled (react : Handler → ProbeCall → World → Reaction World) (levels : Nat)
    (point : EntryPoint Handler World) (call : ProbeCall) : List ProbeCall :=
  (invokeWithin (noting react) levels point.noted call).world.2

def forgotten (point : EntryPoint Handler (World × List ProbeCall)) : EntryPoint Handler World :=
  ⟨point.handler, point.faults, point.inProbe, point.world.1, point.events⟩

theorem reportFault_forgotten (point : EntryPoint Handler (World × List ProbeCall))
    (fault : Option ProbeFault) :
    (point.reportFault fault).forgotten = point.forgotten.reportFault fault := by
  cases fault with
  | none => rfl
  | some fault => rfl

/-- Noting the calls changes nothing else. -/
theorem invokeWithin_forgotten (react : Handler → ProbeCall → World → Reaction World) (levels : Nat)
    (point : EntryPoint Handler (World × List ProbeCall)) (call : ProbeCall) :
    (invokeWithin (noting react) levels point call).forgotten =
      invokeWithin react levels point.forgotten call := by
  induction levels generalizing point call with
  | zero => rfl
  | succ levels ih =>
      cases mark : point.inProbe with
      | true =>
          have forgottenMark : point.forgotten.inProbe = true := mark
          rw [invokeWithin_marked mark, invokeWithin_marked forgottenMark]
          rfl
      | false =>
          have forgottenMark : point.forgotten.inProbe = false := mark
          cases registered : point.handler with
          | none =>
              have forgottenEmpty : point.forgotten.handler = none := registered
              rw [invokeWithin_unregistered mark registered,
                invokeWithin_unregistered forgottenMark forgottenEmpty]
          | some handler =>
              have forgottenHandler : point.forgotten.handler = some handler := registered
              rw [invokeWithin_unmarked _ mark registered,
                invokeWithin_unmarked _ forgottenMark forgottenHandler]
              let nested := (react handler call point.world.1).nested
              have ran : (nested.foldl (invokeWithin (noting react) levels)
                    (enter (noting react) point handler call)).forgotten =
                  nested.foldl (invokeWithin react levels)
                    (enter react point.forgotten handler call) :=
                (List.foldl_hom forgotten fun point call => (ih point call).symm).symm
              have reported := reportFault_forgotten
                (nested.foldl (invokeWithin (noting react) levels)
                  (enter (noting react) point handler call))
                (react handler call point.world.1).fault
              rw [ran] at reported
              exact congrArg unmark reported

theorem notes_kept (react : Handler → ProbeCall → World → Reaction World) :
    Kept (noting react) fun before after => before.world.2 <+: after.world.2 where
  same _ := List.prefix_refl _
  joined first second := first.trans second
  unmarks _ := List.prefix_refl _
  enters _ _ call := ⟨[call], rfl⟩
  reports point fault := ⟨[], by rw [reportFault_world, List.append_nil]⟩

variable (react) {handler : Handler}

/-- On an unmarked thread the handler runs for the call, whatever else it runs for. -/
theorem noting_unmarked {point : EntryPoint Handler (World × List ProbeCall)}
    (unmarked : point.inProbe = false) (registered : point.handler = some handler) (levels : Nat)
    (call : ProbeCall) :
    point.world.2 ++ [call] <+: (invokeWithin (noting react) (levels + 1) point call).world.2 := by
  have entered : (enter (noting react) point handler call).world.2 = point.world.2 ++ [call] := rfl
  have kept := notes_kept react
  have ran := kept.foldl (kept.invokeWithin levels) (noting react handler call point.world).nested
    (enter (noting react) point handler call)
  rw [invokeWithin_unmarked _ unmarked registered, unmark, reportFault_world]
  rw [entered] at ran
  exact ran

/-- On an unmarked thread the handler runs for each of the calls. -/
theorem noting_foldl_unmarked {point : EntryPoint Handler (World × List ProbeCall)}
    (unmarked : point.inProbe = false) (registered : point.handler = some handler) (levels : Nat)
    (calls : List ProbeCall) :
    ∃ more, calls.Sublist more ∧
      (calls.foldl (invokeWithin (noting react) (levels + 1)) point).world.2 =
        point.world.2 ++ more := by
  -- Each call leaves the thread unmarked and the handler in place, so the next one runs it too.
  induction calls generalizing point with
  | nil => exact ⟨[], .slnil, (List.append_nil _).symm⟩
  | cons call rest ih =>
      obtain ⟨early, first⟩ := noting_unmarked react unmarked registered levels call
      have nextUnmarked := invokeWithin_unmarks (noting react) levels point call
      have nextRegistered := (handler_kept (noting react)).invokeWithin (levels + 1) point call
      rw [registered] at nextRegistered
      obtain ⟨late, others, remaining⟩ := ih nextUnmarked nextRegistered
      refine ⟨call :: (early ++ late), ?_, ?_⟩
      · exact (others.trans (List.sublist_append_right early late)).cons_cons call
      · rw [List.foldl_cons, remaining, ← first]
        simp only [List.append_assoc, List.cons_append, List.nil_append]

variable {react} {point : EntryPoint Handler World}

/-- With at most one call of its own, the handler runs once. -/
theorem handled_of_le_one (unmarked : point.inProbe = false)
    (registered : point.handler = some handler) {call : ProbeCall} (levels : Nat)
    (few : (react handler call point.world).nested.length ≤ 1) :
    handled react (levels + 2) point call = [call] := by
  have notedUnmarked : point.noted.inProbe = false := unmarked
  have notedNested : (noting react handler call point.noted.world).nested =
      (react handler call point.world).nested := rfl
  rw [handled, invokeWithin_unmarked _ notedUnmarked registered, unmark, reportFault_world,
    notedNested]
  cases nested : (react handler call point.world).nested with
  | nil => rfl
  | cons first rest =>
      rw [nested] at few
      cases rest with
      | nil =>
          rw [List.foldl_cons, invokeWithin_marked rfl]
          rfl
      | cons second others => simp at few

/-- The first call of the handler's own runs nothing, and each further one runs the handler. -/
theorem handled_of_cons (unmarked : point.inProbe = false)
    (registered : point.handler = some handler) {call first : ProbeCall} {rest : List ProbeCall}
    (levels : Nat) (nested : (react handler call point.world).nested = first :: rest) :
    (call :: rest).Sublist (handled react (levels + 2) point call) := by
  have notedUnmarked : point.noted.inProbe = false := unmarked
  have notedNested : (noting react handler call point.noted.world).nested = first :: rest := nested
  have afterFirst : (enter (noting react) point.noted handler call).unmark.inProbe = false := rfl
  obtain ⟨more, others, notes⟩ := noting_foldl_unmarked react afterFirst registered levels rest
  rw [handled, invokeWithin_unmarked _ notedUnmarked registered, unmark, reportFault_world,
    notedNested, List.foldl_cons, invokeWithin_marked rfl, notes]
  exact others.cons_cons call

/-- Exactly with at most one call of its own does the handler run just once: each call of its own but
the first runs it again. The thread is marked until the first such call, and never after the
invocation. -/
theorem handled_eq_singleton_iff (react : Handler → ProbeCall → World → Reaction World)
    (unmarked : point.inProbe = false) (registered : point.handler = some handler) (levels : Nat)
    (call : ProbeCall) :
    let nested := (react handler call point.world).nested
    (handled react (levels + 2) point call = [call] ↔ nested.length ≤ 1) ∧
      (call :: nested.tail).Sublist (handled react (levels + 2) point call) ∧
      (∀ made, made <+: nested →
        ((made.foldl (invokeWithin react (levels + 1)) (enter react point handler call)).inProbe =
          true ↔ made = [])) ∧
      (invokeWithin react (levels + 2) point call).inProbe = false := by
  intro nested
  have runs : (call :: nested.tail).Sublist (handled react (levels + 2) point call) := by
    cases split : nested with
    | nil =>
        have few : nested.length ≤ 1 := by simp [split]
        rw [handled_of_le_one unmarked registered levels few]
        exact List.Sublist.refl _
    | cons first rest => exact handled_of_cons unmarked registered levels split
  refine ⟨⟨?_, handled_of_le_one unmarked registered levels⟩, runs, ?_,
    invokeWithin_unmarks react (levels + 1) point call⟩
  · intro once
    rw [once] at runs
    have size := runs.length_le
    simp only [List.length_cons, List.length_tail, List.length_nil] at size
    omega
  · intro made _
    cases made with
    | nil => exact ⟨fun _ => rfl, fun _ => rfl⟩
    | cons first rest =>
        have unmarks := foldl_unmarks react levels first rest (enter react point handler call)
        rw [unmarks]
        simp

/-- A handler that calls twice on the first method runs again for its second call. -/
theorem handled_eq_singleton_iff_pair :
    let inner (id : UInt64) : ProbeCall := ⟨id, [], ⟨none, none, none⟩⟩
    let react : Unit → ProbeCall → Nat → Reaction Nat := fun _ call count =>
      ⟨count + 1, if call.methodId = 1 then [inner 2, inner 3] else [], none⟩
    let point : EntryPoint Unit Nat := ⟨some (), 0, false, 0, .empty⟩
    point.inProbe = false ∧ point.handler = some () ∧
      handled react 2 point (inner 1) ≠ [inner 1] ∧
      [inner 1, inner 3].Sublist (handled react 2 point (inner 1)) := by
  intro inner react point
  have unmarked : point.inProbe = false := rfl
  have registered : point.handler = some () := rfl
  obtain ⟨once, runs, _⟩ := handled_eq_singleton_iff react unmarked registered 0 (inner 1)
  refine ⟨unmarked, registered, ?_, runs⟩
  intro single
  exact absurd (once.mp single) (by decide)

/-- Not every call that a handler makes while it runs is ignored. -/
theorem nested_call_handled :
    ¬ ∀ (react : Unit → ProbeCall → Unit → Reaction Unit) (point : EntryPoint Unit Unit)
      (call : ProbeCall), point.inProbe = false → point.handler = some () →
      handled react 2 point call = [call] := by
  intro once
  have single := once
    (fun _ call _ => ⟨(), if call.methodId = 1 then
      [⟨2, [], ⟨none, none, none⟩⟩, ⟨3, [], ⟨none, none, none⟩⟩] else [], none⟩)
    ⟨some (), 0, false, (), .empty⟩ ⟨1, [], ⟨none, none, none⟩⟩ rfl rfl
  contradiction

end CallCapture.EntryPoint
