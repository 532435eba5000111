import CallCapture.Config
import CallCapture.Proofs.Json.RoundTrip
import CallCapture.Proofs.Json.Shapes
import CallCapture.Proofs.Time.RoundTrip

/-!
Configurations survive their JSON text. Texts and lists come back whatever they hold, counters if
they fit a word, and durations if their own texts are read as what they are.
-/

namespace CallCapture

namespace Duration

variable {duration reading : Duration}

/-- What the text of a duration is read as. -/
def reread? (duration : Duration) : Option Duration :=
  (parse duration.text).toOption

theorem reread?_eq_some_iff :
    duration.reread? = some reading ↔ parse duration.text = .ok reading := by
  rw [reread?]
  cases parse duration.text with
  | error fault => simp [Except.toOption]
  | ok read => simp [Except.toOption]

theorem mapM_reread?_iff {duration? : Option Duration} :
    duration?.mapM reread? = some duration? ↔
      ∀ duration, duration? = some duration → duration.reread? = some duration := by
  cases duration? with
  | none => simp
  | some duration =>
      have single : (some duration).mapM reread? = duration.reread?.map some := rfl
      simp [single]

end Duration

namespace Config

variable {config : Config}

/-- The counters are held in words. -/
structure FitsWords (config : Config) : Prop where
  queueCapacity : config.queueCapacity < JsonNumber.wordBound
  maxRecursionDepth : config.maxRecursionDepth < JsonNumber.wordBound

def durations (config : Config) : List Duration :=
  [config.defaultDuration, config.dropWarningInterval] ++ config.maxDuration.toList

theorem toJson_legible (config : Config) : config.toJson.Legible := by
  apply JsonTree.Legible.record
  intro field among
  simp only [List.mem_append, List.mem_cons, List.not_mem_nil, or_false, Option.mem_toList,
    Option.map_eq_some_iff] at among
  rcases among with ((rfl | rfl) | ⟨maximum, _, rfl⟩) | rfl | rfl | rfl | rfl | rfl
  · exact .natural _
  · exact .text _
  · exact .text _
  · exact .texts _
  · exact .texts _
  · exact .text _
  · exact .text _
  · exact .natural _

theorem toJson_slots (config : Config) :
    config.toJson.slots fieldNames =
      some [some (.natural config.queueCapacity), some (.text config.defaultDuration.text),
        config.maxDuration.map fun maximum => .text maximum.text,
        some (.texts config.excludedNamespaces), some (.texts config.excludedThreadNames),
        some (.text config.consumerThreadName), some (.text config.dropWarningInterval.text),
        some (.natural config.maxRecursionDepth)] := by
  rw [toJson, JsonTree.slots_record]
  · cases config.maxDuration with
    | none => simp [fieldNames, List.lookup_cons]
    | some maximum => simp [fieldNames, List.lookup_cons]
  · cases config.maxDuration with
    | none => simp
    | some maximum => simp

theorem durationOf?_text (duration : Duration) :
    durationOf? (.text duration.text) = duration.reread? := rfl

/-- An absent maximum is not written, and what is not written is absent. -/
theorem orDefault_maxDuration (maximum : Option Duration) :
    JsonTree.orDefault initial.maxDuration (JsonTree.optional? durationOf?)
        (maximum.map fun duration => .text duration.text) =
      maximum.mapM Duration.reread? := by
  cases maximum with
  | none => rfl
  | some duration => rfl

/-- Nothing but the durations can come back as something else. -/
theorem ofJson?_toJson (fits : config.FitsWords) :
    ofJson? config.toJson = (do
      let duration ← config.defaultDuration.reread?
      let maximum ← config.maxDuration.mapM Duration.reread?
      let interval ← config.dropWarningInterval.reread?
      some { config with
        defaultDuration := duration, maxDuration := maximum, dropWarningInterval := interval }) := by
  rw [ofJson?, config.toJson_slots]
  simp only [orDefault_maxDuration, bind, Option.bind_some]
  simp only [JsonTree.orDefault, JsonTree.natural?_natural fits.queueCapacity,
    JsonTree.natural?_natural fits.maxRecursionDepth, JsonTree.list?_texts, JsonTree.text?_text,
    durationOf?_text, Option.bind_some]

theorem ofJson?_toJson_iff (fits : config.FitsWords) :
    ofJson? config.toJson = some config ↔
      ∀ duration ∈ config.durations, duration.reread? = some duration := by
  have members : (∀ duration ∈ config.durations, duration.reread? = some duration) ↔
      config.defaultDuration.reread? = some config.defaultDuration ∧
        config.dropWarningInterval.reread? = some config.dropWarningInterval ∧
        config.maxDuration.mapM Duration.reread? = some config.maxDuration := by
    rw [Duration.mapM_reread?_iff, durations, List.cons_append, List.cons_append, List.nil_append,
      List.forall_mem_cons, List.forall_mem_cons]
    simp only [Option.mem_toList]
  rw [members, ofJson?_toJson fits]
  constructor
  · intro read
    obtain ⟨duration, first, read⟩ := Option.bind_eq_some_iff.mp read
    obtain ⟨maximum, second, read⟩ := Option.bind_eq_some_iff.mp read
    obtain ⟨interval, third, read⟩ := Option.bind_eq_some_iff.mp read
    have same := Option.some.inj read
    rw [first, second, third]
    exact ⟨congrArg (some ·.defaultDuration) same, congrArg (some ·.dropWarningInterval) same,
      congrArg (some ·.maxDuration) same⟩
  · rintro ⟨first, third, second⟩
    rw [first, second, third]
    rfl

/-- What is read is a configuration that passes its own checks. -/
theorem parse_eq_ok_iff {text : String} :
    parse text = .ok config ↔
      (JsonTree.parse? text).bind ofJson? = some config ∧ config.validate = .ok () := by
  rw [parse]
  cases (JsonTree.parse? text).bind ofJson? with
  | none => simp
  | some read =>
      cases valid : read.validate with
      | error fault =>
          simp only [Except.map, valid, reduceCtorEq, Option.some.injEq, false_iff, not_and]
          rintro rfl
          rw [valid]
          exact nofun
      | ok checked =>
          simp only [Except.map, valid, Except.ok.injEq, Option.some.injEq, iff_self_and]
          rintro rfl
          exact valid

/-- The configuration survives its text if its durations survive theirs and it is valid. -/
theorem parse_print_iff (fits : config.FitsWords) :
    parse config.toJson.print = .ok config ↔
      (∀ duration ∈ config.durations, duration.reread? = some duration) ∧
        config.validate = .ok () := by
  rw [parse_eq_ok_iff, JsonTree.parse?_print config.toJson_legible, Option.bind_some,
    ofJson?_toJson_iff fits]

/-- A valid configuration of whole seconds comes back from its text. -/
theorem parse_print (config : Config) (fits : config.FitsWords) (valid : config.validate = .ok ())
    (whole : ∀ duration ∈ config.durations, duration.fraction = 0 ∧ duration.seconds < 2 ^ 53) :
    parse config.toJson.print = .ok config := by
  refine (parse_print_iff fits).mpr ⟨?_, valid⟩
  intro duration among
  obtain ⟨noFraction, small⟩ := whole duration among
  exact Duration.reread?_eq_some_iff.mpr (Duration.parse_text_whole noFraction small)

/-- The largest counter and seconds, and texts that JSON does not hold as they are. -/
def extreme : Config where
  queueCapacity := 18446744073709551615
  defaultDuration := .ofSeconds 1
  maxDuration := some (.ofSeconds 9007199254740991)
  excludedNamespaces := ["", "a\"b\\c\n", "\u0000\u001f\u00e9\u2028"]
  excludedThreadNames := []
  consumerThreadName := "\t"
  dropWarningInterval := .zero
  maxRecursionDepth := 1

theorem parse_print_extreme :
    extreme.validate = .ok () ∧ parse extreme.toJson.print = .ok extreme :=
  ⟨rfl, parse_print extreme ⟨by decide, by decide⟩ rfl (by decide)⟩

end Config

end CallCapture
