import Mathlib.Data.List.Basic
import ShaderPipeline.Proofs.Diagnostic.Counting

/-! What becomes of the messages of a log when warnings are made errors or dropped. -/

namespace ShaderPipeline

namespace Message

def escalated (m : Message) : Message :=
  if m.isWarning then { m with level := some .error } else m

lemma escalated_of_level {m : Message} {level : Level} (h : m.level = some level) :
    m.escalated = { m with level := some (if level = .warning then .error else level) } := by
  obtain ⟨_, tag, line, text⟩ := m
  obtain rfl : _ = some level := h
  cases level <;> rfl

lemma isError_escalated (m : Message) : m.escalated.isError = (m.isError || m.isWarning) := by
  obtain ⟨_ | ⟨_ | _ | _ | _⟩, tag, line, text⟩ := m <;> rfl

lemma not_isWarning_of_isError {m : Message} (h : m.isError = true) : m.isWarning = false := by
  obtain ⟨_ | ⟨_ | _ | _ | _⟩, tag, line, text⟩ := m <;> first | rfl | cases h

end Message

namespace LogLine

variable {tag : String}

lemma message_ofRest (level level' : Level) (rest : List Char) : (ofRest level' rest).message? tag =
    ((ofRest level rest).message? tag).map fun m => { m with level := some level' } := by
  rw [ofRest, ofRest]
  split
  · rfl
  split <;> rfl

lemma message_asErrors (suppress : Bool) (s : String) :
    (parse { asErrors := true, suppress } s).message? tag =
      ((parse {} s).message? tag).map Message.escalated := by
  have hrest : ∀ (level : Level) rest,
      (ofRest (if level = .warning then .error else level) rest).message? tag =
        ((ofRest level rest).message? tag).map Message.escalated := by
    intro level rest
    rw [message_ofRest level]
    refine Option.map_congr fun m hm => ?_
    rw [Message.escalated_of_level (level_of_ofRest hm)]
  rw [parse, parse]
  split
  · rfl
  split
  · exact hrest .warning _
  split
  · exact hrest .error _
  · split <;> rfl

lemma message_suppress (s : String) : (parse { suppress := true } s).message? tag =
    ((parse {} s).message? tag).filter fun m => !m.isWarning := by
  have hrest : ∀ (level : Level) rest, level ≠ .warning →
      ((ofRest level rest).message? tag).filter (fun m => !m.isWarning) =
        (ofRest level rest).message? tag := by
    intro level rest hlevel
    cases hm : (ofRest level rest).message? tag with
    | none => rfl
    | some m =>
      rw [Option.filter_some, if_pos]
      simpa [Message.isWarning, level_of_ofRest hm] using hlevel
  have hwarning :
      ∀ rest, ((ofRest .warning rest).message? tag).filter (fun m => !m.isWarning) = none := by
    intro rest
    rw [Option.filter_eq_none_iff]
    intro m hm
    simp [Message.isWarning, level_of_ofRest hm]
  rw [parse, parse]
  split
  · rfl
  split
  · exact (hwarning _).symm
  split
  · exact (hrest .error _ (by decide)).symm
  · split <;> rfl

end LogLine

namespace Log

variable {tag log : String}

lemma messages_asErrors (suppress : Bool) :
    messages tag { asErrors := true, suppress } log =
      (messages tag {} log).map Message.escalated := by
  rw [messages, messages, List.map_filterMap]
  exact List.filterMap_congr fun line _ => LogLine.message_asErrors suppress _

lemma messages_suppress :
    messages tag { suppress := true } log = (messages tag {} log).filter fun m => !m.isWarning := by
  rw [messages, messages, List.filter_filterMap]
  exact List.filterMap_congr fun line _ => LogLine.message_suppress _

lemma errors_filter (tag : String) (policy : WarningPolicy) (log : String) :
    (filter tag policy log).2.tally.errors = (messages tag policy log).countP Message.isError := by
  rw [filter_eq, Diagnostics.ofMessages_eq, Tally.ofMessages_eq]

lemma countP_isError_escalated (ms : List Message) :
    (ms.map Message.escalated).countP Message.isError =
    ms.countP Message.isError + ms.countP Message.isWarning := by
  induction ms with
  | nil => rfl
  | cons m ms ih =>
    rw [List.map_cons, List.countP_cons, List.countP_cons, List.countP_cons, ih,
      Message.isError_escalated]
    cases he : m.isError with
    | true =>
      rw [Message.not_isWarning_of_isError he, Bool.true_or, if_pos rfl, if_neg Bool.false_ne_true]
      omega
    | false =>
      rw [Bool.false_or, if_neg Bool.false_ne_true]
      omega

/-- To make errors of warnings changes the level of each warning and nothing else, whether or not
they are also to be dropped. To drop them leaves all other messages as they are, so that it never
turns failure into success. -/
theorem policies_related (tag log : String) :
    let plain := filter tag {} log
    (∀ suppress, let strict := filter tag { asErrors := true, suppress } log
      strict.2.messages = plain.2.messages.map Message.escalated ∧
        strict.2.tally.errors = plain.2.tally.errors + plain.2.tally.warnings) ∧
    let quiet := filter tag { suppress := true } log
    quiet.2.messages = plain.2.messages.filter (fun m => !m.isWarning) ∧ quiet.1 = plain.1 := by
  have hmessages : ∀ policy, (filter tag policy log).2.messages = messages tag policy log := by
    intro policy
    rw [filter_eq, Diagnostics.ofMessages_eq]
  have hwarnings :
      (filter tag {} log).2.tally.warnings = (messages tag {} log).countP Message.isWarning := by
    rw [filter_eq, Diagnostics.ofMessages_eq, Tally.ofMessages_eq]
  have hkept : ∀ m : Message, (m.isError && !m.isWarning) = m.isError := by
    intro m
    cases he : m.isError with
    | true => rw [Message.not_isWarning_of_isError he]; rfl
    | false => rfl
  refine ⟨fun suppress => ⟨?_, ?_⟩, ?_, ?_⟩
  · rw [hmessages, hmessages, messages_asErrors]
  · rw [errors_filter, errors_filter, hwarnings, messages_asErrors, countP_isError_escalated]
  · rw [hmessages, hmessages, messages_suppress]
  · rw [filter_eq, filter_eq, messages_suppress, List.countP_filter]
    simp only [hkept]

end Log

end ShaderPipeline
