import Mathlib.Tactic.Lemma
import ShaderPipeline.Diagnostic.Log

namespace ShaderPipeline

namespace Tally

lemma count_eq (t : Tally) (m : Message) :
    t.count m = ⟨t.warnings + if m.isWarning then 1 else 0, t.errors + if m.isError then 1
      else 0⟩ := by
  obtain ⟨_ | ⟨_ | _ | _ | _⟩, tag, line, text⟩ := m <;> rfl

lemma foldl_count (t : Tally) (ms : List Message) :
    ms.foldl count t = ⟨t.warnings + ms.countP Message.isWarning,
      t.errors + ms.countP Message.isError⟩ := by
  induction ms generalizing t with
  | nil => rfl
  | cons m ms ih =>
    rw [List.foldl_cons, ih, count_eq, List.countP_cons, List.countP_cons]
    simp only [Nat.add_assoc, Nat.add_comm (ms.countP _)]

lemma ofMessages_eq (ms : List Message) :
    ofMessages ms = ⟨ms.countP Message.isWarning, ms.countP Message.isError⟩ := by
  rw [ofMessages, foldl_count, Nat.zero_add, Nat.zero_add]

end Tally

namespace Diagnostics

lemma pushAll_eq (d : Diagnostics) (ms : List Message) :
    d.pushAll ms = ⟨ms.foldl Tally.count d.tally, d.messages ++ ms⟩ := by
  induction ms generalizing d with
  | nil => simp [pushAll]
  | cons m ms ih =>
    have h := ih (d.push m)
    rw [pushAll] at h ⊢
    rw [List.foldl_cons, h, push, List.append_assoc, List.singleton_append, List.foldl_cons]

lemma pushAll_append (d : Diagnostics) (ms ns : List Message) :
    d.pushAll (ms ++ ns) = (d.pushAll ms).pushAll ns :=
  List.foldl_append

lemma ofMessages_eq (ms : List Message) : ofMessages ms = ⟨.ofMessages ms, ms⟩ :=
  pushAll_eq {} ms

end Diagnostics

namespace LogLine

variable {level : Level} {rest : List Char} {policy : WarningPolicy} {tag : String} {m : Message}

lemma level_of_ofRest (h : (ofRest level rest).message? tag = some m) : m.level = some level := by
  rw [ofRest] at h
  split at h
  · cases h
  split at h
  · obtain rfl := Option.some.inj h
    rfl
  · obtain rfl := Option.some.inj h
    rfl

lemma not_isWarning_of_parse {s : String} (h : (parse policy s).message? tag = some m)
    (hp : policy.asErrors = true ∨ policy.suppress = true) : m.isWarning = false := by
  have hlevel : m.level ≠ some .warning := by
    rw [parse] at h
    split at h
    · cases h
    split at h
    · split at h
      · rw [level_of_ofRest h]
        simp
      split at h
      · cases h
      · simp_all
    split at h
    · rw [level_of_ofRest h]
      simp
    split at h
    · cases h
    · obtain rfl := Option.some.inj h
      simp [Message.unclassified]
  simpa [Message.isWarning] using hlevel

end LogLine

namespace Log

variable {tag : String} {policy : WarningPolicy} {log : String}

lemma filter_eq (tag : String) (policy : WarningPolicy) (log : String) :
    filter tag policy log = (decide ((messages tag policy log).countP Message.isError = 0),
      .ofMessages (messages tag policy log)) := by
  rw [filter, Diagnostics.ofMessages_eq, Tally.ofMessages_eq]

lemma filter_of_isError (h : ∀ m ∈ messages tag policy log, m.isError = true) :
    filter tag policy log = ((messages tag policy log).isEmpty,
      ⟨⟨0, (messages tag policy log).length⟩, messages tag policy log⟩) := by
  have hwarnings : (messages tag policy log).countP Message.isWarning = 0 := by
    rw [List.countP_eq_zero]
    intro m hm hwarning
    have herror := h m hm
    simp_all [Message.isWarning, Message.isError, Level.isError]
  rw [filter_eq, Diagnostics.ofMessages_eq, Tally.ofMessages_eq, hwarnings,
    List.countP_eq_length.mpr h]
  cases messages tag policy log <;> rfl

lemma countP_isWarning (h : policy.asErrors = true ∨ policy.suppress = true) :
    (messages tag policy log).countP Message.isWarning = 0 := by
  rw [List.countP_eq_zero]
  intro m hm
  obtain ⟨line, -, hline⟩ := List.mem_filterMap.mp hm
  rw [LogLine.not_isWarning_of_parse hline h]
  exact Bool.false_ne_true

end Log

end ShaderPipeline
