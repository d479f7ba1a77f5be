import ShaderPipeline.Proofs.Diagnostic.Counting
import ShaderPipeline.Proofs.Diagnostic.Decoding
import ShaderPipeline.Proofs.Preprocess.Faults
import ShaderPipeline.Proofs.Preprocess.Progress

/-! The log of a run is read back as the faults that it tells of. -/

namespace ShaderPipeline

namespace LineNumber

variable {n : LineNumber}

lemma Unsigned.toList_toString (h : n.Unsigned) :
    (toString n).toList = Nat.toDigits 10 n.toNat := by
  rw [Int.toString_eq_repr, Int.repr_eq_if, if_pos h.1, Nat.repr_eq_ofList_toDigits,
    String.toList_ofList]

end LineNumber

namespace Preprocess

variable {σ : Type}

namespace Fault

def told (f : Fault) : String :=
  s!"'{f.directive}' : {f.cause.message}"

def row (f : Fault) : List Char :=
  "ERROR: ".toList ++ (f.unit.toList ++ ':' :: ((toString f.line).toList ++ [':'])) ++ ' ' ::
    f.told.toList

def shown (tag : String) (f : Fault) : Message :=
  .errorAt tag f.line (Text.strip f.told)

variable {f : Fault}

-- `row` is not unfolded by its name, which would compute the characters of the text in it.
lemma row_eq (f : Fault) : f.row =
    "ERROR: ".toList ++ (f.unit.toList ++ ':' :: ((toString f.line).toList ++ [':'])) ++ ' ' ::
      f.told.toList :=
  rfl

lemma toList_text (f : Fault) : f.text.toList = f.row ++ ['\n'] := by
  rw [row_eq]
  change (s!"ERROR: {f.unit}:{f.line}: '{f.directive}' : {f.cause.message}\n").toList =
    _ ++ ' ' :: (s!"'{f.directive}' : {f.cause.message}").toList ++ _
  simp only [String.toList_append, Item.toString_string, List.append_assoc, List.cons_append,
    List.nil_append]
  rfl

lemma read_row (hname : LogLine.IsSourceName f.unit) (hline : f.line.Unsigned) (tag : String)
    (policy : WarningPolicy) : Log.read? tag policy f.row = some (f.shown tag) := by
  have hdigits : ∀ d ∈ (toString f.line).toList, d.isDigit = true := by
    rw [hline.toList_toString]
    exact LineNumber.isDigit_of_mem_toDigits
  have hne : (toString f.line).toList ≠ [] := by
    rw [hline.toList_toString]
    exact Nat.toDigits_ne_nil
  let rest := (Log.dropCarriageReturn (.ofList (' ' :: f.told.toList))).toList
  have hrow : (Log.dropCarriageReturn (.ofList f.row)).toList =
      "ERROR: ".toList ++ (f.unit.toList ++ ':' :: ((toString f.line).toList ++ ':' :: rest)) := by
    rw [row_eq, Log.toList_dropCarriageReturn_append _ (List.cons_ne_nil _ _)]
    simp only [rest, List.append_assoc, List.cons_append, List.nil_append]
  rw [Log.read?, LogLine.parse_error policy hrow, LogLine.ofRest_located hname hdigits hne,
    LogLine.message?, String.ofList_toList, hline.2.ofText_toString,
    Log.stripChars_dropCarriageReturn,
    Text.stripChars_cons_blank (by decide)]
  rfl

lemma newline_notMem_row {units : List String} (h : f.Legible units)
    (hname : LogLine.IsSourceName f.unit)
    (hcause : ∀ e, f.cause = .inclusion e → '\n' ∉ e.message.toList) : '\n' ∉ f.row := by
  have hmessage : '\n' ∉ f.cause.message.toList := by
    rcases h.cause with ⟨e, he⟩ | hm
    · rw [he]
      exact hcause e he
    · exact hm
  have htold : '\n' ∉ f.told.toList :=
    newline_notMem_append (newline_notMem_append
      (newline_notMem_append (newline_notMem_ofList (by decide)) h.directive)
      (newline_notMem_ofList (by decide))) hmessage
  have hlevel : '\n' ∉ "ERROR: ".toList := by decide
  have hline := newline_notMem_toString_int f.line
  simp only [row_eq, List.mem_append, List.mem_cons, List.not_mem_nil, not_or, or_false]
  exact ⟨⟨hlevel, hname.oneLine, by decide, hline, by decide⟩, by decide, htold⟩

end Fault

namespace Run

def closing (n : Nat) : List Char :=
  "ERROR: ".toList ++ (Nat.toDigits 10 n ++ " compilation errors.".toList ++
    "  No code generated.".toList)

lemma closing_eq (n : Nat) : closing n =
    "ERROR: ".toList ++ (Nat.toDigits 10 n ++ " compilation errors.".toList ++
      "  No code generated.".toList) :=
  rfl

lemma toList_closing (n : Nat) :
    (s!"ERROR: {n} compilation errors.  No code generated.\n").toList = closing n ++ ['\n'] := by
  have hn : (toString n).toList = Nat.toDigits 10 n := by
    rw [Nat.toString_eq_repr, Nat.repr_eq_ofList_toDigits, String.toList_ofList]
  simp only [closing_eq, String.toList_append, Item.toString_string, hn, List.append_assoc]
  rfl

lemma read_closing (tag : String) (policy : WarningPolicy) (n : Nat) :
    Log.read? tag policy (closing n) = none := by
  have hlast : (closing n).getLast? = some '.' := by
    have hne : "  No code generated.".toList ≠ [] := by decide
    rw [closing_eq, ← List.append_assoc, List.getLast?_append_of_ne_nil _ hne]
    rfl
  have hclosing : Log.dropCarriageReturn (.ofList (closing n)) = .ofList (closing n) := by
    rw [Log.dropCarriageReturn, String.toList_ofList, hlast]
    rfl
  have hrow := String.toList_ofList.trans (closing_eq n)
  rw [Log.read?, hclosing, LogLine.parse_error policy hrow, LogLine.ofRest,
    LogLine.isSummary_toDigits, if_pos rfl]
  rfl

lemma newline_notMem_closing (n : Nat) : '\n' ∉ closing n := by
  have hdigits : '\n' ∉ Nat.toDigits 10 n := by
    intro h
    exact absurd (LineNumber.isDigit_of_mem_toDigits _ h) (by decide)
  rw [closing_eq, List.mem_append, List.mem_append, List.mem_append, not_or, not_or, not_or]
  exact ⟨by decide, ⟨hdigits, by decide⟩, by decide⟩

def logRows (faults : List Fault) : List (List Char) :=
  faults.map Fault.row ++ if faults.isEmpty then [] else [closing faults.length]

lemma toList_log (run : Run σ) : run.log.toList = Text.unlines (logRows run.faults) := by
  have hfaults : (run.faults.map Fault.text).flatMap String.toList =
      Text.unlines (run.faults.map Fault.row) := by
    rw [Text.unlines, List.flatMap_map, List.flatMap_map]
    simp only [Fault.toList_text]
  have hclosing : (if run.faults.isEmpty then "" else
        s!"ERROR: {run.faults.length} compilation errors.  No code generated.\n").toList =
      Text.unlines (if run.faults.isEmpty then [] else [closing run.faults.length]) := by
    split
    · rfl
    · rw [toList_closing, Text.unlines_cons, Text.unlines_nil]
  rw [log, String.toList_append, String.toList_join, hfaults, hclosing, logRows,
    Text.unlines_append]

lemma read_logRows {faults : List Fault}
    (h : ∀ f ∈ faults, f.line.Unsigned ∧ LogLine.IsSourceName f.unit) (tag : String)
    (policy : WarningPolicy) :
    (logRows faults).filterMap (Log.read? tag policy) = faults.map (Fault.shown tag) := by
  have hclosing : (if faults.isEmpty then [] else [closing faults.length]).filterMap
      (Log.read? tag policy) = [] := by
    split
    · rfl
    · exact List.filterMap_cons_none (read_closing tag policy faults.length)
  rw [logRows, List.filterMap_append, hclosing, List.append_nil, List.filterMap_map,
    ← List.filterMap_eq_map]
  refine List.filterMap_congr fun f hf => ?_
  have hrow := Fault.read_row (h f hf).2 (h f hf).1 tag policy
  rw [Function.comp_apply, Function.comp_apply, hrow]

lemma newline_notMem_logRows {faults : List Fault} (h : ∀ f ∈ faults, '\n' ∉ f.row) :
    ∀ l ∈ logRows faults, '\n' ∉ l := by
  refine List.forall_mem_append.mpr ⟨List.forall_mem_map.mpr h, ?_⟩
  split
  · exact List.forall_mem_nil _
  · exact List.forall_mem_singleton.mpr (newline_notMem_closing _)

end Run

theorem filter_log (inc : Includer σ) (request : Request) (includer : σ) (tag : String)
    (policy : WarningPolicy) (hnames : ∀ name ∈ (finalRun inc request includer).units request.tag,
      LogLine.IsSourceName name)
    (herrors : ∀ f ∈ (finalRun inc request includer).faults, ∀ e, f.cause = .inclusion e →
      '\n' ∉ e.message.toList) :
    let run := finalRun inc request includer
    let result := (preprocess inc request includer).1
    let filtered := Log.filter tag policy result.log
    filtered.2.messages =
        run.faults.map (fun f => .errorAt tag f.line
          (Text.strip s!"'{f.directive}' : {f.cause.message}")) ∧
      filtered.2.tally = ⟨0, run.faults.length⟩ ∧ filtered.1 = result.success := by
  have hlegible := legible_finalRun inc request includer
  simp only [preprocess]
  generalize finalRun inc request includer = run at hnames herrors hlegible ⊢
  have hname : ∀ f ∈ run.faults, LogLine.IsSourceName f.unit :=
    fun f hf => hnames f.unit (hlegible.faults f hf).unit
  have hrows : ∀ f ∈ run.faults, '\n' ∉ f.row := fun f hf =>
    Fault.newline_notMem_row (hlegible.faults f hf) (hname f hf) (herrors f hf)
  have hmessages : Log.messages tag policy run.log = run.faults.map (Fault.shown tag) := by
    rw [Log.messages_eq, Run.toList_log, Text.bareLines_unlines (Run.newline_notMem_logRows hrows),
      Run.read_logRows fun f hf => ⟨(hlegible.faults f hf).line, hname f hf⟩]
  have herror : ∀ m ∈ Log.messages tag policy run.log, m.isError = true := by
    rw [hmessages, List.forall_mem_map]
    exact fun f _ => rfl
  rw [Log.filter_of_isError herror, hmessages]
  exact ⟨rfl, congrArg (Tally.mk 0) (List.length_map _), List.isEmpty_map⟩

theorem filter_log_of_include :
    let inc := singleFile ⟨"f", "#else\n"⟩
    let request : Request :=
      ⟨"t", "#line 7\n#include \"f\"\n#error a: 'b'\n", Preamble.endLine, .default, false⟩
    (Log.filter "t" {} (preprocess inc request ()).1.log).2.messages =
      [.errorAt "t" 1 "'#else' : #else without #if", .errorAt "t" 9 "'#error' : a: 'b'"] := by
  intro inc request
  have hrun : (finalRun inc request ()).units "t" = ["t", "f"] ∧
      (finalRun inc request ()).faults =
        [⟨"f", 1, "#else", .elseWithoutIf⟩, ⟨"t", 9, "#error", .requested "a: 'b'"⟩] := by
    cbv
  obtain ⟨hunits, hfaults⟩ := hrun
  have hname : ∀ name ∈ ["t", "f"], LogLine.IsSourceName name := by
    intro name hname
    have h : ':' ∉ name.toList ∧ '\n' ∉ name.toList ∧ LogLine.isSummary name.toList = false := by
      revert name
      decide
    exact ⟨h.1, h.2.1, by rw [← LogLine.isSummary_iff, h.2.2]; exact Bool.false_ne_true⟩
  have hnames : ∀ name ∈ (finalRun inc request ()).units "t", LogLine.IsSourceName name := by
    rwa [hunits]
  have herrors : ∀ f ∈ (finalRun inc request ()).faults, ∀ e, f.cause = .inclusion e →
      '\n' ∉ e.message.toList := by
    rw [hfaults]
    simp
  obtain ⟨hmessages, -, -⟩ := filter_log inc request () "t" {} hnames herrors
  rw [hmessages, hfaults]
  change [Message.errorAt "t" 1 (Text.strip "'#else' : #else without #if"),
    Message.errorAt "t" 9 (Text.strip "'#error' : a: 'b'")] = _
  decide

end Preprocess

end ShaderPipeline
