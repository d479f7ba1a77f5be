import Mathlib
import ShaderPipeline.Preamble
import ShaderPipeline.Proofs.PathName
import ShaderPipeline.Proofs.Words
import ShaderPipeline.Toolchain.External

/-! No link takes the binary of another one for its own: each of them names a file that no other has
named. -/

namespace ShaderPipeline

namespace ToolHost

lemma outputPath_append {args : List String} (h : "-o" ∉ args) (more : List String) :
    outputPath? (args ++ more) = outputPath? more := by
  induction args with
  | nil => rfl
  | cons a args ih =>
    obtain ⟨ha, hargs⟩ : "-o" ≠ a ∧ "-o" ∉ args := by simpa using h
    rw [List.cons_append, ← ih hargs]
    exact outputPath?.eq_2 _ _ fun _ _ he _ => ha he.symm

def CanRun (h : ToolHost) (tool : Tool) (args : List String) : Prop :=
  h.availability tool = .installed ∧ ∀ arg ∈ args, '\x00' ∉ arg.toList

lemma run_of_canRun {h : ToolHost} {tool : Tool} {args : List String} (hcan : h.CanRun tool args)
    (input : Bytes) : h.run tool args input = (.ok h.next, h.respond tool args input) := by
  obtain ⟨hinstalled, hargs⟩ := hcan
  have hnul : ¬ (args.any (·.toList.contains '\x00')) := by simpa using hargs
  rw [run, locate, hinstalled]
  exact if_neg hnul

lemma run_of_not_canRun {h : ToolHost} {tool : Tool} {args : List String}
    (hcan : ¬ h.CanRun tool args) (input : Bytes) :
    ∃ reason, h.run tool args input = (.error reason, h) := by
  rw [run, locate]
  cases havailable : h.availability tool with
  | missing => exact ⟨_, rfl⟩
  | broken reason =>
    dsimp only
    split <;> exact ⟨_, rfl⟩
  | installed =>
    have hnul : args.any (·.toList.contains '\x00') := by
      by_contra hnul
      exact hcan ⟨havailable, by simpa using hnul⟩
    exact ⟨_, if_pos hnul⟩

lemma openScratch_cases (h : ToolHost) :
    (∃ e, h.scratch = none ∧ h.scratchFault = some e ∧ h.openScratch = .error e) ∨
      h.openScratch = .ok { h with scratch := some (h.scratch.getD []) } := by
  rw [openScratch]
  split
  · rename_i hs
    exact .inr (by rw [hs]; cases h; cases hs; rfl)
  · exact .inl ⟨_, by assumption, by assumption, rfl⟩
  · rename_i hs _
    exact .inr (by rw [hs]; rfl)

lemma filesAfter_of_none {args : List String} (h : outputPath? args = none)
    (files : List (String × Bytes)) (r : ToolResponse) : filesAfter files args r = files := by
  rw [filesAfter, h]
  cases r.binary <;> rfl

end ToolHost

def ToolCall.outputName? (c : ToolCall) : Option String :=
  (ToolHost.outputPath? c.args).bind PathName.fileName?

def ParseRequest.HasPreamble (request : ParseRequest) : Prop :=
  ∃ ds, request.preamble = Preamble.text ds

def AcceptedSource.IsAccepted (unit : AcceptedSource) : Prop :=
  ∃ (t : ExternalToolchain) (request : ParseRequest) (log : String),
    request.HasPreamble ∧ (t.parse request).1 = .ok ⟨some unit, log⟩

namespace ExternalToolchain

inductive Operation
  | addIncludeDir (dir : String)
  | acquire
  | parse (request : ParseRequest) (h : request.HasPreamble)
  | link (unit : AcceptedSource) (h : unit.IsAccepted)
  | disassemble (words : List UInt32)
  | release
  | pass (surroundings : ToolHost)

def Operation.IsLink : Operation → Prop
  | .link .. => True
  | _ => False

def surround (t : ExternalToolchain) (h : ToolHost) : ExternalToolchain :=
  { t with host := { h with
      calls := t.host.calls
      scratch := t.host.scratch
      scratchPath := if t.host.scratch.isSome then t.host.scratchPath else h.scratchPath } }

def perform (t : ExternalToolchain) : Operation → ExternalToolchain
  | .addIncludeDir dir => t.addIncludeDir dir
  | .acquire => t.acquire.2
  | .parse request _ => (t.parse request).2
  | .link unit _ => (t.link unit).2
  | .disassemble words => (t.disassemble words).2
  | .release => t.release
  | .pass surroundings => t.surround surroundings

def after (t : ExternalToolchain) (ops : List Operation) : ExternalToolchain :=
  ops.foldl perform t

def start (host : ToolHost) : ExternalToolchain :=
  { host := { host with calls := [], scratch := none } }

def outputNames (t : ExternalToolchain) : List String :=
  t.host.calls.filterMap ToolCall.outputName?

def outputName (number : Nat) : String :=
  s!"{number}.spv"

inductive Answers (r : ToolResponse) : Except ToolchainError (WithLog (List UInt32)) → Prop
  | words {bytes : Bytes} {ws : List UInt32} :
      r.fault = none → r.status = some 0 → r.binary = some bytes → Words.encode ws = bytes →
      Answers r (.ok ⟨some ws, logOf r⟩)
  | ragged {bytes : Bytes} :
      r.fault = none → r.status = some 0 → r.binary = some bytes → ¬ 4 ∣ bytes.length →
      Answers r
        (.error (.codeGeneration s!"output of {bytes.length} bytes is not a whole number of words"))
  | unwritten : r.fault = none → r.status = some 0 → r.binary = none →
      Answers r (.error (.io Tool.validator.name .notFound))
  | rejected :
      r.fault = none → r.status = some 2 ∨ r.status = some 3 → Answers r (.ok ⟨none, logOf r⟩)
  | failed : r.fault = none → r.status ≠ some 0 → r.status ≠ some 2 → r.status ≠ some 3 →
      Answers r (.error (.failed Tool.validator.name r.status (logOf r)))
  | lost {e : SystemError} : r.fault = some e → Answers r (.error (.io Tool.validator.name e))

def linkArgs (t : ExternalToolchain) (unit : AcceptedSource) : List String :=
  unit.args ++ ["-V", "-o", t.outputFile (t.outputs + 1)]

/-- How a link goes in a toolchain. There is no run for want of a directory or of a validator. Else
the run is told to write a file of a new name, and at its end just what it wrote is there. -/
inductive Linked (t : ExternalToolchain) (unit : AcceptedSource) :
    Except ToolchainError (WithLog (List UInt32)) → ExternalToolchain → Prop
  | placeless {t' : ExternalToolchain} {e : SystemError} :
      t.host.scratch = none → t.host.scratchFault = some e →
      t'.host.calls = t.host.calls → Linked t unit (.error (.io Tool.validator.name e)) t'
  | unstarted {t' : ExternalToolchain} {reason : String} :
      ¬ t.host.CanRun .validator (t.linkArgs unit) →
      t'.host.calls = t.host.calls →
        Linked t unit (.error (.unavailable Tool.validator.name reason)) t'
  | run {t' : ExternalToolchain} {answer : Except ToolchainError (WithLog (List UInt32))}
      {call : ToolCall} :
      t.host.CanRun .validator (t.linkArgs unit) → t'.host.calls = t.host.calls ++ [call] →
      call.tool = .validator → call.args = t.linkArgs unit →
        call.outputName? = some (outputName (t.outputs + 1)) →
      outputName (t.outputs + 1) ∉ t.outputNames →
      (t'.host.scratch.getD []).lookup (t.outputFile (t.outputs + 1)) = t.host.next.binary →
      Answers t.host.next answer → Linked t unit answer t'

structure Numbered (t : ExternalToolchain) : Prop where
  files : ∀ fs, t.host.scratch = some fs → ∀ f ∈ fs, ∃ n ≤ t.outputs, f.1 = t.outputFile n
  names : ∀ name ∈ t.outputNames, ∃ n ≤ t.outputs, name = outputName n
  nodup : t.outputNames.Nodup

variable {t : ExternalToolchain} {unit : AcceptedSource}

lemma outputName_injective : Function.Injective outputName := fun m n h => by
  have hchars : (toString m ++ ".spv").toList = (toString n ++ ".spv").toList :=
    congrArg String.toList h
  rw [String.toList_append, String.toList_append] at hchars
  exact Nat.repr_inj.mp (String.toList_inj.mp (List.append_cancel_right hchars))

lemma outputFile_eq (t : ExternalToolchain) (n : Nat) :
    t.outputFile n = t.host.scratchPath ++ "/" ++ outputName n := by
  simp only [outputFile, outputName, String.append_assoc]
  rfl

lemma toList_outputName (n : Nat) :
    (outputName n).toList = Nat.toDigits 10 n ++ ['.', 's', 'p', 'v'] := by
  have hname : outputName n = n.repr ++ ".spv" := rfl
  rw [hname, String.toList_append, Nat.toList_repr]
  rfl

lemma fileName_outputFile (t : ExternalToolchain) (n : Nat) :
    PathName.fileName? (t.outputFile n) = some (outputName n) := by
  have hlength : 4 ≤ (outputName n).toList.length := by simp [toList_outputName]
  rw [outputFile_eq]
  refine PathName.fileName_append ?_ ?_ ?_
  · have hdigits : '/' ∉ Nat.toDigits 10 n := fun h => by
      simpa using Nat.isDigit_of_mem_toDigits (by decide) (by decide) h
    simp [toList_outputName, hdigits]
  · rw [PathName.isIdle, decide_eq_false_iff_not]
    rintro (h | h) <;> simp [h] at hlength
  · intro h
    simp [h] at hlength

lemma notMem_parseArgs (t : ExternalToolchain) {request : ParseRequest} (h : request.HasPreamble) :
    "-o" ∉ t.parseArgs request := by
  obtain ⟨ds, hds⟩ := h
  have hpreamble : "-o" ≠ request.preamble := by
    intro he
    have hlength := congrArg String.length (he.trans hds)
    rw [Preamble.text, String.length_append] at hlength
    have hend : 2 < Preamble.endLine.length := by decide
    have htwo : "-o".length = 2 := by decide
    omega
  have hdir : ∀ dir ∈ t.includeDirs, "-I" ++ dir ≠ "-o" := by
    intro dir _ he
    have hchars := congrArg String.toList he
    rw [String.toList_append] at hchars
    simp at hchars
  have hstage : "-o" ≠ request.stage.fileExtension := by
    cases request.stage <;> decide
  simp only [parseArgs, List.mem_append, List.mem_cons, List.mem_map, List.not_mem_nil, not_or,
    not_exists, not_and]
  refine ⟨⟨⟨by decide, by decide, hstage, by decide, hpreamble, not_false⟩, hdir⟩, ?_⟩
  split <;> decide

lemma parse_snd (t : ExternalToolchain) (request : ParseRequest) :
    (t.parse request).2 = (t.run .validator (t.parseArgs request)
      (Utf8.encode request.source)).2 := by
  rw [parse]
  split <;> rename_i h
  · rw [h]
  · rw [h]
    dsimp only
    split <;> rfl

lemma disassemble_snd (t : ExternalToolchain) (words : List UInt32) :
    (t.disassemble words).2 = (t.run .disassembler ["-"] (Words.encode words)).2 := by
  rw [disassemble]
  split <;> rename_i h
  · rw [h]
  · rw [h]
    dsimp only
    split
    · split <;> rfl
    · rfl

lemma args_of_parse {request : ParseRequest} {log : String}
    (h : (t.parse request).1 = .ok ⟨some unit, log⟩) : unit.args = t.parseArgs request := by
  rw [parse] at h
  split at h
  · cases h
  · split at h
    · cases h
      rfl
    · cases h
    · cases h

lemma notMem_args (h : unit.IsAccepted) : "-o" ∉ unit.args := by
  obtain ⟨t, request, log, hpreamble, hparse⟩ := h
  rw [args_of_parse hparse]
  exact t.notMem_parseArgs hpreamble

lemma outputPath_linkArgs (t : ExternalToolchain) (h : unit.IsAccepted) :
    ToolHost.outputPath? (t.linkArgs unit) = some (t.outputFile (t.outputs + 1)) := by
  rw [linkArgs, ToolHost.outputPath_append (notMem_args h)]
  rfl

lemma outputName_linkArgs (t : ExternalToolchain) (h : unit.IsAccepted) (tool : Tool)
    (input : Bytes) :
    ToolCall.outputName? ⟨tool, t.linkArgs unit, input⟩ = some (outputName (t.outputs + 1)) := by
  rw [ToolCall.outputName?, t.outputPath_linkArgs h, Option.bind_some, fileName_outputFile]

lemma run_cases (t : ExternalToolchain) (tool : Tool) (args : List String) (input : Bytes) :
    (¬ t.host.CanRun tool args ∧
      ∃ reason, t.run tool args input = (.error (.unavailable tool.name reason), t)) ∨
      t.host.CanRun tool args ∧
        t.run tool args input = (t.host.next.fault.elim (.ok t.host.next) fun e =>
          .error (.io tool.name e), { t with host := t.host.respond tool args input }) := by
  by_cases hcan : t.host.CanRun tool args
  · exact .inr ⟨hcan, by rw [run, ToolHost.run_of_canRun hcan]⟩
  · obtain ⟨reason, h⟩ := ToolHost.run_of_not_canRun hcan input
    exact .inl ⟨hcan, reason, by rw [run, h]⟩

def opened (t : ExternalToolchain) : ExternalToolchain :=
  { t with
    outputs := t.outputs + 1
    host := { t.host with scratch := some (t.host.scratch.getD []) } }

def answered (t : ExternalToolchain) (unit : AcceptedSource) : ExternalToolchain :=
  { t.opened with
    host := t.opened.host.respond .validator (t.linkArgs unit) (Utf8.encode unit.source) }

lemma readOutput_cases {path : String} {binary : Option Bytes}
    (h : (t.host.scratch.getD []).lookup path = binary) :
    (binary = none ∧ t.readOutput path = .error (.io Tool.validator.name .notFound)) ∨
      ∃ bytes, binary = some bytes ∧ ((∃ ws, Words.encode ws = bytes ∧ t.readOutput path = .ok ws) ∨
        ¬ 4 ∣ bytes.length ∧ t.readOutput path = .error
          (.codeGeneration s!"output of {bytes.length} bytes is not a whole number of words")) := by
  cases binary with
  | none => exact .inl ⟨rfl, by rw [readOutput, ToolHost.readScratch, h]⟩
  | some bytes =>
    refine .inr ⟨bytes, rfl, ?_⟩
    rw [readOutput, ToolHost.readScratch, h]
    dsimp only
    cases hdecode : Words.decode? bytes with
    | some ws => exact .inl ⟨ws, Words.encode_of_decode hdecode, rfl⟩
    | none => exact .inr ⟨by rw [← Words.isSome_decode_iff, hdecode]; decide, rfl⟩

lemma answers_linkOutcome {r : ToolResponse} {path : String} (hfault : r.fault = none)
    (h : (t.host.scratch.getD []).lookup path = r.binary) : Answers r (t.linkOutcome path r) := by
  rw [linkOutcome]
  split <;> rename_i hstatus
  · rcases readOutput_cases h with ⟨hbinary, hread⟩ | ⟨bytes, hbinary,
      ⟨ws, hws, hread⟩ | ⟨hragged, hread⟩⟩
    · rw [hread]
      exact .unwritten hfault hstatus hbinary
    · rw [hread]
      exact .words hfault hstatus hbinary hws
    · rw [hread]
      exact .ragged hfault hstatus hbinary hragged
  · exact .rejected hfault (.inl hstatus)
  · exact .rejected hfault (.inr hstatus)
  · rename_i hzero htwo
    exact .failed hfault hzero htwo hstatus

lemma link_cases (t : ExternalToolchain) (unit : AcceptedSource) :
    (∃ e, t.host.scratch = none ∧ t.host.scratchFault = some e ∧
      t.link unit = (.error (.io Tool.validator.name e), { t with outputs := t.outputs + 1 })) ∨
    (¬ t.host.CanRun .validator (t.linkArgs unit) ∧
      ∃ reason, t.link unit = (.error (.unavailable Tool.validator.name reason), t.opened)) ∨
    t.host.CanRun .validator (t.linkArgs unit) ∧ (t.link unit).2 = t.answered unit ∧
      (((t.answered unit).host.scratch.getD []).lookup (t.outputFile (t.outputs + 1)) =
        t.host.next.binary →
        Answers t.host.next (t.link unit).1) := by
  rcases t.host.openScratch_cases with ⟨e, hscratch, he, hopen⟩ | hopen
  · exact .inl ⟨e, hscratch, he, by rw [link]; dsimp only; rw [hopen]⟩
  right
  have hlink : t.link unit = t.opened.linkTo unit (t.outputFile (t.outputs + 1)) := by
    rw [link]
    dsimp only
    rw [hopen]
    rfl
  rw [hlink, linkTo, ← linkArgs]
  rcases t.opened.run_cases .validator (t.linkArgs unit) (Utf8.encode unit.source) with
    ⟨hcan, reason, hrun⟩ | ⟨hcan, hrun⟩
  · exact .inl ⟨hcan, reason, by rw [hrun]⟩
  · refine .inr ⟨hcan, ?_⟩
    rw [hrun]
    have hnext : t.opened.host.next = t.host.next := rfl
    rw [hnext]
    cases hfault : t.host.next.fault with
    | some e => exact ⟨rfl, fun _ => .lost hfault⟩
    | none => exact ⟨rfl, fun hfile => answers_linkOutcome hfault hfile⟩

lemma scratch_answered (t : ExternalToolchain) (hunit : unit.IsAccepted) :
    (t.answered unit).host.scratch =
    some ((t.host.next.binary.toList.map fun binary => (t.outputFile (t.outputs + 1), binary)) ++
      t.host.scratch.getD []) := by
  have hfiles : (t.answered unit).host.scratch =
      some (ToolHost.filesAfter (t.host.scratch.getD []) (t.linkArgs unit) t.host.next) := rfl
  rw [hfiles, ToolHost.filesAfter, t.outputPath_linkArgs hunit]
  cases t.host.next.binary <;> rfl

namespace Numbered

lemma start (host : ToolHost) : Numbered (start host) where
  files _ h := by cases h
  names _ h := by cases h
  nodup := List.nodup_nil

lemma of_eq {t' : ExternalToolchain} (h : Numbered t) (houtputs : t'.outputs = t.outputs)
    (hcalls : t'.host.calls = t.host.calls)
    (hfiles : ∀ fs, t'.host.scratch = some fs → t.host.scratch = some fs ∧
      t'.host.scratchPath = t.host.scratchPath) :
    Numbered t' where
  files fs hfs f hf := by
    obtain ⟨hscratch, hpath⟩ := hfiles fs hfs
    obtain ⟨n, hn, he⟩ := h.files fs hscratch f hf
    exact ⟨n, houtputs ▸ hn, by rw [he, outputFile_eq, outputFile_eq, hpath]⟩
  names := by rw [outputNames, hcalls, houtputs]; exact h.names
  nodup := by rw [outputNames, hcalls]; exact h.nodup

lemma run (h : Numbered t) (tool : Tool) {args : List String}
    (hargs : ToolHost.outputPath? args = none) (input : Bytes) :
    Numbered (t.run tool args input).2 := by
  rcases t.run_cases tool args input with ⟨-, reason, hrun⟩ | ⟨-, hrun⟩
  · rw [hrun]
    exact h
  · rw [hrun]
    have hscratch : (t.host.respond tool args input).scratch = t.host.scratch := by
      rw [ToolHost.respond]
      cases t.host.scratch with
      | none => rfl
      | some fs => exact congrArg some (ToolHost.filesAfter_of_none hargs fs _)
    have hnames :
        outputNames { t with host := t.host.respond tool args input } = t.outputNames := by
      rw [outputNames, ToolHost.respond, List.filterMap_append]
      simp [ToolCall.outputName?, hargs, outputNames]
    exact {
      files := fun fs hfs => h.files fs (hscratch ▸ hfs)
      names := hnames ▸ h.names
      nodup := hnames ▸ h.nodup }

lemma next (h : Numbered t) : Numbered { t with outputs := t.outputs + 1 } where
  files fs hfs f hf := by
    obtain ⟨n, hn, he⟩ := h.files fs hfs f hf
    exact ⟨n, hn.trans (Nat.le_succ _), he⟩
  names name hname := by
    obtain ⟨n, hn, he⟩ := h.names name hname
    exact ⟨n, hn.trans (Nat.le_succ _), he⟩
  nodup := h.nodup

lemma opened (h : Numbered t) : Numbered t.opened where
  files fs hfs f hf := by
    obtain rfl : t.host.scratch.getD [] = fs := Option.some.inj hfs
    cases hscratch : t.host.scratch with
    | none => simp [hscratch] at hf
    | some fs => exact h.next.files fs hscratch f (by simpa [hscratch] using hf)
  names := h.next.names
  nodup := h.next.nodup

lemma notMem (h : Numbered t) : outputName (t.outputs + 1) ∉ t.outputNames := fun hmem => by
  obtain ⟨n, hn, he⟩ := h.names _ hmem
  have := outputName_injective he
  omega

lemma lookup_eq_none (h : Numbered t) :
    (t.host.scratch.getD []).lookup (t.outputFile (t.outputs + 1)) = none := by
  cases hscratch : t.host.scratch with
  | none => rfl
  | some fs =>
    rw [Option.getD_some, List.lookup_eq_none_iff]
    intro f hf
    obtain ⟨n, hn, he⟩ := h.files fs hscratch f hf
    rw [bne_iff_ne, ne_eq, he]
    intro hpath
    have hname := congrArg PathName.fileName? hpath
    rw [fileName_outputFile, fileName_outputFile, Option.some.injEq] at hname
    have := outputName_injective hname
    omega

lemma answered (h : Numbered t) (hunit : unit.IsAccepted) : Numbered (t.answered unit) := by
  have hnames : (t.answered unit).outputNames = t.outputNames ++ [outputName (t.outputs + 1)] := by
    have hcalls : (t.answered unit).host.calls = t.host.calls ++ [⟨.validator, t.linkArgs unit,
        if t.host.next.readsInput then Utf8.encode unit.source else []⟩] := rfl
    rw [outputNames, hcalls, List.filterMap_append, List.filterMap_cons,
      t.outputName_linkArgs hunit]
    rfl
  exact {
    files := fun fs hfs f hf => by
      rw [scratch_answered t hunit, Option.some.injEq] at hfs
      rw [← hfs, List.mem_append, List.mem_map] at hf
      obtain ⟨binary, -, rfl⟩ | hold := hf
      · exact ⟨t.outputs + 1, le_rfl, rfl⟩
      · exact h.opened.files _ rfl f hold
    names := fun name hname => by
      rw [hnames, List.mem_append, List.mem_singleton] at hname
      obtain hold | rfl := hname
      · exact h.next.names name hold
      · exact ⟨t.outputs + 1, le_rfl, rfl⟩
    nodup := by
      rw [hnames]
      exact List.nodup_append.mpr ⟨h.nodup, List.nodup_singleton _, fun a ha b hb hab =>
        h.notMem (by rwa [← List.mem_singleton.mp hb, ← hab])⟩ }

lemma link (h : Numbered t) (hunit : unit.IsAccepted) : Numbered (t.link unit).2 := by
  rcases t.link_cases unit with ⟨e, -, -, hlink⟩ | ⟨-, reason, hlink⟩ | ⟨-, hlink, -⟩
  · rw [hlink]
    exact h.next
  · rw [hlink]
    exact h.opened
  · rw [hlink]
    exact h.answered hunit

lemma perform (h : Numbered t) (op : Operation) : Numbered (t.perform op) := by
  -- a link alone names a file, and so no other operation needs the number
  cases op with
  | addIncludeDir dir => exact h.of_eq rfl rfl fun fs hfs => ⟨hfs, rfl⟩
  | acquire =>
    have hacquire : t.acquire.2 = t := by rw [acquire]; split <;> rfl
    rw [ExternalToolchain.perform, hacquire]
    exact h
  | parse request hrequest =>
    rw [ExternalToolchain.perform, parse_snd]
    refine h.run _ ?_ _
    rw [← List.append_nil (parseArgs t request),
      ToolHost.outputPath_append (t.notMem_parseArgs hrequest)]
    rfl
  | link unit hunit => exact h.link hunit
  | disassemble words =>
    rw [ExternalToolchain.perform, disassemble_snd]
    exact h.run _ rfl _
  | release => exact h.of_eq rfl rfl fun fs hfs => by cases hfs
  | pass surroundings =>
    refine h.of_eq rfl rfl fun fs hfs => ⟨hfs, if_pos ?_⟩
    exact Option.isSome_of_mem hfs

lemma after (h : Numbered t) (ops : List Operation) : Numbered (t.after ops) := by
  induction ops generalizing t with
  | nil => exact h
  | cons op ops ih => exact ih (h.perform op)

end Numbered

lemma scratch_perform {op : Operation} (hop : ¬ op.IsLink) (h : t.host.scratch = none) :
    (t.perform op).host.scratch = none := by
  have hrun : ∀ tool args input, (t.run tool args input).2.host.scratch = none :=
    fun tool args input => by
    rcases t.run_cases tool args input with ⟨-, reason, hrun⟩ | ⟨-, hrun⟩
    · rw [hrun]
      exact h
    · rw [hrun]
      exact congrArg (Option.map _) h
  cases op with
  | addIncludeDir dir => exact h
  | acquire => rw [perform, acquire]; split <;> exact h
  | parse request hrequest => rw [perform, parse_snd]; exact hrun _ _ _
  | link unit hunit => exact (hop trivial).elim
  | disassemble words => rw [perform, disassemble_snd]; exact hrun _ _ _
  | release => rfl
  | pass surroundings => exact h

lemma scratch_after {ops : List Operation} (hops : ∀ op ∈ ops, ¬ op.IsLink)
    (h : t.host.scratch = none) : (t.after ops).host.scratch = none := by
  induction ops generalizing t with
  | nil => exact h
  | cons op ops ih =>
    exact ih (fun o ho => hops o (.tail _ ho)) (scratch_perform (hops op (.head _)) h)

lemma after_append (t : ExternalToolchain) (ops more : List Operation) :
    t.after (ops ++ more) = (t.after ops).after more :=
  List.foldl_append

lemma outputs_link (t : ExternalToolchain) (unit : AcceptedSource) :
    (t.link unit).2.outputs = t.outputs + 1 := by
  rcases t.link_cases unit with ⟨e, -, -, hlink⟩ | ⟨-, reason, hlink⟩ | ⟨-, hlink, -⟩ <;>
    rw [hlink] <;> rfl

lemma Numbered.linked (h : Numbered t) (hunit : unit.IsAccepted) :
    Linked t unit (t.link unit).1 (t.link unit).2 := by
  rcases t.link_cases unit with
    ⟨e, hscratch, he, hlink⟩ | ⟨hcan, reason, hlink⟩ | ⟨hcan, hlink, hanswers⟩
  · rw [hlink]
    exact .placeless hscratch he rfl
  · rw [hlink]
    exact .unstarted hcan rfl
  · have hlookup : ((t.answered unit).host.scratch.getD []).lookup (t.outputFile (t.outputs + 1)) =
        t.host.next.binary := by
      rw [scratch_answered t hunit, Option.getD_some]
      cases t.host.next.binary with
      | none => exact h.lookup_eq_none
      | some binary => exact List.lookup_cons_self
    rw [hlink]
    exact .run hcan rfl rfl rfl (t.outputName_linkArgs hunit _ _) h.notMem hlookup
      (hanswers hlookup)

theorem links_have_own_outputs (host : ToolHost) (ops : List Operation) :
    ((start host).after ops).outputNames.Nodup ∧
    (∀ unit : AcceptedSource, unit.IsAccepted →
      (((start host).after ops).link unit).2.outputs = ((start host).after ops).outputs + 1 ∧
      Linked ((start host).after ops) unit (((start host).after ops).link unit).1
        (((start host).after ops).link unit).2) ∧
    ∀ more : List Operation, (∀ op ∈ more, ¬ op.IsLink) →
      ((start host).after (ops ++ .release :: more)).host.scratch = none := by
  have hnumbered := (Numbered.start host).after ops
  refine ⟨hnumbered.nodup, fun unit hunit => ⟨outputs_link _ unit, hnumbered.linked hunit⟩,
    fun more hmore => ?_⟩
  rw [after_append]
  exact scratch_after (t := ((start host).after ops).release) hmore rfl

def forgetful : ToolHost where
  availability _ := .installed
  responses := [{ binary := some [1, 0, 0, 0] }]
  scratchPath := "scratch"

def emptyRequest : ParseRequest where
  tag := "empty.vert"
  source := ""
  preamble := Preamble.text (.ofList [])
  stage := .vertex
  version := .default
  forced := false
  forwardCompatible := false
  debugInfo := false

def emptyUnit : AcceptedSource where
  args := (start forgetful).parseArgs emptyRequest
  source := ""

lemma isAccepted_emptyUnit : emptyUnit.IsAccepted :=
  ⟨start forgetful, emptyRequest, logOf {}, ⟨.ofList [], rfl⟩, by rfl⟩

theorem second_link_has_no_words :
    emptyUnit.IsAccepted ∧
      (((start forgetful).after [.link emptyUnit isAccepted_emptyUnit]).link emptyUnit).1 =
        .error (.io "glslangValidator" .notFound) := by
  refine ⟨isAccepted_emptyUnit, ?_⟩
  obtain ⟨-, hlink⟩ := (links_have_own_outputs forgetful [.link emptyUnit isAccepted_emptyUnit]).2.1
    emptyUnit isAccepted_emptyUnit
  generalize (((start forgetful).after [.link emptyUnit isAccepted_emptyUnit]).link emptyUnit).1 =
    answer at hlink ⊢
  cases hlink with
  | placeless _ he => cases he
  | unstarted hcan => exact (hcan ⟨rfl, by decide⟩).elim
  | run _ _ _ _ _ _ _ hanswers =>
    have hnext :
        ((start forgetful).after [.link emptyUnit isAccepted_emptyUnit]).host.next = {} := by rfl
    rw [hnext] at hanswers
    cases hanswers with
    | words _ _ hbinary => cases hbinary
    | ragged _ _ hbinary => cases hbinary
    | unwritten => rfl
    | rejected _ hstatus => simp at hstatus
    | failed _ hstatus => exact (hstatus rfl).elim
    | lost hfault => cases hfault

end ExternalToolchain

end ShaderPipeline
