import ShaderPipeline.Proofs.Compile.Preparation
import ShaderPipeline.Proofs.Preprocess.Verbatim

namespace ShaderPipeline

variable {σ : Type}

namespace Compile

variable {ω υ π : Type}

theorem compile_plainText {s : Services ω υ π} {inc : Includer σ} {part : ω → σ}
    (hs : s.BuiltIn inc part) (hreset : ∀ includer, inc.count (inc.reset includer) = 0)
    {o : CompilerOptions} (hmode : o.preprocessOnly = true)
    (hds : ∀ e ∈ o.definitions.entries, Preamble.IsObject e) {shader : ShaderSource}
    (hsource : Preprocess.IsPlainText (o.definitions.entries.map (·.1)) shader.source)
    (stage : Option Stage) (fallback : String → ω → Option Stage × ω) (w : ω) :
    (compile s o shader stage fallback w).1 = .ok ⟨none, .preprocessed shader.source, {}⟩ := by
  let blanks := List.replicate o.definitions.entries.length "\n"
  have hresult : Preprocess.preprocess inc (preprocessRequest o shader) (part (s.resetIncludes w)) =
      (⟨true, String.join blanks ++ Preamble.endLine ++ shader.source, ""⟩,
        part (s.resetIncludes w)) :=
    Preprocess.preprocess_verbatim hds hsource inc shader.tag o.version o.versionForced _
  have hcount : inc.count (part (s.resetIncludes w)) = 0 := by rw [hs.resetIncludes, hreset]
  have hremove : ∀ nextLine, Preamble.remove (String.join blanks ++ Preamble.endLine ++
      shader.source) shader.tag
      Preamble.endLine (inc.count (Preprocess.preprocess inc (preprocessRequest o shader)
        (part (s.resetIncludes w))).2) nextLine = .ok shader.source := by
    intro nextLine
    rw [hresult, hcount]
    exact Preamble.remove_body (Preprocess.blankLine_replicate _) _ _ _
  rw [compile_preprocessOnly hmode, prepare_of_result hs (congrArg Prod.fst hresult) hremove]
  rfl

def oddities : String :=
  "a = \"N é;\r\n\t$1.5e+N 7N ' \\ /\n"

def plainOptions : CompilerOptions :=
  { definitions := Preprocess.oneDefinition, preprocessOnly := true }

theorem compile_plainText_of_oddities :
    (compile (CommandLine.services Includer.null) plainOptions ⟨"t", oddities⟩ none
      (fun _ w => (none, w)) ((), idle)).1 = .ok ⟨none, .preprocessed oddities, {}⟩ := by
  have hlines : Text.lines oddities = ["a = \"N é;\r", "\t$1.5e+N 7N ' \\ /"] := by cbv
  have hfirst : Token.tokenize "a = \"N é;\r" = [.ident "a", .blank, .punct "=", .blank,
      ⟨.str, "\"N é;\r"⟩] := by cbv
  have hsecond :
      Token.tokenize "\t$1.5e+N 7N ' \\ /" = [⟨.space, "\t"⟩, .punct "$", .number "1.5e+N", .blank,
      .number "7N", .blank, .punct "'", .blank, .punct "\\", .blank, .punct "/"] := by cbv
  have hsource : Preprocess.IsPlainText (plainOptions.definitions.entries.map (·.1)) oddities := by
    refine ⟨?_, ⟨by decide, by decide, by decide, by decide⟩, ?_⟩
    · intro c hc
      obtain rfl : '\n' = c := by simpa [oddities] using hc
      rfl
    · rw [hlines]
      simp only [List.forall_mem_cons]
      exact ⟨⟨by decide, by rw [hfirst]; decide⟩, ⟨by decide, by rw [hsecond]; decide⟩,
        List.forall_mem_nil _⟩
  exact compile_plainText (CommandLine.builtIn_services Includer.null) (fun _ => rfl) rfl
    Preprocess.isObject_oneDefinition hsource none _ _

end Compile

end ShaderPipeline
