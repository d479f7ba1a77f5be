import ShaderPipeline.CommandLine.Grammar
import ShaderPipeline.CommandLine.Invocation

namespace ShaderPipeline.CommandLine

def Flag.spec : Flag → OptionSpec
  | .output =>
    { short := some 'o', long := some "output", hint := some "FILE",
      help := "set output file name" }
  | .preprocessOnly => { short := some 'E', help := "output preprocessed source only" }
  | .disassembly => { short := some 'S', help := "output disassembly rather than a binary" }
  | .compileOnly => { short := some 'c', help := "compile only (default)" }
  | .define =>
    { short := some 'D', hint := some "NAME[=VALUE]", repeats := true, help := "define a macro" }
  | .includeDir =>
    { short := some 'I', hint := some "DIR", repeats := true,
      help := "add directory to include search path" }
  | .feature =>
    { short := some 'f', hint := some "shader-stage=STAGE", repeats := true,
      help := "set shader stage (-fshader-stage=STAGE)" }
  | .shaderStage =>
    { long := some "shader-stage", hint := some "STAGE", help := "set shader stage" }
  | .standard =>
    { long := some "std", hint := some "VERSIONPROFILE",
      help := "force version and profile, such as 450core or 310es" }
  | .noWarnings => { short := some 'w', help := "suppress all warnings" }
  | .warning =>
    { short := some 'W', hint := some "error", repeats := true,
      help := "treat warnings as errors (-Werror)" }
  | .debugInfo => { short := some 'g', help := "generate debug information" }
  | .help => { short := some 'h', long := some "help", help := "print this help menu" }

def grammar : Grammar Flag where
  flags := [.output, .preprocessOnly, .disassembly, .compileOnly, .define, .includeDir, .feature,
    .shaderStage, .standard, .noWarnings, .warning, .debugInfo, .help]
  spec := Flag.spec

def parse : List String → Except UsageError Command :=
  parseBy grammar.parse

end ShaderPipeline.CommandLine
