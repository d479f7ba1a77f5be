import ShaderPipeline.PathName
import ShaderPipeline.SystemError

namespace ShaderPipeline

/-- Quoted names are looked up beside the requesting file first, bracketed ones only on the search
paths. -/
inductive IncludeKind
  | relative
  | standard
  deriving DecidableEq, Repr

structure IncludeRequest where
  requested : String
  kind : IncludeKind
  requesting : String
  depth : Nat
  deriving DecidableEq, Repr

structure Included where
  name : String
  content : String
  deriving DecidableEq, Repr

inductive IncludeError
  | notFound (requested requesting : String)
  | unreadable (path : String) (reason : SystemError)
  deriving DecidableEq, Repr

def IncludeError.message : IncludeError → String
  | .notFound requested _ => s!"cannot find or open include file: {requested}"
  | .unreadable path reason => s!"failed to read {path}: {reason.message}"

structure Includer (σ : Type) where
  resolve : σ → IncludeRequest → Except IncludeError Included × σ
  count : σ → Nat
  reset : σ → σ

namespace Includer

def pathRead? : Except IncludeError Included → Option String
  | .ok found => some found.name
  | .error (.unreadable path _) => some path
  | .error (.notFound ..) => none

def null : Includer Unit where
  resolve _ request := (.error (.notFound request.requested request.requesting), ())
  count _ := 0
  reset _ := ()

end Includer

structure FileSearch where
  read : String → Except SystemError String
  searchPaths : List String := []
  resolved : Nat := 0

namespace FileSearch

def addSearchPath (s : FileSearch) (path : String) : FileSearch :=
  { s with searchPaths := s.searchPaths ++ [path] }

def besidePath (requested requesting : String) : String :=
  match PathName.parent? requesting with
  | some dir => PathName.join dir requested
  | none => requested

def candidates (s : FileSearch) (request : IncludeRequest) : List String :=
  if Text.startsWith request.requested "/" then [request.requested]
  else
    (match request.kind with
      | .relative => [besidePath request.requested request.requesting]
      | .standard => []) ++ s.searchPaths.map (PathName.join · request.requested)

def firstReadable (read : String → Except SystemError String) (request : IncludeRequest) :
    List String → Except IncludeError Included
  | [] => .error (.notFound request.requested request.requesting)
  | path :: paths =>
    match read path with
    | .ok content => .ok ⟨path, content⟩
    | .error .notFound => firstReadable read request paths
    | .error e => .error (.unreadable path e)

def resolve (s : FileSearch) (request : IncludeRequest) :
    Except IncludeError Included × FileSearch :=
  match firstReadable s.read request (s.candidates request) with
  | .ok found => (.ok found, { s with resolved := s.resolved + 1 })
  | .error e => (.error e, s)

def includer : Includer FileSearch where
  resolve := resolve
  count s := s.resolved
  reset s := { s with resolved := 0 }

end FileSearch

end ShaderPipeline
