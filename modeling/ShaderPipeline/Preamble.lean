namespace ShaderPipeline

def insertSorted (name value : String) : List (String × String) → List (String × String)
  | [] => [(name, value)]
  | e :: es =>
    if name < e.1 then (name, value) :: e :: es
    else if name = e.1 then (name, value) :: es
    else e :: insertSorted name value es

theorem mem_insertSorted {name value : String} {es : List (String × String)} {x : String × String}
    (h : x ∈ insertSorted name value es) : x = (name, value) ∨ x ∈ es := by
  induction es with
  | nil => exact .inl (by simpa [insertSorted] using h)
  | cons e es ih => grind [insertSorted]

theorem pairwise_insertSorted {name value : String} {es : List (String × String)}
    (h : es.Pairwise (·.1 < ·.1)) : (insertSorted name value es).Pairwise (·.1 < ·.1) := by
  induction es with
  | nil => simp [insertSorted]
  | cons e es ih =>
    obtain ⟨he, hes⟩ := List.pairwise_cons.1 h
    unfold insertSorted
    split
    · rename_i hlt
      refine List.pairwise_cons.2 ⟨fun x hx => ?_, h⟩
      rcases List.mem_cons.1 hx with rfl | hx
      · exact hlt
      · exact String.lt_trans hlt (he x hx)
    split
    · rename_i heq
      exact List.pairwise_cons.2 ⟨fun x hx => heq ▸ he x hx, hes⟩
    · rename_i hlt heq
      refine List.pairwise_cons.2 ⟨fun x hx => ?_, ih hes⟩
      rcases mem_insertSorted hx with rfl | hx
      · exact Decidable.byContradiction fun h =>
          heq (String.le_antisymm (String.not_lt.1 h) (String.not_lt.1 hlt))
      · exact he x hx

structure Definitions where
  entries : List (String × String) := []
  sorted : entries.Pairwise (·.1 < ·.1) := by simp

namespace Definitions

def define (ds : Definitions) (name value : String) : Definitions :=
  ⟨insertSorted name value ds.entries, pairwise_insertSorted ds.sorted⟩

def ofList (es : List (String × String)) : Definitions :=
  es.foldl (fun ds e => ds.define e.1 e.2) {}

def directives (ds : Definitions) : String :=
  String.join (ds.entries.map fun e => s!"#define {e.1} {e.2}\n")

end Definitions

namespace Preamble

def includeExtension : String := "GL_GOOGLE_include_directive"

/-- The line that ends the preamble. It enables includes, and marks in the output where the source
begins. -/
def endLine : String := "#extension GL_GOOGLE_include_directive : enable\n"

def text (ds : Definitions) : String :=
  ds.directives ++ endLine

end Preamble

end ShaderPipeline
