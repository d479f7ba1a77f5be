import ShaderPipeline.Proofs.Text.BlockComment
import ShaderPipeline.Proofs.Text.Comments

/-! Where a text can be cut for cleaning. -/

namespace ShaderPipeline.Text

open Clean (State)

structure EndsLogicalLine (cs : List Char) : Prop where
  code : (State.behind cs).inBlock = false
  notContinued : ¬ "\\".toList <:+ cs
  notContinuedByReturn : ¬ "\\\r".toList <:+ cs

variable {cs : List Char}

lemma EndsLogicalLine.pieces_newline (h : EndsLogicalLine cs) :
    pieces (cs ++ ['\n']) = pieces cs ++ [.char '\n'] := by
  refine pieces_append fun as bs has hbs hne hne' => ?_
  obtain ⟨es, rfl, hes⟩ := (List.prefix_cons_iff.mp hbs).resolve_left hne'
  obtain rfl := List.prefix_nil.mp hes
  constructor
  · intro he
    obtain rfl : as = ['\\'] := (List.append_inj' he rfl).1
    exact h.notContinued has
  · intro he
    have he' : as ++ ['\n'] = ['\\', '\r'] ++ ['\n'] := he
    obtain rfl := (List.append_inj' he' rfl).1
    exact h.notContinuedByReturn has

lemma EndsLogicalLine.atLineStart (h : EndsLogicalLine cs) : AtLineStart (cs ++ ['\n']) := by
  refine ⟨isClosed_append_singleton, ?_⟩
  rw [h.pieces_newline, List.foldl_append, ← State.behind]
  exact State.next_newline h.code

lemma AtLineStart.clean_append {s : String} (h : AtLineStart s.toList) (t : String) :
    clean (s ++ t) = clean s ++ clean t := by
  rw [clean, String.toList_append, h.run_append, String.ofList_append, clean, clean]

theorem clean_by_lines (s : String) : (clean s).toList.count '\n' = s.toList.count '\n' ∧
    ∀ row rest, s = row ++ "\n" ++ rest → EndsLogicalLine row.toList →
      clean s = clean (row ++ "\n") ++ clean rest := by
  refine ⟨count_clean s, ?_⟩
  rintro row rest rfl h
  have hline : (row ++ "\n").toList = row.toList ++ ['\n'] := String.toList_append ..
  exact (hline ▸ h.atLineStart : AtLineStart (row ++ "\n").toList).clean_append rest

theorem clean_by_lines_of_comments :
    let row := "a /* b\n*/ c // d \\\n e"
    let rest := "f \\\r\n/* g"
    EndsLogicalLine row.toList ∧ clean (row ++ "\n" ++ rest) = "a  \n c  \n\n" ++ "f  \n" := by
  intro row rest
  have hends : EndsLogicalLine row.toList := ⟨by decide, by decide, by decide⟩
  have hrow : clean (row ++ "\n") = "a  \n c  \n\n" := by decide
  have hrest : clean rest = "f  \n" := by decide
  refine ⟨hends, ?_⟩
  rw [(clean_by_lines (row ++ "\n" ++ rest)).2 row rest rfl hends, hrow, hrest]

end ShaderPipeline.Text
