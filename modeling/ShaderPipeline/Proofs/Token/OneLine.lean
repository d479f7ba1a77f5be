import ShaderPipeline.Proofs.Macro.Append
import ShaderPipeline.Proofs.Macro.Origin
import ShaderPipeline.Proofs.Text.Lines
import ShaderPipeline.Token.Lexer

namespace ShaderPipeline

lemma newline_notMem_toString (n : Nat) : '\n' ∉ (toString n).toList := by
  intro h
  have hd :=
    Nat.isDigit_of_mem_toDigits (by decide) (by decide)
      (show '\n' ∈ Nat.toDigits 10 n by simpa using h)
  exact absurd hd (by decide)

lemma newline_notMem_toString_int (n : Int) : '\n' ∉ (toString n).toList := by
  rw [Int.toString_eq_repr, Int.repr_eq_if]
  split
  · exact newline_notMem_toString n.toNat
  · have h := newline_notMem_toString (-n).toNat
    simpa using h

namespace Token

def OneLine (t : Token) : Prop :=
  '\n' ∉ t.text.toList

lemma flatMap_scan (cs : List Char) : (scan cs).flatMap (·.text.toList) = cs := by
  induction cs using scan.induct with
  | case1 => rw [scan_nil]; rfl
  | case2 c cs ih =>
    rw [scan_cons, List.flatMap_cons, ih]
    simp [munch_append]

lemma oneLine_of_tokenize {s : String} (h : '\n' ∉ s.toList) : ∀ t ∈ tokenize s, t.OneLine := by
  intro t ht hn
  have hm : '\n' ∈ (scan s.toList).flatMap (·.text.toList) := List.mem_flatMap.mpr ⟨t, ht, hn⟩
  rw [flatMap_scan] at hm
  exact h hm

variable {ts : List Token}

lemma newline_notMem_join (h : ∀ t ∈ ts, t.OneLine) : '\n' ∉ (join ts).toList := by
  intro hn
  simp only [join, String.toList_join, List.flatMap_map] at hn
  obtain ⟨t, ht, hn⟩ := List.mem_flatMap.mp hn
  exact h t ht hn

lemma newline_notMem_canonical (h : ∀ t ∈ ts, t.OneLine) : '\n' ∉ (canonical ts).toList := by
  intro hn
  simp only [canonical, String.toList_join, List.flatMap_map] at hn
  obtain ⟨t, ht, hn⟩ := List.mem_flatMap.mp hn
  have ht := h t (mem_of_mem_trim ht)
  simp only [canonicalText] at hn
  split at hn
  · simp at hn
  · exact ht hn

end Token

namespace Macro

variable {t : Table} {b : Builtins} {ts out : List Token}

lemma oneLine_of_value (name : String) (v : Token) (h : b.value? name = some v) : v.OneLine := by
  simp only [Builtins.value?] at h
  split at h
  · obtain rfl := Option.some.inj h
    exact newline_notMem_toString_int _
  · obtain rfl := Option.some.inj h
    exact newline_notMem_toString _
  · obtain rfl := Option.some.inj h
    exact newline_notMem_toString _
  · cases h

lemma oneLine_of_expand (ht : t.Bodies Token.OneLine) (hts : ∀ x ∈ ts, x.OneLine)
    (h : t.expand b ts = .ok out) : ∀ x ∈ out, x.OneLine :=
  Table.forall_of_expand oneLine_of_value ht hts h

lemma oneLine_of_expandOpen (ht : t.Bodies Token.OneLine) (hts : ∀ x ∈ ts, x.OneLine)
    (h : t.expandOpen b ts = .ok (some out)) : ∀ x ∈ out, x.OneLine :=
  oneLine_of_expand ht hts (Table.expand_of_expandOpen h)

end Macro

end ShaderPipeline
