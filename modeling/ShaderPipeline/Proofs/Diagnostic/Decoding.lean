import ShaderPipeline.Diagnostic.Log
import ShaderPipeline.Proofs.LineNumber
import ShaderPipeline.Proofs.Text.Lines

namespace ShaderPipeline

namespace LogLine

open Text

def BeginsWithCount (cs : List Char) : Prop :=
  ∃ ds, ds ≠ [] ∧ (∀ d ∈ ds, d.isDigit = true) ∧
    ∃ found ∈ [" compilation errors.", " compilation warnings."], ds ++ found.toList <+: cs

lemma notDigit_of_found {found : String}
    (h : found ∈ [" compilation errors.", " compilation warnings."]) (rest : List Char) :
    (found.toList ++ rest).dropWhile Char.isDigit = found.toList ++ rest := by
  rcases List.mem_pair.mp h with rfl | rfl <;> rfl

lemma noColon_of_found {found : String}
    (h : found ∈ [" compilation errors.", " compilation warnings."]) : ':' ∉ found.toList := by
  rcases List.mem_pair.mp h with rfl | rfl <;> decide

lemma isSummary_iff {cs : List Char} : isSummary cs = true ↔ BeginsWithCount cs := by
  rw [isSummary, Bool.and_eq_true, Bool.or_eq_true, List.isPrefixOf_iff_prefix,
    List.isPrefixOf_iff_prefix]
  constructor
  · rintro ⟨hhead, hfound⟩
    have hne : cs.takeWhile Char.isDigit ≠ [] := by
      cases cs with
      | nil => cases hhead
      | cons c cs =>
        rw [List.takeWhile_cons_of_pos (by simpa using hhead)]
        exact List.cons_ne_nil _ _
    have htake {found : String} (h : found.toList <+: cs.dropWhile Char.isDigit) :
        cs.takeWhile Char.isDigit ++ found.toList <+: cs := by
      obtain ⟨rest, hrest⟩ := h
      exact ⟨rest, by rw [List.append_assoc, hrest, List.takeWhile_append_dropWhile]⟩
    refine ⟨_, hne, fun d hd => List.mem_takeWhile_imp hd, ?_⟩
    rcases hfound with h | h
    · exact ⟨_, List.mem_cons_self, htake h⟩
    · exact ⟨_, List.mem_cons_of_mem _ (List.mem_singleton_self _), htake h⟩
  · rintro ⟨ds, hne, hdigits, found, hfound, rest, rfl⟩
    have hhead : (ds ++ found.toList ++ rest).head?.any Char.isDigit = true := by
      cases ds with
      | nil => exact (hne rfl).elim
      | cons d ds => exact hdigits d List.mem_cons_self
    rw [List.append_assoc, List.dropWhile_append_of_pos hdigits, notDigit_of_found hfound,
      ← List.append_assoc]
    refine ⟨hhead, ?_⟩
    rcases List.mem_pair.mp hfound with rfl | rfl
    · exact .inl (List.prefix_append _ _)
    · exact .inr (List.prefix_append _ _)

structure IsSourceName (name : String) : Prop where
  noColon : ':' ∉ name.toList
  oneLine : '\n' ∉ name.toList
  notSummary : ¬ BeginsWithCount name.toList

lemma IsSourceName.isSummary_append {name : String} (h : IsSourceName name) (rest : List Char) :
    isSummary (name.toList ++ ':' :: rest) = false := by
  rw [Bool.eq_false_iff, ne_eq, isSummary_iff]
  rintro ⟨ds, hne, hdigits, found, hfound, hprefix⟩
  have hcolon : ':' ∉ ds ++ found.toList := by
    rw [List.mem_append, not_or]
    exact ⟨fun hd => absurd (hdigits _ hd) (by decide), noColon_of_found hfound⟩
  exact h.notSummary ⟨ds, hne, hdigits, found, hfound,
    (prefix_append_cons_iff hcolon _ _).mp hprefix⟩

lemma splitLocation_append {cs ds : List Char} (hc : ':' ∉ cs) (hd : ∀ d ∈ ds, d.isDigit = true)
    (hne : ds ≠ []) (text : List Char) :
    splitLocation? (cs ++ ':' :: (ds ++ ':' :: text)) = some (ds, text) := by
  have hds : ':' ∉ ds := fun h => absurd (hd _ h) (by decide)
  have hall : (!ds.isEmpty && ds.all Char.isDigit) = true := by simpa [hne] using hd
  rw [splitLocation?, splitAt_append hc]
  dsimp only [Option.bind_eq_bind, Option.bind_some]
  rw [splitAt_append hds]
  exact if_pos hall

lemma ofRest_located {name : String} (h : IsSourceName name) {ds : List Char}
    (hd : ∀ d ∈ ds, d.isDigit = true) (hne : ds ≠ []) (level : Level) (text : List Char) :
    ofRest level (name.toList ++ ':' :: (ds ++ ':' :: text)) =
      .located level (.ofList ds) (.ofList (stripChars text)) := by
  rw [ofRest, h.isSummary_append, splitLocation_append h.noColon hd hne]
  rfl

lemma isSummary_toDigits (n : Nat) (rest : List Char) :
    isSummary (Nat.toDigits 10 n ++ " compilation errors.".toList ++ rest) = true :=
  isSummary_iff.mpr ⟨_, Nat.toDigits_ne_nil, LineNumber.isDigit_of_mem_toDigits, _,
    List.mem_cons_self, List.prefix_append _ _⟩

lemma head_of_mem_ignoredLines {s : String} (h : s ∈ ignoredLines) :
    s.toList.head? = some 'W' ∨ s.toList.head? = some 'L' := by
  rcases List.mem_append.mp h with h | h
  · obtain ⟨version, -, rfl⟩ := List.mem_map.mp h
    left
    rw [String.toList_append, String.toList_append, String.toList_append]
    rfl
  · obtain ⟨stage, -, rfl⟩ := List.mem_map.mp h
    right
    rw [String.toList_append, String.toList_append]
    rfl

lemma parse_error (policy : WarningPolicy) {s : String} {rest : List Char}
    (h : s.toList = "ERROR: ".toList ++ rest) : parse policy s = ofRest .error rest := by
  have hempty : s.isEmpty = false := by
    rw [Bool.eq_false_iff, ne_eq, String.isEmpty_iff]
    rintro rfl
    cases h
  have hread : s ∉ ignoredLines := by
    intro hs
    rcases head_of_mem_ignoredLines hs with hs | hs <;> rw [h] at hs <;> cases hs
  have hwarning : afterPrefix? "WARNING: ".toList s.toList = none := by
    rw [h]
    rfl
  have herror : afterPrefix? "ERROR: ".toList s.toList = some rest := by rw [h, afterPrefix_append]
  unfold parse
  rw [hempty, decide_eq_false hread, hwarning, herror]
  rfl

end LogLine

namespace Log

open Text

lemma toList_dropCarriageReturn_append (cs : List Char) {ds : List Char} (h : ds ≠ []) :
    (dropCarriageReturn (.ofList (cs ++ ds))).toList =
      cs ++ (dropCarriageReturn (.ofList ds)).toList := by
  rw [dropCarriageReturn, dropCarriageReturn, String.toList_ofList, String.toList_ofList,
    List.getLast?_append_of_ne_nil _ h]
  split
  · rw [String.toList_ofList, String.toList_ofList, List.dropLast_append_of_ne_nil h]
  · rw [String.toList_ofList, String.toList_ofList]

lemma stripChars_dropCarriageReturn (cs : List Char) :
    stripChars (dropCarriageReturn (.ofList cs)).toList = stripChars cs := by
  rw [dropCarriageReturn, String.toList_ofList]
  split
  · rename_i h
    have hlast : cs.dropLast ++ ['\r'] = cs := List.dropLast_append_getLast? '\r' h
    have hblank : ∀ b ∈ ['\r'], isBlank b = true := List.forall_mem_singleton.mpr rfl
    rw [String.toList_ofList, ← stripChars_append_blank cs.dropLast hblank, hlast]
  · rw [String.toList_ofList]

def read? (tag : String) (policy : WarningPolicy) (line : List Char) : Option Message :=
  (LogLine.parse policy (dropCarriageReturn (.ofList line))).message? tag

lemma messages_eq (tag : String) (policy : WarningPolicy) (log : String) :
    messages tag policy log = (bareLines log.toList).filterMap (read? tag policy) := by
  rw [messages, lines, List.filterMap_map]
  rfl

end Log

end ShaderPipeline
