import ShaderPipeline.Proofs.Condition.Value
import ShaderPipeline.Proofs.Macro.Append
import ShaderPipeline.Proofs.Preprocess.Blocks
import ShaderPipeline.Proofs.Preprocess.History
import ShaderPipeline.Proofs.Token.Spacing

/-! A condition that asks whether a name is defined finds what the openers of their own find. -/

namespace ShaderPipeline

namespace Macro

variable {ts us : List Token} {n : String}

def tested (n : String) (parenthesized : Bool) : List Token :=
  if parenthesized then [.punct "(", .ident n, .punct ")"] else [.ident n]

lemma testedName_of_solid {parenthesized : Bool} (h : Token.solid ts = tested n parenthesized) :
    ∃ us, testedName? ts = some (n, us) ∧ Token.solid us = [] := by
  cases parenthesized with
  | false =>
    obtain ⟨us, htrim, hus⟩ := Token.trimStart_of_solid h
    refine ⟨us, ?_, hus⟩
    simp [testedName?, htrim, Token.ident]
  | true =>
    obtain ⟨us₁, hopen, h₁⟩ := Token.trimStart_of_solid h
    obtain ⟨us₂, hname, h₂⟩ := Token.trimStart_of_solid h₁
    obtain ⟨us, hclose, hus⟩ := Token.trimStart_of_solid h₂
    refine ⟨us, ?_, hus⟩
    simp [testedName?, hopen, hname, hclose, Token.isPunct, Token.ident, Token.punct]

lemma noIdent_of_solid (hus : Token.solid ts = us) (h : ∀ x ∈ us, x.kind ≠ .ident) :
    ∀ x ∈ ts, x.kind ≠ .ident := by
  intro x hx hk
  have hmem : x ∈ Token.solid ts := List.mem_filter.mpr ⟨hx, by simp [Token.isSpace, hk]⟩
  rw [hus] at hmem
  exact h x hmem hk

namespace Table

variable (t : Table)

lemma resolveDefined_append (hts : ∀ x ∈ ts, x.kind ≠ .ident) (us : List Token) :
    t.resolveDefined (ts ++ us) = (t.resolveDefined us).map (ts ++ ·) := by
  induction ts with
  | nil => cases h : t.resolveDefined us <;> simp [h, Except.map]
  | cons x ts ih =>
    obtain ⟨hx, hts⟩ := List.forall_mem_cons.mp hts
    rw [List.cons_append, resolveDefined, if_neg (by simp [Token.isIdent, hx]), ih hts]
    cases t.resolveDefined us <;> rfl

lemma resolveDefined_of_noIdent (hts : ∀ x ∈ ts, x.kind ≠ .ident) :
    t.resolveDefined ts = .ok ts := by
  have h := t.resolveDefined_append hts []
  rwa [List.append_nil, resolveDefined, Except.map, List.append_nil] at h

lemma resolveDefined_cons (h : testedName? ts = some (n, us)) :
    t.resolveDefined (.ident "defined" :: ts) =
      (t.resolveDefined us).map (t.definedToken n :: ·) := by
  have hd : (Token.ident "defined").isIdent "defined" = true := by decide
  rw [resolveDefined, if_pos hd]
  split
  · rename_i hnone
    cases hnone.symm.trans h
  · rename_i name after hsome
    obtain ⟨rfl, rfl⟩ := Prod.mk.inj (Option.some.inj (hsome.symm.trans h))
    rfl

lemma resolveDefined_of_solid {parenthesized : Bool} (hus : ∀ x ∈ us, x.kind ≠ .ident)
    (h : Token.solid ts = us ++ .ident "defined" :: tested n parenthesized) :
    ∃ out, t.resolveDefined ts = .ok out ∧ Token.solid out = us ++ [t.definedToken n] := by
  obtain ⟨before, rest, rfl, hbefore, hrest⟩ := List.filter_eq_append_iff.mp h
  obtain ⟨spaces, operand, rfl, hspaces, -, hoperand⟩ := List.filter_eq_cons_iff.mp hrest
  obtain ⟨after, hname, hafter⟩ := testedName_of_solid hoperand
  have hfront : Token.solid (before ++ spaces) = us := by
    have hgap : Token.solid spaces = [] := List.filter_eq_nil_iff.mpr hspaces
    rw [Token.solid_append, hgap, List.append_nil]
    exact hbefore
  have hback : t.resolveDefined after = .ok after :=
    t.resolveDefined_of_noIdent (noIdent_of_solid hafter (List.forall_mem_nil _))
  refine ⟨before ++ spaces ++ t.definedToken n :: after, ?_, ?_⟩
  · rw [← List.append_assoc, t.resolveDefined_append (noIdent_of_solid hfront hus),
      t.resolveDefined_cons hname, hback]
    rfl
  · rw [Token.solid_append, hfront, Token.solid_cons rfl, hafter]

lemma expand_of_noIdent (b : Builtins) (hts : ∀ x ∈ ts, x.kind ≠ .ident) : t.expand b ts = .ok ts :=
  expand_of_expandOpen (expandOpen_of_inert fun x hx hk => (hts x hx hk).elim)

end Table

end Macro

namespace Preprocess

inductive DefinedTest
  | opener (negated : Bool)
  | operator (negated parenthesized : Bool)

namespace DefinedTest

def negated : DefinedTest → Bool
  | .opener negated | .operator negated _ => negated

def group : DefinedTest → Opener
  | .opener false => .defined
  | .opener true => .undefined
  | .operator .. => .condition

def keyword : DefinedTest → String
  | .opener false => "ifdef"
  | .opener true => "ifndef"
  | .operator .. => "if"

def signs (negated : Bool) : List Token :=
  if negated then [.punct "!"] else []

def arguments (n : String) : DefinedTest → List Token
  | .opener _ => [.ident n]
  | .operator negated parenthesized =>
    signs negated ++ .ident "defined" :: Macro.tested n parenthesized

def tokens (n : String) (test : DefinedTest) : List Token :=
  .punct "#" :: .ident test.keyword :: test.arguments n

end DefinedTest

open DefinedTest

variable {σ : Type} {r : Reading σ} {n : String} {test : DefinedTest} {ts args : List Token}

lemma isPlaced_tokens (hn : (Token.ident n).IsLexeme) (test : DefinedTest) :
    ∀ t ∈ test.tokens n, Token.IsPlaced (t, []) := by
  have hident : ∀ s, (Token.ident s).IsLexeme → Token.IsPlaced (.ident s, []) :=
    fun s hs => ⟨hs, rfl, by rfl, List.forall_mem_nil _⟩
  have hpunct : ∀ s ∈ ["#", "!", "(", ")"], Token.IsPlaced (.punct s, []) := by
    intro s hs
    have hread : (Token.punct s).IsLexeme ∧ (Token.punct s).absorbs ' ' = false := by
      revert s
      simp only [List.forall_mem_cons, List.not_mem_nil, false_imp_iff, implies_true, and_true]
      exact ⟨⟨by cbv, by cbv⟩, ⟨by cbv, by cbv⟩, ⟨by cbv, by cbv⟩, by cbv, by cbv⟩
    exact ⟨hread.1, rfl, hread.2, List.forall_mem_nil _⟩
  have hkeyword : Token.IsPlaced (.ident test.keyword, []) := by
    apply hident
    rcases test with (_ | _) | _ <;> cbv
  have hdefined : Token.IsPlaced (.ident "defined", []) := hident _ (by cbv)
  have harguments : ∀ t ∈ test.arguments n, Token.IsPlaced (t, []) := by
    rcases test with negated | ⟨negated, parenthesized⟩
    · exact List.forall_mem_singleton.mpr (hident n hn)
    · cases negated <;> cases parenthesized <;> simp [arguments, signs, Macro.tested, hident n hn,
        hdefined, hpunct]
  exact List.forall_mem_cons.mpr
    ⟨hpunct "#" (.head _), List.forall_mem_cons.mpr ⟨hkeyword, harguments⟩⟩

lemma value_definedToken (t : Macro.Table) (n : String) :
    (Condition.Expr.literal (t.definedToken n).text).value =
      some (Condition.Operator.truth (t.isDefined n)) := by
  cases h : t.isDefined n <;> simp only [Macro.Table.definedToken, h] <;> cbv

lemma evaluate_of_solid {negated : Bool} {t : Macro.Table}
    (h : Token.solid ts = signs negated ++ [t.definedToken n]) :
    Condition.evaluate ts = .ok (Condition.Operator.truth (t.isDefined n != negated)) := by
  apply Condition.evaluate_eq_ok_iff.mpr
  rw [h]
  cases negated with
  | false =>
    refine ⟨_, .literal rfl, ?_⟩
    rw [value_definedToken, Bool.bne_false]
  | true =>
    have hsign : (Token.punct "!").isPunct (Condition.Sign.text .not) = true := by decide
    refine ⟨_, .unary hsign (.literal rfl), ?_⟩
    rw [Condition.Expr.value, value_definedToken]
    cases t.isDefined n <;> rfl

lemma conditionValue_of_solid {negated parenthesized : Bool}
    (h : Token.solid args = signs negated ++ .ident "defined" :: Macro.tested n parenthesized) :
    r.conditionValue args =
      .ok (Condition.Operator.truth (r.run.table.isDefined n != negated)) := by
  have hsigns : ∀ x ∈ signs negated, x.kind ≠ .ident := by cases negated <;> decide
  obtain ⟨out, hout, hsolid⟩ := r.run.table.resolveDefined_of_solid hsigns h
  have hnumber : ∀ x ∈ signs negated ++ [r.run.table.definedToken n], x.kind ≠ .ident :=
    List.forall_mem_append.mpr ⟨hsigns, List.forall_mem_singleton.mpr (by nofun)⟩
  have hexpand := r.run.table.expand_of_noIdent r.builtins (Macro.noIdent_of_solid hsolid hnumber)
  rw [Reading.conditionValue, hout]
  dsimp only
  rw [hexpand]
  dsimp only
  rw [evaluate_of_solid hsolid]
  rfl

lemma opens_of_solid (h : Token.solid args = test.arguments n) :
    r.opens test.group (Token.trim args) = (r.run.table.isDefined n != test.negated, r) := by
  cases test with
  | opener negated =>
    obtain ⟨rest, hname, -⟩ := Token.trim_of_solid h
    cases negated <;> simp [group, negated, Reading.opens, Reading.isNameDefined, hname,
      Reading.name?, Token.ident]
  | operator negated parenthesized =>
    have hvalue := conditionValue_of_solid (r := r) ((Token.solid_trim args).trans h)
    rw [group, Reading.opens, Reading.holds, hvalue]
    cases r.run.table.isDefined n <;> cases negated <;> rfl

lemma role_of_solid {line : String} (h : Token.solid (Token.tokenize line) = test.tokens n) :
    ∃ args, Role.ofLine line = .opens test.group (Token.trim args) ∧
    Token.solid args = test.arguments n := by
  obtain ⟨rest, hhash, hrest⟩ := Token.trim_of_solid h
  obtain ⟨args, hkeyword, hargs⟩ := Token.trim_of_solid hrest
  have hd : directiveTokens? (Token.tokenize line) = some (.ident test.keyword :: args) := by
    rw [directiveTokens?, hhash]
    exact congrArg some hkeyword
  refine ⟨args, ?_, hargs⟩
  rw [Role.ofLine, hd]
  rcases test with negated | ⟨negated, parenthesized⟩
  · cases negated <;> rfl
  · rfl

lemma openGroup_of_opens {opener : Opener} {holds : Bool} (h : r.opens opener args = (holds, r)) :
    r.openGroup opener args = r.newline.setGroups (⟨opener, r.place.line, !r.place.isSkipping,
      !r.place.isSkipping && holds, !r.place.isSkipping && holds, false⟩ :: r.place.groups) := by
  rw [Reading.openGroup, h]
  cases r.place.isSkipping <;> rfl

lemma table_flush (r : Reading σ) : r.flush.run.table = r.run.table := by
  rw [Reading.flush]
  cases r.place.held with
  | none => rfl
  | some h =>
    dsimp only
    cases r.run.table.expand h.builtins h.tokens <;> rfl

variable (inc : Includer σ) (descent : Descent σ) {line line' : String}

lemma line_of_test (hn : (Token.ident n).IsLexeme) (hline : Token.Spells (test.tokens n) line)
    (r : Reading σ) :
    ∃ args, Role.ofLine line = .opens test.group args ∧
      r.flush.opens test.group args = (r.run.table.isDefined n != test.negated, r.flush) := by
  obtain ⟨args, hrole, hargs⟩ := role_of_solid (hline.solid_tokenize (isPlaced_tokens hn test))
  exact ⟨_, hrole, by rw [opens_of_solid hargs, table_flush]⟩

lemma lines_of_test (hn : (Token.ident n).IsLexeme) (hline : Token.Spells (test.tokens n) line)
    {r : Reading σ} (hr : r.place.isSkipping = false) (body : Block) (branches : Branches) :
    r.lines inc descent (line :: (body.lines ++ branches.lines)) =
      if r.run.table.isDefined n != test.negated then
        (body.read inc descent r.flush.blankLine).flush.blankLines branches.lines.length
      else branches.read inc descent (r.flush.blankLine.blankLines body.lines.length) := by
  obtain ⟨args, hrole, hopens⟩ := line_of_test hn hline r
  have hread :=
    Reading.lines_of_block inc descent (.group line test.group args hrole body branches .nil) r hr
  simpa only [Block.lines, List.append_nil, Block.read, hopens] using hread

theorem definedness_tests_agree {test' : DefinedTest} (hn : (Token.ident n).IsLexeme)
    (hline : Token.Spells (test.tokens n) line) (hline' : Token.Spells (test'.tokens n) line')
    (r : Reading σ) :
    let holds := r.run.table.isDefined n != test.negated
    let active := !r.place.isSkipping && holds
    r.line inc descent line = r.flush.newline.setGroups
      (⟨test.group, r.place.line, !r.place.isSkipping, active, active, false⟩ :: r.place.groups) ∧
    (r.line inc descent line).run.faults = r.flush.run.faults ∧
    (r.place.isSkipping = false → ∀ (body : Block) (branches : Branches),
      let first := (body.read inc descent r.flush.blankLine).flush.blankLines branches.lines.length
      let others := branches.read inc descent (r.flush.blankLine.blankLines body.lines.length)
      r.lines inc descent (line :: (body.lines ++ branches.lines)) =
        (if holds then first else others) ∧
      r.lines inc descent (line' :: (body.lines ++ branches.lines)) =
        if test'.negated = test.negated then r.lines inc descent
          (line :: (body.lines ++ branches.lines))
        else if holds then others else first) := by
  intro holds active
  obtain ⟨args, hrole, hopens⟩ := line_of_test hn hline r
  have heffect : r.line inc descent line = r.flush.newline.setGroups
      (⟨test.group, r.place.line, !r.place.isSkipping, active, active, false⟩ ::
        r.place.groups) := by
    rw [Reading.line_of_role r (by simp [hrole]), hrole, Reading.divide, openGroup_of_opens hopens,
      Reading.isSkipping_flush, Reading.groups_flush, Reading.place_flush]
  refine ⟨heffect, by rw [heffect]; rfl, fun hr body branches => ?_⟩
  intro first others
  have hfirst := lines_of_test inc descent hn hline hr body branches
  have hsecond := lines_of_test inc descent hn hline' hr body branches
  refine ⟨hfirst, ?_⟩
  rw [hfirst, hsecond]
  cases hd : r.run.table.isDefined n <;> cases ht : test.negated <;> cases ht' : test'.negated <;>
    simp [holds, hd, ht, first, others]

theorem definedness_tests_agree_of_unbalanced :
    let table : Macro.Table := ⟨[("F", .function ["x"] [.punct "(", .ident "defined"])]⟩
    let r : Reading Unit :=
      ⟨{ name := "t", depth := 0, file := 0 }, { Run.start .default false () with table }⟩
    let body : Block := .line "int a;" (by cbv) .nil
    let branches : Branches :=
      .otherwise "#else" (by cbv) (.line "int b;" (by cbv) .nil) "#endif" (by cbv)
    r.place.isSkipping = false ∧ (Token.ident "F").IsLexeme ∧
      Token.Spells ((DefinedTest.opener false).tokens "F") "#ifdef F" ∧
      Token.Spells ((DefinedTest.operator true true).tokens "F") " # if ! defined(F\t)" ∧
      (r.line Includer.null none " # if ! defined(F\t)").run.faults = [] ∧
      r.lines Includer.null none (" # if ! defined(F\t)" :: (body.lines ++ branches.lines)) =
        branches.read Includer.null none (r.flush.blankLine.blankLines 1) ∧
      r.lines Includer.null none ("#ifdef F" :: (body.lines ++ branches.lines)) =
        (body.read Includer.null none r.flush.blankLine).flush.blankLines 3 := by
  intro table r body branches
  have hn : (Token.ident "F").IsLexeme := by cbv
  have hline : Token.Spells ((DefinedTest.opener false).tokens "F") "#ifdef F" :=
    @Token.Spells.of_all [(.punct "#", []), (.ident "ifdef", [' ']), (.ident "F", [])] [] rfl
      rfl (by decide)
  have hline' : Token.Spells ((DefinedTest.operator true true).tokens "F") " # if ! defined(F\t)" :=
    @Token.Spells.of_all [(.punct "#", [' ']), (.ident "if", [' ']), (.punct "!", [' ']),
      (.ident "defined", []), (.punct "(", []), (.ident "F", ['\t']), (.punct ")", [])] [' '] rfl
        rfl (by decide)
  obtain ⟨-, hfaults, hread⟩ := definedness_tests_agree Includer.null none hn hline' hline r
  obtain ⟨hskipped, htaken⟩ := hread rfl body branches
  exact ⟨rfl, hn, hline, hline', hfaults, hskipped, htaken⟩

end Preprocess

end ShaderPipeline
