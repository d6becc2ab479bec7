import Mathlib
import UrlRouting.Pattern.Compile
import UrlRouting.Proofs.Pattern.Lexeme
import UrlRouting.Proofs.Table

/-!
Compiled patterns. What a memory of compiled patterns gives for a pattern is what compiling it
gives, whatever was compiled before, and it holds each pattern once that was asked for and can be
compiled.
-/

namespace UrlRouting.Pattern

def compiles (pattern : String) : Bool :=
  (compile pattern).isOk

theorem compiles_iff {pattern : String} :
    compiles pattern = true ↔ ∃ variants, compile pattern = .ok variants := by
  rw [compiles]
  cases compile pattern <;> simp [Except.isOk, Except.toBool]

namespace Memo

def after (patterns : List String) : Memo :=
  patterns.foldl (fun memo pattern => (memo.variants pattern).2) empty

/-- Whether all that is remembered is what compiling gives. -/
def Faithful (memo : Memo) : Prop :=
  ∀ pattern variants, memo.compiled.get? pattern = some variants →
    compile pattern = .ok variants

def Holds (memo : Memo) (asked : List String) : Prop :=
  ∀ pattern variants, memo.compiled.get? pattern = some variants ↔
    pattern ∈ asked ∧ compile pattern = .ok variants

variable {memo : Memo} {asked : List String}

theorem holds_empty : empty.Holds [] := by
  intro pattern variants
  simp [empty]

theorem Holds.faithful (holds : memo.Holds asked) : memo.Faithful :=
  fun pattern variants known => ((holds pattern variants).mp known).2

theorem faithful_empty : empty.Faithful :=
  holds_empty.faithful

theorem Faithful.holds (faithful : memo.Faithful) : memo.Holds memo.compiled.names := by
  intro pattern variants
  rw [Table.mem_names_iff, Option.isSome_iff_exists]
  constructor
  · exact fun known => ⟨⟨variants, known⟩, faithful pattern variants known⟩
  · rintro ⟨⟨others, known⟩, compiled⟩
    rw [known, Except.ok.inj ((faithful pattern others known).symm.trans compiled)]

theorem Faithful.variants_eq (faithful : memo.Faithful) (pattern : String) :
    (memo.variants pattern).1 = compile pattern := by
  rw [variants]
  cases known : memo.compiled.get? pattern with
  | some variants => exact (faithful pattern variants known).symm
  | none => cases compile pattern <;> rfl

theorem Faithful.variants_of_error (faithful : memo.Faithful) {pattern : String}
    {error : ConfigError} (failed : compile pattern = .error error) :
    memo.compiled.get? pattern = none ∧ memo.variants pattern = (.error error, memo) := by
  have unknown : memo.compiled.get? pattern = none := by
    cases known : memo.compiled.get? pattern with
    | none => rfl
    | some variants => cases (faithful pattern variants known).symm.trans failed
  refine ⟨unknown, ?_⟩
  rw [Memo.variants, unknown, failed]

theorem Holds.variants (holds : memo.Holds asked) (pattern : String) :
    (memo.variants pattern).2.Holds (asked ++ [pattern]) := by
  intro other variants
  rw [List.mem_append, List.mem_singleton, or_and_right, ← holds]
  cases compiled : compile pattern with
  | error error =>
      rw [(holds.faithful.variants_of_error compiled).2, or_iff_left]
      rintro ⟨rfl, known⟩
      cases known.symm.trans compiled
  | ok found =>
      rw [Memo.variants]
      cases known : memo.compiled.get? pattern with
      | some kept =>
          have same := holds.faithful pattern kept known
          refine (or_iff_left_of_imp ?_).symm
          rintro ⟨rfl, compiledToo⟩
          rw [known, ← Except.ok.inj (same.symm.trans compiledToo)]
      | none =>
          simp only [compiled]
          rw [Table.get?_set]
          by_cases same : other = pattern
          · subst same
            simp [known, compiled]
          · simp [same]

theorem Faithful.variants (faithful : memo.Faithful) (pattern : String) :
    (memo.variants pattern).2.Faithful :=
  (faithful.holds.variants pattern).faithful

theorem faithful_after (patterns : List String) : (after patterns).Faithful := by
  have kept : ∀ memo : Memo, memo.Faithful →
      (patterns.foldl (fun memo pattern => (memo.variants pattern).2) memo).Faithful := by
    induction patterns with
    | nil => exact fun _ faithful => faithful
    | cons pattern rest induction =>
        exact fun memo faithful => induction _ (faithful.variants pattern)
  exact kept empty faithful_empty

theorem Holds.names_perm (holds : memo.Holds asked) :
    memo.compiled.names.Perm (asked.filter compiles).dedup := by
  rw [List.perm_ext_iff_of_nodup memo.compiled.nodup_names (List.nodup_dedup _)]
  intro pattern
  rw [Table.mem_names_iff, Option.isSome_iff_exists, List.mem_dedup, List.mem_filter,
    compiles_iff, ← exists_and_left]
  exact exists_congr (holds pattern)

theorem Holds.size_eq (holds : memo.Holds asked) :
    memo.size = (asked.filter compiles).dedup.length := by
  rw [← holds.names_perm.length_eq, Table.names, List.length_map]
  rfl

end Memo

/-! ### Tokens of variants -/

def Holds (property : Token → Prop) (parts : List Part) : Prop :=
  ∀ tokens ∈ expand parts, ∀ token ∈ tokens, property token

variable {property : Token → Prop}

theorem holds_token {token : Token} (holds : property token) : Holds property [.token token] := by
  intro tokens member other inTokens
  rw [expand, expand, List.map_singleton, List.mem_singleton] at member
  rw [member, List.mem_singleton] at inTokens
  rw [inTokens]
  exact holds

theorem holds_optional {inner : List Part} (holds : Holds property inner) :
    Holds property [.optional inner] := by
  intro tokens member token inTokens
  rw [expand] at member
  rcases List.mem_flatMap.mp member with ⟨choice, chosen, appended⟩
  rw [expand, List.map_singleton, List.append_nil, List.mem_singleton] at appended
  subst appended
  rcases List.mem_cons.mp chosen with rfl | inExpand
  · cases inTokens
  · exact holds tokens inExpand token inTokens

theorem holds_of_forall {parts : List Part} (each : ∀ part ∈ parts, Holds property [part]) :
    Holds property parts := by
  induction parts with
  | nil =>
      intro tokens member token inTokens
      rw [expand, List.mem_singleton] at member
      rw [member] at inTokens
      cases inTokens
  | cons part rest induction =>
      have first := each part (by simp)
      have later := induction fun part member => each part (by simp [member])
      intro tokens member token inTokens
      cases part with
      | token head =>
          rw [expand] at member
          rcases List.mem_map.mp member with ⟨others, inRest, rfl⟩
          rcases List.mem_cons.mp inTokens with rfl | inOthers
          · exact first [token] (by simp [expand]) token (by simp)
          · exact later others inRest token inOthers
      | optional inner =>
          rw [expand] at member
          rcases List.mem_flatMap.mp member with ⟨choice, chosen, appended⟩
          rcases List.mem_map.mp appended with ⟨others, inRest, rfl⟩
          rcases List.mem_append.mp inTokens with inChoice | inOthers
          · exact first choice (by simpa [expand] using chosen) token inChoice
          · exact later others inRest token inOthers

theorem holds_ofVariable {parameter : Variable} (holds : property (.placeholder parameter)) :
    Holds property [.ofVariable parameter] := by
  rw [Part.ofVariable]
  split
  · exact holds_optional (holds_token holds)
  · exact holds_token holds

theorem holds_of_nest? {outer : List (List Part)} {inner parts : List Part}
    {lexemes : List Lexeme} (nested : nest? outer inner lexemes = some parts)
    (each : ∀ lexeme ∈ lexemes, ∀ token, lexeme.token? = some token → property token)
    (outerHolds : ∀ parts ∈ outer, ∀ part ∈ parts, Holds property [part])
    (innerHolds : ∀ part ∈ inner, Holds property [part]) :
    ∀ part ∈ parts, Holds property [part] := by
  induction lexemes generalizing outer inner with
  | nil =>
      rw [nest?] at nested
      split at nested
      · cases nested
        intro part member
        exact innerHolds part (List.mem_reverse.mp member)
      · cases nested
  | cons lexeme rest induction =>
      have later : ∀ lexeme ∈ rest, ∀ token, lexeme.token? = some token → property token :=
        fun lexeme member => each lexeme (by simp [member])
      cases lexeme with
      | opening =>
          rw [nest?] at nested
          apply induction nested later
          · intro parts member
            rcases List.mem_cons.mp member with rfl | inOuter
            · exact innerHolds
            · exact outerHolds parts inOuter
          · simp
      | closing =>
          rw [nest?.eq_def] at nested
          cases outer with
          | nil => cases nested
          | cons before outer =>
              apply induction nested later
              · exact fun parts member => outerHolds parts (by simp [member])
              · intro part member
                rcases List.mem_cons.mp member with rfl | inBefore
                · exact holds_optional (holds_of_forall fun part member =>
                    innerHolds part (List.mem_reverse.mp member))
                · exact outerHolds before (by simp) part inBefore
      | literal text =>
          rw [nest?] at nested
          apply induction nested later outerHolds
          intro part member
          rcases List.mem_cons.mp member with rfl | inInner
          · exact holds_token (each (.literal text) (by simp) _ rfl)
          · exact innerHolds part inInner
      | placeholder parameter =>
          rw [nest?] at nested
          apply induction nested later outerHolds
          intro part member
          rcases List.mem_cons.mp member with rfl | inInner
          · exact holds_ofVariable (each (.placeholder parameter) (by simp) _ rfl)
          · exact innerHolds part inInner

theorem placeholder_mem_mergeLiterals_iff {tokens : List Token} {parameter : Variable} :
    Token.placeholder parameter ∈ mergeLiterals tokens ↔ Token.placeholder parameter ∈ tokens := by
  fun_induction mergeLiterals tokens with
  | case1 => rfl
  | case2 text rest next others merged induction =>
      rw [merged] at induction
      simpa using induction
  | case3 text rest _ induction => simpa using induction
  | case4 other rest induction => simp [induction]

theorem empty_notMem_mergeLiterals {tokens : List Token} (nonempty : .literal "" ∉ tokens) :
    .literal "" ∉ mergeLiterals tokens := by
  fun_induction mergeLiterals tokens with
  | case1 => exact nonempty
  | case2 text rest next others merged induction =>
      rw [List.mem_cons, not_or] at nonempty
      have later := induction nonempty.2
      rw [merged] at later
      intro member
      rcases List.mem_cons.mp member with equal | inOthers
      · rw [Token.literal.injEq] at equal
        have empty : text = "" := by
          apply String.toList_inj.mp
          have letters := congrArg String.toList equal
          rw [String.toList_append, String.toList_empty] at letters
          exact (List.append_eq_nil_iff.mp letters.symm).1
        exact nonempty.1 (by rw [empty])
      · exact later (List.mem_cons_of_mem _ inOthers)
  | case3 text rest _ induction =>
      rw [List.mem_cons, not_or] at nonempty ⊢
      exact ⟨nonempty.1, induction nonempty.2⟩
  | case4 parameter rest induction =>
      rw [List.mem_cons, not_or] at nonempty ⊢
      exact ⟨nonempty.1, induction nonempty.2⟩

theorem empty_notMem_of_mem_expand {pattern : String} {parts : List Part}
    (nested : nest? [] [] (lexemes true pattern.toList) = some parts) {tokens : List Token}
    (expanded : tokens ∈ expand parts) : .literal "" ∉ tokens := by
  have each : ∀ part ∈ parts, Holds (· ≠ .literal "") [part] := by
    apply @holds_of_nest? (· ≠ .literal "") _ _ _ _ nested
    · intro lexeme inLexemes token isToken equal
      subst equal
      cases lexeme with
      | opening => cases isToken
      | closing => cases isToken
      | literal text =>
          rw [Lexeme.token?, Option.some.injEq, Token.literal.injEq] at isToken
          apply ne_nil_of_literal_mem_lexemes inLexemes
          rw [← String.toList_ofList (l := text), isToken, String.toList_empty]
      | placeholder parameter => cases isToken
    · simp
    · simp
  exact fun member => holds_of_forall each tokens expanded _ member rfl

theorem exists_parts_of_compile {pattern : String} {variants : List Variant}
    (compiled : compile pattern = .ok variants) :
    ∃ parts, nest? [] [] (lexemes true pattern.toList) = some parts ∧
      variants = ((expand parts).map Variant.ofTokens).reverse := by
  rw [compile, Pattern.parts] at compiled
  cases nested : nest? [] [] (lexemes true pattern.toList) with
  | none =>
      rw [nested] at compiled
      cases compiled
  | some parts =>
      rw [nested] at compiled
      cases compiled
      exact ⟨parts, rfl, rfl⟩

def Token.Named (token : Token) : Prop :=
  ∀ parameter, token = .placeholder parameter → parameter.Named

theorem named_of_compile {pattern : String} {variants : List Variant}
    (compiled : compile pattern = .ok variants) {variant : Variant} (member : variant ∈ variants)
    {parameter : Variable} (inTokens : .placeholder parameter ∈ variant.tokens) :
    parameter.Named := by
  rcases exists_parts_of_compile compiled with ⟨parts, nested, rfl⟩
  rcases List.mem_map.mp (List.mem_reverse.mp member) with ⟨tokens, expanded, rfl⟩
  have named : ∀ part ∈ parts, Holds Token.Named [part] := by
    apply @holds_of_nest? Token.Named _ _ _ _ nested
    · intro lexeme inLexemes token isToken other equal
      subst equal
      cases lexeme with
      | opening => cases isToken
      | closing => cases isToken
      | literal text => cases isToken
      | placeholder parameter =>
          cases isToken
          exact named_of_mem_lexemes inLexemes
    · simp
    · simp
  exact holds_of_forall named tokens expanded _
    (placeholder_mem_mergeLiterals_iff.mp inTokens) parameter rfl

/-! ### Adjacent literals -/

/-- Whether no two literals stand next to each other. -/
def Separated (tokens : List Token) : Prop :=
  tokens.IsChain fun first second => first.parameter?.isSome ∨ second.parameter?.isSome

theorem separated_mergeLiterals (tokens : List Token) : Separated (mergeLiterals tokens) := by
  fun_induction mergeLiterals tokens with
  | case1 => exact .nil
  | case2 text rest next others merged induction =>
      rw [merged] at induction
      cases others with
      | nil => exact .singleton _
      | cons second rest =>
          rcases List.isChain_cons_cons.mp induction with ⟨apart, chain⟩
          exact List.isChain_cons_cons.mpr ⟨apart, chain⟩
  | case3 text rest notLiteral induction =>
      cases merged : mergeLiterals rest with
      | nil => exact .singleton _
      | cons second others =>
          rw [merged] at induction
          cases second with
          | literal next => exact absurd merged (notLiteral next others)
          | placeholder parameter => exact List.isChain_cons_cons.mpr ⟨.inr rfl, induction⟩
  | case4 parameter rest induction =>
      cases merged : mergeLiterals rest with
      | nil => exact .singleton _
      | cons second others =>
          rw [merged] at induction
          exact List.isChain_cons_cons.mpr ⟨.inl rfl, induction⟩

theorem mergeLiterals_of_separated {tokens : List Token} (separated : Separated tokens) :
    mergeLiterals tokens = tokens := by
  induction tokens with
  | nil => rfl
  | cons token rest induction =>
      have later := induction separated.tail
      cases token with
      | placeholder parameter => rw [mergeLiterals, later]
      | literal text =>
          cases rest with
          | nil => rfl
          | cons second others =>
              rcases List.isChain_cons_cons.mp separated with ⟨apart, -⟩
              cases second with
              | literal next => simp [Token.parameter?] at apart
              | placeholder parameter =>
                  rw [mergeLiterals, later]

/-! ### Patterns without groups -/

/-- Whether a lexeme has no part in a group: it is no bracket and no optional variable. -/
def Lexeme.IsUngrouped (lexeme : Lexeme) : Prop :=
  lexeme ≠ .opening ∧ lexeme ≠ .closing ∧
    ∀ parameter, lexeme = .placeholder parameter → parameter.quantifier ≠ .optional

def Ungrouped (pattern : String) : Prop :=
  ∀ lexeme ∈ lexemes true pattern.toList, lexeme.IsUngrouped

theorem nest?_of_ungrouped {lexemes : List Lexeme}
    (ungrouped : ∀ lexeme ∈ lexemes, lexeme.IsUngrouped)
    (inner : List Part) :
    nest? [] inner lexemes =
      some (inner.reverse ++ (lexemes.filterMap Lexeme.token?).map Part.token) := by
  induction lexemes generalizing inner with
  | nil => simp [nest?]
  | cons lexeme rest induction =>
      have here := ungrouped lexeme (by simp)
      have later := induction fun lexeme member => ungrouped lexeme (by simp [member])
      cases lexeme with
      | opening => exact absurd rfl here.1
      | closing => exact absurd rfl here.2.1
      | literal text => simp [nest?, later, Lexeme.token?]
      | placeholder parameter =>
          have required := here.2.2 parameter rfl
          simp [nest?, later, Lexeme.token?, Part.ofVariable, required]

theorem expand_map_token (tokens : List Token) : expand (tokens.map Part.token) = [tokens] := by
  induction tokens with
  | nil => rw [List.map_nil, expand]
  | cons token rest induction => rw [List.map_cons, expand, induction, List.map_singleton]

theorem token?_of_ungrouped {lexeme : Lexeme} (ungrouped : lexeme.IsUngrouped) :
    ∃ token, lexeme.token? = some token ∧ lexeme.isLiteral = !token.parameter?.isSome := by
  cases lexeme with
  | opening => exact absurd rfl ungrouped.1
  | closing => exact absurd rfl ungrouped.2.1
  | literal text => exact ⟨_, rfl, rfl⟩
  | placeholder parameter => exact ⟨_, rfl, rfl⟩

theorem separated_of_ungrouped {lexemes : List Lexeme}
    (ungrouped : ∀ lexeme ∈ lexemes, lexeme.IsUngrouped)
    (chain : lexemes.IsChain fun first second =>
      first.isLiteral = false ∨ second.isLiteral = false) :
    Separated (lexemes.filterMap Lexeme.token?) := by
  induction lexemes with
  | nil => exact .nil
  | cons lexeme rest induction =>
      have later := induction (fun lexeme member => ungrouped lexeme (by simp [member])) chain.tail
      rcases token?_of_ungrouped (ungrouped lexeme (by simp)) with ⟨token, isToken, literal⟩
      rw [List.filterMap_cons_some isToken]
      cases rest with
      | nil => exact .singleton _
      | cons second others =>
          rcases token?_of_ungrouped (ungrouped second (by simp)) with
            ⟨next, isNext, nextLiteral⟩
          rcases List.isChain_cons_cons.mp chain with ⟨apart, -⟩
          rw [List.filterMap_cons_some isNext] at later ⊢
          rw [literal, nextLiteral] at apart
          exact List.isChain_cons_cons.mpr ⟨by simpa using apart, later⟩

theorem compile_of_ungrouped {pattern : String} (ungrouped : Ungrouped pattern) :
    compile pattern =
      .ok [{ tokens := (lexemes true pattern.toList).filterMap Lexeme.token? }] := by
  have nested := nest?_of_ungrouped ungrouped []
  rw [List.reverse_nil, List.nil_append] at nested
  have separated := separated_of_ungrouped ungrouped (isChain_lexemes true pattern.toList)
  rw [compile, parts, nested]
  simp only [Bind.bind, Except.bind, pure, Except.pure, expand_map_token, List.map_singleton,
    List.reverse_singleton, Variant.ofTokens, mergeLiterals_of_separated separated]

theorem captureFree_of_ungrouped {pattern : String} (ungrouped : Ungrouped pattern)
    {variants : List Variant} (compiled : compile pattern = .ok variants) {variant : Variant}
    (member : variant ∈ variants) {text : String} (inTokens : .literal text ∈ variant.tokens) :
    CaptureFree text.toList := by
  rw [compile_of_ungrouped ungrouped] at compiled
  cases compiled
  rw [List.mem_singleton] at member
  subst member
  rcases List.mem_filterMap.mp inTokens with ⟨lexeme, inLexemes, isToken⟩
  cases lexeme with
  | opening => cases isToken
  | closing => cases isToken
  | placeholder parameter => cases isToken
  | literal characters =>
      cases isToken
      rw [String.toList_ofList]
      exact captureFree_of_mem_lexemes inLexemes

theorem separated_of_compile {pattern : String} {variants : List Variant}
    (compiled : compile pattern = .ok variants) {variant : Variant}
    (member : variant ∈ variants) : Separated variant.tokens := by
  rcases exists_parts_of_compile compiled with ⟨parts, -, rfl⟩
  rcases List.mem_map.mp (List.mem_reverse.mp member) with ⟨tokens, -, rfl⟩
  exact separated_mergeLiterals tokens

end UrlRouting.Pattern
