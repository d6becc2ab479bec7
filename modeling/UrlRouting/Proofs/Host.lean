import UrlRouting.Host
import UrlRouting.Proofs.Path.Tidy
import UrlRouting.Proofs.Pattern.Lexeme
import UrlRouting.Proofs.Regex.Reader
import UrlRouting.Proofs.Template

/-!
Host templates by their labels. A template is a row of symbols, each a character or a variable, and
the labels are what stands between its dots. Both readings of a template are described by them: the
hosts that it means are spelled symbol by symbol, and the template of the tree has a segment for
each label that is not empty. Where every variable is a whole label the two readings agree.
-/

namespace UrlRouting

theorem Text.fields_flatMap {α : Type} {separator : Char} {separates : α → Bool}
    {write : α → List Char} {items : List α}
    (separating : ∀ item ∈ items, separates item = true → write item = [separator])
    (other : ∀ item ∈ items, separates item = false → separator ∉ write item) :
    fields separator (items.flatMap write) =
      (items.splitOnP separates).map fun part => part.flatMap write := by
  induction items with
  | nil => rfl
  | cons item rest induction =>
      rw [List.forall_mem_cons] at separating other
      have later := induction separating.2 other.2
      rw [List.flatMap_cons, List.splitOnP_cons_eq_if_modifyHead]
      cases here : separates item with
      | true =>
          rw [separating.1 here, List.singleton_append, fields_cons_separator, later]
          rfl
      | false =>
          rcases List.exists_cons_of_ne_nil (List.splitOnP_ne_nil separates rest) with
            ⟨first, others, cut⟩
          rw [cut, List.map_cons] at later
          rw [fields_append_of_notMem (other.1 here) later, cut]
          rfl

theorem Text.flatMap_eq_joinFields {α : Type} {separator : Char} {separates : α → Bool}
    {write : α → List Char}
    (separating : ∀ item, separates item = true → write item = [separator]) (items : List α) :
    items.flatMap write =
      joinFields separator ((items.splitOnP separates).map fun part => part.flatMap write) := by
  induction items with
  | nil => rfl
  | cons item rest induction =>
      rcases List.exists_cons_of_ne_nil (List.splitOnP_ne_nil separates rest) with
        ⟨first, others, cut⟩
      rw [cut, List.map_cons] at induction
      rw [List.flatMap_cons, induction, List.splitOnP_cons_eq_if_modifyHead, cut]
      split
      case isTrue here =>
        rw [separating item here]
        rfl
      case isFalse =>
        rw [List.modifyHead_cons, List.map_cons, List.flatMap_cons]
        cases others with
        | nil => rfl
        | cons second others =>
            rw [joinFields_cons (by simp), joinFields_cons (by simp), List.append_assoc]

theorem Text.isInfix_of_mem_splitOnP {α : Type} {separates : α → Bool} {items part : List α}
    (member : part ∈ items.splitOnP separates) :
    part <:+: items ∧ ∀ item ∈ part, separates item = false := by
  have all : ∃ first others, items.splitOnP separates = first :: others ∧ first <+: items ∧
      (∀ item ∈ first, separates item = false) ∧
      ∀ part ∈ others, part <:+: items ∧ ∀ item ∈ part, separates item = false := by
    clear member
    induction items with
    | nil => exact ⟨[], [], rfl, List.prefix_refl _, by simp, by simp⟩
    | cons item rest induction =>
        rcases induction with ⟨first, others, cut, begins, plain, later⟩
        have inRest : ∀ part ∈ others, part <:+: item :: rest ∧
            ∀ item ∈ part, separates item = false := fun part inOthers =>
          ⟨List.infix_cons (later part inOthers).1, (later part inOthers).2⟩
        rw [List.splitOnP_cons_eq_if_modifyHead, cut]
        cases here : separates item with
        | true =>
            refine ⟨[], first :: others, rfl, List.nil_prefix, by simp, ?_⟩
            rw [List.forall_mem_cons]
            exact ⟨⟨List.infix_cons begins.isInfix, plain⟩, inRest⟩
        | false =>
            refine ⟨item :: first, others, rfl, (List.cons_prefix_cons).mpr ⟨rfl, begins⟩, ?_,
              inRest⟩
            rw [List.forall_mem_cons]
            exact ⟨here, plain⟩
  rcases all with ⟨first, others, cut, begins, plain, later⟩
  rw [cut] at member
  rcases List.mem_cons.mp member with rfl | inOthers
  · exact ⟨begins.isInfix, plain⟩
  · exact later part inOthers

theorem Text.exists_mem_splitOnP {α : Type} {separates : α → Bool} {items : List α} {item : α}
    (member : item ∈ items) (plain : separates item = false) :
    ∃ part ∈ items.splitOnP separates, item ∈ part := by
  induction items with
  | nil => cases member
  | cons head rest induction =>
      rw [List.splitOnP_cons_eq_if_modifyHead]
      rcases List.exists_cons_of_ne_nil (List.splitOnP_ne_nil separates rest) with
        ⟨first, others, cut⟩
      rw [cut] at induction ⊢
      rcases List.mem_cons.mp member with rfl | later
      · exact ⟨item :: first, by simp [plain], List.mem_cons_self⟩
      · rcases induction later with ⟨part, inParts, inPart⟩
        split
        case isTrue => exact ⟨part, List.mem_cons_of_mem _ inParts, inPart⟩
        case isFalse =>
          rcases List.mem_cons.mp inParts with rfl | inOthers
          · exact ⟨head :: part, List.mem_cons_self, List.mem_cons_of_mem _ inPart⟩
          · exact ⟨part, List.mem_cons_of_mem _ inOthers, inPart⟩

theorem Text.splitOnP_map {α β : Type} (transform : α → β) (separates : β → Bool)
    (items : List α) :
    (items.map transform).splitOnP separates =
      (items.splitOnP (separates ∘ transform)).map (List.map transform) := by
  induction items with
  | nil => rfl
  | cons item rest induction =>
      rcases List.exists_cons_of_ne_nil (List.splitOnP_ne_nil (separates ∘ transform) rest) with
        ⟨first, others, cut⟩
      rw [List.map_cons, List.splitOnP_cons_eq_if_modifyHead, induction,
        List.splitOnP_cons_eq_if_modifyHead, cut, Function.comp_apply]
      split <;> rfl

theorem Text.flatMap_filterMap_splitOnP {α β : Type} {separates : α → Bool} {pick : α → Option β}
    {items : List α} (unpicked : ∀ item ∈ items, separates item = true → pick item = none) :
    (items.splitOnP separates).flatMap (List.filterMap pick) = items.filterMap pick := by
  induction items with
  | nil => rfl
  | cons item rest induction =>
      rw [List.forall_mem_cons] at unpicked
      have later := induction unpicked.2
      rw [List.splitOnP_cons_eq_if_modifyHead]
      split
      case isTrue separating =>
        rw [List.flatMap_cons, List.filterMap_nil, later,
          List.filterMap_cons_none (unpicked.1 separating)]
        rfl
      case isFalse =>
        rcases List.exists_cons_of_ne_nil (List.splitOnP_ne_nil separates rest) with
          ⟨first, others, cut⟩
        rw [cut, List.flatMap_cons] at later
        rw [cut, List.modifyHead_cons, List.flatMap_cons, List.filterMap_cons, List.filterMap_cons,
          ← later]
        cases pick item <;> rfl

namespace Host

/-- A part of a host template: a character that stands for itself, or a variable. -/
inductive Symbol
  | literal (character : Char)
  | placeholder (parameter : Pattern.Variable)
  deriving DecidableEq

namespace Symbol

def ofToken : Pattern.Token → List Symbol
  | .literal text => text.toList.map literal
  | .placeholder parameter => [placeholder parameter]

def source : Symbol → List Char
  | literal character => Regex.escaped character
  | placeholder parameter => Regex.grouped (variableRegex parameter).toList

def render : Symbol → List Char
  | literal character => [if character = '.' then '/' else character]
  | placeholder parameter => ':' :: parameter.name.toList

def isDot (symbol : Symbol) : Bool :=
  symbol == literal '.'

def parameter? : Symbol → Option Pattern.Variable
  | literal _ => none
  | placeholder parameter => some parameter

def Spells : Symbol → List Char → Prop
  | literal character, text => text = [character]
  | placeholder parameter, text =>
      '.' ∉ text ∧ (parameter.regex = Pattern.segmentRegex → text ≠ [])

end Symbol

def symbols (template : String) : List Symbol :=
  (Pattern.tokenize template).flatMap Symbol.ofToken

def parameters (template : String) : List Pattern.Variable :=
  (Pattern.tokenize template).filterMap Pattern.Token.parameter?

def labels (template : String) : List (List Symbol) :=
  (symbols template).splitOnP Symbol.isDot

def labelTexts (host : String) : List (List Char) :=
  Text.fields '.' host.toList

/-- Whether every variable of a template fills a whole label. -/
def Whole (template : String) : Prop :=
  ∀ label ∈ labels template, ∀ parameter, .placeholder parameter ∈ label →
    label = [.placeholder parameter]

/-- Whether a template has only labels that a host in a path can have: they are not empty and hold
no slash. -/
def Proper (template : String) : Prop :=
  [] ∉ labels template ∧ .literal '/' ∉ symbols template

/-- Whether the regular expression of a variable is read as one item that takes no dot. -/
def Confined (parameter : Pattern.Variable) : Prop :=
  Regex.ReadsAs (Symbol.placeholder parameter).source (·.avoids '.' = true)

theorem placeholder_mem_symbols_iff {template : String} {parameter : Pattern.Variable} :
    .placeholder parameter ∈ symbols template ↔ parameter ∈ parameters template := by
  rw [symbols, parameters, List.mem_flatMap, List.mem_filterMap]
  constructor
  · intro given
    rcases given with ⟨token, inTokens, member⟩
    refine ⟨token, inTokens, ?_⟩
    cases token with
    | literal text => simp [Symbol.ofToken] at member
    | placeholder other =>
        rw [Symbol.ofToken, List.mem_singleton] at member
        cases member
        rfl
  · intro given
    rcases given with ⟨token, inTokens, isParameter⟩
    refine ⟨token, inTokens, ?_⟩
    cases token with
    | literal text => cases isParameter
    | placeholder other =>
        cases isParameter
        exact List.mem_singleton_self _

theorem mem_filterMap_parameter?_iff {label : List Symbol} {parameter : Pattern.Variable} :
    parameter ∈ label.filterMap Symbol.parameter? ↔ .placeholder parameter ∈ label := by
  rw [List.mem_filterMap]
  constructor
  · intro given
    rcases given with ⟨symbol, member, isParameter⟩
    cases symbol with
    | literal character => cases isParameter
    | placeholder other =>
        cases isParameter
        exact member
  · exact fun member => ⟨_, member, rfl⟩

theorem parameters_eq (template : String) :
    parameters template = (labels template).flatMap (List.filterMap Symbol.parameter?) := by
  have fromSymbols : parameters template = (symbols template).filterMap Symbol.parameter? := by
    rw [parameters, symbols, List.filterMap_flatMap, List.filterMap_eq_flatMap_toList]
    congr 1
    funext token
    cases token with
    | literal text => simp [Symbol.ofToken, Symbol.parameter?, Pattern.Token.parameter?]
    | placeholder parameter => rfl
  rw [fromSymbols, labels, Text.flatMap_filterMap_splitOnP]
  intro symbol _ dot
  rw [Symbol.isDot, beq_iff_eq] at dot
  rw [dot]
  rfl

/-! ### The texts made of a template -/

theorem toList_join_tokens {writeToken : Pattern.Token → String} {write : Symbol → List Char}
    (literal : ∀ text : String, (writeToken (.literal text)).toList =
      text.toList.flatMap fun character => write (.literal character))
    (placeholder : ∀ parameter,
      (writeToken (.placeholder parameter)).toList = write (.placeholder parameter))
    (template : String) :
    (String.join ((Pattern.tokenize template).map writeToken)).toList =
      (symbols template).flatMap write := by
  rw [String.toList_join, List.flatMap_map, symbols, List.flatMap_assoc]
  congr 1
  funext token
  cases token with
  | literal text => rw [literal, Symbol.ofToken, List.flatMap_map]
  | placeholder parameter => rw [placeholder, Symbol.ofToken, List.flatMap_singleton]

theorem toList_regexSource (template : String) :
    (regexSource template).toList =
      '^' :: ((symbols template).flatMap Symbol.source ++ ['$']) := by
  have written : (String.join ((Pattern.tokenize template).map tokenSource)).toList =
      (symbols template).flatMap Symbol.source := by
    apply toList_join_tokens
    · intro text
      rw [tokenSource, Regex.escape, String.toList_ofList]
      rfl
    · intro parameter
      simp [tokenSource, Symbol.source, Regex.grouped]
  simp [regexSource, written]

theorem toList_pathTemplate (template : String) :
    (pathTemplate template).toList = '/' :: (symbols template).flatMap Symbol.render := by
  have written : (String.join ((Pattern.tokenize template).map tokenTemplate)).toList =
      (symbols template).flatMap Symbol.render := by
    apply toList_join_tokens
    · intro text
      rw [tokenTemplate, foldDots, String.toList_ofList]
      exact List.map_eq_flatMap
    · intro parameter
      simp [tokenTemplate, Symbol.render]
  simp [pathTemplate, written]

/-! ### Hosts that a template means -/

theorem exists_pairs {α β : Type} {relation : α → β → Prop} {lefts : List α} {rights : List β}
    (related : List.Forall₂ relation lefts rights) :
    ∃ pairs : List (α × β), lefts = pairs.map Prod.fst ∧ rights = pairs.map Prod.snd ∧
      ∀ pair ∈ pairs, relation pair.1 pair.2 := by
  induction related with
  | nil => exact ⟨[], rfl, rfl, by simp⟩
  | @cons left right _ _ holds _ induction =>
      rcases induction with ⟨pairs, rfl, rfl, each⟩
      exact ⟨(left, right) :: pairs, rfl, rfl, List.forall_mem_cons.mpr ⟨holds, each⟩⟩

/-- Whether a label of a template means a label of a host: something stands for a variable, and
other text for itself. -/
inductive Means : List Symbol → List Char → Prop
  | placeholder (parameter : Pattern.Variable) {text : List Char} (nonempty : text ≠ []) :
      Means [.placeholder parameter] text
  | literal (text : List Char) : Means (text.map .literal) text

theorem readsAs_source {symbol : Symbol}
    (confined : ∀ parameter, symbol = .placeholder parameter → Confined parameter) :
    Regex.ReadsAs symbol.source fun item => ∀ taken, item.Takes taken → symbol.Spells taken := by
  cases symbol with
  | literal character =>
      refine (Regex.readsAs_escaped character).mono fun item exact taken takes => ?_
      rw [exact] at takes
      exact takes
  | placeholder parameter =>
      by_cases plain : parameter.regex = Pattern.segmentRegex
      · have label := Regex.readsAs_label
        rw [Symbol.source, variableRegex, if_pos plain]
        refine label.mono fun item same taken takes => ?_
        rw [same] at takes
        refine ⟨Regex.notMem_of_takes _ Regex.avoids_labelRegex taken takes, fun _ none => ?_⟩
        rw [none] at takes
        cases Regex.admitsEmpty_of_takes_nil _ takes
      · refine (confined parameter rfl).mono fun item avoids taken takes => ?_
        exact ⟨Regex.notMem_of_takes item avoids taken takes, fun own => absurd own plain⟩

/-- A host that a template means is spelled symbol by symbol, if no variable can take a dot. -/
theorem exists_spelling_of_accepts {template host : String}
    (confined : ∀ parameter ∈ parameters template, Confined parameter)
    (accepted : accepts template host = true) :
    ∃ texts, List.Forall₂ Symbol.Spells (symbols template) texts ∧
      host.toList = texts.flatten := by
  have reads : ∀ symbol ∈ symbols template, Regex.ReadsAs symbol.source fun item =>
      ∀ taken, item.Takes taken → symbol.Spells taken := by
    intro symbol member
    apply readsAs_source
    rintro parameter rfl
    exact confined parameter (placeholder_mem_symbols_iff.mp member)
  rcases (Option.any_eq_true _ _).mp accepted with ⟨regex, read, found⟩
  rcases Regex.eq_concat_of_read? reads (toList_regexSource template) read with
    ⟨items, each, rfl⟩
  exact Regex.exists_texts_of_takesInRow (fun _ _ holds => holds) each
    (Regex.takesInRow_of_isMatch found)

theorem confined_of_plain {parameter : Pattern.Variable}
    (plain : parameter.regex = Pattern.segmentRegex) : Confined parameter := by
  have label := Regex.readsAs_label
  rw [Confined, Symbol.source, variableRegex, if_pos plain]
  exact label.mono fun item same => same ▸ Regex.avoids_labelRegex

theorem slash_notMem_of_mem_labelTexts {host : String} (slashless : '/' ∉ host.toList)
    {text : List Char} (member : text ∈ labelTexts host) : '/' ∉ text :=
  fun slash => slashless ((Text.isInfix_of_mem_fields member).subset slash)

theorem proper_of_means {template host : String} (slashless : '/' ∉ host.toList)
    (labelled : [] ∉ labelTexts host)
    (meant : List.Forall₂ Means (labels template) (labelTexts host)) : Proper template := by
  rcases exists_pairs meant with ⟨pairs, labelsEqual, textsEqual, each⟩
  constructor
  · intro empty
    rw [labelsEqual] at empty
    rcases List.mem_map.mp empty with ⟨⟨label, text⟩, member, nothing⟩
    have means : Means label text := each _ member
    cases means with
    | placeholder => cases nothing
    | literal =>
        apply labelled
        rw [textsEqual, ← List.map_eq_nil_iff.mp nothing]
        exact List.mem_map_of_mem member
  · intro slash
    rcases @Text.exists_mem_splitOnP _ Symbol.isDot _ _ slash (by decide) with
      ⟨label, inLabels, inLabel⟩
    rw [← labels, labelsEqual] at inLabels
    rcases List.mem_map.mp inLabels with ⟨⟨other, text⟩, member, rfl⟩
    have means : Means other text := each _ member
    cases means with
    | placeholder => simp at inLabel
    | literal =>
        have inText : '/' ∈ text := by simpa using inLabel
        exact slash_notMem_of_mem_labelTexts slashless
          (textsEqual ▸ List.mem_map_of_mem member) inText

theorem slash_notMem_of_spelling {template host : String} (slashless : '/' ∉ host.toList)
    {texts : List (List Char)} (spelled : List.Forall₂ Symbol.Spells (symbols template) texts)
    (equal : host.toList = texts.flatten) : .literal '/' ∉ symbols template := by
  intro slash
  rcases exists_pairs spelled with ⟨pairs, symbolsEqual, rfl, each⟩
  rw [symbolsEqual] at slash
  rcases List.mem_map.mp slash with ⟨⟨symbol, text⟩, member, rfl⟩
  apply slashless
  rw [equal, List.mem_flatten]
  refine ⟨text, List.mem_map_of_mem member, ?_⟩
  rw [show text = ['/'] from each _ member]
  exact List.mem_singleton_self _

theorem labelTexts_eq (host : String) : labelTexts host = host.toList.splitOnP (· == '.') := by
  rw [labelTexts, Text.fields_eq_splitOn, List.splitOn_eq_splitOnP]

theorem eq_map_literal_of_spells {part : List (Symbol × List Char)}
    (each : ∀ pair ∈ part, pair.1.Spells pair.2)
    (plain : ∀ parameter, .placeholder parameter ∉ part.map Prod.fst) :
    part.map Prod.fst = (part.flatMap Prod.snd).map .literal := by
  induction part with
  | nil => rfl
  | cons pair rest induction =>
      rw [List.forall_mem_cons] at each
      rcases pair with ⟨symbol, text⟩
      cases symbol with
      | placeholder parameter => exact absurd List.mem_cons_self (plain parameter)
      | literal character =>
          have later := induction each.2 fun parameter member =>
            plain parameter (List.mem_cons_of_mem _ member)
          rw [show text = [character] from each.1, List.map_cons, later]
          rfl

theorem means_of_spells {part : List (Symbol × List Char)}
    (each : ∀ pair ∈ part, pair.1.Spells pair.2)
    (alone : ∀ parameter, .placeholder parameter ∈ part.map Prod.fst →
      part.map Prod.fst = [.placeholder parameter])
    (nonempty : ∀ parameter text, part = [(.placeholder parameter, text)] → text ≠ []) :
    Means (part.map Prod.fst) (part.flatMap Prod.snd) := by
  by_cases parameterized : ∃ parameter, Symbol.placeholder parameter ∈ part.map Prod.fst
  · rcases parameterized with ⟨parameter, inLabel⟩
    rcases List.map_eq_singleton_iff.mp (alone parameter inLabel) with ⟨⟨symbol, text⟩, rfl, same⟩
    cases same
    rw [List.flatMap_singleton]
    exact .placeholder parameter (nonempty parameter text rfl)
  · rw [eq_map_literal_of_spells each (not_exists.mp parameterized)]
    exact .literal _

theorem exists_parts_of_spelling {template host : String} {texts : List (List Char)}
    (spelled : List.Forall₂ Symbol.Spells (symbols template) texts)
    (equal : host.toList = texts.flatten) :
    ∃ parts : List (List (Symbol × List Char)), labels template = parts.map (List.map Prod.fst) ∧
      labelTexts host = parts.map (List.flatMap Prod.snd) ∧
      ∀ part ∈ parts, ∀ pair ∈ part, pair.1.Spells pair.2 := by
  rcases exists_pairs spelled with ⟨pairs, symbolsEqual, rfl, each⟩
  refine ⟨pairs.splitOnP (Symbol.isDot ∘ Prod.fst), ?_, ?_, ?_⟩
  · rw [labels, symbolsEqual, Text.splitOnP_map]
  · rw [labelTexts, equal, ← List.flatMap_def]
    apply Text.fields_flatMap
    · intro pair member dot
      have spells := each pair member
      rw [Function.comp_apply, Symbol.isDot, beq_iff_eq] at dot
      rw [dot] at spells
      exact spells
    · intro pair member notDot
      have spells := each pair member
      rw [Function.comp_apply, Symbol.isDot, beq_eq_false_iff_ne] at notDot
      rcases pair with ⟨symbol, text⟩
      cases symbol with
      | literal character =>
          rw [show text = [character] from spells, List.mem_singleton]
          rintro rfl
          exact notDot rfl
      | placeholder parameter => exact spells.1
  · intro part member pair inPart
    exact each pair ((Text.isInfix_of_mem_splitOnP member).1.subset inPart)

theorem ne_nil_of_parts {template host : String} {parts : List (List (Symbol × List Char))}
    (labelsEqual : labels template = parts.map (List.map Prod.fst))
    (textsEqual : labelTexts host = parts.map (List.flatMap Prod.snd))
    (each : ∀ part ∈ parts, ∀ pair ∈ part, pair.1.Spells pair.2)
    (nonempty : (∀ parameter ∈ parameters template, parameter.regex = Pattern.segmentRegex) ∨
      [] ∉ labelTexts host) {parameter : Pattern.Variable} {text : List Char}
    (member : [(.placeholder parameter, text)] ∈ parts) : text ≠ [] := by
  intro none
  rcases nonempty with plain | labelled
  · have inLabels : [.placeholder parameter] ∈ labels template :=
      labelsEqual ▸ List.mem_map_of_mem member
    have inSymbols : .placeholder parameter ∈ symbols template :=
      (Text.isInfix_of_mem_splitOnP inLabels).1.subset (List.mem_singleton_self _)
    exact (each _ member _ (List.mem_singleton_self _)).2
      (plain parameter (placeholder_mem_symbols_iff.mp inSymbols)) none
  · apply labelled
    rw [textsEqual]
    exact List.mem_map.mpr ⟨_, member, by simpa using none⟩

theorem means_of_parts {parts : List (List (Symbol × List Char))}
    (each : ∀ part ∈ parts, ∀ pair ∈ part, pair.1.Spells pair.2)
    (whole : ∀ part ∈ parts, ∀ parameter, .placeholder parameter ∈ part.map Prod.fst →
      part.map Prod.fst = [.placeholder parameter])
    (nonempty : ∀ parameter text, [(.placeholder parameter, text)] ∈ parts → text ≠ []) :
    List.Forall₂ Means (parts.map (List.map Prod.fst)) (parts.map (List.flatMap Prod.snd)) := by
  rw [List.forall₂_map_left_iff, List.forall₂_map_right_iff, List.forall₂_same]
  intro part member
  apply means_of_spells (each part member) (whole part member)
  rintro parameter text rfl
  exact nonempty parameter text member

/-- The labels of a host that is spelled by a template are meant by its labels one by one, if
something stands for each variable. -/
theorem means_of_spelling {template host : String} (whole : Whole template)
    {texts : List (List Char)} (spelled : List.Forall₂ Symbol.Spells (symbols template) texts)
    (equal : host.toList = texts.flatten)
    (nonempty : (∀ parameter ∈ parameters template, parameter.regex = Pattern.segmentRegex) ∨
      [] ∉ labelTexts host) :
    List.Forall₂ Means (labels template) (labelTexts host) := by
  rcases exists_parts_of_spelling spelled equal with ⟨parts, labelsEqual, textsEqual, each⟩
  have meant := means_of_parts each
    (fun part member => whole _ (labelsEqual ▸ List.mem_map_of_mem member))
    fun _ _ => ne_nil_of_parts labelsEqual textsEqual each nonempty
  rwa [← labelsEqual, ← textsEqual] at meant

/-! ### The template of the tree -/

def symbolsOf (lexemes : List Pattern.Lexeme) : List Symbol :=
  (lexemes.filterMap Pattern.Lexeme.token?).flatMap Symbol.ofToken

theorem symbolsOf_addCharacter (character : Char) (lexemes : List Pattern.Lexeme) :
    symbolsOf (Pattern.addCharacter character lexemes) =
      .literal character :: symbolsOf lexemes := by
  rw [Pattern.addCharacter.eq_def]
  split <;> simp [symbolsOf, Pattern.Lexeme.token?, Symbol.ofToken]

theorem head?_of_symbolsOf {text : List Char} {character : Char} {rest : List Symbol}
    (begins : symbolsOf (Pattern.lexemes false text) = .literal character :: rest) :
    text.head? = some character := by
  cases text with
  | nil =>
      rw [Pattern.lexemes] at begins
      cases begins
  | cons first others =>
      rw [Pattern.lexemes] at begins
      simp only [Bool.false_and, Bool.false_eq_true, if_false] at begins
      split at begins
      case h_1 => cases begins
      case h_2 =>
        rw [symbolsOf_addCharacter] at begins
        cases begins
        rfl

theorem startsName_of_symbolsOf {text : List Char} {before after : List Symbol} {character : Char}
    (cut : symbolsOf (Pattern.lexemes false text) =
      before ++ .literal ':' :: .literal character :: after) :
    Text.startsName character = false := by
  generalize groupsEqual : false = groups at cut
  fun_induction Pattern.lexemes groups text generalizing before with
  | case1 => simp [symbolsOf] at cut
  | case2 => simp [← groupsEqual] at *
  | case3 => simp [← groupsEqual] at *
  | case4 first rest _ _ parameter others _ induction =>
      cases before with
      | nil => cases cut
      | cons head before => exact induction (List.cons.inj cut).2
  | case5 first rest _ _ refused induction =>
      rw [symbolsOf_addCharacter] at cut
      cases before with
      | cons head before => exact induction (List.cons.inj cut).2
      | nil =>
          rcases List.cons.inj cut with ⟨colon, others⟩
          cases colon
          subst groupsEqual
          exact Pattern.startsName_of_takeVariable?_eq_none refused (head?_of_symbolsOf others)

theorem symbols_eq (template : String) :
    symbols template = symbolsOf (Pattern.lexemes false template.toList) := rfl

theorem named_of_mem_symbols {template : String} {parameter : Pattern.Variable}
    (member : .placeholder parameter ∈ symbols template) : parameter.Named := by
  rw [placeholder_mem_symbols_iff, parameters, List.mem_filterMap] at member
  rcases member with ⟨token, inTokens, isParameter⟩
  rcases List.mem_filterMap.mp inTokens with ⟨lexeme, inLexemes, isToken⟩
  cases lexeme with
  | opening => cases isToken
  | closing => cases isToken
  | literal text =>
      cases isToken
      cases isParameter
  | placeholder other =>
      cases isToken
      cases isParameter
      exact Pattern.named_of_mem_lexemes inLexemes

def segment (label : List Symbol) : Template.Segment :=
  match label with
  | [.placeholder parameter] => .capture parameter.name
  | _ => .static (String.ofList (label.flatMap Symbol.render))

theorem render_ne_nil (symbol : Symbol) : symbol.render ≠ [] := by
  cases symbol <;> simp [Symbol.render]

theorem exists_eq_map_literal {label : List Symbol}
    (plain : ∀ parameter, Symbol.placeholder parameter ∉ label) :
    ∃ text : List Char, label = text.map .literal := by
  induction label with
  | nil => exact ⟨[], rfl⟩
  | cons symbol rest induction =>
      rcases induction fun parameter member => plain parameter (List.mem_cons_of_mem _ member) with
        ⟨text, rfl⟩
      cases symbol with
      | literal character => exact ⟨character :: text, rfl⟩
      | placeholder parameter => exact absurd List.mem_cons_self (plain parameter)

theorem segment_map_literal (text : List Char) :
    segment (text.map .literal) =
      .static (String.ofList ((text.map Symbol.literal).flatMap Symbol.render)) := by
  cases text with
  | nil => rfl
  | cons character rest => cases rest <;> rfl

theorem render_map_literal {text : List Char} (undotted : '.' ∉ text) :
    (text.map Symbol.literal).flatMap Symbol.render = text := by
  induction text with
  | nil => rfl
  | cons character rest induction =>
      rw [List.mem_cons, not_or] at undotted
      rw [List.map_cons, List.flatMap_cons, induction undotted.2, Symbol.render,
        if_neg (Ne.symm undotted.1), List.singleton_append]

theorem dot_notMem_of_label {template : String} {text : List Char}
    (member : text.map .literal ∈ labels template) : '.' ∉ text := by
  intro dot
  have undotted := (Text.isInfix_of_mem_splitOnP member).2 (.literal '.') (List.mem_map_of_mem dot)
  simp [Symbol.isDot] at undotted

theorem captureFree_of_label {template : String} {text : List Char}
    (member : text.map .literal ∈ labels template) : Pattern.CaptureFree text := by
  intro before character after equal
  rcases (Text.isInfix_of_mem_splitOnP member).1 with ⟨first, last, cut⟩
  apply @startsName_of_symbolsOf template.toList (first ++ before.map .literal)
    (after.map .literal ++ last)
  rw [← symbols_eq, ← cut, equal]
  simp

def reading (label : List Symbol) : Template.Segment :=
  Template.Segment.ofPiece (label.flatMap Symbol.render)

theorem reading_eq_segment {template : String} {label : List Symbol}
    (member : label ∈ labels template)
    (whole : ∀ parameter, .placeholder parameter ∈ label → label = [.placeholder parameter]) :
    reading label = segment label := by
  by_cases parameterized : ∃ parameter, Symbol.placeholder parameter ∈ label
  · rcases parameterized with ⟨parameter, inLabel⟩
    have named := named_of_mem_symbols ((Text.isInfix_of_mem_splitOnP member).1.subset inLabel)
    rw [whole parameter inLabel, reading, List.flatMap_singleton]
    exact named.ofPiece_name
  · rcases exists_eq_map_literal (not_exists.mp parameterized) with ⟨text, rfl⟩
    rw [reading, segment_map_literal, render_map_literal (dot_notMem_of_label member)]
    exact (captureFree_of_label member).ofPiece_eq

theorem segments_append_reading {template text : String}
    (slashless : .literal '/' ∉ symbols template) (rooted : text.toList.head? = some '/') :
    Template.segments (pathTemplate template ++ text) =
      ((labels template).filter (!·.isEmpty)).map reading ++ Template.segments text := by
  have cut : Text.fields '/' ((symbols template).flatMap Symbol.render) =
      (labels template).map fun label => label.flatMap Symbol.render := by
    apply Text.fields_flatMap
    · intro symbol _ dot
      rw [Symbol.isDot, beq_iff_eq] at dot
      rw [dot]
      rfl
    · intro symbol member notDot
      rw [Symbol.isDot, beq_eq_false_iff_ne] at notDot
      cases symbol with
      | literal character =>
          have undotted : character ≠ '.' := fun equal => notDot (equal ▸ rfl)
          rw [Symbol.render, if_neg undotted, List.mem_singleton]
          rintro rfl
          exact slashless member
      | placeholder parameter =>
          rw [Symbol.render, List.mem_cons, not_or]
          exact ⟨by decide, (named_of_mem_symbols member).slash_notMem⟩
  have kept : (fun label : List Symbol => !(label.flatMap Symbol.render).isEmpty) =
      fun label => !label.isEmpty := by
    funext label
    cases label with
    | nil => rfl
    | cons symbol rest => simp [render_ne_nil symbol]
  have written : (Path.pieceTexts ((symbols template).flatMap Symbol.render)).map
      Template.Segment.ofPiece = ((labels template).filter (!·.isEmpty)).map reading := by
    rw [Path.pieceTexts, cut, List.filter_map, List.map_map]
    simp only [Function.comp_def, kept]
    rfl
  rw [Template.segments_append _ rooted, Template.segments, ← Path.pieceTexts, toList_pathTemplate,
    Path.pieceTexts_cons_slash, written]

theorem segments_append {template text : String} (whole : Whole template)
    (slashless : .literal '/' ∉ symbols template) (rooted : text.toList.head? = some '/') :
    Template.segments (pathTemplate template ++ text) =
      ((labels template).filter (!·.isEmpty)).map segment ++ Template.segments text := by
  rw [segments_append_reading slashless rooted]
  congr 1
  apply List.map_congr_left
  intro label member
  have inLabels := (List.mem_filter.mp member).1
  exact reading_eq_segment inLabels (whole label inLabels)

theorem fields_foldDots {host : String} (slashless : '/' ∉ host.toList) :
    Text.fields '/' (foldDots host).toList = labelTexts host := by
  have written : (foldDots host).toList =
      host.toList.flatMap fun character => [if character = '.' then '/' else character] := by
    rw [foldDots, String.toList_ofList]
    exact List.map_eq_flatMap
  have cut := @Text.fields_flatMap Char '/' (· == '.')
    (fun character => [if character = '.' then '/' else character]) host.toList
  rw [written, cut, labelTexts_eq]
  · refine (List.map_congr_left fun part member => ?_).trans (List.map_id _)
    have undotted := (Text.isInfix_of_mem_splitOnP member).2
    rw [← List.map_eq_flatMap]
    refine (List.map_congr_left fun character inPart => ?_).trans (List.map_id _)
    exact if_neg (by simpa using undotted character inPart)
  · intro character _ dot
    rw [if_pos (by simpa using dot)]
  · intro character inHost notDot
    rw [if_neg (by simpa using notDot), List.mem_singleton]
    rintro rfl
    exact slashless inHost

theorem texts_foldedHost {host : String} (slashless : '/' ∉ host.toList) :
    Path.texts ("/" ++ foldDots host) =
      ((labelTexts host).filter (!·.isEmpty)).map String.ofList := by
  rw [Path.texts, String.toList_append, show "/".toList = ['/'] from rfl, List.singleton_append,
    Path.pieceTexts_cons_slash, Path.pieceTexts, fields_foldDots slashless]

end Host

end UrlRouting
