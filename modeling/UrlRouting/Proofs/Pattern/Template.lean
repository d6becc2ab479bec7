import UrlRouting.Proofs.Path
import UrlRouting.Proofs.Pattern.Variants
import UrlRouting.Proofs.Template

/-!
Templates of variants read back. A template has a segment for each variable and for each piece of
literal text, and these are read as the variant means them unless groups put a capture together: a
piece that is a lone colon before a group, and a name within it. Text of a single literal never
reads as a capture.
-/

namespace UrlRouting.Pattern

open Template (Segment)

variable {tokens : List Token} {variant : Variant} {begins : Bool} {template text : String}

/-! ### Templates written token by token -/

theorem templateFrom_literal
    (written : Variant.templateFrom begins (.literal text :: tokens) = .ok template) :
    ∃ rest, Variant.templateFrom (text.toList.getLast? == some '/') tokens = .ok rest ∧
      template = text ++ rest := by
  rw [Variant.templateFrom] at written
  cases later : Variant.templateFrom (text.toList.getLast? == some '/') tokens with
  | error error =>
      rw [later] at written
      cases written
  | ok rest =>
      rw [later] at written
      cases written
      exact ⟨rest, rfl, rfl⟩

theorem templateFrom_placeholder {parameter : Variable}
    (written : Variant.templateFrom begins (.placeholder parameter :: tokens) = .ok template) :
    begins = true ∧ Variant.beginsPiece tokens = true ∧
      ∃ rest, Variant.templateFrom false tokens = .ok rest ∧
        template = ":" ++ parameter.name ++ parameter.quantifier.mark ++ rest := by
  rw [Variant.templateFrom] at written
  split at written
  case isFalse => cases written
  case isTrue alone =>
    rw [Bool.and_eq_true] at alone
    cases later : Variant.templateFrom false tokens with
    | error error =>
        rw [later] at written
        cases written
    | ok rest =>
        rw [later] at written
        cases written
        exact ⟨alone.1, alone.2, rest, rfl, rfl⟩

theorem endsPiece_of_templateFrom (ends : Variant.beginsPiece tokens = true)
    (written : Variant.templateFrom begins tokens = .ok template) :
    Path.EndsPiece template.toList := by
  cases tokens with
  | nil =>
      cases written
      exact .inl rfl
  | cons token rest =>
      cases token with
      | placeholder parameter => cases ends
      | literal text =>
          rcases templateFrom_literal written with ⟨others, -, rfl⟩
          rw [Variant.beginsPiece, beq_iff_eq] at ends
          rcases List.head?_eq_some_iff.mp ends with ⟨after, begun⟩
          exact .inr ⟨after ++ others.toList, by rw [String.toList_append, begun]; rfl⟩

theorem pieceTexts_of_variable {parameter : Variable} (named : parameter.Named) :
    Path.pieceTexts (':' :: (parameter.name.toList ++ parameter.quantifier.mark.toList)) =
      [':' :: (parameter.name.toList ++ parameter.quantifier.mark.toList)] := by
  have unmarked : '/' ∉ parameter.quantifier.mark.toList := by
    cases parameter.quantifier <;> decide
  apply Path.pieceTexts_of_piece (by simp)
  simp [named.slash_notMem, unmarked]

theorem pieceTexts_append_of_templateFrom (separated : Separated (.literal text :: tokens))
    (written : Variant.templateFrom (text.toList.getLast? == some '/') tokens = .ok template)
    (rest : List Char) (nothing : tokens = [] → rest = []) :
    Path.pieceTexts (text.toList ++ rest) =
      Path.pieceTexts text.toList ++ Path.pieceTexts rest := by
  cases tokens with
  | nil => exact Path.pieceTexts_append_of_endsPiece (.inl (nothing rfl)) _
  | cons second more =>
      rcases List.isChain_cons_cons.mp separated with ⟨notBoth, -⟩
      cases second with
      | literal next => simp [Token.parameter?] at notBoth
      | placeholder parameter =>
          have slash := beq_iff_eq.mp (templateFrom_placeholder written).1
          exact Path.pieceTexts_append_of_getLast? slash _

theorem segments_of_template (written : variant.template = .ok template) :
    ∃ text, Variant.templateFrom true variant.tokens = .ok text ∧
      Template.segments template = (Path.pieceTexts text.toList).map Segment.ofPiece := by
  rw [Variant.template] at written
  cases inner : Variant.templateFrom true variant.tokens with
  | error error =>
      rw [inner] at written
      cases written
  | ok text =>
      rw [inner] at written
      cases written
      refine ⟨text, rfl, ?_⟩
      rw [Template.segments, ← Path.pieceTexts]
      congr 1
      split
      case isTrue => rfl
      case isFalse =>
        rw [String.toList_append]
        exact Path.pieceTexts_cons_slash text.toList

theorem Variant.head?_of_template (read : variant.template = .ok template) :
    template.toList.head? = some '/' := by
  rw [Variant.template] at read
  cases written : Variant.templateFrom true variant.tokens with
  | error error =>
      rw [written] at read
      cases read
  | ok own =>
      rw [written] at read
      simp only [Bind.bind, Except.bind, pure, Except.pure, Except.ok.injEq] at read
      split at read
      case isTrue begins =>
        rw [← read]
        simpa using begins
      case isFalse =>
        rw [← read, String.toList_append]
        rfl

/-! ### Segments as they are meant and as they are read -/

namespace Token

/-- The segments that a token means: pieces of literal text stand for themselves, and a variable
captures under its own name. -/
def segments : Token → List Segment
  | literal text => (Path.texts text).map .static
  | placeholder parameter => [parameter.segment]

/-- The segments that a template of the token reads as. -/
def readSegments : Token → List Segment
  | literal text => (Path.pieceTexts text.toList).map Segment.ofPiece
  | placeholder parameter => [parameter.segment]

end Token

def Variant.segments (variant : Variant) : List Segment :=
  variant.tokens.flatMap Token.segments

theorem map_ofPiece_of_templateFrom (separated : Separated tokens)
    (named : ∀ parameter, .placeholder parameter ∈ tokens → parameter.Named)
    (written : Variant.templateFrom begins tokens = .ok template) :
    (Path.pieceTexts template.toList).map Segment.ofPiece = tokens.flatMap Token.readSegments := by
  induction tokens generalizing begins template with
  | nil =>
      cases written
      rfl
  | cons token rest induction =>
      cases token with
      | literal text =>
          rcases templateFrom_literal written with ⟨others, writtenRest, rfl⟩
          have apart := pieceTexts_append_of_templateFrom separated writtenRest others.toList (by
            rintro rfl
            cases writtenRest
            rfl)
          rw [String.toList_append, apart, List.map_append, List.flatMap_cons,
            induction separated.tail (fun parameter member => named parameter (by simp [member]))
              writtenRest]
          rfl
      | placeholder parameter =>
          rcases templateFrom_placeholder written with ⟨-, ends, others, writtenRest, rfl⟩
          have endsTemplate := endsPiece_of_templateFrom ends writtenRest
          have isNamed := named parameter (by simp)
          have variableText : (":" ++ parameter.name ++ parameter.quantifier.mark).toList =
              ':' :: (parameter.name.toList ++ parameter.quantifier.mark.toList) := by
            simp
          rw [@String.toList_append _ others, Path.pieceTexts_append_of_endsPiece endsTemplate,
            variableText, pieceTexts_of_variable isNamed, List.map_append, List.flatMap_cons,
            induction separated.tail (fun parameter member => named parameter (by simp [member]))
              writtenRest, List.map_singleton, isNamed.ofPiece_eq]
          rfl

theorem segments_eq_readSegments {pattern : String} {variants : List Variant}
    (compiled : compile pattern = .ok variants) (member : variant ∈ variants)
    (written : variant.template = .ok template) :
    Template.segments template = variant.tokens.flatMap Token.readSegments := by
  rcases segments_of_template written with ⟨text, writtenText, asRead⟩
  rw [asRead]
  exact map_ofPiece_of_templateFrom (separated_of_compile compiled member)
    (fun parameter inTokens => named_of_compile compiled member inTokens) writtenText

def BeginsCapture (piece : List Char) : Prop :=
  ∃ first rest, piece = ':' :: first :: rest ∧ Text.startsName first = true

theorem ofPiece_eq_static_iff {piece : List Char} :
    Segment.ofPiece piece = .static (String.ofList piece) ↔ ¬ BeginsCapture piece := by
  constructor
  · rintro static ⟨first, rest, rfl, starts⟩
    rcases exists_marks_of_startsName starts rest with ⟨name, mark, make, -, marks, read⟩
    rw [read] at static
    cases marks <;> cases static
  · intro notCapture
    rw [Template.Segment.ofPiece.eq_def]
    split
    case h_1 first rest =>
      exact if_neg fun starts => notCapture ⟨first, rest, rfl, starts⟩
    case h_2 => rfl

/-- A template reads as it is meant just if no piece of its literal text begins as a capture. -/
theorem flatMap_readSegments_eq_iff :
    tokens.flatMap Token.readSegments = tokens.flatMap Token.segments ↔
      ∀ text, .literal text ∈ tokens → ∀ piece ∈ Path.pieceTexts text.toList,
        ¬ BeginsCapture piece := by
  induction tokens with
  | nil => simp
  | cons token rest induction =>
      rw [List.flatMap_cons, List.flatMap_cons]
      cases token with
      | literal text =>
          have sameLength : (Token.literal text).readSegments.length =
              (Token.literal text).segments.length := by
            simp [Token.readSegments, Token.segments, Path.texts]
          have here : (Token.literal text).readSegments = (Token.literal text).segments ↔
              ∀ piece ∈ Path.pieceTexts text.toList, ¬ BeginsCapture piece := by
            rw [Token.readSegments, Token.segments, Path.texts, List.map_map, List.map_inj_left]
            exact forall₂_congr fun piece _ => ofPiece_eq_static_iff
          have both : (Token.literal text).readSegments ++ rest.flatMap Token.readSegments =
                (Token.literal text).segments ++ rest.flatMap Token.segments ↔
              (Token.literal text).readSegments = (Token.literal text).segments ∧
                rest.flatMap Token.readSegments = rest.flatMap Token.segments := by
            refine ⟨fun equal => List.append_inj equal sameLength, ?_⟩
            rintro ⟨first, later⟩
            rw [first, later]
          rw [both, here, induction]
          simp
      | placeholder parameter =>
          rw [show (Token.placeholder parameter).readSegments =
            (Token.placeholder parameter).segments from rfl, List.append_cancel_left_eq, induction]
          simp

/-! ### Captures put together -/

/-- Whether symbols end where a piece may begin: with no other character than a slash. -/
def EndsAtPiece (lead : List (Char ⊕ Variable)) : Prop :=
  ∀ character, lead.getLast? = some (.inl character) → character = '/'

/-- Whether literals of some tokens, put together, begin a capture: one begins as a name does, and
what stands before it ends in a colon that is all there is of its piece. -/
def JoinsCapture (tokens : List Token) : Prop :=
  ∃ before next after, tokens = before ++ .literal next :: after ∧
    (∃ first ∈ next.toList.head?, Text.startsName first = true) ∧
    ∃ lead, before.flatMap Token.symbols = lead ++ [.inl ':'] ∧ EndsAtPiece lead

/-- Whether a colon that begins a piece stands before a character that begins a name. -/
def WritesCapture (symbols : List (Char ⊕ Variable)) : Prop :=
  ∃ lead first rest, symbols = lead ++ .inl ':' :: .inl first :: rest ∧
    Text.startsName first = true ∧ EndsAtPiece lead

theorem exists_token_of_symbols {before after : List (Char ⊕ Variable)}
    {symbol : Char ⊕ Variable}
    (split : tokens.flatMap Token.symbols = before ++ symbol :: after) :
    ∃ first token last lead rest, tokens = first ++ token :: last ∧
      token.symbols = lead ++ symbol :: rest ∧ before = first.flatMap Token.symbols ++ lead ∧
      after = rest ++ last.flatMap Token.symbols := by
  induction tokens generalizing before with
  | nil => simp at split
  | cons token rest induction =>
      have inRest : ∀ later, before = token.symbols ++ later →
          rest.flatMap Token.symbols = later ++ symbol :: after →
            ∃ first other last lead tail, token :: rest = first ++ other :: last ∧
              other.symbols = lead ++ symbol :: tail ∧
              before = first.flatMap Token.symbols ++ lead ∧
              after = tail ++ last.flatMap Token.symbols := by
        intro later equal others
        rcases induction others with ⟨first, other, last, lead, tail, rfl, inner, rfl, rfl⟩
        exact ⟨token :: first, other, last, lead, tail, rfl, inner, by simp [equal], rfl⟩
      rw [List.flatMap_cons] at split
      rcases List.append_eq_append_iff.mp split with ⟨later, equal, others⟩ | ⟨within, equal, others⟩
      · exact inRest later equal others
      · cases within with
        | nil => exact inRest [] (by simp [equal]) others.symm
        | cons head within =>
            cases others
            exact ⟨[], token, rest, before, within, rfl, equal, by simp, rfl⟩

theorem exists_literal_of_symbols {before after : List (Char ⊕ Variable)} {character : Char}
    (split : tokens.flatMap Token.symbols = before ++ .inl character :: after) :
    ∃ first text last lead rest, tokens = first ++ .literal text :: last ∧
      text.toList = lead ++ character :: rest ∧
      before = first.flatMap Token.symbols ++ lead.map .inl ∧
      after = rest.map .inl ++ last.flatMap Token.symbols := by
  rcases exists_token_of_symbols split with ⟨first, token, last, lead, rest, rfl, inner, rfl, rfl⟩
  cases token with
  | placeholder parameter =>
      have inVariable : Sum.inl character ∈ (Token.placeholder parameter).symbols := by
        rw [inner]
        simp
      simp [Token.symbols] at inVariable
  | literal text =>
      rw [Token.symbols] at inner
      rcases List.map_eq_append_iff.mp inner with ⟨letters, others, whole, rfl, begins⟩
      rcases List.map_eq_cons_iff.mp begins with ⟨letter, tail, rfl, same, rfl⟩
      cases same
      exact ⟨first, text, last, letters, tail, rfl, whole, rfl, rfl⟩

theorem exists_literal_cons_of_symbols {after : List (Char ⊕ Variable)} {character : Char}
    (nonempty : .literal "" ∉ tokens)
    (begins : tokens.flatMap Token.symbols = .inl character :: after) :
    ∃ text rest, tokens = .literal text :: rest ∧ text.toList.head? = some character := by
  cases tokens with
  | nil => cases begins
  | cons token rest =>
      cases token with
      | placeholder parameter => cases begins
      | literal text =>
          refine ⟨text, rest, rfl, ?_⟩
          rw [List.flatMap_cons, Token.symbols] at begins
          cases letters : text.toList with
          | nil =>
              rw [String.toList_eq_nil_iff.mp letters] at nonempty
              exact absurd List.mem_cons_self nonempty
          | cons first others =>
              rw [letters] at begins
              cases begins
              rfl

theorem writesCapture_iff_of_separated (separated : Separated tokens)
    (nonempty : .literal "" ∉ tokens) :
    WritesCapture (tokens.flatMap Token.symbols) ↔
      ∃ text, .literal text ∈ tokens ∧ ∃ piece ∈ Path.pieceTexts text.toList,
        BeginsCapture piece := by
  constructor
  · rintro ⟨lead, first, rest, split, starts, ends⟩
    rcases exists_literal_of_symbols split with ⟨before, text, after, letters, others, rfl, whole,
      rfl, afterColon⟩
    cases others with
    | nil =>
        -- The name would begin in a literal next to this one.
        rcases exists_literal_cons_of_symbols (by simp_all) afterColon.symm with ⟨next, tail, rfl, -⟩
        have apart := (List.isChain_append.mp separated).2.1
        rcases List.isChain_cons_cons.mp apart with ⟨notBoth, -⟩
        simp [Token.parameter?] at notBoth
    | cons second others =>
        cases afterColon
        have colon : '/' ∉ [':', first] := by
          intro member
          rcases List.mem_cons.mp member with equal | inName
          · cases equal
          · rw [← List.mem_singleton.mp inName] at starts
            cases starts
        rcases Path.exists_mem_pieceTexts_append (by simp) colon others with ⟨more, inPieces⟩
        refine ⟨text, by simp, [':', first] ++ more, ?_, first, more, rfl, starts⟩
        have whole : text.toList = letters ++ ([':', first] ++ others) := by simpa using whole
        rw [whole]
        by_cases atBeginning : letters = []
        · rwa [atBeginning, List.nil_append]
        · have slash : letters.getLast? = some '/' := by
            rcases List.getLast?_isSome.mpr atBeginning |> Option.isSome_iff_exists.mp with
              ⟨character, last⟩
            rw [last, ends character (by simp [List.getLast?_append, last])]
          rw [Path.pieceTexts_append_of_getLast? slash]
          exact List.mem_append_right _ inPieces
  · rintro ⟨text, inTokens, piece, inPieces, first, rest, rfl, starts⟩
    rcases List.append_of_mem inTokens with ⟨before, after, rfl⟩
    rcases Path.exists_split_of_mem_pieceTexts inPieces with ⟨letters, others, whole, ends⟩
    refine ⟨before.flatMap Token.symbols ++ letters.map .inl, first,
      (rest ++ others).map .inl ++ after.flatMap Token.symbols, ?_, starts, ?_⟩
    · simp [Token.symbols, whole]
    · intro character last
      rcases ends with rfl | slash
      · -- Before a literal stands a variable or nothing.
        rw [List.map_nil, List.append_nil] at last
        rcases List.eq_nil_or_concat before with rfl | ⟨others, token, rfl⟩
        · cases last
        · rw [List.concat_eq_append, List.append_assoc, List.singleton_append] at separated
          have apart := (List.isChain_append.mp separated).2.1
          rcases List.isChain_cons_cons.mp apart with ⟨notBoth, -⟩
          cases token with
          | literal other => simp [Token.parameter?] at notBoth
          | placeholder parameter => simp [Token.symbols] at last
      · simpa [List.getLast?_append, slash] using last.symm

theorem writesCapture_iff_of_captureFree
    (free : ∀ text, .literal text ∈ tokens → CaptureFree text.toList)
    (nonempty : .literal "" ∉ tokens) :
    WritesCapture (tokens.flatMap Token.symbols) ↔ JoinsCapture tokens := by
  constructor
  · rintro ⟨lead, first, rest, split, starts, ends⟩
    rcases exists_literal_of_symbols split with ⟨before, text, after, letters, others, rfl, whole,
      rfl, afterColon⟩
    cases others with
    | nil =>
        rcases exists_literal_cons_of_symbols (by simp_all) afterColon.symm with
          ⟨next, tail, rfl, begins⟩
        refine ⟨before ++ [.literal text], next, tail, by simp, ⟨first, begins, starts⟩,
          before.flatMap Token.symbols ++ letters.map .inl, ?_, ends⟩
        simp [Token.symbols, whole]
    | cons second others =>
        cases afterColon
        rw [free text (by simp) letters first others whole] at starts
        cases starts
  · rintro ⟨before, next, after, rfl, ⟨first, begins, starts⟩, lead, ending, ends⟩
    rcases List.head?_eq_some_iff.mp begins with ⟨others, letters⟩
    refine ⟨lead, first, others.map .inl ++ after.flatMap Token.symbols, ?_, starts, ends⟩
    simp [ending, Token.symbols, letters]

/-! ### Templates of variants -/

theorem exists_lexeme_of_mem_sites {around outer : List Nat} {next : Nat}
    {lexemes : List Lexeme} {content : Token}
    (member : .token content outer ∈ sites around next lexemes) :
    ∃ lexeme ∈ lexemes, lexeme.token? = some content := by
  have later : ∀ {lexeme : Lexeme} {rest : List Lexeme},
      (∃ found ∈ rest, found.token? = some content) →
        ∃ found ∈ lexeme :: rest, found.token? = some content := by
    rintro lexeme rest ⟨found, inRest, isToken⟩
    exact ⟨found, List.mem_cons_of_mem _ inRest, isToken⟩
  fun_induction sites around next lexemes with
  | case1 => cases member
  | case2 around next rest induction =>
      rcases List.mem_cons.mp member with equal | inRest
      · cases equal
      · exact later (induction inRest)
  | case3 around next rest induction => exact later (induction member)
  | case4 around next text rest induction =>
      rcases List.mem_cons.mp member with equal | inRest
      · cases equal
        exact ⟨_, List.mem_cons_self, rfl⟩
      · exact later (induction inRest)
  | case5 around next parameter rest optional induction =>
      rcases List.mem_cons.mp member with equal | afterGroup
      · cases equal
      · rcases List.mem_cons.mp afterGroup with equal | inRest
        · cases equal
          exact ⟨_, List.mem_cons_self, rfl⟩
        · exact later (induction inRest)
  | case6 around next parameter rest required induction =>
      rcases List.mem_cons.mp member with equal | inRest
      · cases equal
        exact ⟨_, List.mem_cons_self, rfl⟩
      · exact later (induction inRest)

theorem captureFree_of_mem_selected {pattern : String} {selection : Finset Nat}
    (member : .literal text ∈ selected selection (sitesOf pattern)) :
    CaptureFree text.toList ∧ text ≠ "" := by
  rcases List.mem_filterMap.mp member with ⟨site, inSites, isTaken⟩
  cases site with
  | group number around => cases isTaken
  | token content around =>
      rw [Site.taken?, Option.ite_none_right_eq_some] at isTaken
      cases isTaken.2
      rcases exists_lexeme_of_mem_sites inSites with ⟨lexeme, inLexemes, isToken⟩
      cases lexeme with
      | opening => cases isToken
      | closing => cases isToken
      | placeholder parameter => cases isToken
      | literal characters =>
          cases isToken
          rw [String.toList_ofList]
          refine ⟨captureFree_of_mem_lexemes inLexemes, fun empty => ?_⟩
          apply ne_nil_of_literal_mem_lexemes inLexemes
          rw [← String.toList_ofList (l := characters), empty, String.toList_empty]

/-- What a template of a variant reads as is what the variant means, unless tokens of the pattern
that come together begin a capture. -/
theorem segments_template_iff {pattern : String} {variants : List Variant}
    {segments : List Segment} (compiled : compile pattern = .ok variants)
    (member : variant ∈ variants) (written : variant.template = .ok template)
    (read : Template.parse template = .ok segments) :
    (∃ selection, IsSelection pattern selection ∧ variant.Shows pattern selection) ∧
      ∀ selection, variant.Shows pattern selection →
        (segments = variant.segments ↔
          ¬ JoinsCapture (selected selection (sitesOf pattern))) := by
  constructor
  · rcases exists_enumerates compiled with ⟨selections, enumerates⟩
    exact enumerates.exists_selection member
  · intro selection shows
    have named : ∀ parameter, .placeholder parameter ∈ variant.tokens → parameter.Named :=
      fun parameter inTokens => named_of_compile compiled member inTokens
    rcases segments_of_template written with ⟨text, writtenText, asRead⟩
    have joined : WritesCapture (variant.tokens.flatMap Token.symbols) ↔
        JoinsCapture (selected selection (sitesOf pattern)) := by
      rw [shows.symbols]
      apply writesCapture_iff_of_captureFree
      · exact fun text inSelected => (captureFree_of_mem_selected inSelected).1
      · exact fun inSelected => (captureFree_of_mem_selected inSelected).2 rfl
    rw [Template.segments_of_parse read, asRead,
      map_ofPiece_of_templateFrom shows.merged named writtenText, Variant.segments,
      flatMap_readSegments_eq_iff, ← joined,
      writesCapture_iff_of_separated shows.merged shows.nonempty]
    push Not
    rfl

theorem segments_template_iff_docs :
    ∃ variants variant, compile "/docs[/{page}]/{rest*}" = .ok variants ∧ variant ∈ variants ∧
      variant.template = .ok "/docs/:page/:rest*" ∧
      Template.parse "/docs/:page/:rest*" = .ok variant.segments ∧
      ∃ selection, IsSelection "/docs[/{page}]/{rest*}" selection ∧
        variant.Shows "/docs[/{page}]/{rest*}" selection ∧
        ¬ JoinsCapture (selected selection (sitesOf "/docs[/{page}]/{rest*}")) := by
  have compiled : compile "/docs[/{page}]/{rest*}" = .ok [
      { tokens := [.literal "/docs/", .placeholder ⟨"page", "[^/]+", .one⟩, .literal "/",
        .placeholder ⟨"rest", ".+", .zeroOrMore⟩] },
      { tokens := [.literal "/docs/", .placeholder ⟨"rest", ".+", .zeroOrMore⟩] }] := by
    cbv
  have read : Template.parse "/docs/:page/:rest*" =
      .ok [.static "docs", .capture "page", .anyNumber "rest"] := by
    cbv
  have meant := segments_template_iff compiled List.mem_cons_self (by cbv) read
  rcases meant.1 with ⟨selection, selects, shows⟩
  refine ⟨_, _, compiled, List.mem_cons_self, by cbv, ?_, selection, selects, shows, ?_⟩
  · rw [read]
    cbv
  · exact (meant.2 selection shows).mp (by cbv)

/-- A group may put a capture together: `/:[n]` means a piece of literal text, and its template
captures. -/
theorem exists_segments_template_ne :
    ¬ ∀ pattern variants variant template segments, compile pattern = .ok variants →
      variant ∈ variants → variant.template = .ok template →
      Template.parse template = .ok segments → segments = variant.segments := by
  intro always
  have compiled : compile "/:[n]" =
      .ok [{ tokens := [.literal "/:n"] }, { tokens := [.literal "/:"] }] := by
    cbv
  have read : Template.parse "/:n" = .ok [.capture "n"] := by cbv
  have meant : Variant.segments ⟨[.literal "/:n"]⟩ = [.static ":n"] := by cbv
  have same := always "/:[n]" _ _ "/:n" _ compiled List.mem_cons_self (by cbv) read
  rw [meant] at same
  cases same

end UrlRouting.Pattern
