import Stepwise.Proofs.Guard.Layout
import Stepwise.Proofs.Guard.Meaning

/-! How strings and paths are spelled in a condition. A string in quotes, with a backslash before every
backslash and every such quote, is one lexeme wherever it stands, so no text can leave its quotes and become
part of the condition around it. -/
namespace Stepwise.Guard

/-! ### Strings -/

/-- The characters of a string as they stand between two such quotes. -/
def escaped (quote : Char) (text : List Char) : List Char :=
  text.flatMap fun c => if c = '\\' ∨ c = quote then ['\\', c] else [c]

/-- The literal of a string. -/
def quoted (quote : Char) (text : String) : String :=
  String.ofList (quote :: (escaped quote text.toList ++ [quote]))

variable {quote : Char}

theorem readString_escaped_cons (hQuote : quote = '\'' ∨ quote = '"') (c : Char) (read rest : List Char)
    (length offset : Nat) :
    ∃ offset', readString quote read length offset (escaped quote [c] ++ rest) =
      readString quote (c :: read) (length + (escaped quote [c]).length) offset' rest := by
  by_cases hEscape : c = '\\' ∨ c = quote
  · refine ⟨offset + 2, ?_⟩
    have hKnown : c = '\\' ∨ c = '\'' ∨ c = '"' := by
      rcases hEscape with rfl | rfl
      · exact .inl rfl
      · exact .inr hQuote
    have hBackslash : ('\\' : Char) ≠ quote := by rcases hQuote with rfl | rfl <;> decide
    simp [escaped, hEscape, readString, hBackslash, hKnown]
  · refine ⟨offset + c.utf8Size, ?_⟩
    obtain ⟨hBackslash, hEnd⟩ := not_or.mp hEscape
    simp [escaped, hEscape, readString_other hEnd hBackslash]

/-- An escaped string is read back up to its closing quote. -/
theorem readString_escaped (hQuote : quote = '\'' ∨ quote = '"') (text read rest : List Char)
    (length offset : Nat) :
    readString quote read length offset (escaped quote text ++ quote :: rest) =
      .ok (.string (String.ofList (read.reverse ++ text)), length + (escaped quote text).length + 1) := by
  induction text generalizing read length offset with
  | nil => simp [escaped, readString_end]
  | cons c text ih =>
      have hCons : escaped quote (c :: text) = escaped quote [c] ++ escaped quote text := by simp [escaped]
      obtain ⟨offset', hFirst⟩ :=
        readString_escaped_cons hQuote c read (escaped quote text ++ quote :: rest) length offset
      rw [hCons, List.append_assoc, hFirst, ih, List.length_append, List.reverse_cons, List.append_assoc,
        List.singleton_append, Nat.add_assoc length]

theorem readLexeme_quoted (hQuote : quote = '\'' ∨ quote = '"') (afterDot : Bool) (text : String)
    (rest : List Char) :
    readLexeme afterDot quote (escaped quote text.toList ++ [quote] ++ rest) =
      .ok (.string text, (escaped quote text.toList ++ [quote]).length) := by
  rw [readLexeme_quote afterDot hQuote, List.append_assoc, List.singleton_append,
    readString_escaped hQuote, List.reverse_nil, List.nil_append, String.ofList_toList,
    List.length_append, Nat.zero_add, List.length_singleton]

theorem isBlank_quote (hQuote : quote = '\'' ∨ quote = '"') : Text.isBlank quote = false := by
  rcases hQuote with rfl | rfl <;> rfl

theorem toList_quoted (quote : Char) (text : String) :
    (quoted quote text).toList = quote :: (escaped quote text.toList ++ [quote]) :=
  String.toList_ofList

/-- Whatever stands around a literal, it is the one token of its string. -/
theorem tokens_quoted (hQuote : quote = '\'' ∨ quote = '"') (text : String) {front : List Char}
    {before : List Token} (hFront : tokens front = .ok before) (back : List Char) :
    tokens (front ++ ((quoted quote text).toList ++ back)) =
      (tokensFrom (Text.byteLength (front ++ (quoted quote text).toList)) false back).map
        (before ++ ⟨.string text, Text.byteLength front⟩ :: ·) := by
  obtain ⟨pieces, last, rfl, hLaid⟩ := (lexes_of_tokensFrom hFront).exists_laid
  generalize before.map Token.lexeme = lexemes at hLaid
  cases hFront.symm.trans (hLaid.tokensFrom_eq 0)
  have hSeparate : Separate (quote :: (escaped quote text.toList ++ [quote]) ++ back) :=
    separate_cons.mpr (.inr (.inr (.inr hQuote)))
  rw [tokens, toList_quoted, hLaid.tokensFrom_append hSeparate,
    tokensFrom_lexeme_append (isBlank_quote hQuote) (readLexeme_quoted hQuote _ text back), map_map,
    Nat.zero_add, ← Text.byteLength_append]
  rfl

/-- A literal at the end of a text. -/
theorem lexes_quoted (hQuote : quote = '\'' ∨ quote = '"') (afterDot : Bool) (text : String) :
    Lexes afterDot (quoted quote text).toList [.string text] := by
  have hRead := readLexeme_quoted hQuote afterDot text []
  rw [List.append_nil] at hRead
  rw [toList_quoted]
  refine .lexeme (isBlank_quote hQuote) hRead ?_
  rw [List.drop_length]
  exact .nil

/-! ### Paths -/

/-- Whether it is a letter and then letters and digits, as what stands behind a dot. -/
def isWord (word : String) : Bool :=
  match word.toList with
  | [] => false
  | c :: rest => isLetter c && rest.all fun d => isLetter d || isDigit d

/-- Keys as they stand behind a root. -/
def spelledKeys (keys : List String) : List Char :=
  keys.flatMap fun key => '.' :: key.toList

/-- A path as it stands in a condition. -/
def Path.text (path : Path) : String :=
  path.root.name ++ String.ofList (spelledKeys path.keys)

theorem isBlank_of_isLetter {c : Char} (h : isLetter c = true) : Text.isBlank c = false := by
  refine Bool.eq_false_iff.mpr fun hBlank => ?_
  have hSeparate : Separate [c] := separate_cons.mpr (.inl hBlank)
  exact Bool.false_ne_true ((hSeparate.head rfl).1.symm.trans h)

/-- A word is one lexeme before a character that does not continue it. -/
theorem Lexes.word {afterDot : Bool} {word : String} (hWord : isWord word = true) {rest : List Char}
    (hEnd : ∀ c ∈ rest.head?, (isLetter c || isDigit c) = false) {more : List Lexeme}
    (hRest : Lexes (lexemeOfWord afterDot word == .dot) rest more) :
    Lexes afterDot (word.toList ++ rest) (lexemeOfWord afterDot word :: more) := by
  have hText : word = String.ofList word.toList := (String.ofList_toList ..).symm
  unfold isWord at hWord
  generalize word.toList = chars at hWord hText ⊢
  subst hText
  cases chars with
  | nil => cases hWord
  | cons c others =>
      obtain ⟨hLetter, hOthers⟩ := Bool.and_eq_true_iff.mp hWord
      have hTaken : (others ++ rest).takeWhile (fun d => isLetter d || isDigit d) = others := by
        rw [takeWhile_append_of_head others hEnd, List.takeWhile_eq_self_iff]
        exact List.all_eq_true.mp hOthers
      have hRead : readLexeme afterDot c (others ++ rest) =
          .ok (lexemeOfWord afterDot (String.ofList (c :: others)), others.length) := by
        rw [readLexeme_word afterDot hLetter, hTaken]
      refine .lexeme (isBlank_of_isLetter hLetter) hRead ?_
      rw [List.append_eq, List.drop_left]
      exact hRest

/-- Keys are not continued by what continues no lexeme, and a dot does not continue a word. -/
theorem head_spelledKeys (keys : List String) {rest : List Char} (hSeparate : Separate rest) :
    ∀ c ∈ (spelledKeys keys ++ rest).head?, (isLetter c || isDigit c) = false := by
  cases keys with
  | nil => exact fun c hc => Bool.or_eq_false_iff.mpr ⟨(hSeparate.head hc).1, (hSeparate.head hc).2.1⟩
  | cons key keys =>
      rintro _ ⟨⟩
      rfl

theorem Lexes.keys {keys : List String} (hKeys : ∀ key ∈ keys, isWord key = true) {rest : List Char}
    (hSeparate : Separate rest) {more : List Lexeme} (hRest : Lexes false rest more) :
    Lexes false (spelledKeys keys ++ rest) (Grammar.keyLexemes keys ++ more) := by
  induction keys with
  | nil => exact hRest
  | cons key keys ih =>
      obtain ⟨hKey, hOthers⟩ := List.forall_mem_cons.mp hKeys
      have hWord : Lexes true (key.toList ++ (spelledKeys keys ++ rest))
          (.name key :: (Grammar.keyLexemes keys ++ more)) :=
        Lexes.word hKey (head_spelledKeys keys hSeparate) (ih hOthers)
      have hDot : readLexeme false '.' (key.toList ++ (spelledKeys keys ++ rest)) = .ok (.dot, 0) := rfl
      rw [spelledKeys, List.flatMap_cons, List.append_assoc]
      exact .lexeme rfl hDot hWord

/-- A path before a text that does not continue it. -/
theorem Lexes.path {path : Path} (hKeys : ∀ key ∈ path.keys, isWord key = true) {rest : List Char}
    (hSeparate : Separate rest) {more : List Lexeme} (hRest : Lexes false rest more) :
    Lexes false (path.text.toList ++ rest) (Grammar.pathLexemes path ++ more) := by
  obtain ⟨root, keys⟩ := path
  have hRoot : isWord root.name = true := by cases root <;> decide +kernel
  have hName : lexemeOfWord false root.name = .name root.name := by cases root <;> rfl
  have hBehind : Lexes (lexemeOfWord false root.name == .dot) (spelledKeys keys ++ rest)
      (Grammar.keyLexemes keys ++ more) := by
    rw [hName]
    exact Lexes.keys hKeys hSeparate hRest
  have hWord := Lexes.word hRoot (head_spelledKeys keys hSeparate) hBehind
  rw [hName] at hWord
  rw [Path.text, String.toList_append, String.toList_ofList, List.append_assoc]
  exact hWord

/-! ### Comparisons with a literal -/

/-- An operator behind a path; a blank separates it from what it stands before. -/
theorem lexes_operator (op : Comparison) : Lexes false (" " ++ op.spelling).toList [.compare op] :=
  spells_iff.mp (by cases op <;> decide +kernel)

namespace Grammar

/-- A path, an operator and a literal. -/
def comparison (path : Path) (op : Comparison) (value : Literal) : Disjunction :=
  .one (.one (.test (.chain (.more (.path path) op (.one (.literal value))))))

theorem lexes_comparison {path : Path} (hKeys : ∀ key ∈ path.keys, isWord key = true) (op : Comparison)
    {value : Literal} {text : String} (hText : Lexes false text.toList [value.lexeme]) :
    Lexes false (path.text ++ (" " ++ op.spelling ++ " ") ++ text).toList
      (comparison path op value).lexemes := by
  have hBehind : Lexes false ((" " ++ op.spelling).toList ++ ' ' :: text.toList)
      [.compare op, value.lexeme] :=
    (lexes_operator op).append (separate_cons.mpr (.inl rfl)) (.blank rfl hText)
  have hBlank : Separate ((" " ++ op.spelling).toList ++ ' ' :: text.toList) := by
    rw [String.toList_append, List.append_assoc]
    exact separate_cons.mpr (.inl rfl)
  have hAll := Lexes.path hKeys hBlank hBehind
  have hSplit : (path.text ++ (" " ++ op.spelling ++ " ") ++ text).toList =
      path.text.toList ++ ((" " ++ op.spelling).toList ++ ' ' :: text.toList) := by
    simp
  rw [hSplit]
  simpa [comparison, Disjunction.lexemes, Conjunction.lexemes, Negation.lexemes, Test.lexemes,
    Chain.lexemes, Atom.lexemes] using hAll

theorem comparison_holds (path : Path) (op : Comparison) (value : Literal) (s : State) :
    (comparison path op value).tree.holds s = op.holds (path.resolve s) value.value.toJson := by
  simp only [comparison, Disjunction.tree, Conjunction.tree, Negation.tree, Test.tree, Chain.first, Chain.rest,
    Atom.tree, Expr.holds, chainHolds, Operand.value, Bool.and_true]

/-- The comparison compiles, and holds where the value at the path stands in the relation to the literal. -/
theorem means_comparison {path : Path} (hKeys : ∀ key ∈ path.keys, isWord key = true) (op : Comparison)
    (value : Literal) {text : String} (hText : Lexes false text.toList [value.lexeme]) :
    Condition.Means (path.text ++ (" " ++ op.spelling ++ " ") ++ text) fun s =>
      op.holds (path.resolve s) value.value.toJson :=
  Condition.means_of_lexes (lexes_comparison hKeys op hText) (Nat.zero_le _) (comparison_holds path op value)

end Grammar

/-- A path, an operator and a string. -/
def comparisonText (path : Path) (op : Comparison) (quote : Char) (text : String) : String :=
  path.text ++ (" " ++ op.spelling ++ " ") ++ quoted quote text

theorem means_comparisonText (hQuote : quote = '\'' ∨ quote = '"') (text : String) (op : Comparison)
    {path : Path} (hKeys : ∀ key ∈ path.keys, isWord key = true) :
    Condition.Means (comparisonText path op quote text) fun s =>
      op.holds (path.resolve s) (.string text) :=
  Grammar.means_comparison hKeys op (.string text) (lexes_quoted hQuote false text)

theorem equal_string_iff {value : Json} {text : String} :
    equal value (.string text) = true ↔ value = .string text := by
  cases value <;> simp [equal]

theorem Path.resolve_eq_string_iff {path : Path} {s : State} {text : String} :
    path.resolve s = .string text ↔ s.lookup? path.root path.keys = some (.string text) := by
  unfold Path.resolve
  cases s.lookup? path.root path.keys <;> simp

/-- Quoted text cannot escape its literal. Between any two texts, of which the first ends a token, the literal
is the one token of its string, and the text behind it is split as if it stood there alone. And comparing a
path with the literal compiles, for `==` to the condition that the path leads to just this string, and for
`!=` to the condition that it does not. -/
theorem quoted_is_one_token (hQuote : quote = '\'' ∨ quote = '"') (text : String) :
    (∀ (front back : List Char) (before : List Token), tokens front = .ok before →
      tokens (front ++ ((quoted quote text).toList ++ back)) =
        (tokensFrom (Text.byteLength (front ++ (quoted quote text).toList)) false back).map
          (before ++ ⟨.string text, Text.byteLength front⟩ :: ·)) ∧
    ∀ path : Path, (∀ key ∈ path.keys, isWord key = true) →
      (∃ c, Condition.compile (path.text ++ " == " ++ quoted quote text) = .ok c ∧
        ∀ s, c.holds s = true ↔ s.lookup? path.root path.keys = some (.string text)) ∧
      ∃ c, Condition.compile (path.text ++ " != " ++ quoted quote text) = .ok c ∧
        ∀ s, c.holds s = true ↔ s.lookup? path.root path.keys ≠ some (.string text) := by
  refine ⟨fun front back before hFront => tokens_quoted hQuote text hFront back, fun path hKeys => ⟨?_, ?_⟩⟩
  · obtain ⟨c, hCompile, hHolds⟩ := means_comparisonText hQuote text .eq hKeys
    refine ⟨c, hCompile, fun s => ?_⟩
    calc c.holds s = true
        ↔ equal (path.resolve s) (.string text) = true := by rw [hHolds]; rfl
      _ ↔ path.resolve s = .string text := equal_string_iff
      _ ↔ s.lookup? path.root path.keys = some (.string text) := Path.resolve_eq_string_iff
  · obtain ⟨c, hCompile, hHolds⟩ := means_comparisonText hQuote text .ne hKeys
    refine ⟨c, hCompile, fun s => ?_⟩
    calc c.holds s = true
        ↔ (!equal (path.resolve s) (.string text)) = true := by rw [hHolds]; rfl
      _ ↔ ¬equal (path.resolve s) (.string text) = true := by rw [Bool.not_eq_true', Bool.not_eq_true]
      _ ↔ path.resolve s ≠ .string text := not_congr equal_string_iff
      _ ↔ s.lookup? path.root path.keys ≠ some (.string text) := not_congr Path.resolve_eq_string_iff

/-- A quote followed by an alternative that would always hold stays inside the literal. -/
theorem quoted_is_one_token_alternative :
    tokens "not ('x\\' or True or \\'' != 'y')".toList =
        .ok [⟨.not, 0⟩, ⟨.openParen, 4⟩, ⟨.string "x' or True or '", 5⟩, ⟨.compare .ne, 25⟩,
          ⟨.string "y", 28⟩, ⟨.closeParen, 31⟩] ∧
      ∃ c, Condition.compile "context.k == 'x\\' or True or \\''" = .ok c ∧
        ∀ s, c.holds s = true ↔ s.lookup? .context ["k"] = some (.string "x' or True or '") := by
  obtain ⟨hTokens, hPaths⟩ := quoted_is_one_token (.inl rfl : '\'' = '\'' ∨ '\'' = '"') "x' or True or '"
  have hSpelled : quoted '\'' "x' or True or '" = "'x\\' or True or \\''" := by decide +kernel
  rw [hSpelled] at hTokens hPaths
  have hText : "not ('x\\' or True or \\'' != 'y')".toList =
      "not (".toList ++ ("'x\\' or True or \\''".toList ++ " != 'y')".toList) := by decide +kernel
  have hFront : tokens "not (".toList = .ok [⟨.not, 0⟩, ⟨.openParen, 4⟩] := by decide +kernel
  refine ⟨?_, ?_⟩
  · rw [hText, hTokens _ _ _ hFront]
    decide +kernel
  · obtain ⟨⟨c, hCompile, hHolds⟩, -⟩ := hPaths ⟨.context, ["k"]⟩ (by decide +kernel)
    refine ⟨c, ?_, hHolds⟩
    rw [← hCompile]
    exact congrArg Condition.compile (by decide +kernel)

end Stepwise.Guard
