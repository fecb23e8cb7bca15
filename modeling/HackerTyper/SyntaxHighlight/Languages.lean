import HackerTyper.Js.Object

/-!
# The languages of the highlighter

The configurations of `SyntaxHighlight.js`: for each language its keywords, how its comments
start and end, its string delimiters, and whether its keywords ignore case.

## Main definitions

* `LangConfig` and `langConfig`: a configuration and how it is built from its arguments;
* `LANGUAGES` and `FALLBACK`;
* `argsFor`: the arguments of the configuration a language name is highlighted with;
* `LangConfig.Lexable`: no opener is empty, and delimiters are single non-word characters;
* `LangConfig.Compact`: the openers have at most two code units, and no string delimiter is
  a backslash;
* `LangConfig.Separated`: comments and strings begin and end with characters that numbers and
  identifiers do not contain;
* `LangConfig.DelimitedBy`: comments and strings begin and end with characters of one kind.

## Main results

* `LANGUAGES_get`: reading the table;
* `lexable_of_argsFor`, `compact_of_argsFor`, `separated_of_argsFor` and
  `delimitedBy_of_argsFor`: what holds of every configuration in use;
* `not_mem_objectPrototype_of_mem_keywords`: no keyword is a name that objects inherit.
-/

namespace SyntaxHighlight

open Js

/-- A language configuration. -/
structure LangConfig where
  /-- The set of keywords, as the keys of an object. -/
  keywords : PlainObject Bool
  /-- What starts a comment that runs to the end of the line. -/
  lineComment : Option JsString
  /-- What starts and what ends a block comment. -/
  blockComment : Option (JsString × JsString)
  /-- The string delimiters. -/
  stringChars : List JsString
  /-- Keywords are compared in lower case. -/
  caseInsensitive : Bool
deriving DecidableEq, Repr

/-- The set of the given words. -/
def buildKeywordSet (words : List JsString) : PlainObject Bool :=
  words.foldl (fun set word => set.put word true) PlainObject.empty

/-- A configuration from its arguments. An argument that is left out, `null` or an empty
string gives no comments, the two usual string delimiters and case sensitivity. -/
def langConfig (keywords : List JsString) (lineComment : Option JsString)
    (blockComment : Option (JsString × JsString)) (stringChars : Option (List JsString))
    (caseInsensitive : Option Bool) : LangConfig where
  keywords := buildKeywordSet keywords
  -- `lineComment || null`, where the empty string is falsy
  lineComment := lineComment.filter (· ≠ [])
  blockComment := blockComment
  stringChars := stringChars.getD [js "\"", js "'"]
  caseInsensitive := caseInsensitive.getD false

/-- The arguments of a call of `langConfig`. -/
structure LanguageArgs where
  /-- The listed keywords. -/
  keywords : List JsString
  /-- The line comment opener. -/
  lineComment : Option JsString
  /-- The block comment opener and closer. -/
  blockComment : Option (JsString × JsString)
  /-- The string delimiters. -/
  stringChars : Option (List JsString)
  /-- Whether case is ignored. -/
  caseInsensitive : Option Bool
deriving DecidableEq, Repr

/-- The configuration for the arguments. -/
def LanguageArgs.config (a : LanguageArgs) : LangConfig :=
  langConfig a.keywords a.lineComment a.blockComment a.stringChars a.caseInsensitive

/-- The delimiters shared by the languages with a syntax like that of C. -/
def clikeStrings : List JsString := [js "\"", js "'"]

/-- The words of a list. -/
def words (ws : List String) : List JsString := ws.map js

namespace Language

/-- The arguments for C. -/
def c : LanguageArgs :=
  ⟨words
    ["auto", "break", "case", "char", "const", "continue", "default", "do", "double", "else",
     "enum", "extern", "float", "for", "goto", "if", "int", "long", "register", "return",
     "short", "signed", "sizeof", "static", "struct", "switch", "typedef", "union", "unsigned",
     "void", "volatile", "while", "include", "define", "ifdef", "ifndef", "endif", "NULL"],
    some (js "//"), some (js "/*", js "*/"), some clikeStrings, none⟩

/-- The arguments for C++. -/
def cpp : LanguageArgs :=
  ⟨words
    ["auto", "break", "case", "char", "class", "const", "constexpr", "continue", "default",
     "delete", "do", "double", "else", "enum", "explicit", "extern", "final", "float", "for",
     "friend", "goto", "if", "inline", "int", "long", "namespace", "new", "noexcept",
     "nullptr", "operator", "override", "private", "protected", "public", "register", "return",
     "short", "signed", "sizeof", "static", "struct", "switch", "template", "this", "throw",
     "true", "false", "try", "catch", "typedef", "typename", "union", "unsigned", "using",
     "virtual", "void", "volatile", "while"],
    some (js "//"), some (js "/*", js "*/"), some clikeStrings, none⟩

/-- The arguments for C#. -/
def csharp : LanguageArgs :=
  ⟨words
    ["abstract", "async", "await", "bool", "break", "case", "catch", "class", "const",
     "continue", "default", "delegate", "do", "double", "else", "enum", "event", "explicit",
     "extern", "false", "finally", "float", "for", "foreach", "if", "implicit", "in", "int",
     "interface", "internal", "is", "lock", "long", "namespace", "new", "null", "object",
     "override", "params", "private", "protected", "public", "readonly", "ref", "return",
     "sealed", "short", "static", "string", "struct", "switch", "this", "throw", "true", "try",
     "typeof", "using", "var", "virtual", "void", "while", "yield"],
    some (js "//"), some (js "/*", js "*/"), some clikeStrings, none⟩

/-- The arguments for Java. -/
def java : LanguageArgs :=
  ⟨words
    ["abstract", "assert", "boolean", "break", "byte", "case", "catch", "char", "class",
     "const", "continue", "default", "do", "double", "else", "enum", "extends", "final",
     "finally", "float", "for", "if", "implements", "import", "instanceof", "int", "interface",
     "long", "native", "new", "package", "private", "protected", "public", "return", "short",
     "static", "strictfp", "super", "switch", "synchronized", "this", "throw", "throws",
     "transient", "try", "void", "volatile", "while", "true", "false", "null"],
    some (js "//"), some (js "/*", js "*/"), some clikeStrings, none⟩

/-- The arguments for TypeScript. -/
def typeScript : LanguageArgs :=
  ⟨words
    ["as", "async", "await", "break", "case", "catch", "class", "const", "continue", "default",
     "delete", "do", "else", "enum", "export", "extends", "false", "finally", "for", "from",
     "function", "if", "implements", "import", "in", "instanceof", "interface", "let", "new",
     "null", "of", "private", "protected", "public", "readonly", "return", "static", "super",
     "switch", "this", "throw", "true", "try", "type", "typeof", "undefined", "var", "void",
     "while", "yield"],
    some (js "//"), some (js "/*", js "*/"), some [js "\"", js "'", js "`"], none⟩

/-- The arguments for Python. -/
def python : LanguageArgs :=
  ⟨words
    ["and", "as", "assert", "async", "await", "break", "class", "continue", "def", "del",
     "elif", "else", "except", "finally", "for", "from", "global", "if", "import", "in", "is",
     "lambda", "None", "nonlocal", "not", "or", "pass", "raise", "return", "self", "True",
     "False", "try", "while", "with", "yield"],
    some (js "#"), none, some clikeStrings, none⟩

/-- The arguments for Go. -/
def go : LanguageArgs :=
  ⟨words
    ["break", "case", "chan", "const", "continue", "default", "defer", "else", "fallthrough",
     "for", "func", "go", "goto", "if", "import", "interface", "map", "package", "range",
     "return", "select", "struct", "switch", "type", "var", "nil", "true", "false"],
    some (js "//"), some (js "/*", js "*/"), some clikeStrings, none⟩

/-- The arguments for Rust. -/
def rust : LanguageArgs :=
  ⟨words
    ["as", "break", "const", "continue", "crate", "dyn", "else", "enum", "extern", "fn", "for",
     "if", "impl", "in", "let", "loop", "match", "mod", "move", "mut", "pub", "ref", "return",
     "self", "Self", "static", "struct", "super", "trait", "true", "false", "type", "unsafe",
     "use", "where", "while", "None", "Some", "Ok", "Err"],
    some (js "//"), some (js "/*", js "*/"), some clikeStrings, none⟩

/-- The arguments for Ruby. -/
def ruby : LanguageArgs :=
  ⟨words
    ["begin", "break", "case", "class", "def", "do", "else", "elsif", "end", "ensure", "false",
     "for", "if", "in", "module", "next", "nil", "not", "or", "raise", "redo", "rescue",
     "retry", "return", "self", "super", "then", "true", "undef", "unless", "until", "when",
     "while", "yield", "and"],
    some (js "#"), none, some clikeStrings, none⟩

/-- The arguments for PHP. -/
def php : LanguageArgs :=
  ⟨words
    ["abstract", "and", "array", "as", "break", "case", "catch", "class", "clone", "const",
     "continue", "declare", "default", "do", "echo", "else", "elseif", "empty", "enddeclare",
     "endfor", "endforeach", "endif", "endswitch", "endwhile", "extends", "final", "finally",
     "fn", "for", "foreach", "function", "global", "goto", "if", "implements", "include",
     "instanceof", "insteadof", "interface", "isset", "list", "namespace", "new", "or",
     "print", "private", "protected", "public", "require", "return", "static", "switch",
     "throw", "trait", "try", "unset", "use", "var", "while", "xor", "yield", "true", "false",
     "null"],
    some (js "//"), some (js "/*", js "*/"), some clikeStrings, none⟩

/-- The arguments for Bash. -/
def bash : LanguageArgs :=
  ⟨words
    ["if", "then", "elif", "else", "fi", "for", "while", "until", "do", "done", "case", "esac",
     "function", "return", "break", "continue", "local", "export", "readonly", "declare", "in",
     "select", "time"],
    some (js "#"), none, some clikeStrings, none⟩

/-- The arguments for SQL. -/
def sql : LanguageArgs :=
  ⟨words
    ["select", "from", "where", "join", "inner", "left", "right", "outer", "on", "group", "by",
     "order", "having", "insert", "into", "values", "update", "set", "delete", "create",
     "table", "alter", "drop", "index", "primary", "key", "foreign", "references", "not",
     "null", "default", "unique", "as", "and", "or", "in", "exists", "between", "like",
     "union", "all", "distinct", "limit", "view", "case", "when", "then", "else", "end"],
    some (js "--"), some (js "/*", js "*/"), some [js "'"], some true⟩

/-- The arguments for Lua. -/
def lua : LanguageArgs :=
  ⟨words
    ["and", "break", "do", "else", "elseif", "end", "false", "for", "function", "if", "in",
     "local", "nil", "not", "or", "repeat", "return", "then", "true", "until", "while"],
    some (js "--"), none, some clikeStrings, none⟩

/-- The arguments for QML. -/
def qml : LanguageArgs :=
  ⟨words
    ["import", "as", "property", "function", "var", "let", "const", "return", "if", "else",
     "for", "while", "readonly", "signal", "alias", "true", "false", "null", "id", "int",
     "string", "bool", "real", "list", "default", "required"],
    some (js "//"), some (js "/*", js "*/"), some [js "\"", js "'"], none⟩

/-- The arguments for a language without a configuration of its own. -/
def fallback : LanguageArgs :=
  ⟨[], some (js "//"), some (js "/*", js "*/"), some clikeStrings, none⟩

end Language

open SyntaxHighlight.Language in
/-- The calls of `langConfig` in the table, under the names of their languages. -/
def languages : List (JsString × LanguageArgs) :=
  [(js "C", c),
   (js "C++", cpp),
   (js "C#", csharp),
   (js "Java", java),
   (js "TypeScript", typeScript),
   (js "Python", python),
   (js "Go", go),
   (js "Rust", rust),
   (js "Ruby", ruby),
   (js "PHP", php),
   (js "Bash", bash),
   (js "SQL", sql),
   (js "Lua", lua),
   (js "QML", qml)]

/-- The table of configurations. -/
def LANGUAGES : PlainObject LangConfig := ⟨languages.map fun (name, a) => (name, a.config)⟩

/-- The configuration for every other language. -/
def FALLBACK : LangConfig := Language.fallback.config

/-- The arguments of the configuration a language name is highlighted with: those of the
table or, for a name that reads as `undefined`, those of the fallback. A name inherited by
every object has none. -/
def argsFor (language : JsString) : Option LanguageArgs :=
  match PlainObject.getOwn language languages with
  | some a => some a
  -- `LANGUAGES[language]` is truthy for an inherited name
  | none => if language ∈ objectPrototype then none else some Language.fallback

/-- The arguments in use. -/
def allArgs : List LanguageArgs := Language.fallback :: languages.map Prod.snd

/-- Comment openers are not empty, and string delimiters are single characters outside
`[A-Za-z0-9_]`. -/
structure LangConfig.Lexable (cfg : LangConfig) : Prop where
  /-- Line comment openers are not empty. -/
  line : ∀ o ∈ cfg.lineComment, o ≠ []
  /-- Block comment openers are not empty. -/
  block : ∀ b ∈ cfg.blockComment, b.1 ≠ []
  /-- String delimiters are single characters outside `[A-Za-z0-9_]`. -/
  string : ∀ d ∈ cfg.stringChars, d.length = 1 ∧ ∀ q ∈ d, isWord q = false

/-- Comment openers have at most two code units, and no string delimiter is a backslash. -/
structure LangConfig.Compact (cfg : LangConfig) : Prop where
  /-- Line comment openers are short. -/
  line : ∀ o ∈ cfg.lineComment, o.length ≤ 2
  /-- Block comment openers are short. -/
  block : ∀ b ∈ cfg.blockComment, b.1.length ≤ 2
  /-- No string delimiter is a backslash. -/
  string : ∀ d ∈ cfg.stringChars, unit '\\' ∉ d

/-- The characters that numbers and identifiers consist of. -/
def isNameUnit (c : CodeUnit) : Bool := isWord c || decide (c = unit '.')

/-- A comment opener begins with a character that neither a number or identifier contains nor
a string begins with, and it has no newline. -/
def LangConfig.Foreign (cfg : LangConfig) (opener : JsString) : Prop :=
  (∀ x ∈ opener.head?, isNameUnit x = false ∧ [x] ∉ cfg.stringChars) ∧ unit '\n' ∉ opener

instance (cfg : LangConfig) (opener : JsString) : Decidable (cfg.Foreign opener) :=
  inferInstanceAs (Decidable ((∀ x ∈ opener.head?, isNameUnit x = false ∧
    [x] ∉ cfg.stringChars) ∧ unit '\n' ∉ opener))

/-- The characters at which comments and strings begin and end are told apart from those of
numbers and identifiers. -/
structure LangConfig.Separated (cfg : LangConfig) : Prop where
  /-- Line comments begin with a character of their own. -/
  line : ∀ o ∈ cfg.lineComment, cfg.Foreign o
  /-- Block comments begin with a character of their own. -/
  block : ∀ b ∈ cfg.blockComment, cfg.Foreign b.1
  /-- Block comments end with a character outside `[A-Za-z0-9_]`. -/
  closer : ∀ b ∈ cfg.blockComment, b.2 ≠ [] ∧ ∀ x ∈ b.2.getLast?, isWord x = false
  /-- No string begins with a point. -/
  string : ∀ d ∈ cfg.stringChars, unit '.' ∉ d

/-- Comments and strings begin and end with characters that satisfy `p`. -/
structure LangConfig.DelimitedBy (cfg : LangConfig) (p : CodeUnit → Bool) : Prop where
  /-- Openers of line comments. -/
  line : ∀ o ∈ cfg.lineComment, ∀ x ∈ o, p x
  /-- Openers of block comments. -/
  opener : ∀ b ∈ cfg.blockComment, ∀ x ∈ b.1, p x
  /-- Closers of block comments. -/
  closer : ∀ b ∈ cfg.blockComment, ∀ x ∈ b.2, p x
  /-- Delimiters of strings. -/
  string : ∀ d ∈ cfg.stringChars, ∀ x ∈ d, p x

/-- An ASCII character that is neither a letter nor a digit. -/
def isPunctuation (x : CodeUnit) : Bool :=
  decide (x.toNat < 128) && !isLetter x && !isDigit x

instance (cfg : LangConfig) : Decidable cfg.Lexable :=
  decidable_of_iff ((∀ o ∈ cfg.lineComment, o ≠ []) ∧ (∀ b ∈ cfg.blockComment, b.1 ≠ []) ∧
      ∀ d ∈ cfg.stringChars, d.length = 1 ∧ ∀ q ∈ d, isWord q = false)
    ⟨fun ⟨h₁, h₂, h₃⟩ => ⟨h₁, h₂, h₃⟩, fun ⟨h₁, h₂, h₃⟩ => ⟨h₁, h₂, h₃⟩⟩

instance (cfg : LangConfig) : Decidable cfg.Compact :=
  decidable_of_iff ((∀ o ∈ cfg.lineComment, o.length ≤ 2) ∧
      (∀ b ∈ cfg.blockComment, b.1.length ≤ 2) ∧ ∀ d ∈ cfg.stringChars, unit '\\' ∉ d)
    ⟨fun ⟨h₁, h₂, h₃⟩ => ⟨h₁, h₂, h₃⟩, fun ⟨h₁, h₂, h₃⟩ => ⟨h₁, h₂, h₃⟩⟩

instance (cfg : LangConfig) : Decidable cfg.Separated :=
  decidable_of_iff ((∀ o ∈ cfg.lineComment, cfg.Foreign o) ∧
      (∀ b ∈ cfg.blockComment, cfg.Foreign b.1) ∧
      (∀ b ∈ cfg.blockComment, b.2 ≠ [] ∧ ∀ x ∈ b.2.getLast?, isWord x = false) ∧
      ∀ d ∈ cfg.stringChars, unit '.' ∉ d)
    ⟨fun ⟨h₁, h₂, h₃, h₄⟩ => ⟨h₁, h₂, h₃, h₄⟩, fun ⟨h₁, h₂, h₃, h₄⟩ => ⟨h₁, h₂, h₃, h₄⟩⟩

instance (cfg : LangConfig) (p : CodeUnit → Bool) : Decidable (cfg.DelimitedBy p) :=
  decidable_of_iff ((∀ o ∈ cfg.lineComment, ∀ x ∈ o, p x) ∧
      (∀ b ∈ cfg.blockComment, ∀ x ∈ b.1, p x) ∧ (∀ b ∈ cfg.blockComment, ∀ x ∈ b.2, p x) ∧
      ∀ d ∈ cfg.stringChars, ∀ x ∈ d, p x)
    ⟨fun ⟨h₁, h₂, h₃, h₄⟩ => ⟨h₁, h₂, h₃, h₄⟩, fun ⟨h₁, h₂, h₃, h₄⟩ => ⟨h₁, h₂, h₃, h₄⟩⟩

/-- No string delimiter is empty. -/
theorem LangConfig.Lexable.string_ne_nil {cfg : LangConfig} (h : cfg.Lexable) {d : JsString}
    (hd : d ∈ cfg.stringChars) : d ≠ [] :=
  List.length_pos_iff.mp (by rw [(h.string d hd).1]; exact Nat.one_pos)

/-- Characters of a narrower kind are of the wider one. -/
theorem LangConfig.DelimitedBy.mono {cfg : LangConfig} {p q : CodeUnit → Bool}
    (h : cfg.DelimitedBy p) (hpq : ∀ x, p x → q x) : cfg.DelimitedBy q where
  line o ho x hx := hpq x (h.line o ho x hx)
  opener b hb x hx := hpq x (h.opener b hb x hx)
  closer b hb x hx := hpq x (h.closer b hb x hx)
  string d hd x hx := hpq x (h.string d hd x hx)

/-! ## Reading the table -/

theorem getOwn_map (f : LanguageArgs → LangConfig) (props : List (JsString × LanguageArgs))
    (key : JsString) :
    PlainObject.getOwn key (props.map fun (name, a) => (name, f a)) =
      (PlainObject.getOwn key props).map f := by
  induction props with
  | nil => rfl
  | cons p props ih =>
    obtain ⟨name, a⟩ := p
    rw [List.map_cons, PlainObject.getOwn, PlainObject.getOwn, ih]
    split <;> rfl

theorem mem_of_getOwn {props : List (JsString × LanguageArgs)} {key : JsString}
    {a : LanguageArgs} (h : PlainObject.getOwn key props = some a) : (key, a) ∈ props := by
  induction props with
  | nil => cases h
  | cons p props ih =>
    obtain ⟨name, b⟩ := p
    rw [PlainObject.getOwn] at h
    split at h
    next hname =>
      cases h
      simp [hname]
    next => exact List.mem_cons_of_mem _ (ih h)

/-- What a read of the table finds. -/
theorem LANGUAGES_get (language : JsString) :
    LANGUAGES.get language =
      match PlainObject.getOwn language languages with
      | some a => .own a.config
      | none => if language ∈ objectPrototype then .inherited else .missing := by
  rw [PlainObject.get, LANGUAGES, getOwn_map]
  cases PlainObject.getOwn language languages <;> rfl

theorem mem_allArgs_of_argsFor {language : JsString} {a : LanguageArgs}
    (h : argsFor language = some a) : a ∈ allArgs := by
  rw [argsFor] at h
  split at h
  next b hb =>
    cases h
    exact List.mem_cons_of_mem _ (List.mem_map_of_mem (mem_of_getOwn hb))
  next =>
    split at h
    · cases h
    · cases h
      exact List.mem_cons_self

/-- A name has a configuration unless every object inherits it. -/
theorem exists_argsFor {language : JsString} (h : language ∉ objectPrototype) :
    ∃ a, argsFor language = some a := by
  rw [argsFor]
  split
  next a _ => exact ⟨a, rfl⟩
  next => exact ⟨_, if_neg h⟩

/-- The configurations in use have openers that are not empty and delimiters of one character. -/
theorem lexable_of_argsFor {language : JsString} {a : LanguageArgs}
    (h : argsFor language = some a) : a.config.Lexable := by
  have hall : ∀ a ∈ allArgs, a.config.Lexable := by decide +kernel
  exact hall a (mem_allArgs_of_argsFor h)

/-- The configurations in use have short openers, and no backslash delimits a string. -/
theorem compact_of_argsFor {language : JsString} {a : LanguageArgs}
    (h : argsFor language = some a) : a.config.Compact := by
  have hall : ∀ a ∈ allArgs, a.config.Compact := by decide +kernel
  exact hall a (mem_allArgs_of_argsFor h)

/-- The configurations in use tell comments and strings apart from numbers and identifiers. -/
theorem separated_of_argsFor {language : JsString} {a : LanguageArgs}
    (h : argsFor language = some a) : a.config.Separated := by
  have hall : ∀ a ∈ allArgs, a.config.Separated := by decide +kernel
  exact hall a (mem_allArgs_of_argsFor h)

/-- In every language, comments and strings begin and end with ASCII punctuation. -/
theorem delimitedBy_of_argsFor {language : JsString} {a : LanguageArgs}
    (h : argsFor language = some a) : a.config.DelimitedBy isPunctuation := by
  have hall : ∀ a ∈ allArgs, a.config.DelimitedBy isPunctuation := by decide +kernel
  exact hall a (mem_allArgs_of_argsFor h)

/-- No listed keyword is the name of an inherited property. -/
theorem not_mem_objectPrototype_of_mem_keywords {language word : JsString} {a : LanguageArgs}
    (h : argsFor language = some a) (hword : word ∈ a.keywords) :
    word ∉ objectPrototype := by
  have hall : ∀ a ∈ allArgs, ∀ w ∈ a.keywords, w ∉ objectPrototype := by decide +kernel
  exact hall a (mem_allArgs_of_argsFor h) word hword

/-- Reading the keyword set of a language. -/
theorem keywords_get {language : JsString} {a : LanguageArgs} (h : argsFor language = some a)
    (word : JsString) :
    a.config.keywords.get word =
      if word ∈ a.keywords then .own true
      else if word ∈ objectPrototype then .inherited else .missing := by
  -- a keyword `__proto__` would not become a property
  have hproto : js "__proto__" ∉ a.keywords := fun hmem =>
    not_mem_objectPrototype_of_mem_keywords h hmem (by decide)
  exact PlainObject.get_foldl_put hproto true PlainObject.empty word

end SyntaxHighlight
