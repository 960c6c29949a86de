import Mathlib.Tactic

/-! How a POSIX shell reads a line: tokens and quoting, then which words are left to expansion
and what the simple commands of a list are. Command substitution and `${` are not read, nor are
redirections and compound commands: a text that has them has no reading here. -/
namespace AdbShare.Shell

open List

abbrev Text := List Char

def QUOTE : Char := Char.ofNat 39
def DOUBLE_QUOTE : Char := Char.ofNat 34
def BACKSLASH : Char := Char.ofNat 92
def BACKQUOTE : Char := Char.ofNat 96

/-- A character of a word: as it stands, protected by quotes, or the start of an expansion. -/
inductive Piece
  | plain (c : Char)
  | quoted (c : Char)
  | active (c : Char)
  deriving DecidableEq

def Piece.char : Piece → Char
  | .plain c | .quoted c | .active c => c

abbrev Word := List Piece

inductive Token
  | word (w : Word)
  | op (text : Text)
  deriving DecidableEq

/-- Where the reader is: `skip` passes over the second character of an operator. -/
inductive Mode
  | plain | single | double | escaped | escapedDouble | comment | skip
  deriving DecidableEq

def isBlank (c : Char) : Bool := c == ' ' || c == '\t'

def isOperator (c : Char) : Bool := ['&','|',';','<','>','(',')','\n'].contains c

/-- Operators of two characters. -/
def pairs (c d : Char) : Bool :=
  [('&','&'),('|','|'),(';',';'),('<','<'),('>','>'),('<','&'),('>','&'),('<','>'),('>','|')].contains (c,d)

def add (word : Option Word) (p : Piece) : Option Word := some (word.getD []++[p])

/-- The word that has been read, if one has been begun. -/
def close (word : Option Word) (tokens : List Token) : List Token :=
  match word with
  | none => tokens
  | some w => .word w::tokens

/-- Token recognition. -/
def lex : Mode → Option Word → Text → Option (List Token)
  | .plain, word, [] | .comment, word, [] => some (close word [])
  | _, _, [] => none
  | .plain, word, c::cs =>
    if c = QUOTE then lex .single (some (word.getD [])) cs
    else if c = DOUBLE_QUOTE then lex .double (some (word.getD [])) cs
    else if c = BACKSLASH then lex .escaped word cs
    else if c = BACKQUOTE then none
    else if c = '$' then
      if cs.head? = some '(' ∨ cs.head? = some '{' then none else lex .plain (add word (.active c)) cs
    else if isBlank c then (lex .plain none cs).map (close word)
    else if isOperator c then
      match cs.head? with
      | some d =>
        if pairs c d then (lex .skip none cs).map fun ts => close word (.op [c,d]::ts)
        else (lex .plain none cs).map fun ts => close word (.op [c]::ts)
      | none => (lex .plain none cs).map fun ts => close word (.op [c]::ts)
    else if c = '#' ∧ word = none then lex .comment none cs
    else lex .plain (add word (.plain c)) cs
  | .single, word, c::cs =>
    if c = QUOTE then lex .plain word cs else lex .single (add word (.quoted c)) cs
  | .double, word, c::cs =>
    if c = DOUBLE_QUOTE then lex .plain word cs
    else if c = BACKSLASH then lex .escapedDouble word cs
    else if c = BACKQUOTE then none
    else if c = '$' then
      if cs.head? = some '(' ∨ cs.head? = some '{' then none else lex .double (add word (.active c)) cs
    else lex .double (add word (.quoted c)) cs
  | .escaped, word, c::cs => if c = '\n' then lex .plain word cs else lex .plain (add word (.quoted c)) cs
  | .escapedDouble, word, c::cs =>
    if c = '\n' then lex .double word cs
    else if ['$',BACKQUOTE,DOUBLE_QUOTE,BACKSLASH].contains c then lex .double (add word (.quoted c)) cs
    else lex .double (add (add word (.quoted BACKSLASH)) (.quoted c)) cs
  | .comment, word, c::cs => if c = '\n' then (lex .plain none cs).map fun ts => .op [c]::ts else lex .comment word cs
  | .skip, word, _::cs => lex .plain word cs

/-- Nothing in the word is expanded, as a parameter, a pattern, a home directory or braces. -/
def isLiteral (w : Word) : Bool :=
  w.all fun
    | .plain c => !(['*','?','[','~','{'].contains c)
    | .quoted _ => true
    | .active _ => false

/-- The fields of a word: what an expansion gives is up to the environment. -/
def fields (env : Word → List Text) (w : Word) : List Text := if isLiteral w then [w.map Piece.char] else env w

def RESERVED : List Text :=
  ["!","\x7b","\x7d","case","do","done","elif","else","esac","fi","for","if","in","then","until","while"].map String.toList

/-- A word at the start of a command that is not its name: a reserved word or an assignment. -/
def isSpecial (w : Word) : Bool := RESERVED.any (fun t => w == t.map .plain) || w.contains (.plain '=')

def simpleCommand (env : Word → List Text) (ws : List Word) : Option (List Text) :=
  match ws with
  | [] => none
  | w::_ => if isSpecial w then none else some (ws.flatMap (fields env))

def isSeparator (op : Text) : Bool := [['&','&'],['|','|'],['|'],['&'],[';'],['\n']].contains op

/-- The commands of a list, each with the operator behind it. -/
def split : List Token → List Word → Option (List (List Word × Text))
  | [], [] => some []
  | [], ws => some [(ws,[])]
  | .word w::ts, ws => split ts (ws++[w])
  | .op o::ts, ws => if isSeparator o then (split ts []).map ((ws,o)::·) else none

def commands (env : Word → List Text) : List (List Word × Text) → Option (List (List Text × Text))
  | [] => some []
  | (ws,o)::rest => do
    let argv ← simpleCommand env ws
    let more ← commands env rest
    some ((argv,o)::more)

/-- The simple commands a line consists of, with their fields and the operators between them. -/
def read (env : Word → List Text) (line : Text) : Option (List (List Text × Text)) := do
  let tokens ← lex .plain none line
  let parts ← split tokens []
  commands env parts

/-- A character without a meaning of its own. -/
def isOrdinary (c : Char) : Bool :=
  !([QUOTE,DOUBLE_QUOTE,BACKSLASH,BACKQUOTE,'$','#'].contains c || isBlank c || isOperator c)

/-- A character that stands for itself in a word and is not expanded there. -/
def isBare (c : Char) : Bool := isOrdinary c && !(['*','?','[','~','{'].contains c)

/-- The text is read as a part of a word. -/
def Spells (text : Text) (w : Word) : Prop :=
  ∀ word rest, lex .plain word (text++rest) = lex .plain (some (word.getD []++w)) rest

theorem spells_ordinary {c : Char} (h : isOrdinary c) : Spells [c] [.plain c] := by
  intro word rest
  simp only [isOrdinary,Bool.not_eq_true',Bool.or_eq_false_iff,contains_eq_mem,mem_cons,
    not_mem_nil,or_false,decide_eq_false_iff_not,not_or] at h
  obtain ⟨⟨⟨h1,h2,h3,h4,h5,h6⟩,hb⟩,ho⟩ := h
  rw [singleton_append,lex,if_neg h1,if_neg h2,if_neg h3,if_neg h4,if_neg h5,if_neg (by rw [hb]; decide),
    if_neg (by rw [ho]; decide),if_neg (fun h => h6 h.1)]
  rfl

theorem Spells.append {s t : Text} {v w : Word} (hs : Spells s v) (ht : Spells t w) : Spells (s++t) (v++w) := by
  intro word rest
  rw [append_assoc,hs,ht,Option.getD_some,append_assoc]

variable {text : Text} {w : Word}

theorem spells_bare (hne : text ≠ []) (h : text.all isBare) : Spells text (text.map .plain) := by
  induction text with
  | nil => exact absurd rfl hne
  | cons c cs ih =>
    rw [all_cons,isBare,Bool.and_eq_true,Bool.and_eq_true] at h
    cases cs with
    | nil => exact spells_ordinary h.1.1
    | cons d ds => exact (spells_ordinary h.1.1).append (ih (cons_ne_nil d ds) h.2)

/-- Single quotes, each quote inside closed, escaped and opened again. -/
def escape (value : Text) : Text := value.flatMap fun c => if c = QUOTE then [QUOTE,BACKSLASH,QUOTE,QUOTE] else [c]

def quote (value : Text) : Text := QUOTE::(escape value++[QUOTE])

theorem lex_escape (value : Text) (w : Word) (rest : Text) : lex .single (some w) (escape value++QUOTE::rest) =
    lex .plain (some (w++value.map .quoted)) rest := by
  induction value generalizing w with
  | nil =>
    rw [map_nil,append_nil]
    rfl
  | cons c cs ih =>
    have hnext : lex .single (some w) (escape (c::cs)++QUOTE::rest) =
        lex .single (some (w++[.quoted c])) (escape cs++QUOTE::rest) := by
      by_cases hc : c = QUOTE
      · subst hc
        rfl
      have hesc : escape (c::cs) = c::escape cs := by
        rw [escape,flatMap_cons,if_neg hc]
        rfl
      rw [hesc,cons_append,lex,if_neg hc]
      rfl
    rw [hnext,ih,append_assoc]
    rfl

/-- A quoted text is one word, or part of one, whatever is in it. -/
theorem spells_quote (value : Text) : Spells (quote value) (value.map .quoted) := by
  intro word rest
  rw [quote,cons_append,append_assoc]
  exact lex_escape value (word.getD []) rest

theorem lex_word (h : Spells text w) (rest : Text) :
    lex .plain none (text++ ' '::rest) = (lex .plain none rest).map (Token.word w::·) := by
  rw [h]
  rfl

theorem lex_last (h : Spells text w) : lex .plain none text = some [Token.word w] := by
  have hend := h none []
  rw [append_nil] at hend
  exact hend

theorem intercalate_cons (text text' : Text) (texts : List Text) :
    [' '].intercalate (text::text'::texts) = text++ ' '::[' '].intercalate (text'::texts) := by
  simp

theorem lex_line {texts : List Text} {ws : List Word} (h : List.Forall₂ Spells texts ws) (hne : texts ≠ []) :
    lex .plain none ([' '].intercalate texts) = some (ws.map Token.word) := by
  induction h with
  | nil => exact absurd rfl hne
  | @cons text w texts ws hw hws ih =>
    cases hws with
    | nil =>
      rw [List.intercalate_singleton]
      exact lex_last hw
    | @cons text' w' texts' ws' hw' hws' =>
      rw [intercalate_cons,lex_word hw,ih (cons_ne_nil _ _)]
      rfl

theorem fields_bare (env : Word → List Text) (h : text.all isBare) : fields env (text.map .plain) = [text] := by
  have hlit : isLiteral (text.map .plain) := by
    rw [isLiteral,all_map]
    refine all_eq_true.mpr ?_
    intro c hc
    exact (Bool.and_eq_true_iff.mp (all_eq_true.mp h c hc)).2
  rw [fields,if_pos hlit,map_map]
  exact congrArg (fun t => [t]) (map_id text)

theorem fields_quoted (env : Word → List Text) (text : Text) : fields env (text.map .quoted) = [text] := by
  have hlit : isLiteral (text.map .quoted) := by simp [isLiteral]
  rw [fields,if_pos hlit,map_map]
  exact congrArg (fun t => [t]) (map_id text)

theorem split_words (ws vs : List Word) (hne : ws++vs ≠ []) : split (vs.map Token.word) ws = some [(ws++vs,[])] := by
  induction vs generalizing ws with
  | nil =>
    rw [append_nil] at hne ⊢
    cases ws with
    | nil => exact absurd rfl hne
    | cons w ws => rfl
  | cons v vs ih =>
    rw [map_cons,split,ih (ws++[v]) (by simp)]
    simp

theorem read_line (env : Word → List Text) {texts : List Text} {ws : List Word}
    (h : List.Forall₂ Spells texts (w::ws)) (hw : isSpecial w = false) :
    read env ([' '].intercalate texts) = some [((w::ws).flatMap (fields env),[])] := by
  have hne : texts ≠ [] := by
    rintro rfl
    cases h
  rw [read,lex_line h hne]
  have hsplit := split_words [] (w::ws) (cons_ne_nil w ws)
  simp only [Option.bind_eq_bind,Option.bind_some,hsplit,nil_append,commands,simpleCommand,hw]
  rfl

theorem escape_eq_self {value : Text} (h : QUOTE ∉ value) : escape value = value := by
  induction value with
  | nil => rfl
  | cons c cs ih =>
    rw [mem_cons,not_or] at h
    rw [escape,flatMap_cons,if_neg (Ne.symm h.1)]
    exact congrArg (c::·) (ih h.2)

/-- A word as it is put into a line: bare or in quotes. -/
inductive Arg
  | bare (text : Text)
  | quoted (text : Text)

namespace Arg

def spelling : Arg → Text
  | .bare text => text
  | .quoted text => quote text

def value : Arg → Text
  | .bare text | .quoted text => text

def word : Arg → Word
  | .bare text => text.map .plain
  | .quoted text => text.map .quoted

/-- A bare word has at least one character, and none that the shell looks at. -/
def isSound : Arg → Bool
  | .bare text => !text.isEmpty && text.all isBare
  | .quoted _ => true

theorem spells {a : Arg} (h : a.isSound) : Spells a.spelling a.word := by
  cases a with
  | bare text =>
    rw [isSound,Bool.and_eq_true] at h
    refine spells_bare ?_ h.2
    rintro rfl
    cases h.1
  | quoted text => exact spells_quote text

theorem fields_word (env : Word → List Text) {a : Arg} (h : a.isSound) : fields env a.word = [a.value] := by
  cases a with
  | bare text =>
    rw [isSound,Bool.and_eq_true] at h
    exact fields_bare env h.2
  | quoted text => exact fields_quoted env text

end Arg

/-- A line of sound words is one simple command with their values, if it begins with a name. -/
theorem read_args (env : Word → List Text) {args : List Arg} (h : ∀ a ∈ args, a.isSound) (hne : args ≠ [])
    (hname : ∀ a ∈ args.head?, isSpecial a.word = false) :
    read env ([' '].intercalate (args.map Arg.spelling)) = some [(args.map Arg.value,[])] := by
  have hspells : List.Forall₂ Spells (args.map Arg.spelling) (args.map Arg.word) := by
    refine List.forall₂_map_left_iff.mpr (List.forall₂_map_right_iff.mpr (List.forall₂_same.mpr ?_))
    exact fun a ha => Arg.spells (h a ha)
  have hfields : (args.map Arg.word).flatMap (fields env) = args.map Arg.value := by
    rw [flatMap_map]
    refine (flatMap_congr fun a ha => Arg.fields_word env (h a ha)).trans ?_
    exact flatMap_pure_eq_map Arg.value args
  cases args with
  | nil => exact absurd rfl hne
  | cons a args =>
    have hread := read_line env hspells (hname a rfl)
    rw [← map_cons,hfields] at hread
    exact hread

end AdbShare.Shell
