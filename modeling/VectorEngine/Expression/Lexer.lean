/-
From text to tokens.

Blanks separate tokens and are otherwise skipped. A name directly followed by a
parenthesis takes its argument with it as text, up to the parenthesis that
closes it; bracketed, braced and quoted text is taken whole in the same way.
-/
import VectorEngine.Expression.Token
import VectorEngine.Number.Decimal
import VectorEngine.Text.Blank

namespace VectorEngine.Lexer

def isNameStart (c : Char) : Bool := Text.isAlphabetic c || c == '_' || c == ':'

def isNameChar (c : Char) : Bool := Text.isAlphanumeric c || c == '_' || c == ':' || c == '.'

/-- A text that reads as one name. -/
def isName (text : String) : Bool :=
  match text.toList with
  | [] => false
  | c :: cs => isNameStart c && cs.all isNameChar

def isNumberStart (c : Char) : Bool := c.isDigit || c == '.'

def isExponentMark (c : Char) : Bool := c == 'e' || c == 'E'

/-- The text of a group whose opening delimiter has been read, and what follows
its closing one. `depth` groups of the same kind are open inside it; a
delimiter that opens and closes alike does not nest. -/
def group (opening closing : Char) : Nat → List Char → Option (List Char × List Char)
  | _, [] => none
  | depth, c :: rest =>
    let inside (depth : Nat) := (group opening closing depth rest).map fun (text, after) => (c :: text, after)
    if c = opening ∧ opening ≠ closing then inside (depth + 1)
    else if c ≠ closing then inside depth
    else match depth with
      | 0 => some ([], rest)
      | depth + 1 => inside depth

theorem group_shorter {opening closing : Char} {depth : Nat} {cs text rest : List Char}
    (h : group opening closing depth cs = some (text, rest)) : rest.length < cs.length := by
  induction cs generalizing depth text rest with
  | nil => simp [group] at h
  | cons c cs ih =>
    have inside {d t r} (hd : (group opening closing d cs).map (fun (t, a) => (c :: t, a)) = some (t, r)) :
        r.length < (c :: cs).length := by
      obtain ⟨⟨t', r'⟩, hg, he⟩ := Option.map_eq_some_iff.mp hd
      cases he
      have := ih hg
      simp only [List.length_cons]; omega
    simp only [group] at h
    split at h
    · exact inside h
    · split at h
      · exact inside h
      · split at h
        · cases h; simp
        · exact inside h

/-- The characters of a number after `previous`: digits, points and exponent
marks, and a sign directly after an exponent mark. -/
def numberTail (previous : Char) : List Char → List Char × List Char
  | [] => ([], [])
  | c :: rest =>
    if isNumberStart c || isExponentMark c || ((c == '+' || c == '-') && isExponentMark previous) then
      let (text, after) := numberTail c rest
      (c :: text, after)
    else
      ([], c :: rest)

theorem numberTail_shorter (previous : Char) (cs : List Char) : (numberTail previous cs).2.length ≤ cs.length := by
  induction cs generalizing previous with
  | nil => simp [numberTail]
  | cons c cs ih =>
    simp only [numberTail]
    split
    · have := ih c
      simp only [List.length_cons]; omega
    · simp

/-- The operator or parenthesis at the front, the longest one that fits. -/
def symbol? : List Char → Option (Token × List Char)
  | '&' :: '&' :: rest => some (.op .and, rest)
  | '|' :: '|' :: rest => some (.op .or, rest)
  | '=' :: '=' :: rest => some (.op .equal, rest)
  | '!' :: '=' :: rest => some (.op .notEqual, rest)
  | '<' :: '=' :: rest => some (.op .lessEq, rest)
  | '>' :: '=' :: rest => some (.op .greaterEq, rest)
  | '<' :: '<' :: rest => some (.op .shiftLeft, rest)
  | '>' :: '>' :: rest => some (.op .shiftRight, rest)
  | '+' :: rest => some (.op .add, rest)
  | '-' :: rest => some (.op .sub, rest)
  | '*' :: rest => some (.op .mul, rest)
  | '/' :: rest => some (.op .div, rest)
  | '%' :: rest => some (.op .mod, rest)
  | '^' :: rest => some (.op .pow, rest)
  | '<' :: rest => some (.op .less, rest)
  | '>' :: rest => some (.op .greater, rest)
  | '!' :: rest => some (.not, rest)
  | '(' :: rest => some (.opening, rest)
  | ')' :: rest => some (.closing, rest)
  | _ => none

theorem symbol?_shorter {cs rest : List Char} {t : Token} (h : symbol? cs = some (t, rest)) :
    rest.length < cs.length := by
  unfold symbol? at h
  split at h <;> first
    | (simp only [Option.some.injEq, Prod.mk.injEq] at h
       obtain ⟨-, rfl⟩ := h
       simp only [List.length_cons]; omega)
    | cases h

/-- A token, and the characters after it, which are fewer than `cs`. -/
structure Lexed (cs : List Char) where
  token : Token
  rest : List Char
  shorter : rest.length < cs.length

/-- A group opened by the first of `cs`. -/
def lexGroup (opening closing : Char) (delimiter : String) (token : String → Token) (c : Char) (cs : List Char) :
    Except SyntaxError (Lexed (c :: cs)) :=
  match h : group opening closing 0 cs with
  | some (text, rest) =>
    .ok ⟨token (String.ofList text), rest, by
      have := group_shorter h
      simp only [List.length_cons]; omega⟩
  | none => .error (.unclosed delimiter)

/-- A number starting with `c`. -/
def lexNumber (c : Char) (cs : List Char) : Except SyntaxError (Lexed (c :: cs)) :=
  let text := c :: (numberTail c cs).1
  match Decimal.readFloat? text with
  | some x =>
    .ok ⟨.number x, (numberTail c cs).2, by
      have := numberTail_shorter c cs
      simp only [List.length_cons]; omega⟩
  | none => .error (.badNumber (String.ofList text))

theorem dropWhile_shorter (p : Char → Bool) (cs : List Char) : (cs.dropWhile p).length ≤ cs.length := by
  have := congrArg List.length (List.takeWhile_append_dropWhile (p := p) (l := cs))
  simp only [List.length_append] at this
  omega

/-- A name starting with `c`, with the argument that follows it directly. -/
def lexName (c : Char) (cs : List Char) : Except SyntaxError (Lexed (c :: cs)) :=
  let name := String.ofList (c :: cs.takeWhile isNameChar)
  match h : cs.dropWhile isNameChar with
  | '(' :: after =>
    match hg : group '(' ')' 0 after with
    | some (args, rest) =>
      .ok ⟨.call name (String.ofList args), rest, by
        have h1 := group_shorter hg
        have h2 := dropWhile_shorter isNameChar cs
        rw [h] at h2
        simp only [List.length_cons] at h2 ⊢; omega⟩
    | none => .error (.unclosed ")")
  | rest =>
    .ok ⟨.name name, rest, by
      have := dropWhile_shorter isNameChar cs
      rw [h] at this
      simp only [List.length_cons]; omega⟩

/-- The token at the front of a text that starts with the non-blank `c`. -/
def next (c : Char) (cs : List Char) : Except SyntaxError (Lexed (c :: cs)) :=
  match h : symbol? (c :: cs) with
  | some (token, rest) => .ok ⟨token, rest, symbol?_shorter h⟩
  | none =>
    if c = '[' then lexGroup '[' ']' "]" .script c cs
    else if c = '\x7b' then lexGroup '\x7b' '\x7d' "\x7d" .braced c cs
    else if c = '"' then lexGroup '"' '"' "quote" .quoted c cs
    else if isNumberStart c then lexNumber c cs
    else if isNameStart c then lexName c cs
    else .error (.strayCharacter c)

/-- The tokens of a text. -/
def tokens : List Char → Except SyntaxError (List Token)
  | [] => .ok []
  | c :: cs =>
    if Text.isSpace c then tokens cs
    else do
      let lexed ← next c cs
      return lexed.token :: (← tokens lexed.rest)
termination_by cs => cs.length
decreasing_by
  · simp
  · exact lexed.shorter

def tokenize (text : String) : Except SyntaxError (List Token) := tokens text.toList

end VectorEngine.Lexer
