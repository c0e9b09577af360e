import Cartridge.Entries
import Cartridge.Failure
import Cartridge.Text.Blank
import Cartridge.Text.Search

/-!
# Environment files

Files that set variables besides those of the environment. How such a file is read is left open: all
that is used of a reader is that it goes by the text and by the variables that are set, and leaves these as they
are.

The plain reader takes variables written one to a line: a name, an equals sign and a value. The
value may stand in quotes, and then may have several lines; unquoted it ends before a comment. A
line that cannot be read is passed over. In a value, `$` with a name in braces stands for another
variable.

* `get?_extend_of_has`: a variable that is already set keeps its value.
-/

namespace Cartridge

/-- The variables that are set. -/
abbrev Environment := Entries String

namespace EnvFile

/-- A way to read environment files: the variables that are set once a text was read, where some are
set already, or why they cannot be. A variable that is set already keeps its value. -/
class Reader where
  extend : Environment → String → Except Fault Environment
  keeps {env env' : Environment} {text name : String} :
    extend env text = .ok env' → env.has name → env'.get? name = env.get? name

/-! ## The plain reader -/

/-- What a statement sets: a name, and a value unless the name stands alone. -/
abbrev Binding := String × Option String

/-- Blanks within a line. -/
def isSpace (c : Char) : Bool := Text.isBlank c && c ≠ '\n' && c ≠ '\r'

def endsLine (c : Char) : Bool := c = '\n' || c = '\r'

/-- The text after blanks within the line. -/
def skipSpace (cs : List Char) : List Char := cs.dropWhile isSpace

/-- The text after the end of the line. -/
def skipLine (cs : List Char) : List Char :=
  match cs.dropWhile (!endsLine ·) with
  | '\r' :: '\n' :: rest => rest
  | _ :: rest => rest
  | [] => []

/-- A value up to its closing quote, and the text after the quote: the first quote that has no
backslash before it, or else the last quote. -/
def quoted (quote : Char) : List Char → Option (List Char × List Char)
  | [] => none
  | c :: rest =>
    if c = quote then some ([], rest)
    else if c = '\\' && rest.head? = some quote then
      match quoted quote rest.tail with
      | some (value, after) => some (c :: quote :: value, after)
      | none => some ([c], rest.tail)
    else (quoted quote rest).map fun (value, after) => (c :: value, after)
termination_by cs => cs.length
decreasing_by all_goals (simp; try omega)

/-- The character for which a letter after a backslash stands, between double quotes. -/
def escape? : Char → Option Char
  | '\\' => some '\\'
  | '\'' => some '\''
  | '"' => some '"'
  | 'a' => some '\x07'
  | 'b' => some '\x08'
  | 'f' => some '\x0c'
  | 'n' => some '\n'
  | 'r' => some '\r'
  | 't' => some '\t'
  | 'v' => some '\x0b'
  | _ => none

/-- The character for which a letter after a backslash stands, between single quotes. -/
def plainEscape? (c : Char) : Option Char := if c = '\\' || c = '\'' then some c else none

/-- A value with its escapes resolved; `pending` tells whether a backslash stands before. -/
def unescape (known : Char → Option Char) : Bool → List Char → List Char
  | false, [] => []
  | true, [] => ['\\']
  | false, c :: rest =>
    if c = '\\' then unescape known true rest else c :: unescape known false rest
  | true, c :: rest =>
    match known c with
    | some d => d :: unescape known false rest
    | none => '\\' :: c :: unescape known false rest

/-- An unquoted value without a comment that stands after a blank, and without blanks at its
end. -/
def plainValue : List Char → List Char
  | [] => []
  | c :: rest =>
    if isSpace c && (rest.dropWhile isSpace).head? = some '#' then []
    else
      let more := plainValue rest
      if more.isEmpty && isSpace c then [] else c :: more

def value? : List Char → Option (List Char × List Char)
  | '\'' :: rest => (quoted '\'' rest).map fun (v, after) => (unescape plainEscape? false v, after)
  | '"' :: rest => (quoted '"' rest).map fun (v, after) => (unescape escape? false v, after)
  | cs => some (plainValue (cs.takeWhile (!endsLine ·)), cs.dropWhile (!endsLine ·))

/-- The text after the word that may open a statement. -/
def skipExport (cs : List Char) : List Char :=
  let word := "export".toList
  let rest := cs.drop word.length
  if word.isPrefixOf cs && rest.head?.any isSpace then skipSpace rest else cs

/-- A name and the text after it; nothing where a comment begins. -/
def name? : List Char → Option (Option (List Char) × List Char)
  | '#' :: rest => some (none, '#' :: rest)
  | '\'' :: rest =>
    match rest.span (· ≠ '\'') with
    | (c :: name, _ :: after) => some (some (c :: name), after)
    | _ => none
  | cs =>
    match cs.span fun c => c ≠ '=' && c ≠ '#' && !Text.isBlank c with
    | ([], _) => none
    | (name, after) => some (some name, after)

/-- The text after what may stand behind a statement on its line. -/
def lineEnd? (cs : List Char) : Option (List Char) :=
  let cs := skipSpace cs
  let cs := if cs.head? = some '#' then cs.dropWhile (!endsLine ·) else cs
  if cs.isEmpty || cs.head?.any endsLine then some (skipLine cs) else none

/-- The outcome of reading a statement: what it sets, and the text after it or, if the statement
cannot be read, the text from where reading stopped. -/
def statement (cs : List Char) : Except (List Char) (Option Binding × List Char) := do
  let cs := skipExport cs
  match name? cs with
  | none => .error cs
  | some (name, cs) =>
    let cs := skipSpace cs
    let (value, cs) ← match cs with
      | '=' :: rest =>
        let rest := skipSpace rest
        match value? rest with
        | some (v, after) => Except.ok (some (String.ofList v), after)
        | none => .error rest
      | cs => .ok (none, cs)
    match lineEnd? cs with
    | none => .error cs
    | some rest => return (name.map fun n => (.ofList n, value), rest)

/-- The bindings of a text, at most `fuel` of its statements. -/
def statements : Nat → List Char → List Binding
  | 0, _ => []
  | fuel + 1, cs =>
    match cs.dropWhile Text.isBlank with
    | [] => []
    | cs =>
      match statement cs with
      | .error rest => statements fuel (skipLine rest)
      | .ok (b, rest) => b.toList ++ statements fuel rest

/-- What a text sets, as it is written. Every statement takes a character at least. -/
def bindings (text : String) : List Binding := statements text.length text.toList

/-! ## Values of variables in values -/

/-- A name in braces after a dollar sign, the value to take where the name is not set, and the text
after the braces. -/
def mention? (cs : List Char) : Option (List Char × List Char × List Char) :=
  match cs with
  | '$' :: '\x7b' :: rest =>
    match rest.span fun c => c ≠ '\x7d' && c ≠ ':' with
    | (name, '\x7d' :: after) => some (name, [], after)
    | (name, ':' :: '-' :: more) =>
      match more.span (· ≠ '\x7d') with
      | (default, '\x7d' :: after) => some (name, default, after)
      | _ => none
    | _ => none
  | _ => none

/-- A value with the variables that it mentions replaced, at most `fuel` characters of it. -/
def resolve (known : String → Option String) : Nat → List Char → List Char
  | 0, cs => cs
  | _, [] => []
  | fuel + 1, c :: rest =>
    match mention? (c :: rest) with
    | some (name, default, after) =>
      ((known (.ofList name)).getD (.ofList default)).toList ++ resolve known fuel after
    | none => c :: resolve known fuel rest

/-- What a value mentions, where a name without a value is the empty text. -/
def lookUp (env : Environment) (set : Entries (Option String)) (name : String) : Option String :=
  match env.get? name with
  | some value => some value
  | none => (set.get? name).map (·.getD "")

/-- What the bindings set, each value with the variables before it resolved. -/
def resolved (env : Environment) (bindings : List Binding) : Entries (Option String) :=
  bindings.foldl (fun set (name, value) =>
    set.put name (value.map fun v =>
      .ofList (resolve (lookUp env set) v.length v.toList))) []

/-- Whether the environment has no place for a variable: its name has an equals sign, or a null
character stands in it or in its value. -/
def unfit (name value : String) : Bool :=
  Text.contains name "=" || Text.contains name "\x00" || Text.contains value "\x00"

/-- The environment with one more variable, unless it is set already. -/
def assign (env : Environment) (b : Binding) : Except Fault Environment :=
  match b.2 with
  | none => .ok env
  | some value =>
    if env.has b.1 then .ok env
    else if unfit b.1 value then .error .unfitText
    else .ok (env.put b.1 value)

/-- The environment with what a text sets besides. -/
def extend (env : Environment) (text : String) : Except Fault Environment :=
  (resolved env (bindings text)).foldlM assign env

theorem get?_assign_of_has {env env' : Environment} {name : String} {b : Binding}
    (h : env.has name) (ha : assign env b = .ok env') : env'.get? name = env.get? name := by
  obtain ⟨n, value⟩ := b
  cases value with
  | none =>
    simp only [assign, Except.ok.injEq] at ha
    rw [ha]
  | some v =>
    by_cases hn : env.has n
    · simp only [assign, hn, if_true, Except.ok.injEq] at ha
      rw [ha]
    · have hne : name ≠ n := fun e => hn (e ▸ h)
      by_cases hu : unfit n v
      · simp [assign, hn, hu] at ha
      · simp only [assign, hn, hu, Bool.false_eq_true, if_false, Except.ok.injEq] at ha
        rw [← ha]
        exact Entries.get?_put_of_ne env v hne

/-- A variable that is already set keeps its value, whatever the text sets. -/
theorem get?_extend_of_has {env env' : Environment} {text name : String}
    (h : extend env text = .ok env') (hname : env.has name) : env'.get? name = env.get? name := by
  unfold extend at h
  generalize resolved env (bindings text) = set at h
  induction set generalizing env with
  | nil =>
    cases h
    rfl
  | cons b rest ih =>
    rw [List.foldlM_cons] at h
    cases hb : assign env b with
    | error fault =>
      rw [hb] at h
      cases h
    | ok middle =>
      rw [hb] at h
      have hkept := get?_assign_of_has hname hb
      have hmiddle : middle.has name := by rwa [Entries.has, hkept]
      exact (ih hmiddle h).trans hkept

/-- The plain reader, which is meant where none is named. -/
instance plain : Reader := ⟨extend, get?_extend_of_has⟩

end EnvFile

end Cartridge
