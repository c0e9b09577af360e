import Cartridge.Path
import Cartridge.Project.Basic
import Cartridge.Target
import Cartridge.Text.Blank

/-!
# Schema of a project

The types, functions and variables that the files of a project declare, file by file and for the
project as a whole, and what a single chunk has to know of them.
-/

namespace Cartridge.Source

open Pattern (exactly inOrder oneOf optional)

/-- How a type is declared. -/
inductive TypeForm where
  | interface
  | alias
  deriving DecidableEq, Repr

def TypeForm.word : TypeForm → String
  | .interface => "interface"
  | .alias => "type"

/-- A declared type. -/
structure TypeDeclaration where
  name : String
  form : TypeForm
  definition : String
  /-- The path of the declaring file. -/
  path : String
  deriving DecidableEq, Repr

/-- A declared function. -/
structure Signature where
  name : String
  parameters : String
  result : String
  /-- The path of the declaring file. -/
  path : String
  exported : Bool
  deriving DecidableEq, Repr

/-- What a file declares. -/
structure Declarations where
  types : Entries TypeDeclaration := []
  functions : Entries Signature := []
  bindings : Entries String := []
  imports : List Import := []
  exports : List String := []
  deriving DecidableEq, Repr

/-- Whether a character is no brace. -/
def notBrace (c : Char) : Bool := c ≠ '\x7b' && c ≠ '\x7d'

/-- An interface; its name is group 1 and its body group 2. The body may hold braces one level
deep. -/
def interfaceDeclaration : Pattern :=
  inOrder
    [exactly "interface", blanks, .group 1 name, optionalBlanks, exactly "\x7b",
     .group 2
       (.next (.many notBrace 0)
         (.again
           (inOrder
             [exactly "\x7b", .many notBrace 0, exactly "\x7d", .many notBrace 0]))),
     exactly "\x7d"]

/-- A type alias; its name is group 1 and its definition group 2. -/
def typeAlias : Pattern :=
  inOrder
    [exactly "type", blanks, .group 1 name, optionalBlanks, exactly "=", optionalBlanks,
     .group 2 (.many (fun c => c ≠ ';' && c ≠ '\n') 1)]

/-- A name with parameters and a result type, as groups 1, 2 and 3. -/
def signature : Pattern :=
  inOrder
    [.group 1 name, optionalBlanks, exactly "(", .group 2 (.many (· ≠ ')') 0), exactly ")",
     optionalBlanks, optional (exactly ":"), optionalBlanks,
     .group 3 (.many (fun c => c ≠ '\x7b' && c ≠ ';' && c ≠ '\n') 0)]

/-- A word and white space, or nothing. -/
def modifier (word : String) : Pattern := optional (.next (exactly word) blanks)

def functionDeclaration : Pattern :=
  inOrder [modifier "export", modifier "async", exactly "function", blanks, signature]

/-- A method, or anything else that reads like one. -/
def methodDeclaration : Pattern :=
  inOrder
    [optional (oneOf (["public", "private", "protected"].map exactly)), optionalBlanks,
     modifier "async", signature]

/-- A variable; its name is group 1 and its type group 2. -/
def variableDeclaration : Pattern :=
  inOrder
    [modifier "export", oneOf (["const", "let", "var"].map exactly), blanks, .group 1 name,
     optionalBlanks, optional (exactly ":"), optionalBlanks,
     .group 2 (.many (fun c => c ≠ '=' && c ≠ ';' && c ≠ '\n') 0)]

/-- Words that look like the name of a method. -/
def notMethods : List String :=
  ["constructor", "if", "for", "while", "switch", "function", "catch", "return"]

/-- A group without the white space around it. -/
def trimmed (found : Pattern.Found) (group : Nat) : String :=
  .ofList (Text.strip (found.group group))

/-- A text, or another where it is empty. -/
def orElse (s default : String) : String := if s = "" then default else s

/-- The signature that was found, for the file with the given path. -/
def signatureOf (path : String) (exported : Bool) (found : Pattern.Found) : Signature :=
  { name := found.groupString 1
    parameters := trimmed found 2
    result := orElse (trimmed found 3) "void"
    path
    exported }

/-- The types of a file: interfaces that are not empty, then aliases. -/
def declaredTypes (path : String) (cs : List Char) : Entries TypeDeclaration :=
  let interfaces := (interfaceDeclaration.findAll cs).filterMap fun found =>
    let body := trimmed found 2
    if body = "" then none
    else some ⟨found.groupString 1, .interface, body, path⟩
  let aliases := (typeAlias.findAll cs).map fun found =>
    ⟨found.groupString 1, .alias, trimmed found 2, path⟩
  (interfaces ++ aliases).foldl (fun all (t : TypeDeclaration) => all.put t.name t) []

/-- The functions of a file: declared functions first; then whatever reads like a method and is
neither a word of the language nor known already. -/
def declaredFunctions (path : String) (cs : List Char) : Entries Signature :=
  let functions := (functionDeclaration.findAll cs).foldl
    (fun (all : Entries Signature) found =>
      let exported := Text.occursIn "export".toList found.text
      all.put (found.groupString 1) (signatureOf path exported found)) []
  (methodDeclaration.findAll cs).foldl
    (fun (all : Entries Signature) found =>
      let name := found.groupString 1
      if notMethods.contains name || all.has name then all
      else all.put name (signatureOf path false found)) functions

/-- The variables of a file with their types. -/
def declaredVariables (cs : List Char) : Entries String :=
  (variableDeclaration.findAll cs).foldl
    (fun (all : Entries String) found =>
      all.put (found.groupString 1) (orElse (trimmed found 2) "any")) []

def declarations (f : SourceFile) : Declarations :=
  let cs := f.content.toList
  { types := declaredTypes f.path cs
    functions := declaredFunctions f.path cs
    bindings := declaredVariables cs
    imports := f.imports
    exports := f.exports }

end Cartridge.Source

namespace Cartridge

open Source

/-- What the files of a project declare. -/
structure Schema where
  files : Entries Declarations := []
  /-- The declarations of all files, under the path of the file, a colon and the name. -/
  types : Entries TypeDeclaration := []
  functions : Entries Signature := []
  bindings : Entries String := []
  dependencies : Entries (List String) := []
  summary : String := ""

namespace Schema

/-- The name of a declaration in the whole project. -/
def globalName (path name : String) : String := path ++ ":" ++ name

/-- Sets the declarations of one file in those of the whole project. -/
def putGlobal {α : Type} (path : String) (all own : Entries α) : Entries α :=
  own.foldl (fun all (name, d) => all.put (globalName path name) d) all

/-- Whether a project probably starts in a file. -/
def isEntryPoint (f : SourceFile) : Bool :=
  Text.contains f.path "main" || Text.contains f.path "index" || Text.contains f.content "main("

/-- The number of files that a summary names. -/
def namedModules : Nat := 3

/-- A few lines about a project. -/
def summarize (files : List SourceFile) : String :=
  let lineCount := (files.map fun f => (Text.lines f.content).length).foldr (· + ·) 0
  let entryPoint := ((files.find? isEntryPoint).map (·.path)).getD "unknown"
  let modules := (files.take namedModules).map fun f => (Path.ofString f.path).stem
  "GameBoy TypeScript Project:\n" ++
  "- " ++ toString files.length ++ " TypeScript files (" ++ toString lineCount ++
    " total lines)\n" ++
  "- Entry point: " ++ entryPoint ++ "\n" ++
  "- Key modules: " ++ Text.joined ", " modules ++ "\n" ++
  "- Target: GameBoy ROM using GBDK framework"

def addFile (s : Schema) (f : SourceFile) : Schema :=
  let d := declarations f
  { s with
    files := s.files.put f.path d
    types := putGlobal f.path s.types d.types
    functions := putGlobal f.path s.functions d.functions
    bindings := putGlobal f.path s.bindings d.bindings }

def ofProject (p : Project) : Schema :=
  p.files.foldl addFile { dependencies := p.dependencies, summary := summarize p.files }

/-! ## What a chunk has to know -/

/-- A type of another file, as a chunk is told of it. -/
def typeNote (path name : String) (t : TypeDeclaration) : String :=
  "// From " ++ path ++ "\n" ++
  match t.form with
  | .interface => "interface " ++ name ++ " \x7b " ++ t.definition ++ " \x7d"
  | .alias => "type " ++ name ++ " = " ++ t.definition

/-- A function of another file, as a chunk is told of it. -/
def functionNote (path name : String) (f : Signature) : String :=
  "// From " ++ path ++ "\n" ++ f.result ++ " " ++ name ++ "(" ++ f.parameters ++ ")"

/-- The notes on those declarations of a file that a text mentions. -/
def notes {α : Type} (note : String → α → String) (own : Entries α) (content : String) :
    List String :=
  (own.filter fun (name, _) => Text.contains content name).map fun (name, d) => note name d

/-- The notes on the declarations of the files that a file needs, as far as a text mentions them. -/
def notesFor {α : Type} (s : Schema) (path content : String) (note : String → String → α → String)
    (own : Declarations → Entries α) : List String :=
  ((s.dependencies.get? path).getD []).flatMap fun needed =>
    match s.files.get? needed with
    | some d => notes (note needed) (own d) content
    | none => []

/-- What a chunk of the file with the given path has to know of its project. -/
def chunkSummary (s : Schema) (chunk : Chunk) (path : String) : String :=
  let types := notesFor s path chunk.content typeNote (·.types)
  let functions := notesFor s path chunk.content functionNote (·.functions)
  "\nProject Context:\n" ++ s.summary ++ "\n\n" ++
  "Available Types:\n" ++ Text.joined "\n\n" types ++ "\n\n" ++
  "Available Functions:\n" ++ Text.joined "\n" functions ++ "\n\n" ++
  "Current File: " ++ path ++ "\n" ++
  "Chunk: " ++ chunk.id ++ "\n"

/-- The target for a chunk: the given one with what the chunk has to know of its project, and with
a layout of its own. -/
def chunkTarget (s : Schema) (chunk : Chunk) (f : SourceFile) (t : Target) : Target :=
  { t with
    project := some (s.chunkSummary chunk f.path)
    layout := some
      { zeroPage := if chunk.kind = .function then [chunk.kind.label ++ "_vars"] else []
        workRam := f.exports
        romBank := t.currentBank
        ramBank := (t.layout.getD {}).ramBank } }

end Schema

end Cartridge
