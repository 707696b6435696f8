import ListLang.Program

/-!
# The command line

The arguments are read one after the other, and the first one that settles the matter
does: a wrong argument, or the wish to see the version or the usage. Whether the flags
fit together and whether there is a program is known only behind the last argument.

## Main definitions

* `CommandLine.Request` — what the arguments ask for.
* `CommandLine.Request.ofArgs` — the request that arguments make.
* `CommandLine.respond` — the output and exit code for arguments.
-/

namespace ListLang.CommandLine

/-- What is shown of a program, and whether its text is in a file. -/
structure Options where
  file : Bool
  tokens : Bool
  ast : Bool
  deriving DecidableEq, Repr, Inhabited

/-- The options by name. -/
inductive Flag where
  | file
  | tokens
  | ast
  deriving DecidableEq, Repr

/-- What the arguments read so far give. -/
structure Arguments where
  options : Options
  contents : Option String
  deriving DecidableEq, Repr, Inhabited

/-- What the arguments ask for. -/
inductive Request where
  | run (options : Options) (contents : String)
  | version
  | help
  | wrongUsage
  deriving DecidableEq, Repr, Inhabited

/-- Sets an option that is not set yet. -/
def Options.set? (o : Options) : Flag → Option Options
  | .file => if o.file then none else some { o with file := true }
  | .tokens => if o.tokens then none else some { o with tokens := true }
  | .ast => if o.ast then none else some { o with ast := true }

namespace Arguments

/-- No option and no contents. -/
def initial : Arguments := ⟨⟨false, false, false⟩, none⟩

/-- Sets an option that is not set yet. -/
def set? (a : Arguments) (flag : Flag) : Option Arguments :=
  (a.options.set? flag).map fun options => { a with options }

/-- Gives the contents unless they are given already. -/
def give? (a : Arguments) (contents : String) : Option Arguments :=
  if a.contents.isSome then none else some { a with contents := some contents }

/-- The request of arguments to which none will be added. -/
def request (a : Arguments) : Request :=
  match a.contents with
  | some contents =>
    if a.options.tokens && a.options.ast then .wrongUsage else .run a.options contents
  | none => .wrongUsage

end Arguments

/-- What a flag does: it sets an option or it is a request of its own. -/
inductive Effect where
  | set (flag : Flag)
  | request (r : Request)
  deriving DecidableEq, Repr

/-- The flag written with one letter. -/
def Effect.ofLetter : Char → Effect
  | 'f' => .set .file
  | 't' => .set .tokens
  | 'a' => .set .ast
  | 'V' => .request .version
  | 'h' => .request .help
  | _ => .request .wrongUsage

/-- The flag written out. -/
def Effect.ofName : String → Effect
  | "file" => .set .file
  | "tokens" => .set .tokens
  | "ast" => .set .ast
  | "version" => .request .version
  | "help" => .request .help
  | _ => .request .wrongUsage

/-- Adds flags one after the other, up to one that is a request or already set. -/
def addFlags (a : Arguments) : List Effect → Except Request Arguments
  | [] => .ok a
  | .request r :: _ => .error r
  | .set flag :: rest => match a.set? flag with
    | some a => addFlags a rest
    | none => .error .wrongUsage

/-- The flags that an argument writes, or `none` if it is no flag. -/
def flags? (arg : String) : Option (List Effect) :=
  match arg.toList with
  | '-' :: '-' :: name => some [.ofName (String.ofList name)]
  | '-' :: c :: letters => some ((c :: letters).map .ofLetter)
  | _ => none

/-- Adds the arguments behind a `--`, none of which is a flag. -/
def addContents (a : Arguments) : List String → Request
  | [] => a.request
  | arg :: rest => match a.give? arg with
    | some a => addContents a rest
    | none => .wrongUsage

/-- Adds arguments to those read so far. -/
def addArgs (a : Arguments) : List String → Request
  | [] => a.request
  | "--" :: rest => addContents a rest
  | arg :: rest => match flags? arg with
    | some flags => match addFlags a flags with
      | .ok a => addArgs a rest
      | .error r => r
    | none => match a.give? arg with
      | some a => addArgs a rest
      | none => .wrongUsage

/-- The request that arguments make. -/
def Request.ofArgs (args : List String) : Request := addArgs .initial args

/-- The file that has to be read for a request. -/
def Request.path? : Request → Option String
  | .run options contents => if options.file then some contents else none
  | _ => none

/-- What a run of the program writes, and its exit code. -/
structure Output where
  exitCode : Nat
  out : String
  err : String
  deriving DecidableEq, Repr, Inhabited

namespace Output

/-- A success that writes `text`. -/
def success (text : String) : Output := ⟨0, text ++ "\n", ""⟩

/-- A failure with a message. -/
def failure (message : String) : Output := ⟨1, "", message ++ "\n"⟩

end Output

/-- How the program is called. -/
def usage : String := "Usage: lamb [--file] [--tokens | --ast] [--] <CONTENTS>"

/-- Fills a number with blanks on its left, up to four columns. -/
def column (n : Nat) : String :=
  let digits := toString n
  "".pushn ' ' (4 - digits.length) ++ digits

/-- A token on a line of its own, behind its line number. -/
def tokenLine (t : Located Token) : String := column t.line ++ "  " ++ t.item.text ++ "\n"

/-- What is shown of a program. -/
def present (options : Options) (source : String) : Output :=
  if options.tokens then
    match tokenize source with
    | .ok tokens => ⟨0, String.join (tokens.map tokenLine), ""⟩
    | .error e => .failure e.message
  else if options.ast then
    match parse source with
    | .ok e => .success e.outline.block
    | .error e => .failure e.message
  else
    match evaluate depthLimit source with
    | .ok v => .success v.text
    | .error e => .failure e.message

/-- The answer to a request, with `read` for the text of the file at a path. -/
def Request.answer (read : String → Option String) (request : Request) : Output :=
  match request with
  | .wrongUsage => ⟨2, "", usage ++ "\n"⟩
  | .help => .success usage
  | .version => .success "lamb 0.1.0"
  | .run options contents =>
    if options.file then
      match read contents with
      | some source => present options source
      | none => .failure ("Failed to read the input file '" ++ contents ++
          "'. Perhaps this file does not exist?")
    else present options contents

/-- The output and exit code for arguments, with `read` for the text of the file at a
path. -/
def respond (read : String → Option String) (args : List String) : Output :=
  (Request.ofArgs args).answer read

end ListLang.CommandLine
