import NumScript.Command.Job

set_option autoImplicit false

/-! # The command line

What the program prints, and its exit status, as a function of its arguments and of the files it may
read. The name `-` stands for standard input. -/

namespace NumScript.Command

/-- What the program prints, and its exit status. -/
structure Output where
  status : Nat := 0
  stdout : String := ""
  stderr : String := ""

/-- What the program can do. -/
inductive Invocation where
  | usage
  | version
  | run (path : String) (dump : Bool) (params : List Float)
  | check (path : String)
  | compute (expr : String) (names : List (String × Float))
  | minify (path : String)

def lines (l : List String) : String :=
  String.join (l.map (· ++ "\n"))

def failure (message : List String) : Output :=
  { status := 1, stderr := lines message }

def usageText : String :=
  lines [
    "klscript CLI",
    "",
    "Usage: kls <command> [options]",
    "",
    "Commands:",
    "  run <file> [--dump] [params...]  Evaluate a script; params feed `pop`",
    "  check <file>                     Validate a script without running it",
    "  calc <expr> [name=value ...]     Evaluate a single expression",
    "  minify <file>                    Strip comments and spare whitespace",
    "  help                             Show this message",
    "  version                          Show version information",
    "",
    "Use `-` as <file> to read from stdin. Set RUST_LOG for tracing output."]

def versionText : String :=
  lines ["kls 0.1.0-alpha.1"]

/-! ## Arguments

A command line is read into an invocation before any file is touched. What is wrong with it is
reported in the same shape as any other output. -/

/-- The arguments of `run`: the first that is no option is the script, the others are numbers. -/
def runArguments (dump : Bool) (path : Option String) (params : List Float) :
    List String → Except Output Invocation
  | [] =>
    match path with
    | some path => .ok (.run path dump params)
    | none =>
      .error (failure [
        "error: missing file path",
        "Usage: kls run <file.kls|-> [--dump] [params...]"])
  | arg :: more =>
    if arg = "--dump" ∨ arg = "-d" then runArguments true path params more
    else if path.isNone then runArguments dump (some arg) params more
    else
      match Number.read? arg.toList with
      | some x => runArguments dump path (params ++ [x]) more
      | none => .error (failure ["error: script parameters must be numbers, found '" ++ arg ++ "'"])

/-- An argument `name=value` of `calc`. -/
def nameValue? (arg : String) : Option (String × Float) :=
  let name := arg.toList.takeWhile (· != '=')
  match arg.toList.dropWhile (· != '=') with
  | [] => none
  | _ :: value =>
    (Number.read? (Text.trim value)).map fun x => (String.ofList (Text.trim name), x)

/-- The names given to `calc`. -/
def calcArguments (expr : String) (names : List (String × Float)) :
    List String → Except Output Invocation
  | [] => .ok (.compute expr names)
  | arg :: more =>
    match nameValue? arg with
    | some entry => calcArguments expr (entry :: names) more
    | none => .error (failure ["error: expected `name=value`, found '" ++ arg ++ "'"])

/-- The arguments of the program. -/
def Invocation.ofArguments : List String → Except Output Invocation
  | [] => .ok .usage
  | command :: args =>
    match command with
    | "run" => runArguments false none [] args
    | "check" =>
      match args with
      | path :: _ => .ok (.check path)
      | [] => .error (failure ["Usage: kls check <file.kls|->"])
    | "calc" =>
      match args with
      | expr :: names => calcArguments expr [] names
      | [] => .error (failure ["Usage: kls calc <expr> [name=value ...]"])
    | "minify" =>
      match args with
      | path :: _ => .ok (.minify path)
      | [] => .error (failure ["Usage: kls minify <file.kls|->"])
    | "help" | "--help" | "-h" => .ok .usage
    | "version" | "--version" | "-V" => .ok .version
    | _ => .error { failure ["Unknown command: " ++ command, ""] with stdout := usageText }

/-- The script a command reads, if it reads one. -/
def Invocation.path? : Invocation → Option String
  | run path _ _ => some path
  | check path => some path
  | minify path => some path
  | _ => none

/-! ## Work

What a command prints is a function of the bytes of its script, so the program itself does nothing
but read and print. -/

def displayName (path : String) : String :=
  if path = "-" then "<stdin>" else path

/-- The text of a script, given its bytes if there are any. -/
def decode (path : String) (bytes : Option ByteArray) : Except Output String :=
  match bytes with
  | none => .error (failure ["cannot find file '" ++ path ++ "'"])
  | some bytes =>
    match String.fromUTF8? bytes with
    | some text => .ok text
    | none => .error (failure ["'" ++ path ++ "' contains invalid UTF-8 data"])

/-- Runs a script and shows what it printed, its result and, if asked to, the variables at the
root. -/
def showRun (steps : Nat) (path : String) (dump : Bool) (params : List Float) (source : String) :
    Option Output :=
  let (ending, i) := runSource steps source params
  let printed := i.machine.world.state.reverse
  match ending with
  | .outOfSteps => none
  | .failed e =>
    some
      { status := 1
        stdout := lines printed
        stderr := lines [(e.diagnostic source i.lastPosition).render (displayName path)] }
  | .finished =>
    let result := (i.machine.lastReturn.map fun x => "=> " ++ Number.plain x).toList
    let shown := i.machine.world.root.entries.map fun (name, v) =>
      name ++ " = " ++ v.render i.machine.world.cells
    some { stdout := lines (printed ++ result ++ (if dump then shown else [])) }

/-- What a command prints, given the bytes of its script. Nothing if the script does not end within
the given number of steps. -/
def Invocation.output? (command : Invocation) (steps : Nat) (bytes : Option ByteArray) : Option Output :=
  match command with
  | .usage => some { stdout := usageText }
  | .version => some { stdout := versionText }
  | .compute expr names =>
    match computeExpression (names.lookup ·) expr with
    | .ok x => some { stdout := lines [Number.plain x] }
    | .error d => some (failure [d.render "<expr>"])
  | .check path =>
    match decode path bytes with
    | .error output => some output
    | .ok source =>
      match checkSource source with
      | some d => some (failure [d.render (displayName path)])
      | none => some { stdout := lines ["ok"] }
  | .minify path =>
    match decode path bytes with
    | .error output => some output
    | .ok source => some { stdout := lines [String.ofList (Script.minify source.toList)] }
  | .run path dump params =>
    match decode path bytes with
    | .error output => some output
    | .ok source => showRun steps path dump params source

/-- What the program prints, given its arguments and a way to read its files. -/
def output? (steps : Nat) (read : String → Option ByteArray) (args : List String) : Option Output :=
  match Invocation.ofArguments args with
  | .error output => some output
  | .ok command => command.output? steps (command.path?.bind read)

end NumScript.Command
