import FileQuery.Settings

/-!
The arguments of `fq [--log-level L] check|tokens|reductions [QUERY]`, and the request they make.
Options may stand before or behind the query; behind `--` everything is an operand.
-/

namespace FileQuery.CommandLine

/-- An argument by its form. A lone hyphen is an operand. -/
inductive Argument where
  | long (name : String) (value : Option String)
  | short (flags : List Char)
  | operand (text : String)
deriving DecidableEq

/-- Two hyphens make a long option, with a value behind the first equals sign; one hyphen makes a
group of short flags. -/
def Argument.ofString (s : String) : Argument :=
  match s.toList with
  | '-' :: '-' :: cs =>
      let name := cs.takeWhile (· != '=')
      let value :=
        match cs.dropWhile (· != '=') with
        | _ :: value => some (String.ofList value)
        | [] => none
      .long (String.ofList name) value
  | '-' :: c :: cs => .short (c :: cs)
  | _ => .operand s

/-- The three commands. -/
inductive CommandName where
  | check
  | tokens
  | reductions
deriving DecidableEq

def CommandName.ofString? (s : String) : Option CommandName :=
  [("check", check), ("tokens", tokens), ("reductions", reductions)].lookup s

/-- A command with its options and, if the arguments hold one, its query. -/
structure Invocation where
  command : CommandName
  logLevel : Option LogLevel := none
  query : Option String := none
  pretty : Bool := false
  syntaxOnly : Bool := false
  canonical : Bool := false
deriving DecidableEq

/-- What the arguments ask for. -/
inductive Request where
  | version
  | invoke (i : Invocation)
deriving DecidableEq

/-- A log level may be given once on each side of the command's name. -/
def setLevel (level : Option LogLevel) (value : String) : Option LogLevel :=
  match level with
  | some _ => none
  | none => (LogLevel.ofString value).toOption

namespace Invocation

/-- There is one query at most. -/
def setQuery (i : Invocation) (text : String) : Option Invocation :=
  if i.query.isSome then none else some { i with query := some text }

/-- Only a check takes flags, and each of them once. -/
def setFlag (i : Invocation) (name : String) : Option Invocation :=
  if i.command != .check then none
  else if name == "pretty" && !i.pretty then some { i with pretty := true }
  else if name == "syntax-only" && !i.syntaxOnly then some { i with syntaxOnly := true }
  else if name == "canonical" && !i.canonical then some { i with canonical := true }
  else none

def setShortFlag (i : Invocation) (c : Char) : Option Invocation :=
  if c == 'p' then i.setFlag "pretty" else none

/-- The log level, given behind the command's name. -/
def setLogLevel (i : Invocation) (value : String) : Option Invocation :=
  (setLevel i.logLevel value).map fun level => { i with logLevel := some level }

/-- The canonical text has no indented form. -/
def finish (i : Invocation) : Option Invocation :=
  if i.pretty && i.canonical then none else some i

/-- Take the arguments behind the command's name; `none` if they do not fit it. -/
def take (i : Invocation) : List String → Option Invocation
  | [] => i.finish
  | a :: rest =>
      if a == "--" then (rest.foldlM setQuery i).bind finish
      else
        match Argument.ofString a with
        | .operand text => (i.setQuery text).bind fun i => i.take rest
        | .short flags => (flags.foldlM setShortFlag i).bind fun i => i.take rest
        | .long "log-level" (some value) => (i.setLogLevel value).bind fun i => i.take rest
        | .long "log-level" none =>
            match rest with
            | value :: rest => (i.setLogLevel value).bind fun i => i.take rest
            | [] => none
        | .long name none => (i.setFlag name).bind fun i => i.take rest
        | .long _ (some _) => none

end Invocation

/-- The request that the arguments make; `none` if they make none. A level given behind the
command's name replaces one given before it. -/
def Request.ofArguments (level : Option LogLevel) : List String → Option Request
  | [] => none
  | a :: rest =>
      match CommandName.ofString? a with
      | some command =>
          (({ command := command } : Invocation).take rest).map fun i =>
            .invoke { i with logLevel := i.logLevel.or level }
      | none =>
          match Argument.ofString a with
          | .long "version" none => some .version
          | .short ('V' :: _) => some .version
          | .long "log-level" (some value) =>
              (setLevel level value).bind fun level => ofArguments (some level) rest
          | .long "log-level" none =>
              match rest with
              | value :: rest =>
                  (setLevel level value).bind fun level => ofArguments (some level) rest
              | [] => none
          | _ => none

end FileQuery.CommandLine
