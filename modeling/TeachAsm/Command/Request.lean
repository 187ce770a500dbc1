import TeachAsm.Text.Decimal
/-!
# Command line arguments

Arguments are cut into tokens first, and tokens are then taken from left to
right. The first token that asks for the version or for help decides the
request, and so does the first mistake; only when there is neither, the
path, the limit and the wish for quiet make up an invocation. A program has
one path, which is not empty, and each option is given at most once.
-/

namespace TeachAsm

/-- How a program is to be run. -/
structure Invocation where
  path : Text
  /-- The number of steps after which to give up. -/
  limit : Option Nat := none
  /-- Whether to leave out the trace. -/
  quiet : Bool := false
  deriving DecidableEq, Repr

/-- What the arguments ask for. -/
inductive Request where
  | version
  | help
  | run (invocation : Invocation)
  deriving DecidableEq, Repr

/-- A meaningful part of the arguments. -/
inductive Token where
  | path (path : Text)
  | limit (number : Text)
  | quiet
  | version
  | help
  /-- An option that there is not, or one without its value. -/
  | mistake
  deriving DecidableEq, Repr

namespace Token

/-- The token of a letter behind a single dash. -/
def ofLetter : Char → Token
  | 'q' => quiet
  | 'V' => version
  | 'h' => help
  | _ => mistake

/-- The token of a name behind two dashes. -/
def ofName (name : Text) : Token :=
  match String.ofList name with
  | "quiet" => quiet
  | "version" => version
  | "help" => help
  | _ => mistake

/-- The tokens of arguments. Behind `--` every argument is a path. -/
def ofArguments : List Text → List Token
  | [] => []
  | ['-', '-'] :: rest => rest.map path
  | ('-' :: '-' :: name) :: rest =>
    match name.span (· ≠ '=') with
    | (name, '=' :: value) =>
      (if name = "max-steps".toList then limit value else mistake) :: ofArguments rest
    | (name, _) =>
      if name = "max-steps".toList then
        -- The next argument is the value, whatever it looks like.
        match rest with
        | value :: rest => limit value :: ofArguments rest
        | [] => [mistake]
      else
        ofName name :: ofArguments rest
  | ('-' :: letter :: letters) :: rest =>
    (letter :: letters).map ofLetter ++ ofArguments rest
  | argument :: rest => path argument :: ofArguments rest

end Token

/-- The number of steps that a text writes in decimal, after a `+` or not. It
has 64 bits. -/
def steps? : Text → Option Nat
  | '+' :: digits => Decimal.whole? UInt64.size digits
  | digits => Decimal.whole? UInt64.size digits

namespace Request

/-- The request that tokens make, after a path, a limit and a wish for quiet
that have been given before them. -/
def ofTokens (path : Option Text) (limit : Option Nat) (quiet : Bool) : List Token → Option Request
  | [] => path.map fun path => run ⟨path, limit, quiet⟩
  | .version :: _ => some version
  | .help :: _ => some help
  | .mistake :: _ => none
  | .quiet :: rest => if quiet then none else ofTokens path limit true rest
  | .path given :: rest =>
    if path.isSome ∨ given = [] then none else ofTokens (some given) limit quiet rest
  | .limit number :: rest =>
    if limit.isSome then
      none
    else
      match steps? number with
      | some limit => ofTokens path (some limit) quiet rest
      | none => none

/-- The request that arguments make, if there is no mistake in them. -/
def ofArguments (arguments : List Text) : Option Request :=
  ofTokens none none false (Token.ofArguments arguments)

end Request

end TeachAsm
