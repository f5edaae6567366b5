import BuiltOnEnvoy.Foundations.UnixPath

/-!
# The arguments of `boe run` and `boe gen-config`

What the flag parser makes of an argument vector, as far as it decides which
extensions are requested and in which order. The parser is a library and stays a
parameter; of its reading of the arguments only `Parser.Lawful` is used. How it
splits the value of a list flag, and which values it refuses, is left open.
-/

namespace BuiltOnEnvoy.Cli

/-- The flags that request extensions. -/
inductive ExtensionFlag
  | extension
  | localDir
  deriving DecidableEq

/-- The flag as an argument. -/
def ExtensionFlag.arg : ExtensionFlag → String
  | extension => "--extension"
  | localDir => "--local"

/-- An `--extension` or `--local` flag of the command line. -/
structure Occurrence where
  flag : ExtensionFlag
  /-- The value is an argument of its own. -/
  apart : Bool
  value : String
  /-- What the parser adds to the list of the flag. -/
  elements : List String
  deriving DecidableEq

/-- One extension that the command line asks for. -/
structure Request where
  flag : ExtensionFlag
  value : String
  deriving DecidableEq

def Occurrence.requests (o : Occurrence) : List Request :=
  o.elements.map fun value => ⟨o.flag, value⟩

/-- The requested extensions in the order of the command line. -/
def requests (occurrences : List Occurrence) : List Request :=
  occurrences.flatMap Occurrence.requests

/-- `Extensions` and `Local`, the lists that the parser fills. -/
def values (flag : ExtensionFlag) (requested : List Request) : List String :=
  (requested.filter fun r => r.flag = flag).map Request.value

/-- The flag parser, on the arguments after the program's name: the flags of an accepted
vector in the order of the command line. -/
structure Parser where
  parse : List String → Option (List Occurrence)

/-- Arguments and the flags that they are. An argument `--extension` or `--local` is that flag
and the next argument, which is not such a flag, is its value. Any other argument is a flag
with its value attached, or has nothing to do with extensions. -/
inductive Reads : List String → List Occurrence → Prop
  | nil : Reads [] []
  | apart {flag : ExtensionFlag} {value : String} {elements : List String} {rest : List String}
      {occurrences : List Occurrence} (hvalue : ∀ flag : ExtensionFlag, value ≠ flag.arg)
      (hrest : Reads rest occurrences) :
      Reads (flag.arg :: value :: rest) (⟨flag, true, value, elements⟩ :: occurrences)
  | other {arg : String} {attached : List Occurrence} {rest : List String}
      {occurrences : List Occurrence} (harg : ∀ flag : ExtensionFlag, arg ≠ flag.arg)
      (hattached : ∀ o ∈ attached, o.apart = false) (hrest : Reads rest occurrences) :
      Reads (arg :: rest) (attached ++ occurrences)

/-- What is asked of the parser: it wants a command, and it reads flags with a value of its own
and flags with an attached value from left to right. -/
structure Parser.Lawful (P : Parser) : Prop where
  command : P.parse [] = none
  reads : ∀ args occurrences, P.parse args = some occurrences → Reads args occurrences

end BuiltOnEnvoy.Cli
