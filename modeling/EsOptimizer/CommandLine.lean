import EsOptimizer.Optimize
import EsOptimizer.Parser.Grammar
import EsOptimizer.Printer.Tree

/-!
# The command line

`cli <input.js> [output.js]` optimizes a file. The result goes to the output file, or is printed if
none is given. A file `config.json` in the working directory, if there is one, is the configuration.

Here a run is a function of the files that it reads. Arguments are checked first, then the
configuration is read, then the input.
-/

namespace EsOptimizer

/-- What reading a file gives. -/
inductive File where
  | missing
  | unreadable
  | text (content : String)
deriving DecidableEq, Repr

/-- Why a run fails. -/
inductive CommandFailure where
  | usage
  | unreadableConfig
  | badConfig (fault : JsonFault)
  | unreadable (path : String)
  | unparsable (path : String) (error : SyntaxError)
  | unwritable
deriving DecidableEq, Repr

def CommandFailure.message : CommandFailure → String
  | usage => "usage: cli <input.js> [output.js]"
  | unreadableConfig => "Failed to read config file"
  | badConfig fault => "Failed to deserialize config (json) file: " ++ fault.text
  | unreadable path => "Failed to read " ++ path
  | unparsable path _ => "Failed to parse " ++ path
  | unwritable => "Failed to write file"

/-- The arguments of a run. -/
structure Command where
  input : String
  /-- Where the result goes; it is printed if there is none. -/
  output : Option String
deriving DecidableEq, Repr

namespace Command

/-- The name of the configuration file. -/
def configPath : String := "config.json"

/-- Arguments after the second are ignored. -/
def ofArgs : List String → Except CommandFailure Command
  | [] => .error .usage
  | input :: rest => .ok ⟨input, rest.head?⟩

/-- The configuration in a file. Without the file it is the default one. -/
def readConfig : File → Except CommandFailure Config
  | .missing => .ok {}
  | .unreadable => .error .unreadableConfig
  | .text content => (Config.ofText content).mapError .badConfig

/-- The program in a file. -/
def readSource (path : String) : File → Except CommandFailure Source
  | .text content => (parse content).mapError (.unparsable path)
  | _ => .error (.unreadable path)

/-- The text that a run writes, given the configuration file and the input file. -/
def result (c : Command) (config input : File) : Except CommandFailure String := do
  let config ← readConfig config
  let src ← readSource c.input input
  return (src.optimize config.options).1.program.print config.minify

end Command

end EsOptimizer
