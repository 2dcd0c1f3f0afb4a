import EsOptimizer.Json.Reader

/-!
# Options

What the optimizer may assume about the surroundings of a program, how long it may work, and which
passes it may use; and how these are read from a configuration.
-/

namespace EsOptimizer

/-- Which passes are enabled. -/
structure Passes where
  deadBranches : Bool := true
  foldConstants : Bool := true
  inlineFunctions : Bool := true
  tailCalls : Bool := true
  unrollLoops : Bool := true
  removeUnused : Bool := true
  simplifyBlocks : Bool := true
deriving DecidableEq, Repr

/-- Assumptions are off unless asked for, which only costs precision. -/
structure Options where
  /-- Built-in objects are as the language defines them. -/
  noNativeOverwrites : Bool := false
  /-- Only the program itself assigns its global variables. -/
  noGlobalPropertyOverwrites : Bool := false
  /-- Only the program itself reads its global variables. -/
  noGlobalPropertyReads : Bool := false
  /-- How many rounds of analysis and change there may be. -/
  maxIterations : Nat := 100
  passes : Passes := {}
deriving DecidableEq, Repr

/-- All assumptions made. -/
def Options.trusting : Options :=
  { noNativeOverwrites := true
    noGlobalPropertyOverwrites := true
    noGlobalPropertyReads := true }

namespace Passes

def fields : List (JsonReader.Field Passes) :=
  [⟨"deadBranches", fun p => return { p with deadBranches := ← JsonReader.bool }⟩,
   ⟨"foldConstants", fun p => return { p with foldConstants := ← JsonReader.bool }⟩,
   ⟨"inlineFunctions", fun p => return { p with inlineFunctions := ← JsonReader.bool }⟩,
   ⟨"tailCalls", fun p => return { p with tailCalls := ← JsonReader.bool }⟩,
   ⟨"unrollLoops", fun p => return { p with unrollLoops := ← JsonReader.bool }⟩,
   ⟨"removeUnused", fun p => return { p with removeUnused := ← JsonReader.bool }⟩,
   ⟨"simplifyBlocks", fun p => return { p with simplifyBlocks := ← JsonReader.bool }⟩]

def reader : JsonReader Passes := JsonReader.record fields {}

end Passes

namespace Options

def fields : List (JsonReader.Field Options) :=
  [⟨"noNativeOverwrites", fun o => return { o with noNativeOverwrites := ← JsonReader.bool }⟩,
   ⟨"noGlobalPropertyOverwrites",
    fun o => return { o with noGlobalPropertyOverwrites := ← JsonReader.bool }⟩,
   ⟨"noGlobalPropertyReads", fun o => return { o with noGlobalPropertyReads := ← JsonReader.bool }⟩,
   ⟨"maxIterations", fun o => return { o with maxIterations := ← JsonReader.word64 }⟩,
   ⟨"passes", fun o => return { o with passes := ← Passes.reader }⟩]

def reader : JsonReader Options := JsonReader.record fields {}

/-- The options that a JSON value describes. -/
def ofJson? (j : Json) : Option Options := (JsonReader.runAll reader j.render).toOption

end Options

/-- A configuration: the options, and whether to print minified text. -/
structure Config where
  options : Options := {}
  minify : Bool := false
deriving DecidableEq, Repr

namespace Config

def fields : List (JsonReader.Field Config) :=
  [⟨"options", fun c => return { c with options := ← Options.reader }⟩,
   ⟨"minify", fun c => return { c with minify := ← JsonReader.bool }⟩]

/-- The configuration that a text spells. -/
def ofText (text : String) : Except JsonFault Config :=
  JsonReader.runAll (JsonReader.record fields {}) text

end Config

end EsOptimizer
