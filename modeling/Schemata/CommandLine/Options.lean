import Schemata.Fields

/-!
# Options and arguments

The conventions for the words of a command line. An option has a long name and may have a short one;
its value is the next word, or stands behind an equals sign or directly behind the short name.
Options and arguments may be mixed; behind `--` there are arguments only, and a single dash is one.

## Main definitions

* `OptionSpec`: an option of a command.
* `Words`: the options and the arguments that were given.
* `readWords?`: how the words of a command line are taken; nothing when they fit no option.

## Implementation notes

An option takes the next word as its value whatever that word looks like. When an option is
repeated, the last value holds.
-/

namespace Schemata

structure OptionSpec where
  name : String
  short : Option Char
  takesValue : Bool

def OptionSpec.long (spec : OptionSpec) : String := "--" ++ spec.name

structure Words where
  /-- The values of options, in the order in which the options are first given. -/
  values : Fields String := []
  flags : List String := []
  arguments : List String := []

namespace Words

def withValue (w : Words) (name value : String) : Words :=
  { w with values := Fields.insert name value w.values }

def withFlag (w : Words) (name : String) : Words := { w with flags := name :: w.flags }

def withArgument (w : Words) (word : String) : Words :=
  { w with arguments := w.arguments ++ [word] }

end Words

/-- A word that is an option, by its form. -/
def looksLikeOption (word : String) : Bool :=
  word.toList.head? == some '-' && 2 ≤ word.length

/-- What a word asks for. -/
inductive WordForm where
  | value (spec : OptionSpec) (attached : Option String)
  | flag (spec : OptionSpec)

/-- The name before an equals sign, and the value behind it. -/
def splitEquals (word : List Char) : List Char × Option (List Char) :=
  match word.dropWhile (· ≠ '=') with
  | _ :: value => (word.takeWhile (· ≠ '='), some value)
  | [] => (word, none)

/-- A word as a long option; a flag takes no value. -/
def readLong? (specs : List OptionSpec) (word : String) : Option (Option WordForm) :=
  let (name, value) := splitEquals word.toList
  match specs.find? fun spec => spec.long.toList == name with
  | none => none
  | some spec =>
    if spec.takesValue then some (some (.value spec (value.map String.ofList)))
    else if value.isSome then some none
    else some (some (.flag spec))

/-- A word as a short option, with what stands behind its letter. -/
def readShort? (specs : List OptionSpec) (word : String) : Option WordForm :=
  match word.toList with
  | '-' :: letter :: rest =>
    match specs.find? fun spec => spec.short == some letter && spec.takesValue with
    | some spec => some (.value spec (if rest.isEmpty then none else some (String.ofList rest)))
    | none => none
  | _ => none

/-- What a word that looks like an option asks for. -/
def readOption? (specs : List OptionSpec) (word : String) : Option WordForm :=
  match readLong? specs word with
  | some form => form
  | none => if "--".toList.isPrefixOf word.toList then none else readShort? specs word

def readWordsFrom? (specs : List OptionSpec) (taken : Words) : List String → Option Words
  | [] => some taken
  | word :: rest =>
    if word = "--" then some { taken with arguments := taken.arguments ++ rest }
    else if looksLikeOption word then
      match readOption? specs word with
      | none => none
      | some (.flag spec) => readWordsFrom? specs (taken.withFlag spec.name) rest
      | some (.value spec (some value)) =>
        readWordsFrom? specs (taken.withValue spec.name value) rest
      | some (.value spec none) =>
        match rest with
        | [] => none
        | value :: rest => readWordsFrom? specs (taken.withValue spec.name value) rest
    else readWordsFrom? specs (taken.withArgument word) rest

def readWords? (specs : List OptionSpec) (words : List String) : Option Words :=
  readWordsFrom? specs {} words

end Schemata
