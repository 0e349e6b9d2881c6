import Lighting.Options.Flag

/-!
# Reading a command line

The words of a command line are read from left to right into occurrences of options with their
values.  A value follows its option in the next word, after an equals sign, or right after the
option's letter; letters of options without values may be run together.  After a double dash no word
is an option, and since nothing else is expected, no word may follow at all.
-/

namespace Lighting.Options

/-- An option on the command line, with its value if it takes one. -/
structure Occurrence where
  /-- The option. -/
  flag : Flag
  /-- Its value. -/
  value : List Char
deriving DecidableEq

/-- What a word of a command line says. -/
inductive Word where
  /-- Nothing more is an option. -/
  | endOfOptions
  /-- Options that are complete, and one that waits for its value in the next word. -/
  | options (complete : List Occurrence) (pending : Option Flag)
  /-- Options that are complete, and then something that is none. -/
  | unknown (complete : List Occurrence)
  /-- A value. -/
  | value (text : List Char)
deriving DecidableEq

/-- An option with a long name, and the value after an equals sign. -/
def longWord (cs : List Char) : Word :=
  let name := cs.takeWhile (· != '=')
  match Flag.ofLong? name, cs.dropWhile (· != '=') with
  | none, _ => .unknown []
  | some f, [] => if f.takesValue then .options [] (some f) else .options [⟨f, []⟩] none
  | some f, _ :: value => if f.takesValue then .options [⟨f, value⟩] none else .unknown []

/-- Drops an equals sign at the front. -/
def dropEquals : List Char → List Char
  | '=' :: cs => cs
  | cs => cs

/-- The options behind a single dash. -/
def shortWord (complete : List Occurrence) : List Char → Word
  | [] => .options complete none
  | c :: rest =>
    match Flag.ofShort? c with
    | none => .unknown complete
    | some f =>
      if f.takesValue then
        if rest.isEmpty then .options complete (some f)
        else .options (complete ++ [⟨f, dropEquals rest⟩]) none
      else shortWord (complete ++ [⟨f, []⟩]) rest

/-- What a word of a command line says. -/
def readWord : List Char → Word
  | ['-', '-'] => .endOfOptions
  | '-' :: '-' :: cs => longWord cs
  | ['-'] => .value ['-']
  | '-' :: cs => shortWord [] cs
  | cs => .value cs

/-- The occurrences of a command line, as far as it can be read, and whether it can be read to its
end.  `pending` is the option that waits for its value. -/
def occurrences : (pending : Option Flag) → List String → List Occurrence × Bool
  | pending, [] => ([], pending.isNone)
  | pending, word :: words =>
    match pending, readWord word.toList with
    | none, .endOfOptions => ([], words.isEmpty)
    | some f, .value text =>
      let (rest, ok) := occurrences none words
      (⟨f, text⟩ :: rest, ok)
    | none, .options complete next =>
      let (rest, ok) := occurrences next words
      (complete ++ rest, ok)
    | none, .unknown complete => (complete, false)
    | _, _ => ([], false)

end Lighting.Options
