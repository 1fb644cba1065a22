import CounterPrograms.Text.Digit

/-!
# Command lines

How a list of arguments splits into options and positional arguments.

An option begins with a minus sign.  It may stand anywhere before a lone `--`, after which all
arguments are positional.  A long option may be abbreviated as long as only one option begins with
the abbreviation, and its value may follow an equals sign.  An argument that begins with a minus
sign is positional if it is a negative number or holds a blank and is no option; a lone minus sign
is positional too.

One `--` is taken away from what a place or an option takes, even where it was meant as the
argument itself; a place for exactly one argument, or an option, may so be left with nothing.

Before each option the positional arguments collected so far are handed to as many of the places
still open as they fill.  What no place takes, and options nobody knows, are left over.

Readers of command lines differ in two points, and the older convention is followed.  A value `--`
after an equals sign is taken away like any other `--`, so that `--option=--` gives the option
nothing; newer readers refuse it.  What is joined to an option of one letter has to be the letters
of other options without value, so that `-hx` is refused for its `x`; newer readers first give the
help that `-h` asks for.

`Arguments.events` lists what happens in order, so that the first fault decides.
-/

namespace CounterPrograms

namespace Arguments

/-- An option: its name, with its minus signs, and whether a value follows it. -/
structure Flag where
  name : String
  takesValue : Bool
deriving DecidableEq, Repr

/-- A place for positional arguments: exactly one, or any number of them. -/
inductive Place
  | one
  | many
deriving DecidableEq, Repr

/-- The options and places of a command. -/
structure Grammar where
  flags : List Flag
  places : List Place
deriving DecidableEq, Repr

/-- What happens when arguments are read. -/
inductive Event
  /-- An option is given, perhaps with a value. -/
  | flag (name : String) (value : Option String)
  /-- The next open place takes arguments.  A place for exactly one argument has at most one. -/
  | place (arguments : List String)
  /-- An argument is left over. -/
  | left (argument : String)
  /-- The arguments cannot be read further. -/
  | misuse
deriving DecidableEq, Repr

/-! ### Kinds of arguments -/

/-- The value that is written together with an option. -/
inductive Attached
  | nothing
  /-- After an equals sign. -/
  | assigned (value : String)
  /-- Directly after an option of one letter. -/
  | joined (value : String)
deriving DecidableEq, Repr

/-- What an argument is. -/
inductive Item
  | positional (text : String)
  /-- The `--` behind which all arguments are positional. -/
  | separator
  | flag (flag : Flag) (attached : Attached)
  /-- It looks like an option, but none has its name. -/
  | unknown (text : String)
deriving DecidableEq, Repr

/-- Whether a text is a number without sign: digits, or digits after a point that may have others
before it. -/
def isUnsignedNumber (s : List Char) : Bool :=
  let whole := s.takeWhile isDecimalDigit
  match s.dropWhile isDecimalDigit with
  | [] => !whole.isEmpty
  | '.' :: fraction => !fraction.isEmpty && fraction.all isDecimalDigit
  | _ => false

/-- Whether an argument is a negative number, a line feed at its end not counted. -/
def isNegativeNumber (s : List Char) : Bool :=
  match s with
  | '-' :: rest =>
    isUnsignedNumber (if rest.getLast? = some '\n' then rest.dropLast else rest)
  | _ => false

/-- The parts of a text before and after its first equals sign, if it has one. -/
def splitAssignment? (s : List Char) : Option (String × String) :=
  match s.dropWhile (· ≠ '=') with
  | [] => none
  | _ :: value => some (String.ofList (s.takeWhile (· ≠ '=')), String.ofList value)

/-- The options that an argument beginning with a minus sign may mean although it is no option's
name. -/
def candidates (flags : List Flag) (s : List Char) : List (Flag × Attached) :=
  match s with
  | '-' :: '-' :: _ =>
    let (name, attached) :=
      match splitAssignment? s with
      | some (name, value) => (name, Attached.assigned value)
      | none => (String.ofList s, .nothing)
    (flags.filter fun f => name.toList.isPrefixOf f.name.toList).map fun f => (f, attached)
  | _ =>
    flags.filterMap fun f =>
      if f.name.toList = s.take 2 then some (f, .joined (String.ofList (s.drop 2)))
      else if s.isPrefixOf f.name.toList then some (f, .nothing)
      else none

/-- What an argument is, unless it may mean several options. -/
def item? (flags : List Flag) (s : String) : Option Item :=
  match s.toList with
  | '-' :: rest =>
    match flags.find? fun f => f.name = s with
    | some f => some (.flag f .nothing)
    | none =>
      if rest.isEmpty then some (.positional s)
      else
        let assigned? := do
          let (name, value) ← splitAssignment? s.toList
          let f ← flags.find? fun f => f.name = name
          return Item.flag f (.assigned value)
        match assigned?, candidates flags s.toList with
        | some i, _ => some i
        | none, [(f, attached)] => some (.flag f attached)
        | none, [] =>
          if isNegativeNumber s.toList || s.toList.contains ' ' then some (.positional s)
          else some (.unknown s)
        | none, _ => none
  | _ => some (.positional s)

/-- What the arguments are, unless one of them may mean several options. -/
def items? (flags : List Flag) : List String → Option (List Item)
  | [] => some []
  | "--" :: rest => some (.separator :: rest.map .positional)
  | s :: rest => do
    let i ← item? flags s
    let others ← items? flags rest
    return i :: others

/-! ### Positional arguments -/

/-- The separators at the head of a list of items, as text, and the items after them. -/
def takeSeparators : List Item → List String × List Item
  | .separator :: rest =>
    let (taken, rest) := takeSeparators rest
    ("--" :: taken, rest)
  | items => ([], items)

/-- The positional arguments and separators at the head of a list of items, as text, and the items
after them. -/
def takePositionals : List Item → List String × List Item
  | .positional s :: rest =>
    let (taken, rest) := takePositionals rest
    (s :: taken, rest)
  | .separator :: rest =>
    let (taken, rest) := takePositionals rest
    ("--" :: taken, rest)
  | items => ([], items)

/-- What a place takes from the head of a list of items, separators around it included. -/
def fillPlace : Place → List Item → Option (List String × List Item)
  | .many, items => some (takePositionals items)
  | .one, items =>
    match takeSeparators items with
    | (before, .positional s :: rest) =>
      let (after, rest) := takeSeparators rest
      some (before ++ s :: after, rest)
    | _ => none

/-- What several places take one after the other. -/
def fillPlaces : List Place → List Item → Option (List (List String) × List Item)
  | [], items => some ([], items)
  | p :: places, items => do
    let (taken, rest) ← fillPlace p items
    let (others, rest) ← fillPlaces places rest
    return (taken :: others, rest)

/-- Fills as many as possible of the first `n` places.  The result is what each of them takes, and
the items left. -/
def fillMost (places : List Place) : Nat → List Item → List (List String) × List Item
  | 0, items => ([], items)
  | n + 1, items => (fillPlaces (places.take (n + 1)) items).getD (fillMost places n items)

/-- The arguments that a place took, without the first `--` among them. -/
def placeEvent (taken : List String) : Event :=
  .place (taken.erase "--")

/-! ### Options -/

/-- Whether an option has a single minus sign, so that other options may be joined to it. -/
def Flag.isLetter (f : Flag) : Bool :=
  match f.name.toList with
  | '-' :: c :: _ => c ≠ '-'
  | _ => false

/-- The events of an option of one letter with the letters of other options joined to it.  Only
options without value can be joined. -/
def joinedEvents (flags : List Flag) (f : Flag) : List Char → Option (List Event)
  | [] => some [.flag f.name none]
  | c :: rest => do
    let g ← flags.find? fun g => g.name = String.ofList ['-', c]
    let events ← if g.takesValue then none else joinedEvents flags g rest
    return .flag f.name none :: events

/-- The events of an option without value to which a text is attached.  It can only be the letters
of more options. -/
def attachedEvents (flags : List Flag) (f : Flag) (text : String) : List Event :=
  if f.isLetter && !text.isEmpty then (joinedEvents flags f text.toList).getD [.misuse]
  else [.misuse]

/-- The event of an option that takes a value. -/
def valueEvent (f : Flag) (value : String) : Event :=
  .flag f.name (if value = "--" then none else some value)

/-- The events of an option with what is attached to it, and the items left of those after it. -/
def flagEvents (flags : List Flag) (f : Flag) (attached : Attached) (rest : List Item) :
    List Event × List Item :=
  match f.takesValue, attached, rest with
  | true, .assigned value, _ => ([valueEvent f value], rest)
  | true, .joined value, _ => ([valueEvent f value], rest)
  | true, .nothing, .positional value :: rest => ([valueEvent f value], rest)
  | true, .nothing, _ => ([.misuse], rest)
  | false, .nothing, _ => ([.flag f.name none], rest)
  | false, .assigned text, _ => (attachedEvents flags f text, rest)
  | false, .joined text, _ => (attachedEvents flags f text, rest)

/-! ### All arguments -/

/-- Whether an item is an option, known or not. -/
def Item.isOption : Item → Bool
  | .flag .. | .unknown _ => true
  | .positional _ | .separator => false

/-- The text of an item that no place takes. -/
def Item.text : Item → String
  | .positional s => s
  | .separator => "--"
  | .unknown s => s
  | .flag f _ => f.name

/-- What happens when the items are read while the given places are open.  Every step consumes an
item, so there are at most as many of them as units of fuel. -/
def eventsFrom (flags : List Flag) : Nat → List Place → List Item → List Event
  | 0, _, _ => []
  | fuel + 1, places, items =>
    match items with
    | .unknown s :: rest => .left s :: eventsFrom flags fuel places rest
    | .flag f attached :: rest =>
      let (events, rest) := flagEvents flags f attached rest
      events ++ eventsFrom flags fuel places rest
    | items =>
      let (taken, rest) := fillMost places places.length items
      let remaining := places.drop taken.length
      let events := taken.map placeEvent
      if !items.any Item.isOption then events ++ rest.map fun i => .left i.text
      else if rest.length < items.length then events ++ eventsFrom flags fuel remaining rest
      else
        let skipped := rest.takeWhile fun i => !i.isOption
        events ++ (skipped.map fun i => .left i.text) ++
          eventsFrom flags fuel remaining (rest.dropWhile fun i => !i.isOption)

/-- What happens when the arguments of a command are read. -/
def events (g : Grammar) (arguments : List String) : List Event :=
  match items? g.flags arguments with
  | none => [.misuse]
  | some items => eventsFrom g.flags (items.length + 1) g.places items

end Arguments

end CounterPrograms
