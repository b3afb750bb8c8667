/-!
# Words of a command line

A command line is a list of words: options with their values, plain words, and perhaps a call for
help, behind which nothing is read any more. A word `--` makes all words after it plain.

* `readWords`: the options and plain words in front of the first problem or call for help.
* `UsageFault`: what can be wrong with a command line.
-/

namespace OrderRelay

/-- The names of an option. -/
structure OptionName where
  long : String
  short : Option Char
  deriving DecidableEq, Repr

/-- A part of a command line. -/
inductive CommandPart where
  | option (long value : String)
  | word (value : String)
  | help
  deriving DecidableEq, Repr

/-- What can be wrong with a command line. -/
inductive UsageFault where
  | unknownOption (word : String)
  | valueMissing (option : String)
  | valueNeedless (word : String)
  | repeated (option : String)
  | surplus (word : String)
  | badValue (name value : String)
  | absent (name : String)
  | unknownCommand (word : String)
  | commandMissing
  deriving DecidableEq, Repr

/-- Why there is nothing to do. -/
inductive Stop where
  /-- The caller wants help. -/
  | help
  | usage (fault : UsageFault)
  deriving DecidableEq, Repr

/-- The exit code of a program that has nothing to do. -/
def Stop.exitCode : Stop → Nat
  | .help => 0
  | .usage _ => 2

/-- The forms of a word. -/
inductive WordForm where
  | plain
  /-- All words after it are plain. -/
  | divider
  | long (name : String) (value : Option String)
  | short (letter : Char) (value : Option String)
  deriving DecidableEq, Repr

/-- The form of a word. -/
def WordForm.of (w : String) : WordForm :=
  match w.toList with
  | ['-', '-'] => .divider
  | '-' :: '-' :: cs =>
    match cs.dropWhile (· != '=') with
    | [] => .long (String.ofList cs) none
    | _ :: value => .long (String.ofList (cs.takeWhile (· != '='))) (some (String.ofList value))
  | '-' :: c :: cs =>
    match cs with
    | [] => .short c none
    | '=' :: value => .short c (some (String.ofList value))
    | value => .short c (some (String.ofList value))
  | _ => .plain

/-- Puts a part in front of what has been read after it. -/
def withPart (part : CommandPart) (r : Except UsageFault (List CommandPart × List String)) :
    Except UsageFault (List CommandPart × List String) :=
  match r with
  | .ok (parts, rest) => .ok (part :: parts, rest)
  | .error fault => .error fault

/-- The value of an option: the one in its own word, or else the next word if that is plain. Also the
words after it. -/
def takeValue (value : Option String) (rest : List String) : Option (String × List String) :=
  match value, rest with
  | some v, rest => some (v, rest)
  | none, v :: rest => if WordForm.of v = .plain then some (v, rest) else none
  | none, [] => none

theorem length_le_of_takeValue {value : Option String} {rest rest' : List String} {v : String}
    (h : takeValue value rest = some (v, rest')) : rest'.length ≤ rest.length := by
  unfold takeValue at h
  split at h
  · simp_all
  · split at h
    · simp_all
    · simp at h
  · simp at h

/-- Reads words into parts. If asked to, it stops in front of the first plain word, and the words
from there on are left. -/
def readWords (options : List OptionName) (stops : Bool) (ws : List String) :
    Except UsageFault (List CommandPart × List String) :=
  match ws with
  | [] => .ok ([], [])
  | w :: rest =>
    let named (option : Option OptionName) (value : Option String) :
        Except UsageFault (List CommandPart × List String) :=
      match option with
      | none => .error (.unknownOption w)
      | some o =>
        match _ : takeValue value rest with
        | none => .error (.valueMissing o.long)
        | some (v, rest') => withPart (.option o.long v) (readWords options stops rest')
    match WordForm.of w with
    | .plain =>
      if stops then .ok ([], w :: rest) else withPart (.word w) (readWords options stops rest)
    | .divider => .ok (rest.map .word, [])
    | .long name value =>
      if name != "help" then named (options.find? (·.long == name)) value
      else if value.isSome then .error (.valueNeedless w)
      else .ok ([.help], [])
    | .short letter value =>
      if letter = 'h' then .ok ([.help], [])
      else named (options.find? (·.short == some letter)) value
termination_by ws.length
decreasing_by
  · have := length_le_of_takeValue (by assumption)
    simp only [List.length_cons]
    omega
  · simp

/-- The parts of a command line by their kinds. -/
structure Parts where
  options : List (String × String)
  words : List String
  /-- There was a call for help behind these parts. -/
  help : Bool

namespace Parts

/-- The parts by their kinds; an option must not occur twice. -/
def gather : List CommandPart → Except Stop Parts
  | [] => .ok ⟨[], [], false⟩
  | .help :: _ => .ok ⟨[], [], true⟩
  | .word w :: rest =>
    match gather rest with
    | .ok p => .ok { p with words := w :: p.words }
    | .error e => .error e
  | .option name value :: rest =>
    match gather rest with
    | .ok p =>
      if (p.options.lookup name).isSome then .error (.usage (.repeated name))
      else .ok { p with options := (name, value) :: p.options }
    | .error e => .error e

/-- The value of an option. -/
def option? (p : Parts) (name : String) : Option String := p.options.lookup name

/-- Refuses more plain words than so many. -/
def atMost (p : Parts) (n : Nat) : Except Stop Unit :=
  match p.words[n]? with
  | some w => .error (.usage (.surplus w))
  | none => .ok ()

/-- Ends with help if there was a call for it. -/
def heedHelp (p : Parts) : Except Stop Unit := if p.help then .error .help else .ok ()

end Parts

/-- Reads a value if there is one. -/
def readValue {α : Type} (name : String) (read : String → Option α) :
    Option String → Except Stop (Option α)
  | none => .ok none
  | some v =>
    match read v with
    | some a => .ok (some a)
    | none => .error (.usage (.badValue name v))

/-- A value that must be there. -/
def required {α : Type} (name : String) : Option α → Except Stop α
  | some a => .ok a
  | none => .error (.usage (.absent name))

end OrderRelay
