/-!
# Words of a command line

How words become options. An option has a letter, a long name or both; flags
take no value, other options take one, either attached or as the next word.
Letters can be run together, and after a lone double dash every word is free. An
option whose value is in the next word is applied only when another option comes
or the words end, so that a command that stops the reading may come first.
-/

set_option autoImplicit false

namespace SegmentedView.CommandLine

/-- Why the reading of a command line ends early. -/
inductive Stop
  /-- The words cannot be used. -/
  | usage
  /-- Help was asked for. -/
  | help
  /-- The version was asked for. -/
  | version
  deriving DecidableEq, Repr

/-- The options of one level of a command line. `O` names them, `S` is what they
have set so far. -/
structure Grammar (O S : Type) where
  short : Char → Option O
  long : String → Option O
  takesValue : O → Bool
  /-- The option that free words are values of, if there is one. -/
  free : Option O := none
  /-- Whether a word starts the next level. -/
  isCommand : String → Bool := fun _ => false
  /-- Applies an option with its values. -/
  apply : S → O → List String → Except Stop S

/-- How far a level has been read. -/
structure Scan (O S : Type) where
  settled : S
  /-- The option that was read last and not applied yet, with its values. -/
  pending : Option (O × List String) := none
  /-- Whether that option waits for its value. -/
  waiting : Bool := false

namespace Grammar

variable {O S : Type} (g : Grammar O S)

/-- Applies the pending option. -/
def settle (s : Scan O S) : Except Stop (Scan O S) :=
  match s.pending with
  | none => .ok s
  | some (o, values) => (g.apply s.settled o values).map fun settled => ⟨settled, none, false⟩

/-- Reads an option with an attached value or none. -/
def readOption (s : Scan O S) (o : O) (value : Option String) : Except Stop (Scan O S) :=
  match g.settle s with
  | .error e => .error e
  | .ok s =>
    match value with
    | some v =>
      if g.takesValue o then
        (g.apply s.settled o [v]).map fun settled => ⟨settled, none, false⟩
      else .error .usage
    | none =>
      if g.takesValue o then .ok ⟨s.settled, some (o, []), true⟩
      else (g.apply s.settled o []).map fun settled => ⟨settled, none, false⟩

/-- Reads letters run together. What follows the letter of an option with a
value is that value, with or without an equals sign between. -/
def readLetters (s : Scan O S) : List Char → Except Stop (Scan O S)
  | [] => .ok s
  | c :: cs =>
    match g.short c with
    | none => .error .usage
    | some o =>
      if g.takesValue o then
        match cs with
        | [] => g.readOption s o none
        | '=' :: value => g.readOption s o (some (String.ofList value))
        | value => g.readOption s o (some (String.ofList value))
      else
        match g.readOption s o none with
        | .error e => .error e
        | .ok s => readLetters s cs

/-- Reads a long name, which may have a value after an equals sign. -/
def readLong (s : Scan O S) (cs : List Char) : Except Stop (Scan O S) :=
  let name := cs.takeWhile (· != '=')
  let value :=
    match cs.dropWhile (· != '=') with
    | [] => none
    | _ :: value => some (String.ofList value)
  match g.long (String.ofList name) with
  | none => .error .usage
  | some o => g.readOption s o value

variable [DecidableEq O]

/-- Reads a word that no option waits for. -/
def readFree (s : Scan O S) (w : String) : Except Stop (Scan O S) :=
  match g.free with
  | none => .error .usage
  | some o =>
    match s.pending with
    | some (o', values) =>
      if o' = o then .ok ⟨s.settled, some (o, values ++ [w]), false⟩
      else (g.settle s).map fun s => ⟨s.settled, some (o, [w]), false⟩
    | none => .ok ⟨s.settled, some (o, [w]), false⟩

/-- Reads words that are all free. -/
def readAllFree (s : Scan O S) : List String → Except Stop (Scan O S)
  | [] => .ok s
  | w :: ws =>
    match g.readFree s w with
    | .error e => .error e
    | .ok s => readAllFree s ws

/-- Reads one word that is neither a command nor the lone double dash. -/
def readWord (s : Scan O S) (w : String) : Except Stop (Scan O S) :=
  match w.toList with
  | '-' :: '-' :: cs => g.readLong s cs
  | '-' :: c :: cs => g.readLetters s (c :: cs)
  | _ =>
    match s.waiting, s.pending with
    | true, some (o, values) => .ok ⟨s.settled, some (o, values ++ [w]), false⟩
    | _, _ => g.readFree s w

/-- Reads words up to a command, which is given back with the words after it. -/
def readWords (s : Scan O S) :
    List String → Except Stop (Scan O S × Option (String × List String))
  | [] => .ok (s, none)
  | w :: ws =>
    if !s.waiting && g.isCommand w then .ok (s, some (w, ws))
    else if w = "--" then (g.readAllFree s ws).map fun s => (s, none)
    else
      match g.readWord s w with
      | .error e => .error e
      | .ok s => readWords s ws

end Grammar

end SegmentedView.CommandLine
