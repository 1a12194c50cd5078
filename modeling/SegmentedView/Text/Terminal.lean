/-!
# Terminal text

What is left of a text that was meant for a terminal when it goes elsewhere:
control characters are dropped unless they are white space, and so are control
sequences, which begin with an escape character and end as their kind demands.

White space inside a sequence that controls the screen is kept, and what follows
it is shown; the sequence is taken up again at the next control character.
-/

set_option autoImplicit false

namespace SegmentedView.Text.Terminal

/-- Which sequence a place in a text belongs to. -/
inductive Place
  /-- None. -/
  | ground
  /-- One whose kind is not known yet. -/
  | escape
  /-- One of two or more characters, the last of which ends it. -/
  | short
  /-- One that controls the screen, with numbers before its last character. -/
  | control
  /-- The heading of a text for a device, no number being read. -/
  | heading
  /-- The same heading among its numbers. -/
  | numbers
  /-- The same heading past its numbers. -/
  | marks
  /-- A text for a device or a program; the string terminator ends it. -/
  | string
  /-- A command to the operating system; the bell ends it. -/
  | command
  deriving DecidableEq, Repr

/-- The place after an escape character and one character more. -/
def Place.ofIntroducer (c : Char) : Place :=
  if c = '[' then .control
  else if c = ']' then .command
  else if c = 'P' then .heading
  else if c = 'X' ∨ c = '^' ∨ c = '_' then .string
  else .ground

/-- The place after an ASCII character. A new escape character starts anew
everywhere, and two characters cancel any sequence. -/
def Place.next (p : Place) (c : Char) : Place :=
  let n := c.toNat
  if n = 0x1B then .escape
  else if n = 0x18 ∨ n = 0x1A then .ground
  else
    match p with
    | .ground => .ground
    | .escape =>
      if n < 0x20 ∨ n = 0x7F then .escape else if n < 0x30 then .short else .ofIntroducer c
    | .short => if n < 0x30 ∨ n = 0x7F then .short else .ground
    | .control => if n < 0x40 ∨ n = 0x7F then .control else .ground
    | .heading =>
      if n < 0x20 ∨ n = 0x7F then .heading
      else if n < 0x30 then .marks
      else if n < 0x40 then .numbers
      else .string
    | .numbers =>
      if n < 0x20 ∨ n = 0x7F then .numbers
      else if n < 0x30 then .marks
      else if n < 0x3C then .numbers
      else .string
    | .marks => if n < 0x30 ∨ n = 0x7F then .marks else .string
    | .string => .string
    | .command => if n = 7 then .ground else .command

/-- The control characters that are white space. -/
def isWhite (c : Char) : Bool := c = '\t' || c = '\n' || c = '\x0c' || c = '\r'

/-- Whether an ASCII character is shown at a place. -/
def Place.shows : Place → Char → Bool
  | .ground, c => (' ' ≤ c && c ≤ '~') || isWhite c
  | .escape, c => isWhite c
  | .short, c => isWhite c
  | .control, c => isWhite c
  | _, _ => false

/-- Whether a character has the byte that terminates a string. -/
def hasTerminator (c : Char) : Bool := (String.utf8EncodeChar c).contains 0x9C

/-- What is shown of a text from a place on. If the text is `running`, the
character before was shown, and so is what follows up to the next control
character, whatever the place. -/
def shown : Place → Bool → List Char → List Char
  | _, _, [] => []
  | p, running, c :: cs =>
    if 0x80 ≤ c.toNat then
      if running ∨ p = .ground then c :: shown .ground true cs
      else if p = .string ∧ hasTerminator c then shown .ground false cs
      else shown p false cs
    else if running then
      if Place.ground.shows c then c :: shown p true cs else shown (p.next c) false cs
    else if p.shows c then c :: shown (p.next c) true cs
    else shown (p.next c) false cs

/-- A text without its control sequences. -/
def plain (cs : List Char) : List Char := shown .ground false cs

/-- Whether a character is shown wherever no sequence is open. -/
def isPlain (c : Char) : Bool := 0x80 ≤ c.toNat || Place.ground.shows c

/-- A character that is shown outside of sequences begins none. -/
theorem next_ground_of_shows {c : Char} (h : Place.ground.shows c = true) :
    Place.ground.next c = .ground := by
  have hc : c.toNat ≠ 0x1B := by
    intro hc
    have : c = '\x1b' := Char.toNat_inj.1 hc
    subst this
    revert h
    decide
  simp [Place.next, hc]

/-- A text that holds no control characters is shown as it is. -/
theorem plain_eq_self {cs : List Char} (h : ∀ c ∈ cs, isPlain c = true) : plain cs = cs := by
  have all : ∀ running, shown .ground running cs = cs := by
    induction cs with
    | nil => intro running; rfl
    | cons c cs ih =>
      intro running
      have hc : isPlain c = true := h c (by simp)
      have hcs := ih fun d hd => h d (by simp [hd])
      simp only [isPlain, Bool.or_eq_true, decide_eq_true_eq] at hc
      rw [shown]
      split
      · simp [hcs]
      · have hs : Place.ground.shows c = true := hc.resolve_left ‹_›
        have hn : Place.ground.next c = .ground := next_ground_of_shows hs
        cases running <;> simp [hs, hn, hcs]
  exact all false

end SegmentedView.Text.Terminal
