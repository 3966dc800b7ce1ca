import LiteralLint.Text.Digits

/-! # Output of a command

What a command writes to its two output streams, and the failure it ends with. Text for a terminal
stands between a mark that turns a style on and one that turns it off again. -/

set_option autoImplicit false

namespace LiteralLint

structure Output where
  stdout : String
  stderr : String := ""
  failure : Option String := none
deriving DecidableEq, Repr, Inhabited

namespace Output

def line (text : String) : String := text ++ "\n"

def lines (texts : List String) : String := String.join (texts.map line)

end Output

inductive Style where
  | bold
  | dimmed
  | underlined
  | red
  | green
  | yellow
  | cyan
deriving DecidableEq, Repr

namespace Style

def on : Style → Nat
  | bold => 1
  | dimmed => 2
  | underlined => 4
  | red => 31
  | green => 32
  | yellow => 33
  | cyan => 36

/-- The number that turns a style off: colours fall back to the default colour, the other styles
reset everything. -/
def off : Style → Nat
  | bold | dimmed | underlined => 0
  | red | green | yellow | cyan => 39

def mark (code : Nat) : String := s!"\x1b[{code}m"

def paint (style : Style) (text : String) : String := mark style.on ++ text ++ mark style.off

def paintIf (colored : Bool) (style : Style) (text : String) : String :=
  if colored then style.paint text else text

@[simp] theorem paintIf_false (style : Style) (text : String) :
    style.paintIf false text = text := rfl

@[simp] theorem paintIf_true (style : Style) (text : String) :
    style.paintIf true text = style.paint text := rfl

end Style

inductive ColorChoice where
  | auto
  | always
  | never
deriving DecidableEq, Repr, Inhabited

namespace ColorChoice

def all : List ColorChoice := [auto, always, never]

def name : ColorChoice → String
  | auto => "auto"
  | always => "always"
  | never => "never"

def ofName? (s : String) : Option ColorChoice := all.find? (·.name == s)

def forced : ColorChoice → Option Bool
  | auto => none
  | always => some true
  | never => some false

/-- Whether a value asks for colour: anything does but `false` and zero. -/
def isForcing (value : String) : Bool :=
  let digits :=
    match value.toList with
    | '+' :: ds => ds
    | ds => ds
  value ≠ "false" && Text.natural? 10 digits ≠ some 0

/-- Whether text is styled where the output is no terminal: only if a variable asks for it. -/
def isColored (choice : ColorChoice) (getVariable : String → Option String) : Bool :=
  choice.forced.getD <|
    match getVariable "FORCE_COLOR", getVariable "CLICOLOR_FORCE" with
    | some value, _ => isForcing value
    | none, some value => value ≠ "0"
    | none, none => false

end ColorChoice

end LiteralLint
