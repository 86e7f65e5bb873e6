/-! # Styled text

Text in pieces, some of which have a style that a terminal shows.

* `Styled.render`: the text with or without its styles.
-/

namespace FlowMigration.Text

/-- How a terminal shows a piece of text that is `Styled`. -/
inductive Style where
  | dimmed
  | underline
  | bold
  | red
  | yellow
  | cyan
  | brightBlue
  | brightWhite
  | boldRed
  | boldGreen
  | boldYellow
deriving DecidableEq, Repr

/-- The numbers that stand for a style in its `opening`. -/
def Style.codes : Style → String
  | .bold => "1"
  | .dimmed => "2"
  | .underline => "4"
  | .red => "31"
  | .yellow => "33"
  | .cyan => "36"
  | .brightBlue => "94"
  | .brightWhite => "97"
  | .boldRed => "1;31"
  | .boldGreen => "1;32"
  | .boldYellow => "1;33"

/-- The sequence that begins `style`. -/
def Style.opening (style : Style) : List Char := '\x1b' :: '[' :: (style.codes.toList ++ ['m'])

/-- The sequence that ends every style. -/
def Style.closing : List Char := ['\x1b', '[', '0', 'm']

/-- A piece of text, plain or with a `Style`. -/
structure Styled where
  style : Option Style := none
  text : String
deriving DecidableEq, Repr

namespace Styled

def plain (text : String) : Styled := { text }

def of (style : Style) (text : String) : Styled := ⟨some style, text⟩

/-- A text in which `style` begins again after every closing sequence. -/
def reopen (style : Style) : List Char → List Char
  | '\x1b' :: '[' :: '0' :: 'm' :: rest => Style.closing ++ style.opening ++ reopen style rest
  | c :: rest => c :: reopen style rest
  | [] => []

def renderPiece (color : Bool) (piece : Styled) : List Char :=
  match color, piece.style with
  | true, some style => style.opening ++ reopen style piece.text.toList ++ Style.closing
  | _, _ => piece.text.toList

/-- The text of some pieces, with their styles if `color` is on. -/
def render (color : Bool) (pieces : List Styled) : String :=
  String.ofList (pieces.flatMap (renderPiece color))

end Styled

end FlowMigration.Text
