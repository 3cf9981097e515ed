import Runbook.Text.Cut

/-!
# Values

What flows between the steps of a runbook is one text or a list of texts. Where a single text is
needed, a list stands for its elements joined by commas; where a loop needs elements, a single
text stands for itself.
-/

namespace Runbook

/-- One text, or an ordered list of texts. -/
inductive Value where
  | scalar (text : String)
  | list (items : List String)
  deriving Repr, DecidableEq, Inhabited

namespace Value

/-- What joins the elements of a list into one text. -/
def separator : String := ","

/-- The value as one text. -/
def text : Value → String
  | scalar s => s
  | list items => Text.join separator items

/-- The value as a sequence of single texts. -/
def expand : Value → List Value
  | scalar s => [scalar s]
  | list items => items.map scalar

end Value

end Runbook
