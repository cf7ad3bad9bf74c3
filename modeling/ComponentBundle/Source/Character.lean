import ComponentBundle.Text.Basic

/-!
The characters that delimit and spell source text.
-/
namespace ComponentBundle.Source

def backtick : Char := '\x60'

/-- The character that makes the next one of a literal an ordinary character. -/
def escape : Char := '\\'

def isQuote (c : Char) : Bool := c = '\x27' || c = '\x22'

def isNameStart (c : Char) : Bool := c.isAlpha || c = '_' || c = '$'

def isNameChar (c : Char) : Bool := c.isAlphanum || c = '_' || c = '$' || 0x80 ≤ c.toNat

/-- The white space that is skipped before a slash; a vertical tab is not skipped. -/
def isGap (c : Char) : Bool := c = ' ' || c = '\t' || c = '\n' || c = '\x0c' || c = '\r'

end ComponentBundle.Source
