import Elementwise.Text

/-! # Log records -/
namespace Elementwise

inductive Level where
  | debug
  | warn
  deriving DecidableEq, Repr

def Level.text : Level → String
  | .debug => "DEBUG"
  | .warn => "WARN"

structure LogRecord where
  level : Level
  message : String
  attrs : List (String × Text)
  deriving DecidableEq, Repr

end Elementwise
