import McpGatekeeper.JsonValues
import McpGatekeeper.Text.Regex

namespace McpGatekeeper.Glob

open Regex
open McpGatekeeper.JsonValues

/-- The regex fragments `_compile` collects in `out`. -/
inductive Token
  | escaped (c : Char)
  | slash
  | star
  | question
  | anything
  | optionalTail
  deriving DecidableEq

/-- The loop of `_compile`, on the characters from index `i` on. -/
def compileLoop (separatorAware : Bool) : List Char → List Token → List Token
  | [], out => out
  | '*' :: '*' :: rest, out =>
      if separatorAware then
        -- A trailing "/**" replaces the "/" already emitted.
        if out.getLast? = some .slash ∧ rest = [] then
          compileLoop separatorAware rest (out.dropLast ++ [.optionalTail])
        else compileLoop separatorAware rest (out ++ [.anything])
      else compileLoop separatorAware ('*' :: rest) (out ++ [.star])
  | '*' :: rest, out => compileLoop separatorAware rest (out ++ [.star])
  | '?' :: rest, out => compileLoop separatorAware rest (out ++ [.question])
  | '/' :: rest, out => compileLoop separatorAware rest (out ++ [.slash])
  | c :: rest, out => compileLoop separatorAware rest (out ++ [.escaped c])

/-- What each fragment means under `re.DOTALL`. -/
def Token.atom (separatorAware : Bool) : Token → Atom
  | .escaped c => .one (· == c)
  | .slash => .one (· == '/')
  | .star => .many fun c => !separatorAware || c != '/'
  | .question => .one fun c => !separatorAware || c != '/'
  | .anything => .many fun _ => true
  | .optionalTail => .option (· == '/') fun _ => true

def compile (separatorAware : Bool) (pattern : List Char) : List Atom :=
  (compileLoop separatorAware pattern []).map (Token.atom separatorAware)

def matchTool (pattern name : String) : Bool :=
  matchAtoms (compile false pattern.toList) name.toList

def matchPath (pattern value : String) : Bool :=
  matchAtoms (compile true pattern.toList) value.toList

example : matchPath "/prod/**" "/prod" = true := by decide
example : matchPath "/prod/*" "/prod/a/b" = false := by decide
example : matchTool "fs__*" "fs__write_file" = true := by decide

/-- Render a JSON scalar the way patterns are written against it; containers have
no rendering. -/
def canonicalValue : Json → Option String
  | .bool value => some (if value then "true" else "false")
  | .null => some "null"
  | .str value => some value
  | .int value => some (toString value)
  | .float repr => some repr
  | .arr _ => none
  | .obj _ => none

end McpGatekeeper.Glob
