import McpGatekeeper.Text.Regex

/-!
SQLite's `LIKE` without an escape character: `%` is any run of characters, `_` any one,
letters match whatever their ASCII case, and both texts end at their first NUL.
-/

namespace Like

open Regex

/-- What a C function reads of a text. -/
def untilNul (text : List Char) : List Char :=
  text.takeWhile (· ≠ Char.ofNat 0)

def compare : List Char → List Char → Bool
  | [], text => text.isEmpty
  | '%' :: pattern, text => manyThen (fun _ => true) (compare pattern) text
  | _ :: _, [] => false
  | '_' :: pattern, _ :: text => compare pattern text
  | c :: pattern, d :: text => c.toLower == d.toLower && compare pattern text

/-- `text LIKE pattern` -/
def like (pattern text : List Char) : Bool :=
  compare (untilNul pattern) (untilNul text)

/-- The pattern of a search for a text somewhere. -/
def containing (needle : List Char) : List Char :=
  '%' :: (needle ++ ['%'])

end Like
