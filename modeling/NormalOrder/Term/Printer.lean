import NormalOrder.Term.Basic
import NormalOrder.Text.Quoted

namespace NormalOrder.Term

open Text (quoted)

/-- The text `s` of `t` as an element of an application: parenthesised unless `t` is a variable. -/
def element (t : Term) (s : String) : String := if t.isVar then s else "(" ++ s ++ ")"

/-- The text `s` of `t` as the body of an abstraction: parenthesised if `t` is an application. -/
def bodyText (t : Term) (s : String) : String := if t.isApp then "(" ++ s ++ ")" else s

mutual

/-- A term as it is written. -/
def text : Term → String
  | .var x => x
  | .lam x b => "λ" ++ x ++ "." ++ b.bodyText b.text
  | .app f a rest => f.element f.text ++ " " ++ a.element a.text ++ textAll rest

/-- Further elements of an application, each after a space. -/
def textAll : List Term → String
  | [] => ""
  | t :: ts => " " ++ t.element t.text ++ textAll ts

end

mutual

/-- A term as a nested record. -/
def record : Term → String
  | .var x => "Variable(name=" ++ quoted x ++ ")"
  | .lam x b => "Lambda(param=" ++ quoted x ++ ", body=" ++ b.record ++ ")"
  | .app f a rest =>
    "Application(terms=(" ++ f.record ++ ", " ++ a.record ++ recordAll rest ++ "))"

def recordAll : List Term → String
  | [] => ""
  | t :: ts => ", " ++ t.record ++ recordAll ts

end

/-- Four blanks for each level; none below level zero. -/
def indent (level : Int) : String := String.ofList (List.replicate (4 * level.toNat) ' ')

mutual

/-- A term as a tree, one line a node, indented from `level` on. -/
def tree (level : Int) : Term → String
  | .var x => indent level ++ "Variable('" ++ x ++ "')"
  | .lam x b =>
    indent level ++ "Lambda(param='" ++ x ++ "', body=\n" ++ b.tree (level + 1) ++ "\n"
      ++ indent level ++ ")"
  | .app f a rest =>
    indent level ++ "Application(terms=[\n" ++ f.tree (level + 1) ++ ",\n" ++ a.tree (level + 1)
      ++ treeAll (level + 1) rest ++ "\n" ++ indent level ++ "])"

def treeAll (level : Int) : List Term → String
  | [] => ""
  | t :: ts => ",\n" ++ t.tree level ++ treeAll level ts

end

end NormalOrder.Term
