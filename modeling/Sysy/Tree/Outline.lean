import Sysy.Tree.Basic

/-!
The outline of a tree: one line for each item, declaration and statement, indented by depth.
Expressions are written with all their parentheses.
-/

namespace Sysy

namespace Expr

mutual

/-- An expression as text, with every operator in parentheses. -/
def text : Expr → String
  | .lit _ v => toString v.toInt
  | .lval _ name indices => name ++ indexText indices
  | .unary _ op e => "(" ++ op.symbol ++ text e ++ ")"
  | .binary _ op l r => "(" ++ text l ++ " " ++ op.symbol ++ " " ++ text r ++ ")"
  | .call _ name args => name ++ "(" ++ argText args ++ ")"

/-- Expressions, each in brackets. -/
def indexText : List Expr → String
  | [] => ""
  | e :: es => "[" ++ text e ++ "]" ++ indexText es

/-- Expressions with commas between them. -/
def argText : List Expr → String
  | [] => ""
  | [e] => text e
  | e :: es => text e ++ ", " ++ argText es

end

end Expr

namespace Init

mutual

def text : Init → String
  | .expr e => e.text
  | .list _ elems => "\x7b" ++ listText elems ++ "\x7d"

def listText : List Init → String
  | [] => ""
  | [i] => text i
  | i :: is => text i ++ ", " ++ listText is

end

end Init

namespace Outline

/-- One line at a depth. -/
def line (depth : Nat) (s : String) : String := String.join (List.replicate depth "  ") ++ s ++ "\n"

def varDef (depth : Nat) (kind : String) (d : VarDef) : String :=
  let head := kind ++ " " ++ d.name ++ Expr.indexText d.dims
  match d.init with
  | some i => line depth (head ++ " = " ++ i.text)
  | none => line depth head

def decl (depth : Nat) (d : Decl) : String :=
  String.join (d.defs.map (varDef depth (if d.isConst then "Const" else "Var")))

mutual

def stmt (depth : Nat) : Stmt → String
  | .block _ ss => line depth "Block" ++ stmts (depth + 1) ss
  | .decl _ d => decl depth d
  | .assign _ _ name indices value =>
    line depth ("Assign " ++ name ++ Expr.indexText indices ++ " = " ++ value.text)
  | .expr _ (some e) => line depth ("Expr " ++ e.text)
  | .expr _ none => line depth "Empty"
  | .cond _ test yes no =>
    line depth ("If " ++ test.text) ++ stmt (depth + 1) yes ++ otherwise depth no
  | .loop _ test body => line depth ("While " ++ test.text) ++ stmt (depth + 1) body
  | .leave _ => line depth "Break"
  | .next _ => line depth "Continue"
  | .ret _ (some e) => line depth ("Return " ++ e.text)
  | .ret _ none => line depth "Return"

def otherwise (depth : Nat) : Option Stmt → String
  | none => ""
  | some s => line depth "Else" ++ stmt (depth + 1) s

def stmts (depth : Nat) : List Stmt → String
  | [] => ""
  | s :: ss => stmt depth s ++ stmts depth ss

end

def param (p : Param) : String :=
  match p.dims with
  | none => "int " ++ p.name
  | some dims => "int " ++ p.name ++ "[]" ++ Expr.indexText dims

def item : Item → String
  | .decl _ d => decl 0 d
  | .func _ f =>
    line 0 ("Func " ++ (if f.isVoid then "void" else "int") ++ " " ++ f.name ++ "(" ++
      String.intercalate ", " (f.params.map param) ++ ")") ++ stmt 1 (.block f.bodySpan f.body)

end Outline

/-- The outline of all items of a program. -/
def Program.outline (p : Program) : String := String.join (p.items.map Outline.item)

end Sysy
