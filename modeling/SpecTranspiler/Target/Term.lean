import SpecTranspiler.Target.Ty

/-!
# Terms and statements of the target language
-/

namespace SpecTranspiler

/-- A literal value. -/
inductive Literal where
  | uint64 (value : UInt64)
  | str (value : String)
  | bool (value : Bool)
  deriving DecidableEq, Repr

mutual

/-- An expression of the target language. `todo` stands where the input holds something
that cannot be expressed. -/
inductive Term where
  | literal (value : Literal)
  | name (name : String)
  | field (base : Term) (field : String)
  | record (name : String) (fields : List (String × Term))
  | variant (enum : String) (variant : String) (args : List Term)
  | tuple (elements : List Term)
  | borrow (operand : Term)
  | call (function : String) (types : List Ty) (args : List Term)
  | typeCall (ty : Ty) (method : String) (types : List Ty) (args : List Term)
  | methodCall (receiver : Term) (method : String) (types : List Ty) (args : List Term)
  | ifElse (condition yes no : Term)
  | negate (operand : Term)
  | add (left right : Term)
  | bind (name : String) (value body : Term)
  | block (body : List Stmt)
  | todo

/-- A statement inside a block or a function body. -/
inductive Stmt where
  | assign (target value : Term)
  | ret (value : Term)

end

instance : Inhabited Term := ⟨.todo⟩

instance : Inhabited Stmt := ⟨.ret .todo⟩

namespace Term

/-- The membership test of a set under a key. -/
def containsKey (set element : Term) : Term :=
  .methodCall (.borrow set) "contains_key" [] [.borrow element]

/-- The set of the keys of a map. -/
def keySet (map : Term) : Term :=
  .methodCall (.methodCall map "keys" [] []) "collect" [Ty.wildcardSet] []

end Term

end SpecTranspiler
