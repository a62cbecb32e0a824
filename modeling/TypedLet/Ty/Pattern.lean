import TypedLet.Ty.Basic

/-
Patterns over types, in which the signatures of the builtins are written. A
pattern may name another one; names are looked up in a table, and the table may
be cyclic, as the one for Comparable is. Matching first unfolds names and sums
at the top until only patterns that look at the type itself remain, and then
descends into the type, so it ends for every table.
-/
namespace TypedLet

inductive TypePattern where
  | exactly (type : Ty)
  | arrayOf (element : TypePattern)
  | tupleOf (element : TypePattern)
  | oneOf (alternatives : List TypePattern)
  | named (name : String)
  | any
deriving Inhabited

namespace TypePattern

mutual
def display : TypePattern → String
  | exactly t => t.display
  | arrayOf p => "Array(" ++ p.display ++ ")"
  | tupleOf p => "Tuple(" ++ p.display ++ "...)"
  | oneOf ps => Text.joined " | " (displayAll ps)
  | named name => name
  | any => "Any"
def displayAll : List TypePattern → List String
  | [] => []
  | p :: ps => p.display :: displayAll ps
end

/-- Named patterns. The last entry for a name counts. -/
abbrev Table := List (String × TypePattern)

def Table.find? (table : Table) (name : String) : Option TypePattern :=
  (table.reverse.find? (·.1 = name)).map (·.2)

mutual
/-- The alternatives of a pattern, with names replaced by `unfold`. -/
def headsWith (unfold : String → List TypePattern) : TypePattern → List TypePattern
  | oneOf ps => allHeadsWith unfold ps
  | named name => unfold name
  | p => [p]
def allHeadsWith (unfold : String → List TypePattern) : List TypePattern → List TypePattern
  | [] => []
  | p :: ps => headsWith unfold p ++ allHeadsWith unfold ps
end

/-- The alternatives behind a name, following at most `budget` names in a row. -/
def unfoldName (table : Table) : Nat → String → List TypePattern
  | 0, _ => []
  | budget + 1, name =>
    match table.find? name with
    | some p => headsWith (unfoldName table budget) p
    | none => []

/-- The alternatives of a pattern that look at the type itself. A chain of names
    longer than the table repeats one, and the repetition adds no alternative. -/
def heads (table : Table) (p : TypePattern) : List TypePattern :=
  headsWith (unfoldName table table.length) p

end TypePattern

namespace Ty

mutual
/-- Whether the type is an instance of the pattern. A name that the table does
    not hold matches nothing. -/
def fits (table : TypePattern.Table) : Ty → TypePattern → Bool
  | array t, p => (p.heads table).any fun
    | .exactly u => u = array t
    | .arrayOf q => t.fits table q
    | .any => true
    | _ => false
  | tuple ts, p => (p.heads table).any fun
    | .exactly u => u = tuple ts
    | .tupleOf q => allFit table ts q
    | .any => true
    | _ => false
  | t, p => (p.heads table).any fun
    | .exactly u => u = t
    | .any => true
    | _ => false
def allFit (table : TypePattern.Table) : List Ty → TypePattern → Bool
  | [], _ => true
  | t :: ts, p => t.fits table p && allFit table ts p
end

/-- Each type fits the pattern at its place, and there are as many. -/
def eachFits (table : TypePattern.Table) : List Ty → List TypePattern → Bool
  | [], [] => true
  | t :: ts, p :: ps => t.fits table p && eachFits table ts ps
  | _, _ => false

end Ty

namespace TypePattern

/-- A type that is one of four scalars or an array of such a type. -/
def scalarOrArrayOf (name : String) : TypePattern :=
  oneOf [exactly .integer, exactly .float, exactly .bool, exactly .str, arrayOf (named name)]

/-- The names every program knows. -/
def standardTable : Table :=
  [("Number", oneOf [exactly .integer, exactly .float]),
   ("Printable", scalarOrArrayOf "Printable"),
   ("Comparable", scalarOrArrayOf "Comparable")]

end TypePattern
end TypedLet
