import PathQuery.Node.Basic

namespace PathQuery

/-- A result on the way: a node of the input, or a value that the query has built. -/
inductive Selection (N : Type) where
  | borrowed (node : N)
  | owned (value : Value)

namespace Selection

variable {N : Type} [DataNode N]

def null : Selection N := owned .null

def isNull : Selection N → Bool
  | borrowed n => DataNode.isNull n
  | owned v => v.isNull

def isTruthy : Selection N → Bool
  | borrowed n => DataNode.isTruthy n
  | owned v => v.isTruthy

def toValue : Selection N → Value
  | borrowed n => Value.ofNode n
  | owned v => v

def ofNode? : Option N → Selection N
  | some n => borrowed n
  | none => null

end Selection

end PathQuery
