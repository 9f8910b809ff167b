import PathQuery.Function.Signature

namespace PathQuery

inductive Builtin where
  | abs
  | avg
  | ceil
  | contains
  | endsWith
  | floor
  | join
  | keys
  | length
  | map
  | max
  | maxBy
  | merge
  | min
  | minBy
  | notNull
  | reverse
  | sort
  | sortBy
  | startsWith
  | sum
  | toArray
  | toNumber
  | toText
  | type
  | values
deriving DecidableEq, Repr

namespace Builtin

def all : List Builtin :=
  [abs, avg, ceil, contains, endsWith, floor, join, keys, length, map, max, maxBy, merge, min,
    minBy, notNull, reverse, sort, sortBy, startsWith, sum, toArray, toNumber, toText, type, values]

def name : Builtin → String
  | abs => "abs"
  | avg => "avg"
  | ceil => "ceil"
  | contains => "contains"
  | endsWith => "ends_with"
  | floor => "floor"
  | join => "join"
  | keys => "keys"
  | length => "length"
  | map => "map"
  | max => "max"
  | maxBy => "max_by"
  | merge => "merge"
  | min => "min"
  | minBy => "min_by"
  | notNull => "not_null"
  | reverse => "reverse"
  | sort => "sort"
  | sortBy => "sort_by"
  | startsWith => "starts_with"
  | sum => "sum"
  | toArray => "to_array"
  | toNumber => "to_number"
  | toText => "to_string"
  | type => "type"
  | values => "values"

def ofName? (name : String) : Option Builtin := all.find? (·.name == name)

def sortable : List ArgType := [.numberArray, .stringArray]

def signature : Builtin → Signature
  | abs => .fixed [[.number]]
  | avg => .fixed [[.numberArray]]
  | ceil => .fixed [[.number]]
  | contains => .fixed [[.array, .string], [.any]]
  | endsWith => .fixed [[.string], [.string]]
  | floor => .fixed [[.number]]
  | join => .fixed [[.string], [.stringArray]]
  | keys => .fixed [[.object]]
  | length => .fixed [[.string, .array, .object]]
  | map => .fixed [[.reference], [.array]]
  | max => .fixed [sortable]
  | maxBy => .fixed [[.array], [.reference]]
  | merge => .repeating [[.object]]
  | min => .fixed [sortable]
  | minBy => .fixed [[.array], [.reference]]
  | notNull => .repeating [[.any]]
  | reverse => .fixed [[.array, .string]]
  | sort => .fixed [sortable]
  | sortBy => .fixed [[.array], [.reference]]
  | startsWith => .fixed [[.string], [.string]]
  | sum => .fixed [[.numberArray]]
  | toArray => .fixed [[.any]]
  | toNumber => .fixed [[.any]]
  | toText => .fixed [[.any]]
  | type => .fixed [[.any]]
  | values => .fixed [[.object]]

end Builtin

end PathQuery
