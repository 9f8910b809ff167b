namespace PathQuery.Entries

variable {α : Type}

/-- Gives a key its value: in place where the key is known, at the end where it is new. -/
def set (key : String) (value : α) : List (String × α) → List (String × α)
  | [] => [(key, value)]
  | (k, v) :: rest => if k = key then (key, value) :: rest else (k, v) :: set key value rest

/-- A key that comes again keeps its first position and takes the later value. -/
def ofPairs (pairs : List (String × α)) : List (String × α) :=
  pairs.foldl (fun entries p ↦ set p.1 p.2 entries) []

def setSorted (key : String) (value : α) : List (String × α) → List (String × α)
  | [] => [(key, value)]
  | (k, v) :: rest =>
    if key < k then (key, value) :: (k, v) :: rest
    else if key = k then (key, value) :: rest
    else (k, v) :: setSorted key value rest

/-- The entries in ascending order of their keys; of a key that comes again, the later value. -/
def sortPairs (pairs : List (String × α)) : List (String × α) :=
  pairs.foldl (fun entries p ↦ setSorted p.1 p.2 entries) []

end PathQuery.Entries
