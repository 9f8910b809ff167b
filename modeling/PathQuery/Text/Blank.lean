namespace PathQuery.Text

def isBlank (c : Char) : Bool :=
  let n := c.toNat
  (0x09 ≤ n && n ≤ 0x0D) || n == 0x20 || n == 0x85 || n == 0xA0 || n == 0x1680 ||
    (0x2000 ≤ n && n ≤ 0x200A) || n == 0x2028 || n == 0x2029 || n == 0x202F || n == 0x205F ||
    n == 0x3000

def trimLeft (cs : List Char) : List Char := cs.dropWhile isBlank

def trim (cs : List Char) : List Char := (trimLeft (trimLeft cs).reverse).reverse

/-- Left to right, each occurrence of the two characters `a`, `b` becomes `b` alone. -/
def dropBefore (a b : Char) : List Char → List Char
  | [] => []
  | [c] => [c]
  | c :: d :: cs => if c = a ∧ d = b then b :: dropBefore a b cs else c :: dropBefore a b (d :: cs)

def insertBefore (a b : Char) : List Char → List Char
  | [] => []
  | c :: cs => if c = b then a :: b :: insertBefore a b cs else c :: insertBefore a b cs

end PathQuery.Text
