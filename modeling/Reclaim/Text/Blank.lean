namespace Reclaim.Text

/-- The characters with the Unicode property White_Space. -/
def isBlank (c : Char) : Bool :=
  let n := c.toNat
  (9 ≤ n && n ≤ 13) || n == 0x20 || n == 0x85 || n == 0xa0 || n == 0x1680 ||
    (0x2000 ≤ n && n ≤ 0x200a) || n == 0x2028 || n == 0x2029 || n == 0x202f || n == 0x205f ||
    n == 0x3000

def splitAt (separates : Char → Bool) : List Char → List (List Char)
  | [] => [[]]
  | c :: rest =>
    let parts := splitAt separates rest
    if separates c then [] :: parts
    else match parts with
      | [] => [[c]]
      | part :: others => (c :: part) :: others

def words (s : List Char) : List String :=
  ((splitAt isBlank s).filter fun part => ¬ part.isEmpty).map String.ofList

end Reclaim.Text
