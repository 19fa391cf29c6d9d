namespace RayCompiler.Text

-- A number in base 16, in lower case and without leading zeros.
def hex (n : Nat) : String := String.ofList (Nat.toDigits 16 n)

-- Whether a character lies in one of the ranges, both ends included.
def inRanges (ranges : List (Nat × Nat)) (c : Char) : Bool :=
  ranges.any fun (first, last) => first ≤ c.toNat && c.toNat ≤ last

-- The characters with the property White_Space.
def blankRanges : List (Nat × Nat) :=
  [
    (0x9, 0xd), (0x20, 0x20), (0x85, 0x85), (0xa0, 0xa0), (0x1680, 0x1680), (0x2000, 0x200a),
    (0x2028, 0x2029), (0x202f, 0x202f), (0x205f, 0x205f), (0x3000, 0x3000)
  ]

def isBlank (c : Char) : Bool := inRanges blankRanges c

end RayCompiler.Text
