/-!
# Blank characters

White space is the Unicode property White_Space: 25 code points, no more. The zero-width space
and the byte order mark are not among them. Trimming, the indentation of a line and the words of
an option string are all measured with this one class.
-/
namespace ResourceAgent.Text

/-- Has the property White_Space. -/
def isBlank (c : Char) : Bool :=
  let n := c.toNat
  (0x09 ≤ n && n ≤ 0x0D) || n == 0x20 || n == 0x85 || n == 0xA0 || n == 0x1680 ||
    (0x2000 ≤ n && n ≤ 0x200A) || n == 0x2028 || n == 0x2029 || n == 0x202F || n == 0x205F ||
    n == 0x3000

/-- Drop the blanks before the first other character. -/
def trimStart (cs : List Char) : List Char := cs.dropWhile isBlank

/-- Drop the blanks after the last other character. -/
def trimEnd (cs : List Char) : List Char := (trimStart cs.reverse).reverse

/-- Drop the blanks at both ends. -/
def trim (cs : List Char) : List Char := trimEnd (trimStart cs)

/-- The number of blanks a line starts with. -/
def indent (cs : List Char) : Nat := (cs.takeWhile isBlank).length

theorem length_trimStart_le (cs : List Char) : (trimStart cs).length ≤ cs.length :=
  (List.dropWhile_suffix isBlank).length_le

/-- The maximal runs of characters that are not blank, in order. -/
def words (cs : List Char) : List (List Char) :=
  match _eq : trimStart cs with
  | [] => []
  | c :: r =>
      (c :: r.takeWhile (!isBlank ·)) :: words (r.dropWhile (!isBlank ·))
termination_by cs.length
decreasing_by
  have h₁ := length_trimStart_le cs
  have h₂ := (List.dropWhile_suffix (l := r) (!isBlank ·)).length_le
  rw [_eq] at h₁
  simp only [List.length_cons] at h₁
  omega

/-- A text without its outer blanks. -/
def trimmed (s : String) : String := String.ofList (trim s.toList)

/-- Nothing is left of the text once it is trimmed. -/
def isBlankText (s : String) : Bool := (trim s.toList).isEmpty

/-- The blank-separated words of a text. -/
def wordsOf (s : String) : List String := (words s.toList).map String.ofList

def hasBlank (s : String) : Bool := s.toList.any isBlank

end ResourceAgent.Text
