/-!
# Occurrence of one text in another
-/
namespace ResourceAgent.Text

/-- The pattern starts at some position of the text. -/
def occursIn (pattern : List Char) : List Char → Bool
  | [] => pattern.isEmpty
  | c :: r => pattern.isPrefixOf (c :: r) || occursIn pattern r

/-- The text contains the pattern as a contiguous part. -/
def contains (text pattern : String) : Bool := occursIn pattern.toList text.toList

/-- Lists joined by a separator that stands between two neighbours only. -/
def joinLists {α : Type} (separator : List α) : List (List α) → List α
  | [] => []
  | [l] => l
  | l :: next :: rest => l ++ (separator ++ joinLists separator (next :: rest))

/-- Texts joined by a separator that stands between two neighbours only. -/
def join (separator : String) (texts : List String) : String :=
  String.ofList (joinLists separator.toList (texts.map String.toList))

end ResourceAgent.Text
