/-!
# Splitting text

A text is cut at every occurrence of a separator; the parts between, empty ones
included, are kept in order.
-/

namespace WatLink
namespace Text

/-- The parts of a list of characters between the occurrences of a separator.
There is always at least one. -/
def splitList (separator : Char) : List Char → List (List Char)
  | [] => [[]]
  | character :: rest =>
      if character = separator then [] :: splitList separator rest
      else
        match splitList separator rest with
        | [] => [[character]]
        | part :: parts => (character :: part) :: parts

/-- The parts of a text between the occurrences of a separator. -/
def split (separator : Char) (text : String) : List String :=
  (splitList separator text.toList).map String.ofList

end Text
end WatLink
