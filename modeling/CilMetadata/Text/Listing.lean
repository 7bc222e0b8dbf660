/-!
# Lists in text

* `bracketed` writes the items of a list between square brackets, with commas between them.
-/

namespace CilMetadata.Text

/-- The items of a list between square brackets, with a comma and a blank between them. -/
def bracketed (items : List String) : String := "[" ++ ", ".intercalate items ++ "]"

end CilMetadata.Text
