/-!
# Padded text

Text in columns is filled with spaces at its end. Padding never shortens a text
(`length_padded`).
-/

namespace CodeGolf.Text

/-- A text filled with spaces at its end up to `width` characters. -/
def padded (width : Nat) (text : String) : String :=
  text ++ String.ofList (List.replicate (width - text.length) ' ')

/-- A padded text is as long as the text or the width, whichever is more. -/
theorem length_padded (width : Nat) (text : String) :
    (padded width text).length = max width text.length := by
  rw [padded, String.length_append, String.length_ofList, List.length_replicate]
  omega

end CodeGolf.Text
