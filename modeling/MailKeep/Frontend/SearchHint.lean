import MailKeep.Frontend.SearchBox

/-! A field name completed in the search box, as the grammar of queries reads it. -/
namespace MailKeep

section
variable {D : Unicode.CaseData}

variable {front word rest value : List Char} {more : List (List Char)}

namespace SearchBox

end SearchBox

end

end MailKeep
