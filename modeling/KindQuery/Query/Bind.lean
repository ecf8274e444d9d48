import KindQuery.Codec.Encode
import KindQuery.Query.Translate
/-!
# Bound queries

The request that is sent for a translated query: its text, and its
parameters in the form in which values travel.
-/

namespace KindQuery

/-- The arguments that travel for parameters. -/
def Param.bindAll : List Param → Except Error (List (String × Wire))
  | [] => .ok []
  | p :: ps => do
    let w ← p.value.toWire
    let ws ← bindAll ps
    .ok ((p.name, w) :: ws)

/-- The request for a translated query. -/
def Compiled.bind (c : Compiled) : Except Error BoundQuery := do
  .ok { BoundQuery.ofText c.text with arguments := ← Param.bindAll c.params }

end KindQuery
