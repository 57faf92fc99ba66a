import SolarOs.Writer.History

/-! Recording a replacement: it joins the newest record or becomes one of its own,
and the records stay within their limits. -/
namespace SolarOs.Writer
open EditHistory List

variable {b b' : Buffer} {versions : List Text} {current next : Text} {op : UndoOp} {g : Grants}

section
variable (h : Journal b versions current)
include h

end

end SolarOs.Writer
