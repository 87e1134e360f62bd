import ObDump.Fbs.Layout

/-!
# The field names of a generated table

Library `Fbs`. `src/fbs_gen.cpp:70–103` puts the properties' names and `_reserved_<id>` for the
retired ids into one table. A property may be called what a retired id's place is called.
-/

namespace ObDump

open Base

section

variable {entity : EntityDef}

end

end ObDump
