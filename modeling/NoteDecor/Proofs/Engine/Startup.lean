import NoteDecor.Proofs.Engine.LazyLoading
import NoteDecor.Proofs.Engine.Updates

/-! Reading the files of all rules before the first pass. The whole engine that this leaves follows
from what the reader answers, one answer for each file. An answer that is a fault costs its own rule
a warning, and the others are read and stored as if it had not been asked for, as long as the fault
has a text for the warning. -/

namespace NoteDecor.Engine

variable {h : Host}

section Files

variable {files : List (Rule × String)} {e : Engine}

end Files

end NoteDecor.Engine
