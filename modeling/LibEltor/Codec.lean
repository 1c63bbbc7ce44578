/-
Formats and parsers of a wire format.

A value is written by a `format`, travels, and is read back by a `parse`.  What
travels need not arrive bit for bit: a cell is padded on the way.  The relation
`deliver` says which arrivals are possible, and `norm` what the reader is
entitled to of the value that was written.
-/
import Mathlib.Logic.Basic

namespace Codec

variable {α β α' β' ω ω' ν ν' : Type*}

/-- Whatever `format` writes of `a`, and `deliver` lets through, `parse` reads
as `norm a`. -/
def Carries (format : α → Option ω) (deliver : ω → ω' → Prop) (parse : ω' → Option β)
    (norm : α → β) : Prop :=
  ∀ ⦃a w w'⦄, format a = some w → deliver w w' → parse w' = some (norm a)

/-- Whatever `parse` reads of an arrival in `dom`, `format` writes again, up to
`same`. -/
def Reproduces (dom : ω' → Prop) (parse : ω' → Option α) (format : α → Option ω)
    (same : α → ω' → ω → Prop) : Prop :=
  ∀ ⦃w' a⦄, dom w' → parse w' = some a → ∃ w, format a = some w ∧ same a w' w

/-- A relay that reads from one hop, translates and writes to the next. -/
def relay (parse : ω' → Option β) (translate : β → α') (format : α' → Option ν) :
    ω' → Option ν :=
  fun w' => (parse w').bind fun b => format (translate b)

theorem Carries.trans {format : α → Option ω} {deliver : ω → ω' → Prop}
    {parse : ω' → Option β} {norm : α → β} {format' : α' → Option ν}
    {deliver' : ν → ν' → Prop} {parse' : ν' → Option β'} {norm' : α' → β'}
    {translate : β → α'} (h : Carries format deliver parse norm)
    (h' : Carries format' deliver' parse' norm') {a : α} {w : ω} {w' : ω'} {v : ν} {v' : ν'}
    (hf : format a = some w) (hw : deliver w w')
    (hr : relay parse translate format' w' = some v) (hv : deliver' v v') :
    parse' v' = some (norm' (translate (norm a))) := by
  have hp : parse w' = some (norm a) := h hf hw
  have hv' : format' (translate (norm a)) = some v := by
    simpa [relay, hp] using hr
  exact h' hv' hv

end Codec
